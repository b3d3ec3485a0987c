-- SUMMARY: Collections and accesses of a property give the same text, but for hidden descriptions.
import RandomTables.Proofs.Directive.Kinds
import RandomTables.Proofs.Evaluation.Spellings

/-!
# Collections of properties

A property of all items of a variable can be read by an access, or listed by a collection. The text of
the one is the text of the other behind the mark of a collection. Both read the same items, leave
out what is empty and join the rest. They differ on descriptions alone: a collection lists those of
the items, where an access prefers a set with that name.
-/
namespace RandomTables

/-! ## Texts -/

namespace Directive

open Text

/-- Modifiers that are all separators are read alike wherever no more is needed. -/
theorem readModifiers_of_plain {raw raw' : List Char} {flag : Option String}
    {modifiers : List (List Char)} {separator : Option String} {flagged : Bool}
    (h : readModifiers raw none modifiers = .ok (separator, flagged)) :
    readModifiers raw' flag modifiers = .ok (separator, false) := by
  induction modifiers generalizing separator flagged with
  | nil =>
      cases h
      rfl
  | cons modifier rest ih =>
      rw [readModifiers] at h ⊢
      split at h
      · rename_i hquotes
        obtain ⟨⟨later, _⟩, hrest, heq⟩ := Except.map_eq_ok h
        cases heq
        rw [if_pos hquotes, ih hrest]
        rfl
      · rw [if_neg (by simp)] at h
        cases h

theorem propertyChain?_ne_nil {fuel : Nat} {cs : List Char} : propertyChain? fuel cs ≠ some [] := by
  cases fuel with
  | zero => exact nofun
  | succ fuel =>
      unfold propertyChain?
      split
      · dsimp only
        split
        · exact nofun
        split
        · exact nofun
        · intro h
          obtain ⟨_, -, h⟩ := Option.map_eq_some_iff.1 h
          cases h
      · exact nofun

/-- One property of all items is what a collection is of. -/
theorem collected?_of_property {base name rest : List Char} {fuel : Nat} {property : String}
    (hhead : captureHead? base = some (name, none, rest))
    (hchain : propertyChain? fuel rest = some [property]) :
    collected? base = some (name, true, property.toList) := by
  unfold captureHead? at hhead
  split at hhead
  · rename_i cs
    dsimp only at hhead
    split at hhead
    · cases hhead
    rename_i hname
    split at hhead
    · cases hhead
    cases hhead
    cases fuel with
    | zero => cases hchain
    | succ fuel =>
        unfold propertyChain? at hchain
        split at hchain
        · rename_i given hafter
          dsimp only at hchain
          split at hchain
          · cases hchain
          rename_i hword
          split at hchain
          · rename_i hend
            cases hchain
            have hwhole : given.takeWhile isWord = given := by
              have hcut := List.takeWhile_append_dropWhile (p := isWord) (l := given)
              rwa [List.isEmpty_iff.1 hend, List.append_nil] at hcut
            rw [hwhole] at hword
            have hgiven : isName given = true := by
              rw [isName, Bool.and_eq_true]
              exact ⟨by simpa using hword, List.all_eq_true.2 (List.takeWhile_eq_self_iff.1 hwhole)⟩
            rw [collected?, hafter]
            simp [hname, hgiven, hwhole]
          · obtain ⟨more, hmore, heq⟩ := Option.map_eq_some_iff.1 hchain
            cases heq
            exact absurd hmore propertyChain?_ne_nil
        · cases hchain
  · cases hhead

theorem readCollect_of_property {cs body : List Char} {name property : String}
    {separator : Option String} (hbody : trim (cs.drop 8) = body)
    (h : readCaptureProperty body = .ok (.captureProperty name none [property] separator)) :
    readCollect cs = .ok (.collect name property (property ≠ "description") false
      (separator.getD defaultSeparator)) := by
  unfold readCaptureProperty at h
  dsimp only at h
  split at h
  · cases h
  rename_i word index rest hhead
  split at h
  · cases h
  rename_i properties hchain
  obtain ⟨⟨_, _⟩, hmodifiers, h⟩ := Except.bind_eq_ok h
  obtain ⟨_, hindex, h⟩ := Except.bind_eq_ok h
  cases h
  obtain rfl : index = none := by
    cases index with
    | none => rfl
    | some index =>
        obtain ⟨_, -, hindex⟩ := Except.map_eq_ok hindex
        cases hindex
  unfold readCollect
  rw [hbody]
  dsimp only
  rw [collected?_of_property hhead hchain]
  dsimp only
  rw [readModifiers_of_plain hmodifiers]
  simp only [bind, Except.bind, pure, Except.pure, String.ofList_toList, Bool.not_true, Bool.false_and,
    Bool.true_and, Bool.false_eq_true, if_false]

/-- A text that is read as the access to a property of all items is read as the collection of that
property behind the mark of one. -/
theorem parse_collection {text : List Char} {raw name property : String} {separator : Option String}
    (h : parse text = .ok (.act raw (.captureProperty name none [property] separator))) :
    ∃ raw', parse ("collect:".toList ++ text) = .ok (.act raw' (.collect name property
      (property ≠ "description") false (separator.getD defaultSeparator))) := by
  obtain ⟨hne, hswitch, -, hread⟩ := action_of_parse h
  have hhead : trimStart "collect:".toList = "collect:".toList := by decide
  obtain ⟨blanks, hblanks, htrim⟩ := trim_append hhead (by decide) hne
  have hmark : holds Switch.startMark ("collect:".toList ++ (blanks ++ trim text)) = false := by
    have hstart : holds Switch.startMark ("collect".toList ++ ':' :: (blanks ++ trim text)) =
        (holds Switch.startMark "collect".toList || holds Switch.startMark (blanks ++ trim text)) :=
      holds_append_cons (by decide) (by decide)
    have hapart : (Switch.startMark.all fun c => !isBlank c) = true := by decide
    have hblank : ∀ c ∈ blanks, c ∉ Switch.startMark := fun c hc hmem => by
      have hsolid := List.all_eq_true.1 hapart c hmem
      rw [hblanks c hc] at hsolid
      exact Bool.false_ne_true hsolid
    refine hstart.trans ?_
    rw [holds_prepend (by decide) hblank]
    exact hswitch
  have hkind : kindOfTrimmed ("collect:".toList ++ (blanks ++ trim text)) = .collect := by
    have hswitch' : ¬ holds "switch[".toList ("collect:".toList ++ (blanks ++ trim text)) = true :=
      Bool.eq_false_iff.1 hmark
    rw [kindOfTrimmed, if_neg hswitch']
    rfl
  have hbody : trim (("collect:".toList ++ (blanks ++ trim text)).drop 8) = trim text := by
    change trim (blanks ++ trim text) = trim text
    rw [trim, trimStart, List.dropWhile_append_of_pos hblanks]
    exact trim_trim text
  have hparse := @parse_of_action ("collect:".toList ++ text)
  rw [htrim] at hparse
  rw [hparse (by simp) (Switch.form?_eq_none.2 hmark), hkind]
  exact ⟨_, congrArg (Except.map (act _)) (readCollect_of_property hbody hread)⟩

end Directive

/-! ## Items -/

namespace Item

/-- No set hides the description of an item. -/
def Described (i : Item) : Prop :=
  ∀ content, i.sets.get? "description" = some content → content.value = i.description.getD ""

/-- A collection takes from an item what an access does. -/
theorem collected_eq_textAt (i : Item) {property : String}
    (h : property = "description" → i.Described) :
    i.collected property (property ≠ "description") = i.textAt [property] := by
  have htext : i.textAt [property] = ((i.property? property).map Content.value).getD "" := by
    rw [textAt, content, follow]
    cases i.property? property <;> rfl
  rw [htext, property?, collected]
  by_cases hproperty : property = "description"
  · subst hproperty
    rw [Assoc.has]
    cases hset : i.sets.get? "description" with
    | none => simp [Content.value]
    | some content => simp [h rfl content hset]
  · simp [hproperty]

end Item

namespace Eval

variable (env : Surroundings) (fuel : Nat) (name collectionId raw : String) (memory : Again)

theorem sameRun_property (property : String) (separator : Option String) :
    SameRun
      (renderDirective env (answerWithin env fuel) collectionId memory
        (.act raw (.captureProperty name none [property] separator)))
      ((fun items => (String.intercalate (separator.getD defaultSeparator)
          ((items.map fun i => i.textAt [property]).filter fun text => !text.isEmpty), memory)) <$>
        readItems env (answerWithin env fuel) name collectionId) := by
  rw [map_eq_pure_bind]
  refine (sameRun_act env fuel collectionId memory raw _).trans ?_
  simp only [renderAction, renderCaptureProperty, chosenItems, bind_assoc, pure_bind]
  refine .bind (sameRun_of_uniform env fuel (.readItems env name collectionId)) fun items => ?_
  exact .annotate _ _ (.pure _)

theorem sameRun_collection (property : String) (fromSets : Bool) (separator : String) :
    SameRun
      (renderDirective env (answerWithin env fuel) collectionId memory
        (.act raw (.collect name property fromSets false separator)))
      ((fun items => (String.intercalate separator
          ((items.map fun i => i.collected property fromSets).filter fun text => !text.isEmpty),
            memory)) <$>
        readItems env (answerWithin env fuel) name collectionId) := by
  rw [map_eq_pure_bind]
  refine (sameRun_act env fuel collectionId memory raw _).trans ?_
  simp only [renderAction, renderCollect, Bool.false_eq_true, if_false, bind_assoc, pure_bind]
  refine .bind (sameRun_of_uniform env fuel (.readItems env name collectionId)) fun items => ?_
  exact .annotate _ _ (.pure _)

/-- The collection of a property gives what the access to it gives, in every evaluation and with
every separator, unless the property is the description and a set of that name hides it. A text that
is the access becomes the collection behind the mark of one. -/
theorem collections_like_accesses {name property : String}
    (hname : Directive.isName name.toList = true)
    (hproperty : Directive.isName property.toList = true) (separator : Option String)
    (written : Action → String) (c : Context) :
    let access := Action.captureProperty name none [property] separator
    let collection := Action.collect name property (property ≠ "description") false
      (separator.getD defaultSeparator)
    let run (action : Action) : Except Failure (String × Again) × Context :=
      renderDirective env (answerWithin env fuel) collectionId memory (.act (written action) action)
        c
    (separator = none → Directive.Spells ("$" ++ (name ++ ".@" ++ property)) access) ∧
    (∀ text raw, Directive.parse text = .ok (.act raw access) →
      ∃ raw', Directive.parse ("collect:".toList ++ text) = .ok (.act raw' collection)) ∧
    ((property = "description" → ∀ items d,
        readItems env (answerWithin env fuel) name collectionId c = (.ok items, d) →
        ∀ i ∈ items, i.Described) →
      Coincide (run collection) (run access)) := by
  intro access collection run
  refine ⟨?_, fun text raw h => Directive.parse_collection h, fun hdescribed => ?_⟩
  · rintro rfl
    exact Directive.spells_property hname hproperty
  · have haccess := sameRun_property env fuel name collectionId (written access) memory property
      separator c c (.refl c)
    have hcollection := sameRun_collection env fuel name collectionId (written collection) memory
      property (property ≠ "description") (separator.getD defaultSeparator) c c (.refl c)
    refine hcollection.trans (Coincide.symm ?_)
    rw [Computation.map_apply] at haccess ⊢
    rcases hitems : readItems env (answerWithin env fuel) name collectionId c with ⟨f | items, d⟩
    · rw [hitems] at haccess
      exact haccess
    · have hsame : (items.map fun i => i.collected property (property ≠ "description")) =
          items.map fun i => i.textAt [property] :=
        List.map_congr_left fun i hi => i.collected_eq_textAt fun h => hdescribed h items d hitems i hi
      rw [hitems] at haccess
      dsimp only [Except.map] at haccess ⊢
      rw [hsame]
      exact haccess

/-- Items with a property that is a text, an item, missing or empty, all of them listed in one order. -/
theorem collections_like_accesses_of_sets :
    let document : Document := { metadata := { name := "n", namespaceText := "c" }, tables := [] }
    let env : Surroundings := {
      registry := ⟨[{ id := "c", document }]⟩, base := {}, config := {}, collectionId := "c"
      statics := [] }
    let c : Context := { captures := [("v", [
      { value := "A", sets := [("p", .text "x")] },
      { value := "B", sets := [("p", .item "y" [("q", .text "z")] none)] },
      { value := "C" }, { value := "D", sets := [("p", .text "")] }])] }
    let run (action : Action) : Except Failure (String × Again) × Context :=
      renderDirective env (answerWithin env 9) "c" .nothing (.act "" action) c
    Coincide (run (.collect "v" "p" true false ", ")) (run (.captureProperty "v" none ["p"] none)) ∧
    (run (.captureProperty "v" none ["p"] none)).1.toOption.map (·.1) = some "x, y" := by
  intro document env c run
  have hname : Directive.isName "v".toList = true := by decide +kernel
  have hproperty : Directive.isName "p".toList = true := by decide +kernel
  obtain ⟨-, -, hsame⟩ :=
    collections_like_accesses env 9 "c" .nothing hname hproperty none (fun _ => "") c
  exact ⟨hsame fun h => absurd h (by decide), by decide +kernel⟩

end Eval

/-- A set hides the description of its entry from an access, and not from a collection. -/
theorem Engine.descriptions_collected_past_sets :
    let document : Document := {
      metadata := { name := "n", namespaceText := "c" }
      tables := [.simple { id := "t", entries := [{
        value := some "v", sets := [("description", "set")], description := some "own" }] }] }
    let e : Engine := { registry := ⟨[{ id := "c", document }]⟩ }
    let shown (text : String) : Option String :=
      (e.evaluate "c" (.pattern ("\x7b\x7bt >> $v|silent\x7d\x7d" ++ text))
        { source := .ofDraws [0] }).result.toOption.map (·.text)
    shown "\x7b\x7b$v.@description\x7d\x7d" = some "set" ∧
    shown "\x7b\x7bcollect:$v.@description\x7d\x7d" = some "own" := by
  intro document e shown
  exact ⟨by decide +kernel, by decide +kernel⟩

end RandomTables
