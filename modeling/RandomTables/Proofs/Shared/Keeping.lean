-- SUMMARY: Shared variables that keep items: where they read as the text of their pattern.
import RandomTables.Proofs.Evaluation.Spellings
import RandomTables.Proofs.Pattern.Tiling
import RandomTables.Proofs.Shared.Frozen

/-!
# Variables that keep items

A shared variable that keeps items evaluates a reference alone in its pattern by itself: it rolls
the table or takes the item that is referred to. Other patterns it evaluates to their text, as all
variables do. Draws, failures and what the evaluation leaves behind are those of the pattern. The
text is that of one item alone, without the blanks of the pattern, and also where the directive
shows a count or the items in a row.
-/
namespace RandomTables

/-! ## The only directive of a pattern -/

/-- The text of a pattern with an output in the place of its only directive. -/
def Span.around (pattern output : String) : String :=
  match Span.find pattern.toList with
  | [span] =>
    String.ofList (Text.slice pattern.toList 0 span.start) ++ output ++
      String.ofList (Text.slice pattern.toList span.stop pattern.toList.length)
  | _ => output

theorem Span.around_eq {pattern : String} {span : Span} (h : Span.find pattern.toList = [span])
    (output : String) :
    Span.around pattern output =
      String.ofList (Text.slice pattern.toList 0 span.start) ++ output ++
        String.ofList (Text.slice pattern.toList span.stop pattern.toList.length) := by
  rw [around, h]

/-- The only directive of a pattern that holds nothing else but blanks. -/
theorem Eval.span_of_onlyDirective {pattern : String} {r : Except Failure Directive}
    (h : onlyDirective pattern = r.map some) :
    ∃ span, Span.find pattern.toList = [span] ∧ Text.trim pattern.toList = span.raw ∧
      Directive.parse span.expression = r := by
  have hsome : ∀ {r r' : Except Failure Directive}, r.map some = r'.map some → r = r' := by
    rintro (f | d) (f' | d') h <;> cases h <;> rfl
  unfold onlyDirective at h
  split at h
  · rename_i span hfind
    split at h
    · exact ⟨span, hfind, ‹_›, hsome h⟩
    · rcases r with f | d <;> cases h
  · rcases r with f | d <;> cases h

/-- Nothing stands around the directive exactly if the pattern has no blanks at its ends. -/
theorem Span.around_eq_output_iff {pattern : String} {span : Span}
    (hfind : Span.find pattern.toList = [span]) (htrim : Text.trim pattern.toList = span.raw) :
    (∀ output, Span.around pattern output = output) ↔
      Text.trim pattern.toList = pattern.toList := by
  obtain ⟨-, hle, hraw, hinside⟩ := hfind ▸ Span.find_inOrder pattern.toList
  have hstop : span.stop ≤ pattern.toList.length := hinside
  constructor
  · intro h
    have hempty := (around_eq hfind "").symm.trans (h "")
    simp only [String.append_empty, String.append_eq_empty_iff, String.ofList_eq_empty_iff]
      at hempty
    have hbefore := congrArg List.length hempty.1
    have hafter := congrArg List.length hempty.2
    rw [Text.length_slice (Nat.le_trans hle hstop), List.length_nil] at hbefore
    rw [Text.length_slice (Nat.le_refl _), List.length_nil] at hafter
    have hstart : span.start = 0 := by omega
    have hend : span.stop = pattern.toList.length := by omega
    rw [htrim, hraw, hstart, hend, Text.slice, List.drop_zero, Nat.sub_zero, List.take_length]
  · intro h output
    have hlength : pattern.toList.length = span.stop - span.start := by
      rw [← Text.length_slice hstop, ← hraw, ← htrim, h]
    have hstart : span.start = 0 := by omega
    have hend : span.stop = pattern.toList.length := by omega
    rw [around_eq hfind, hstart, hend, Text.slice, Text.slice, Nat.sub_self, Nat.sub_self,
      List.take_zero, List.take_zero]
    exact String.append_empty.trans String.empty_append

namespace Eval

section

variable (env : Surroundings) (answer : Answer) (collectionId : String)

/-- A stretch of text in front of other pieces. -/
theorem evalPieces_gap (pattern : List Char) (start stop : Nat) (memory : Again)
    (rest : List Piece) :
    evalPieces env answer collectionId memory (Piece.gap pattern start stop ++ rest) =
      (String.ofList (Text.slice pattern start stop) ++ ·) <$>
        evalPieces env answer collectionId memory rest := by
  rw [Piece.gap]
  split
  · rw [List.singleton_append, evalPieces, map_eq_pure_bind]
  · have hnone : Text.slice pattern start stop = [] := by
      rw [Text.slice, Nat.sub_eq_zero_of_le (Nat.not_lt.1 ‹_›), List.take_zero]
    have hid : (String.ofList [] ++ ·) = id := funext fun _ => String.empty_append
    rw [hnone, hid, id_map, List.nil_append]

/-- A pattern with one span shows the output of its directive. -/
theorem evalPattern_of_span {pattern : String} {span : Span}
    (hfind : Span.find pattern.toList = [span]) :
    evalPattern env answer pattern collectionId =
      (fun rendered => Span.around pattern rendered.1.text) <$>
        renderSpan env answer collectionId .nothing span := by
  rw [evalPattern_eq, Piece.ofPattern, hfind, Piece.between, evalPieces_gap, evalPieces,
    Piece.between, ← List.append_nil (Piece.gap _ span.stop _)]
  simp only [evalPieces_gap, evalPieces, Span.around_eq hfind, map_eq_pure_bind, bind_assoc,
    pure_bind, String.append_empty, String.append_assoc]

/-- A pattern that is a directive shows its output, among blanks. -/
theorem evalPattern_of_only {pattern : String} {d : Directive}
    (h : onlyDirective pattern = .ok (some d)) :
    evalPattern env answer pattern collectionId =
      (fun rendered => Span.around pattern rendered.1) <$>
        renderDirective env answer collectionId .nothing d := by
  obtain ⟨span, hfind, -, hparse⟩ := span_of_onlyDirective (r := .ok d) h
  rw [evalPattern_of_span env answer collectionId hfind, renderSpan, parseSpan, hparse]
  simp only [map_eq_pure_bind, bind_assoc, pure_bind]
  rfl

/-- A pattern that cannot be read fails. -/
theorem evalPattern_of_unreadable {pattern : String} {f : Failure}
    (h : onlyDirective pattern = .error f) (c : Context) :
    Coincide (.error f, c) (evalPattern env answer pattern collectionId c) := by
  obtain ⟨span, hfind, -, hparse⟩ := span_of_onlyDirective (r := .error f) h
  have hread : Coincide (.error f, c) (parseSpan span c) := by
    rw [parseSpan, hparse]
    rcases f with (_ | _ | _ | _ | _ | _) | _ | _
    all_goals exact ⟨rfl, _, _, rfl⟩
  rw [evalPattern_of_span env answer collectionId hfind, renderSpan, Computation.map_apply,
    Computation.bind_apply]
  generalize parseSpan span c = read at hread ⊢
  obtain ⟨result, d⟩ := read
  obtain rfl : result = .error f := hread.1
  exact ⟨rfl, hread.2⟩

end

/-! ## Directives that refer to items -/

/-- The item at an index, counted from the end if it is negative. -/
def itemAt (items : Captured) (index : Int) : Option Item :=
  let place := if index < 0 then index + items.length else index
  if place < 0 then none else items[place.toNat]?

/-- A directive that refers to an item of a variable: the item that it refers to among the items of
the variable, and the text that it shows of them. -/
structure Referral where
  name : String
  item : Captured → Option Item
  shown : Captured → String

/-- What a directive refers to, if a variable can keep it. -/
def referral? : Directive → Option Referral
  | .act _ (.captureProperty name index properties separator) => some {
      name
      item := fun items => (itemAt items (index.getD 0)).bind (·.along properties)
      shown := fun items =>
        let chosen := match index with
          | none => items
          | some index => (itemAt items index).toList
        String.intercalate (separator.getD defaultSeparator)
          ((chosen.map (·.textAt properties)).filter fun text => !text.isEmpty) }
  | .act _ (.captureAccess name (some index) asked separator) => some {
      name
      item := (itemAt · index)
      shown := fun items =>
        if asked = some .count then toString items.length
        else joinItems (separator.getD defaultSeparator) (itemAt items index).toList }
  | _ => none

/-- A directive that shows of some items the one that it refers to, and neither a count nor several
in a row. -/
def ShowsItem (items : Captured) : Directive → Prop
  | .act _ (.captureProperty _ index _ _) => index.isSome ∨ items.length = 1
  | .act _ (.captureAccess _ _ asked _) => asked ≠ some .count
  | _ => True

theorem follow_mono {f g : Item → String → Option Content}
    (h : ∀ i name content, f i name = some content → g i name = some content)
    {c content : Content} {properties : List String}
    (hf : Item.follow f c properties = some content) :
    Item.follow g c properties = some content := by
  induction properties generalizing c with
  | nil => exact hf
  | cons name rest ih =>
      cases c with
      | text s => cases hf
      | item value sets description =>
          obtain ⟨next, hnext, hrest⟩ := Option.bind_eq_some_iff.1 hf
          exact Option.bind_eq_some_iff.2 ⟨next, h _ _ _ hnext, ih hrest⟩

/-- Where a chain of sets leads to an item, its text is that of the chain of properties. -/
theorem textAt_of_along {i j : Item} {properties : List String} (h : i.along properties = some j) :
    i.textAt properties = j.value := by
  obtain ⟨content, hfollow, rfl⟩ := Option.map_eq_some_iff.1 h
  have hproperty : ∀ (i : Item) (name : String) (content : Content),
      i.sets.get? name = some content → i.property? name = some content := by
    intro i name content hname
    have hhas : i.sets.has name = true := by rw [Assoc.has, hname]; rfl
    rw [Item.property?, if_neg fun h => h.2 hhas]
    exact hname
  rw [Item.textAt, follow_mono hproperty hfollow]
  cases content <;> rfl

/-- A directive that shows the item that it refers to shows its value. -/
theorem Referral.shown_eq_value {d : Directive} {r : Referral} (hd : referral? d = some r)
    {items : Captured} (hshows : ShowsItem items d) {i : Item} (hi : r.item items = some i) :
    r.shown items = i.value := by
  have hjoined : ∀ separator : String, String.intercalate separator
      ([i.value].filter fun text => !text.isEmpty) = i.value := by
    intro separator
    by_cases hempty : i.value = ""
    · simp [hempty]
    · simp [hempty]
  unfold referral? at hd
  split at hd
  · rename_i raw name index properties separator
    cases hd
    obtain ⟨j, hj, halong⟩ := Option.bind_eq_some_iff.1 hi
    have htext := textAt_of_along halong
    cases index with
    | none =>
        obtain ⟨only, rfl⟩ := List.length_eq_one_iff.1 (hshows.resolve_left Bool.false_ne_true)
        obtain rfl : only = j := Option.some.inj hj
        simp only [List.map_cons, List.map_nil, htext, hjoined]
    | some index =>
        rw [Option.getD_some] at hj
        simp only [hj, Option.toList_some, List.map_cons, List.map_nil, htext, hjoined]
  · cases hd
    have hi' : itemAt items _ = some i := hi
    refine (if_neg hshows).trans ?_
    rw [hi', Option.toList_some, joinItems_singleton]
  · cases hd

section

variable (env : Surroundings) (fuel : Nat) (collectionId : String)

theorem sameRun_nthItem (items : Captured) (index : Int) (name : String) :
    SameRun (nthItem items index name) (Pure.pure (itemAt items index)) := by
  unfold nthItem itemAt
  dsimp only
  split
  · rename_i item hitem
    rw [hitem]
    exact .pure _
  · rename_i hitem
    rw [hitem]
    exact .log _ _ (.pure _)

/-- A directive takes the item that it refers to. -/
theorem sameRun_referredItem {d : Directive} {r : Referral} (hd : referral? d = some r) :
    SameRun (referredItem env (answerWithin env fuel) collectionId d)
      (r.item <$> readItems env (answerWithin env fuel) r.name collectionId) := by
  unfold referral? at hd
  split at hd
  · cases hd
    rw [map_eq_pure_bind, referredItem]
    refine .bind (sameRun_of_uniform env fuel (.readItems env _ _)) fun items => ?_
    exact .bind (sameRun_nthItem items _ _) fun found => .pure (found.bind _)
  · cases hd
    rw [map_eq_pure_bind, referredItem]
    refine .bind (sameRun_of_uniform env fuel (.readItems env _ _)) fun items => ?_
    exact sameRun_nthItem items _ _
  · cases hd

/-- A directive shows of the items of a variable what it refers to. -/
theorem sameRun_shown {d : Directive} {r : Referral} (hd : referral? d = some r)
    (memory : Again) :
    SameRun (renderDirective env (answerWithin env fuel) collectionId memory d)
      ((fun items => (r.shown items, memory)) <$>
        readItems env (answerWithin env fuel) r.name collectionId) := by
  have hread : ∀ name, SameRun (readItems env (answerWithin env fuel) name collectionId)
      (readItems env (answerWithin env fuel) name collectionId) :=
    fun name => sameRun_of_uniform env fuel (.readItems env name collectionId)
  unfold referral? at hd
  split at hd
  · rename_i raw name index properties separator
    cases hd
    refine (sameRun_act env fuel collectionId memory raw _).trans ?_
    simp only [map_eq_pure_bind, renderAction, renderCaptureProperty, bind_assoc, pure_bind]
    refine .bind (hread name) fun items => ?_
    cases index with
    | none =>
        simp only [chosenItems, pure_bind]
        exact .annotate _ _ (.pure _)
    | some index =>
        simp only [chosenItems, bind_assoc, pure_bind]
        exact (SameRun.bind (sameRun_nthItem items index name) fun _ =>
          .annotate _ _ (.pure _)).trans (.pure _)
  · rename_i raw name index asked separator
    cases hd
    refine (sameRun_act env fuel collectionId memory raw _).trans ?_
    simp only [map_eq_pure_bind, renderAction, renderCaptureAccess, bind_assoc]
    refine .bind (hread name) fun items => .annotate _ _ ?_
    by_cases hcount : asked = some .count
    · simp only [if_pos hcount, pure_bind]
      exact .pure _
    · simp only [if_neg hcount, chosenItems, bind_assoc, pure_bind]
      exact .bind (sameRun_nthItem items index name) fun _ => .pure _
  · cases hd

end

/-! ## Patterns that keep items -/

section

variable (env : Surroundings) (answer : Answer) (collectionId : String) {pattern : String}

theorem onlyTable_of_table {raw ref : String}
    (h : onlyDirective pattern = .ok (some (.act raw (.table ref none)))) :
    onlyTable env pattern collectionId =
      (liftResolution (env.registry.find ref collectionId) >>= fun found =>
        match found with
        | some ⟨.table t, owner⟩ => Pure.pure (some ⟨.table t, owner⟩)
        | _ => Pure.pure none) := by
  rw [onlyTable, h]
  rfl

theorem onlyTable_of_other {only : Option Directive} (h : onlyDirective pattern = .ok only)
    (hother : ∀ raw ref, only ≠ some (.act raw (.table ref none))) :
    onlyTable env pattern collectionId = Pure.pure none := by
  rw [onlyTable, h]
  simp only [lift, pure_bind]

/-- A table that is found alone in a pattern is one that the pattern refers to. -/
theorem find_of_onlyTable {target : Target} {c : Context}
    (h : (onlyTable env pattern collectionId c).1 = .ok (some target)) :
    ∃ raw ref t owner, onlyDirective pattern = .ok (some (.act raw (.table ref none))) ∧
      env.registry.find ref collectionId = .ok (some ⟨.table t, owner⟩) := by
  rcases honly : onlyDirective pattern with f | only
  · rw [onlyTable, honly] at h
    cases h
  by_cases htable : ∃ raw ref, only = some (.act raw (.table ref none))
  · obtain ⟨raw, ref, rfl⟩ := htable
    rw [onlyTable_of_table env collectionId honly] at h
    rcases hfind : env.registry.find ref collectionId with e | _ | ⟨t | t, owner⟩
    all_goals rw [hfind] at h
    · cases h
    · cases h
    · exact ⟨raw, ref, t, owner, rfl, hfind⟩
    · cases h
  · rw [onlyTable_of_other env collectionId honly fun raw ref heq => htable ⟨raw, ref, heq⟩] at h
    cases h

/-- A directive that refers to an item is no reference to a table. -/
theorem ne_table_of_referral {d : Directive} {r : Referral} (hd : referral? d = some r)
    (raw ref : String) : some d ≠ some (.act raw (.table ref none)) := by
  rintro h
  obtain rfl := Option.some.inj h
  cases hd

theorem referredItem_of_none {d : Directive} (hd : referral? d = none) :
    referredItem env answer collectionId d = Pure.pure none := by
  cases d with
  | switch raw subject branches otherwise => rfl
  | act raw action =>
      cases action with
      | captureProperty name index properties separator => cases hd
      | captureAccess name index asked separator =>
          cases index with
          | none => rfl
          | some index => cases hd
      | _ => rfl

/-- A table alone in a pattern is rolled for its item. -/
theorem evalKeeping_of_table {target : Target}
    (h : onlyTable env pattern collectionId = Pure.pure (some target)) :
    Item.value <$> evalKeeping env answer pattern collectionId =
      Outcome.text <$> answer (.roll target []) := by
  rw [evalKeeping, h]
  simp only [map_eq_pure_bind, bind_assoc, pure_bind]
  rfl

/-- A pattern without a reference keeps its text. -/
theorem evalKeeping_of_text {only : Option Directive} (h : onlyDirective pattern = .ok only)
    (htable : onlyTable env pattern collectionId = Pure.pure none)
    (hreferral : ∀ d, only = some d → referral? d = none) :
    Item.value <$> evalKeeping env answer pattern collectionId =
      answer (.pattern pattern collectionId) := by
  rw [evalKeeping, htable, h]
  cases only with
  | none =>
      simp only [map_eq_pure_bind, bind_assoc, pure_bind, lift]
      exact bind_pure _
  | some d =>
      simp only [map_eq_pure_bind, bind_assoc, pure_bind, lift,
        referredItem_of_none env answer collectionId (hreferral d rfl)]
      exact bind_pure _

/-- What is referred to is kept, or else the text of the pattern. -/
theorem evalKeeping_of_referral {d : Directive} {r : Referral}
    (h : onlyDirective pattern = .ok (some d)) (hd : referral? d = some r) :
    Item.value <$> evalKeeping env answer pattern collectionId =
      (referredItem env answer collectionId d >>= fun referred =>
        match referred with
        | some item => Pure.pure item.value
        | none => answer (.pattern pattern collectionId)) := by
  rw [evalKeeping, onlyTable_of_other env collectionId h (ne_table_of_referral hd), h]
  simp only [map_eq_pure_bind, bind_assoc, pure_bind, lift]
  refine congrArg _ (funext fun referred => ?_)
  cases referred with
  | none =>
      simp only [bind_assoc, pure_bind]
      exact bind_pure _
  | some item => rfl

end

/-! ## The same calls with different bounds -/

section

variable {env : Surroundings} {α : Type} {c d : Context} (n m : Nat)

/-- A result that is not due to the bound on open calls. -/
def Finished (r : Except Failure α) : Prop := r ≠ .error .outOfFuel

theorem Finished.of_map {β : Type} {r : Except Failure α} {f : α → β}
    (h : Finished (r.map f)) : Finished r := by
  rintro rfl
  exact h rfl

/-- What has a finished result has a finished first part. -/
theorem Finished.of_bind {β : Type} {x : Eval α} {f : α → Eval β}
    (h : Finished ((x >>= f) c).1) : Finished (x c).1 :=
  fun hshort => h (Computation.bind_of_error hshort)

theorem Alike.coincide {x y : Eval α} (h : Alike [] True x y) (hcd : c.Retraced d)
    (hx : Finished (x c).1) (hy : Finished (y d).1) : Coincide (x c) (y d) := by
  rcases h [] c d hcd.displaced with (⟨-, hshort | hshort⟩ | ⟨hnil, -⟩) | ⟨hresult, hplaces⟩
  · exact absurd hshort hx
  · exact absurd hshort hy
  · exact absurd rfl hnil
  · exact ⟨hresult, (Context.displaced_nil.1 hplaces).2.2⟩

theorem coincide_call (call : Call α) (hcd : c.Retraced d)
    (hn : Finished (answerWithin env n call c).1) (hm : Finished (answerWithin env m call d).1) :
    Coincide (answerWithin env n call c) (answerWithin env m call d) :=
  (alike_answers env (.inr trivial) call).coincide hcd hn hm

theorem coincide_readItems (name collectionId : String) (hcd : c.Retraced d)
    (hn : Finished (readItems env (answerWithin env n) name collectionId c).1)
    (hm : Finished (readItems env (answerWithin env m) name collectionId d).1) :
    Coincide (readItems env (answerWithin env n) name collectionId c)
      (readItems env (answerWithin env m) name collectionId d) :=
  ((Uniform.readItems env name collectionId).alike
    fun call => alike_answers env (.inr trivial) call).coincide hcd hn hm

end

/-- Items that were read are read again, unless the reading captured the variable. -/
theorem readItems_again {env : Surroundings} {c e : Context} {fuel : Nat}
    {name collectionId : String} {items : Captured} (hc : c.shared.Sound)
    (h : readItems env (answerWithin env fuel) name collectionId c = (.ok items, e))
    (hcaptured : c.captures.has name = true ∨ e.captures.has name = false) (answer : Answer) :
    readItems env answer name collectionId e = (.ok items, e) := by
  rw [readItems, Computation.get_bind_apply] at h
  rw [readItems, Computation.get_bind_apply]
  cases hcapture : c.captures.get? name with
  | some captured =>
      rw [hcapture] at h
      cases h
      rw [hcapture]
      rfl
  | none =>
      rw [Assoc.has, hcapture] at hcaptured
      have hnone : e.captures.get? name = none :=
        Option.not_isSome_iff_eq_none.1 fun hsome =>
          Bool.false_ne_true ((hcaptured.resolve_left Bool.false_ne_true).symm.trans hsome)
      rw [hcapture] at h
      rw [hnone]
      obtain ⟨found, d, hread, hrest⟩ := Computation.bind_eq_ok h
      dsimp only
      cases found with
      | some value =>
          cases hrest
          have hknown := find_of_readShared hc hread
          rw [Computation.bind_apply, readShared_apply, hknown]
          rfl
      | none =>
          have hundeclared := declares_of_readShared hread
          have hsame : d = c := by
            rw [readShared_of_not_declares _ hundeclared] at hread
            cases hread
            rfl
          subst hsame
          cases hstatic : staticText? env name collectionId with
          | none =>
              rw [hstatic] at hrest
              cases hrest
          | some text =>
              rw [hstatic] at hrest
              cases hrest
              rw [Computation.bind_apply, readShared_of_not_declares _ hundeclared]
              rfl

/-! ## An item beside the text of its pattern -/

section

variable {env : Surroundings} {n m : Nat} {pattern collectionId : String} {c : Context}
  (hkept :
    Finished ((Item.value <$> evalKeeping env (answerWithin env n) pattern collectionId) c).1)
  (hplain : Finished (answerWithin env m (.pattern pattern collectionId) c).1)

theorem answerWithin_pattern (fuel : Nat) :
    answerWithin env (fuel + 1) (.pattern pattern collectionId) =
      evalPattern env (answerWithin env fuel) pattern collectionId := answerWithin_succ env fuel _

/-- A pattern that refers to items shows what its directive shows of them. -/
theorem shown_of_referral {d : Directive} {r : Referral}
    (h : onlyDirective pattern = .ok (some d)) (hd : referral? d = some r) (fuel : Nat)
    {c e : Context} (hce : c.Retraced e) :
    Coincide (answerWithin env (fuel + 1) (.pattern pattern collectionId) c)
      (((fun items => Span.around pattern (r.shown items)) <$>
        readItems env (answerWithin env fuel) r.name collectionId) e) := by
  have hshown := sameRun_shown env fuel collectionId hd .nothing c e hce
  rw [Computation.map_apply] at hshown
  rw [answerWithin_pattern, evalPattern_of_only env _ collectionId h, Computation.map_apply,
    Computation.map_apply]
  refine ⟨?_, hshown.2⟩
  rw [← hshown.1, result_map_map]

include hkept hplain

omit hkept in
theorem kept_of_unreadable {f : Failure} (h : onlyDirective pattern = .error f) :
    Coincide ((Item.value <$> evalKeeping env (answerWithin env n) pattern collectionId) c)
      (answerWithin env m (.pattern pattern collectionId) c) := by
  have hfails : (Item.value <$> evalKeeping env (answerWithin env n) pattern collectionId) c =
      (.error f, c) := by
    rw [evalKeeping, onlyTable, h]
    rfl
  rw [hfails]
  cases m with
  | zero => exact absurd rfl hplain
  | succ m =>
      rw [answerWithin_pattern]
      exact evalPattern_of_unreadable env _ collectionId h c

theorem kept_of_text {only : Option Directive} (h : onlyDirective pattern = .ok only)
    (htable : onlyTable env pattern collectionId = Pure.pure none)
    (hreferral : ∀ d, only = some d → referral? d = none) :
    Coincide ((Item.value <$> evalKeeping env (answerWithin env n) pattern collectionId) c)
      (answerWithin env m (.pattern pattern collectionId) c) := by
  rw [evalKeeping_of_text env (answerWithin env n) collectionId h htable hreferral] at hkept ⊢
  exact coincide_call n m _ (.refl c) hkept hplain

omit hkept in
/-- A table alone in a pattern that cannot be looked up is not found by either. -/
theorem kept_of_unresolved {raw ref : String} {e : ResolutionFailure}
    (h : onlyDirective pattern = .ok (some (.act raw (.table ref none))))
    (hfind : env.registry.find ref collectionId = .error e) :
    Coincide ((Item.value <$> evalKeeping env (answerWithin env n) pattern collectionId) c)
      (answerWithin env m (.pattern pattern collectionId) c) := by
  have hfails : (Item.value <$> evalKeeping env (answerWithin env n) pattern collectionId) c =
      (.error (.error (.resolution e)), c) := by
    rw [evalKeeping, onlyTable_of_table env collectionId h, hfind]
    rfl
  have hresolve : env.registry.resolve ref collectionId = .error e := by
    rw [Registry.resolve, hfind]
    rfl
  rw [hfails]
  cases m with
  | zero => exact absurd rfl hplain
  | succ m =>
      have hdirective := sameRun_act env m collectionId .nothing raw (.table ref none) c c (.refl c)
      rw [renderAction, renderTable, rollReference, hresolve] at hdirective
      rw [answerWithin_pattern, evalPattern_of_only env _ collectionId h, Computation.map_apply]
      refine ⟨?_, hdirective.2.symm⟩
      rw [← hdirective.1]
      rfl

theorem kept_of_roll {raw ref : String} {t : Table} {owner : String}
    (h : onlyDirective pattern = .ok (some (.act raw (.table ref none))))
    (hfind : env.registry.find ref collectionId = .ok (some ⟨.table t, owner⟩)) :
    let kept := (Item.value <$> evalKeeping env (answerWithin env n) pattern collectionId) c
    Coincide (kept.1.map (Span.around pattern), kept.2)
      (answerWithin env m (.pattern pattern collectionId) c) := by
  intro kept
  have htable : onlyTable env pattern collectionId =
      Pure.pure (some ⟨.table t, owner⟩) := by
    rw [onlyTable_of_table env collectionId h, hfind]
    rfl
  have hresolve : env.registry.resolve ref collectionId = .ok ⟨.table t, owner⟩ := by
    rw [Registry.resolve, hfind]
    rfl
  have hkeeps : kept = ((answerWithin env n (.roll ⟨.table t, owner⟩ []) c).1.map Outcome.text,
      (answerWithin env n (.roll ⟨.table t, owner⟩ []) c).2) := by
    rw [← Computation.map_apply, ← evalKeeping_of_table env _ collectionId htable]
  have hrolled : Finished (answerWithin env n (.roll ⟨.table t, owner⟩ []) c).1 := by
    have hmapped : Finished kept.1 := hkept
    rw [hkeeps] at hmapped
    exact hmapped.of_map
  cases m with
  | zero => exact absurd rfl hplain
  | succ m =>
      have hshown : SameRun
          (renderDirective env (answerWithin env m) collectionId .nothing
            (.act raw (.table ref none)))
          ((fun o => (o.text, Again.ref ref)) <$>
            answerWithin env m (.roll ⟨.table t, owner⟩ [])) := by
        refine (sameRun_act env m collectionId .nothing raw _).trans ?_
        simp only [map_eq_pure_bind, renderAction, renderTable, rollReference, hresolve,
          liftResolution, bind_assoc, pure_bind]
        exact .bind (sameRun_call env m _) fun o => .annotate _ _ (.pure _)
      have hdirective := hshown c c (.refl c)
      rw [answerWithin_pattern, evalPattern_of_only env _ collectionId h,
        Computation.map_apply] at hplain ⊢
      rw [Computation.map_apply] at hdirective
      have hrolled' : Finished (answerWithin env m (.roll ⟨.table t, owner⟩ []) c).1 := by
        have hmapped := hplain.of_map
        rw [← hdirective.1] at hmapped
        exact hmapped.of_map
      have hsame := coincide_call n m _ (.refl c) hrolled hrolled'
      rw [hkeeps]
      refine ⟨?_, hsame.2.trans hdirective.2.symm⟩
      change _ = ((answerWithin env n (.roll ⟨.table t, owner⟩ []) c).1.map Outcome.text).map _
      rw [← hdirective.1, hsame.1, result_map_map, result_map_map]

omit hplain in
/-- Keeping a reference reads the items that are referred to. -/
theorem finished_readItems {d : Directive} {r : Referral}
    (h : onlyDirective pattern = .ok (some d)) (hd : referral? d = some r) :
    Finished (readItems env (answerWithin env n) r.name collectionId c).1 := by
  have hitem := sameRun_referredItem env n collectionId hd c c (.refl c)
  rw [evalKeeping_of_referral env _ collectionId h hd] at hkept
  have hmapped := hkept.of_bind
  rw [← hitem.1, Computation.map_apply] at hmapped
  exact hmapped.of_map

omit hplain in
/-- The item that is kept is picked from the items that are read. -/
theorem coincide_referredItem {d : Directive} {r : Referral}
    (h : onlyDirective pattern = .ok (some d)) (hd : referral? d = some r) (fuel : Nat)
    {result : Except Failure Captured} {e : Context}
    (hread : readItems env (answerWithin env fuel) r.name collectionId c = (result, e))
    (hresult : Finished result) :
    Coincide (result.map r.item, e) (referredItem env (answerWithin env n) collectionId d c) := by
  have hitem := sameRun_referredItem env n collectionId hd c c (.refl c)
  rw [Computation.map_apply] at hitem
  have hfinished : Finished (readItems env (answerWithin env n) r.name collectionId c).1 :=
    finished_readItems hkept h hd
  have hsame := coincide_readItems fuel n r.name collectionId (.refl c)
    (hread.symm ▸ hresult) hfinished
  rw [hread] at hsame
  refine .trans ⟨?_, hsame.2⟩ hitem.symm
  rw [hsame.1]

omit hkept in
/-- The pattern shows what its directive shows of the items that are read. -/
theorem coincide_shown {d : Directive} {r : Referral}
    (h : onlyDirective pattern = .ok (some d)) (hd : referral? d = some r) (fuel : Nat)
    {result : Except Failure Captured} {e : Context}
    (hread : readItems env (answerWithin env fuel) r.name collectionId c = (result, e))
    (hresult : Finished result) :
    Coincide (result.map fun items => Span.around pattern (r.shown items), e)
      (answerWithin env m (.pattern pattern collectionId) c) := by
  cases m with
  | zero => exact absurd rfl hplain
  | succ m =>
      have hitems : Coincide (answerWithin env (m + 1) (.pattern pattern collectionId) c) _ :=
        shown_of_referral h hd m (.refl c)
      rw [Computation.map_apply] at hitems
      have hfinished : Finished (readItems env (answerWithin env m) r.name collectionId c).1 := by
        rw [← hitems.1] at hplain
        exact hplain.of_map
      have hsame := coincide_readItems fuel m r.name collectionId (.refl c)
        (hread.symm ▸ hresult) hfinished
      rw [hread] at hsame
      refine .trans ⟨?_, hsame.2⟩ hitems.symm
      rw [hsame.1]

/-- A variable that keeps a reference takes the item that is referred to, where the pattern shows
what the directive shows of the items. -/
theorem kept_of_referral {d : Directive} {r : Referral}
    (h : onlyDirective pattern = .ok (some d)) (hd : referral? d = some r) (fuel : Nat) :
    let kept := (Item.value <$> evalKeeping env (answerWithin env n) pattern collectionId) c
    let plain := answerWithin env m (.pattern pattern collectionId) c
    (∀ f e, readItems env (answerWithin env fuel) r.name collectionId c = (.error f, e) →
      f ≠ .outOfFuel → Coincide (.error f, e) kept ∧ Coincide (.error f, e) plain) ∧
    ∀ items e, readItems env (answerWithin env fuel) r.name collectionId c = (.ok items, e) →
      Coincide (.ok (Span.around pattern (r.shown items)), e) plain ∧
      (∀ i, r.item items = some i → Coincide (.ok i.value, e) kept) ∧
      (r.item items = none → c.shared.Sound →
        c.captures.has r.name = true ∨ e.captures.has r.name = false → Coincide kept plain) := by
  intro kept plain
  have hkeeps : kept = (referredItem env (answerWithin env n) collectionId d >>= fun referred =>
      match referred with
      | some item => Pure.pure item.value
      | none => answerWithin env n (.pattern pattern collectionId)) c := by
    rw [← evalKeeping_of_referral env _ collectionId h hd]
  refine ⟨fun f e hread hf => ?_, fun items e hread => ?_⟩
  · have hfinished : Finished (.error f : Except Failure Captured) :=
      fun hshort => hf (Except.error.inj hshort)
    have hfailed := coincide_referredItem hkept h hd fuel hread hfinished
    refine ⟨?_, coincide_shown hplain h hd fuel hread hfinished⟩
    rw [hkeeps, Computation.bind_apply]
    generalize referredItem env (answerWithin env n) collectionId d c = referred at hfailed ⊢
    obtain ⟨result, e'⟩ := referred
    obtain rfl : result = .error f := hfailed.1
    exact ⟨rfl, hfailed.2⟩
  · have hfinished : Finished (.ok items : Except Failure Captured) := nofun
    have htaken := coincide_referredItem hkept h hd fuel hread hfinished
    have hplainShown := coincide_shown hplain h hd fuel hread hfinished
    obtain ⟨e', htook, hretraced⟩ : ∃ e', referredItem env (answerWithin env n) collectionId d c =
        (.ok (r.item items), e') ∧ e.Retraced e' := by
      generalize referredItem env (answerWithin env n) collectionId d c = referred at htaken ⊢
      obtain ⟨result, e'⟩ := referred
      obtain rfl : result = .ok (r.item items) := htaken.1
      exact ⟨e', rfl, htaken.2⟩
    refine ⟨hplainShown, fun i hi => ?_, fun hnone hsound hcaptured => ?_⟩
    · rw [hkeeps, Computation.bind_apply, htook, hi]
      exact ⟨rfl, hretraced⟩
    · have hfalls : kept = answerWithin env n (.pattern pattern collectionId) e' := by
        rw [hkeeps, Computation.bind_apply, htook, hnone]
      have hended : Finished kept.1 := hkept
      rw [hfalls] at hended ⊢
      cases n with
      | zero => exact absurd rfl hended
      | succ n =>
          have htext : Coincide (answerWithin env (n + 1) (.pattern pattern collectionId) e') _ :=
            shown_of_referral h hd n hretraced.symm
          rw [Computation.map_apply, readItems_again hsound hread hcaptured] at htext
          exact htext.trans hplainShown

end

/-- The text of a variable is that of the item that it keeps, or that of its pattern. -/
theorem sameRun_shared (env : Surroundings) (fuel : Nat) (owner collectionId : String)
    (d : Declaration) :
    let home := if collectionId.isEmpty then env.collectionId else collectionId
    SameRun (Content.value <$> answerWithin env (fuel + 1) (.shared owner collectionId d))
      (if d.keepsItem then Item.value <$> evalKeeping env (answerWithin env fuel) d.pattern home
        else answerWithin env fuel (.pattern d.pattern home)) := by
  intro home
  have hvalue : SameRun (answerWithin env (fuel + 1) (.shared owner collectionId d))
      (evalDeclaration env (answerWithin env fuel) d home) := by
    rw [answerWithin_succ]
    refine .traced _ fun node => ?_
    have hset : SameRun
        (evalDeclaration env (answerWithin env fuel) d home >>= fun value =>
          Eval.setValue node (.str value.value) >>= fun _ => Pure.pure value)
        (evalDeclaration env (answerWithin env fuel) d home >>= Pure.pure) :=
      .bind (sameRun_of_uniform env fuel (.evalDeclaration env home d)) fun _ =>
        .setValue _ _ (.pure _)
    rwa [bind_pure] at hset
  have htext : SameRun
      (Content.value <$> answerWithin env (fuel + 1) (.shared owner collectionId d))
      (Content.value <$> evalDeclaration env (answerWithin env fuel) d home) := by
    rw [map_eq_pure_bind, map_eq_pure_bind]
    exact .bind hvalue fun _ => .pure _
  have hdeclared : Content.value <$> evalDeclaration env (answerWithin env fuel) d home =
      if d.keepsItem then Item.value <$> evalKeeping env (answerWithin env fuel) d.pattern home
      else answerWithin env fuel (.pattern d.pattern home) := by
    unfold evalDeclaration
    split
    · simp only [map_eq_pure_bind, bind_assoc, pure_bind]
      rfl
    · simp only [map_eq_pure_bind, bind_assoc, pure_bind]
      exact bind_pure _
  rwa [hdeclared] at htext

/-- A shared variable that keeps items is read beside the same one that does not. A table alone in
its pattern gives the same roll, without the blanks of the pattern. A reference gives the item that
is referred to, where the pattern shows what the directive shows; where there is no such item, and
for all other patterns, both read alike. So they do where the pattern has no blanks at its ends, a
reference shows just the item that it refers to, and reading what it refers to does not capture it
anew. -/
theorem kept_item_beside_text (env : Surroundings) (n m : Nat) (owner collectionId : String)
    (d : Declaration) (c : Context) :
    let home := if collectionId.isEmpty then env.collectionId else collectionId
    let read (keepsItem : Bool) (fuel : Nat) : Except Failure String × Context :=
      (Content.value <$> answerWithin env fuel (.shared owner collectionId { d with keepsItem })) c
    let kept := read true n
    let plain := read false m
    let only := onlyDirective d.pattern
    let isTable (raw ref : String) (t : Table) (home' : String) : Prop :=
      only = .ok (some (.act raw (.table ref none))) ∧
        env.registry.find ref home = .ok (some ⟨.table t, home'⟩)
    let items (r : Referral) (fuel : Nat) := readItems env (answerWithin env fuel) r.name home c
    let settled (r : Referral) (e : Context) : Prop :=
      c.captures.has r.name = true ∨ e.captures.has r.name = false
    Finished kept.1 → Finished plain.1 →
    (∀ raw ref t home', isTable raw ref t home' →
      Coincide (kept.1.map (Span.around d.pattern), kept.2) plain) ∧
    (∀ directive r fuel, only = .ok (some directive) → referral? directive = some r →
      (∀ f e, items r fuel = (.error f, e) → f ≠ .outOfFuel →
        Coincide (.error f, e) kept ∧ Coincide (.error f, e) plain) ∧
      ∀ found e, items r fuel = (.ok found, e) →
        Coincide (.ok (Span.around d.pattern (r.shown found)), e) plain ∧
        (∀ i, r.item found = some i → Coincide (.ok i.value, e) kept) ∧
        (r.item found = none → c.shared.Sound → settled r e → Coincide kept plain)) ∧
    ((∀ raw ref t home', ¬ isTable raw ref t home') →
      (∀ directive, only = .ok (some directive) → referral? directive = none) →
      Coincide kept plain) ∧
    (c.shared.Sound → Text.trim d.pattern.toList = d.pattern.toList →
      (∀ directive r fuel found e, only = .ok (some directive) → referral? directive = some r →
        items r fuel = (.ok found, e) → ShowsItem found directive ∧ settled r e) →
      Coincide kept plain) := by
  intro home read kept plain only isTable items settled hkept hplain
  rcases n with _ | n
  · exact absurd rfl hkept
  rcases m with _ | m
  · exact absurd rfl hplain
  let p := (Item.value <$> evalKeeping env (answerWithin env n) d.pattern home) c
  let q := answerWithin env m (.pattern d.pattern home) c
  have hkeeps : Coincide kept p :=
    sameRun_shared env n owner collectionId { d with keepsItem := true } c c (.refl c)
  have hshows : Coincide plain q :=
    sameRun_shared env m owner collectionId { d with keepsItem := false } c c (.refl c)
  have hp : Finished p.1 := by
    rw [hkeeps.1]
    exact hkept
  have hq : Finished q.1 := by
    rw [hshows.1]
    exact hplain
  have hboth : Coincide p q → Coincide kept plain := fun h => hkeeps.trans (h.trans hshows.symm)
  have hroll : ∀ raw ref t home', isTable raw ref t home' →
      Coincide (kept.1.map (Span.around d.pattern), kept.2) plain := by
    rintro raw ref t home' ⟨honly, hfind⟩
    have hsame : Coincide (kept.1.map (Span.around d.pattern), kept.2)
        (p.1.map (Span.around d.pattern), p.2) := ⟨congrArg (Except.map _) hkeeps.1, hkeeps.2⟩
    exact hsame.trans ((kept_of_roll hp hq honly hfind).trans hshows.symm)
  have hreferral := fun directive r fuel (honly : only = .ok (some directive))
      (hr : referral? directive = some r) => kept_of_referral hp hq honly hr fuel
  have htext : (∀ raw ref t home', ¬ isTable raw ref t home') →
      (∀ directive, only = .ok (some directive) → referral? directive = none) →
      Coincide kept plain := by
    intro hnotable hnone
    refine hboth ?_
    rcases honly : onlyDirective d.pattern with f | _ | directive
    · exact kept_of_unreadable hq honly
    · exact kept_of_text hp hq honly (onlyTable_of_other env home honly nofun) nofun
    have hkeepsText := fun htable => kept_of_text hp hq honly htable
      fun directive' heq => hnone directive' (honly.trans (congrArg Except.ok heq))
    by_cases htable : ∃ raw ref, directive = .act raw (.table ref none)
    · obtain ⟨raw, ref, rfl⟩ := htable
      have hlookup := onlyTable_of_table env home honly
      rcases hfind : env.registry.find ref home with e | _ | ⟨t | t, home'⟩
      · exact kept_of_unresolved hq honly hfind
      · exact hkeepsText (by rw [hlookup, hfind]; rfl)
      · exact absurd ⟨honly, hfind⟩ (hnotable raw ref t home')
      · exact hkeepsText (by rw [hlookup, hfind]; rfl)
    · exact hkeepsText (onlyTable_of_other env home honly fun raw ref heq =>
        htable ⟨raw, ref, Option.some.inj heq⟩)
  refine ⟨hroll, fun directive r fuel honly hr => ⟨fun f e hitems hf => ?_,
    fun found e hitems => ⟨?_, fun i hi => ?_, fun hi hsound hsettled => ?_⟩⟩, htext,
    fun hsound htrim hsettled => ?_⟩
  · obtain ⟨hfirst, hsecond⟩ := (hreferral directive r fuel honly hr).1 f e hitems hf
    exact ⟨hfirst.trans hkeeps.symm, hsecond.trans hshows.symm⟩
  · exact ((hreferral directive r fuel honly hr).2 found e hitems).1.trans hshows.symm
  · exact (((hreferral directive r fuel honly hr).2 found e hitems).2.1 i hi).trans hkeeps.symm
  · exact hboth (((hreferral directive r fuel honly hr).2 found e hitems).2.2 hi hsound hsettled)
  have haround : ∀ {directive}, only = .ok (some directive) → Span.around d.pattern = id := by
    intro directive honly
    obtain ⟨span, hfind, hspan, -⟩ := span_of_onlyDirective (r := .ok directive) honly
    exact funext ((Span.around_eq_output_iff hfind hspan).2 htrim)
  by_cases htable : ∃ raw ref t home', isTable raw ref t home'
  · obtain ⟨raw, ref, t, home', honly, hfind⟩ := htable
    have hrolled := hroll raw ref t home' ⟨honly, hfind⟩
    have hmap : kept.1.map id = kept.1 := by cases kept.1 <;> rfl
    rwa [haround honly, hmap] at hrolled
  by_cases hreferred : ∃ directive r, only = .ok (some directive) ∧ referral? directive = some r
  · obtain ⟨directive, r, honly, hr⟩ := hreferred
    have hfinished : Finished (items r n).1 := finished_readItems hp honly hr
    refine hboth ?_
    rcases hitems : items r n with ⟨f | found, e⟩
    · rw [hitems] at hfinished
      obtain ⟨hfirst, hsecond⟩ := (hreferral directive r n honly hr).1 f e hitems
        fun hshort => hfinished (congrArg Except.error hshort)
      exact hfirst.symm.trans hsecond
    · obtain ⟨hshown, htaken, hmissing⟩ := (hreferral directive r n honly hr).2 found e hitems
      obtain ⟨hitem, hset⟩ := hsettled directive r n found e honly hr hitems
      cases hi : r.item found with
      | none => exact hmissing hi hsound hset
      | some i =>
          rw [haround honly, Referral.shown_eq_value hr hitem hi] at hshown
          exact (htaken i hi).symm.trans hshown
  · refine htext (fun raw ref t home' h => htable ⟨raw, ref, t, home', h⟩) fun directive honly => ?_
    cases hr : referral? directive with
    | none => rfl
    | some r => exact absurd ⟨directive, r, honly, hr⟩ hreferred

/-- A roll kept without the blank in front of it, and read with the blank where it is not kept. -/
theorem kept_roll_beside_text :
    let t : Table := .simple { id := "t", entries := [{ value := some "a" }] }
    let document : Document := { metadata := { name := "n", namespaceText := "c" }, tables := [t] }
    let env : Surroundings := {
      registry := ⟨[{ id := "c", document }]⟩, base := {}, config := {}, collectionId := "c"
      statics := [] }
    let pattern := " \x7b\x7bt\x7d\x7d"
    let read (keepsItem : Bool) : Except Failure String × Context :=
      (Content.value <$> answerWithin env 9 (.shared "" "c" ⟨"w", pattern, 0, keepsItem⟩)) {}
    Coincide ((read true).1.map (Span.around pattern), (read true).2) (read false) ∧
      (read true).1.toOption = some "a" ∧ (read false).1.toOption = some " a" := by
  intro t document env pattern read
  have hkept : (read true).1.toOption = some "a" := by decide +kernel
  have hplain : (read false).1.toOption = some " a" := by decide +kernel
  have hfinished : ∀ {r : Except Failure String} {text : String}, r.toOption = some text →
      Finished r := by
    rintro _ _ h rfl
    cases h
  have hfound : (onlyTable env pattern "c" {}).1.toOption.join.isSome = true := by decide +kernel
  obtain ⟨target, htarget⟩ : ∃ target, (onlyTable env pattern "c" {}).1 = .ok (some target) := by
    rcases hresult : (onlyTable env pattern "c" {}).1 with f | _ | target
    · rw [hresult] at hfound
      cases hfound
    · rw [hresult] at hfound
      cases hfound
    · exact ⟨target, rfl⟩
  obtain ⟨raw, ref, found, home, htable⟩ := find_of_onlyTable env "c" htarget
  obtain ⟨hroll, -⟩ := kept_item_beside_text env 9 9 "" "c" ⟨"w", pattern, 0, true⟩ {}
    (hfinished hkept) (hfinished hplain)
  exact ⟨hroll raw ref found home htable, hkept, hplain⟩

/-- Where the text is another one: a blank, several items, a count, and a variable that its own
evaluation captures. -/
theorem text_beside_kept_item :
    let a : Entry := { value := some "a", sets := [("p", "A")], range := some ⟨1, 1⟩ }
    let b : Entry := { value := some "b", sets := [("p", "B")], range := some ⟨2, 2⟩ }
    let t : SimpleTable := { id := "t", entries := [a, b] }
    let document : Document := {
      metadata := { name := "n", namespaceText := "c" }, tables := [.simple t] }
    let env : Surroundings := {
      registry := ⟨[{ id := "c", document }]⟩, base := {}, config := {}, collectionId := "c"
      statics := [] }
    let source : Source := .ofDraws [0, 999999]
    let captured : Context := {
      source, captures := [("x", [{ value := "a", sets := [("p", .text "A")] },
        { value := "b", sets := [("p", .text "B")] }])] }
    let capturing : Context := {
      source, shared := { scopes := [{
        owner := "document"
        declarations := [⟨"x", "\x7b\x7b2*t >> $x\x7d\x7d", 0, false⟩] }] } }
    let read (pattern : String) (c : Context) (keepsItem : Bool) : Option String :=
      ((Content.value <$>
        answerWithin env 9 (.shared "" "c" ⟨"w", pattern, 1, keepsItem⟩)) c).1.toOption
    (read " \x7b\x7bt\x7d\x7d" { source } true = some "a" ∧
      read " \x7b\x7bt\x7d\x7d" { source } false = some " a") ∧
    (read "\x7b\x7b$x.@p\x7d\x7d" captured true = some "A" ∧
      read "\x7b\x7b$x.@p\x7d\x7d" captured false = some "A, B") ∧
    (read "\x7b\x7b$x[0].count\x7d\x7d" captured true = some "a" ∧
      read "\x7b\x7b$x[0].count\x7d\x7d" captured false = some "2") ∧
    (read "\x7b\x7b$x[1]\x7d\x7d" capturing true = some "b" ∧
      read "\x7b\x7b$x[1]\x7d\x7d" capturing false = some "") := by
  intro a b t document env source captured capturing read
  exact ⟨⟨by decide +kernel, by decide +kernel⟩, ⟨by decide +kernel, by decide +kernel⟩,
    ⟨by decide +kernel, by decide +kernel⟩, by decide +kernel, by decide +kernel⟩

end Eval

end RandomTables
