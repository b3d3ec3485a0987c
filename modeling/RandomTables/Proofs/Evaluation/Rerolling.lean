-- SUMMARY: A repetition inside an entry rolls its table again, and never the entry itself.
import RandomTables.Proofs.Evaluation.Caught
import RandomTables.Proofs.Evaluation.Entering
import RandomTables.Proofs.Evaluation.Occurring
import RandomTables.Proofs.Evaluation.UniqueEntries

/-!
# Rolling other entries

A repetition with nothing to repeat rolls the table of its entry again, with the entry excluded
and, if it is a unique one, all that it rolled so far. It ends before its count is reached only
where a draw finds nothing left. An exhausted draw further inside is caught there, so nothing left
means that every entry of positive weight is excluded.
-/
namespace RandomTables.Eval

variable {env : Surroundings} {fuel : Nat} {frame : Frame} {c c' : Context} {α : Type}

/-- A roll of the table of a frame without the excluded entries. -/
abbrev rollOthers (env : Surroundings) (fuel : Nat) (frame : Frame) (excluded : List String) :
    Eval Outcome := rollsOf env fuel frame.table frame.collectionId excluded

/-! ## One more roll -/

/-- What gave an outcome or nothing either had an outcome or found nothing left. -/
theorem unlessExhausted_eq_ok {x : Eval Outcome} {result : Option Outcome}
    (h : unlessExhausted x c = (.ok result, c')) :
    (∃ o, result = some o ∧ x c = (.ok o, c')) ∨
      (result = none ∧ ∃ f : Failure, f.Exhausts ∧ x c = (.error f, c')) := by
  rw [unlessExhausted, Computation.tryCatch_apply, Computation.map_apply] at h
  rcases hrun : x c with ⟨f | o, d⟩ <;> rw [hrun] at h
  · dsimp only [Except.map] at h
    split at h
    · split at h
      · rename_i e hexhausts
        cases h
        exact .inr ⟨rfl, _, ⟨e, rfl, hexhausts⟩, rfl⟩
      · cases h
    · cases h
  · cases h
    exact .inl ⟨o, rfl, rfl⟩

/-- Inside one more level the same roll is underway, and so it is once the level is closed. -/
theorem repeating_eq_ok {x : Eval α} {a : α} (h : Underway frame c)
    (hok : repeating env x c = (.ok a, c')) :
    ∃ inner ended, Underway frame inner ∧ x inner = (.ok a, ended) ∧
      (Underway frame ended → Underway frame c') := by
  rw [repeating, descending_apply] at hok
  split at hok
  · cases hok
  · obtain ⟨ended, hrun, rfl⟩ := bracket_eq_ok hok
    refine ⟨_, ended, ?_, hrun, fun hended => hended.of_same rfl rfl rfl⟩
    exact h.of_same rfl rfl rfl

section

variable {excluded : List String} {t table : SimpleTable} {owner : String}

/-- Where a roll is exhausted, what is evaluated inside its level is. -/
theorem exhausts_of_atLevel {name owner collectionId : String} {step : TraceStep}
    {shared : Option (Assoc String)} {body : Option Nat → Eval α} {f : Failure}
    (h : (atLevel env name owner step shared collectionId body c).1 = .error f) (hf : f.Exhausts) :
    ∃ node inner, Deeper c inner ∧ (body node inner).1 = .error f := by
  rw [atLevel, descending_apply] at h
  split at h
  · cases h
    exact absurd hf (Failure.not_exhausts_depth _)
  · change (inScope _ _ _ (body _) _).1 = .error f at h
    rw [inScope_apply] at h
    split at h
    · cases h
      exact absurd hf (Failure.not_exhausts_declaration _)
    · refine ⟨_, _, ?_, h⟩
      exact ⟨rfl, rfl, rfl⟩
    · refine ⟨_, _, ?_, h⟩
      exact ⟨rfl, rfl, rfl⟩

/-- Where a roll of a table is exhausted, every entry that can be drawn is excluded. -/
theorem spent_of_roll {f : Failure}
    (h : (answerWithin env fuel (.roll ⟨.table (.simple t), owner⟩ excluded) c).1 = .error f)
    (hf : f.Exhausts)
    (hinherit : (env.registry.inherit env.base t owner ⟨c.resolved, []⟩).1 = .ok table) :
    ∀ e ∈ table.selectables, e.idText ∈ excluded := by
  cases fuel with
  | zero =>
      cases h
      exact absurd hf (show Failure.Uncaught _ from .inl rfl).not_exhausts
  | succ fuel =>
      obtain ⟨node, inner, hinner, hbody⟩ := exhausts_of_atLevel h hf
      rw [← hinner.resolved] at hinherit
      have hrolled : (rollFromEntries env (answerWithin env fuel) t owner excluded inner).1 =
          .error f := by
        rw [Computation.bind_apply] at hbody
        split at hbody
        · cases hbody
        · rename_i hrun
          cases hbody
          exact congrArg Prod.fst hrun
      rw [rollFromEntries_apply (Prod.ext hinherit rfl), Computation.bind_apply] at hrolled
      split at hrolled
      · rename_i s drawn hdraw
        -- exclusions further inside are caught, so it is the draw that is exhausted
        have hsurvives : NeverExhausts (outcomeOf env (answerWithin env fuel) s table) :=
          .outcomeOf (survives_answerWithin env fuel) s table
        exact absurd hf ((hsurvives drawn).failure f hrolled)
      · rename_i hdraw
        cases hrolled
        exact SimpleTable.spent_of_exhausts (congrArg Prod.fst hdraw) hf

end

/-- A roll of the table of a frame takes one of its entries that are left. -/
theorem Underway.takes {excluded : List String} {o : Outcome} (h : Underway frame c)
    (hnamed : frame.table.Named) (hok : rollOthers env fuel frame excluded c = (.ok o, c')) :
    Takes (keys frame.table.selectables) excluded o := by
  cases fuel with
  | zero => cases hok
  | succ fuel =>
      obtain ⟨table, s, hinherit, hdrew, hkey, hid⟩ := drew_of_roll (congrArg Prod.fst hok)
      rw [h.inherit] at hinherit
      obtain rfl := Except.ok.inj hinherit
      refine ⟨s.key, ?_, hdrew.left, hkey, ?_⟩
      · rw [hdrew.key]
        exact List.mem_map_of_mem hdrew.entry
      · rw [hid, hdrew.key]
        exact Entry.id_of_idText (hnamed _ (SimpleTable.mem_selectables.1 hdrew.entry).1)

/-! ## All rolls of a repetition -/

/-- What is excluded after a roll of a repetition. -/
def excludedAfter (unique : Bool) (excluded : List String) (o : Outcome) : List String :=
  if unique then keysOf o ++ excluded else excluded

/-- The rolls of a repetition, as many as were asked for or until nothing is left. -/
inductive Rerolls (env : Surroundings) (fuel : Nat) (frame : Frame) (unique : Bool) :
    Nat → List String → List Outcome → Prop where
  | reached {excluded : List String} : Rerolls env fuel frame unique 0 excluded []
  | spent {n : Nat} {excluded : List String}
    (none : ∀ e ∈ frame.table.selectables, e.idText ∈ excluded) :
    Rerolls env fuel frame unique (n + 1) excluded []
  | roll {n : Nat} {excluded : List String} {o : Outcome} {outcomes : List Outcome} {c c' : Context}
    (underway : Underway frame c) (rolls : rollOthers env fuel frame excluded c = (.ok o, c'))
    (takes : Takes (keys frame.table.selectables) excluded o)
    (rest : Rerolls env fuel frame unique n (excludedAfter unique excluded o) outcomes) :
    Rerolls env fuel frame unique (n + 1) excluded (o :: outcomes)

/-- The texts of a repetition are those of its rolls. -/
theorem Underway.rerolls {unique : Bool} {n : Nat} {excluded texts done : List String}
    (h : Underway frame c) (hnamed : frame.table.Named)
    (hok : entryAgain env (answerWithin env fuel) frame unique n excluded done c =
      (.ok texts, c')) :
    ∃ outcomes, texts = done.reverse ++ outcomes.map (·.text) ∧
      Rerolls env fuel frame unique n excluded outcomes := by
  induction n generalizing excluded done c with
  | zero =>
      cases hok
      exact ⟨[], (List.append_nil _).symm, .reached⟩
  | succ n ih =>
      obtain ⟨result, c₁, hrepeating, hrest⟩ := Computation.bind_eq_ok hok
      obtain ⟨inner, ended, hinner, hrun, hclosed⟩ := repeating_eq_ok h hrepeating
      rcases unlessExhausted_eq_ok hrun with ⟨o, rfl, hroll⟩ | ⟨rfl, f, hf, hroll⟩
      · replace hroll : rollOthers env fuel frame excluded inner = (.ok o, ended) := hroll
        have hended : Underway frame (rollOthers env fuel frame excluded inner).2 :=
          hinner.roll env fuel _ excluded
        rw [hroll] at hended
        obtain ⟨outcomes, htexts, hrerolls⟩ := ih (hclosed hended) hrest
        refine ⟨o :: outcomes, ?_, .roll hinner hroll (hinner.takes hnamed hroll) hrerolls⟩
        rw [htexts, List.reverse_cons, List.append_assoc]
        rfl
      · cases hrest
        have hnone := spent_of_roll (congrArg Prod.fst hroll) hf (congrArg Prod.fst hinner.inherit)
        exact ⟨[], (List.append_nil _).symm, .spent hnone⟩

namespace Rerolls

variable {unique : Bool} {n : Nat} {excluded : List String} {outcomes : List Outcome}

theorem length_le (h : Rerolls env fuel frame unique n excluded outcomes) :
    outcomes.length ≤ n := by
  induction h with
  | reached => exact Nat.le_refl _
  | spent _ => exact Nat.zero_le _
  | roll _ _ _ _ ih => exact Nat.succ_le_succ ih

/-- Each outcome is one of a roll that excludes at least what is excluded from the start. -/
theorem exists_roll (h : Rerolls env fuel frame unique n excluded outcomes) {o : Outcome}
    (ho : o ∈ outcomes) : ∃ used c c', excluded ⊆ used ∧ Underway frame c ∧
      rollOthers env fuel frame used c = (.ok o, c') ∧
      Takes (keys frame.table.selectables) used o := by
  induction h with
  | reached => exact absurd ho List.not_mem_nil
  | spent _ => exact absurd ho List.not_mem_nil
  | @roll n excluded first outcomes c c' underway rolls takes _ ih =>
      rcases List.mem_cons.1 ho with rfl | ho
      · exact ⟨excluded, c, c', List.Subset.refl _, underway, rolls, takes⟩
      · obtain ⟨used, d, d', hused, hrest⟩ := ih ho
        refine ⟨used, d, d', fun key hkey => hused ?_, hrest⟩
        unfold excludedAfter
        split
        · exact List.mem_append_right _ hkey
        · exact hkey

section

variable (hnamed : frame.table.Named)
include hnamed

theorem key_ne_empty {key : String} (hkey : key ∈ keys frame.table.selectables) : key ≠ "" := by
  obtain ⟨e, he, rfl⟩ := List.mem_map.1 hkey
  exact hnamed e (SimpleTable.mem_selectables.1 he).1

/-- The outcomes of a unique repetition are of different entries. -/
theorem nodup (h : Rerolls env fuel frame true n excluded outcomes) :
    (outcomes.map (·.entryId)).Nodup := by
  induction h with
  | reached => exact List.nodup_nil
  | spent _ => exact List.nodup_nil
  | @roll n excluded o outcomes c c' _ _ takes rest ih =>
      obtain ⟨key, hkey, -, hbears⟩ := takes
      refine List.nodup_cons.2 ⟨fun hagain => ?_, ih⟩
      obtain ⟨later, hlater, hsame⟩ := List.mem_map.1 hagain
      obtain ⟨used, d, d', hused, -, -, key', -, hleft, hbears'⟩ := rest.exists_roll hlater
      have hkeys : key' = key :=
        Option.some.inj (hbears'.naming.symm.trans (hsame.trans hbears.naming))
      refine hleft (hused ?_)
      rw [excludedAfter, if_pos rfl, hbears.keysOf (key_ne_empty hnamed hkey), hkeys]
      exact List.mem_append_left _ (List.mem_singleton_self _)

/-- Where there are fewer outcomes than were asked for, every entry that can be drawn is excluded
from the start or was taken. -/
theorem excluded_or_taken (h : Rerolls env fuel frame unique n excluded outcomes)
    (hfewer : outcomes.length < n) {e : Entry} (he : e ∈ frame.table.selectables) :
    e.idText ∈ excluded ∨ unique = true ∧ e.id ∈ outcomes.map (·.entryId) := by
  induction h with
  | reached => exact absurd hfewer (Nat.lt_irrefl _)
  | spent none => exact .inl (none e he)
  | @roll n excluded o outcomes c c' _ _ takes _ ih =>
      obtain ⟨key, hkey, -, hbears⟩ := takes
      rcases ih (Nat.lt_of_succ_lt_succ hfewer) with hleft | ⟨hunique, htaken⟩
      · rw [excludedAfter] at hleft
        split at hleft
        · rename_i hunique
          rw [hbears.keysOf (key_ne_empty hnamed hkey)] at hleft
          rcases List.mem_append.1 hleft with hsame | hleft
          · obtain hsame : e.idText = key := List.mem_singleton.1 hsame
            have hid : e.id = o.entryId := by
              rw [hbears.naming, ← hsame]
              exact Entry.id_of_idText (hnamed e (SimpleTable.mem_selectables.1 he).1)
            exact .inr ⟨hunique, hid ▸ List.mem_cons_self⟩
          · exact .inl hleft
        · exact .inl hleft
      · exact .inr ⟨hunique, List.mem_cons_of_mem _ htaken⟩

end

end Rerolls

/-! ## The results of a repetition -/

/-- Outcomes of rolls of a table that is resolved to itself, none of which is of the current entry.
There are as many as were asked for, unless every entry that can be drawn is the current one or, if
they are to be unique, was taken; then there are no more. -/
structure RollsOthers (env : Surroundings) (fuel : Nat) (table : SimpleTable) (owner : String)
    (current : Option String) (count : Nat) (unique : Bool) (outcomes : List Outcome) : Prop where
  rolls : ∀ o ∈ outcomes, ∃ excluded c c',
    (env.registry.inherit env.base table owner ⟨c.resolved, []⟩).1 = .ok table ∧
    answerWithin env fuel (.roll ⟨.table (.simple table), owner⟩ excluded) c = (.ok o, c') ∧
    ∃ e ∈ table.selectables, o.entryId = e.id
  others : ∀ o ∈ outcomes, o.entryId ≠ current
  distinct : unique = true → (outcomes.map (·.entryId)).Nodup
  atMost : outcomes.length ≤ count
  fewer : outcomes.length < count → ∀ e ∈ table.selectables,
    e.id = current ∨ unique = true ∧ e.id ∈ outcomes.map (·.entryId)
  goesOn : ∀ done o later, outcomes = done ++ o :: later → ∃ e ∈ table.selectables,
    e.id ≠ current ∧ (unique = true → e.id ∉ done.map (·.entryId))

/-- What is rolled without the current entry is as many other entries as there are. -/
theorem Rerolls.rollsOthers {unique : Bool} {n : Nat} {outcomes : List Outcome} {current : Entry}
    (hnamed : frame.table.Named) (hcurrent : current ∈ frame.table.entries)
    (h : Rerolls env fuel frame unique n [current.idText] outcomes) :
    RollsOthers env fuel frame.table frame.collectionId current.id n unique outcomes := by
  have hid : ∀ e ∈ frame.table.entries, e.id = some e.idText := fun e he =>
    Entry.id_of_idText (hnamed e he)
  have hrolled : ∀ o ∈ outcomes, ∃ e ∈ frame.table.selectables, o.entryId = e.id ∧
      e.id ≠ current.id := by
    intro o ho
    obtain ⟨used, c, c', hused, -, -, key, hkey, hleft, hbears⟩ := h.exists_roll ho
    obtain ⟨e, he, rfl⟩ := List.mem_map.1 hkey
    have hentry := hid e (SimpleTable.mem_selectables.1 he).1
    refine ⟨e, he, hbears.naming.trans hentry.symm, fun hsame => hleft (hused ?_)⟩
    rw [hentry, hid current hcurrent] at hsame
    exact List.mem_singleton.2 (Option.some.inj hsame)
  have hdistinct : unique = true → (outcomes.map (·.entryId)).Nodup := by
    rintro rfl
    exact h.nodup hnamed
  refine { rolls := ?_, others := ?_, distinct := hdistinct, atMost := h.length_le, fewer := ?_
           goesOn := ?_ }
  · intro o ho
    obtain ⟨used, c, c', -, hunderway, hroll, -⟩ := h.exists_roll ho
    obtain ⟨e, he, hentry, -⟩ := hrolled o ho
    exact ⟨used, c, c', congrArg Prod.fst hunderway.inherit, hroll, e, he, hentry⟩
  · intro o ho hsame
    obtain ⟨e, -, hentry, hother⟩ := hrolled o ho
    exact hother (hentry.symm.trans hsame)
  · intro hfewer e he
    refine (h.excluded_or_taken hnamed hfewer he).imp_left fun hexcluded => ?_
    rw [hid e (SimpleTable.mem_selectables.1 he).1, hid current hcurrent,
      List.mem_singleton.1 hexcluded]
  · rintro done o later rfl
    obtain ⟨e, he, hentry, hother⟩ := hrolled o (List.mem_append_right _ List.mem_cons_self)
    refine ⟨e, he, hother, fun hunique htaken => ?_⟩
    have hnodup := hdistinct hunique
    rw [List.map_append, List.map_cons] at hnodup
    exact (List.nodup_append.1 hnodup).2.2 _ htaken _ List.mem_cons_self hentry.symm

theorem keys_frameOf {s : Selection} {table : SimpleTable} (h : Entered s table c) :
    Frame.keys (frameOf s table) = [s.entry.idText] := by
  have hne := h.named s.entry h.entry
  rw [Frame.keys, frameOf, Entry.id_of_idText hne]
  exact if_neg (by simpa using hne)

/-- Inside an entry, a repetition with nothing to repeat rolls the table that the entry came from,
as it was resolved, and never the entry. -/
theorem again_rolls_other_entries (env : Surroundings) (fuel : Nat) {excluded : List String}
    {target : Target} {c d : Context} {s : Selection} {table : SimpleTable} {r : Repeat}
    (hfiled : Registry.Filed c.resolved) (hsource : c.source.Proper)
    (henters : Enters env excluded target c s table d)
    (hoccurs : Repeat.InEntry env fuel s table d r) (hnothing : r.memory = .nothing) :
    s.entry ∈ table.entries ∧
    (∀ o d', outcomeOf env (answerWithin env (fuel + 1)) s table d = (.ok o, d') →
      r.Ran env (answerWithin env fuel) s.collectionId) ∧
    ∀ text c', r.run env (answerWithin env fuel) s.collectionId = (.ok text, c') →
      ∃ outcomes, text = joinOutcomes r.separator outcomes ∧
        RollsOthers env fuel table s.collectionId s.entry.id r.count r.unique outcomes := by
  have hentered := henters.entered hfiled hsource
  have hunderway := hoccurs.underway hentered.recalled hentered.proper
  refine ⟨hentered.entry, fun o d' hok => hoccurs.ran hok, fun text c' hrun => ?_⟩
  rw [Repeat.run, hnothing, renderAgain, Computation.get_bind_apply, hunderway.current] at hrun
  obtain ⟨_, marked, hmarks, hrest⟩ := Computation.bind_eq_ok hrun
  obtain ⟨texts, _, hagain, hjoined⟩ := Computation.bind_eq_ok hrest
  cases hjoined
  have hmarked : Underway (frameOf s table) marked := by
    cases hmarks
    exact hunderway.of_same rfl rfl rfl
  rw [keys_frameOf hentered] at hagain
  obtain ⟨outcomes, rfl, hrerolls⟩ := hmarked.rerolls hentered.named hagain
  exact ⟨outcomes, rfl, hrerolls.rollsOthers hentered.named hentered.entry⟩

/-- The first of three entries asks for three other ones and gets two. -/
theorem again_rolls_two_other_entries :
    let a : Entry := {
      id := some "a", range := some ⟨1, 1⟩, value := some "\x7b\x7b3*unique*again\x7d\x7d" }
    let b : Entry := { id := some "b", range := some ⟨2, 2⟩, value := some "B" }
    let c : Entry := { id := some "c", range := some ⟨3, 3⟩, value := some "C" }
    let t : SimpleTable := { id := "t", entries := [a, b, c] }
    let document : Document := {
      metadata := { name := "n", namespaceText := "c" }, tables := [.simple t] }
    let env : Surroundings := {
      registry := ⟨[{ id := "c", document }]⟩, base := {}, config := {}, collectionId := "c"
      statics := [] }
    let target : Target := ⟨.table (.simple t), "c"⟩
    ((answerWithin env 9 (.roll target []) {}).1.map fun o => o.text) = .ok "B, C" ∧
    Registry.Filed ({} : Context).resolved ∧ ({} : Context).source.Proper ∧
    ∃ fuel s d r, Enters env [] target {} s t d ∧ s.entry = a ∧ Repeat.InEntry env fuel s t d r ∧
      r.memory = .nothing ∧ ∃ outcomes c', r.run env (answerWithin env fuel) "c" =
        (.ok (joinOutcomes r.separator outcomes), c') ∧
        RollsOthers env fuel t "c" (some "a") 3 true outcomes := by
  intro a b c t document env target
  have hfiled : Registry.Filed ({} : Context).resolved := fun _ hp => absurd hp List.not_mem_nil
  have hsource : ({} : Context).source.Proper := by simp [Source.ofDraws, Source.Proper]
  have hrolled : ((answerWithin env 9 (.roll target []) {}).1.map fun o => o.text) =
      .ok "B, C" := by decide +kernel
  refine ⟨hrolled, hfiled, hsource, ?_⟩
  have hdrawn : ((t.draw "c" [] (.ofDraws [])).1.toOption.map fun s => s.entry.id) =
      some (some "a") := by decide +kernel
  have hpieces : Piece.ofPattern (a.value.getD "").toList =
      [.directive ⟨"\x7b\x7b3*unique*again\x7d\x7d".toList, "3*unique*again".toList, 0, 18⟩] := by
    cbv
  have hparse : Directive.parse "3*unique*again".toList =
      .ok (.act "3*unique*again" (.again 3 true defaultSeparator)) := by with_unfolding_all rfl
  obtain ⟨o, hok⟩ : ∃ o, (answerWithin env 9 (.roll target []) {}).1 = .ok o :=
    (Except.map_eq_ok hrolled).imp fun _ h => h.1
  rcases expands_or_enters hok with hexpands | ⟨fuel, s, table, d, o', d', henters, houtcome, -⟩
  · exact absurd hexpands not_expands_simple
  obtain ⟨hinherit, hdraw⟩ := henters.of_simple
  obtain rfl : t = table := Except.ok.inj hinherit
  have hdrew := SimpleTable.drew_of_draw hdraw
  have hentry : s.entry = a := by
    change ((t.draw "c" [] ({} : Context).source).1.toOption.map fun s => s.entry.id) = _ at hdrawn
    rw [hdraw] at hdrawn
    replace hdrawn := Option.some.inj hdrawn
    rcases List.mem_cons.1 (SimpleTable.mem_selectables.1 hdrew.entry).1 with h | h
    · exact h
    · rcases List.mem_pair.1 h with h | h <;> simp [h, b, c] at hdrawn
  have hhome := hdrew.collectionId
  obtain ⟨⟨node, inner⟩, hbegun⟩ : ∃ p,
      begun (.act "3*unique*again" (.again 3 true defaultSeparator)) (entered s t d) = p :=
    ⟨_, rfl⟩
  have hoccurs : Repeat.InEntry env fuel s t d
      ⟨.nothing, 3, true, defaultSeparator, node, inner⟩ := by
    have hsets : setsOf s t = [] := by
      rw [setsOf, hentry]
      rfl
    have hnoSets : renderSets env (answerWithin env (fuel + 1)) s.collectionId t.id (setsOf s t)
        (entered s t d) = (.ok [], entered s t d) := by
      rw [hsets]
      rfl
    refine .value hnoSets ?_
    · rw [hentry, Repeat.InPattern, hpieces]
      exact .directive hparse (.here hbegun)
  obtain ⟨-, hran, hresults⟩ :=
    again_rolls_other_entries env fuel hfiled hsource henters hoccurs rfl
  obtain ⟨text, c', hrun⟩ := hran o' d' houtcome
  obtain ⟨outcomes, rfl, hothers⟩ := hresults text c' hrun
  rw [hhome] at hrun hothers
  rw [hentry] at hothers
  exact ⟨fuel, s, d, _, henters, hentry, hoccurs, rfl, outcomes, c', hrun, hothers⟩

end RandomTables.Eval
