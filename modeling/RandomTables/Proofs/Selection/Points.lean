-- SUMMARY: On a table with checked ranges each roll selects one entry, which weighs its rolls.
import Mathlib
import RandomTables.Proofs.Document.Soundness
import RandomTables.Proofs.Selection.Counts
import RandomTables.Proofs.Selection.Entries

/-!
# Points of a range

An entry with a range weighs as many points as it covers. On a table whose ranges pass their check
that is the number of rolls that select the entry, and these numbers add up to the number of all
rolls. Weights are doubles: large numbers are rounded, and a table whose ranges together are wider
than all doubles is accepted but cannot be rolled.
-/
namespace RandomTables

/-! ## Counting rolls -/

/-- Counted roll by roll or item by item, it is as many. -/
theorem sum_countP {α : Type} (rolls : Finset Int) (p : α → Int → Bool) (items : List α) :
    ∑ roll ∈ rolls, items.countP (p · roll) =
      (items.map fun a => (rolls.filter fun roll => p a roll = true).card).sum := by
  induction items with
  | nil => simp
  | cons a rest ih =>
      simp only [List.countP_cons, Finset.sum_add_distrib, ih, List.map_cons, List.sum_cons,
        Finset.card_filter]
      exact Nat.add_comm _ _

namespace SimpleTable

/-- The rolls of a span that select an entry. -/
def rollsOf (t : SimpleTable) (all : RollRange) (e : Entry) : Set Int :=
  {roll | all.covers roll = true ∧ t.entryAt roll = some e}

/-- How many rolls of a span select an entry. -/
noncomputable def rollCount (t : SimpleTable) (all : RollRange) (e : Entry) : Nat :=
  (t.rollsOf all e).ncard

variable {t : SimpleTable} {all : RollRange}

namespace Partitioned

variable (h : t.Partitioned) (hall : span t.ranges = some all)
include h hall

/-- A roll selects the entry whose range covers it. -/
theorem entryAt_iff {e : Entry} (he : e ∈ t.entries) {roll : Int}
    (hroll : all.covers roll = true) :
    t.entryAt roll = some e ↔ e.range.any (·.covers roll) = true := by
  refine ⟨fun hentry => ?_, find?_of_countP (h.once all roll hall hroll) he⟩
  rw [entryAt] at hentry
  exact List.find?_some (p := fun e : Entry => e.range.any (·.covers roll)) hentry

theorem rollsOf_eq {e : Entry} (he : e ∈ t.entries) : t.rollsOf all e =
    ↑((Finset.Icc all.first all.last).filter fun roll => e.range.any (·.covers roll) = true) := by
  ext roll
  rw [Finset.mem_coe, Finset.mem_filter, Finset.mem_Icc, ← RollRange.covers_iff]
  exact and_congr_right fun hroll => h.entryAt_iff hall he hroll

/-- An entry is selected by as many rolls as its range has. -/
theorem rollCount_eq (hforward : ∀ r ∈ t.ranges, r.Forward) {e : Entry} (he : e ∈ t.entries)
    {r : RollRange} (hrange : e.range = some r) : (t.rollCount all e : Int) = r.size := by
  have hr : r ∈ t.ranges := List.mem_filterMap.2 ⟨e, he, hrange⟩
  have hwithin := (isSpan_of_span hall).within r hr
  have hforward : r.first ≤ r.last := hforward r hr
  have hrolls : ((Finset.Icc all.first all.last).filter fun roll =>
      e.range.any (·.covers roll) = true) = Finset.Icc r.first r.last := by
    ext roll
    rw [Finset.mem_filter, Finset.mem_Icc, Finset.mem_Icc, hrange, Option.any_some,
      RollRange.covers_iff]
    omega
  rw [rollCount, h.rollsOf_eq hall he, hrolls, Set.ncard_coe_finset, Int.card_Icc, RollRange.size]
  omega

/-- Every roll selects an entry, so that the numbers of rolls add up to the span. -/
theorem sum_rollCount : (t.entries.map (t.rollCount all)).sum = (all.size).toNat := by
  have hcounts : t.entries.map (t.rollCount all) = t.entries.map fun e =>
      ((Finset.Icc all.first all.last).filter fun roll =>
        e.range.any (·.covers roll) = true).card := by
    refine List.map_congr_left fun e he => ?_
    rw [rollCount, h.rollsOf_eq hall he, Set.ncard_coe_finset]
  have honce : ∀ roll ∈ Finset.Icc all.first all.last,
      t.entries.countP (fun e => e.range.any (·.covers roll)) = 1 := fun roll hroll =>
    h.once all roll hall (RollRange.covers_iff.2 (Finset.mem_Icc.1 hroll))
  rw [hcounts, ← sum_countP, Finset.sum_const_nat honce, Nat.mul_one, Int.card_Icc, RollRange.size]
  omega

theorem rollCount_le {e : Entry} (he : e ∈ t.entries) : t.rollCount all e ≤ all.size.toNat :=
  h.sum_rollCount hall ▸ List.le_sum_of_mem (List.mem_map_of_mem he)

theorem points_eq (hforward : ∀ r ∈ t.ranges, r.Forward) {e : Entry} (he : e ∈ t.entries) :
    e.points = Weight.ofInt (t.rollCount all e) := by
  obtain ⟨_, _, -, -, hcovers⟩ := h.reached e he
  obtain ⟨r, hrange, -⟩ := (Option.any_eq_true _ _).1 hcovers
  rw [h.rollCount_eq hall hforward he hrange, Entry.points, hrange]

end Partitioned

/-! ## Selecting by a roll -/

/-- What a roll selects: the one entry whose range covers it, with the weight of the number of rolls
that select the entry, out of the weight of the sum of these numbers. -/
structure SelectedBy (t : SimpleTable) (all : RollRange) (roll : Int) (s : Selection) : Prop where
  entry : s.entry ∈ t.entries
  covers : s.entry.range.any (·.covers roll) = true
  once : t.entries.countP (fun e => e.range.any (·.covers roll)) = 1
  weight : Weight.ofInt (t.rollCount all s.entry) = .ok s.weight
  total : Weight.ofInt (t.entries.map (t.rollCount all)).sum = .ok s.total
  rolled : s.roll = some roll

/-- Each roll of a table selects one entry, unless there are too many of them, and the entries have
the weights of the numbers of their rolls. -/
structure Rollable (t : SimpleTable) (all : RollRange) : Prop where
  sum : (t.entries.map (t.rollCount all)).sum = all.size.toNat
  points : ∀ e ∈ t.entries, e.points = Weight.ofInt (t.rollCount all e)
  draws : ∀ collectionId source, source.Proper → ∃ roll source', all.covers roll = true ∧
    t.drawByRoll collectionId source = (t.selectionAt collectionId all roll, source')
  selected : all.size.toNat < Weight.tooMany → ∀ collectionId roll, all.covers roll = true →
    ∃ s, t.selectionAt collectionId all roll = .ok s ∧ t.SelectedBy all roll s
  overflows : Weight.tooMany ≤ all.size.toNat → ∀ collectionId roll,
    all.covers roll = true → t.selectionAt collectionId all roll = .error (.fault .overflow)
  exactly : all.size.toNat ≤ Number.twoTo 53 →
    (∀ e ∈ t.entries, e.points = .ok (.ofCount (t.rollCount all e))) ∧
    Weight.ofInt all.size = .ok (.ofCount (t.entries.map (t.rollCount all)).sum) ∧
    Measure.total ((t.entries.map (t.rollCount all)).map Weight.ofCount) =
      .ofCount (t.entries.map (t.rollCount all)).sum

namespace Partitioned

variable (h : t.Partitioned) (hall : span t.ranges = some all) {collectionId : String} {roll : Int}
  (hsize : (all.size.toNat : Int) = all.size) (hroll : all.covers roll = true)
include h hall hsize hroll

theorem exists_selectedBy (hforward : ∀ r ∈ t.ranges, r.Forward)
    (hfew : all.size.toNat < Weight.tooMany) :
    ∃ s, t.selectionAt collectionId all roll = .ok s ∧ t.SelectedBy all roll s := by
  obtain ⟨e, hentry⟩ := Option.isSome_iff_exists.1 (h.isSome_entryAt hall hroll)
  have he : e ∈ t.entries := List.mem_of_find?_eq_some hentry
  have hpoints := h.points_eq hall hforward he
  obtain ⟨weight, hweight⟩ := Weight.ofInt_isOk_iff.2 ((h.rollCount_le hall he).trans_lt hfew)
  obtain ⟨total, htotal⟩ := Weight.ofInt_isOk_iff.2 hfew
  refine ⟨_, selectionAt_eq_ok.2
    ⟨e, weight, total, hentry, hpoints.trans hweight, hsize ▸ htotal, rfl⟩, ?_⟩
  exact ⟨he, (h.entryAt_iff hall he hroll).1 hentry, h.once all roll hall hroll, hweight,
    h.sum_rollCount hall ▸ htotal, rfl⟩

theorem selectionAt_overflows (hmany : Weight.tooMany ≤ all.size.toNat) :
    t.selectionAt collectionId all roll = .error (.fault .overflow) := by
  cases hselected : t.selectionAt collectionId all roll with
  | ok s =>
      obtain ⟨_, _, total, -, -, htotal, -⟩ := selectionAt_eq_ok.1 hselected
      rw [← hsize] at htotal
      exact absurd (Weight.ofInt_isOk_iff.1 ⟨total, htotal⟩) (Nat.not_lt.2 hmany)
  | error f => rw [h.selectionAt_eq_error hall hroll hselected]

end Partitioned

theorem Partitioned.rollable (h : t.Partitioned) (hall : span t.ranges = some all)
    (hforward : ∀ r ∈ t.ranges, r.Forward) (hbounds : all.Forward) : t.Rollable all := by
  have hsum := h.sum_rollCount hall
  have hsize : (all.size.toNat : Int) = all.size := by
    have hbounds : all.first ≤ all.last := hbounds
    rw [RollRange.size]
    omega
  refine ⟨hsum, fun e he => h.points_eq hall hforward he, fun collectionId source hsource => ?_,
    fun hfew _ _ hroll => h.exists_selectedBy hall hsize hroll hforward hfew,
    fun hmany _ _ hroll => h.selectionAt_overflows hall hsize hroll hmany,
    fun hexact => ⟨fun e he => ?_, ?_, Weight.total_ofCount (hsum ▸ hexact)⟩⟩
  · exact ⟨_, _, covers_between hbounds hsource, drawByRoll_apply hall collectionId source⟩
  · rw [h.points_eq hall hforward he]
    exact Weight.ofInt_eq_ofCount ((h.rollCount_le hall he).trans hexact)
  · rw [hsum, ← Weight.ofInt_eq_ofCount hexact, hsize]

/-- The check of the ranges finds no error exactly if they partition the table. -/
theorem harmless_rangesFindings_iff (hforward : ∀ r ∈ t.ranges, r.Forward) (path : String) :
    Integrity.Harmless (Integrity.rangesFindings path t.entries) ↔ t.Partitioned := by
  rw [partitioned_iff hforward path]
  constructor
  · exact fun hharmless => hharmless.eq_nil Integrity.isError_of_rangesFindings
  · intro hnone
    rw [hnone]
    exact fun _ hmem => absurd hmem List.not_mem_nil

/-- The check of the ranges decides whether all entries have one and each roll between their bounds
lies in exactly one of them, and a table that it accepts can be rolled. -/
theorem rollable_of_accepted (hforward : ∀ r ∈ t.ranges, r.Forward) (hmode : t.inRangeMode = true)
    (path : String) : ∃ all, span t.ranges = some all ∧ IsSpan t.ranges all ∧
      (Integrity.Harmless (Integrity.rangesFindings path t.entries) ↔
        (∀ e ∈ t.entries, e.range.isSome = true) ∧
        ∀ roll, all.covers roll = true → t.ranges.countP (·.covers roll) = 1) ∧
      (Integrity.Harmless (Integrity.rangesFindings path t.entries) → t.Rollable all) := by
  obtain ⟨all, hall, hbounds⟩ := exists_span_of_inRangeMode hforward hmode
  have hspan := isSpan_of_span hall
  rw [harmless_rangesFindings_iff hforward path]
  refine ⟨all, hall, hspan, ?_, fun h => h.rollable hall hforward hbounds⟩
  rw [partitioned_iff_once hforward]
  refine and_congr_right fun _ => forall_congr' fun roll => ?_
  rw [hspan.covers_iff, and_imp]

theorem rollable_of_three_ranges :
    let t : SimpleTable := { id := "t", entries := [
      { id := some "mid", range := some ⟨3, 4⟩ }, { id := some "low", range := some ⟨1, 2⟩ },
      { id := some "high", range := some ⟨5, 9⟩ }] }
    ((∀ r ∈ t.ranges, r.Forward) ∧ t.inRangeMode = true ∧
      Integrity.Harmless (Integrity.rangesFindings "t" t.entries)) ∧ t.Rollable ⟨1, 9⟩ := by
  intro t
  have hforward : ∀ r ∈ t.ranges, r.Forward := by
    intro r hr
    have hr : r ∈ [⟨3, 4⟩, ⟨1, 2⟩, ⟨5, 9⟩] := hr
    simp only [List.mem_cons, List.not_mem_nil, or_false] at hr
    rcases hr with rfl | rfl | rfl <;> simp [RollRange.Forward]
  have hmode : t.inRangeMode = true := rfl
  have hharmless : Integrity.Harmless (Integrity.rangesFindings "t" t.entries) :=
    (harmless_rangesFindings_iff hforward "t").2 ((partitioned_iff hforward "t").2 (by cbv))
  obtain ⟨all, hall, -, -, hrollable⟩ := rollable_of_accepted hforward hmode "t"
  obtain rfl : ⟨1, 9⟩ = all := Option.some.inj hall
  exact ⟨⟨hforward, hmode, hharmless⟩, hrollable hharmless⟩

/-- The check accepts a range wider than all doubles, whose entry no roll selects, and ranges of
more rolls than doubles can count, whose entries weigh more or less than that. -/
theorem selectionAt_fails_of_accepted_range :
    let wide : SimpleTable := { id := "t", entries := [
      { id := some "e", range := some ⟨1, Number.twoTo 1024⟩ }] }
    let long : Entry := { id := some "long", range := some ⟨1, 9007199254740993⟩ }
    let t : SimpleTable := { id := "t", entries := [
      long, { id := some "short", range := some ⟨9007199254740994, 9007199254740995⟩ }] }
    (Integrity.rangesFindings "t" wide.entries = [] ∧
      (wide.drawByRoll "c" (.ofDraws [0])).1 = .error (.fault .overflow)) ∧
    Integrity.rangesFindings "t" t.entries = [] ∧
      t.rollCount ⟨1, 9007199254740995⟩ long = 9007199254740993 ∧
      long.points = .ok (.ofCount 9007199254740992) := by
  intro wide long t
  have hwide : ∀ r ∈ wide.ranges, r.Forward := by
    have hone : (1 : Int) ≤ Number.twoTo 1024 := by decide +kernel
    exact List.forall_mem_singleton.2 hone
  have hforward : ∀ r ∈ t.ranges, r.Forward := by
    intro r hr
    rcases List.mem_pair.1 (hr : r ∈ [_, _]) with rfl | rfl <;> simp [RollRange.Forward]
  have hchecked : (Integrity.rangesFindings "t" wide.entries).isEmpty = true := by decide +kernel
  have hpartitioned := (partitioned_iff hwide "t").2 (List.isEmpty_iff.1 hchecked)
  have hlong : Integrity.rangesFindings "t" t.entries = [] := by cbv
  have hcounted := (partitioned_iff hforward "t").2 hlong
  refine ⟨⟨List.isEmpty_iff.1 hchecked, ?_⟩, hlong, ?_, by decide +kernel⟩
  · have hall : span wide.ranges = some ⟨1, Number.twoTo 1024⟩ := rfl
    have hbounds := hwide ⟨1, Number.twoTo 1024⟩ (List.mem_singleton_self _)
    have hsource : (Source.ofDraws [0]).Proper := by simp [Source.ofDraws, Source.Proper]
    have hrollable := hpartitioned.rollable hall hwide hbounds
    obtain ⟨roll, source', hroll, hdraw⟩ := hrollable.draws "c" _ hsource
    rw [hdraw]
    exact hrollable.overflows (by decide +kernel) "c" roll hroll
  · exact Int.natCast_inj.1 (hcounted.rollCount_eq rfl hforward List.mem_cons_self rfl)

end SimpleTable

end RandomTables
