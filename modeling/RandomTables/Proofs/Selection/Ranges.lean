-- SUMMARY: Ranges that adjoin in order cover each roll of their span once, and those are what is checked.
import Mathlib.Data.List.Chain
import RandomTables.Document.Integrity
import RandomTables.Proofs.Evaluation.Monad
import RandomTables.Random.Source
import RandomTables.Selection.Basic

/-!
# Ranges of a table

A table is partitioned by its ranges if every roll from the lowest to the highest number is covered by
exactly one entry and every entry covers one. That is what the check of the ranges comes to: sorted
by their first rolls, each range begins where the one before it ends. From a partitioned table a roll
always draws an entry, and every entry is drawn by some roll.
-/
namespace RandomTables

/-! ## Adjoining ranges -/

namespace RollRange

/-- A range that begins before it ends. -/
def Forward (r : RollRange) : Prop := r.first ≤ r.last

/-- A range begins where the one before it ends. -/
def Adjoins (before r : RollRange) : Prop := r.first = before.last + 1

theorem covers_iff {r : RollRange} {roll : Int} :
    r.covers roll = true ↔ r.first ≤ roll ∧ roll ≤ r.last := by
  rw [covers, Bool.and_eq_true, decide_eq_true_iff, decide_eq_true_iff]

variable {ranges : List RollRange}

/-- In a chain of adjoining ranges all that follow a range lie beyond it. -/
theorem last_lt_of_chain {r : RollRange} (hchain : (r :: ranges).IsChain Adjoins)
    (hforward : ∀ other ∈ ranges, other.Forward) : ∀ other ∈ ranges, r.last < other.first := by
  induction ranges generalizing r with
  | nil => exact fun _ h => absurd h List.not_mem_nil
  | cons next rest ih =>
      obtain ⟨hnext, hrest⟩ := List.isChain_cons_cons.1 hchain
      rw [List.forall_mem_cons] at hforward
      have hbeyond : r.last < next.first := by
        rw [hnext]
        omega
      refine List.forall_mem_cons.2 ⟨hbeyond, fun other hother => ?_⟩
      have hlater := ih hrest hforward.2 other hother
      have hfirst : next.first ≤ next.last := hforward.1
      omega

/-- A chain of adjoining ranges covers each roll from its first to its last one once. -/
theorem countP_of_chain {r : RollRange} (hchain : (r :: ranges).IsChain Adjoins)
    (hforward : ∀ other ∈ r :: ranges, other.Forward) {roll : Int} (hfirst : r.first ≤ roll)
    {other : RollRange} (hother : other ∈ r :: ranges) (hlast : roll ≤ other.last) :
    (r :: ranges).countP (·.covers roll) = 1 := by
  induction ranges generalizing r with
  | nil =>
      obtain rfl := List.mem_singleton.1 hother
      exact List.countP_cons_of_pos (covers_iff.2 ⟨hfirst, hlast⟩)
  | cons next rest ih =>
      have hbeyond := last_lt_of_chain hchain (List.forall_mem_cons.1 hforward).2
      obtain ⟨hnext, hrest⟩ := List.isChain_cons_cons.1 hchain
      rw [List.countP_cons]
      by_cases hhere : roll ≤ r.last
      · rw [if_pos (covers_iff.2 ⟨hfirst, hhere⟩), List.countP_eq_zero.2]
        intro later hlater hcovers
        have hbegins := hbeyond later hlater
        have hcovered := (covers_iff.1 hcovers).1
        omega
      · rw [if_neg fun hcovers => hhere (covers_iff.1 hcovers).2]
        have hbegins : next.first ≤ roll := by
          rw [hnext]
          omega
        refine ih hrest (List.forall_mem_cons.1 hforward).2 hbegins ?_
        exact (List.mem_cons.1 hother).resolve_left fun h => hhere (h ▸ hlast)

/-- Ranges in the order of their first rolls that cover each roll between them once adjoin. -/
theorem chain_of_countP (hsorted : ranges.Pairwise fun a b => a.first ≤ b.first)
    (hforward : ∀ r ∈ ranges, r.Forward)
    (hcount : ∀ roll, (∃ r ∈ ranges, r.first ≤ roll) → (∃ r ∈ ranges, roll ≤ r.last) →
      ranges.countP (·.covers roll) = 1) : ranges.IsChain Adjoins := by
  refine List.isChain_iff_forall_rel_of_append_cons_cons.2 fun a b before after hsplit => ?_
  subst hsplit
  have hcounts : ∀ roll, List.countP (·.covers roll) (before ++ a :: b :: after) =
      before.countP (·.covers roll) + (after.countP (·.covers roll) +
        (if b.covers roll then 1 else 0) + if a.covers roll then 1 else 0) := by
    intro roll
    rw [List.countP_append, List.countP_cons, List.countP_cons]
  obtain ⟨-, htail, hcross⟩ := List.pairwise_append.1 hsorted
  obtain ⟨hfirst, hrest⟩ := List.pairwise_cons.1 htail
  have ha : a ∈ before ++ a :: b :: after := List.mem_append_right _ List.mem_cons_self
  have hb : b ∈ before ++ a :: b :: after :=
    List.mem_append_right _ (List.mem_cons_of_mem _ List.mem_cons_self)
  have hforwardA : a.first ≤ a.last := hforward a ha
  have hforwardB : b.first ≤ b.last := hforward b hb
  have hab : a.first ≤ b.first := hfirst b List.mem_cons_self
  rcases Int.lt_trichotomy (a.last + 1) b.first with hgap | hadjoins | hoverlap
  · -- whatever covers the roll after `a` begins before `a`, so that it covers `a` as well
    have honce := hcount (a.last + 1) ⟨a, ha, by omega⟩ ⟨b, hb, by omega⟩
    obtain ⟨c, hc, hcovers⟩ := List.countP_pos_iff.1 (by omega : 0 <
      List.countP (·.covers (a.last + 1)) (before ++ a :: b :: after))
    have hcovered := covers_iff.1 hcovers
    rcases List.mem_append.1 hc with hearlier | hc
    · have hbegins := hcross c hearlier a List.mem_cons_self
      have htwice := hcount a.first ⟨a, ha, by omega⟩ ⟨a, ha, by omega⟩
      have hcount : 0 < before.countP (·.covers a.first) :=
        List.countP_pos_iff.2 ⟨c, hearlier, covers_iff.2 ⟨hbegins, by omega⟩⟩
      rw [hcounts, if_pos (covers_iff.2 ⟨Int.le_refl _, hforwardA⟩)] at htwice
      omega
    · rcases List.mem_cons.1 hc with rfl | hc
      · omega
      · have hbegins : b.first ≤ c.first := by
          rcases List.mem_cons.1 hc with rfl | hlater
          · exact Int.le_refl _
          · exact (List.pairwise_cons.1 hrest).1 c hlater
        omega
  · exact hadjoins.symm
  · have htwice := hcount b.first ⟨b, hb, Int.le_refl _⟩ ⟨b, hb, hforwardB⟩
    rw [hcounts, if_pos (covers_iff.2 ⟨Int.le_refl _, hforwardB⟩),
      if_pos (covers_iff.2 ⟨hab, by omega⟩)] at htwice
    omega

/-- Ranges in the order in which they begin adjoin exactly if each roll between the beginning of one and
the end of one is covered once. -/
theorem isChain_iff_countP (hsorted : ranges.Pairwise fun a b => a.first ≤ b.first)
    (hforward : ∀ r ∈ ranges, r.Forward) :
    ranges.IsChain Adjoins ↔ ∀ roll, (∃ r ∈ ranges, r.first ≤ roll) →
      (∃ r ∈ ranges, roll ≤ r.last) → ranges.countP (·.covers roll) = 1 := by
  refine ⟨fun hchain roll => ?_, chain_of_countP hsorted hforward⟩
  rintro ⟨r, hr, hbegins⟩ ⟨other, hother, hends⟩
  cases ranges with
  | nil => cases hr
  | cons low rest =>
      refine countP_of_chain hchain hforward ?_ hother hends
      rcases List.mem_cons.1 hr with rfl | hlater
      · exact hbegins
      · exact Int.le_trans ((List.pairwise_cons.1 hsorted).1 r hlater) hbegins

end RollRange

/-! ## Spans -/

namespace SimpleTable

/-- The span of some ranges begins with one of them and ends with one, and holds all of them. -/
structure IsSpan (ranges : List RollRange) (all : RollRange) : Prop where
  first : ∃ r ∈ ranges, r.first = all.first
  last : ∃ r ∈ ranges, r.last = all.last
  within : ∀ r ∈ ranges, all.first ≤ r.first ∧ r.last ≤ all.last

theorem isSpan_of_span {ranges : List RollRange} {all : RollRange}
    (h : span ranges = some all) : IsSpan ranges all := by
  have hfold : ∀ (rest before : List RollRange) (start : RollRange), IsSpan before start →
      IsSpan (before ++ rest)
        (rest.foldl (fun s r => ⟨min s.first r.first, max s.last r.last⟩) start) := by
    intro rest
    induction rest with
    | nil =>
        intro before start hstart
        rw [List.append_nil]
        exact hstart
    | cons r rest ih =>
        intro before start hstart
        rw [List.foldl_cons, List.append_cons]
        obtain ⟨⟨low, hlow, hfirst⟩, ⟨high, hhigh, hlast⟩, hwithin⟩ := hstart
        refine ih _ _ ⟨?_, ?_, ?_⟩
        · rcases Int.le_total start.first r.first with hle | hle
          · exact ⟨low, List.mem_append_left _ hlow, hfirst.trans (Int.min_eq_left hle).symm⟩
          · exact ⟨r, List.mem_concat_self, (Int.min_eq_right hle).symm⟩
        · rcases Int.le_total r.last start.last with hle | hle
          · exact ⟨high, List.mem_append_left _ hhigh, hlast.trans (Int.max_eq_left hle).symm⟩
          · exact ⟨r, List.mem_concat_self, (Int.max_eq_right hle).symm⟩
        · refine List.forall_mem_append.2 ⟨fun other hother => ?_,
            List.forall_mem_singleton.2 ⟨Int.min_le_right _ _, Int.le_max_right _ _⟩⟩
          exact ⟨Int.le_trans (Int.min_le_left _ _) (hwithin other hother).1,
            Int.le_trans (hwithin other hother).2 (Int.le_max_left _ _)⟩
  cases ranges with
  | nil => cases h
  | cons r rest =>
      cases h
      refine hfold rest [r] r ⟨⟨r, List.mem_singleton_self r, rfl⟩,
        ⟨r, List.mem_singleton_self r, rfl⟩, ?_⟩
      exact List.forall_mem_singleton.2 ⟨Int.le_refl _, Int.le_refl _⟩

theorem exists_span {ranges : List RollRange} (h : ranges ≠ []) : ∃ all, span ranges = some all := by
  cases ranges with
  | nil => exact absurd rfl h
  | cons r rest => exact ⟨_, rfl⟩

/-- The rolls of the span lie after the beginning of a range and before the end of one. -/
theorem IsSpan.covers_iff {ranges : List RollRange} {all : RollRange} (h : IsSpan ranges all)
    {roll : Int} : all.covers roll = true ↔
      (∃ r ∈ ranges, r.first ≤ roll) ∧ ∃ r ∈ ranges, roll ≤ r.last := by
  obtain ⟨⟨low, hlow, hfirst⟩, ⟨high, hhigh, hlast⟩, hwithin⟩ := h
  rw [RollRange.covers_iff]
  constructor
  · rintro ⟨hbegins, hends⟩
    exact ⟨⟨low, hlow, hfirst ▸ hbegins⟩, high, hhigh, hlast ▸ hends⟩
  · rintro ⟨⟨r, hr, hbegins⟩, other, hother, hends⟩
    exact ⟨Int.le_trans (hwithin r hr).1 hbegins, Int.le_trans hends (hwithin other hother).2⟩

/-! ## Partitions -/

/-- Every entry covers a roll from the lowest to the highest number of the table, and every such roll
is covered by exactly one entry. -/
structure Partitioned (t : SimpleTable) : Prop where
  reached : ∀ e ∈ t.entries, ∃ all roll, span t.ranges = some all ∧ all.covers roll = true ∧
    e.range.any (·.covers roll) = true
  once : ∀ all roll, span t.ranges = some all → all.covers roll = true →
    t.entries.countP (fun e => e.range.any (·.covers roll)) = 1

end SimpleTable

namespace Integrity

theorem neighboursFindings_eq_nil {path : String} {ranges : List (Nat × RollRange)} :
    neighboursFindings path ranges = [] ↔ (ranges.map Prod.snd).IsChain RollRange.Adjoins := by
  induction ranges with
  | nil => exact iff_of_true rfl .nil
  | cons a rest ih =>
      cases rest with
      | nil => exact iff_of_true rfl (.singleton _)
      | cons b rest =>
          have hchain : ((a :: b :: rest).map Prod.snd).IsChain RollRange.Adjoins ↔
              b.2.first = a.2.last + 1 ∧ ((b :: rest).map Prod.snd).IsChain RollRange.Adjoins :=
            List.isChain_cons_cons
          rw [neighboursFindings, List.append_eq_nil_iff, ih, hchain]
          refine and_congr_left fun _ => ?_
          split
          · exact iff_of_false (List.cons_ne_nil _ _) (by omega)
          · split
            · exact iff_of_false (List.cons_ne_nil _ _) (by omega)
            · exact iff_of_true rfl (by omega)

theorem rangesOf_map_snd (entries : List Entry) :
    (rangesOf entries).map Prod.snd = entries.filterMap (·.range) := by
  have hfrom : ∀ (entries : List Entry) (start : Nat),
      ((entries.zipIdx start).filterMap fun p => p.1.range.map fun r => (p.2, r)).map
        Prod.snd = entries.filterMap (·.range) := by
    intro entries
    induction entries with
    | nil => exact fun _ => rfl
    | cons e rest ih =>
        intro start
        rw [List.zipIdx_cons, List.filterMap_cons, List.filterMap_cons]
        dsimp only
        cases e.range with
        | none => exact ih _
        | some r => exact congrArg (r :: ·) (ih _)
  exact hfrom entries 0

/-- The check of the ranges finds nothing exactly if every entry has a range and the ranges, in the
order of their first rolls, adjoin. -/
theorem rangesFindings_eq_nil {path : String} {entries : List Entry} :
    rangesFindings path entries = [] ↔ (∀ e ∈ entries, e.range.isSome = true) ∧
      (((rangesOf entries).mergeSort fun a b => a.2.first ≤ b.2.first).map Prod.snd).IsChain
        RollRange.Adjoins := by
  have hlength : (rangesOf entries).length = entries.length ↔
      ∀ e ∈ entries, e.range.isSome = true := by
    rw [← List.length_map Prod.snd, rangesOf_map_snd, List.length_filterMap_eq_countP,
      List.countP_eq_length]
  have hneighbours := @neighboursFindings_eq_nil path
    ((rangesOf entries).mergeSort fun a b => a.2.first ≤ b.2.first)
  rw [← hlength, ← hneighbours, rangesFindings]
  split
  · rename_i hmissing
    exact iff_of_false (List.cons_ne_nil _ _) fun h => hmissing h.1
  · rename_i hall
    rw [not_not] at hall
    exact (and_iff_right hall).symm

end Integrity

namespace SimpleTable

open Integrity

variable {t : SimpleTable}

theorem countP_ranges (roll : Int) : t.ranges.countP (·.covers roll) =
    t.entries.countP fun e => e.range.any (·.covers roll) := by
  rw [ranges, List.countP_filterMap]
  refine List.countP_congr fun e _ => ?_
  cases e.range <;> rfl

/-- Where ranges begin before they end, a table is partitioned exactly if all entries have one and each
roll after the beginning of a range and before the end of one is covered once. -/
theorem partitioned_iff_once (hforward : ∀ r ∈ t.ranges, r.Forward) :
    t.Partitioned ↔ (∀ e ∈ t.entries, e.range.isSome = true) ∧
      ∀ roll, (∃ r ∈ t.ranges, r.first ≤ roll) → (∃ r ∈ t.ranges, roll ≤ r.last) →
        t.ranges.countP (·.covers roll) = 1 := by
  constructor
  · intro h
    refine ⟨fun e he => ?_, fun roll hbegins hends => ?_⟩
    · obtain ⟨_, roll, -, -, hcovers⟩ := h.reached e he
      cases hrange : e.range with
      | none =>
          rw [hrange] at hcovers
          cases hcovers
      | some r => rfl
    · obtain ⟨all, hall⟩ : ∃ all, span t.ranges = some all := by
        obtain ⟨r, hr, -⟩ := hbegins
        exact exists_span (List.ne_nil_of_mem hr)
      rw [countP_ranges]
      exact h.once all roll hall ((isSpan_of_span hall).covers_iff.2 ⟨hbegins, hends⟩)
  · rintro ⟨hsome, honce⟩
    refine ⟨fun e he => ?_, fun all roll hall hcovers => ?_⟩
    · obtain ⟨r, hrange⟩ := Option.isSome_iff_exists.1 (hsome e he)
      have hr : r ∈ t.ranges := List.mem_filterMap.2 ⟨e, he, hrange⟩
      have hr' : r.first ≤ r.last := hforward r hr
      obtain ⟨all, hall⟩ := exists_span (List.ne_nil_of_mem hr)
      refine ⟨all, r.first, hall, (isSpan_of_span hall).covers_iff.2 ?_, ?_⟩
      · exact ⟨⟨r, hr, Int.le_refl _⟩, r, hr, hr'⟩
      · rw [hrange]
        exact RollRange.covers_iff.2 ⟨Int.le_refl _, hr'⟩
    · obtain ⟨hbegins, hends⟩ := (isSpan_of_span hall).covers_iff.1 hcovers
      rw [← countP_ranges]
      exact honce roll hbegins hends

/-- And so exactly if the check of its ranges finds nothing. -/
theorem partitioned_iff (hforward : ∀ r ∈ t.ranges, r.Forward) (path : String) :
    t.Partitioned ↔ rangesFindings path t.entries = [] := by
  let sorted := ((rangesOf t.entries).mergeSort fun a b => a.2.first ≤ b.2.first).map Prod.snd
  have hperm : sorted.Perm t.ranges := by
    rw [ranges, ← rangesOf_map_snd]
    exact (List.mergeSort_perm _ _).map _
  have hordered : sorted.Pairwise fun a b => a.first ≤ b.first := by
    refine List.pairwise_map.2 ((List.pairwise_mergeSort ?_ ?_ _).imp of_decide_eq_true)
    · exact fun a b c hab hbc => decide_eq_true
        (Int.le_trans (of_decide_eq_true hab) (of_decide_eq_true hbc))
    · exact fun a b => by simpa using Int.le_total a.2.first b.2.first
  have hchain := RollRange.isChain_iff_countP hordered fun r hr => hforward r (hperm.mem_iff.1 hr)
  simp only [hperm.mem_iff, hperm.countP_eq] at hchain
  rw [partitioned_iff_once hforward, rangesFindings_eq_nil]
  exact and_congr_right fun _ => hchain.symm

/-! ## Draws -/

/-- An entry that alone satisfies a condition is found. -/
theorem find?_of_countP {α : Type} {p : α → Bool} {items : List α} {a : α}
    (hcount : items.countP p = 1) (ha : a ∈ items) (hp : p a = true) : items.find? p = some a := by
  obtain ⟨before, after, rfl⟩ := List.append_of_mem ha
  rw [List.countP_append, List.countP_cons_of_pos hp] at hcount
  refine List.find?_eq_some_iff_append.2 ⟨hp, before, after, rfl, fun b hb => ?_⟩
  have hnone := List.countP_eq_zero.1 (by omega : before.countP p = 0) b hb
  rw [eq_false_of_ne_true hnone]
  rfl

namespace Partitioned

variable (h : t.Partitioned)
include h

/-- No entry is out of reach: some roll draws it. -/
theorem exists_entryAt {e : Entry} (he : e ∈ t.entries) : ∃ all roll,
    span t.ranges = some all ∧ all.covers roll = true ∧ t.entryAt roll = some e := by
  obtain ⟨all, roll, hall, hroll, hcovers⟩ := h.reached e he
  exact ⟨all, roll, hall, hroll, find?_of_countP (h.once all roll hall hroll) he hcovers⟩

/-- Every roll of the span draws an entry. -/
theorem isSome_entryAt {all : RollRange} (hall : span t.ranges = some all) {roll : Int}
    (hroll : all.covers roll = true) : (t.entryAt roll).isSome = true := by
  have honce := h.once all roll hall hroll
  obtain ⟨e, he, hcovers⟩ := List.countP_pos_iff.1 (by omega : 0 <
    t.entries.countP fun e => e.range.any (·.covers roll))
  exact List.find?_isSome.2 ⟨e, he, hcovers⟩

end Partitioned

theorem ofInt_eq_error {n : Int} {f : Failure} (h : Weight.ofInt n = .error f) :
    f = .fault .overflow := by
  unfold Weight.ofInt at h
  dsimp only at h
  split at h
  · exact (Except.error.inj h).symm
  · cases h

theorem points_eq_error {e : Entry} {f : Failure} (h : e.points = .error f) :
    f = .fault .overflow := by
  unfold Entry.points at h
  split at h
  · exact ofInt_eq_error h
  · split at h <;> cases h

/-! ## Rolls -/

/-- What a roll on a table selects. -/
def selectionAt (t : SimpleTable) (collectionId : String) (all : RollRange) (roll : Int) :
    Except Failure Selection :=
  match t.entryAt roll with
  | none => .error (.selection (.noRange roll t.id))
  | some entry => do
    let weight ← entry.points
    let total ← Weight.ofInt all.size
    return ⟨entry, t.id, collectionId, entry.idText, weight, total, t.entries.length, some roll⟩

/-- A roll selects an entry exactly if the entry is there and can be weighed, and the span can be. -/
theorem selectionAt_eq_ok {collectionId : String} {all : RollRange} {roll : Int} {s : Selection} :
    t.selectionAt collectionId all roll = .ok s ↔ ∃ entry weight total,
      t.entryAt roll = some entry ∧ entry.points = .ok weight ∧ Weight.ofInt all.size = .ok total ∧
      s = ⟨entry, t.id, collectionId, entry.idText, weight, total, t.entries.length, some roll⟩ := by
  unfold selectionAt
  constructor
  · intro h
    split at h
    · cases h
    · rename_i entry hentry
      obtain ⟨weight, hweight, hrest⟩ := Except.bind_eq_ok h
      obtain ⟨total, htotal, hlast⟩ := Except.bind_eq_ok hrest
      exact ⟨entry, weight, total, hentry, hweight, htotal, (Except.ok.inj hlast).symm⟩
  · rintro ⟨entry, weight, total, hentry, hweight, htotal, rfl⟩
    rw [hentry]
    dsimp only
    rw [hweight, htotal]
    rfl

/-- A draw by a roll takes an integer of the span from the source and selects what is there. -/
theorem drawByRoll_apply {all : RollRange} (hall : span t.ranges = some all)
    (collectionId : String) (source : Source) : t.drawByRoll collectionId source =
      (t.selectionAt collectionId all (source.between all.first all.last).1,
        (source.between all.first all.last).2) := by
  rw [drawByRoll, hall]
  change (Draw.ofSource (Source.between all.first all.last) >>= _ : Draw Selection) source = _
  rw [Computation.bind_apply]
  dsimp only [Draw.ofSource]
  rw [selectionAt]
  cases t.entryAt (source.between all.first all.last).1 with
  | none => rfl
  | some entry =>
      dsimp only
      cases entry.points with
      | error f => rfl
      | ok weight => cases Weight.ofInt all.size <;> rfl

/-- A table in range mode has a span, and its ranges begin before they end. -/
theorem exists_span_of_inRangeMode (hforward : ∀ r ∈ t.ranges, r.Forward)
    (hmode : t.inRangeMode = true) : ∃ all, span t.ranges = some all ∧ all.Forward := by
  obtain ⟨e, he, hrange⟩ := List.any_eq_true.1 hmode
  obtain ⟨r, hr⟩ := Option.isSome_iff_exists.1 hrange
  have hmem : r ∈ t.ranges := List.mem_filterMap.2 ⟨e, he, hr⟩
  obtain ⟨all, hall⟩ := exists_span (List.ne_nil_of_mem hmem)
  have hwithin := (isSpan_of_span hall).within r hmem
  have hr' : r.first ≤ r.last := hforward r hmem
  exact ⟨all, hall, Int.le_trans hwithin.1 (Int.le_trans hr' hwithin.2)⟩

/-- What a source gives between the bounds of a range lies in it. -/
theorem covers_between {all : RollRange} (hall : all.Forward) {source : Source}
    (hsource : source.Proper) : all.covers (source.between all.first all.last).1 = true :=
  RollRange.covers_iff.2 (Source.between_bounds hsource hall)

/-- A roll on a partitioned table fails only where a number of rolls is beyond all weights. -/
theorem Partitioned.selectionAt_eq_error (h : t.Partitioned) {all : RollRange}
    (hall : span t.ranges = some all) {roll : Int} (hroll : all.covers roll = true)
    {collectionId : String} {f : Failure}
    (hfailed : t.selectionAt collectionId all roll = .error f) : f = .fault .overflow := by
  obtain ⟨entry, hentry⟩ := Option.isSome_iff_exists.1 (h.isSome_entryAt hall hroll)
  rw [selectionAt, hentry] at hfailed
  dsimp only at hfailed
  cases hpoints : entry.points with
  | error failure =>
      rw [hpoints] at hfailed
      exact (Except.error.inj hfailed) ▸ points_eq_error hpoints
  | ok weight =>
      cases htotal : Weight.ofInt all.size with
      | error failure =>
          rw [hpoints, htotal] at hfailed
          exact (Except.error.inj hfailed) ▸ ofInt_eq_error htotal
      | ok total =>
          rw [hpoints, htotal] at hfailed
          cases hfailed

/-- A roll on a partitioned table never matches no range. -/
theorem draw_ne_noRange (h : t.Partitioned) (hforward : ∀ r ∈ t.ranges, r.Forward)
    (hmode : t.inRangeMode = true) {source : Source} (hsource : source.Proper)
    (collectionId : String) (roll : Int) :
    (t.draw collectionId [] source).1 ≠ .error (.selection (.noRange roll t.id)) := by
  intro hfailed
  obtain ⟨all, hall, hbounds⟩ := exists_span_of_inRangeMode hforward hmode
  obtain ⟨e, he, -⟩ := List.any_eq_true.1 hmode
  have hentries : t.entries.isEmpty = false := List.isEmpty_eq_false_iff_exists_mem.2 ⟨e, he⟩
  have hempty : ([] : List String).isEmpty = true := rfl
  rw [draw, hentries, hmode, hempty] at hfailed
  change (t.drawByRoll collectionId source).1 = _ at hfailed
  rw [drawByRoll_apply hall] at hfailed
  cases h.selectionAt_eq_error hall (covers_between hbounds hsource) hfailed

end SimpleTable

end RandomTables
