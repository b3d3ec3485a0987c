-- SUMMARY: A draw from a simple table takes one of the entries that are left, or finds that none is.
import RandomTables.Proofs.Selection.Ranges
import RandomTables.Proofs.Selection.Weights

/-!
# Draws of entries

An entry can be drawn if its weight is positive. Whatever is excluded, a draw from a simple table
takes an entry that can be drawn and is not excluded. A table whose numbers are all within the
weights, and whose ranges cover each roll once if it has any, gives such an entry as long as one is
left, and is exhausted afterwards.
-/
namespace RandomTables

/-- Whether an entry has a positive weight. -/
def Entry.selectable (e : Entry) : Bool :=
  match e.points with
  | .ok w => Measure.isPositive w
  | .error _ => false

@[simp] theorem Entry.selectable_iff {e : Entry} :
    e.selectable = true ↔ ∃ w, e.points = .ok w ∧ 0 < w.units := by
  unfold selectable
  cases e.points with
  | ok w => simp
  | error f => simp

namespace SimpleTable

/-- The entries of a table that can be drawn. -/
def selectables (t : SimpleTable) : List Entry := t.entries.filter (·.selectable)

/-- A table whose numbers are within the weights, and whose ranges pass their check if it is in
range mode. -/
structure Drawable (t : SimpleTable) : Prop where
  points : ∀ e ∈ t.entries, ∃ w, e.points = .ok w
  total : ∀ all, span t.ranges = some all → ∃ w, Weight.ofInt all.size = .ok w
  forward : t.inRangeMode = true → ∀ r ∈ t.ranges, r.Forward
  partitioned : t.inRangeMode = true → t.Partitioned

/-- An entry that was drawn from a table, with what is excluded. -/
structure Drew (t : SimpleTable) (collectionId : String) (excluded : List String) (s : Selection) :
    Prop where
  entry : s.entry ∈ t.selectables
  key : s.key = s.entry.idText
  left : s.key ∉ excluded
  tableId : s.tableId = t.id
  collectionId : s.collectionId = collectionId

variable {t : SimpleTable} {collectionId : String} {excluded : List String} {source : Source}
  {s : Selection}

theorem mem_selectables {e : Entry} :
    e ∈ t.selectables ↔ e ∈ t.entries ∧ e.selectable = true := List.mem_filter

/-- An entry whose range covers a roll can be drawn, if the numbers are within the weights. -/
theorem selectable_of_covers {e : Entry} {roll : Int} {w : Weight}
    (hcovers : e.range.any (·.covers roll) = true) (hpoints : e.points = .ok w) :
    e.selectable = true := by
  refine Entry.selectable_iff.2 ⟨w, hpoints, ?_⟩
  cases hrange : e.range with
  | none =>
      rw [hrange] at hcovers
      cases hcovers
  | some r =>
      rw [hrange] at hcovers
      have hwithin := RollRange.covers_iff.1 hcovers
      have hsize : 0 < r.size := by
        rw [RollRange.size]
        omega
      rw [Entry.points, hrange] at hpoints
      exact Weight.ofInt_pos hsize hpoints

theorem drew_of_drawByRoll (h : (t.drawByRoll collectionId source).1 = .ok s) :
    t.Drew collectionId [] s := by
  cases hspan : span t.ranges with
  | none =>
      rw [drawByRoll, hspan] at h
      cases h
  | some all =>
      rw [drawByRoll_apply hspan] at h
      obtain ⟨entry, weight, total, hentry, hweight, -, rfl⟩ := selectionAt_eq_ok.1 h
      have hmem := List.mem_of_find?_eq_some hentry
      rw [entryAt] at hentry
      have hcovers := List.find?_some hentry
      have hselectable := selectable_of_covers hcovers hweight
      exact ⟨mem_selectables.2 ⟨hmem, hselectable⟩, rfl, List.not_mem_nil, rfl, rfl⟩

/-- The candidates of a table, weighed, and those of positive weight. -/
theorem mem_weighed {weighed : List (Candidate × Weight)}
    (h : Candidate.weigh (t.candidates collectionId excluded) = .ok weighed)
    {p : Candidate × Weight} (hp : p ∈ weighed) (hpositive : Measure.isPositive p.2 = true) :
    ∃ e ∈ t.selectables, e.idText ∉ excluded ∧ p.1 = ⟨e, e.idText, t.id, collectionId⟩ := by
  obtain ⟨hcandidates, hpoints⟩ := Candidate.weigh_eq_ok h
  have hmem : p.1 ∈ t.candidates collectionId excluded := hcandidates ▸ List.mem_map_of_mem hp
  obtain ⟨e, he, heq⟩ := List.mem_map.1 hmem
  obtain ⟨hentry, hleft⟩ := List.mem_filter.1 he
  have hweight : e.points = .ok p.2 := by simpa [← heq] using hpoints p hp
  refine ⟨e, mem_selectables.2 ⟨hentry, ?_⟩, by simpa using hleft, heq.symm⟩
  exact Entry.selectable_iff.2 ⟨p.2, hweight, Weight.isPositive_iff.1 hpositive⟩

/-- Where an entry is left, one of the weighed candidates has a positive weight. -/
theorem exists_weighed_of_left {weighed : List (Candidate × Weight)}
    (h : Candidate.weigh (t.candidates collectionId excluded) = .ok weighed)
    (hleft : ∃ e ∈ t.selectables, e.idText ∉ excluded) : ∃ p ∈ weighed, 0 < p.2.units := by
  obtain ⟨e, he, hout⟩ := hleft
  obtain ⟨hentry, hselectable⟩ := mem_selectables.1 he
  obtain ⟨hcandidates, hpoints⟩ := Candidate.weigh_eq_ok h
  have hcandidate : (⟨e, e.idText, t.id, collectionId⟩ : Candidate) ∈ weighed.map Prod.fst := by
    rw [hcandidates]
    exact List.mem_map_of_mem (List.mem_filter.2 ⟨hentry, by simpa using hout⟩)
  obtain ⟨p, hp, heq⟩ := List.mem_map.1 hcandidate
  obtain ⟨w, hw, hpositive⟩ := Entry.selectable_iff.1 hselectable
  have hsame := hpoints p hp
  rw [heq] at hsame
  obtain rfl : p.2 = w := Except.ok.inj (hsame.symm.trans hw)
  exact ⟨p, hp, hpositive⟩

/-- A draw takes an entry of positive weight that is not excluded. -/
theorem drew_of_draw (h : (t.draw collectionId excluded source).1 = .ok s) :
    t.Drew collectionId excluded s := by
  unfold draw at h
  by_cases hempty : t.entries.isEmpty = true
  · rw [if_pos hempty] at h
    cases h
  by_cases hmode : (t.inRangeMode && excluded.isEmpty) = true
  · obtain rfl : excluded = [] := by simpa using (Bool.and_eq_true_iff.1 hmode).2
    rw [if_neg hempty, if_pos hmode] at h
    exact drew_of_drawByRoll h
  rw [if_neg hempty, if_neg hmode] at h
  obtain ⟨weighed, source', hlift, hdraw⟩ := Computation.bind_eq_ok (Prod.ext h rfl)
  have hpool : ∀ p ∈ weighed.filter fun p => Measure.isPositive p.2, ∃ e ∈ t.selectables,
      e.idText ∉ excluded ∧ p.1 = ⟨e, e.idText, t.id, collectionId⟩ := by
    intro p hp
    obtain ⟨hp, hpositive⟩ := List.mem_filter.1 hp
    exact mem_weighed (Draw.eq_of_lift hlift) hp hpositive
  generalize (weighed.filter fun p => Measure.isPositive p.2) = pool at hpool hdraw
  cases pool with
  | nil => cases hdraw
  | cons first rest =>
      obtain ⟨p, hp, heq⟩ := List.mem_map.1 (Candidate.mem_of_draw (congrArg Prod.fst hdraw))
      obtain ⟨e, he, hleft, hcandidate⟩ := hpool p hp
      obtain ⟨hentry, hkey, htable, hhome⟩ := Candidate.mk.inj (heq.symm.trans hcandidate)
      exact ⟨hentry ▸ he, hkey.trans (congrArg Entry.idText hentry.symm), hkey ▸ hleft, htable, hhome⟩

/-! ## Tables that can be drawn from -/

section

variable (hpoints : ∀ e ∈ t.entries, ∃ w, e.points = .ok w)
include hpoints

theorem exists_weigh_candidates (collectionId : String) (excluded : List String) :
    ∃ weighed, Candidate.weigh (t.candidates collectionId excluded) = .ok weighed := by
  refine Candidate.exists_weigh fun c hc => ?_
  obtain ⟨e, he, rfl⟩ := List.mem_map.1 hc
  exact hpoints e (List.mem_filter.1 he).1

variable (hmode : (t.inRangeMode && excluded.isEmpty) = false)
include hmode

/-- As long as an entry is left, a draw by weights takes one. -/
theorem exists_draw_of_left (hleft : ∃ e ∈ t.selectables, e.idText ∉ excluded) :
    ∃ s, (t.draw collectionId excluded source).1 = .ok s := by
  have hempty : ¬ t.entries.isEmpty = true := by
    obtain ⟨e, he, -⟩ := hleft
    simpa using List.ne_nil_of_mem (mem_selectables.1 he).1
  obtain ⟨weighed, hweighed⟩ := exists_weigh_candidates hpoints collectionId excluded
  obtain ⟨p, hp, hpositive⟩ := exists_weighed_of_left hweighed hleft
  have hpool : p ∈ weighed.filter fun p => Measure.isPositive p.2 :=
    List.mem_filter.2 ⟨hp, Weight.isPositive_iff.2 hpositive⟩
  have hnonneg : ∀ p ∈ weighed.filter fun p => Measure.isPositive p.2, 0 < p.2.units :=
    fun p hp => Weight.isPositive_iff.1 (List.mem_filter.1 hp).2
  obtain ⟨s, -, -, -, -, hdraw⟩ := Candidate.draw_apply (fun p hp => Int.le_of_lt (hnonneg p hp))
    ⟨p, hpool, hnonneg p hpool⟩ source
  unfold draw
  rw [if_neg hempty, if_neg (ne_true_of_eq_false hmode), hweighed, Draw.lift_ok_bind]
  generalize hfiltered : List.filter _ weighed = pool
  cases pool with
  | nil => exact absurd hfiltered (List.ne_nil_of_mem hpool)
  | cons first rest =>
      refine ⟨s, ?_⟩
      change (Candidate.draw (first :: rest) source).1 = _
      rw [← hfiltered]
      exact congrArg Prod.fst hdraw

/-- Once none is left, it fails. What it says depends on whether anything is excluded. -/
theorem draw_eq_error_of_spent (hentries : t.entries ≠ [])
    (hnone : ∀ e ∈ t.selectables, e.idText ∈ excluded) :
    (t.draw collectionId excluded source).1 = .error (.selection
      (if excluded.isEmpty then .noPositiveWeight t.id else .exhausted t.id)) := by
  have hempty : ¬ t.entries.isEmpty = true := by simpa using hentries
  obtain ⟨weighed, hweighed⟩ := exists_weigh_candidates hpoints collectionId excluded
  have hpool : (weighed.filter fun p => Measure.isPositive p.2) = [] := by
    refine List.filter_eq_nil_iff.2 fun p hp hpositive => ?_
    obtain ⟨e, he, hleft, -⟩ := mem_weighed hweighed hp hpositive
    exact hleft (hnone e he)
  unfold draw
  rw [if_neg hempty, if_neg (ne_true_of_eq_false hmode), hweighed, Draw.lift_ok_bind]
  generalize hfiltered : List.filter _ weighed = pool
  obtain rfl : [] = pool := hpool.symm.trans hfiltered
  rfl

end

theorem Drawable.drawByRoll (h : t.Drawable) (hmode : t.inRangeMode = true)
    (hsource : source.Proper) : ∃ s, (t.drawByRoll collectionId source).1 = .ok s := by
  obtain ⟨all, hall, hforward⟩ := exists_span_of_inRangeMode (h.forward hmode) hmode
  have hcovers := covers_between hforward hsource
  obtain ⟨entry, hentry⟩ :=
    Option.isSome_iff_exists.1 ((h.partitioned hmode).isSome_entryAt hall hcovers)
  obtain ⟨weight, hweight⟩ := h.points entry (List.mem_of_find?_eq_some hentry)
  obtain ⟨total, htotal⟩ := h.total all hall
  rw [drawByRoll_apply hall]
  exact ⟨_, selectionAt_eq_ok.2 ⟨entry, weight, total, hentry, hweight, htotal, rfl⟩⟩

/-- As long as an entry is left, a draw takes one. -/
theorem Drawable.exists_draw (h : t.Drawable) (hsource : source.Proper)
    (hleft : ∃ e ∈ t.selectables, e.idText ∉ excluded) :
    ∃ s, (t.draw collectionId excluded source).1 = .ok s := by
  cases hmode : t.inRangeMode && excluded.isEmpty with
  | false => exact exists_draw_of_left h.points hmode hleft
  | true =>
      obtain ⟨e, he, -⟩ := hleft
      have hempty : ¬ t.entries.isEmpty = true := by
        simpa using List.ne_nil_of_mem (mem_selectables.1 he).1
      unfold draw
      rw [if_neg hempty, if_pos hmode]
      exact h.drawByRoll (Bool.and_eq_true_iff.1 hmode).1 hsource

/-- Once every entry that can be drawn is excluded, a draw finds the table exhausted. -/
theorem Drawable.draw_eq_exhausted (h : t.Drawable) (hentries : t.entries ≠ [])
    (hexcluded : excluded ≠ []) (hnone : ∀ e ∈ t.selectables, e.idText ∈ excluded) :
    (t.draw collectionId excluded source).1 = .error (.selection (.exhausted t.id)) := by
  have hexcluded : excluded.isEmpty = false := by simpa using hexcluded
  have hmode : (t.inRangeMode && excluded.isEmpty) = false := by simp [hexcluded]
  rw [draw_eq_error_of_spent h.points hmode hentries hnone, hexcluded]
  rfl

end SimpleTable

end RandomTables
