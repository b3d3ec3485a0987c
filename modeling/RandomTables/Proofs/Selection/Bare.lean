-- SUMMARY: Draws do not depend on which fields of an entry were given.
import RandomTables.Proofs.Evaluation.Monad
import RandomTables.Selection.Basic

/-!
# Bare tables

Which fields of an entry were given explicitly matters when the entry is laid over another one, and
to nothing else. Without that mark entries and tables are bare. A draw from a bare table gives the
bare form of what a draw from the table gives, and takes the same random numbers.
-/
namespace RandomTables

/-- An entry without the mark of what was given. -/
def Entry.bare (e : Entry) : Entry := { e with given := [] }

def SimpleTable.bare (t : SimpleTable) : SimpleTable :=
  { t with entries := t.entries.map Entry.bare }

def Candidate.bare (c : Candidate) : Candidate := { c with entry := c.entry.bare }

def Selection.bare (s : Selection) : Selection := { s with entry := s.entry.bare }

/-- Entries that are the same when bare differ in what was given alone. -/
theorem Entry.eq_of_bare {e e' : Entry} (h : e'.bare = e.bare) :
    e' = { e with given := e'.given } := by
  cases e
  cases e'
  simp only [bare, Entry.mk.injEq] at h ⊢
  simp [h]

theorem SimpleTable.eq_of_bare {t t' : SimpleTable} (h : t'.bare = t.bare) :
    t' = { t with entries := t'.entries } := by
  cases t
  cases t'
  simp only [bare, SimpleTable.mk.injEq] at h ⊢
  simp [h]

theorem SimpleTable.entries_of_bare {t t' : SimpleTable} (h : t'.bare = t.bare) :
    t'.entries.map Entry.bare = t.entries.map Entry.bare := congrArg SimpleTable.entries h

theorem Selection.eq_of_bare {s s' : Selection} (h : s'.bare = s.bare) :
    s' = { s with entry := { s.entry with given := s'.entry.given } } := by
  have hentry : s'.entry.bare = s.entry.bare := congrArg Selection.entry h
  rw [← Entry.eq_of_bare hentry]
  cases s
  cases s'
  simp only [bare, Selection.mk.injEq] at h ⊢
  simp [h]

/-! ## Weighted items -/

section

variable {W : Type} [Measure W] {α β : Type} (f : α → β)

theorem Measure.total_map (items : List (α × W)) :
    total ((items.map (Prod.map f id)).map (·.2)) = total (items.map (·.2)) := by
  simp [List.map_map, Function.comp_def]

theorem Measure.reach_map (mark : W) (last : α × W) (sum : W) (items : List (α × W)) :
    reach mark (Prod.map f id last) sum (items.map (Prod.map f id)) =
      Prod.map f id (reach mark last sum items) := by
  induction items generalizing last sum with
  | nil => rfl
  | cons item rest ih =>
      obtain ⟨a, w⟩ := item
      simp only [List.map_cons, Prod.map_apply, id_eq, reach]
      split
      · split
        · rfl
        · exact ih (a, w) (add sum w)
      · exact ih last sum

theorem Measure.pick_map (items : List (α × W)) :
    pick (items.map (Prod.map f id)) = Prod.map f id <$> pick items := by
  cases items with
  | nil => rfl
  | cons first rest =>
      have htotal := total_map f (first :: rest)
      rw [List.map_cons] at htotal ⊢
      simp only [pick, htotal]
      split
      · simp only [map_bind, map_pure]
        congr 1
        funext fraction
        rw [← List.map_cons, reach_map]
      · rfl

end

/-! ## Entries -/

theorem Candidate.weigh_bare (candidates : List Candidate) :
    weigh (candidates.map bare) = (weigh candidates).map (List.map (Prod.map bare id)) := by
  induction candidates with
  | nil => rfl
  | cons c rest ih =>
      rw [List.map_cons, weigh, weigh, ih]
      change (c.entry.points >>= _) = Except.map _ (c.entry.points >>= _)
      cases c.entry.points with
      | error f => rfl
      | ok w =>
          cases weigh rest with
          | error f => rfl
          | ok more => rfl

theorem Candidate.draw_bare (pool : List (Candidate × Weight)) :
    draw (pool.map (Prod.map bare id)) = Selection.bare <$> draw pool := by
  simp only [draw, Measure.pick_map, Measure.total_map, List.length_map, map_bind, map_pure,
    bind_map_left]
  rfl

namespace SimpleTable

variable (t : SimpleTable) (collectionId : String) (excluded : List String)

theorem ranges_bare : t.bare.ranges = t.ranges := by
  simp only [ranges, bare, List.filterMap_map, Function.comp_def]
  rfl

theorem inRangeMode_bare : t.bare.inRangeMode = t.inRangeMode := by
  simp only [inRangeMode, bare, List.any_map, Function.comp_def]
  rfl

theorem entryAt_bare (roll : Int) : t.bare.entryAt roll = (t.entryAt roll).map Entry.bare := by
  simp only [entryAt, bare, List.find?_map, Function.comp_def]
  rfl

theorem candidates_bare :
    t.bare.candidates collectionId excluded =
      (t.candidates collectionId excluded).map Candidate.bare := by
  simp only [candidates, bare, List.filter_map, List.map_map, Function.comp_def]
  rfl

theorem drawByRoll_bare :
    t.bare.drawByRoll collectionId = Selection.bare <$> t.drawByRoll collectionId := by
  simp only [drawByRoll, ranges_bare, entryAt_bare]
  cases span t.ranges with
  | none => rfl
  | some all =>
      simp only [map_bind]
      congr 1
      funext roll
      cases t.entryAt roll with
      | none => rfl
      | some entry =>
          simp only [Option.map_some, map_bind, map_pure, bare, List.length_map]
          rfl

/-- A draw from a bare table gives the bare selection. -/
theorem draw_bare :
    t.bare.draw collectionId excluded = Selection.bare <$> t.draw collectionId excluded := by
  have hempty : t.bare.entries.isEmpty = t.entries.isEmpty := by simp [bare]
  simp only [draw, inRangeMode_bare, drawByRoll_bare, candidates_bare, Candidate.weigh_bare, hempty]
  split
  · rfl
  · split
    · rfl
    · cases Candidate.weigh (t.candidates collectionId excluded) with
      | error f => rfl
      | ok weighed =>
          have hpositive : (weighed.map (Prod.map Candidate.bare id)).filter
              (fun p => Measure.isPositive p.2) =
              (weighed.filter fun p => Measure.isPositive p.2).map (Prod.map Candidate.bare id) := by
            simp [List.filter_map, Function.comp_def]
          simp only [Except.map, Draw.lift, pure_bind, hpositive]
          cases weighed.filter fun p => Measure.isPositive p.2 with
          | nil => rfl
          | cons first rest => exact Candidate.draw_bare (first :: rest)

end SimpleTable

/-! ## Pools -/

/-- Members of a pool with bare tables. -/
def bareMembers (members : List (SimpleTable × String)) : List (SimpleTable × String) :=
  members.map (Prod.map SimpleTable.bare id)

theorem poolOf_bare (members : List (SimpleTable × String)) (excluded : List String) :
    poolOf (bareMembers members) excluded = (poolOf members excluded).map Candidate.bare := by
  unfold poolOf
  have hkey : (fun c : Candidate => !excluded.contains c.key) ∘ Candidate.bare =
      fun c => !excluded.contains c.key := rfl
  rw [← hkey, ← List.filter_map, List.map_flatten, bareMembers, List.map_map, List.map_map]
  congr 3
  funext member
  simp only [Function.comp_apply, Prod.map, SimpleTable.bare, List.map_map]
  rfl

theorem drawPooled_bare (members : List (SimpleTable × String)) (owner : String)
    (excluded : List String) :
    drawPooled (bareMembers members) owner excluded =
      Selection.bare <$> drawPooled members owner excluded := by
  simp only [drawPooled, poolOf_bare]
  cases poolOf members excluded with
  | nil => rfl
  | cons first rest =>
      simp only [List.map_cons]
      rw [← List.map_cons, Candidate.weigh_bare]
      cases Candidate.weigh (first :: rest) with
      | error f => rfl
      | ok weighed =>
          simp only [Except.map, Draw.lift, pure_bind]
          exact Candidate.draw_bare weighed

end RandomTables
