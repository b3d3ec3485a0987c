-- SUMMARY: Which draws find nothing left, and whether they say that it was used up.
import RandomTables.Engine.Request
import RandomTables.Proofs.Number.Rounding
import RandomTables.Proofs.Selection.Entries
import RandomTables.Proofs.Selection.Pool

/-!
# Exhausted tables and pools

Whatever is excluded, a draw takes an entry that is left and weighs something, if there is one. If
there is none it fails, and the policies on unique draws ask of the failure only whether exclusions
are its cause. A table answers that by whether anything is excluded. A pool does so only as long as
nothing at all is left: entries that weigh nothing hide that the others are used up.
-/
namespace RandomTables

/-! ## Weights of entries -/

theorem Weight.ofFloat_nonneg {x : Float} (hx : 0 ≤ x) : 0 ≤ (ofFloat x).units := by
  have hsign := Number.sign_of_nonneg hx
  unfold ofFloat Number.Double.ofFloat Number.Double.ofBits
  dsimp only
  rcases hsign with hsign | ⟨hexponent, hmantissa⟩
  · have hnone : ¬ x.toBits.toNat / Number.twoTo 63 % 2 = 1 := by omega
    simp only [decide_eq_false hnone]
    split <;> rename_i heq
    · split at heq
      · split at heq <;> cases heq
      · split at heq <;> cases heq <;> exact Int.natCast_nonneg _
    · split at heq
      · split at heq <;> cases heq
        exact Int.natCast_nonneg _
      · split at heq <;> cases heq
    · exact Int.le_refl _
  · simp [hexponent, hmantissa, Number.signed]

/-- An entry that keeps to the rules of its fields and whose range, if it has one, is not wider than
every weight. -/
structure Entry.Weighable (e : Entry) : Prop where
  weight : ∀ w, e.weight = some w → 0 ≤ w
  range : ∀ r, e.range = some r → r.Forward
  points : ∃ w, e.points = .ok w

theorem Entry.Weighable.nonneg {e : Entry} (h : e.Weighable) {w : Weight}
    (hw : e.points = .ok w) : 0 ≤ w.units := by
  unfold Entry.points at hw
  split at hw
  · rename_i r hrange
    have hforward : r.first ≤ r.last := h.range r hrange
    have hsize : 0 < r.size := by
      rw [RollRange.size]
      omega
    exact Int.le_of_lt (Weight.ofInt_pos hsize hw)
  · split at hw <;> cases hw
    · exact Weight.ofFloat_nonneg (h.weight _ ‹_›)
    · exact Int.le_of_lt Weight.one_pos

/-- In a table without ranges every entry has a weight. -/
theorem SimpleTable.exists_points {t : SimpleTable} (hmode : t.inRangeMode = false) :
    ∀ e ∈ t.entries, ∃ w, e.points = .ok w := by
  intro e he
  have hrange : e.range = none := by simpa using List.any_eq_false.1 hmode e he
  unfold Entry.points
  rw [hrange]
  cases e.weight with
  | none => exact ⟨_, rfl⟩
  | some w => exact ⟨_, rfl⟩

/-! ## Draws from what is left -/

/-- A draw that takes one of the candidates that are left as long as one of them weighs something.
If none does it is an error of selection, which calls the entries used up exactly if they are. -/
structure DrawsFrom (left : List Candidate) (spent : Prop) (drawn : Except Failure Selection) :
    Prop where
  takes : (∃ c ∈ left, c.entry.selectable = true) →
    ∃ s, drawn = .ok s ∧ s.candidate ∈ left ∧ s.entry.selectable = true
  fails : (∀ c ∈ left, c.entry.selectable = false) →
    ∃ e, drawn = .error (.selection e) ∧ (e.isExhaustion = true ↔ spent)

section

variable {t : SimpleTable} {members : List (SimpleTable × String)} {excluded : List String}
  {collectionId owner : String} {source : Source}

theorem SimpleTable.mem_candidates {c : Candidate} :
    c ∈ t.candidates collectionId excluded ↔
      ∃ e ∈ t.entries, e.idText ∉ excluded ∧ c = ⟨e, e.idText, t.id, collectionId⟩ := by
  simp only [candidates, List.mem_map, List.mem_filter]
  constructor
  · rintro ⟨e, ⟨he, hleft⟩, rfl⟩
    exact ⟨e, he, by simpa using hleft, rfl⟩
  · rintro ⟨e, he, hleft, rfl⟩
    exact ⟨e, ⟨he, by simpa using hleft⟩, rfl⟩

/-- A draw by weights from a table. -/
theorem SimpleTable.drawsFrom_draw (hmode : t.inRangeMode = false) (hentries : t.entries ≠ []) :
    DrawsFrom (t.candidates collectionId excluded) (excluded ≠ [])
      (t.draw collectionId excluded source).1 := by
  have hpoints := exists_points hmode
  have hweights : (t.inRangeMode && excluded.isEmpty) = false := by simp [hmode]
  constructor
  · rintro ⟨c, hc, hselectable⟩
    obtain ⟨e, he, hleft, rfl⟩ := mem_candidates.1 hc
    obtain ⟨s, hs⟩ := exists_draw_of_left hpoints hweights
      ⟨e, mem_selectables.2 ⟨he, hselectable⟩, hleft⟩
    have hdrew := drew_of_draw hs
    obtain ⟨hentry, hpositive⟩ := mem_selectables.1 hdrew.entry
    refine ⟨s, hs, mem_candidates.2 ⟨s.entry, hentry, hdrew.key ▸ hdrew.left, ?_⟩, hpositive⟩
    rw [Selection.candidate, hdrew.key, hdrew.tableId, hdrew.collectionId]
  · intro hnone
    have hspent : ∀ e ∈ t.selectables, e.idText ∈ excluded := by
      intro e he
      obtain ⟨hentry, hselectable⟩ := mem_selectables.1 he
      by_contra hleft
      have hzero := hnone _ (mem_candidates.2 ⟨e, hentry, hleft, rfl⟩)
      exact absurd hselectable (ne_true_of_eq_false hzero)
    refine ⟨_, draw_eq_error_of_spent hpoints hweights hentries hspent, ?_⟩
    cases excluded with
    | nil => simp [SelectionFailure.isExhaustion]
    | cons key rest => simp [SelectionFailure.isExhaustion]

/-- A draw from a pool. -/
theorem drawsFrom_drawPooled (hpool : poolOf members [] ≠ [])
    (hweighable : ∀ c ∈ poolOf members excluded, c.entry.Weighable) :
    DrawsFrom (poolOf members excluded) (excluded ≠ [] ∧ poolOf members excluded = [])
      (drawPooled members owner excluded source).1 := by
  by_cases hleft : poolOf members excluded = []
  · have hexcluded : excluded ≠ [] := fun hnil => hpool (hnil ▸ hleft)
    have hdraw : (drawPooled members owner excluded source).1 =
        .error (.selection (.poolExhausted owner)) := by
      rw [drawPooled, hleft]
      cases excluded with
      | nil => exact absurd rfl hexcluded
      | cons key rest => rfl
    constructor
    · rintro ⟨c, hc, -⟩
      rw [hleft] at hc
      cases hc
    · exact fun _ => ⟨_, hdraw, iff_of_true rfl ⟨hexcluded, hleft⟩⟩
  -- with something left the pool is weighed, and none of it weighs less than nothing
  obtain ⟨weighed, hweighed⟩ := Candidate.exists_weigh fun c hc => (hweighable c hc).points
  obtain ⟨hcandidates, hpoints⟩ := Candidate.weigh_eq_ok hweighed
  have hmem : ∀ p ∈ weighed, p.1 ∈ poolOf members excluded :=
    fun p hp => hcandidates ▸ List.mem_map_of_mem hp
  have hnonneg : ∀ p ∈ weighed, 0 ≤ p.2.units :=
    fun p hp => (hweighable p.1 (hmem p hp)).nonneg (hpoints p hp)
  rw [drawPooled_of_ne_nil hleft, hweighed, Draw.lift_ok_bind]
  constructor
  · rintro ⟨c, hc, hselectable⟩
    rw [← hcandidates] at hc
    obtain ⟨p, hp, rfl⟩ := List.mem_map.1 hc
    obtain ⟨w, hw, hpositive⟩ := Entry.selectable_iff.1 hselectable
    obtain rfl : w = p.2 := Except.ok.inj (hw.symm.trans (hpoints p hp))
    obtain ⟨s, q, hq, hweight, hcandidate, hdraw⟩ :=
      Candidate.draw_apply hnonneg ⟨p, hp, hpositive⟩ source
    have hentry : s.entry = q.1.entry := congrArg Candidate.entry hcandidate
    refine ⟨s, congrArg Prod.fst hdraw, hcandidate ▸ hmem q hq, ?_⟩
    exact Entry.selectable_iff.2 ⟨q.2, hentry ▸ hpoints q hq, hweight⟩
  · intro hnone
    have hzero : ∀ p ∈ weighed, p.2.units = 0 := by
      intro p hp
      have hnot : ¬ 0 < p.2.units := fun hpositive =>
        absurd (Entry.selectable_iff.2 ⟨p.2, hpoints p hp, hpositive⟩)
          (ne_true_of_eq_false (hnone p.1 (hmem p hp)))
      exact Int.le_antisymm (Int.not_lt.1 hnot) (hnonneg p hp)
    exact ⟨_, Candidate.draw_eq_zeroWeight hzero source,
      iff_of_false (fun hexhausted => by cases hexhausted) fun h => hleft h.2⟩

end

/-! ## Tables beside pools -/

/-- Whatever is excluded, draws from a table by weights and from a pool take an entry of positive
weight that is left, if there is one. Otherwise the table is exhausted exactly if something is
excluded, and the pool exactly if, besides, not even an entry without weight is left. -/
theorem draws_exhausted {t : SimpleTable} {members : List (SimpleTable × String)}
    (hmode : t.inRangeMode = false) (hentries : t.entries ≠ []) (hpool : poolOf members [] ≠ [])
    (excluded : List String) (hweighable : ∀ c ∈ poolOf members excluded, c.entry.Weighable)
    (collectionId owner : String) (source : Source) :
    DrawsFrom (t.candidates collectionId excluded) (excluded ≠ [])
      (t.draw collectionId excluded source).1 ∧
    DrawsFrom (poolOf members excluded) (excluded ≠ [] ∧ poolOf members excluded = [])
      (drawPooled members owner excluded source).1 :=
  ⟨t.drawsFrom_draw hmode hentries, drawsFrom_drawPooled hpool hweighable⟩

/-- With `a` used up, the entry without weight is what is left of the pool. -/
theorem draws_exhausted_of_weightless_entry :
    let t : SimpleTable := { id := "t", entries := [
      { id := some "a", value := some "drawn" },
      { id := some "b", value := some "never", weight := some 0 }] }
    let left (excluded : List String) := poolOf [(t, "c")] excluded
    (left ["t/a"]).map (·.key) = ["t/b"] ∧
    DrawsFrom (t.candidates "c" ["t/a"]) (["t/a"] ≠ []) (t.draw "c" ["t/a"] (Source.ofDraws [])).1 ∧
    DrawsFrom (left ["t/a"]) (["t/a"] ≠ [] ∧ left ["t/a"] = [])
      (drawPooled [(t, "c")] "p" ["t/a"] (Source.ofDraws [])).1 := by
  intro t left
  have hkeys : (left ["t/a"]).map (·.key) = ["t/b"] := by decide +kernel
  have hpool : left [] ≠ [] := fun hnone => nomatch hnone
  refine ⟨hkeys, draws_exhausted rfl (List.cons_ne_nil _ _) hpool _ ?_ _ _ _⟩
  intro c hc
  obtain ⟨-, m, hm, he, -⟩ := exists_member_of_mem_poolOf hc
  obtain rfl := List.mem_singleton.1 hm
  have hpoints : ∃ w, c.entry.points = .ok w := t.exists_points rfl c.entry he
  rcases List.mem_pair.1 he with heq | heq <;> rw [heq] at hpoints ⊢
  · exact ⟨by simp, by simp, hpoints⟩
  · refine ⟨fun w hw => ?_, by simp, hpoints⟩
    obtain rfl := Option.some.inj hw
    decide +kernel

/-- With its only entry of positive weight drawn, a table is exhausted, which ends a draw of two
unique entries early, while a pool of that table has zero weight, which no policy catches. -/
theorem drawPooled_not_exhausted_of_weightless_entry :
    let t : SimpleTable := { id := "t", entries := [
      { id := some "a", value := some "drawn" },
      { id := some "b", value := some "never", weight := some 0 }] }
    let pool : CollectionTable := { id := "pool", members := ["t"] }
    let document : Document := {
      metadata := { name := "n", namespaceText := "c" }, tables := [.simple t, .collection pool] }
    let env : Surroundings := {
      registry := ⟨[{ id := "c", document }]⟩, base := {}, config := {}
      collectionId := "c", statics := [] }
    let drawn (ref : String) :=
      (Eval.rollMany env (Eval.answerWithin env 3) ref 2 "c" true {}).1.map (·.map (·.entryId))
    document.errors = [] ∧
    (t.draw "c" ["a"] (Source.ofDraws [])).1.map (·.key) = .error (.selection (.exhausted "t")) ∧
    (drawPooled [(t, "c")] "pool" ["t/a"] (Source.ofDraws [])).1.map (·.key) =
      .error (.selection .zeroWeight) ∧
    drawn "t" = .ok [some "a"] ∧
    drawn "pool" = .error (.selection .zeroWeight) := by
  intro t pool document env drawn
  refine ⟨List.isEmpty_iff.1 (by decide +kernel), ?_, ?_, ?_, ?_⟩ <;> decide +kernel

end RandomTables
