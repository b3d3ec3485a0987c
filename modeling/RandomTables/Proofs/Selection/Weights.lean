-- SUMMARY: A sum with a positive weight is positive, and draws in proportion take items of positive weight.
import RandomTables.Proofs.Evaluation.Drawing

/-!
# Draws in proportion to weights

Rounding neither makes a positive sum vanish nor a sum of weights negative. So a draw from items of
which one has a positive weight gives an item of positive weight, whatever fraction is drawn, and it
takes one fraction from the source.
-/
namespace RandomTables

theorem Number.twoTo_pos (n : Nat) : 0 < twoTo n := Nat.pow_pos Nat.two_pos

theorem Number.div_le_roundDiv (num den : Nat) : num / den ≤ roundDiv num den := by
  unfold roundDiv
  dsimp only
  split
  · exact Nat.le_refl _
  · split
    · exact Nat.le_succ _
    · split
      · exact Nat.le_refl _
      · exact Nat.le_succ _

namespace Weight

@[simp] theorem isPositive_iff {w : Weight} : Measure.isPositive w = true ↔ 0 < w.units :=
  decide_eq_true_iff

theorem nearest_pos {n : Nat} (h : 0 < n) : 0 < nearest n 1 := by
  unfold nearest
  dsimp only
  split
  · have hround := Number.div_le_roundDiv n 1
    rw [Nat.div_one] at hround
    omega
  · rw [Nat.div_one, Nat.one_mul]
    have hscale := Number.twoTo_pos (n.log2 - 52)
    have hpower : Number.twoTo (n.log2 - 52) ≤ n :=
      Nat.le_trans (Nat.pow_le_pow_right Nat.two_pos (Nat.sub_le _ _)) (Nat.log2_self_le (Nat.ne_of_gt h))
    have hquotient := Nat.div_pos hpower hscale
    have hround := Number.div_le_roundDiv n (Number.twoTo (n.log2 - 52))
    have hinfinite : 0 < infinite := Number.twoTo_pos 2098
    exact Nat.lt_min.2 ⟨Nat.mul_pos (by omega) hscale, hinfinite⟩

theorem round_units {n : Int} (h : 0 ≤ n) : (round n).units = nearest n.natAbs 1 := by
  have hsign : decide (n < 0) = false := decide_eq_false (Int.not_lt.2 h)
  rw [round, hsign]
  rfl

theorem round_nonneg {n : Int} (h : 0 ≤ n) : 0 ≤ (round n).units := by
  rw [round_units h]
  exact Int.natCast_nonneg _

theorem round_pos {n : Int} (h : 0 < n) : 0 < (round n).units := by
  rw [round_units (Int.le_of_lt h)]
  exact Int.natCast_pos.2 (nearest_pos (Int.natAbs_pos.2 (Int.ne_of_gt h)))

theorem one_pos : 0 < one.units := Int.natCast_pos.2 (Number.twoTo_pos 1074)

/-- The weight of a positive integer is positive, if the integer is not beyond all weights. -/
theorem ofInt_pos {n : Int} {w : Weight} (hn : 0 < n) (h : ofInt n = .ok w) : 0 < w.units := by
  unfold ofInt at h
  dsimp only at h
  split at h
  · cases h
  · cases h
    exact round_pos (Int.mul_pos hn (Int.natCast_pos.2 (Number.twoTo_pos 1074)))

/-- A sum of weights of which none is negative and one is positive. -/
theorem total_pos {weights : List Weight} (hnonneg : ∀ w ∈ weights, 0 ≤ w.units)
    (hpos : ∃ w ∈ weights, 0 < w.units) : 0 < (Measure.total weights).units := by
  have hfold : ∀ (weights : List Weight) (start : Weight), (∀ w ∈ weights, 0 ≤ w.units) →
      0 ≤ start.units → (0 < start.units ∨ ∃ w ∈ weights, 0 < w.units) →
      0 < (weights.foldl Measure.add start).units := by
    intro weights
    induction weights with
    | nil => exact fun start _ _ h => h.resolve_right fun ⟨_, hw, _⟩ => absurd hw List.not_mem_nil
    | cons w rest ih =>
        intro start hnonneg hstart h
        rw [List.forall_mem_cons] at hnonneg
        have hsum : 0 ≤ start.units + w.units := Int.add_nonneg hstart hnonneg.1
        refine ih _ hnonneg.2 (round_nonneg hsum) ?_
        by_cases hpos : 0 < start.units + w.units
        · exact .inl (round_pos hpos)
        · obtain ⟨other, hother, hpositive⟩ := h.resolve_left fun _ => by omega
          rcases List.mem_cons.1 hother with rfl | hlater
          · omega
          · exact .inr ⟨other, hlater, hpositive⟩
  exact hfold weights ⟨0⟩ hnonneg (Int.le_refl _) (.inr hpos)

/-- A sum of weights that are all nothing. -/
theorem total_eq_zero {weights : List Weight} (h : ∀ w ∈ weights, w.units = 0) :
    (Measure.total weights).units = 0 := by
  have hfold : ∀ (weights : List Weight) (start : Weight), (∀ w ∈ weights, w.units = 0) →
      start.units = 0 → (weights.foldl Measure.add start).units = 0 := by
    intro weights
    induction weights with
    | nil => exact fun _ _ hstart => hstart
    | cons w rest ih =>
        intro start h hstart
        rw [List.forall_mem_cons] at h
        refine ih _ h.2 ?_
        change (round (start.units + w.units)).units = 0
        rw [hstart, h.1]
        rfl
  exact hfold weights ⟨0⟩ h rfl

end Weight

namespace Measure

variable {α : Type}

/-- A positive item is reached if there is one, be it the last one before the mark was passed. -/
theorem reach_positive {W : Type} [Measure W] {mark sum : W} {last : α × W}
    {items all : List (α × W)} (hitems : ∀ item ∈ items, item ∈ all)
    (h : (last ∈ all ∧ isPositive last.2 = true) ∨ ∃ item ∈ items, isPositive item.2 = true) :
    reach mark last sum items ∈ all ∧ isPositive (reach mark last sum items).2 = true := by
  induction items generalizing last sum with
  | nil => exact h.resolve_right fun ⟨_, hitem, _⟩ => absurd hitem List.not_mem_nil
  | cons item rest ih =>
      obtain ⟨a, w⟩ := item
      rw [List.forall_mem_cons] at hitems
      rw [reach]
      split
      · rename_i hpositive
        split
        · exact ⟨hitems.1, hpositive⟩
        · exact ih hitems.2 (.inl ⟨hitems.1, hpositive⟩)
      · rename_i hnot
        refine ih hitems.2 (h.imp_right ?_)
        rintro ⟨item, hitem, hpositive⟩
        rcases List.mem_cons.1 hitem with rfl | hlater
        · exact absurd hpositive hnot
        · exact ⟨item, hlater, hpositive⟩

variable {items : List (α × Weight)} {source : Source}

/-- A draw gives one of the items. -/
theorem mem_of_pick {item : α × Weight} (h : (pick items source).1 = .ok item) : item ∈ items := by
  unfold pick at h
  split at h
  · cases h
  · dsimp only at h
    split at h
    · cases h
      exact Simulation.reach_mem List.mem_cons_self fun _ hin => hin
    · cases h

/-- Where one of the weights is positive, a draw gives an item of positive weight. -/
theorem pick_apply (hnonneg : ∀ item ∈ items, 0 ≤ item.2.units)
    (hpos : ∃ item ∈ items, 0 < item.2.units) (source : Source) :
    ∃ item ∈ items, 0 < item.2.units ∧ pick items source = (.ok item, source.fraction.2) := by
  have htotal : 0 < (total (items.map fun item => item.2) : Weight).units := by
    obtain ⟨item, hitem, hpositive⟩ := hpos
    refine Weight.total_pos (fun w hw => ?_) ⟨_, List.mem_map_of_mem hitem, hpositive⟩
    obtain ⟨other, hother, rfl⟩ := List.mem_map.1 hw
    exact hnonneg other hother
  cases items with
  | nil =>
      obtain ⟨item, hitem, -⟩ := hpos
      cases hitem
  | cons first rest =>
      have hpicked : pick (first :: rest) source =
          (.ok (reach (part source.fraction.1 (total ((first :: rest).map (·.2)))) first zero
            (first :: rest)), source.fraction.2) := by
        unfold pick
        dsimp only
        rw [if_pos (Weight.isPositive_iff.2 htotal)]
        rfl
      have hreached : ∀ mark : Weight, reach mark first zero (first :: rest) ∈ first :: rest ∧
          isPositive (reach mark first zero (first :: rest)).2 = true := by
        refine fun mark => reach_positive (fun _ hin => hin) (.inr ?_)
        obtain ⟨item, hitem, hpositive⟩ := hpos
        exact ⟨item, hitem, Weight.isPositive_iff.2 hpositive⟩
      obtain ⟨hmem, hpositive⟩ := hreached _
      exact ⟨_, hmem, Weight.isPositive_iff.1 hpositive, hpicked⟩

/-- Where all items weigh nothing, a draw fails. -/
theorem pick_eq_zeroWeight (h : ∀ item ∈ items, item.2.units = 0) (source : Source) :
    pick items source = (.error (.selection .zeroWeight), source) := by
  have htotal : (total (items.map fun item => item.2) : Weight).units = 0 := by
    refine Weight.total_eq_zero fun w hw => ?_
    obtain ⟨item, hitem, rfl⟩ := List.mem_map.1 hw
    exact h item hitem
  cases items with
  | nil => rfl
  | cons first rest =>
      have hnone : ¬ isPositive (total ((first :: rest).map fun item => item.2) : Weight) = true :=
        fun hpositive => Int.ne_of_gt (Weight.isPositive_iff.1 hpositive) htotal
      unfold pick
      dsimp only
      rw [if_neg hnone]
      rfl

end Measure

theorem Draw.lift_ok_bind {α β : Type} (a : α) (f : α → Draw β) :
    Draw.lift (.ok a) >>= f = f a := rfl

theorem Draw.eq_of_lift {α : Type} {e : Except Failure α} {source source' : Source} {a : α}
    (h : Draw.lift e source = (.ok a, source')) : e = .ok a := by
  cases e with
  | error f => cases h
  | ok b =>
      cases h
      rfl

namespace Candidate

/-- Weighing candidates gives each its points. -/
theorem weigh_eq_ok {candidates : List Candidate} {weighed : List (Candidate × Weight)}
    (h : weigh candidates = .ok weighed) :
    weighed.map Prod.fst = candidates ∧ ∀ p ∈ weighed, p.1.entry.points = .ok p.2 := by
  induction candidates generalizing weighed with
  | nil =>
      cases h
      exact ⟨rfl, fun p hp => absurd hp List.not_mem_nil⟩
  | cons c rest ih =>
      obtain ⟨w, hw, hrest⟩ := Except.bind_eq_ok h
      obtain ⟨more, hmore, hlast⟩ := Except.bind_eq_ok hrest
      cases hlast
      obtain ⟨hfirst, hpoints⟩ := ih hmore
      exact ⟨congrArg (c :: ·) hfirst, List.forall_mem_cons.2 ⟨hw, hpoints⟩⟩

/-- Candidates that all have points can be weighed. -/
theorem exists_weigh {candidates : List Candidate}
    (h : ∀ c ∈ candidates, ∃ w, c.entry.points = .ok w) :
    ∃ weighed, weigh candidates = .ok weighed := by
  induction candidates with
  | nil => exact ⟨[], rfl⟩
  | cons c rest ih =>
      rw [List.forall_mem_cons] at h
      obtain ⟨w, hw⟩ := h.1
      obtain ⟨more, hmore⟩ := ih h.2
      exact ⟨(c, w) :: more, by rw [weigh, hw, hmore]; rfl⟩

/-- A draw gives one of the candidates. -/
theorem mem_of_draw {pool : List (Candidate × Weight)} {source : Source} {s : Selection}
    (h : (draw pool source).1 = .ok s) : s.candidate ∈ pool.map Prod.fst := by
  obtain ⟨item, source', hpick, hlast⟩ := Computation.bind_eq_ok (Prod.ext h rfl)
  cases hlast
  exact List.mem_map_of_mem (Measure.mem_of_pick (congrArg Prod.fst hpick))

/-- Where one of the weights is positive, a draw gives a candidate of positive weight. -/
theorem draw_apply {pool : List (Candidate × Weight)} (hnonneg : ∀ p ∈ pool, 0 ≤ p.2.units)
    (hpos : ∃ p ∈ pool, 0 < p.2.units) (source : Source) :
    ∃ s p, p ∈ pool ∧ 0 < p.2.units ∧ s.candidate = p.1 ∧
      draw pool source = (.ok s, source.fraction.2) := by
  obtain ⟨p, hp, hpositive, hpick⟩ := Measure.pick_apply hnonneg hpos source
  refine ⟨⟨p.1.entry, p.1.tableId, p.1.collectionId, p.1.key, p.2,
    Measure.total (pool.map (·.2)), pool.length, none⟩, p, hp, hpositive, rfl, ?_⟩
  rw [draw, Computation.bind_apply, hpick]
  rfl

/-- Where all candidates weigh nothing, a draw fails. -/
theorem draw_eq_zeroWeight {pool : List (Candidate × Weight)} (h : ∀ p ∈ pool, p.2.units = 0)
    (source : Source) : (draw pool source).1 = .error (.selection .zeroWeight) := by
  rw [draw, Computation.bind_apply, Measure.pick_eq_zeroWeight h source]

end Candidate

end RandomTables
