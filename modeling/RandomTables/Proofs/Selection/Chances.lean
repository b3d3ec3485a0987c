-- SUMMARY: With exact weights a draw picks each item with the probability that it reports.
import Mathlib
import RandomTables.Proofs.Selection.Bare
import RandomTables.Proofs.Selection.Exhaustion

/-!
# The chances of a draw

A draw in proportion to weights marks a part of their sum and takes the item that reaches past the
mark. Without rounding, the fractions that lead to an item are an interval between two partial sums,
as long as the weight of the item is a part of the sum: items that weigh nothing are never picked,
wherever they stand, and the intervals leave nothing out. What is reported of a draw, from a table,
a pool or a composite table, is the weight of the item and the sum of all weights, whose quotient is
that length.
-/
namespace RandomTables

/-! ## Exact fractions and weights -/

/-- A fraction as a rational number. -/
def Fraction.value (f : Fraction) : ℚ := f.num / f.den

theorem Fraction.value_bounds {f : Fraction} (h : f.num < f.den) : 0 ≤ f.value ∧ f.value < 1 := by
  have hden : (0 : ℚ) < f.den := by exact_mod_cast Nat.zero_lt_of_lt h
  refine ⟨div_nonneg (Nat.cast_nonneg _) hden.le, ?_⟩
  rw [value, div_lt_one hden]
  exact_mod_cast h

/-- Every rational number from zero up to one is the value of a fraction of one. -/
theorem Fraction.exists_value {u : ℚ} (hnonneg : 0 ≤ u) (hless : u < 1) :
    ∃ f : Fraction, f.num < f.den ∧ f.value = u := by
  obtain ⟨n, hn⟩ := Int.eq_ofNat_of_zero_le (Rat.num_nonneg.2 hnonneg)
  have hvalue : (n : ℚ) / u.den = u := by
    have hself := u.num_div_den
    rwa [hn] at hself
  refine ⟨⟨n, u.den⟩, ?_, hvalue⟩
  have hden : (0 : ℚ) < u.den := by exact_mod_cast u.den_pos
  rw [← hvalue, div_lt_one hden] at hless
  exact_mod_cast hless

/-- Weights that are added up without rounding. -/
instance : Measure ℚ where
  zero := 0
  add := (· + ·)
  less a b := decide (a < b)
  part f total := f.value * total

/-- A weight as a rational number. -/
def Weight.value (w : Weight) : ℚ := w.units / unitsOfOne

theorem Weight.unitsOfOne_pos : (0 : ℚ) < unitsOfOne := by
  exact_mod_cast Number.twoTo_pos 1074

theorem Weight.value_nonneg {w : Weight} (h : 0 ≤ w.units) : 0 ≤ w.value :=
  div_nonneg (by exact_mod_cast h) unitsOfOne_pos.le

theorem Weight.value_pos {w : Weight} (h : 0 < w.units) : 0 < w.value :=
  div_pos (by exact_mod_cast h) unitsOfOne_pos

namespace Measure

/-! ## Picking by a fraction -/

section

variable {W : Type} [Measure W] {α β : Type}

/-- The item that a fraction of one picks. -/
def pickAt (f : Fraction) : List (α × W) → Except Failure (α × W)
  | [] => .error (.selection .zeroWeight)
  | first :: rest =>
    let sum := total ((first :: rest).map (·.2))
    if isPositive sum then .ok (reach (part f sum) first zero (first :: rest))
    else .error (.selection .zeroWeight)

/-- The weights with their indices. -/
def numbered (weights : List W) : List (Nat × W) := weights.zipIdx.map Prod.swap

/-- What is reported of the item that a fraction picks: its index, its weight and the sum of all
weights. -/
def reportAt (f : Fraction) (weights : List W) : Except Failure (Nat × W × W) :=
  (pickAt f (numbered weights)).map fun (i, w) => (i, w, total weights)

omit [Measure W] in
theorem map_snd_numbered (weights : List W) : (numbered weights).map (·.2) = weights := by
  rw [numbered, List.map_map]
  exact List.zipIdx_map_fst 0 weights

theorem pickAt_of_positive {items : List (α × W)} (hne : items ≠ [])
    (hsum : isPositive (total (items.map (·.2))) = true) (f : Fraction) :
    ∃ first ∈ items, pickAt f items =
      .ok (reach (part f (total (items.map (·.2)))) first zero items) := by
  cases items with
  | nil => exact absurd rfl hne
  | cons first rest => exact ⟨first, List.mem_cons_self, if_pos hsum⟩

/-- A draw takes one fraction from the source and picks by it. -/
theorem pick_of_positive {items : List (α × W)} (hne : items ≠ [])
    (hsum : isPositive (total (items.map (·.2))) = true) (source : Source) :
    pick items source = (pickAt source.fraction.1 items, source.fraction.2) := by
  cases items with
  | nil => exact absurd rfl hne
  | cons first rest =>
      unfold pick pickAt
      dsimp only
      rw [if_pos hsum, if_pos hsum]
      rfl

theorem pickAt_map (f : Fraction) (g : α → β) (items : List (α × W)) :
    pickAt f (items.map (Prod.map g id)) = (pickAt f items).map (Prod.map g id) := by
  cases items with
  | nil => rfl
  | cons first rest =>
      have htotal := total_map g (first :: rest)
      have hreach :=
        reach_map g (part f (total ((first :: rest).map (·.2)))) first zero (first :: rest)
      rw [List.map_cons] at htotal hreach ⊢
      unfold pickAt
      dsimp only
      rw [htotal]
      split
      · exact congrArg Except.ok hreach
      · rfl

/-- A draw takes the item at the index that its weights and the fraction lead to. -/
theorem exists_pick {pool : List (α × W)} (hne : pool ≠ [])
    (hsum : isPositive (total (pool.map (·.2))) = true) (source : Source) :
    ∃ i, ∃ h : i < pool.length,
      reportAt source.fraction.1 (pool.map (·.2)) = .ok (i, pool[i].2, total (pool.map (·.2))) ∧
      pick pool source = (.ok pool[i], source.fraction.2) := by
  -- the items with their indices are compared with the items and with the indices
  let labelled : List ((α × Nat) × W) := pool.zipIdx.map fun p => ((p.1.1, p.2), p.1.2)
  have hitems : labelled.map (Prod.map Prod.fst id) = pool := by
    rw [List.map_map]
    exact List.zipIdx_map_fst 0 pool
  have hindices : labelled.map (Prod.map Prod.snd id) = numbered (pool.map (·.2)) := by
    rw [numbered, List.map_map, List.zipIdx_map, List.map_map]
    rfl
  have hweights : labelled.map (·.2) = pool.map (·.2) := by
    conv_rhs => rw [← hitems]
    simp
  have hlabelled : labelled ≠ [] := fun h => hne (by rw [← hitems, h]; rfl)
  rw [← hweights] at hsum
  obtain ⟨first, hfirst, hpicked⟩ := pickAt_of_positive hlabelled hsum source.fraction.1
  have hmem : reach (part source.fraction.1 (total (labelled.map (·.2)))) first zero labelled ∈
      labelled := Simulation.reach_mem hfirst fun item hitem => hitem
  generalize reach _ first zero labelled = item at hpicked hmem
  obtain ⟨⟨p, i⟩, hp, rfl⟩ := List.mem_map.1 hmem
  obtain ⟨h, rfl⟩ : ∃ h : i < pool.length, pool[i] = p := by
    have hget := List.mem_zipIdx_iff_getElem?.1 hp
    exact List.getElem?_eq_some_iff.1 hget
  refine ⟨i, h, ?_, ?_⟩
  · rw [reportAt, ← hindices, pickAt_map, hpicked]
    rfl
  · have hpool := pickAt_map source.fraction.1 Prod.fst labelled
    rw [hitems, hpicked] at hpool
    rw [hweights] at hsum
    rw [pick_of_positive hne hsum, hpool]
    rfl

end

/-! ## Exact sums -/

variable {weights : List ℚ}

theorem total_eq_sum (weights : List ℚ) : total weights = weights.sum := List.sum_eq_foldl.symm

/-- An exact mark below the end of the sum lies within one of the weights that are added. -/
theorem reach_between {α : Type} {mark sum : ℚ} {items : List (α × ℚ)} (last : α × ℚ)
    (hnonneg : ∀ p ∈ items, 0 ≤ p.2) (hbefore : sum ≤ mark)
    (hafter : mark < sum + (items.map (·.2)).sum) :
    ∃ before p after, items = before ++ p :: after ∧ reach mark last sum items = p ∧
      sum + (before.map (·.2)).sum ≤ mark ∧ mark < sum + (before.map (·.2)).sum + p.2 := by
  induction items generalizing last sum with
  | nil =>
      rw [List.map_nil, List.sum_nil, add_zero] at hafter
      exact absurd hafter hbefore.not_gt
  | cons item rest ih =>
      obtain ⟨a, w⟩ := item
      obtain ⟨hw, hrest⟩ := List.forall_mem_cons.1 hnonneg
      rw [List.map_cons, List.sum_cons, ← add_assoc] at hafter
      rw [reach]
      -- the mark lies beyond this weight
      have hbeyond : ∀ last : α × ℚ, sum + w ≤ mark →
          ∃ before p after, (a, w) :: rest = before ++ p :: after ∧
            reach mark last (sum + w) rest = p ∧ sum + (before.map (·.2)).sum ≤ mark ∧
            mark < sum + (before.map (·.2)).sum + p.2 := by
        intro last hmark
        obtain ⟨before, p, after, rfl, hreach, hfrom, hto⟩ := ih last hrest hmark hafter
        refine ⟨(a, w) :: before, p, after, rfl, hreach, ?_, ?_⟩
        · rwa [List.map_cons, List.sum_cons, ← add_assoc]
        · rwa [List.map_cons, List.sum_cons, ← add_assoc]
      by_cases hpositive : 0 < w
      · rw [if_pos (show isPositive w = true from decide_eq_true hpositive)]
        by_cases hmark : mark < sum + w
        · rw [if_pos (show less mark (add sum w) = true from decide_eq_true hmark)]
          exact ⟨[], (a, w), rest, rfl, rfl, by simpa using hbefore, by simpa using hmark⟩
        · rw [if_neg (show ¬less mark (add sum w) = true from fun h => hmark (of_decide_eq_true h))]
          exact hbeyond _ (not_lt.1 hmark)
      · obtain rfl : w = 0 := le_antisymm (not_lt.1 hpositive) hw
        rw [if_neg (show ¬isPositive (0 : ℚ) = true from fun h => hpositive (of_decide_eq_true h))]
        have hskip := hbeyond last (by rwa [add_zero])
        rwa [add_zero] at hskip

/-! ## Chances -/

/-- Draws from some weights are fair: a fraction picks a positive weight and marks a part of the sum
that lies within it; the fractions that pick a weight are an interval, whose length is what is
reported; and these lengths make up the whole. -/
structure Fair (weights : List ℚ) : Prop where
  picks : ∀ f : Fraction, f.num < f.den → ∃ i, ∃ h : i < weights.length,
    reportAt f weights = .ok (i, weights[i], weights.sum) ∧ 0 < weights[i] ∧
    (weights.take i).sum ≤ f.value * weights.sum ∧
    f.value * weights.sum < (weights.take (i + 1)).sum
  interval : ∀ i (h : i < weights.length),
    {u | ∃ f : Fraction, f.num < f.den ∧ f.value = u ∧
      reportAt f weights = .ok (i, weights[i], weights.sum)} =
    Set.Ico ((weights.take i).sum / weights.sum) ((weights.take (i + 1)).sum / weights.sum)
  length : ∀ i (h : i < weights.length),
    (weights.take (i + 1)).sum / weights.sum - (weights.take i).sum / weights.sum =
      weights[i] / weights.sum
  whole : (weights.map (· / weights.sum)).sum = 1

section

variable (hnonneg : ∀ w ∈ weights, 0 ≤ w)
include hnonneg

theorem monotone_take_sum : Monotone fun i => (weights.take i).sum := by
  refine monotone_nat_of_le_succ fun i => ?_
  rcases Nat.lt_or_ge i weights.length with h | h
  · rw [List.sum_take_succ weights i h]
    exact le_add_of_nonneg_right (hnonneg _ (List.getElem_mem h))
  · rw [List.take_of_length_le h, List.take_of_length_le (Nat.le_succ_of_le h)]

variable (hpos : 0 < weights.sum)
include hpos

theorem exists_reportAt {f : Fraction} (hf : f.num < f.den) : ∃ i, ∃ h : i < weights.length,
    reportAt f weights = .ok (i, weights[i], weights.sum) ∧ 0 < weights[i] ∧
    (weights.take i).sum ≤ f.value * weights.sum ∧
    f.value * weights.sum < (weights.take (i + 1)).sum := by
  obtain ⟨hvalue, hless⟩ := Fraction.value_bounds hf
  have hweights := map_snd_numbered weights
  have hne : numbered weights ≠ [] := by
    rintro hnil
    rw [hnil] at hweights
    rw [← hweights, List.map_nil, List.sum_nil] at hpos
    exact lt_irrefl _ hpos
  have hpositive : isPositive (total ((numbered weights).map (·.2))) = true := by
    rw [hweights, total_eq_sum]
    exact decide_eq_true hpos
  obtain ⟨first, -, hpicked⟩ := pickAt_of_positive hne hpositive f
  have hall : ∀ p ∈ numbered weights, 0 ≤ p.2 := fun p hp =>
    hnonneg _ (hweights ▸ List.mem_map_of_mem hp)
  have hmark : f.value * weights.sum < 0 + ((numbered weights).map (·.2)).sum := by
    rw [hweights, zero_add]
    exact mul_lt_of_lt_one_left hpos hless
  obtain ⟨before, p, after, hsplit, hreach, hfrom, hto⟩ :=
    reach_between first hall (mul_nonneg hvalue hpos.le) hmark
  have hlength : (numbered weights).length = weights.length := by
    rw [← List.length_map (·.2), hweights]
  have hbound : before.length < (numbered weights).length := by
    rw [hsplit]
    simp
  have h : before.length < weights.length := hlength ▸ hbound
  -- the part before the item adds up to a partial sum of the weights
  have hprefix : (before.map (·.2)).sum = (weights.take before.length).sum := by
    have htake := congrArg (List.take before.length) (congrArg (List.map (·.2)) hsplit)
    rw [hweights, List.map_append, List.take_append_of_le_length (by simp)] at htake
    rw [htake, List.take_of_length_le (by simp)]
  obtain rfl : p = (before.length, weights[before.length]) := by
    have hget : (numbered weights)[before.length] = p := by simp [hsplit]
    rw [← hget]
    simp [numbered]
  rw [zero_add, hprefix] at hfrom hto
  rw [← List.sum_take_succ weights _ h] at hto
  refine ⟨before.length, h, ?_, ?_, hfrom, hto⟩
  · rw [hweights, total_eq_sum] at hpicked
    rw [reportAt, hpicked, total_eq_sum]
    exact congrArg (fun p : Nat × ℚ => Except.ok (p.1, p.2, weights.sum)) hreach
  · rw [List.sum_take_succ weights _ h] at hto
    exact pos_of_lt_add_right (hfrom.trans_lt hto)

theorem fair_of_nonneg : Fair weights := by
  refine ⟨fun f hf => exists_reportAt hnonneg hpos hf, ?_, ?_, ?_⟩
  · intro i h
    ext u
    rw [Set.mem_Ico, div_le_iff₀ hpos, lt_div_iff₀ hpos]
    constructor
    · rintro ⟨f, hf, rfl, hreport⟩
      obtain ⟨j, hj, hpicked, -, hfrom, hto⟩ := exists_reportAt hnonneg hpos hf
      obtain rfl : i = j := congrArg Prod.fst (Except.ok.inj (hreport.symm.trans hpicked))
      exact ⟨hfrom, hto⟩
    · rintro ⟨hfrom, hto⟩
      have hmono := monotone_take_sum hnonneg
      have hvalue : 0 ≤ u := by
        have hstart : (weights.take 0).sum ≤ (weights.take i).sum := hmono (Nat.zero_le i)
        exact nonneg_of_mul_nonneg_left (hstart.trans hfrom) hpos
      have hless : u < 1 := by
        have hend : (weights.take (i + 1)).sum ≤ (weights.take weights.length).sum := hmono h
        rw [List.take_length] at hend
        exact lt_of_mul_lt_mul_right ((hto.trans_le hend).trans_eq (one_mul _).symm) hpos.le
      obtain ⟨f, hf, rfl⟩ := Fraction.exists_value hvalue hless
      obtain ⟨j, hj, hpicked, -, hfrom', hto'⟩ := exists_reportAt hnonneg hpos hf
      -- the parts of the sum do not overlap
      have hij : i < j + 1 := hmono.reflect_lt (hfrom.trans_lt hto')
      have hji : j < i + 1 := hmono.reflect_lt (hfrom'.trans_lt hto)
      obtain rfl : i = j := by omega
      exact ⟨f, hf, rfl, hpicked⟩
  · intro i h
    rw [← sub_div, List.sum_take_succ weights i h, add_sub_cancel_left]
  · simp only [div_eq_mul_inv]
    rw [List.sum_map_mul_right, List.map_id', mul_inv_cancel₀ hpos.ne']

end

end Measure

/-! ## Draws from tables and pools -/

namespace Weight

/-- Adding up the weights rounds nothing. -/
def Unrounded (weights : List Weight) : Prop :=
  ∀ i, round ((weights.take i).map units).sum = ⟨((weights.take i).map units).sum⟩

theorem total_take {weights : List Weight} (h : Unrounded weights) (i : Nat) :
    Measure.total (weights.take i) = ⟨((weights.take i).map units).sum⟩ := by
  induction i with
  | zero => rfl
  | succ i ih =>
      rcases Nat.lt_or_ge i weights.length with hi | hi
      · have hexact := h (i + 1)
        have hsum : ((weights.take (i + 1)).map units).sum =
            ((weights.take i).map units).sum + weights[i].units := by
          rw [List.take_succ_eq_append_getElem hi, List.map_append, List.sum_append]
          simp
        rw [← hexact, hsum, List.take_succ_eq_append_getElem hi, Measure.total, List.foldl_append,
          ← Measure.total, ih]
        rfl
      · rwa [List.take_of_length_le (Nat.le_succ_of_le hi), ← List.take_of_length_le hi]

theorem value_total {weights : List Weight} (h : Unrounded weights) :
    (Measure.total weights).value = (weights.map value).sum := by
  have htotal := total_take h weights.length
  rw [List.take_length] at htotal
  have hvalues : weights.map value = weights.map fun w => (w.units : ℚ) * (unitsOfOne : ℚ)⁻¹ :=
    List.map_congr_left fun w _ => div_eq_mul_inv _ _
  rw [htotal, hvalues, List.sum_map_mul_right, value, div_eq_mul_inv, Int.cast_list_sum,
    List.map_map]
  rfl

end Weight

/-- A draw that takes an item of a pool in proportion to the weights: with any source it takes the
item that the weights and the next fraction lead to, which weighs something, and reports its weight
and the sum of all weights. Without rounding such draws are fair, and the sum that is reported is
that of the weights. -/
structure Proportional {α β : Type} (draw : Draw β) (pool : List (α × Weight))
    (made : α → Weight → Weight → β) : Prop where
  reports : ∀ source : Source, ∃ i, ∃ h : i < pool.length,
    Measure.reportAt source.fraction.1 (pool.map (·.2)) =
      .ok (i, pool[i].2, Measure.total (pool.map (·.2))) ∧
    0 < pool[i].2.units ∧
    draw source =
      (.ok (made pool[i].1 pool[i].2 (Measure.total (pool.map (·.2)))), source.fraction.2)
  fair : Measure.Fair (pool.map fun p => p.2.value)
  total : Weight.Unrounded (pool.map (·.2)) →
    (Measure.total (pool.map (·.2)) : Weight).value = (pool.map fun p => p.2.value).sum

theorem proportional_of_pick {α β : Type} {draw : Draw β} {pool : List (α × Weight)}
    {made : α → Weight → Weight → β}
    (hdraw : draw = do
      let (a, w) ← Measure.pick pool
      return made a w (Measure.total (pool.map (·.2))))
    (hnonneg : ∀ p ∈ pool, 0 ≤ p.2.units) (hpos : ∃ p ∈ pool, 0 < p.2.units) :
    Proportional draw pool made := by
  constructor
  · intro source
    obtain ⟨item, hitem, hpositive, hpicked⟩ := Measure.pick_apply hnonneg hpos source
    have hsum : Measure.isPositive (Measure.total (pool.map (·.2))) = true := by
      rw [Weight.isPositive_iff]
      refine Weight.total_pos ?_ ⟨item.2, List.mem_map_of_mem hitem, hpositive⟩
      intro w hw
      obtain ⟨p, hp, rfl⟩ := List.mem_map.1 hw
      exact hnonneg p hp
    obtain ⟨i, h, hreport, hpick⟩ := Measure.exists_pick (List.ne_nil_of_mem hitem) hsum source
    obtain rfl : pool[i] = item :=
      Except.ok.inj (congrArg Prod.fst (hpick.symm.trans hpicked))
    refine ⟨i, h, hreport, hpositive, ?_⟩
    rw [hdraw, Computation.bind_apply, hpick]
    rfl
  · have hvalues : ∀ v ∈ pool.map fun p => p.2.value, 0 ≤ v := by
      intro v hv
      obtain ⟨p, hp, rfl⟩ := List.mem_map.1 hv
      exact Weight.value_nonneg (hnonneg p hp)
    obtain ⟨p, hp, hweight⟩ := hpos
    refine Measure.fair_of_nonneg hvalues ((Weight.value_pos hweight).trans_le ?_)
    exact List.single_le_sum hvalues _ (List.mem_map_of_mem hp)
  · intro hexact
    rw [Weight.value_total hexact, List.map_map]
    rfl

/-- What is reported of a candidate of a pool that is drawn by its weight. -/
def Candidate.takenFrom (pool : List (Candidate × Weight)) (c : Candidate) (w total : Weight) :
    Selection :=
  ⟨c.entry, c.tableId, c.collectionId, c.key, w, total, pool.length, none⟩

section

variable {weighed : List (Candidate × Weight)} {excluded : List String}

theorem SimpleTable.proportional_draw {t : SimpleTable} {collectionId : String}
    (hmode : (t.inRangeMode && excluded.isEmpty) = false)
    (hweighed : Candidate.weigh (t.candidates collectionId excluded) = .ok weighed)
    (hpos : ∃ p ∈ weighed, 0 < p.2.units) :
    let pool := weighed.filter fun p => Measure.isPositive p.2
    Proportional (t.draw collectionId excluded) pool (Candidate.takenFrom pool) := by
  intro pool
  obtain ⟨p, hp, hpositive⟩ := hpos
  have hpool : p ∈ pool := List.mem_filter.2 ⟨hp, Weight.isPositive_iff.2 hpositive⟩
  have hweights : ∀ p ∈ pool, 0 ≤ p.2.units := fun p hp =>
    (Weight.isPositive_iff.1 (List.mem_filter.1 hp).2).le
  refine proportional_of_pick ?_ hweights ⟨p, hpool, hpositive⟩
  have hentries : ¬t.entries.isEmpty = true := by
    have hcandidate := List.mem_map_of_mem (f := Prod.fst) hp
    rw [(Candidate.weigh_eq_ok hweighed).1] at hcandidate
    obtain ⟨e, he, -⟩ := SimpleTable.mem_candidates.1 hcandidate
    simpa using List.ne_nil_of_mem he
  unfold draw
  rw [if_neg hentries, if_neg (ne_true_of_eq_false hmode), hweighed, Draw.lift_ok_bind]
  generalize hfiltered : List.filter _ weighed = drawn
  cases drawn with
  | nil => exact absurd hfiltered (List.ne_nil_of_mem hpool)
  | cons first rest => exact congrArg Candidate.draw hfiltered.symm

theorem proportional_drawPooled {members : List (SimpleTable × String)} {owner : String}
    (hweighed : Candidate.weigh (poolOf members excluded) = .ok weighed)
    (hnonneg : ∀ p ∈ weighed, 0 ≤ p.2.units) (hpos : ∃ p ∈ weighed, 0 < p.2.units) :
    Proportional (drawPooled members owner excluded) weighed (Candidate.takenFrom weighed) := by
  refine proportional_of_pick ?_ hnonneg hpos
  have hne : poolOf members excluded ≠ [] := by
    obtain ⟨p, hp, -⟩ := hpos
    rw [← (Candidate.weigh_eq_ok hweighed).1]
    exact List.ne_nil_of_mem (List.mem_map_of_mem hp)
  rw [drawPooled_of_ne_nil hne, hweighed, Draw.lift_ok_bind]
  rfl

theorem CompositeTable.proportional_draw {t : CompositeTable}
    (hnonneg : ∀ s ∈ t.sources, 0 ≤ s.points.units) (hpos : ∃ s ∈ t.sources, 0 < s.points.units) :
    Proportional t.draw (t.sources.map fun s => (s, s.points)) fun s w total => (s, w, total) := by
  obtain ⟨heavy, hheavy, hpositive⟩ := hpos
  refine proportional_of_pick ?_ ?_ ⟨_, List.mem_map_of_mem hheavy, hpositive⟩
  · have hsources : ¬t.sources.isEmpty = true := by simpa using List.ne_nil_of_mem hheavy
    exact if_neg hsources
  · intro p hp
    obtain ⟨s, hs, rfl⟩ := List.mem_map.1 hp
    exact hnonneg s hs

end

/-! ## Fair draws -/

end RandomTables
