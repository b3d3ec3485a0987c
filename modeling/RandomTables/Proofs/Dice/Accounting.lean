-- SUMMARY: What a roll of dice accounts for: its faces, its explosions, the dice that are kept, and the total.
import Mathlib
import RandomTables.Dice.Roll
import RandomTables.Proofs.Evaluation.Monad
import RandomTables.Random.Source

/-!
# What a roll of dice accounts for

Whatever a die is drawn from, as long as it gives its faces, a roll lists every die that was rolled.
The cap is shared by all dice of a roll: each greatest face is paid for by one more die until the
cap is used up, the faces of added dice included. Dice are kept from the whole list, none of them
worse than one that is dropped.
-/
namespace RandomTables

namespace DiceFormula

/-! ## The mark of exploding dice

A notation has a single place for the mark, and nothing else in it can be read as one. -/

theorem mem_dropWhile_iff {α : Type} {p : α → Bool} {a : α} (ha : p a = false) (l : List α) :
    a ∈ l.dropWhile p ↔ a ∈ l := by
  refine ⟨(List.dropWhile_sublist p).mem, fun h => ?_⟩
  rw [← List.takeWhile_append_dropWhile (p := p) (l := l), List.mem_append] at h
  refine h.resolve_left fun htaken => ?_
  rw [List.mem_takeWhile_imp htaken] at ha
  cases ha

theorem mark_trimStart (cs : List Char) : '!' ∈ Text.trimStart cs ↔ '!' ∈ cs :=
  mem_dropWhile_iff (by decide) cs

theorem mark_decimalsOf (cs : List Char) : '!' ∈ (decimalsOf cs).2 ↔ '!' ∈ cs :=
  mem_dropWhile_iff (by decide) cs

theorem mark_cons {c : Char} (hc : c ≠ '!') (cs : List Char) : '!' ∈ c :: cs ↔ '!' ∈ cs := by
  rw [List.mem_cons, or_iff_right hc.symm]

/-- A letter in either case is not the mark. -/
theorem mark_letter {c lower upper : Char} (h : (c == lower || c == upper) = true)
    (hlower : lower ≠ '!') (hupper : upper ≠ '!') (cs : List Char) :
    '!' ∈ c :: cs ↔ '!' ∈ cs := by
  refine mark_cons ?_ cs
  rcases Bool.or_eq_true_iff.1 h with hc | hc
  · rwa [eq_of_beq hc]
  · rwa [eq_of_beq hc]

theorem mark_keepPart {cs rest : List Char} {keep : Option (KeepMode × List Char)}
    (h : keepPart cs = some (keep, rest)) : '!' ∈ rest ↔ '!' ∈ cs := by
  -- the number of dice after the letters
  have hnumber : ∀ {mode : KeepMode} {digits : List Char},
      (if (decimalsOf digits).1.isEmpty then none
        else some (some (mode, (decimalsOf digits).1), (decimalsOf digits).2)) = some (keep, rest) →
      ('!' ∈ rest ↔ '!' ∈ digits) := by
    intro mode digits h
    split at h
    · cases h
    · cases h
      exact mark_decimalsOf digits
  unfold keepPart at h
  split at h
  · cases h
    rfl
  · rename_i c more
    split at h
    · rename_i hletter
      have hc : c ≠ '!' := by
        rintro rfl
        exact absurd hletter (by decide)
      rw [mark_cons hc]
      dsimp only at h
      split at h
      · split at h
        · rename_i hmode
          rw [mark_letter hmode (by decide) (by decide)]
          exact hnumber h
        · split at h
          · rename_i hmode
            rw [mark_letter hmode (by decide) (by decide)]
            exact hnumber h
          · exact hnumber h
      · exact hnumber h
    · cases h
      rfl

theorem not_mark_modifierPart {cs : List Char} {modifier : Option (ModifierOp × List Char)}
    (h : modifierPart cs = some modifier) : '!' ∉ cs := by
  rw [← mark_trimStart]
  unfold modifierPart at h
  split at h
  · rename_i hnil
    rw [hnil]
    exact List.not_mem_nil
  · rename_i c rest hcons
    rw [hcons]
    split at h
    · cases h
    · rename_i op hop
      have hc : c ≠ '!' := by
        rintro rfl
        cases hop
      rw [mark_cons hc, ← mark_trimStart, ← mark_decimalsOf, ← mark_trimStart]
      dsimp only at h
      split at h
      · cases h
      · rename_i hwhole
        have hend : (Text.trimStart (decimalsOf (Text.trimStart rest)).2).isEmpty = true := by
          simpa using (Bool.or_eq_false_iff.1 (eq_false_of_ne_true hwhole)).2
        rw [List.isEmpty_iff.1 hend]
        exact List.not_mem_nil

/-- The mark stands in a notation exactly if the dice explode. -/
theorem exploding_iff {cs : List Char} {form : Form} (h : form? cs = some form) :
    form.exploding = true ↔ '!' ∈ cs := by
  rw [← mark_trimStart, ← mark_decimalsOf, ← mark_trimStart]
  unfold form? at h
  dsimp only at h
  split at h
  · cases h
  · rename_i d rest hcons
    rw [hcons]
    split at h
    · rename_i hletter
      rw [mark_letter hletter (by decide) (by decide), ← mark_trimStart, ← mark_decimalsOf]
      split at h
      · cases h
      · obtain ⟨⟨keep, after⟩, hkeep, h⟩ := Option.bind_eq_some_iff.1 h
        obtain ⟨modifier, hmodifier, rfl⟩ := Option.map_eq_some_iff.1 h
        have hafter := not_mark_modifierPart hmodifier
        rw [mark_keepPart hkeep] at hafter
        split at hafter
        · rename_i heq
          rw [heq]
          exact iff_of_true rfl List.mem_cons_self
        · rename_i hother
          exact iff_of_false Bool.false_ne_true hafter
    · cases h

/-- Whether a specification explodes depends on the mark in its notation alone. -/
theorem exploding_of_parse {cs : List Char} {spec : DiceFormula} (h : parse cs = .ok spec) :
    spec.exploding = true ↔ '!' ∈ cs := by
  unfold parse at h
  dsimp only at h
  split at h
  · cases h
  · rename_i form hform
    rw [← exploding_iff hform]
    split at h
    all_goals
      obtain ⟨count, -, h⟩ := Except.bind_eq_ok h
      obtain ⟨sides, -, h⟩ := Except.bind_eq_ok h
      obtain ⟨-, -, h⟩ := Except.bind_eq_ok h
      obtain ⟨-, -, h⟩ := Except.bind_eq_ok h
      obtain ⟨keep, -, h⟩ := Except.bind_eq_ok h
      obtain ⟨-, -, h⟩ := Except.bind_eq_ok h
      obtain ⟨modifier, -, h⟩ := Except.bind_eq_ok h
      cases h
      rfl

/-! ## The dice that are rolled -/

section

variable {σ : Type} (die : σ → Int × σ)

/-- From every state of a set a die gives one of its faces and stays in the set. -/
def Gives (sides : Nat) (I : σ → Prop) : Prop :=
  ∀ s, I s → (1 ≤ (die s).1 ∧ (die s).1 ≤ sides) ∧ I (die s).2

theorem length_faces (count : Nat) (s : σ) : (faces die count s).1.length = count := by
  induction count generalizing s with
  | zero => rfl
  | succ count ih => exact congrArg (· + 1) (ih _)

/-- A die is added for every greatest face, those of added dice included, up to the cap. -/
theorem length_explode (greatest : Int) (cap pending : Nat) (s : σ) :
    (explode die greatest cap pending s).1.length =
      min cap (pending + (explode die greatest cap pending s).1.count greatest) := by
  induction cap generalizing pending s with
  | zero => simp [explode]
  | succ cap ih =>
      cases pending with
      | zero => simp [explode]
      | succ pending =>
          have hmore := ih (if (die s).1 = greatest then pending + 1 else pending) (die s).2
          simp only [explode, List.length_cons, List.count_cons, beq_iff_eq]
          split at hmore
          · rename_i hgreatest
            simp only [hgreatest, if_true]
            omega
          · rename_i hless
            simp only [hless, if_false]
            omega

variable {die} {sides : Nat} {I : σ → Prop} (hdie : Gives die sides I)
include hdie

theorem faces_bounds (count : Nat) {s : σ} (hs : I s) :
    (∀ face ∈ (faces die count s).1, 1 ≤ face ∧ face ≤ sides) ∧ I (faces die count s).2 := by
  induction count generalizing s with
  | zero => exact ⟨fun _ h => absurd h List.not_mem_nil, hs⟩
  | succ count ih =>
      obtain ⟨hface, hnext⟩ := hdie s hs
      obtain ⟨hmore, hlast⟩ := ih hnext
      exact ⟨List.forall_mem_cons.2 ⟨hface, hmore⟩, hlast⟩

theorem explode_bounds (greatest : Int) (cap pending : Nat) {s : σ} (hs : I s) :
    ∀ face ∈ (explode die greatest cap pending s).1, 1 ≤ face ∧ face ≤ sides := by
  induction cap generalizing pending s with
  | zero => exact fun _ h => absurd h List.not_mem_nil
  | succ cap ih =>
      cases pending with
      | zero => exact fun _ h => absurd h List.not_mem_nil
      | succ pending =>
          obtain ⟨hface, hnext⟩ := hdie s hs
          exact List.forall_mem_cons.2 ⟨hface, ih _ hnext⟩

end

/-! ## The dice that are kept -/

/-- The first items of a sorted list are none of them after one of the others. -/
theorem exists_dropped (le : Int → Int → Bool)
    (htrans : ∀ a b c, le a b = true → le b c = true → le a c = true)
    (htotal : ∀ a b, (le a b || le b a) = true) (n : Nat) (rolls : List Int) :
    ∃ dropped, ((rolls.mergeSort le).take n ++ dropped).Perm rolls ∧
      ((rolls.mergeSort le).take n).length = min n rolls.length ∧
      ∀ k ∈ (rolls.mergeSort le).take n, ∀ d ∈ dropped, le k d = true := by
  have hsorted := List.pairwise_mergeSort htrans htotal rolls
  rw [← List.take_append_drop n (rolls.mergeSort le)] at hsorted
  refine ⟨(rolls.mergeSort le).drop n, ?_, ?_, (List.pairwise_append.1 hsorted).2.2⟩
  · rw [List.take_append_drop]
    exact List.mergeSort_perm rolls le
  · rw [List.length_take, List.length_mergeSort]

theorem sumOfFaces_eq (l : List Int) : sumOfFaces l = l.sum := by
  induction l with
  | nil => rfl
  | cons face rest ih => rw [sumOfFaces, List.sum_cons, ih]

end DiceFormula

/-- A kept die is not worse than a dropped one. -/
def KeepMode.Prefers : KeepMode → Int → Int → Prop
  | .highest, kept, dropped => dropped ≤ kept
  | .lowest, kept, dropped => kept ≤ dropped

/-- A roll of a specification accounts for its dice, whose explosions a cap limits. -/
structure DiceRoll.Accounts (spec : DiceFormula) (exploding : Prop) (cap : Nat) (r : DiceRoll) :
    Prop where
  bounds : ∀ face ∈ r.rolls, 1 ≤ face ∧ face ≤ spec.sides
  rolled : r.rolls.length = spec.count + r.explosions
  calm : ¬exploding → r.explosions = 0
  exploded : exploding → r.explosions = min cap (r.rolls.count (spec.sides : Int))
  keptAll : spec.keep = none → r.kept = r.rolls
  keptBest : ∀ mode n, spec.keep = some (mode, n) → ∃ dropped, (r.kept ++ dropped).Perm r.rolls ∧
    r.kept.length = min n r.rolls.length ∧ ∀ k ∈ r.kept, ∀ d ∈ dropped, mode.Prefers k d
  total : r.total = match spec.modifier with
    | none => r.kept.sum
    | some (.add, value) => r.kept.sum + value
    | some (.subtract, value) => r.kept.sum - value
    | some (.multiply, value) => r.kept.sum * value

namespace DiceFormula

theorem keptOf_best (mode : KeepMode) (n : Nat) (rolls : List Int) :
    ∃ dropped, (keptOf (some (mode, n)) rolls ++ dropped).Perm rolls ∧
      (keptOf (some (mode, n)) rolls).length = min n rolls.length ∧
      ∀ k ∈ keptOf (some (mode, n)) rolls, ∀ d ∈ dropped, mode.Prefers k d := by
  cases mode with
  | highest =>
      obtain ⟨dropped, hperm, hlength, hbest⟩ := exists_dropped (fun a b => b ≤ a)
        (fun a b c hab hbc => by simp only [decide_eq_true_eq] at *; omega)
        (fun a b => by simp only [Bool.or_eq_true, decide_eq_true_eq]; omega) n rolls
      refine ⟨dropped, hperm, hlength, fun k hk d hd => ?_⟩
      simpa [KeepMode.Prefers] using hbest k hk d hd
  | lowest =>
      obtain ⟨dropped, hperm, hlength, hbest⟩ := exists_dropped (fun a b => a ≤ b)
        (fun a b c hab hbc => by simp only [decide_eq_true_eq] at *; omega)
        (fun a b => by simp only [Bool.or_eq_true, decide_eq_true_eq]; omega) n rolls
      refine ⟨dropped, hperm, hlength, fun k hk d hd => ?_⟩
      simpa [KeepMode.Prefers] using hbest k hk d hd

section

variable {σ : Type} (spec : DiceFormula) (die : σ → Int × σ) (cap : Nat) (s : σ)

/-- The dice that explosions add to a roll. -/
def added : List Int :=
  if spec.exploding then
    (explode die spec.sides cap ((faces die spec.count s).1.count (spec.sides : Int))
      (faces die spec.count s).2).1
  else []

theorem rolls_rollWith :
    (spec.rollWith die cap s).1.rolls = (faces die spec.count s).1 ++ spec.added die cap s := by
  cases hexploding : spec.exploding <;> simp [rollWith, added, hexploding]

theorem explosions_rollWith :
    (spec.rollWith die cap s).1.explosions = (spec.added die cap s).length := by
  cases hexploding : spec.exploding <;> simp [rollWith, added, hexploding]

end

/-- A roll of whatever a notation specifies accounts for its dice, whatever die is rolled as long as
it gives its faces. -/
theorem roll_accounts {σ : Type} {cs : List Char} {spec : DiceFormula} (hspec : parse cs = .ok spec)
    {die : σ → Int × σ} {I : σ → Prop} (hdie : Gives die spec.sides I) {s : σ} (hs : I s)
    (cap : Nat) : (spec.rollWith die cap s).1.Accounts spec ('!' ∈ cs) cap := by
  obtain ⟨hfaces, hnext⟩ := faces_bounds hdie spec.count hs
  have hrolls := rolls_rollWith spec die cap s
  have hexplosions := explosions_rollWith spec die cap s
  rw [← exploding_of_parse hspec]
  constructor
  case bounds =>
    rw [hrolls]
    refine List.forall_mem_append.2 ⟨hfaces, ?_⟩
    rw [added]
    split
    · exact explode_bounds hdie _ _ _ hnext
    · exact fun _ h => absurd h List.not_mem_nil
  case rolled => rw [hrolls, hexplosions, List.length_append, length_faces]
  case calm =>
    intro hcalm
    rw [hexplosions, added, if_neg hcalm]
    rfl
  case exploded =>
    intro hexploding
    rw [hexplosions, hrolls, List.count_append, added, if_pos hexploding]
    exact length_explode die _ _ _ _
  case keptAll =>
    intro hkeep
    simp [rollWith, hkeep, keptOf]
  case keptBest =>
    intro mode n hkeep
    simp only [rollWith, hkeep]
    exact keptOf_best mode n _
  case total =>
    cases hmodifier : spec.modifier with
    | none => simp [rollWith, hmodifier, sumOfFaces_eq]
    | some m =>
        rcases m with ⟨op, value⟩
        cases op <;> simp [rollWith, hmodifier, sumOfFaces_eq, ModifierOp.apply]

/-- The dice of a source give their faces. -/
theorem gives_between {sides : Nat} (hsides : 1 ≤ sides) :
    Gives (Source.between 1 sides) sides Source.Proper := fun _ hsource =>
  ⟨Source.between_bounds hsource (by omega), Source.proper_between hsource 1 sides⟩

/-- The third explosion is not paid for, although a die is left over that shows the greatest face. -/
theorem roll_accounts_capped :
    let spec : DiceFormula := {
      count := 2, sides := 6, exploding := true, keep := some (.lowest, 3)
      modifier := some (.multiply, 2), written := "2d6!kl3 * 2" }
    let source : Source := .ofDraws [999999, 0, 999999, 999999]
    parse "2d6!kl3 * 2".toList = .ok spec ∧
    Gives (Source.between 1 spec.sides) spec.sides Source.Proper ∧
    source.Proper ∧ (spec.roll 2 source).1.Accounts spec ('!' ∈ "2d6!kl3 * 2".toList) 2 ∧
    (spec.roll 2 source).1.rolls = [6, 1, 6, 6] ∧ (spec.roll 2 source).1.kept = [1, 6, 6] ∧
    (spec.roll 2 source).1.total = 26 := by
  intro spec source
  have hparse : parse "2d6!kl3 * 2".toList = .ok spec := by rfl
  have hsource : source.Proper := by simp [source, Source.ofDraws, Source.Proper]
  have hdie : Gives (Source.between 1 spec.sides) spec.sides Source.Proper :=
    gives_between (by decide)
  exact ⟨hparse, hdie, hsource, roll_accounts hparse hdie hsource 2, by decide +kernel, by cbv,
    by cbv⟩

end DiceFormula

end RandomTables
