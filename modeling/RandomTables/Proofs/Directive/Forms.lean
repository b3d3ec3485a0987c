-- SUMMARY: The forms that occur in directives have no marks but the brackets around an index.
import RandomTables.Directive.Parser
import RandomTables.Proofs.Directive.Modifiers

/-!
# Marks in forms

Counts, references and chains of properties have no quotes, brackets and bars, so they are
`Unmarked`, and so is what is put together from them. The head of a capture may have an index
between brackets. All of them are therefore level: modifiers behind them are split off.
-/
namespace RandomTables

namespace Directive

open Text

/-! ## Texts without marks -/

theorem unmarked_of_words {cs : List Char} (h : ∀ c ∈ cs, isWord c = true) : Unmarked cs :=
  fun c hc => isSplitMark_of_isWord (h c hc)

theorem unmarked_name {cs : List Char} (h : isName cs = true) : Unmarked cs := by
  rw [isName, Bool.and_eq_true] at h
  exact unmarked_of_words (List.all_eq_true.1 h.2)

theorem unmarked_numeral {cs : List Char} (h : isNumeral cs = true) : Unmarked cs := by
  rw [isNumeral, Bool.and_eq_true] at h
  exact unmarked_of_words fun c hc => isWord_of_isDecimal (List.all_eq_true.1 h.2 c hc)

theorem unmarked_decimals (cs : List Char) : Unmarked (cs.takeWhile isDecimal) :=
  unmarked_of_words fun _ hc => isWord_of_isDecimal (List.mem_takeWhile_imp hc)

theorem unmarked_pieces (mark : Char) (hmark : isSplitMark mark = false) {cs : List Char}
    (h : ∀ piece ∈ splitAtChar mark cs, Unmarked piece) : Unmarked cs := by
  induction cs with
  | nil => exact nofun
  | cons c cs ih =>
      rw [splitAtChar] at h
      split at h
      · rename_i hc
        rw [eq_of_beq hc]
        exact .cons hmark (ih fun piece hpiece => h piece (List.mem_cons_of_mem _ hpiece))
      · split at h
        · rename_i hnil
          obtain ⟨piece, pieces, hcons⟩ := exists_splitAtChar mark cs
          rw [hnil] at hcons
          cases hcons
        · rename_i piece pieces hcons
          rw [List.forall_mem_cons] at h
          obtain ⟨hc, hpiece⟩ := List.forall_mem_cons.1 h.1
          rw [hcons, List.forall_mem_cons] at ih
          exact .cons hc (ih ⟨hpiece, h.2⟩)

theorem unmarked_reference {cs : List Char} (h : isReference cs = true) : Unmarked cs := by
  refine unmarked_pieces '.' (by decide) fun piece hpiece => ?_
  have hpart := List.all_eq_true.1 h piece hpiece
  cases piece with
  | nil => cases hpart
  | cons c rest =>
      rw [isRefPart, Bool.and_eq_true] at hpart
      refine .cons (isSplitMark_of_isAsciiWord hpart.1) fun c hc => ?_
      have hc := List.all_eq_true.1 hpart.2 c hc
      rw [isRefChar, Bool.or_eq_true, beq_iff_eq] at hc
      rcases hc with hword | rfl
      · exact isSplitMark_of_isWord hword
      · decide

theorem unmarked_variableCount {cs : List Char} (h : isVariableCount cs = true) : Unmarked cs := by
  unfold isVariableCount at h
  split at h
  · exact .cons (by decide) (unmarked_name h)
  · cases h

theorem unmarked_count {cs : List Char} (h : isCount cs = true) : Unmarked cs := by
  simp only [isCount, Bool.or_eq_true] at h
  rcases h with (h | h) | h
  · exact unmarked_numeral h
  · exact unmarked_variableCount h
  · rw [← List.takeWhile_append_dropWhile (p := isDecimal) (l := cs)]
    refine (unmarked_decimals cs).append ?_
    unfold isDiceCount at h
    split at h
    · rename_i d rest hrest
      simp only [Bool.and_eq_true, Bool.or_eq_true, beq_iff_eq] at h
      rw [hrest]
      refine .cons ?_ (unmarked_numeral h.2)
      rcases h.1 with rfl | rfl <;> decide
    · cases h

theorem unmarked_repeatedRoll {cs : List Char} {parts : List Char × Bool × List Char}
    (h : repeatedRoll? cs = some parts) : Unmarked cs := by
  refine unmarked_pieces '*' (by decide) ?_
  unfold repeatedRoll? at h
  split at h
  · rename_i count ref hsplit
    split at h
    · rename_i hforms
      rw [Bool.and_eq_true] at hforms
      rw [hsplit]
      simpa using ⟨unmarked_count hforms.1, unmarked_reference hforms.2⟩
    · cases h
  · rename_i count mark ref hsplit
    split at h
    · rename_i hforms
      simp only [Bool.and_eq_true, decide_eq_true_eq] at hforms
      obtain ⟨⟨hcount, rfl⟩, href⟩ := hforms
      have hmark : Unmarked "unique".toList := unmarked_of_any (by decide)
      rw [hsplit]
      simpa using ⟨unmarked_count hcount, hmark, unmarked_reference href⟩
    · cases h
  · cases h

theorem unmarked_repetition {cs : List Char} {parts : Option (List Char) × Bool}
    (h : repetition? cs = some parts) : Unmarked cs := by
  have hagain : Unmarked "again".toList := unmarked_of_any (by decide)
  have hunique : Unmarked "unique".toList := unmarked_of_any (by decide)
  refine unmarked_pieces '*' (by decide) ?_
  unfold repetition? at h
  split at h
  · rename_i word hsplit
    split at h
    · rename_i hword
      rw [hsplit, hword]
      simpa using hagain
    · cases h
  · rename_i count word hsplit
    split at h
    · rename_i hforms
      simp only [Bool.and_eq_true, decide_eq_true_eq] at hforms
      rw [hsplit, hforms.2]
      simpa using ⟨unmarked_numeral hforms.1, hagain⟩
    · cases h
  · rename_i count mark word hsplit
    split at h
    · rename_i hforms
      simp only [Bool.and_eq_true, decide_eq_true_eq] at hforms
      rw [hsplit, hforms.1.2, hforms.2]
      simpa using ⟨unmarked_numeral hforms.1.1, hunique, hagain⟩
    · cases h
  · cases h

/-- A text that is cut at a mark is unmarked if the mark and both parts are. -/
theorem unmarked_cutAtChar (mark : Char) (hmark : isSplitMark mark = false) {cs : List Char}
    (hbefore : Unmarked (cutAtChar mark cs).1) (hafter : Unmarked (cutAtChar mark cs).2) :
    Unmarked cs := by
  rw [← List.takeWhile_append_dropWhile (p := (· != mark)) (l := cs)]
  refine hbefore.append ?_
  rw [cutAtChar] at hafter
  cases hrest : cs.dropWhile (· != mark) with
  | nil => exact fun _ hc => absurd hc List.not_mem_nil
  | cons c rest =>
      have hc : c = mark := by
        have hhead := List.head_dropWhile_not (p := (· != mark)) (l := cs) (by simp [hrest])
        simpa [hrest] using hhead
      rw [hrest] at hafter
      rw [hc]
      exact .cons hmark hafter

theorem unmarked_words (cs : List Char) : Unmarked (cs.takeWhile isWord) := fun _ hc =>
  isSplitMark_of_isWord (List.mem_takeWhile_imp hc)

theorem unmarked_propertyChain {fuel : Nat} {cs : List Char} {properties : List String}
    (h : propertyChain? fuel cs = some properties) : Unmarked cs := by
  induction fuel generalizing cs properties with
  | zero => cases h
  | succ fuel ih =>
      unfold propertyChain? at h
      split at h
      · rename_i rest
        refine .cons (by decide) (.cons (by decide) ?_)
        rw [← List.takeWhile_append_dropWhile (p := isWord) (l := rest)]
        refine (unmarked_words rest).append ?_
        dsimp only at h
        split at h
        · cases h
        split at h
        · rename_i hempty
          rw [List.isEmpty_iff.1 hempty]
          exact nofun
        · obtain ⟨more, hmore, -⟩ := Option.map_eq_some_iff.1 h
          exact ih hmore
      · cases h

theorem unmarked_collected {cs : List Char} {parts : List Char × Bool × List Char}
    (h : collected? cs = some parts) : Unmarked cs := by
  unfold collected? at h
  split at h
  · rename_i rest
    refine .cons (by decide) ?_
    rw [← List.takeWhile_append_dropWhile (p := isWord) (l := rest)]
    refine (unmarked_words rest).append ?_
    dsimp only at h
    split at h
    · rename_i property hrest
      split at h
      · rename_i hforms
        rw [Bool.and_eq_true] at hforms
        rw [hrest]
        exact .cons (by decide) (.cons (by decide) (unmarked_name hforms.2))
      · cases h
    · rename_i property _ hrest
      split at h
      · rename_i hforms
        rw [Bool.and_eq_true] at hforms
        rw [hrest]
        exact .cons (by decide) (unmarked_name hforms.2)
      · cases h
    · cases h
  · cases h

/-! ## Heads of captures -/

/-- An index stands between square brackets and has no marks itself. -/
theorem exists_index {cs after : List Char} {index : Bool × List Char}
    (h : bracketIndex? cs = some (index, after)) :
    ∃ inner, Unmarked inner ∧ cs = '[' :: (inner ++ [']']) ++ after := by
  unfold bracketIndex? at h
  split at h
  · rename_i rest
    split at h
    rename_i negative unsigned hsign
    have hrest : rest = unsigned ∨ rest = '-' :: unsigned := by
      split at hsign
      · exact .inr (congrArg _ (Prod.mk.inj hsign).2)
      · exact .inl (Prod.mk.inj hsign).2
    dsimp only at h
    have hdigits := unmarked_decimals unsigned
    split at h
    · rename_i digits hclose
      have hunsigned : unsigned = unsigned.takeWhile isDecimal ++ ']' :: after := by
        rw [← (Prod.mk.inj (Option.some.inj h)).2, ← hclose, List.takeWhile_append_dropWhile]
      rcases hrest with hrest | hrest
      · refine ⟨unsigned.takeWhile isDecimal, hdigits, ?_⟩
        rw [List.cons_append, List.append_assoc, List.singleton_append, ← hunsigned, hrest]
      · refine ⟨'-' :: unsigned.takeWhile isDecimal, .cons (by decide) hdigits, ?_⟩
        rw [List.cons_append, List.cons_append, List.cons_append, List.append_assoc,
          List.singleton_append, ← hunsigned, hrest]
    · cases h
  · cases h

/-- The head of a capture is level, and so is what has no marks behind it. -/
theorem level_head {cs name rest : List Char} {index : Option (Bool × List Char)}
    (h : captureHead? cs = some (name, index, rest)) (hrest : Unmarked rest) : Level cs := by
  unfold captureHead? at h
  split at h
  · rename_i cs
    have hname : Level ('$' :: cs.takeWhile isWord) :=
      (Unmarked.cons (by decide) (unmarked_words cs)).level
    have hcs : '$' :: cs = ('$' :: cs.takeWhile isWord) ++ cs.dropWhile isWord := by
      rw [List.cons_append, List.takeWhile_append_dropWhile]
    rw [hcs]
    dsimp only at h
    split at h
    · cases h
    split at h
    · rename_i index after hindex
      cases h
      obtain ⟨inner, hinner, hafter⟩ := exists_index hindex
      rw [hafter]
      exact hname.append ((level_bracketed hinner).append hrest.level)
    · cases h
      exact hname.append hrest.level
  · cases h

end Directive

end RandomTables
