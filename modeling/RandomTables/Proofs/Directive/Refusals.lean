-- SUMMARY: An action that is no calculation is refused by a parse error, or for too long a numeral.
import RandomTables.Directive.Parser
import RandomTables.Proofs.Regex.Reading
import RandomTables.Proofs.Text.Cutting

/-!
# Refusals

A count, an index or a number of dice is written by decimals, of which there may not be too many.
Reading an action takes such numerals out of its text and nothing else that can break down, except
for the expression of a calculation.
-/
namespace RandomTables

open Text

/-! ## Numerals -/

/-- Decimals in a row in a text. -/
structure Decimals (cs digits : List Char) : Prop where
  within : digits <:+: cs
  decimals : ∀ c ∈ digits, isDecimal c = true

theorem Decimals.mono {cs cs' digits : List Char} (h : Decimals cs digits) (hcs : cs <:+: cs') :
    Decimals cs' digits := ⟨h.within.trans hcs, h.decimals⟩

/-- A text has more decimals in a row than a numeral may have. -/
def Overlong (cs : List Char) : Prop :=
  ∃ digits, Decimals cs digits ∧ Number.mostDigits < digits.length

theorem Overlong.mono {cs cs' : List Char} (h : Overlong cs) (hcs : cs <:+: cs') :
    Overlong cs' := by
  obtain ⟨digits, hdigits, hlong⟩ := h
  exact ⟨digits, hdigits.mono hcs, hlong⟩

/-- A failure for which a text is refused: a parse error, or a breakdown over a numeral of it. -/
def Failure.Refuses (cs : List Char) (f : Failure) : Prop :=
  (∃ e, f = .error (.parse e)) ∨ f = .fault .invalidValue ∧ Overlong cs

/-- A reading that fails only by refusing the text. -/
abbrev Refuses {α : Type} (cs : List Char) (x : Except Failure α) : Prop :=
  FailsOnly (Failure.Refuses cs) x

section

variable {α : Type} {cs cs' digits : List Char} {x : Except Failure α}

theorem Refuses.parse {cause : ParseCause} {source : String} {position : Option Nat} :
    Refuses cs (.error (.parse cause source position) : Except Failure α) := .error (.inl ⟨_, rfl⟩)

theorem Refuses.mono (h : Refuses cs x) (hcs : cs <:+: cs') : Refuses cs' x :=
  FailsOnly.mono h fun _ hf => hf.imp id fun hf => ⟨hf.1, hf.2.mono hcs⟩

theorem Decimals.refuses (h : Decimals cs digits) : Refuses cs (Number.readDigits digits) := by
  rw [Number.readDigits]
  split
  · rename_i hlong
    exact .error (.inr ⟨rfl, digits, h, hlong⟩)
  · exact .ok

end

/-! ## Dice -/

namespace DiceFormula

section

variable {cs rest : List Char}

theorem decimals_decimalsOf (cs : List Char) : Decimals cs (decimalsOf cs).1 :=
  ⟨(List.takeWhile_prefix _).isInfix, fun _ hc => List.mem_takeWhile_imp hc⟩

theorem decimalsOf_within (cs : List Char) : (decimalsOf cs).2 <:+: cs :=
  (List.dropWhile_suffix _).isInfix

theorem tail_within (c : Char) (cs : List Char) : cs <:+: c :: cs := (List.suffix_cons c cs).isInfix

theorem infix_of_keepPart {keep : Option (KeepMode × List Char)}
    (h : keepPart cs = some (keep, rest)) :
    rest <:+: cs ∧ ∀ p ∈ keep, Decimals cs p.2 := by
  unfold keepPart at h
  split at h
  · cases h
    exact ⟨List.infix_rfl, fun _ hp => nomatch hp⟩
  rename_i c cs
  split at h
  · split at h
    rename_i mode marked hmarked
    have hbehind : marked <:+: cs := by
      split at hmarked
      · split at hmarked
        · cases hmarked
          exact tail_within _ _
        · split at hmarked
          · cases hmarked
            exact tail_within _ _
          · cases hmarked
            exact List.infix_rfl
      · cases hmarked
        exact List.infix_rfl
    have hbehind := hbehind.trans (tail_within c cs)
    dsimp only at h
    split at h
    · cases h
    · cases h
      refine ⟨(decimalsOf_within marked).trans hbehind, ?_⟩
      rintro p ⟨⟩
      exact (decimals_decimalsOf marked).mono hbehind
  · cases h
    exact ⟨List.infix_rfl, fun _ hp => nomatch hp⟩

theorem decimals_of_modifierPart {modifier : Option (ModifierOp × List Char)}
    (h : modifierPart cs = some modifier) : ∀ p ∈ modifier, Decimals cs p.2 := by
  unfold modifierPart at h
  have htrim := trimStart_within cs
  split at h
  · cases h
    exact fun _ hp => nomatch hp
  rename_i c rest hrest
  rw [hrest] at htrim
  split at h
  · cases h
  dsimp only at h
  split at h
  · cases h
  · cases h
    rintro p ⟨⟩
    exact (decimals_decimalsOf _).mono
      ((trimStart_within rest).trans ((tail_within c rest).trans htrim))

/-- What is behind the mark of exploding dice stands in the text. -/
theorem exploding_within (cs : List Char) :
    (match cs with
      | '!' :: after => (true, after)
      | other => (false, other)).2 <:+: cs := by
  split
  · exact tail_within _ _
  · exact List.infix_rfl

/-- The numerals of a dice notation stand in its text. -/
theorem decimals_of_form {form : Form} (h : form? cs = some form) :
    Decimals cs form.count ∧ Decimals cs form.sides ∧ (∀ p ∈ form.keep, Decimals cs p.2) ∧
      ∀ p ∈ form.modifier, Decimals cs p.2 := by
  unfold form? at h
  dsimp only at h
  have hcount : (decimalsOf (trimStart cs)).2 <:+: cs :=
    (decimalsOf_within _).trans (trimStart_within cs)
  have hletter := (trimStart_within (decimalsOf (trimStart cs)).2).trans hcount
  split at h
  · cases h
  rename_i d rest hrest
  rw [hrest] at hletter
  split at h
  · have hsides := ((trimStart_within rest).trans (tail_within d rest)).trans hletter
    have hbehind := (decimalsOf_within (trimStart rest)).trans hsides
    split at h
    · cases h
    · obtain ⟨⟨keep, after⟩, hkeep, h⟩ := Option.bind_eq_some_iff.1 h
      obtain ⟨modifier, hmodifier, rfl⟩ := Option.map_eq_some_iff.1 h
      have hmark := (exploding_within _).trans hbehind
      obtain ⟨hafter, hkept⟩ := infix_of_keepPart hkeep
      exact ⟨(decimals_decimalsOf _).mono (trimStart_within cs),
        (decimals_decimalsOf _).mono hsides, fun p hp => (hkept p hp).mono hmark,
        fun p hp => (decimals_of_modifierPart hmodifier p hp).mono (hafter.trans hmark)⟩
  · cases h

end

theorem refuses_partValue {α : Type} {cs : List Char} {part : Option (α × List Char)}
    (h : ∀ p ∈ part, Decimals cs p.2) : Refuses cs (partValue part) := by
  unfold partValue
  split
  · exact .ok
  · exact .map (h _ rfl).refuses

theorem refuses_parse (cs : List Char) : Refuses cs (parse cs) := by
  unfold parse
  dsimp only
  split
  · exact .parse
  · rename_i form hform
    obtain ⟨hcount, hsides, hkeep, hmodifier⟩ := decimals_of_form hform
    have hrefuse : ∀ (wrong : Bool) (cause : ParseCause),
        Refuses cs (if wrong then .error (.parse cause (String.ofList cs) none) else .ok () :
          Except Failure Unit) := fun wrong cause => .ite Refuses.parse .ok
    refine .iteBind .ok hcount.refuses fun count => ?_
    apply FailsOnly.bind hsides.refuses
    intro sides
    apply FailsOnly.bind (hrefuse _ _)
    intro _
    apply FailsOnly.bind (hrefuse _ _)
    intro _
    apply FailsOnly.bind (refuses_partValue hkeep)
    intro keep
    apply FailsOnly.bind (hrefuse _ _)
    intro _
    exact .bind (refuses_partValue hmodifier) fun modifier => .ok

end DiceFormula

/-! ## Forms -/

namespace Directive

section

variable {cs : List Char}

theorem refuses_fail {α : Type} {raw : List Char} {cause : ParseCause} :
    Refuses cs (fail raw cause : Except Failure α) := .parse

theorem decimals_of_isNumeral {digits : List Char} (h : isNumeral digits = true)
    (hdigits : digits <:+: cs) : Decimals cs digits :=
  ⟨hdigits, List.all_eq_true.1 (Bool.and_eq_true_iff.1 h).2⟩

theorem refuses_countOf (cs : List Char) : Refuses cs (countOf cs) := by
  unfold countOf
  split
  · rename_i hnumeral
    exact .map (decimals_of_isNumeral hnumeral List.infix_rfl).refuses
  · split
    · exact .ok
    · exact .map (DiceFormula.refuses_parse cs)

theorem infix_of_repeatedRoll {count ref : List Char} {unique : Bool}
    (h : repeatedRoll? cs = some (count, unique, ref)) : count <:+: cs := by
  have hpieces := (parts_splitAtChar '*' cs).infix_of_mem
  unfold repeatedRoll? at h
  split at h
  · rename_i hsplit
    split at h
    · cases h
      exact hpieces count (by simp [hsplit])
    · cases h
  · rename_i hsplit
    split at h
    · cases h
      exact hpieces count (by simp [hsplit])
    · cases h
  · cases h

theorem decimals_of_repetition {digits : List Char} {unique : Bool}
    (h : repetition? cs = some (some digits, unique)) : Decimals cs digits := by
  have hpieces := (parts_splitAtChar '*' cs).infix_of_mem
  unfold repetition? at h
  split at h
  · split at h <;> cases h
  · rename_i hsplit
    split at h
    · rename_i hnumeral
      cases h
      exact decimals_of_isNumeral (Bool.and_eq_true_iff.1 hnumeral).1
        (hpieces digits (by simp [hsplit]))
    · cases h
  · rename_i hsplit
    split at h
    · rename_i hnumeral
      cases h
      exact decimals_of_isNumeral (Bool.and_eq_true_iff.1 (Bool.and_eq_true_iff.1 hnumeral).1).1
        (hpieces digits (by simp [hsplit]))
    · cases h
  · cases h

theorem decimals_of_bracketIndex {negative : Bool} {digits after : List Char}
    (h : bracketIndex? cs = some ((negative, digits), after)) : Decimals cs digits := by
  unfold bracketIndex? at h
  split at h
  · rename_i rest
    split at h
    rename_i sign unsigned hsign
    have hunsigned : unsigned <:+: rest := by
      split at hsign
      · cases hsign
        exact (List.suffix_cons _ _).isInfix
      · cases hsign
        exact List.infix_rfl
    dsimp only at h
    split at h
    · cases h
      refine ⟨(List.takeWhile_prefix _).isInfix.trans ?_, fun _ hc => List.mem_takeWhile_imp hc⟩
      exact hunsigned.trans (List.suffix_cons '[' rest).isInfix
    · cases h
  · cases h

theorem decimals_of_captureHead {name rest : List Char} {negative : Bool} {digits : List Char}
    (h : captureHead? cs = some (name, some (negative, digits), rest)) : Decimals cs digits := by
  unfold captureHead? at h
  split at h
  · rename_i rest
    dsimp only at h
    split at h
    · cases h
    · split at h
      · rename_i hindex
        cases h
        exact (decimals_of_bracketIndex hindex).mono
          ((List.dropWhile_suffix _).isInfix.trans (List.suffix_cons _ _).isInfix)
      · cases h
  · cases h

theorem refuses_indexOf {index : Option (Bool × List Char)}
    (h : ∀ p ∈ index, Decimals cs p.2) : Refuses cs (indexOf index) := by
  unfold indexOf
  split
  · exact .ok
  · exact .map (.map (h _ rfl).refuses)

theorem cutModifiers_within (cs : List Char) : (cutModifiers cs).1 <:+: cs := by
  have hparts := (parts_splitFrom '|' none none 0 none cs).infix_of_mem
  unfold cutModifiers
  split
  · exact List.nil_infix
  · rename_i base modifiers hmap
    obtain ⟨part, hpart, rfl⟩ : ∃ part ∈ split '|' none cs, trim part = base :=
      List.mem_map.1 (hmap ▸ List.mem_cons_self)
    exact (trim_within part).trans (hparts part hpart)

theorem refuses_readModifiers (raw : List Char) (flag : Option String)
    (modifiers : List (List Char)) : Refuses cs (readModifiers raw flag modifiers) := by
  induction modifiers with
  | nil => exact .ok
  | cons modifier rest ih => exact .ite (.map ih) (.ite (.map ih) Refuses.parse)

end

/-! ## Actions -/

theorem refuses_readDice (cs : List Char) : Refuses cs (readDice cs) := by
  refine .ite refuses_fail (.map ((DiceFormula.refuses_parse _).mono ?_))
  exact (trim_within _).trans (List.drop_suffix 5 cs).isInfix

theorem refuses_readTable (cs : List Char) : Refuses cs (readTable cs) :=
  .ite .ok (.ite .ok refuses_fail)

theorem refuses_readMultiRoll (cs : List Char) : Refuses cs (readMultiRoll cs) := by
  unfold readMultiRoll
  dsimp only
  split
  · exact refuses_fail
  · rename_i count unique ref hrepeated
    apply FailsOnly.bind (refuses_readModifiers ..)
    intro _
    refine .bind ((refuses_countOf count).mono ?_) fun _ => .ok
    exact (infix_of_repeatedRoll hrepeated).trans (cutModifiers_within cs)

theorem refuses_readUnique (cs : List Char) : Refuses cs (readUnique cs) := by
  unfold readUnique
  dsimp only
  split
  · rename_i hform
    simp only [Bool.and_eq_true] at hform
    refine .bind (refuses_readModifiers _ _ _) fun _ => .bind (Decimals.refuses ?_) fun _ => .ok
    refine decimals_of_isNumeral hform.1.2 ((cutAtChar_within ':' _).1.trans ?_)
    exact (List.drop_suffix 7 _).isInfix.trans (cutModifiers_within cs)
  · exact refuses_fail

theorem refuses_readAgain (cs : List Char) : Refuses cs (readAgain cs) := by
  unfold readAgain
  dsimp only
  split
  · exact refuses_fail
  · rename_i count unique hrepetition
    apply FailsOnly.bind (refuses_readModifiers _ _ _)
    intro _
    split
    · exact .ok
    · refine .bind (Decimals.refuses ?_) fun _ => .ok
      exact (decimals_of_repetition hrepetition).mono (cutModifiers_within cs)

theorem refuses_readVariable (cs : List Char) : Refuses cs (readVariable cs) := by
  unfold readVariable
  split
  · split
    · exact .ite .ok refuses_fail
    · exact .ite .ok refuses_fail
    · exact refuses_fail
  · exact refuses_fail

theorem refuses_index {cs name rest : List Char} {index : Option (Bool × List Char)}
    (h : captureHead? (cutModifiers cs).1 = some (name, index, rest)) :
    Refuses cs (indexOf index) := by
  refine refuses_indexOf fun p hp => ?_
  obtain rfl := hp
  exact (decimals_of_captureHead h).mono (cutModifiers_within cs)

theorem refuses_readCaptureAccess (cs : List Char) : Refuses cs (readCaptureAccess cs) := by
  unfold readCaptureAccess
  dsimp only
  split
  · exact refuses_fail
  · rename_i hhead
    apply FailsOnly.bind (.ite .ok (.ite .ok (.ite .ok refuses_fail)))
    intro asked
    apply FailsOnly.bind (refuses_readModifiers _ _ _)
    intro _
    exact .bind (refuses_index hhead) fun _ => .ok

theorem refuses_readCaptureProperty (cs : List Char) : Refuses cs (readCaptureProperty cs) := by
  unfold readCaptureProperty
  dsimp only
  split
  · exact refuses_fail
  · rename_i hhead
    split
    · exact refuses_fail
    · apply FailsOnly.bind (refuses_readModifiers _ _ _)
      intro _
      exact .bind (refuses_index hhead) fun _ => .ok

theorem refuses_readPlaceholder (cs : List Char) : Refuses cs (readPlaceholder cs) := by
  unfold readPlaceholder
  split
  · exact .ite .ok refuses_fail
  · exact .ite .ok refuses_fail
  · exact refuses_fail

theorem refuses_readCapture (cs : List Char) : Refuses cs (readCapture cs) := by
  unfold readCapture
  dsimp only
  have hleft : trim ((cutAt ['>', '>'] cs).getD (cs, [])).1 <:+: cs := by
    refine (trim_within _).trans ?_
    cases hcut : cutAt ['>', '>'] cs with
    | none => exact List.infix_rfl
    | some parts => exact (cutAt_within hcut).1
  refine .refusing refuses_fail (.bind (refuses_readModifiers _ _ _) fun _ => .bind ?_ fun _ => .ok)
  split
  · rename_i hrepeated
    exact .map ((refuses_countOf _).mono ((infix_of_repeatedRoll hrepeated).trans hleft))
  · exact .ite .ok refuses_fail

theorem refuses_readCollect (cs : List Char) : Refuses cs (readCollect cs) := by
  unfold readCollect
  dsimp only
  split
  · exact refuses_fail
  · apply FailsOnly.bind (refuses_readModifiers _ _ _)
    intro _
    exact .ite (.bind refuses_fail fun _ => .ok) .ok

/-- An action other than a calculation is refused by a parse error or for too long a numeral. -/
theorem refuses_readAction {kind : Directive.Kind} (h : kind ≠ .math) (cs : List Char) :
    Refuses cs (readAction kind cs) := by
  cases kind with
  | dice => exact refuses_readDice cs
  | math => exact absurd rfl h
  | table => exact refuses_readTable cs
  | multiRoll => exact refuses_readMultiRoll cs
  | unique => exact refuses_readUnique cs
  | again => exact refuses_readAgain cs
  | «variable» => exact refuses_readVariable cs
  | captureAccess => exact refuses_readCaptureAccess cs
  | captureProperty => exact refuses_readCaptureProperty cs
  | placeholder => exact refuses_readPlaceholder cs
  | capture => exact refuses_readCapture cs
  | collect => exact refuses_readCollect cs
  | switch => exact refuses_fail

end Directive

end RandomTables
