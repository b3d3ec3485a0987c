-- SUMMARY: The kind of a text with a separator behind it, and the kinds of the actions it gives.
import RandomTables.Proofs.Directive.Forms
import RandomTables.Proofs.Evaluation.Monad

/-!
# Kinds of texts

The kind of a directive is decided by tests of its whole text, that of a quoted separator included.
Most of them only look at the start or at the first mark of a text, where the bar in front of a
separator ends everything. The tests for a switch, a capture and a property look everywhere.
-/
namespace RandomTables

/-- A text has no form of a switch if the mark of one does not occur in it. -/
theorem Switch.form?_eq_none {cs : List Char} :
    form? cs = none ↔ Text.holds startMark cs = false := by
  rw [form?, Option.map_eq_none_iff, Text.holds, ← Option.not_isSome_iff_eq_none, Bool.not_eq_true]

namespace Directive

open Text

/-! ## Marks for capturing -/

theorem hasCaptureMark_sign (cs : List Char) :
    hasCaptureMark ('>' :: '>' :: cs) =
      ((trimStart cs).head? == some '$' || hasCaptureMark ('>' :: cs)) := by
  rw [hasCaptureMark]
  rfl

theorem hasCaptureMark_other {c : Char} {cs : List Char} (h : ¬ (c = '>' ∧ cs.head? = some '>')) :
    hasCaptureMark (c :: cs) = hasCaptureMark cs := by
  rw [hasCaptureMark]
  split
  · rename_i heq
    cases heq
    exact absurd ⟨rfl, rfl⟩ h
  · rfl

theorem hasCaptureMark_skip {cs : List Char} (h : ∀ c ∈ cs, c ≠ '>') (rest : List Char) :
    hasCaptureMark (cs ++ rest) = hasCaptureMark rest := by
  induction cs with
  | nil => rfl
  | cons c cs ih =>
      rw [List.forall_mem_cons] at h
      rw [List.cons_append, hasCaptureMark_other fun hmark => h.1 hmark.1, ih h.2]

/-- A mark for capturing is not completed by what begins with neither of its signs, blanks aside. -/
theorem hasCaptureMark_append {cs rest : List Char} (hdollar : (trimStart rest).head? ≠ some '$')
    (hsign : rest.head? ≠ some '>') :
    hasCaptureMark (cs ++ rest) = (hasCaptureMark cs || hasCaptureMark rest) := by
  have hafter : ∀ after : List Char, ((trimStart (after ++ rest)).head? == some '$') =
      ((trimStart after).head? == some '$') := by
    intro after
    rw [trimStart, trimStart, List.dropWhile_append]
    split
    · rename_i hempty
      rw [List.isEmpty_iff.1 hempty]
      exact beq_false_of_ne hdollar
    · rename_i hempty
      rw [List.head?_append_of_ne_nil _ (by simpa using hempty)]
  induction cs with
  | nil => rfl
  | cons c cs ih =>
      by_cases hmark : c = '>' ∧ cs.head? = some '>'
      · obtain ⟨rfl, hcs⟩ := hmark
        obtain ⟨cs, rfl⟩ := List.head?_eq_some_iff.1 hcs
        rw [List.cons_append] at ih
        rw [List.cons_append, List.cons_append, hasCaptureMark_sign, hasCaptureMark_sign, hafter, ih,
          Bool.or_assoc]
      · have hmark' : ¬ (c = '>' ∧ (cs ++ rest).head? = some '>') := by
          rintro ⟨hc, hhead⟩
          cases cs with
          | nil => exact hsign hhead
          | cons d cs => exact hmark ⟨hc, hhead⟩
        rw [List.cons_append, hasCaptureMark_other hmark', hasCaptureMark_other hmark, ih]

/-! ## Texts with a separator behind them -/

/-- Whether a mark has none of the characters around the text of a separator. -/
def isInner (mark : List Char) : Bool := mark.all fun c => !isBlank c && c != '|' && c != '"'

theorem isInner_iff {mark : List Char} :
    isInner mark = true ↔ ∀ c ∈ mark, isBlank c = false ∧ c ≠ '|' ∧ c ≠ '"' := by
  simp [isInner, and_assoc]

section

variable {cs blanks separator : List Char} (hblanks : ∀ c ∈ blanks, isBlank c = true)
include hblanks

/-- What stands behind a directive begins with a blank or with the bar. -/
theorem head_behind {c : Char} (hc : c ∈ (blanks ++ '|' :: quotedText separator).head?) :
    isBlank c = true ∨ c = '|' := by
  cases blanks with
  | nil => exact .inr (Option.some.inj hc).symm
  | cons d blanks => exact .inl (Option.some.inj hc ▸ hblanks d List.mem_cons_self)

theorem startsWith_behind {mark : List Char} (hinner : isInner mark = true) :
    startsWith mark (cs ++ (blanks ++ '|' :: quotedText separator)) = startsWith mark cs := by
  have hmark := isInner_iff.1 hinner
  refine isPrefixOf_append fun c hc hmem => ?_
  rcases head_behind hblanks hc with hblank | hbar
  · rw [(hmark c hmem).1] at hblank
    cases hblank
  · exact (hmark c hmem).2.1 hbar

theorem holds_behind {mark : List Char} (hne : mark ≠ []) (hinner : isInner mark = true) :
    holds mark (cs ++ (blanks ++ '|' :: quotedText separator)) =
      (holds mark cs || holds mark separator) := by
  have hmark := isInner_iff.1 hinner
  have hbar : '|' ∉ mark := fun h => (hmark _ h).2.1 rfl
  have hquote : '"' ∉ mark := fun h => (hmark _ h).2.2 rfl
  have hblank : ∀ c ∈ blanks, c ∉ mark := by
    intro c hc hmem
    have hnot := (hmark c hmem).1
    rw [hblanks c hc] at hnot
    cases hnot
  have hseparator : holds mark (quotedText separator) = holds mark separator := by
    have hstart : holds mark ([] ++ '"' :: (separator ++ ['"'])) =
        (holds mark [] || holds mark (separator ++ ['"'])) := holds_append_cons hne hquote
    rw [List.nil_append, holds_nil hne, Bool.false_or] at hstart
    rw [quotedText, hstart, holds_append hne (by simpa using hquote)]
  rw [← List.append_assoc, holds_append_cons hne hbar, holds_append hne hblank, hseparator]

theorem hasCaptureMark_behind :
    hasCaptureMark (cs ++ (blanks ++ '|' :: quotedText separator)) =
      (hasCaptureMark cs || hasCaptureMark separator) := by
  have hstart : trimStart (blanks ++ '|' :: quotedText separator) = '|' :: quotedText separator := by
    rw [trimStart, List.dropWhile_append_of_pos hblanks]
    rfl
  have hsign : (blanks ++ '|' :: quotedText separator).head? ≠ some '>' := by
    intro h
    rcases head_behind hblanks h with hblank | hbar
    · exact absurd hblank (by decide)
    · exact absurd hbar (by decide)
  have hbehind : hasCaptureMark (blanks ++ '|' :: quotedText separator) = hasCaptureMark separator := by
    have hskip : ∀ c ∈ blanks ++ ['|', '"'], c ≠ '>' := by
      intro c hc
      rcases List.mem_append.1 hc with hc | hc
      · rintro rfl
        exact absurd (hblanks _ hc) (by decide)
      · rintro rfl
        exact absurd hc (by decide)
    have hparts : blanks ++ '|' :: quotedText separator =
        (blanks ++ ['|', '"']) ++ (separator ++ ['"']) := by simp [quotedText]
    have hend : hasCaptureMark (separator ++ ['"']) = (hasCaptureMark separator || false) :=
      hasCaptureMark_append (by decide) (by decide)
    rw [hparts, hasCaptureMark_skip hskip, hend, Bool.or_false]
  have hdollar : (trimStart (blanks ++ '|' :: quotedText separator)).head? ≠ some '$' := by
    rw [hstart]
    simp
  rw [hasCaptureMark_append hdollar hsign, hbehind]

theorem isWord_behind {c : Char} (hc : c ∈ (blanks ++ '|' :: quotedText separator).head?) :
    isWord c = false := by
  rcases head_behind hblanks hc with hblank | rfl
  · exact Bool.eq_false_iff.2 fun hword => by
      rw [isBlank_of_isWord hword] at hblank
      cases hblank
  · exact isWord_of_mem_marks (by decide)

theorem words_behind (cs separator : List Char) :
    (cs ++ (blanks ++ '|' :: quotedText separator)).takeWhile isWord = cs.takeWhile isWord ∧
      (cs ++ (blanks ++ '|' :: quotedText separator)).dropWhile isWord =
        cs.dropWhile isWord ++ (blanks ++ '|' :: quotedText separator) :=
  words_append fun _ hc => isWord_behind hblanks hc

theorem startsVariableCount_behind :
    startsVariableCount ('$' :: (cs ++ (blanks ++ '|' :: quotedText separator))) =
      startsVariableCount ('$' :: cs) := by
  obtain ⟨htake, hdrop⟩ := words_behind hblanks cs separator
  have hhead : ∀ c ∈ (blanks ++ '|' :: quotedText separator).head?, isBlank c = true ∨ c = '|' :=
    fun _ hc => head_behind hblanks hc
  rw [startsVariableCount, startsVariableCount, htake, hdrop]
  generalize blanks ++ '|' :: quotedText separator = rest at hhead
  -- What stands behind ends neither the star nor the first character of a reference.
  have hstar : ∀ c ∈ rest.head?, c ≠ '*' ∧ isAsciiWord c = false := by
    intro c hc
    rcases hhead c hc with hblank | rfl
    · have hnone : isAsciiWord c = false := Bool.eq_false_iff.2 fun hword => by
        rw [isBlank_of_isAsciiWord hword] at hblank
        cases hblank
      exact ⟨fun heq => absurd (heq ▸ hblank) (by decide), hnone⟩
    · decide
  cases cs.dropWhile isWord with
  | nil =>
      cases rest with
      | nil => rfl
      | cons c rest =>
        dsimp only [List.nil_append]
        split
        · rename_i heq
          cases heq
          exact absurd rfl (hstar '*' rfl).1
        · rfl
  | cons d after =>
      cases after with
      | nil =>
          cases rest with
          | nil => rfl
          | cons c rest =>
              simp only [List.cons_append, List.nil_append]
              split
              · rename_i heq
                cases heq
                rw [(hstar _ rfl).2]
              · rfl
      | cons c after =>
          rw [List.cons_append, List.cons_append]
          by_cases hd : d = '*'
          · subst hd
            rfl
          · split
            · rename_i heq
              exact absurd (List.cons.inj heq).1 hd
            · split
              · rename_i heq
                exact absurd (List.cons.inj heq).1 hd
              · rfl

theorem not_mem_behind {mark : Char} (hbar : mark ≠ '|') (hquote : mark ≠ '"')
    (hblank : isBlank mark = false) :
    (cs ++ (blanks ++ '|' :: quotedText separator)).contains mark =
      (cs.contains mark || separator.contains mark) := by
  have hmark : mark ∉ blanks := fun hmem => by
    rw [hblanks _ hmem] at hblank
    cases hblank
  simp [quotedText, hmark, hbar, hquote]

theorem startsCount_behind :
    startsCount (cs ++ (blanks ++ '|' :: quotedText separator)) = startsCount cs := by
  by_cases hstar : '*' ∈ cs
  · obtain ⟨before, after, hcs, hbefore⟩ := List.eq_append_cons_of_mem hstar
    have hcut : ∀ rest, cutAtChar '*' (before ++ '*' :: rest) = (before, rest) :=
      cutAtChar_append hbefore
    have hmem : ∀ rest, (before ++ '*' :: rest).contains '*' = true := fun rest => by simp
    rw [hcs, List.append_assoc, List.cons_append, startsCount, startsCount, hcut, hcut, hmem, hmem]
  · -- Without a star of its own, the text up to a star of the separator has the bar.
    have hbefore : ∀ c ∈ (cs ++ blanks) ++ ['|'], (c != '*') = true := by
      intro c hc
      rw [bne_iff_ne]
      rintro rfl
      rcases List.mem_append.1 hc with hc | hc
      · rcases List.mem_append.1 hc with hc | hc
        · exact hstar hc
        · exact absurd (hblanks _ hc) (by decide)
      · exact absurd hc (by decide)
    have hparts : cs ++ (blanks ++ '|' :: quotedText separator) =
        (cs ++ blanks) ++ ['|'] ++ quotedText separator := by simp
    have hbar : '|' ∈ (cutAtChar '*' (cs ++ (blanks ++ '|' :: quotedText separator))).1 := by
      rw [cutAtChar, hparts, List.takeWhile_append_of_pos hbefore]
      simp
    have hcount : isCount (cutAtChar '*' (cs ++ (blanks ++ '|' :: quotedText separator))).1 = false :=
      Bool.eq_false_iff.2 fun h => absurd (unmarked_count h _ hbar) (by decide)
    have hnone : cs.contains '*' = false := by simpa using hstar
    simp only [isCount, Bool.or_eq_false_iff] at hcount
    have hread : ∀ cs, startsCount cs = (cs.contains '*' &&
        (isNumeral (cutAtChar '*' cs).1 || isDiceCount (cutAtChar '*' cs).1)) := fun _ => rfl
    rw [hread, hread, hnone, hcount.1.1, hcount.2, Bool.or_false, Bool.and_false, Bool.false_and]

/-- What a separator without the mark of a switch makes of the kind of a text that it follows. -/
theorem kindOfTrimmed_behind (hne : cs ≠ []) (htrim : trim cs = cs) (hbare : '|' ∉ cs)
    (hswitch : holds "switch[".toList separator = false) {kind : Directive.Kind}
    (hkind : kindOfTrimmed cs = kind) :
    kindOfTrimmed (cs ++ (blanks ++ '|' :: quotedText separator)) =
      if kind ∈ [.switch, .dice, .math, .collect, .capture] then kind
      else if hasCaptureMark separator then .capture
      else if kind ∈ [.captureAccess, .variable] then
        if separator.contains '@' then .captureProperty
        else if startsCaptureAccess (cs ++ (blanks ++ '|' :: quotedText separator)) then .captureAccess
        else .variable
      else kind := by
  have hstart : ∀ mark : List Char, isInner mark = true →
      startsWith mark (cs ++ (blanks ++ '|' :: quotedText separator)) = startsWith mark cs :=
    fun _ hinner => startsWith_behind hblanks hinner
  have hbase : trim (cutAtChar '|' (cs ++ (blanks ++ '|' :: quotedText separator))).1 = cs := by
    have hmem : '|' ∉ cs ++ blanks := by
      rw [List.mem_append, not_or]
      exact ⟨hbare, fun h => absurd (hblanks _ h) (by decide)⟩
    rw [← List.append_assoc, cutAtChar_append hmem, trim_append_blanks cs hblanks, htrim]
  have hbase' : trim (cutAtChar '|' cs).1 = cs := by
    have hall : ∀ c ∈ cs, (c != '|') = true := fun c hc => bne_iff_ne.2 fun heq => hbare (heq ▸ hc)
    rw [cutAtChar, List.takeWhile_eq_self_iff.2 hall, htrim]
  have hhead : (cs ++ (blanks ++ '|' :: quotedText separator)).head? = cs.head? :=
    List.head?_append_of_ne_nil _ hne
  have hcount : cs.head? = some '$' →
      startsVariableCount (cs ++ (blanks ++ '|' :: quotedText separator)) = startsVariableCount cs := by
    intro hdollar
    obtain ⟨cs, rfl⟩ := List.head?_eq_some_iff.1 hdollar
    exact startsVariableCount_behind hblanks
  unfold kindOfTrimmed at hkind ⊢
  rw [hbase'] at hkind
  rw [holds_behind hblanks (by decide) (by decide), hswitch, Bool.or_false,
    hstart _ (by decide), hstart _ (by decide), hstart _ (by decide), hstart _ (by decide),
    hasCaptureMark_behind hblanks, not_mem_behind hblanks (by decide) (by decide) (by decide),
    startsCount_behind hblanks, hbase, hhead]
  dsimp only at hkind ⊢
  -- Up to the tests that the separator takes part in, both texts are tested alike.
  generalize holds "switch[".toList cs = switch, startsWith "dice:".toList cs = dice,
    startsWith "math:".toList cs = math, startsWith "collect:".toList cs = collect,
    startsWith "unique:".toList cs = unique, hasCaptureMark cs = capture,
    hasCaptureMark separator = capture', cs.contains '@' = property,
    separator.contains '@' = property', startsCount cs = count,
    startsCaptureAccess (cs ++ (blanks ++ '|' :: quotedText separator)) = access',
    startsCaptureAccess cs = access, (cs.head? == some '@') = placeholder,
    (decide (cs = "again".toList) || endsWith "*again".toList cs) = again at hkind ⊢
  by_cases hdollar : cs.head? = some '$'
  · rw [hcount hdollar]
    simp only [hdollar, beq_self_eq_true, if_true] at hkind ⊢
    generalize startsVariableCount cs = count at hkind ⊢
    clear * - hkind
    subst hkind
    cases switch <;> [skip; rfl]
    cases dice <;> [skip; rfl]
    cases math <;> [skip; rfl]
    cases collect <;> [skip; rfl]
    cases capture <;> [skip; rfl]
    cases capture'
    · cases count <;> [skip; rfl]
      cases property <;> [cases access <;> rfl; rfl]
    · cases count <;> cases property <;> cases access <;> rfl
  · simp only [beq_false_of_ne hdollar, Bool.false_eq_true, if_false] at hkind ⊢
    clear * - hkind
    subst hkind
    cases switch <;> [skip; rfl]
    cases dice <;> [skip; rfl]
    cases math <;> [skip; rfl]
    cases collect <;> [skip; rfl]
    cases capture <;> [skip; rfl]
    cases capture' <;> cases placeholder <;> cases again <;> cases unique <;> cases count <;> rfl

end

/-! ## Kinds of actions -/

/-- Whether what is read, if anything is, is an action of a kind. -/
def Gives (kind : Directive.Kind) (read : Except Failure Action) : Prop :=
  ∀ a, read = .ok a → a.kind = kind

namespace Gives

variable {kind : Directive.Kind}

theorem ok {a : Action} (h : a.kind = kind) : Gives kind (.ok a) := by
  rintro _ ⟨⟩
  exact h

theorem error {e : Failure} : Gives kind (.error e) := fun _ h => by cases h

theorem bind {α : Type} {x : Except Failure α} {f : α → Except Failure Action}
    (h : ∀ v, Gives kind (f v)) : Gives kind (x >>= f) := by
  intro a ha
  obtain ⟨v, -, hv⟩ := Except.bind_eq_ok ha
  exact h v a hv

theorem map {α : Type} {x : Except Failure α} {f : α → Action} (h : ∀ v, (f v).kind = kind) :
    Gives kind (x.map f) := by
  intro a ha
  obtain ⟨v, -, rfl⟩ := Except.map_eq_ok ha
  exact h v

theorem ite {p : Prop} [Decidable p] {x y : Except Failure Action} (hx : Gives kind x)
    (hy : Gives kind y) : Gives kind (if p then x else y) := by
  split
  · exact hx
  · exact hy

end Gives

theorem gives_readVariable (cs : List Char) : Gives .variable (readVariable cs) := by
  unfold readVariable
  split
  · split
    · exact .ite (.ok rfl) .error
    · exact .ite (.ok rfl) .error
    · exact .error
  · exact .error

theorem gives_readPlaceholder (cs : List Char) : Gives .placeholder (readPlaceholder cs) := by
  unfold readPlaceholder
  split
  · exact .ite (.ok rfl) .error
  · exact .ite (.ok rfl) .error
  · exact .error

theorem gives_readCaptureProperty (cs : List Char) :
    Gives .captureProperty (readCaptureProperty cs) := by
  unfold readCaptureProperty
  dsimp only
  split
  · exact .error
  · split
    · exact .error
    · exact .bind fun _ => .bind fun _ => .ok rfl

/-- Each reader gives actions of its own kind. -/
theorem gives_readAction (kind : Directive.Kind) (cs : List Char) :
    Gives kind (readAction kind cs) := by
  cases kind with
  | dice => exact .ite .error (.map fun _ => rfl)
  | math => exact .map fun _ => rfl
  | table => exact .ite (.ok rfl) (.ite (.ok rfl) .error)
  | multiRoll =>
      unfold readAction readMultiRoll
      dsimp only
      split
      · exact .error
      · exact .bind fun _ => .bind fun _ => .ok rfl
  | unique => exact .ite (.bind fun _ => .bind fun _ => .ok rfl) .error
  | again =>
      unfold readAction readAgain
      dsimp only
      split
      · exact .error
      · refine .bind fun _ => ?_
        split
        · exact .ok rfl
        · exact .bind fun _ => .ok rfl
  | «variable» => exact gives_readVariable cs
  | captureAccess =>
      unfold readAction readCaptureAccess
      dsimp only
      split
      · exact .error
      · exact .bind fun _ => .bind fun _ => .bind fun _ => .ok rfl
  | captureProperty => exact gives_readCaptureProperty cs
  | placeholder => exact gives_readPlaceholder cs
  | capture =>
      unfold readAction readCapture
      dsimp only
      refine .ite .error (.bind fun _ => .bind fun _ => .ok rfl)
  | collect =>
      unfold readAction readCollect
      dsimp only
      split
      · exact .error
      · exact .bind fun _ => .ite .error (.ok rfl)
  | switch => exact .error

/-- An action is read from a text that has no switch, by the kind of the text. -/
theorem action_of_parse {cs : List Char} {raw : String} {a : Action}
    (h : parse cs = .ok (.act raw a)) :
    trim cs ≠ [] ∧ holds "switch[".toList (trim cs) = false ∧ kindOfTrimmed (trim cs) = a.kind ∧
      readAction a.kind (trim cs) = .ok a := by
  rw [parse, readTrimmed] at h
  split at h
  · cases h
  · rename_i hempty
    split at h
    · -- A switch is read as a switch, if at all.
      unfold readSwitch at h
      split at h
      · cases h
      · obtain ⟨parts, -, h⟩ := Except.bind_eq_ok h
        cases h
      · obtain ⟨subject, -, h⟩ := Except.bind_eq_ok h
        obtain ⟨parts, -, h⟩ := Except.bind_eq_ok h
        cases h
    · rename_i hform
      obtain ⟨_, hread, heq⟩ := Except.map_eq_ok h
      cases heq
      have hkind := gives_readAction _ _ a hread
      refine ⟨by simpa using hempty, ?_, hkind.symm, hkind ▸ hread⟩
      exact Switch.form?_eq_none.1 hform

theorem ite_ne {α : Type} {p : Prop} [Decidable p] {a b c : α} (ha : a ≠ c) (hb : b ≠ c) :
    (if p then a else b) ≠ c := by
  split
  · exact ha
  · exact hb

theorem startsWith_of_kind {cs : List Char} (h : kindOfTrimmed cs = .collect) :
    startsWith "collect:".toList cs = true := by
  by_contra hnot
  rw [kindOfTrimmed, if_neg hnot] at h
  revert h
  repeat' apply ite_ne
  all_goals decide

theorem startsCaptureAccess_of_kind {cs : List Char} (h : kindOfTrimmed cs = .captureAccess) :
    startsCaptureAccess cs = true := by
  by_contra hnot
  rw [kindOfTrimmed, if_neg hnot] at h
  revert h
  repeat' apply ite_ne
  all_goals decide

end Directive

end RandomTables
