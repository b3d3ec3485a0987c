-- SUMMARY: When a quoted separator behind a directive is read as its separator and as nothing else.
import RandomTables.Proofs.Directive.Kinds
import RandomTables.Proofs.Directive.Naming

/-!
# Separators of directives

A separator stands in quotes behind a bar. The reader of each kind cuts it off and reads the rest
as if it stood alone, whatever the quotes hold. Which reader that is, though, is decided on the
whole text, so the marks of other kinds between the quotes count as if they stood outside. `Admits`
says when they do not, and `parse_separator_iff` that nothing else stands in the way.
-/
namespace RandomTables

/-! ## Actions with separators -/

namespace Action

/-- An action that a separator can stand behind: a variable only if no import is named. -/
def Separable : Action → Prop
  | .multiRoll .. => True
  | .unique .. => True
  | .again .. => True
  | .captureAccess .. => True
  | .captureProperty .. => True
  | .capture .. => True
  | .collect .. => True
  | .variable _ importAlias => importAlias = none
  | _ => False

/-- The action with a separator. A variable with one asks for the items of a capture. -/
def separated (separator : String) : Action → Action
  | .multiRoll count ref distinct _ => .multiRoll count ref distinct separator
  | .unique count ref _ => .unique count ref separator
  | .again count distinct _ => .again count distinct separator
  | .captureAccess name index asked _ => .captureAccess name index asked (some separator)
  | .captureProperty name index properties _ =>
    .captureProperty name index properties (some separator)
  | .capture count ref target distinct silent _ =>
    .capture count ref target distinct silent separator
  | .collect source property fromSets distinct _ =>
    .collect source property fromSets distinct separator
  | .variable name _ => .captureAccess name none none (some separator)
  | a => a

end Action

namespace Directive

open Text

/-! ## Readers -/

/-- A text that is read as an action alone is level, and with a separator as its only modifier it is
read as the action with that separator. -/
def Separates (read : List Char → Except Failure Action) (cs : List Char) (a : Action)
    (separator : List Char) : Prop :=
  Level cs ∧ ∀ given, cutModifiers given = (cs, [quotedText separator]) →
    read given = .ok (a.separated (String.ofList separator))

section

variable {cs separator : List Char} {a : Action} (hseparator : '"' ∉ separator ∧ '\\' ∉ separator)
  (hbare : cutModifiers cs = (cs, []))
include hseparator hbare

theorem separates_multiRoll (h : readMultiRoll cs = .ok a) :
    Separates readMultiRoll cs a separator := by
  unfold readMultiRoll at h
  rw [hbare] at h
  dsimp only at h
  split at h
  · cases h
  · rename_i count unique ref hroll
    refine ⟨(unmarked_repeatedRoll hroll).level, fun given hgiven => ?_⟩
    obtain ⟨_, hnone, h⟩ := Except.bind_eq_ok h
    cases hnone
    obtain ⟨n, hn, h⟩ := Except.bind_eq_ok h
    cases h
    rw [readMultiRoll, hgiven]
    dsimp only
    rw [hroll]
    dsimp only
    rw [readModifiers_separator hseparator]
    dsimp only [bind, Except.bind]
    rw [hn]
    rfl

theorem separates_unique (h : readUnique cs = .ok a) : Separates readUnique cs a separator := by
  unfold readUnique at h
  rw [hbare] at h
  dsimp only at h
  split at h
  · rename_i hforms
    refine ⟨Unmarked.level ?_, fun given hgiven => ?_⟩
    · simp only [Bool.and_eq_true] at hforms
      obtain ⟨⟨hstart, hcount⟩, href⟩ := hforms
      obtain ⟨rest, rfl⟩ := List.isPrefixOf_iff_prefix.1 hstart
      have hrest : ("unique:".toList ++ rest).drop 7 = rest := rfl
      rw [hrest] at hcount href
      have hword : Unmarked "unique:".toList := unmarked_of_any (by decide)
      exact hword.append (unmarked_cutAtChar ':' (by decide) (unmarked_numeral hcount)
        (unmarked_reference href))
    · obtain ⟨_, hnone, h⟩ := Except.bind_eq_ok h
      cases hnone
      obtain ⟨n, hn, h⟩ := Except.bind_eq_ok h
      cases h
      rw [readUnique, hgiven]
      dsimp only
      rw [if_pos hforms, readModifiers_separator hseparator]
      dsimp only [bind, Except.bind]
      rw [hn]
      rfl
  · cases h

theorem separates_again (h : readAgain cs = .ok a) : Separates readAgain cs a separator := by
  unfold readAgain at h
  rw [hbare] at h
  dsimp only at h
  split at h
  · cases h
  · rename_i count unique hform
    refine ⟨(unmarked_repetition hform).level, fun given hgiven => ?_⟩
    obtain ⟨_, hnone, h⟩ := Except.bind_eq_ok h
    cases hnone
    rw [readAgain, hgiven]
    dsimp only
    rw [hform]
    dsimp only
    rw [readModifiers_separator hseparator]
    dsimp only [bind, Except.bind]
    cases count with
    | none =>
        cases h
        rfl
    | some digits =>
        obtain ⟨n, hn, h⟩ := Except.bind_eq_ok h
        cases h
        dsimp only
        rw [hn]
        rfl

omit hseparator in
/-- An access to a capture that is read has a head, and one of the two attributes or nothing behind
it. -/
theorem captureHead_of_read (h : readCaptureAccess cs = .ok a) :
    ∃ name index rest asked i, captureHead? cs = some (name, index, rest) ∧
      ((rest = [] ∧ asked = none) ∨ (rest = ".count".toList ∧ asked = some .count) ∨
        (rest = ".value".toList ∧ asked = some .value)) ∧
      indexOf index = .ok i ∧ a = .captureAccess (String.ofList name) i asked none := by
  unfold readCaptureAccess at h
  rw [hbare] at h
  dsimp only at h
  split at h
  · cases h
  · rename_i name index rest hhead
    obtain ⟨asked, hasked, h⟩ := Except.bind_eq_ok h
    obtain ⟨_, hnone, h⟩ := Except.bind_eq_ok h
    cases hnone
    obtain ⟨i, hi, h⟩ := Except.bind_eq_ok h
    cases h
    refine ⟨name, index, rest, asked, i, hhead, ?_, hi, rfl⟩
    split at hasked
    · rename_i hempty
      exact .inl ⟨List.isEmpty_iff.1 hempty, (Except.ok.inj hasked).symm⟩
    split at hasked
    · rename_i hcount
      exact .inr (.inl ⟨hcount, (Except.ok.inj hasked).symm⟩)
    split at hasked
    · rename_i hvalue
      exact .inr (.inr ⟨hvalue, (Except.ok.inj hasked).symm⟩)
    · cases hasked

theorem separates_captureAccess (h : readCaptureAccess cs = .ok a) :
    Separates readCaptureAccess cs a separator := by
  obtain ⟨name, index, rest, asked, i, hhead, hasked, hi, rfl⟩ := captureHead_of_read hbare h
  have hrest : Unmarked rest := by
    rcases hasked with ⟨rfl, -⟩ | ⟨rfl, -⟩ | ⟨rfl, -⟩ <;> exact unmarked_of_any (by decide)
  refine ⟨level_head hhead hrest, fun given hgiven => ?_⟩
  rw [readCaptureAccess, hgiven]
  dsimp only
  rw [hhead]
  dsimp only
  rw [readModifiers_separator hseparator, hi]
  rcases hasked with ⟨rfl, rfl⟩ | ⟨rfl, rfl⟩ | ⟨rfl, rfl⟩ <;> rfl

theorem separates_captureProperty (h : readCaptureProperty cs = .ok a) :
    Separates readCaptureProperty cs a separator := by
  unfold readCaptureProperty at h
  rw [hbare] at h
  dsimp only at h
  split at h
  · cases h
  · rename_i name index rest hhead
    split at h
    · cases h
    · rename_i properties hchain
      obtain ⟨_, hnone, h⟩ := Except.bind_eq_ok h
      cases hnone
      obtain ⟨i, hi, h⟩ := Except.bind_eq_ok h
      cases h
      refine ⟨level_head hhead (unmarked_propertyChain hchain), fun given hgiven => ?_⟩
      rw [readCaptureProperty, hgiven]
      dsimp only
      rw [hhead]
      dsimp only
      rw [hchain]
      dsimp only
      rw [readModifiers_separator hseparator, hi]
      rfl

end

/-- A variable that is read without an import is a name behind a dollar sign. -/
theorem name_of_readVariable {cs : List Char} {name : String}
    (h : readVariable cs = .ok (.variable name none)) :
    ∃ word, isName word = true ∧ cs = '$' :: word ∧ name = String.ofList word := by
  unfold readVariable at h
  split at h
  · rename_i rest
    split at h
    · rename_i word hword
      split at h
      · rename_i hname
        cases h
        have hrest := intercalate_splitAtChar '.' rest
        rw [hword, List.intercalate_singleton] at hrest
        exact ⟨word, hname, hrest ▸ rfl, rfl⟩
      · cases h
    · split at h <;> cases h
    · cases h
  · cases h

/-- A variable is read as the access to the items of a capture. -/
theorem separates_variable {cs separator : List Char} {name : String}
    (hseparator : '"' ∉ separator ∧ '\\' ∉ separator)
    (h : readVariable cs = .ok (.variable name none)) :
    Separates readCaptureAccess cs (.variable name none) separator := by
  obtain ⟨word, hname, rfl, rfl⟩ := name_of_readVariable h
  have hhead := captureHead?_name hname [] rfl (by simp)
  rw [List.append_nil] at hhead
  refine ⟨Unmarked.level (isSplitMark_name hname), fun given hgiven => ?_⟩
  rw [readCaptureAccess, hgiven]
  dsimp only
  rw [hhead]
  dsimp only
  rw [readModifiers_separator hseparator]
  rfl

/-! ## Captures and collections -/

section

variable {cs blanks separator : List Char} {a : Action}
  (hseparator : '"' ∉ separator ∧ '\\' ∉ separator) (hbare : '|' ∉ cs)
  (hblanks : ∀ c ∈ blanks, isBlank c = true)
include hseparator hbare hblanks

/-- The separator of a capture is cut off behind its target. -/
theorem readCapture_behind (h : readCapture cs = .ok a) :
    readCapture (cs ++ (blanks ++ '|' :: quotedText separator)) =
      .ok (a.separated (String.ofList separator)) := by
  unfold readCapture at h
  rcases hcut : cutAt ['>', '>'] cs with _ | ⟨left, right⟩
  · rw [hcut] at h
    cases h
  · rw [hcut] at h
    have hright : '|' ∉ trim right := fun hmem =>
      hbare (append_of_cutAt hcut ▸ by simp [mem_of_mem_trim hmem])
    simp only [Option.getD_some] at h
    rw [cutModifiers_of_not_mem hright, trim_trim] at h
    dsimp only at h
    have htarget : isVariableCount (trim right) = true := by
      cases hvariable : isVariableCount (trim right) with
      | false =>
          rw [hvariable] at h
          cases h
      | true => rfl
    rw [htarget] at h
    obtain ⟨_, hnone, h⟩ := Except.bind_eq_ok h
    cases hnone
    obtain ⟨⟨count, unique, ref⟩, hsource, h⟩ := Except.bind_eq_ok h
    cases h
    have hcut' := cutAt_append (blanks ++ '|' :: quotedText separator) (fun c hc => by
      rcases head_behind hblanks hc with hblank | rfl
      · rintro hmem
        obtain rfl : c = '>' := by simpa using hmem
        exact absurd hblank (by decide)
      · decide) hcut
    unfold readCapture
    rw [hcut']
    simp only [Option.getD_some]
    rw [cutModifiers_behind hseparator (unmarked_variableCount htarget).level hblanks]
    dsimp only
    rw [readModifiers_separator hseparator, htarget]
    dsimp only [bind, Except.bind]
    simp only [Bool.not_true, Bool.false_eq_true, if_false]
    -- The source of the capture stands in front of the marks and is read as before.
    split at hsource
    · rw [hsource]
      rfl
    · split at hsource
      · rename_i href
        cases hsource
        rw [if_pos href]
        rfl
      · cases hsource

/-- The separator of a collection is cut off behind its property. -/
theorem readCollect_behind (hstart : startsWith "collect:".toList cs = true)
    (h : readCollect cs = .ok a) :
    readCollect (cs ++ (blanks ++ '|' :: quotedText separator)) =
      .ok (a.separated (String.ofList separator)) := by
  obtain ⟨rest, rfl⟩ := List.isPrefixOf_iff_prefix.1 hstart
  have hdrop : ∀ rest, ("collect:".toList ++ rest).drop 8 = rest := fun _ => rfl
  have hrest : '|' ∉ trim rest := fun hmem =>
    hbare (List.mem_append_right _ (mem_of_mem_trim hmem))
  unfold readCollect at h
  rw [hdrop, cutModifiers_of_not_mem hrest, trim_trim] at h
  dsimp only at h
  split at h
  · cases h
  · rename_i name marked property hcollected
    obtain ⟨_, hnone, h⟩ := Except.bind_eq_ok h
    cases hnone
    unfold readCollect
    rw [List.append_assoc, hdrop,
      cutModifiers_behind hseparator (unmarked_collected hcollected).level hblanks]
    dsimp only
    rw [hcollected]
    dsimp only
    rw [readModifiers_separator hseparator]
    dsimp only [bind, Except.bind] at h ⊢
    split at h
    · cases h
    · rename_i hknown
      cases h
      rw [if_neg hknown]
      rfl

end

/-- What an access to a capture begins like with a separator behind it: an access if it has an
index. -/
theorem startsCaptureAccess_behind {cs blanks : List Char} (separator : List Char) {name : String}
    {index : Option Int} {asked : Option CaptureAttribute} {given : Option String}
    (hbare : cutModifiers cs = (cs, [])) (hstarts : startsCaptureAccess cs = true)
    (hblanks : ∀ c ∈ blanks, isBlank c = true)
    (h : readCaptureAccess cs = .ok (.captureAccess name index asked given)) :
    startsCaptureAccess (cs ++ (blanks ++ '|' :: quotedText separator)) = true ↔ index ≠ none := by
  obtain ⟨word, bracket, rest, _, i, hhead, hrest, hi, heq⟩ := captureHead_of_read hbare h
  cases heq
  unfold captureHead? at hhead
  split at hhead
  · rename_i cs
    obtain ⟨htake, hdrop⟩ := words_behind hblanks cs separator
    rw [List.cons_append, startsCaptureAccess, htake, hdrop]
    rw [startsCaptureAccess] at hstarts
    generalize cs.dropWhile isWord = after at hhead hstarts ⊢
    generalize cs.takeWhile isWord = letters at hhead hstarts ⊢
    dsimp only at hhead
    split at hhead
    · cases hhead
    rename_i hletters
    split at hhead
    · -- An index opens with a bracket.
      rename_i index' after' hindex
      cases hhead
      obtain ⟨inner, -, rfl⟩ := exists_index hindex
      obtain ⟨j, -, rfl⟩ := Except.map_eq_ok hi
      simp [hletters]
    · cases hhead
      cases hi
      rcases hrest with ⟨rfl, -⟩ | ⟨rfl, -⟩ | ⟨rfl, -⟩
      · simp at hstarts
      · simp
      · simp
  · cases hhead

section

variable {cs blanks separator : List Char} {a : Action}
  (hseparator : '"' ∉ separator ∧ '\\' ∉ separator) (htrim : trim cs = cs)
  (hblanks : ∀ c ∈ blanks, isBlank c = true)
include hseparator htrim hblanks

theorem Separates.behind {read : List Char → Except Failure Action}
    (h : Separates read cs a separator) :
    read (cs ++ (blanks ++ '|' :: quotedText separator)) =
      .ok (a.separated (String.ofList separator)) := by
  refine h.2 _ ?_
  have hlevel : Level (cs ++ blanks) := h.1.append (unmarked_of_blanks hblanks).level
  rw [← List.append_assoc, cutModifiers_separator hseparator hlevel, trim_append_blanks cs hblanks,
    htrim]

/-- A text that is read as an action alone is read as the action with a separator behind it by the
reader of that. -/
theorem readAction_behind (hbare : '|' ∉ cs) (ha : a.Separable) (hkind : kindOfTrimmed cs = a.kind)
    (h : readAction a.kind cs = .ok a) :
    readAction (a.separated (String.ofList separator)).kind
        (cs ++ (blanks ++ '|' :: quotedText separator)) =
      .ok (a.separated (String.ofList separator)) := by
  have hbase : cutModifiers cs = (cs, []) := by rw [cutModifiers_of_not_mem hbare, htrim]
  cases a with
  | multiRoll => exact (separates_multiRoll hseparator hbase h).behind hseparator htrim hblanks
  | unique => exact (separates_unique hseparator hbase h).behind hseparator htrim hblanks
  | again => exact (separates_again hseparator hbase h).behind hseparator htrim hblanks
  | captureAccess =>
      exact (separates_captureAccess hseparator hbase h).behind hseparator htrim hblanks
  | captureProperty =>
      exact (separates_captureProperty hseparator hbase h).behind hseparator htrim hblanks
  | capture => exact readCapture_behind hseparator hbare hblanks h
  | collect => exact readCollect_behind hseparator hbare hblanks (startsWith_of_kind hkind) h
  | «variable» =>
      obtain rfl := ha
      exact (separates_variable hseparator h).behind hseparator htrim hblanks
  | dice => cases ha
  | math => cases ha
  | table => cases ha
  | placeholder => cases ha

end

/-! ## Separators that are admitted -/

/-- The separator leaves the text the kind of the action that it is read as alone: it has no marks
of a kind that is tested for before. An access needs an index, without which only the bar shows that
it is one: it has to follow the name at once. -/
def Admits (cs separator : List Char) (a : Action) : Prop :=
  holds Switch.startMark separator = false ∧
    match a with
    | .capture .. | .collect .. => True
    | .captureAccess _ index _ _ => hasCaptureMark separator = false ∧ '@' ∉ separator ∧ index ≠ none
    | .variable .. => hasCaptureMark separator = false ∧ '@' ∉ separator ∧ trimStart cs = trim cs
    | _ => hasCaptureMark separator = false

/-- A variable with a separator begins like an access if no blank stands in front of the bar. -/
theorem startsCaptureAccess_variable {cs blanks : List Char} (separator : List Char) {name : String}
    (hblanks : ∀ c ∈ blanks, isBlank c = true)
    (h : readVariable cs = .ok (.variable name none)) :
    startsCaptureAccess (cs ++ (blanks ++ '|' :: quotedText separator)) = true ↔ blanks = [] := by
  obtain ⟨word, hname, rfl, rfl⟩ := name_of_readVariable h
  have hhead : ∀ c ∈ (blanks ++ '|' :: quotedText separator).head?, isBlank c = true ∨ c = '|' :=
    fun _ hc => head_behind hblanks hc
  have hword : (blanks ++ '|' :: quotedText separator).head?.any isWord = false := by
    rw [Option.any_eq_false]
    exact fun c hc => (isWord_behind hblanks hc)
  have hbracket : (blanks ++ '|' :: quotedText separator).head? ≠ some '[' := by
    intro hc
    rcases hhead _ hc with hblank | hbar
    · exact absurd hblank (by decide)
    · exact absurd hbar (by decide)
  rw [List.cons_append, startsCaptureAccess_name hname _ hword hbracket]
  cases blanks with
  | nil => simp
  | cons c blanks =>
      have hblank := hblanks c List.mem_cons_self
      have hbar : c ≠ '|' := by
        rintro rfl
        exact absurd hblank (by decide)
      have hpoint : c ≠ '.' := by
        rintro rfl
        exact absurd hblank (by decide)
      simp [hbar, hpoint]

section

variable {cs separator : List Char} {a : Action} (hbare : '|' ∉ cs)
include hbare

/-- What decides the kind of a text with a separator behind it. -/
theorem kind_separated_iff (hne : trim cs ≠ []) (ha : a.Separable)
    (hkind : kindOfTrimmed (trim cs) = a.kind) (h : readAction a.kind (trim cs) = .ok a)
    (hswitch : holds Switch.startMark separator = false) :
    kindOfTrimmed (trimStart cs ++ '|' :: quotedText separator) =
        (a.separated (String.ofList separator)).kind ↔ Admits cs separator a := by
  have hbare : '|' ∉ trim cs := mt mem_of_mem_trim hbare
  obtain ⟨blanks, hblanks, hstart⟩ := exists_trimStart cs
  have hbehind := kindOfTrimmed_behind hblanks hne (trim_trim cs) hbare hswitch hkind
  rw [hstart, List.append_assoc, hbehind]
  cases a with
  | multiRoll | unique | again | captureProperty | capture | collect =>
      simp [Admits, hswitch, Action.kind, Action.separated]
  | captureAccess =>
      have haccess := startsCaptureAccess_behind separator
        (by rw [cutModifiers_of_not_mem hbare, trim_trim]) (startsCaptureAccess_of_kind hkind)
        hblanks h
      simp only [Action.kind, Action.separated, Admits, hswitch, haccess, List.mem_cons, reduceCtorEq,
        List.not_mem_nil, or_self, or_false, if_true, if_false, List.contains_eq_mem,
        decide_eq_true_eq, true_and]
      split_ifs <;> simp [*]
  | «variable» =>
      obtain rfl := ha
      have haccess := startsCaptureAccess_variable separator hblanks h
      simp only [Action.kind, Action.separated, Admits, hswitch, haccess, hstart, List.mem_cons,
        reduceCtorEq, List.not_mem_nil, or_self, or_false, or_true, if_true, if_false,
        List.contains_eq_mem, decide_eq_true_eq, List.append_right_eq_self, true_and]
      split_ifs <;> simp [*]
  | dice => cases ha
  | math => cases ha
  | table => cases ha
  | placeholder => cases ha

/-- A separator in quotes behind a bar makes the action that a text is read as into the action with
that separator exactly if the action admits it there. -/
theorem parse_separator_iff {raw : String} (hseparator : '"' ∉ separator ∧ '\\' ∉ separator)
    (h : parse cs = .ok (.act raw a)) (ha : a.Separable) :
    parse (cs ++ '|' :: quotedText separator) =
        .ok (.act (String.ofList (trimStart cs ++ '|' :: quotedText separator))
          (a.separated (String.ofList separator))) ↔
      Admits cs separator a := by
  obtain ⟨hne, hswitch, hkind, hread⟩ := action_of_parse h
  have htrim := trim_separator cs separator
  obtain ⟨blanks, hblanks, hstart⟩ := exists_trimStart cs
  have hholds : holds Switch.startMark (trimStart cs ++ '|' :: quotedText separator) =
      holds Switch.startMark separator := by
    have hnone : holds Switch.startMark (trim cs) = false := hswitch
    rw [hstart, List.append_assoc, holds_behind hblanks (by decide) (by decide), hnone,
      Bool.false_or]
  constructor
  · intro hparse
    obtain ⟨-, hswitch', hkind', -⟩ := action_of_parse hparse
    rw [htrim] at hswitch' hkind'
    exact (kind_separated_iff hbare hne ha hkind hread (hholds.symm.trans hswitch')).1 hkind'
  · intro hadmits
    have hkind' := (kind_separated_iff hbare hne ha hkind hread hadmits.1).2 hadmits
    have hform := Switch.form?_eq_none.2 (hholds.trans hadmits.1)
    have hread' := readAction_behind hseparator (trim_trim cs) hblanks
      (mt mem_of_mem_trim hbare) ha hkind hread
    have hparse := @parse_of_action (cs ++ '|' :: quotedText separator)
    rw [htrim] at hparse
    rw [hparse (by simp) hform, hkind', hstart, List.append_assoc, hread']
    rfl

end

/-- The items of a capture are listed with words between them. -/
theorem parse_separator_of_words :
    parse "$x|\" and \"".toList =
      .ok (.act "$x|\" and \"" (.captureAccess "x" none none (some " and "))) := by
  have hbare : parse "$x".toList = .ok (.act "$x" (.variable "x" none)) :=
    parse_variable (by decide +kernel : isName ['x'] = true)
  have hseparator : '"' ∉ " and ".toList ∧ '\\' ∉ " and ".toList := by decide
  exact (parse_separator_iff (by decide) hseparator hbare rfl).2
    ⟨by decide, by decide, by decide, by decide⟩

/-- An at sign between the quotes is taken for one in front of a property, which is then missing. -/
theorem separator_taken_for_property :
    parse "$x".toList = .ok (.act "$x" (.variable "x" none)) ∧
      parse "$x|\"@\"".toList = .error (.parse .expectedPropertyChain "$x|\"@\"" none) := by
  refine ⟨parse_variable (by decide +kernel : isName ['x'] = true), ?_⟩
  have htrim : trim "$x|\"@\"".toList = "$x|\"@\"".toList := by decide +kernel
  have hkind : kindOfTrimmed "$x|\"@\"".toList = .captureProperty := by decide +kernel
  rw [parse_of_trimmed (by decide) htrim (by decide), hkind]
  rfl

end Directive

end RandomTables
