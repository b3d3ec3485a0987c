-- SUMMARY: Directives and expressions that name a variable are read as they are spelled.
import RandomTables.Directive.Parser
import RandomTables.Proofs.Text.Cutting

/-!
# Spelled names

A name is a run of word characters, which are neither blanks nor marks of the language. A text that
spells a variable is therefore cut where its name ends, in an expression also where points join the
names, and what follows decides which directive it is.
-/
namespace RandomTables

/-! ## Expressions -/

namespace Token

theorem dottedName_append {name : List Char} (hname : ∀ c ∈ name, Text.isWord c = true)
    (rest : List Char) : dottedName (name ++ rest) = name ++ dottedName rest := by
  induction name with
  | nil => rfl
  | cons c name ih =>
      obtain ⟨hc, hname⟩ := List.forall_mem_cons.1 hname
      rw [List.cons_append, dottedName.eq_def]
      dsimp only
      rw [if_pos hc, ih hname, List.cons_append]

/-- A dotted name consists of word characters and points. -/
theorem mem_dottedName {cs : List Char} {c : Char} (hc : c ∈ dottedName cs) :
    Text.isWord c = true ∨ c = '.' := by
  fun_induction dottedName cs with
  | case1 => cases hc
  | case2 d rest hword ih => exact (List.mem_cons.1 hc).elim (fun h => .inl (h ▸ hword)) ih
  | case3 d hword hpoint e rest hnext ih =>
      exact (List.mem_cons.1 hc).elim (fun h => .inr (h.trans (eq_of_beq hpoint))) ih
  | case4 => cases hc
  | case5 => cases hc
  | case6 => cases hc

/-- Characters that belong to the token before them are passed over. -/
theorem scanFrom_length (cs : List Char) (position : Nat) :
    scanFrom cs position cs.length = .ok [⟨.eof, [], position + cs.length, 0⟩] := by
  induction cs generalizing position with
  | nil => rfl
  | cons c cs ih => rw [List.length_cons, scanFrom, ih, Nat.add_assoc, Nat.add_comm 1]

/-- A dotted name behind a dollar sign is one token. -/
theorem scan_variable {name : List Char} (h : dottedName name = name) :
    scan ('$' :: name) =
      .ok [⟨.variable, name, 0, name.length + 1⟩, ⟨.eof, [], name.length + 1, 0⟩] := by
  have hlexeme : lexeme '$' name = .ok ⟨.variable, name, name.length + 1⟩ := by
    have hdigit : (Text.isDigit '$' || startsFraction ('$' :: name)) = false := by
      rw [Bool.or_eq_false_iff]
      exact ⟨Text.isDigit_of_mem_marks (by decide), rfl⟩
    rw [lexeme, hdigit, h]
    rfl
  have hblank : Text.isBlank '$' = false := by decide
  rw [scan, scanFrom, hblank, hlexeme]
  simp only [Bool.false_eq_true, if_false, Nat.add_sub_cancel, scanFrom_length, Except.map,
    Nat.zero_add, Nat.add_comm]

end Token

namespace Expr

/-- A variable alone is read as it is at every level. -/
theorem parseLevel_variable (source : String) {t u : Token} (ht : t.kind = .variable)
    (hu : u.kind = .eof) (level : Nat) :
    parseLevel source level [t, u] = .ok ⟨.variable t.text t.position, [u], Nat.lt_succ_self _⟩ := by
  induction level with
  | zero => simp only [parseLevel, parseAtom.eq_def, ht, unaryOf]
  | succ level ih =>
      have hends : ∀ e, parseChain source level e [u] = .ok ⟨e, [u], Nat.le_refl _⟩ := by
        intro e
        have hnone : operatorAt (level + 1) u.kind = none := by
          rw [hu, operatorAt]
          all_goals exact fun _ h => by cases h
        rw [parseChain, hnone]
      rw [parseLevel, ih]
      change (parseChain source level _ [u] >>= _) = _
      rw [hends]
      rfl

/-- A dotted name behind a dollar sign is read as a variable. -/
theorem parse_variable {name : List Char} (h : Token.dottedName name = name) :
    parse ('$' :: name) = .ok (.variable (String.ofList name) 0) := by
  have hlevel := parseLevel_variable (String.ofList ('$' :: name))
    (t := ⟨.variable, name, 0, name.length + 1⟩) (u := ⟨.eof, [], name.length + 1, 0⟩) rfl rfl 6
  have hkind : TokenKind.variable ≠ .eof := by decide
  rw [parse, Token.scan_variable h]
  dsimp only
  rw [ofTokens, if_neg hkind, hlevel]
  rfl

end Expr

/-! ## Directives -/

namespace Directive

open Text

/-- A text without a switch is read as an action. -/
theorem parse_of_action {cs : List Char} (hcs : trim cs ≠ [])
    (hform : Switch.form? (trim cs) = none) :
    parse cs = (readAction (kindOfTrimmed (trim cs)) (trim cs)).map
      (.act (String.ofList (trim cs))) := by
  have hempty : ¬ (trim cs).isEmpty = true := by simpa using hcs
  rw [parse, readTrimmed, if_neg hempty]
  split
  · rename_i form hsome
    rw [hform] at hsome
    cases hsome
  · rfl

/-- A trimmed text without an opening bracket is read as an action. -/
theorem parse_of_trimmed {cs : List Char} (hcs : cs ≠ []) (htrim : trim cs = cs)
    (hbracket : '[' ∉ cs) :
    parse cs = (readAction (kindOfTrimmed cs) cs).map (.act (String.ofList cs)) := by
  have hform : Switch.form? cs = none := by
    rw [Switch.form?, cutAt_eq_none (c := '[') (by decide) hbracket]
    rfl
  have hread := @parse_of_action cs
  rw [htrim] at hread
  exact hread hcs hform

theorem hasCaptureMark_eq_false {cs : List Char} (h : '>' ∉ cs) : hasCaptureMark cs = false := by
  induction cs with
  | nil => rfl
  | cons c cs ih =>
      obtain ⟨hc, hcs⟩ := not_or.1 (mt List.mem_cons.2 h)
      rw [hasCaptureMark, ih hcs, Bool.or_false]
      split
      · rename_i heq
        exact absurd (List.cons.inj heq).1.symm hc
      · rfl

/-- A text does not start with a mark that lacks its first character. -/
theorem not_startsWith {mark cs : List Char} {c : Char} (hmark : mark ≠ []) (hc : c ∉ mark) :
    ¬ startsWith mark (c :: cs) = true := by
  intro h
  obtain ⟨after, hafter⟩ := List.isPrefixOf_iff_prefix.1 h
  cases mark with
  | nil => exact hmark rfl
  | cons m mark => exact hc ((List.cons.inj hafter).1 ▸ List.mem_cons_self)

/-- The calculation of a variable alone. -/
theorem parse_calculation {name : List Char} (h : Token.dottedName name = name) :
    parse ("math:".toList ++ '$' :: name) =
      .ok (.act (String.ofList ("math:".toList ++ '$' :: name))
        (.math (.variable (String.ofList name) 0))) := by
  have hmem : ∀ c ∈ name, isWord c = true ∨ c = '.' := fun c hc =>
    Token.mem_dottedName (h.symm ▸ hc)
  have hlast : ('$' :: name).getLast?.any isBlank = false := by
    rw [Option.any_eq_false]
    intro c hc
    rcases List.mem_cons.1 (List.mem_of_getLast? hc) with rfl | hc
    · decide
    · rcases hmem c hc with hword | rfl
      · exact isBlank_of_isWord hword
      · decide
  have hbracket : '[' ∉ "math:".toList ++ '$' :: name := by
    intro hc
    rcases List.mem_append.1 hc with hc | hc
    · exact absurd hc (by decide)
    rcases List.mem_cons.1 hc with hc | hc
    · exact absurd hc (by decide)
    · refine (hmem _ hc).elim (fun hword => ?_) (by decide)
      exact ne_true_of_eq_false (isWord_of_mem_marks (by decide)) hword
  have htrim : trim ("math:".toList ++ '$' :: name) = "math:".toList ++ '$' :: name := by
    refine trim_of_ends rfl ?_
    rwa [List.getLast?_append_of_ne_nil _ (List.cons_ne_nil _ _)]
  have hexpression : trim (("math:".toList ++ '$' :: name).drop 5) = '$' :: name :=
    trim_of_ends rfl hlast
  have hkind : kindOfTrimmed ("math:".toList ++ '$' :: name) = .math := by
    rw [kindOfTrimmed, holds, cutAt_eq_none (c := '[') (by decide) hbracket]
    rfl
  rw [parse_of_trimmed (by simp) htrim hbracket, hkind, readAction, readMath, hexpression,
    Expr.parse_variable h]
  rfl

section

variable {name : List Char} (hname : isName name = true)
include hname

theorem isWord_of_isName : ∀ c ∈ name, isWord c = true := by
  rw [isName, Bool.and_eq_true, List.all_eq_true] at hname
  exact hname.2

/-- A name has no marks. -/
theorem not_mem_of_isName {mark : Char} (hmark : isWord mark = false) : mark ∉ name := fun h =>
  Bool.false_ne_true (hmark.symm.trans (isWord_of_isName hname mark h))

/-- A name and what follows it fall apart. -/
theorem takeWhile_name (rest : List Char) (hrest : rest.head?.any isWord = false) :
    (name ++ rest).takeWhile isWord = name ∧ (name ++ rest).dropWhile isWord = rest := by
  have hwords := isWord_of_isName hname
  rw [List.takeWhile_append_of_pos hwords, List.dropWhile_append_of_pos hwords]
  cases rest with
  | nil => exact ⟨List.append_nil _, rfl⟩
  | cons c rest =>
      have hc : ¬ isWord c = true := Bool.eq_false_iff.1 hrest
      rw [List.takeWhile_cons_of_neg hc, List.dropWhile_cons_of_neg hc]
      exact ⟨List.append_nil _, rfl⟩

theorem isEmpty_name : name.isEmpty = false := by
  rw [isName, Bool.and_eq_true, Bool.not_eq_true'] at hname
  exact hname.1

/-- A mark that is none of what follows a name is none of both. -/
theorem not_mem_name {mark : Char} {rest : List Char} (hmark : isWord mark = false)
    (hdollar : mark ≠ '$') (hrest : mark ∉ rest) : mark ∉ '$' :: (name ++ rest) := by
  intro h
  rcases List.mem_cons.1 h with h | h
  · exact hdollar h
  · exact (List.mem_append.1 h).elim (not_mem_of_isName hname hmark) hrest

theorem startsVariableCount_name (rest : List Char) (hrest : rest.head?.any isWord = false)
    (hstar : rest.head? ≠ some '*') : startsVariableCount ('$' :: (name ++ rest)) = false := by
  obtain ⟨htake, hdrop⟩ := takeWhile_name hname rest hrest
  rw [startsVariableCount, htake, hdrop, isEmpty_name hname]
  split
  · exact absurd rfl hstar
  · rfl

theorem startsCaptureAccess_name (rest : List Char) (hrest : rest.head?.any isWord = false)
    (hbracket : rest.head? ≠ some '[') :
    startsCaptureAccess ('$' :: (name ++ rest)) = true ↔
      rest.head? = some '|' ∨ rest = ".count".toList ∨ rest = ".value".toList := by
  obtain ⟨htake, hdrop⟩ := takeWhile_name hname rest hrest
  rw [startsCaptureAccess, htake, hdrop, isEmpty_name hname, beq_false_of_ne hbracket]
  simp only [Bool.not_false, Bool.true_and, Bool.false_or, Bool.or_eq_true, beq_iff_eq,
    decide_eq_true_eq, or_assoc]

/-- What is read from a variable follows from what stands behind its name. -/
theorem kindOfTrimmed_name (rest : List Char) (hrest : rest.head?.any isWord = false)
    (hstar : rest.head? ≠ some '*') (hbracket : '[' ∉ rest) (hmark : '>' ∉ rest) :
    kindOfTrimmed ('$' :: (name ++ rest)) =
      if '@' ∈ rest then .captureProperty
      else if rest.head? = some '|' ∨ rest = ".count".toList ∨ rest = ".value".toList then
        .captureAccess
      else .variable := by
  have hswitch : ¬ holds "switch[".toList ('$' :: (name ++ rest)) = true := by
    rw [holds, cutAt_eq_none (c := '[') (by decide)
      (not_mem_name hname (isWord_of_mem_marks (by decide)) (by decide) hbracket)]
    exact Bool.false_ne_true
  have hcapture : ¬ hasCaptureMark ('$' :: (name ++ rest)) = true := by
    rw [hasCaptureMark_eq_false
      (not_mem_name hname (isWord_of_mem_marks (by decide)) (by decide) hmark)]
    exact Bool.false_ne_true
  have hproperty : ('$' :: (name ++ rest)).contains '@' = true ↔ '@' ∈ rest := by
    have hat : '@' ∉ name := not_mem_of_isName hname (isWord_of_mem_marks (by decide))
    simp [hat]
  have hdollar : (('$' :: (name ++ rest)).head? == some '$') = true := rfl
  have hcount := Bool.eq_false_iff.1 (startsVariableCount_name hname rest hrest hstar)
  have haccess := startsCaptureAccess_name hname rest hrest
    fun h => hbracket (List.mem_of_mem_head? h)
  unfold kindOfTrimmed
  rw [if_neg hswitch, if_neg (not_startsWith (by decide) (by decide)),
    if_neg (not_startsWith (by decide) (by decide)),
    if_neg (not_startsWith (by decide) (by decide)), if_neg hcapture, if_pos hdollar,
    if_neg hcount]
  simp only [hproperty, haccess]

/-- A name with what follows it is trimmed if that does not end in a blank. -/
theorem trim_name (rest : List Char) (hrest : rest.getLast?.any isBlank = false) :
    trim ('$' :: (name ++ rest)) = '$' :: (name ++ rest) := by
  refine trim_of_ends rfl ?_
  by_cases hempty : rest = []
  · have hne : name ≠ [] := by simpa using isEmpty_name hname
    rw [hempty, List.append_nil, ← List.singleton_append, List.getLast?_append_of_ne_nil _ hne,
      Option.any_eq_false]
    exact fun c hc => isBlank_of_isWord (isWord_of_isName hname c (List.mem_of_getLast? hc))
  · rwa [← List.cons_append, List.getLast?_append_of_ne_nil _ hempty]

theorem isSplitMark_name : ∀ c ∈ '$' :: name, isSplitMark c = false :=
  List.forall_mem_cons.2
    ⟨by decide, fun c hc => isSplitMark_of_isWord (isWord_of_isName hname c hc)⟩

/-- A name is the head of what stands behind it. -/
theorem captureHead?_name (rest : List Char) (hrest : rest.head?.any isWord = false)
    (hbracket : rest.head? ≠ some '[') :
    captureHead? ('$' :: (name ++ rest)) = some (name, none, rest) := by
  obtain ⟨htake, hdrop⟩ := takeWhile_name hname rest hrest
  have hindex : bracketIndex? rest = none := by
    unfold bracketIndex?
    split
    · exact absurd rfl hbracket
    · rfl
  rw [captureHead?, htake, hdrop, isEmpty_name hname, hindex]
  rfl

/-- A name with what stands behind it is read as an action. -/
theorem parse_name (rest : List Char) (hlast : rest.getLast?.any isBlank = false)
    (hbracket : '[' ∉ rest) :
    parse ('$' :: (name ++ rest)) =
      (readAction (kindOfTrimmed ('$' :: (name ++ rest))) ('$' :: (name ++ rest))).map
        (.act (String.ofList ('$' :: (name ++ rest)))) := by
  refine parse_of_trimmed (List.cons_ne_nil _ _) (trim_name hname rest hlast) ?_
  exact not_mem_name hname (isWord_of_mem_marks (by decide)) (by decide) hbracket

/-- A name alone is a variable. -/
theorem parse_variable :
    parse ('$' :: name) =
      .ok (.act (String.ofList ('$' :: name)) (.variable (String.ofList name) none)) := by
  have hdot : name.contains '.' = false := by
    rw [List.contains_eq_mem]
    exact decide_eq_false (not_mem_of_isName hname (isWord_of_mem_marks (by decide)))
  have hkind := kindOfTrimmed_name hname [] rfl (by simp) (by simp) (by simp)
  have hparse := parse_name hname [] rfl (by simp)
  rw [List.append_nil] at hkind hparse
  rw [hparse, hkind, if_neg (by decide), if_neg (by decide), readAction, readVariable, splitAtChar_of_absent hdot]
  simp only [hname, if_true]
  rfl

/-- A name with the count or the value asked for. -/
theorem parse_attribute (asked : CaptureAttribute) :
    parse ('$' :: (name ++ '.' :: asked.name.toList)) =
      .ok (.act (String.ofList ('$' :: (name ++ '.' :: asked.name.toList)))
        (.captureAccess (String.ofList name) none (some asked) none)) := by
  have hapart : ('.' :: asked.name.toList).head?.any isWord = false :=
    isWord_of_mem_marks (by decide)
  have hlast : ('.' :: asked.name.toList).getLast?.any isBlank = false := by
    cases asked <;> decide
  have hsplit : ∀ c ∈ '$' :: (name ++ '.' :: asked.name.toList), isSplitMark c = false := by
    have hplain : ('.' :: asked.name.toList).any isSplitMark = false := by
      cases asked <;> decide
    rw [← List.cons_append, List.forall_mem_append]
    refine ⟨isSplitMark_name hname, fun c hc => ?_⟩
    exact Bool.eq_false_iff.2 (List.any_eq_false.1 hplain c hc)
  have htrim := trim_name hname _ hlast
  have hcut : cutModifiers ('$' :: (name ++ '.' :: asked.name.toList)) =
      ('$' :: (name ++ '.' :: asked.name.toList), []) := by
    rw [cutModifiers, split_of_plain hsplit, List.map_singleton, htrim]
  have hhead := captureHead?_name hname _ hapart (by simp)
  rw [parse_name hname _ hlast (by cases asked <;> decide),
    kindOfTrimmed_name hname _ hapart (by simp) (by cases asked <;> decide)
      (by cases asked <;> decide),
    if_neg (by cases asked <;> decide), if_pos (by cases asked <;> decide), readAction, readCaptureAccess, hcut]
  dsimp only
  rw [hhead]
  cases asked <;> rfl

/-- A name with the separator that stands between items otherwise too. -/
theorem parse_joined :
    parse ('$' :: (name ++ "|\", \"".toList)) =
      .ok (.act (String.ofList ('$' :: (name ++ "|\", \"".toList)))
        (.captureAccess (String.ofList name) none none (some defaultSeparator))) := by
  have hapart : "|\", \"".toList.head?.any isWord = false := isWord_of_mem_marks (by decide)
  have hcut : cutModifiers ('$' :: (name ++ "|\", \"".toList)) =
      ('$' :: name, ["\", \"".toList]) := by
    have htrim := trim_name hname [] rfl
    rw [List.append_nil] at htrim
    have hbar : split '|' none ('$' :: (name ++ "|\", \"".toList)) =
        ('$' :: name) :: splitFrom '|' none (some '|') 0 none "\", \"".toList :=
      split_at_bar (isSplitMark_name hname) (by decide)
    rw [cutModifiers, hbar, List.map_cons, htrim]
    rfl
  have hhead := captureHead?_name hname [] rfl (by simp)
  rw [List.append_nil] at hhead
  rw [parse_name hname _ (by decide) (by decide),
    kindOfTrimmed_name hname _ hapart (by decide) (by decide) (by decide),
    if_neg (by decide), if_pos (by decide), readAction, readCaptureAccess, hcut]
  dsimp only
  rw [hhead]
  rfl

/-- A name with a property behind it is the access to that property of all items. -/
theorem parse_property {property : List Char} (hproperty : isName property = true) :
    parse ('$' :: (name ++ '.' :: '@' :: property)) =
      .ok (.act (String.ofList ('$' :: (name ++ '.' :: '@' :: property)))
        (.captureProperty (String.ofList name) none [String.ofList property] none)) := by
  let rest := '.' :: '@' :: property
  have hapart : rest.head?.any isWord = false := isWord_of_mem_marks (by decide)
  have hlast : rest.getLast?.any isBlank = false := by
    rw [Option.any_eq_false]
    intro c hc
    rcases List.mem_cons.1 (List.mem_of_getLast? hc) with rfl | hc
    · decide
    rcases List.mem_cons.1 hc with rfl | hc
    · decide
    · exact isBlank_of_isWord (isWord_of_isName hproperty c hc)
  have hmark : ∀ mark ∈ ['[', '>'], mark ∉ rest := by
    intro mark hmem
    have heither : mark = '[' ∨ mark = '>' := by simpa using hmem
    have hword : isWord mark = false :=
      isWord_of_mem_marks (by rcases heither with rfl | rfl <;> decide)
    have hother : mark ≠ '.' ∧ mark ≠ '@' := by rcases heither with rfl | rfl <;> decide
    simp [rest, hother, not_mem_of_isName hproperty hword]
  have hkind : kindOfTrimmed ('$' :: (name ++ rest)) = .captureProperty := by
    rw [kindOfTrimmed_name hname rest hapart (by simp [rest]) (hmark _ (by decide))
      (hmark _ (by decide)), if_pos (by simp [rest])]
  have hchain : propertyChain? rest.length rest = some [String.ofList property] := by
    obtain ⟨htake, hdrop⟩ := takeWhile_name hproperty [] rfl
    rw [List.append_nil] at htake hdrop
    change propertyChain? (property.length + 1 + 1) ('.' :: '@' :: property) = _
    rw [propertyChain?, htake, hdrop, isEmpty_name hproperty]
    rfl
  have hread : readCaptureProperty ('$' :: (name ++ rest)) =
      .ok (.captureProperty (String.ofList name) none [String.ofList property] none) := by
    have hsplit : ∀ c ∈ '$' :: (name ++ rest), isSplitMark c = false := by
      rw [← List.cons_append, List.forall_mem_append]
      refine ⟨isSplitMark_name hname, List.forall_mem_cons.2 ⟨by decide, ?_⟩⟩
      exact List.forall_mem_cons.2
        ⟨by decide, fun c hc => isSplitMark_of_isWord (isWord_of_isName hproperty c hc)⟩
    unfold readCaptureProperty
    rw [cutModifiers, split_of_plain hsplit, List.map_singleton, trim_name hname rest hlast]
    dsimp only
    rw [captureHead?_name hname rest hapart (by simp [rest])]
    dsimp only
    rw [hchain]
    rfl
  change parse ('$' :: (name ++ rest)) = _
  rw [parse_name hname rest hlast (hmark _ (by decide)), hkind, readAction, hread]
  rfl

end

/-! ## Spellings -/

/-- A text spells an action. -/
def Spells (text : String) (action : Action) : Prop := parse text.toList = .ok (.act text action)

section

variable {name : String} (hname : isName name.toList = true)
include hname

theorem spells_variable : Spells ("$" ++ name) (.variable name none) := by
  have hparse := parse_variable hname
  simpa [Spells, String.toList_append] using hparse

theorem spells_attribute (asked : CaptureAttribute) :
    Spells ("$" ++ (name ++ "." ++ asked.name)) (.captureAccess name none (some asked) none) := by
  have hparse := parse_attribute hname asked
  have htext : ("$" ++ (name ++ "." ++ asked.name)).toList =
      '$' :: (name.toList ++ '.' :: asked.name.toList) := by
    simp [String.toList_append]
  rw [Spells, htext, hparse, ← htext, String.ofList_toList, String.ofList_toList]

theorem spells_joined :
    Spells ("$" ++ name ++ "|\", \"") (.captureAccess name none none (some defaultSeparator)) := by
  have hparse := parse_joined hname
  have htext : ("$" ++ name ++ "|\", \"").toList = '$' :: (name.toList ++ "|\", \"".toList) := by
    rw [String.toList_append, String.toList_append]
    rfl
  rw [Spells, htext, hparse, ← htext, String.ofList_toList, String.ofList_toList]

theorem spells_property {property : String} (hproperty : isName property.toList = true) :
    Spells ("$" ++ (name ++ ".@" ++ property)) (.captureProperty name none [property] none) := by
  have hparse := parse_property hname hproperty
  have htext : ("$" ++ (name ++ ".@" ++ property)).toList =
      '$' :: (name.toList ++ '.' :: '@' :: property.toList) := by
    simp [String.toList_append]
  rw [Spells, htext, hparse, ← htext, String.ofList_toList, String.ofList_toList, String.ofList_toList]

/-- An attribute is a dotted name for expressions. -/
theorem dottedName_attribute (asked : CaptureAttribute) :
    Token.dottedName (name ++ "." ++ asked.name).toList = (name ++ "." ++ asked.name).toList := by
  have htext : (name ++ "." ++ asked.name).toList = name.toList ++ '.' :: asked.name.toList := by
    simp [String.toList_append]
  have hattribute : Token.dottedName ('.' :: asked.name.toList) = '.' :: asked.name.toList := by
    cases asked <;> decide +kernel
  rw [htext, Token.dottedName_append (isWord_of_isName hname), hattribute]

theorem parse_expression (asked : CaptureAttribute) :
    Expr.parse ("$" ++ (name ++ "." ++ asked.name)).toList =
      .ok (.variable (name ++ "." ++ asked.name) 0) := by
  have hparse := Expr.parse_variable (dottedName_attribute hname asked)
  have htext : ("$" ++ (name ++ "." ++ asked.name)).toList =
      '$' :: (name ++ "." ++ asked.name).toList := by
    simp [String.toList_append]
  rw [htext, hparse, String.ofList_toList]

theorem spells_calculation (asked : CaptureAttribute) :
    Spells ("math:$" ++ (name ++ "." ++ asked.name))
      (.math (.variable (name ++ "." ++ asked.name) 0)) := by
  have hparse := parse_calculation (dottedName_attribute hname asked)
  have htext : ("math:$" ++ (name ++ "." ++ asked.name)).toList =
      "math:".toList ++ '$' :: (name ++ "." ++ asked.name).toList := by
    simp [String.toList_append]
  rw [Spells, htext, hparse, ← htext, String.ofList_toList, String.ofList_toList]

end

end Directive

end RandomTables
