-- SUMMARY: The parser of directives, which reads the text between the braces of a span.
import RandomTables.Directive.Form
import RandomTables.Directive.Switch
import RandomTables.Expr.Parser

/-!
# Parsing directives

The kind of a directive follows from its text alone; each kind then has one form. Switches nest: the
subject and the results of branches are directives themselves, each shorter than the switch.
-/
namespace RandomTables.Directive

open Text

/-- A parse error that quotes a directive. -/
def fail {α : Type} (raw : List Char) (cause : ParseCause) : Except Failure α :=
  .error (.parse cause (String.ofList raw) none)

/-! ## Actions -/

def readDice (cs : List Char) : Except Failure Action :=
  let body := trim (cs.drop 5)
  if body.isEmpty then fail cs .missingDice else (DiceFormula.parse body).map .dice

def readMath (cs : List Char) : Except Failure Action :=
  (Expr.parse (trim (cs.drop 5))).map .math

def readTable (cs : List Char) : Except Failure Action :=
  let (ref, name) := cutAtChar '#' cs
  if isReference cs then .ok (.table (String.ofList cs) none)
  else if cs.contains '#' && isReference ref && !name.isEmpty && name.all isRefChar then
    .ok (.table (String.ofList ref) (some (String.ofList name)))
  else fail cs .invalidTable

def readMultiRoll (cs : List Char) : Except Failure Action := do
  let (base, modifiers) := cutModifiers cs
  match repeatedRoll? base with
  | none => fail cs .invalidMultiRoll
  | some (count, unique, ref) =>
    let (separator, _) ← readModifiers cs none modifiers
    let count ← countOf count
    return .multiRoll count (String.ofList ref) unique (separator.getD defaultSeparator)

def readUnique (cs : List Char) : Except Failure Action := do
  let (base, modifiers) := cutModifiers cs
  let (count, ref) := cutAtChar ':' (base.drop 7)
  if startsWith "unique:".toList base && isNumeral count && isReference ref then
    let (separator, _) ← readModifiers cs none modifiers
    let count ← Number.readDigits count
    return .unique count (String.ofList ref) (separator.getD defaultSeparator)
  else fail cs .invalidUnique

/-- The count and the mark of uniqueness of a repetition; a single one has no count. -/
def repetition? (cs : List Char) : Option (Option (List Char) × Bool) :=
  match splitAtChar '*' cs with
  | [word] => if word = "again".toList then some (none, false) else none
  | [count, word] =>
    if isNumeral count && word = "again".toList then some (some count, false) else none
  | [count, mark, word] =>
    if isNumeral count && mark = "unique".toList && word = "again".toList then
      some (some count, true)
    else none
  | _ => none

def readAgain (cs : List Char) : Except Failure Action := do
  let (base, modifiers) := cutModifiers cs
  match repetition? base with
  | none => fail cs .invalidAgain
  | some (count, unique) =>
    let (separator, _) ← readModifiers cs none modifiers
    let count ← match count with
      | none => pure 1
      | some digits => Number.readDigits digits
    return .again count unique (separator.getD defaultSeparator)

def readVariable (cs : List Char) : Except Failure Action :=
  match cs with
  | '$' :: rest =>
    match splitAtChar '.' rest with
    | [name] =>
      if isName name then .ok (.variable (String.ofList name) none) else fail cs .invalidVariable
    | [importAlias, name] =>
      if isName importAlias && isName name then
        .ok (.variable (String.ofList name) (some (String.ofList importAlias)))
      else fail cs .invalidVariable
    | _ => fail cs .invalidVariable
  | _ => fail cs .invalidVariable

def readCaptureAccess (cs : List Char) : Except Failure Action := do
  let (base, modifiers) := cutModifiers cs
  match captureHead? base with
  | none => fail cs .invalidCaptureAccess
  | some (name, index, rest) =>
    let asked ←
      (if rest.isEmpty then .ok none
      else if rest = ".count".toList then .ok (some CaptureAttribute.count)
      else if rest = ".value".toList then .ok (some CaptureAttribute.value)
      else fail cs (.unknownCaptureProperty (String.ofList rest)))
    let (separator, _) ← readModifiers cs none modifiers
    return .captureAccess (String.ofList name) (← indexOf index) asked separator

def readCaptureProperty (cs : List Char) : Except Failure Action := do
  let (base, modifiers) := cutModifiers cs
  match captureHead? base with
  | none => fail cs .invalidCaptureProperty
  | some (name, index, rest) =>
    match propertyChain? rest.length rest with
    | none => fail cs .expectedPropertyChain
    | some properties =>
      let (separator, _) ← readModifiers cs none modifiers
      return .captureProperty (String.ofList name) (← indexOf index) properties separator

def readPlaceholder (cs : List Char) : Except Failure Action :=
  match splitAtChar '.' (cs.drop 1) with
  | [name] =>
    if isName name then .ok (.placeholder (String.ofList name) none)
    else fail cs .invalidPlaceholder
  | [name, property] =>
    if isName name && isName property then
      .ok (.placeholder (String.ofList name) (some (String.ofList property)))
    else fail cs .invalidPlaceholder
  | _ => fail cs .invalidPlaceholder

def readCapture (cs : List Char) : Except Failure Action := do
  let (left, right) := (cutAt ['>', '>'] cs).getD (cs, [])
  let left := trim left
  let (target, modifiers) := cutModifiers (trim right)
  if !isVariableCount target then fail cs .invalidCaptureTarget
  let (separator, silent) ← readModifiers cs (some "silent") modifiers
  let (count, unique, ref) ←
    (match repeatedRoll? left with
    | some (count, unique, ref) => (countOf count).map fun count => (count, unique, ref)
    | none =>
      if isReference left then .ok (Multiplicity.literal 1, false, left)
      else fail cs .invalidCaptureSource)
  return .capture count (String.ofList ref) (String.ofList (target.drop 1)) unique silent
    (separator.getD defaultSeparator)

/-- The source of a collection, whether an at sign stands before the property, and the property. -/
def collected? (cs : List Char) : Option (List Char × Bool × List Char) :=
  match cs with
  | '$' :: rest =>
    let name := rest.takeWhile isWord
    match rest.dropWhile isWord with
    | '.' :: '@' :: property =>
      if !name.isEmpty && isName property then some (name, true, property) else none
    | '.' :: property =>
      if !name.isEmpty && isName property then some (name, false, property) else none
    | _ => none
  | _ => none

def readCollect (cs : List Char) : Except Failure Action := do
  let (base, modifiers) := cutModifiers (trim (cs.drop 8))
  match collected? base with
  | none => fail cs .invalidCollect
  | some (name, marked, property) =>
    let (separator, unique) ← readModifiers cs (some "unique") modifiers
    let property := String.ofList property
    if !marked && property ≠ "value" && property ≠ "description" then
      fail cs (.unknownCollectProperty property)
    return .collect (String.ofList name) property (marked && property ≠ "description") unique
      (separator.getD defaultSeparator)

/-- Parses an action of a kind. -/
def readAction (kind : Directive.Kind) (cs : List Char) : Except Failure Action :=
  match kind with
  | .dice => readDice cs
  | .math => readMath cs
  | .table => readTable cs
  | .multiRoll => readMultiRoll cs
  | .unique => readUnique cs
  | .again => readAgain cs
  | .variable => readVariable cs
  | .captureAccess => readCaptureAccess cs
  | .captureProperty => readCaptureProperty cs
  | .placeholder => readPlaceholder cs
  | .capture => readCapture cs
  | .collect => readCollect cs
  | .switch => fail cs .missingCondition

/-! ## Switches -/

/-- The condition and the result of a branch, as they are written. -/
def branchSides (body : List Char) : Option (List Char × List Char) :=
  match split ':' (some 1) body with
  | [condition, result] => some (condition, result)
  | _ => none

theorem length_branchSides {body condition result : List Char}
    (h : branchSides body = some (condition, result)) : result.length ≤ body.length := by
  unfold branchSides at h
  split at h
  · rename_i c r hs
    simp only [Option.some.injEq, Prod.mk.injEq] at h
    obtain ⟨rfl, rfl⟩ := h
    exact @length_le_of_mem_split ':' (some 1) _ _ (by simp [hs])
  · simp at h

/-- The text of a subject, given what stands before the first mark of a switch. -/
def subjectText (raw before : List Char) : Except Failure (Option (List Char)) :=
  if before.isEmpty then .ok none
  else if before.getLast? ≠ some '.' then fail raw .expectedDot
  else
    let subject := trim before.dropLast
    if subject.isEmpty then fail raw .emptySubject else .ok (some subject)

theorem length_subjectText {raw before subject : List Char}
    (h : subjectText raw before = .ok (some subject)) : subject.length ≤ before.length := by
  unfold subjectText at h
  split at h
  · simp at h
  · split at h
    · simp [fail] at h
    · simp only at h
      split at h
      · simp [fail] at h
      · simp only [Except.ok.injEq, Option.some.injEq] at h
        subst h
        exact Nat.le_trans (length_trim_le _) (by simp)

/-- A parser of the texts shorter than a given one. -/
abbrev ShorterParser (cs : List Char) :=
  (sub : List Char) → sub.length < cs.length → Except Failure Directive

/-- Parses the result of a branch: nothing, a quoted text or a directive. -/
def readResult (cs : List Char) (parse : ShorterParser cs) (body : List Char)
    (h : body.length < cs.length) : Except Failure Consequence :=
  if (trim body).isEmpty then .ok (.literal "")
  else if inQuotes body then .ok (.literal (String.ofList (unquoted body)))
  else (parse (trim body) (Nat.lt_of_le_of_lt (length_trim_le body) h)).map .directive

/-- Parses a branch: a condition, a colon and a result. -/
def readBranch (cs : List Char) (parse : ShorterParser cs) (body : List Char)
    (h : body.length < cs.length) : Except Failure Branch :=
  match hs : branchSides body with
  | none => fail cs .missingCondition
  | some (condition, result) => do
    let condition ← Expr.parse (trim condition)
    let result ← readResult cs parse result (Nat.lt_of_le_of_lt (length_branchSides hs) h)
    return .mk condition result

/-- Parses the parts of a switch in order: its branches and the result of its else. -/
def readParts (cs : List Char) (parse : ShorterParser cs) :
    (parts : List Switch.Part) → (∀ p ∈ parts, p.body.length < cs.length) →
      Except Failure (List Branch × Option Consequence)
  | [], _ => .ok ([], none)
  | .branch named body :: rest, h => do
    let branch ← readBranch cs parse body (h (.branch named body) (by simp))
    let (branches, otherwise) ← readParts cs parse rest fun p hp => h p (by simp [hp])
    return (branch :: branches, otherwise)
  | .otherwise body :: rest, h => do
    let result ← readResult cs parse body (h (.otherwise body) (by simp))
    let _ ← readParts cs parse rest fun p hp => h p (by simp [hp])
    return ([], some result)
  | .broken cause :: _, _ => fail cs cause

/-- Parses the form of a switch. -/
def readSwitch (cs : List Char) (parse : ShorterParser cs) (form : Switch.Form)
    (h : form.before.length < cs.length ∧ ∀ p ∈ form.parts, p.body.length < cs.length) :
    Except Failure Directive :=
  match hs : subjectText cs form.before with
  | .error e => .error e
  | .ok none => do
    let (branches, otherwise) ← readParts cs parse form.parts h.2
    return .switch (String.ofList cs) none branches otherwise
  | .ok (some subject) => do
    let subject ← parse subject (Nat.lt_of_le_of_lt (length_subjectText hs) h.1)
    let (branches, otherwise) ← readParts cs parse form.parts h.2
    return .switch (String.ofList cs) (some subject) branches otherwise

/-- The directive that a text without surrounding blanks writes. -/
def readTrimmed (cs : List Char) : Except Failure Directive :=
  if cs.isEmpty then .error (.parse .emptyDirective "" none)
  else
    match hf : Switch.form? cs with
    | some form =>
      readSwitch cs (fun sub _ => readTrimmed sub) form (Switch.length_form hf)
    | none => (readAction (kindOfTrimmed cs) cs).map (.act (String.ofList cs))
  termination_by cs.length

/-- The directive that a text writes. -/
def parse (cs : List Char) : Except Failure Directive := readTrimmed (trim cs)

end RandomTables.Directive
