-- SUMMARY: Reading search patterns, with the position and message of the first fault.
import RandomTables.Number.Reading
import RandomTables.Regex.Basic

/-!
# Reading search patterns

Literals, a point for any character, sets of characters, anchors, groups, alternatives and
repetitions of every greed. A brace that opens no valid repetition stands for itself.
-/
namespace RandomTables.Regex

/-- What is wrong with a pattern. -/
inductive FaultCause where
  | unterminatedGroup
  | unbalancedParenthesis
  | unterminatedSet
  | nothingToRepeat
  | multipleRepeat
  | badRange (low high : String)
  | repeatOrder
  | badEscapeAtEnd
  | badEscape (text : String)
  | incompleteEscape (text : String)
  | octalTooLarge (text : String)
  | missingBrace
  | invalidGroupReference (number : Nat)
  | openGroup
  | unknownExtension (text : String)
  | unexpectedEnd
  deriving DecidableEq, Repr

def FaultCause.message : FaultCause → String
  | .unterminatedGroup => "missing ), unterminated subpattern"
  | .unbalancedParenthesis => "unbalanced parenthesis"
  | .unterminatedSet => "unterminated character set"
  | .nothingToRepeat => "nothing to repeat"
  | .multipleRepeat => "multiple repeat"
  | .badRange low high => "bad character range " ++ low ++ "-" ++ high
  | .repeatOrder => "min repeat greater than max repeat"
  | .badEscapeAtEnd => "bad escape (end of pattern)"
  | .badEscape text => "bad escape " ++ text
  | .incompleteEscape text => "incomplete escape " ++ text
  | .octalTooLarge text => "octal escape value " ++ text ++ " outside of range 0-0o377"
  | .missingBrace => "missing \x7b"
  | .openGroup => "cannot refer to an open group"
  | .invalidGroupReference number => "invalid group reference " ++ toString number
  | .unknownExtension text => "unknown extension ?" ++ text
  | .unexpectedEnd => "unexpected end of pattern"

/-- Why a pattern cannot be used: a fault at a position, or the bound of a repetition that breaks
the reading down. -/
inductive Refusal where
  | fault (cause : FaultCause) (position : Nat)
  | breakdown (f : Failure)
  deriving DecidableEq, Repr

/-- The message of a fault in a pattern. Line and column are added when the pattern has lines. -/
def faultMessage (pattern : List Char) (cause : FaultCause) (position : Nat) : String :=
  let place := cause.message ++ " at position " ++ toString position
  if pattern.contains '\n' then
    let before := pattern.take position
    place ++ " (line " ++ toString (before.count '\n' + 1) ++ ", column " ++
      toString ((before.reverse.takeWhile (· != '\n')).length + 1) ++ ")"
  else place

/-! ## Symbols -/

/-- A character of a pattern, or a character behind a backslash. -/
structure Symbol where
  position : Nat
  escaped : Bool
  char : Char
  deriving DecidableEq, Repr

def Symbol.text (s : Symbol) : String :=
  if s.escaped then String.ofList ['\\', s.char] else String.singleton s.char

/-- Whether a symbol is a plain character. -/
def Symbol.isPlain (s : Symbol) (c : Char) : Bool := !s.escaped && s.char == c

/-- The symbols of a pattern, and whether a lone backslash follows them. -/
def symbols : List Char → Nat → List Symbol × Bool
  | [], _ => ([], false)
  | ['\\'], _ => ([], true)
  | '\\' :: c :: rest, i =>
    let (more, cut) := symbols rest (i + 2)
    (⟨i, true, c⟩ :: more, cut)
  | c :: rest, i =>
    let (more, cut) := symbols rest (i + 1)
    (⟨i, false, c⟩ :: more, cut)

/-- The symbols still to read. `size` is the length of the pattern, `cut` says that a lone backslash
ends it. -/
structure Input where
  rest : List Symbol
  size : Nat
  cut : Bool
  /-- How many groups with a number have been opened. -/
  groups : Nat := 0
  /-- The numbers of the groups that are open, the innermost first. -/
  openGroups : List Nat := []

abbrev Reading (α : Type) := Except Refusal α

def refuse {α : Type} (cause : FaultCause) (position : Nat) : Reading α :=
  .error (.fault cause position)

namespace Input

/-- The position of the next symbol. -/
def position (input : Input) : Nat :=
  match input.rest with
  | s :: _ => s.position
  | [] => if input.cut then input.size - 1 else input.size

/-- Refuses an input whose next symbol is a lone backslash. -/
def checked (input : Input) : Reading Input :=
  if input.rest.isEmpty && input.cut then refuse .badEscapeAtEnd (input.size - 1) else .ok input

/-- Opens a group with a number. -/
def enterGroup (input : Input) : Input :=
  { input with groups := input.groups + 1, openGroups := (input.groups + 1) :: input.openGroups }

/-- Closes the innermost group with a number. -/
def leaveGroup (input : Input) : Input := { input with openGroups := input.openGroups.drop 1 }

/-- Takes the next symbol. A lone backslash after it is refused at once. -/
def next? (input : Input) : Reading (Option (Symbol × Input)) :=
  match input.rest with
  | [] => .ok none
  | s :: rest => do
    let input ← checked { input with rest := rest }
    return some (s, input)

/-- Takes the next symbol if it is the given plain character. -/
def take? (input : Input) (c : Char) : Reading (Option Input) :=
  match input.rest with
  | [] => .ok none
  | s :: rest =>
    if s.isPlain c then (checked { input with rest := rest }).map some else .ok none

end Input

/-- Takes at most `n` plain symbols that satisfy a test. -/
def takeWhileAtMost (p : Char → Bool) : Nat → Input → Reading (List Char × Input)
  | 0, input => .ok ([], input)
  | n + 1, input =>
    match input.rest with
    | [] => .ok ([], input)
    | s :: rest =>
      if !s.escaped && p s.char then do
        let input ← Input.checked { input with rest := rest }
        let (more, input) ← takeWhileAtMost p n input
        return (s.char :: more, input)
      else .ok ([], input)

/-! ## Escapes -/

def isOctalDigit (c : Char) : Bool := '0' ≤ c && c ≤ '7'

def isHexDigit (c : Char) : Bool := c.isDigit || ('a' ≤ c && c ≤ 'f') || ('A' ≤ c && c ≤ 'F')

/-- The number that digits of a base up to sixteen write. -/
def digitsValue (base : Nat) (digits : List Char) : Nat :=
  digits.foldl (fun n c =>
    base * n + (if c.isDigit then c.toNat - 48 else c.toLower.toNat - 87)) 0

/-- The control characters that have a letter. -/
def controlEscape : Char → Option Char
  | 'a' => some (Char.ofNat 7)
  | 'f' => some (Char.ofNat 12)
  | 'n' => some '\n'
  | 'r' => some '\r'
  | 't' => some '\t'
  | 'v' => some (Char.ofNat 11)
  | '\\' => some '\\'
  | _ => none

def categoryEscape : Char → Option SetItem
  | 'd' => some (.category .digit false)
  | 'D' => some (.category .digit true)
  | 's' => some (.category .space false)
  | 'S' => some (.category .space true)
  | 'w' => some (.category .word false)
  | 'W' => some (.category .word true)
  | _ => none

def anchorEscape : Char → Option Anchor
  | 'A' => some .textStart
  | 'Z' => some .textEnd
  | 'b' => some (.wordBoundary false)
  | 'B' => some (.wordBoundary true)
  | _ => none

/-- The character that a number of digits give after the letter of an escape. -/
def hexEscape (s : Symbol) (width : Nat) (input : Input) : Reading (Char × Input) := do
  let (digits, after) ← takeWhileAtMost isHexDigit width input
  let code := digitsValue 16 digits
  if digits.length ≠ width then
    refuse (.incompleteEscape (s.text ++ String.ofList digits)) s.position
  else if 0x110000 ≤ code then refuse (.badEscape (s.text ++ String.ofList digits)) s.position
  else return (Text.charOf code, after)

/-- The character that an octal number gives, which has to fit into a byte. -/
def octalChar (s : Symbol) (digits : List Char) (after : Input) : Reading (Char × Input) :=
  let code := digitsValue 8 digits
  if code < 0x100 then .ok (Char.ofNat code, after)
  else refuse (.octalTooLarge ("\\" ++ String.ofList digits)) s.position

/-- A character given by its number, or an escaped character that stands for itself: any but ASCII
letters. -/
def plainEscape (s : Symbol) (input : Input) : Reading (Char × Input) :=
  if s.char = 'x' then hexEscape s 2 input
  else if s.char = 'u' then hexEscape s 4 input
  else if s.char = 'U' then hexEscape s 8 input
  else if s.char = 'N' && (input.rest.head?.map (·.isPlain '\x7b')) != some true then
    refuse .missingBrace input.position
  else if s.char.isAlpha || s.char.isDigit then refuse (.badEscape s.text) s.position
  else .ok (s.char, input)

/-- An escape outside a set that begins with a digit other than zero: three octal digits give a
character. One or two digits refer to a group, and no group can be referred to. -/
def digitEscape (s : Symbol) (input : Input) : Reading (Char × Input) := do
  let (second, after) ← takeWhileAtMost Char.isDigit 1 input
  let digits := s.char :: second
  let (third, last) ← takeWhileAtMost isOctalDigit 1 after
  if digits.length = 2 && digits.all isOctalDigit && !third.isEmpty then
    octalChar s (digits ++ third) last
  else
    let number := digitsValue 10 digits
    if input.openGroups.contains number then refuse .openGroup s.position
    else refuse (.invalidGroupReference number) (s.position + 1)

/-- The pattern of an escape outside a set. -/
def escapePattern (s : Symbol) (input : Input) : Reading (Regex × Input) :=
  match categoryEscape s.char, anchorEscape s.char, controlEscape s.char with
  | some item, _, _ => .ok (.set false [item], input)
  | _, some a, _ => .ok (.anchor a, input)
  | _, _, some c => .ok (char c, input)
  | _, _, _ => do
    let (c, after) ←
      if s.char = '0' then do
        let (digits, after) ← takeWhileAtMost isOctalDigit 2 input
        octalChar s (s.char :: digits) after
      else if s.char.isDigit then digitEscape s input
      else plainEscape s input
    return (char c, after)

/-- The item of an escape inside a set. -/
def escapeItem (s : Symbol) (input : Input) : Reading (SetItem × Input) :=
  match controlEscape s.char, categoryEscape s.char with
  | some c, _ => .ok (.char c, input)
  | _, some item => .ok (item, input)
  | _, _ => do
    let (c, after) ←
      if s.char = 'b' then pure (Char.ofNat 8, input)
      else if isOctalDigit s.char then do
        let (digits, after) ← takeWhileAtMost isOctalDigit 2 input
        octalChar s (s.char :: digits) after
      else plainEscape s input
    return (.char c, after)

/-! ## Sets of characters -/

/-- One end of a range, or a single item, at the given symbol. -/
def setItem (s : Symbol) (input : Input) : Reading (SetItem × Input) :=
  if s.escaped then escapeItem s input else .ok (.char s.char, input)

/-- The range between two items of a set that were written as two symbols, up to a position. -/
def rangeItem (s t : Symbol) (low high : SetItem) (stop : Nat) : Reading SetItem :=
  let bad : Reading SetItem :=
    refuse (.badRange s.text t.text) (stop - (s.text.length + 1 + t.text.length))
  match low, high with
  | .char a, .char b =>
    if Text.codeOf b < Text.codeOf a then bad else .ok (.range (Text.codeOf a) (Text.codeOf b))
  | _, _ => bad

/-- The items of a set up to its closing bracket. The set opened at `start`. -/
def setItems (start : Nat) : Nat → List SetItem → Input → Reading (List SetItem × Input)
  | 0, _, _ => refuse .unterminatedSet start
  | fuel + 1, items, input => do
    match ← input.next? with
    | none => refuse .unterminatedSet start
    | some (s, input) =>
      if s.isPlain ']' && !items.isEmpty then return (items.reverse, input)
      let (low, input) ← setItem s input
      match ← input.take? '-' with
      | none => setItems start fuel (low :: items) input
      | some input =>
        match ← input.next? with
        | none => refuse .unterminatedSet start
        | some (t, input) =>
          if t.isPlain ']' then
            return ((.char '-' :: low :: items).reverse, input)
          let (high, input) ← setItem t input
          setItems start fuel ((← rangeItem s t low high input.position) :: items) input

/-! ## Repetitions -/

/-- As many repetitions as this are beyond all bounds. -/
def maxRepeat : Nat := 4294967295

/-- The bound that some digits write. -/
def boundValue (digits : List Char) : Reading Nat :=
  match Number.readDigits digits with
  | .ok n => if maxRepeat ≤ n then .error (.breakdown (.fault .overflow)) else .ok n
  | .error f => .error (.breakdown f)

/-- The bounds in braces, after the opening one; none when the brace stands for itself. The pattern
position after the brace is `start`. -/
def bounds (start : Nat) (input : Input) : Reading (Option (Nat × Option Nat × Input)) := do
  if (input.rest.head?.map (·.isPlain '\x7d')) == some true then return none
  let (low, afterLow) ← takeWhileAtMost Char.isDigit input.rest.length input
  let (high, afterHigh) ← (do
    match ← afterLow.take? ',' with
    | some afterComma => takeWhileAtMost Char.isDigit afterComma.rest.length afterComma
    | none => return (low, afterLow))
  match ← afterHigh.take? '\x7d' with
  | none => return none
  | some after =>
    let least ← boundValue low
    if high.isEmpty then return some (least, none, after)
    let most ← boundValue high
    if most < least then refuse .repeatOrder start
    return some (least, some most, after)

/-- Wraps the last part of a sequence, given in reverse, in a repetition. The repetition began at a
position. -/
def wrapLast (position : Nat) (least : Nat) (most : Option Nat) (parts : List Regex)
    (input : Input) : Reading (List Regex × Input) :=
  match parts with
  | [] => refuse .nothingToRepeat position
  | .anchor _ :: _ => refuse .nothingToRepeat position
  | .repeated .. :: _ => refuse .multipleRepeat position
  | body :: before => do
    match ← input.take? '?' with
    | some after => return (.repeated least most .least body :: before, after)
    | none =>
      match ← input.take? '+' with
      | some after => return (.repeated least most .all body :: before, after)
      | none => return (.repeated least most .most body :: before, input)

/-! ## Alternatives -/

/-- Whether two parts are the same character, set or anchor. -/
def sameUnit : Regex → Regex → Bool
  | .any, .any => true
  | .set n a, .set m b => n == m && a == b
  | .anchor a, .anchor b => a == b
  | _, _ => false

/-- The characters, sets and anchors with which an option and all others begin. -/
def commonStart : List Regex → List (List Regex) → List Regex
  | [], _ => []
  | part :: rest, others =>
    if others.all (fun other => other.head?.any (sameUnit part)) then
      part :: commonStart rest (others.map (·.drop 1))
    else []

/-- The items of all options, if each is one character or set. -/
def itemsOfAll : List (List Regex) → Option (List SetItem)
  | [] => some []
  | [.set false items] :: rest => (itemsOfAll rest).map (items ++ ·)
  | _ => none

/-- The parts of some options. A common start is taken out, and what is left becomes one set if
every option is a character or a set. -/
def choiceOf (first : List Regex) (others : List (List Regex)) : List Regex :=
  let start := commonStart first others
  let options := (first :: others).map (·.drop start.length)
  match itemsOfAll options with
  | some items => start ++ [.set false items.eraseDups]
  | none => start ++ [.choice (options.map .sequence)]

/-- Parts in which the sequences, which stand for groups without a number, are taken apart. -/
def flattened (parts : List Regex) : List Regex :=
  parts.flatMap fun part =>
    match part with
    | .sequence inner => inner
    | part => [part]

/-! ## Groups -/

mutual

/-- Alternatives up to a closing parenthesis or the end. -/
def alternatives : Nat → Input → Reading (List Regex × Input)
  | 0, input => refuse .unexpectedEnd input.position
  | fuel + 1, input => do
    let (first, input) ← parts fuel [] input
    let (others, input) ← furtherOptions fuel input
    return (if others.isEmpty then first else choiceOf first others, input)

/-- The options behind the first one. -/
def furtherOptions : Nat → Input → Reading (List (List Regex) × Input)
  | 0, input => refuse .unexpectedEnd input.position
  | fuel + 1, input => do
    match ← input.take? '|' with
    | none => return ([], input)
    | some input =>
      let (option, input) ← parts fuel [] input
      let (others, input) ← furtherOptions fuel input
      return (option :: others, input)

/-- The parts of a sequence, after the given ones in reverse. -/
def parts : Nat → List Regex → Input → Reading (List Regex × Input)
  | 0, _, input => refuse .unexpectedEnd input.position
  | fuel + 1, done, input => do
    match input.rest with
    | [] => return (flattened done.reverse, input)
    | s :: _ =>
      if s.isPlain '|' || s.isPlain ')' then return (flattened done.reverse, input)
      match ← input.next? with
      | none => return (flattened done.reverse, input)
      | some (s, input) =>
        if s.escaped then
          let (part, input) ← escapePattern s input
          parts fuel (part :: done) input
        else if s.char = '[' then
          let negated ← input.take? '^'
          let (items, input) ← setItems s.position (input.size + 1) [] (negated.getD input)
          parts fuel (.set negated.isSome items.eraseDups :: done) input
        else if s.char = '*' then
          let (done, input) ← wrapLast s.position 0 none done input
          parts fuel done input
        else if s.char = '+' then
          let (done, input) ← wrapLast s.position 1 none done input
          parts fuel done input
        else if s.char = '?' then
          let (done, input) ← wrapLast s.position 0 (some 1) done input
          parts fuel done input
        else if s.char = '\x7b' then
          match ← bounds (s.position + 1) input with
          | none => parts fuel (char s.char :: done) input
          | some (least, most, input) =>
            let (done, input) ← wrapLast s.position least most done input
            parts fuel done input
        else if s.char = '.' then parts fuel (.any :: done) input
        else if s.char = '^' then parts fuel (.anchor .textStart :: done) input
        else if s.char = '$' then parts fuel (.anchor .lastLineEnd :: done) input
        else if s.char = '(' then
          let (part, input) ← readGroup fuel s.position input
          parts fuel (part :: done) input
        else parts fuel (char s.char :: done) input

/-- The group that opened at a position. A group without a number is the sequence of its parts. -/
def readGroup : Nat → Nat → Input → Reading (Regex × Input)
  | 0, _, input => refuse .unexpectedEnd input.position
  | fuel + 1, start, input => do
    let (numbered, input) ← (do
      match ← input.take? '?' with
      | none => return (true, input.enterGroup)
      | some input =>
        match ← input.next? with
        | none => refuse .unexpectedEnd input.position
        | some (s, input) =>
          if s.isPlain ':' then return (false, input)
          else refuse (.unknownExtension s.text) (s.position - 1))
    let (body, input) ← alternatives fuel input
    match ← input.take? ')' with
    | none => refuse .unterminatedGroup start
    | some input =>
      if numbered then return (.group (.sequence body), input.leaveGroup)
      else return (.sequence body, input)

end

/-- The pattern that a text writes. -/
def parse (pattern : List Char) : Reading Regex := do
  let (rest, cut) := symbols pattern 0
  let input ← Input.checked { rest, size := pattern.length, cut }
  let (parts, input) ← alternatives (3 * pattern.length + 3) input
  match input.rest with
  | [] => return .sequence parts
  | s :: _ => refuse .unbalancedParenthesis s.position

end RandomTables.Regex
