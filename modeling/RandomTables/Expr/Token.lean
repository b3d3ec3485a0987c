-- SUMMARY: Tokens of the expression language and the scanner that finds them.
import RandomTables.Error
import RandomTables.Text.Basic
import RandomTables.Text.Case
import RandomTables.Text.Letter

/-!
# Tokens

The scanner reads one lexeme after the other, passing over blanks. A lexeme knows how many
characters it covers, so a token covers the text from its position over its size. The list of tokens
ends with a token for the end of the text.
-/
namespace RandomTables

inductive TokenKind where
  | number | string | identifier | variable | placeholder
  | plus | minus | multiply | divide | modulo
  | equal | notEqual | less | lessEqual | greater | greaterEqual | contains | matching
  | and | or | not
  | comma | leftParen | rightParen
  | eof
  deriving DecidableEq, Repr

/-- The name of a kind of token. -/
def TokenKind.name : TokenKind → String
  | .number => "NUMBER"
  | .string => "STRING"
  | .identifier => "IDENTIFIER"
  | .variable => "VARIABLE"
  | .placeholder => "PLACEHOLDER"
  | .plus => "PLUS"
  | .minus => "MINUS"
  | .multiply => "MULTIPLY"
  | .divide => "DIVIDE"
  | .modulo => "MODULO"
  | .equal => "EQUAL"
  | .notEqual => "NOT_EQUAL"
  | .less => "LESS"
  | .lessEqual => "LESS_EQUAL"
  | .greater => "GREATER"
  | .greaterEqual => "GREATER_EQUAL"
  | .contains => "CONTAINS"
  | .matching => "MATCHES"
  | .and => "AND"
  | .or => "OR"
  | .not => "NOT"
  | .comma => "COMMA"
  | .leftParen => "LPAREN"
  | .rightParen => "RPAREN"
  | .eof => "EOF"

/-- A token: its kind, what it means, where it starts and how many characters it covers. -/
structure Token where
  kind : TokenKind
  value : List Char
  position : Nat
  size : Nat
  deriving DecidableEq, Repr

namespace Token

def text (t : Token) : String := String.ofList t.value

/-- A token at the start of a text: kind, value and number of characters. -/
structure Lexeme where
  kind : TokenKind
  value : List Char
  size : Nat
  deriving DecidableEq, Repr

/-- A lexeme that means the characters it covers. -/
def Lexeme.plain (kind : TokenKind) (value : List Char) : Lexeme := ⟨kind, value, value.length⟩

/-! ## Lexemes of each class -/

/-- The digits at the start of a text. -/
def digits (cs : List Char) : List Char := cs.takeWhile Text.isDigit

/-- Whether a text starts with a point and a digit. -/
def startsFraction : List Char → Bool
  | '.' :: c :: _ => Text.isDigit c
  | _ => false

/-- A numeral: digits, and a point with more digits after it. -/
def numeral (cs : List Char) : List Char :=
  let whole := digits cs
  let rest := cs.drop whole.length
  if startsFraction rest then whole ++ '.' :: digits (rest.drop 1) else whole

/-- A name made of words with points between them. The first word may be missing. -/
def dottedName : List Char → List Char
  | [] => []
  | c :: rest =>
    if Text.isWord c then c :: dottedName rest
    else if c == '.' then
      match rest with
      | d :: _ => if Text.isWord d then c :: dottedName rest else []
      | [] => []
    else []

/-- The value of a quoted text up to its closing quote, and the number of characters including that
quote. A backslash stands for the character after it. -/
def quoted (quote : Char) : List Char → Option (List Char × Nat)
  | [] => none
  | c :: rest =>
    if c == quote then some ([], 1)
    else if c == '\\' then
      match rest with
      | [] => none
      | d :: rest => (quoted quote rest).map fun (value, size) => (d :: value, size + 2)
    else (quoted quote rest).map fun (value, size) => (c :: value, size + 1)

/-- The kind of a word: an operator, in any letter case, or an identifier. -/
def wordKind (word : List Char) : TokenKind :=
  let lowered := Text.lower word
  if lowered = "contains".toList then .contains
  else if lowered = "matches".toList then .matching
  else .identifier

/-- An operator of two characters. -/
def operator2 : List Char → Option TokenKind
  | '=' :: '=' :: _ => some .equal
  | '!' :: '=' :: _ => some .notEqual
  | '<' :: '=' :: _ => some .lessEqual
  | '>' :: '=' :: _ => some .greaterEqual
  | '&' :: '&' :: _ => some .and
  | '|' :: '|' :: _ => some .or
  | _ => none

/-- An operator or punctuation mark of one character. -/
def operator1 : Char → Option TokenKind
  | '+' => some .plus
  | '-' => some .minus
  | '*' => some .multiply
  | '/' => some .divide
  | '%' => some .modulo
  | '=' => some .equal
  | '<' => some .less
  | '>' => some .greater
  | '!' => some .not
  | ',' => some .comma
  | '(' => some .leftParen
  | ')' => some .rightParen
  | _ => none

/-- The lexeme at the start of a text that begins with the given character, not a blank. -/
def lexeme (c : Char) (rest : List Char) : Except ParseCause Lexeme :=
  let cs := c :: rest
  if Text.isDigit c || startsFraction cs then .ok (.plain .number (numeral cs))
  else if c == '$' then
    let name := dottedName rest
    .ok ⟨.variable, name, name.length + 1⟩
  else if c == '@' then
    let name := dottedName rest
    if name.isEmpty then .error (.missingName c) else .ok ⟨.placeholder, name, name.length + 1⟩
  else if Text.isLetter c || c == '_' then
    let word := cs.takeWhile Text.isWord
    .ok (.plain (wordKind word) word)
  else if c == '"' || c == '\'' then
    match quoted c rest with
    | some (value, size) => .ok ⟨.string, value, size + 1⟩
    | none => .error .unterminatedString
  else
    match operator2 cs, operator1 c with
    | some kind, _ => .ok (.plain kind (cs.take 2))
    | none, some kind => .ok (.plain kind [c])
    | none, none => .error (.unexpectedCharacter c)

/-! ## Scanning -/

/-- A scanning error and the position where no token could be completed. -/
structure ScanError where
  cause : ParseCause
  position : Nat
  deriving DecidableEq, Repr

/-- The tokens of a text that begins at a position. As many characters as the second number says
belong to the token before it. -/
def scanFrom : List Char → Nat → Nat → Except ScanError (List Token)
  | [], position, _ => .ok [⟨.eof, [], position, 0⟩]
  | _ :: rest, position, skip + 1 => scanFrom rest (position + 1) skip
  | c :: rest, position, 0 =>
    if Text.isBlank c then scanFrom rest (position + 1) 0
    else
      match lexeme c rest with
      | .error cause => .error ⟨cause, position⟩
      | .ok l =>
        (scanFrom rest (position + 1) (l.size - 1)).map (⟨l.kind, l.value, position, l.size⟩ :: ·)

/-- The tokens of a text. -/
def scan (cs : List Char) : Except ScanError (List Token) := scanFrom cs 0 0

end Token

end RandomTables
