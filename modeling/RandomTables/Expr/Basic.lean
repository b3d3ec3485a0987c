-- SUMMARY: Expressions of the arithmetic and condition language, how they print and what they read.
import RandomTables.Number.Text
import RandomTables.Text.Case

/-!
# Expressions

Literals, references to variables and placeholders, unary and binary operators, and calls of six
functions. `render` writes an expression with a pair of parentheses around every operator, so the
text shows the tree.
-/
namespace RandomTables

inductive UnaryOp where
  | not | negate | plus
  deriving DecidableEq, Repr

def UnaryOp.symbol : UnaryOp → String
  | .not => "!"
  | .negate => "-"
  | .plus => "+"

inductive BinaryOp where
  | or | and
  | equal | notEqual | contains | matching
  | less | lessEqual | greater | greaterEqual
  | add | subtract
  | multiply | divide | modulo
  deriving DecidableEq, Repr

def BinaryOp.symbol : BinaryOp → String
  | .or => "||"
  | .and => "&&"
  | .equal => "=="
  | .notEqual => "!="
  | .contains => "contains"
  | .matching => "matches"
  | .less => "<"
  | .lessEqual => "<="
  | .greater => ">"
  | .greaterEqual => ">="
  | .add => "+"
  | .subtract => "-"
  | .multiply => "*"
  | .divide => "/"
  | .modulo => "%"

inductive Function where
  | floor | ceil | round | abs | min | max
  deriving DecidableEq, Repr

namespace Function

def name : Function → String
  | .floor => "floor"
  | .ceil => "ceil"
  | .round => "round"
  | .abs => "abs"
  | .min => "min"
  | .max => "max"

/-- The function with a name, in any letter case. -/
def ofName? (name : List Char) : Option Function :=
  let lowered := Text.lower name
  [floor, ceil, round, abs, min, max].find? fun f => f.name.toList = lowered

/-- Whether a function takes this many arguments. -/
def takes : Function → Nat → Bool
  | .round, n => n = 1 || n = 2
  | .min, n => 1 ≤ n
  | .max, n => 1 ≤ n
  | _, n => n = 1

end Function

/-- An expression. Leaves, unary operators and calls carry the position where they start. -/
inductive Expr where
  | number (value : Float) (position : Nat)
  | text (value : String) (position : Nat)
  /-- A variable; the empty name is the subject of a switch. -/
  | variable (name : String) (position : Nat)
  | placeholder (name : String) (property : Option String) (position : Nat)
  | unary (op : UnaryOp) (operand : Expr) (position : Nat)
  | binary (op : BinaryOp) (left right : Expr)
  | call (f : Function) (arguments : List Expr) (position : Nat)

namespace Expr

/-- Where an expression starts. -/
def position : Expr → Nat
  | .number _ p => p
  | .text _ p => p
  | .variable _ p => p
  | .placeholder _ _ p => p
  | .unary _ _ p => p
  | .binary _ left _ => left.position
  | .call _ _ p => p

/-- How a reference to a placeholder is written. -/
def placeholderText (name : String) (property : Option String) : String :=
  "@" ++ name ++ (match property with
    | some property => "." ++ property
    | none => "")

mutual

/-- The text of an expression with all its parentheses. -/
def render : Expr → String
  | .number value _ => Number.numberText value
  | .text value _ => "\"" ++ value ++ "\""
  | .variable name _ => "$" ++ name
  | .placeholder name property _ => placeholderText name property
  | .unary op operand _ => "(" ++ op.symbol ++ operand.render ++ ")"
  | .binary op left right => "(" ++ left.render ++ " " ++ op.symbol ++ " " ++ right.render ++ ")"
  | .call f arguments _ => f.name ++ "(" ++ String.intercalate ", " (renderAll arguments) ++ ")"

/-- The texts of some expressions. -/
def renderAll : List Expr → List String
  | [] => []
  | e :: rest => e.render :: renderAll rest

end

mutual

/-- The variables and placeholders that an expression reads, from left to right. -/
def references : Expr → List String
  | .number _ _ => []
  | .text _ _ => []
  | .variable name _ => ["$" ++ name]
  | .placeholder name property _ => [placeholderText name property]
  | .unary _ operand _ => operand.references
  | .binary _ left right => left.references ++ right.references
  | .call _ arguments _ => referencesAll arguments

def referencesAll : List Expr → List String
  | [] => []
  | e :: rest => e.references ++ referencesAll rest

end

end Expr

end RandomTables
