-- SUMMARY: Values, and the value of an expression in a scope that resolves its names.
import RandomTables.Error
import RandomTables.Expr.Parser
import RandomTables.Number.Arithmetic
import RandomTables.Number.Reading
import RandomTables.Number.Text
import RandomTables.Regex.Match
import RandomTables.Regex.Parser

/-!
# Evaluating expressions

The scope answers in any monad that can fail, since resolving a variable may roll tables. Operands
are evaluated from left to right; only `&&` and `||` leave one out. Texts are compared as they would
be rendered.
-/
namespace RandomTables

/-! ## Values

An expression has a number, a text or a truth value. Arithmetic reads texts as numbers and refuses
any that is none; an ordering comparison takes such a text for not-a-number, so that it is neither
less nor greater than anything. -/

inductive Value where
  | num (value : Float)
  | str (text : String)
  | bool (value : Bool)

namespace Value

/-- A value as rendered text. -/
def text : Value → String
  | .num x => Number.numberText x
  | .str s => s
  | .bool b => if b then "true" else "false"

/-- A value as a number, if it can be read as one. Any blanks may surround it. -/
def number? : Value → Option Float
  | .num x => some x
  | .str s => Number.readFloat (Text.trim s.toList)
  | .bool b => some (if b then 1 else 0)

/-- A value as an operand of arithmetic. -/
def number (v : Value) : Except Failure Float :=
  match v.number? with
  | some x => .ok x
  | none => .error (.parse (.nonNumeric v.text) "" none)

/-- A value as an operand of an ordering comparison. -/
def looseNumber (v : Value) : Float := v.number?.getD Number.nan

/-- Whether a value counts as true: blank text, zero and the word for false do not. -/
def truthy : Value → Bool
  | .num x => x != 0
  | .str s =>
    let s := Text.trim s.toList
    s ≠ [] ∧ s ≠ "0".toList ∧ s ≠ "false".toList
  | .bool b => b

end Value

end RandomTables

namespace RandomTables.Expr

/-! ## Scopes and operators -/

/-- Where an expression finds its variables, its placeholders and the subject of a switch. -/
structure Scope (m : Type → Type) where
  resolveVariable : String → m String
  resolvePlaceholder : String → Option String → m String
  subject : Option String

/-- A result in any monad that can fail. -/
def lift {m : Type → Type} [Monad m] [MonadExceptOf Failure m] {α : Type} :
    Except Failure α → m α
  | .ok a => pure a
  | .error f => throw f

/-- Whether a text matches a pattern anywhere, whatever the letter case. A malformed pattern matches
nothing. -/
def patternMatches (text pattern : String) : Except Failure Bool :=
  match Regex.parse pattern.toList with
  | .ok r => .ok (r.search true text.toList)
  | .error (.fault ..) => .ok false
  | .error (.breakdown f) => .error f

/-- A comparison of two values. -/
def compare (op : BinaryOp) (a b : Value) : Option (Except Failure Bool) :=
  match op with
  | .equal => some (.ok (a.text == b.text))
  | .notEqual => some (.ok (a.text != b.text))
  | .contains => some (.ok (Text.holds (Text.lower b.text.toList) (Text.lower a.text.toList)))
  | .matching => some (patternMatches a.text b.text)
  | .less => some (.ok (a.looseNumber < b.looseNumber))
  | .lessEqual => some (.ok (a.looseNumber ≤ b.looseNumber))
  | .greater => some (.ok (b.looseNumber < a.looseNumber))
  | .greaterEqual => some (.ok (b.looseNumber ≤ a.looseNumber))
  | _ => none

/-- The result of an arithmetic operator. A zero divisor is an error in the expression. -/
def arithmetic (source : String) (op : BinaryOp) (a b : Float) : Except Failure Float :=
  match op with
  | .add => .ok (a + b)
  | .subtract => .ok (a - b)
  | .multiply => .ok (a * b)
  | .divide =>
    if b == 0 then .error (.parse .divisionByZero source none) else .ok (a / b)
  | .modulo =>
    if b == 0 then .error (.parse .moduloByZero source none) else .ok (Number.remainder a b)
  | _ => .ok Number.nan

/-- The result of a binary operator that evaluates both operands. -/
def applyBinary (source : String) (op : BinaryOp) (a b : Value) : Except Failure Value :=
  match compare op a b with
  | some result => result.map .bool
  | none => do
    let x ← a.number
    let y ← b.number
    return .num (← arithmetic source op x y)

def applyUnary (op : UnaryOp) (v : Value) : Except Failure Value :=
  match op with
  | .not => .ok (.bool !v.truthy)
  | .negate => v.number.map fun x => .num (-x)
  | .plus => v.number.map .num

/-- The first of the least numbers. -/
def leastOf : Float → List Float → Float
  | x, [] => x
  | x, y :: rest => leastOf (if y < x then y else x) rest

/-- The first of the greatest numbers. -/
def greatestOf : Float → List Float → Float
  | x, [] => x
  | x, y :: rest => greatestOf (if x < y then y else x) rest

/-- The result of a function. Calls have as many arguments as the function takes. -/
def applyFunction (f : Function) (arguments : List Float) : Except Failure Float :=
  match f, arguments with
  | _, [] => .ok Number.nan
  | .floor, x :: _ => Number.floor x
  | .ceil, x :: _ => Number.ceil x
  | .abs, x :: _ => .ok x.abs
  | .min, x :: rest => .ok (leastOf x rest)
  | .max, x :: rest => .ok (greatestOf x rest)
  | .round, [x] => Number.roundTo x 0
  | .round, x :: places :: _ => do
    let places ← Number.truncateInt places
    Number.roundTo x places

section

variable {m : Type → Type} [Monad m] [MonadExceptOf Failure m]

mutual

/-- The value of an expression. -/
def eval (scope : Scope m) : Expr → m Value
  | .number value _ => pure (.num value)
  | .text value _ => pure (.str value)
  | .variable name _ =>
    if name.isEmpty then pure (.str (scope.subject.getD ""))
    else do return .str (← scope.resolveVariable name)
  | .placeholder name property _ => do return .str (← scope.resolvePlaceholder name property)
  | .unary op operand _ => do
    let v ← eval scope operand
    lift (applyUnary op v)
  | .binary .and left right => do
    let a ← eval scope left
    if a.truthy then return .bool (← eval scope right).truthy else return .bool false
  | .binary .or left right => do
    let a ← eval scope left
    if a.truthy then return .bool true else return .bool (← eval scope right).truthy
  | .binary op left right => do
    let a ← eval scope left
    let b ← eval scope right
    lift (applyBinary (render (.binary op left right)) op a b)
  | .call f arguments _ => do
    let values ← evalNumbers scope arguments
    return .num (← lift (applyFunction f values))

/-- The values of some expressions as numbers, each read before the next is evaluated. -/
def evalNumbers (scope : Scope m) : List Expr → m (List Float)
  | [] => pure []
  | e :: rest => do
    let v ← eval scope e
    let x ← lift v.number
    let xs ← evalNumbers scope rest
    return x :: xs

end

/-- Whether a condition written as text holds in a scope. -/
def holdsIn (scope : Scope m) (condition : String) : m Bool := do
  let e ← lift (parse condition.toList)
  return (← eval scope e).truthy

end

end RandomTables.Expr
