-- SUMMARY: What directives calculate and read, and how reading and calculating them can fail.
import RandomTables.Dice.Roll
import RandomTables.Directive.Parser
import RandomTables.Pattern.Span
import RandomTables.Proofs.Directive.Switching
import RandomTables.Proofs.Expr.Reading
import RandomTables.Selection.Weight

/-!
# Calculations and readings of directives

Beside the errors of the language, a directive that cannot be read has a numeral with too many
digits, be it in a count, an index, a dice formula or an expression. What a directive does when it
is evaluated is told by its calculations and by the names that its expressions read.
-/
namespace RandomTables

/-! ## Calculations

Beside reading names and rolling tables a directive evaluates expressions, rolls dice and reads
counts. Each of these can fail by itself, depending on what the dice show and on the texts that
variables give; `Fails` leaves both open. -/

inductive Calculation where
  | expression (e : Expr)
  | dice (spec : DiceFormula)
  /-- A count that a variable gives. -/
  | count

/-- The failures of a calculation, with a cap on exploding dice. A count that is not a number is
none of them, as it is taken for one. -/
def Calculation.Fails (cap : Nat) (f : Failure) : Calculation → Prop
  | .expression e => e.Fails f
  | .dice spec => ∃ source, (spec.roll cap source).1.checked = .error f
  | .count =>
    ∃ text x, Number.readFloat text = some x ∧ Number.truncateInt x = .error f ∧
      f ≠ .fault .invalidValue

def Multiplicity.calculations : Multiplicity → List Calculation
  | .literal _ => []
  | .variable _ => [.count]
  | .dice spec => [.dice spec]

def Action.calculations : Action → List Calculation
  | .dice spec => [.dice spec]
  | .math e => [.expression e]
  | .multiRoll count _ _ _ => count.calculations
  | .capture count _ _ _ _ _ => count.calculations
  | _ => []

mutual

/-- All calculations of a directive, also those of branches that are not taken. -/
def Directive.calculations : Directive → List Calculation
  | .act _ action => action.calculations
  | .switch _ none branches otherwise =>
    branchCalculations branches ++ elseCalculations otherwise
  | .switch _ (some subject) branches otherwise =>
    subject.calculations ++ (branchCalculations branches ++ elseCalculations otherwise)

def branchCalculations : List Branch → List Calculation
  | [] => []
  | .mk condition result :: rest =>
    .expression condition :: (result.calculations ++ branchCalculations rest)

def elseCalculations : Option Consequence → List Calculation
  | none => []
  | some result => result.calculations

def Consequence.calculations : Consequence → List Calculation
  | .literal _ => []
  | .directive d => d.calculations

end

/-! ## Texts -/

/-- The failures of a condition: it cannot be read, or it fails itself. -/
def ConditionFails (condition : String) (f : Failure) : Prop :=
  Expr.parse condition.toList = .error f ∨
    ∃ e, Expr.parse condition.toList = .ok e ∧ e.Fails f

/-- The failures of a pattern: a directive of it cannot be read, or a calculation of one fails. -/
def PatternFails (cap : Nat) (text : String) (f : Failure) : Prop :=
  ∃ span ∈ Span.find text.toList, Directive.parse span.expression = .error f ∨
    ∃ d, Directive.parse span.expression = .ok d ∧ ∃ k ∈ d.calculations, k.Fails cap f

/-! ## Dice and weights -/

theorem DiceRoll.ends_checked (r : DiceRoll) : Ends r.checked :=
  .ite .ok (.error trivial)

theorem Weight.ends_ofInt (n : Int) : Ends (ofInt n) := by
  rw [ofInt]
  split
  · exact .error trivial
  · exact .ok

/-! ## Directives -/

theorem Directive.ends_parse (cs : List Char) : Ends (parse cs) := by
  refine FailsOnly.mono (refusedFor_readTrimmed (Text.trim cs)) fun f hf => ?_
  rcases hf with ⟨e, rfl⟩ | ⟨⟨fault, rfl⟩, -⟩ <;> exact trivial

/-! ## Calculations -/

theorem Calculation.Fails.ofReading {cap : Nat} {f : Failure} {k : Calculation}
    (h : k.Fails cap f) : f.OfReading := by
  cases k with
  | expression e => exact Expr.Fails.ofReading h
  | dice spec =>
      obtain ⟨source, hfails⟩ := h
      exact (DiceRoll.ends_checked _).failure f hfails
  | count =>
      obtain ⟨text, x, -, hfails, -⟩ := h
      exact (Number.breaks_truncateInt x).ends.failure f hfails

/-! ## Readings

An expression is evaluated for its number by a calculation, or for its truth by a branch of a switch
or by a conditional. Both read names, and reading a shared variable or a description may evaluate
any pattern. A calculation catches parse errors as a whole. A condition catches resolution errors
around each of its variables. -/

/-- An expression with what it is evaluated for. -/
inductive Reading where
  | math (e : Expr)
  | condition (e : Expr)

/-- The failures that are caught around an expression, or around its variables. -/
def Reading.Catches : Reading → Failure → Prop
  | .math _, f => ∃ e, f = .error (.parse e)
  | .condition _, f => ∃ e, f = .error (.resolution e)

/-! ## Names -/

/-- The variable that a name in an expression means: the part in front of the first dot. -/
def Expr.rootOf (name : String) : String :=
  if name.toList.contains '.' then String.ofList (Text.cutAtChar '.' name.toList).1 else name

mutual

/-- All variables and placeholders of an expression are as stated. The variable without a name is the
subject of a switch, which is not read. -/
def Expr.Reads (known shown : String → Prop) : Expr → Prop
  | .number _ _ => True
  | .text _ _ => True
  | .variable name _ => name.isEmpty = false → known (rootOf name)
  | .placeholder name _ _ => shown name
  | .unary _ operand _ => operand.Reads known shown
  | .binary _ left right =>
    left.Reads known shown ∧ right.Reads known shown
  | .call _ arguments _ => Expr.AllRead known shown arguments

def Expr.AllRead (known shown : String → Prop) : List Expr → Prop
  | [] => True
  | e :: rest => e.Reads known shown ∧ AllRead known shown rest

end

mutual

theorem Expr.Reads.mono {known known' shown shown' : String → Prop}
    (hknown : ∀ name, known name → known' name)
    (hshown : ∀ name, shown name → shown' name) :
    ∀ e : Expr, e.Reads known shown → e.Reads known' shown'
  | .number _ _, _ => trivial
  | .text _ _, _ => trivial
  | .variable _ _, h => fun hname => hknown _ (h hname)
  | .placeholder _ _ _, h => hshown _ h
  | .unary _ operand _, h => Expr.Reads.mono hknown hshown operand h
  | .binary _ left right, h =>
    ⟨Expr.Reads.mono hknown hshown left h.1,
      Expr.Reads.mono hknown hshown right h.2⟩
  | .call _ arguments _, h => Expr.AllRead.mono hknown hshown arguments h

theorem Expr.AllRead.mono {known known' shown shown' : String → Prop}
    (hknown : ∀ name, known name → known' name)
    (hshown : ∀ name, shown name → shown' name) :
    ∀ es : List Expr, Expr.AllRead known shown es →
      Expr.AllRead known' shown' es
  | [], _ => trivial
  | e :: rest, h =>
    ⟨Expr.Reads.mono hknown hshown e h.1,
      Expr.AllRead.mono hknown hshown rest h.2⟩

end

mutual

/-- Any expression reads some variables and placeholders. -/
theorem Expr.reads_any : ∀ e : Expr, e.Reads (fun _ => True) fun _ => True
  | .number _ _ => trivial
  | .text _ _ => trivial
  | .variable _ _ => fun _ => trivial
  | .placeholder _ _ _ => trivial
  | .unary _ operand _ => Expr.reads_any operand
  | .binary _ left right => ⟨Expr.reads_any left, Expr.reads_any right⟩
  | .call _ arguments _ => Expr.allRead_any arguments

theorem Expr.allRead_any : ∀ es : List Expr, Expr.AllRead (fun _ => True) (fun _ => True) es
  | [] => trivial
  | e :: rest => ⟨Expr.reads_any e, Expr.allRead_any rest⟩

end

/-- What is caught in an expression can only come from these variables: it reads no others, and a
calculation reads no descriptions either. -/
def Reading.Within (known : String → Prop) : Reading → Prop
  | .math e => e.Reads known (· ≠ "self")
  | .condition e => e.Reads known fun _ => True

/-! ## Directives -/

def Action.readings : Action → List Reading
  | .math e => [.math e]
  | _ => []

mutual

/-- All expressions of a directive, also those of branches that are not taken. -/
def Directive.readings : Directive → List Reading
  | .act _ action => action.readings
  | .switch _ none branches otherwise => branchReadings branches ++ elseReadings otherwise
  | .switch _ (some subject) branches otherwise =>
    subject.readings ++ (branchReadings branches ++ elseReadings otherwise)

def branchReadings : List Branch → List Reading
  | [] => []
  | .mk condition result :: rest =>
    .condition condition :: (result.readings ++ branchReadings rest)

def elseReadings : Option Consequence → List Reading
  | none => []
  | some result => result.readings

def Consequence.readings : Consequence → List Reading
  | .literal _ => []
  | .directive d => d.readings

end

end RandomTables
