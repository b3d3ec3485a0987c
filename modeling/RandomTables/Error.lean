-- SUMMARY: The ways in which reading, resolving and rolling can fail, and the message of each.
import RandomTables.Text.Printable

/-!
# Failures

`RollError` is an answer: every evaluation that goes wrong in a way its author can mend ends in one,
and its kind and message belong to the result. A `Fault` is a breakdown of arithmetic below the
language (an infinite count, a numeral of superscripts); no rule of the language catches it.
-/
namespace RandomTables

/-! ## Malformed text -/

/-- What is wrong with a text that does not parse or an expression that has no value. -/
inductive ParseCause where
  -- tokens
  | unexpectedCharacter (c : Char)
  | missingName (sigil : Char)
  | unterminatedString
  -- expressions
  | emptyExpression
  | unexpectedToken (text : String)
  | unclosedGroup
  | unclosedArguments
  | expectedExpression
  | unknownFunction (name : String)
  | wrongArity (name : String) (count : Nat)
  | nonNumeric (operand : String)
  | divisionByZero
  | moduloByZero
  -- dice
  | invalidDice
  | noDice
  | noSides
  | nothingKept
  -- directives
  | emptyDirective
  | unknownModifier (modifier : String)
  | missingDice
  | invalidTable
  | invalidMultiRoll
  | invalidUnique
  | invalidAgain
  | invalidVariable
  | invalidCaptureAccess
  | unknownCaptureProperty (text : String)
  | invalidCaptureProperty
  | expectedPropertyChain
  | invalidPlaceholder
  | invalidCaptureTarget
  | invalidCaptureSource
  | invalidCollect
  | unknownCollectProperty (name : String)
  -- switches
  | expectedDot
  | emptySubject
  | unbalancedElse
  | textAfterElse
  | expectedBracket
  | unbalancedBracket
  | missingCondition
  deriving DecidableEq, Repr

def ParseCause.message : ParseCause → String
  | .unexpectedCharacter c => "Unexpected character: '" ++ String.singleton c ++ "'"
  | .missingName sigil => "Expected a name after '" ++ String.singleton sigil ++ "'"
  | .unterminatedString => "Unterminated string"
  | .emptyExpression => "Empty expression"
  | .unexpectedToken text => "Unexpected token '" ++ text ++ "'"
  | .unclosedGroup => "Expected ')' after expression"
  | .unclosedArguments => "Expected ')' after function arguments"
  | .expectedExpression => "Expected expression"
  | .unknownFunction name => "Unknown function: " ++ name
  | .wrongArity name count => name ++ "() called with " ++ toString count ++ " argument(s)"
  | .nonNumeric operand => "Non-numeric operand '" ++ operand ++ "'"
  | .divisionByZero => "Division by zero"
  | .moduloByZero => "Modulo by zero"
  | .invalidDice => "Invalid dice notation"
  | .noDice => "Dice count must be at least 1"
  | .noSides => "Dice must have at least one side"
  | .nothingKept => "Keep count must be at least 1"
  | .emptyDirective => "Empty directive"
  | .unknownModifier modifier => "Unknown modifier '" ++ modifier ++ "'"
  | .missingDice => "Missing dice notation"
  | .invalidTable => "Invalid table reference"
  | .invalidMultiRoll => "Invalid multi-roll"
  | .invalidUnique => "Invalid unique directive, expected unique:N:tableId"
  | .invalidAgain => "Invalid again directive"
  | .invalidVariable => "Invalid variable reference"
  | .invalidCaptureAccess => "Invalid capture access"
  | .unknownCaptureProperty text => "Unknown capture property '" ++ text ++ "'"
  | .invalidCaptureProperty => "Invalid capture property access"
  | .expectedPropertyChain => "Expected .@property chain"
  | .invalidPlaceholder => "Invalid placeholder"
  | .invalidCaptureTarget => "Capture target must be a $variable"
  | .invalidCaptureSource => "Invalid capture source"
  | .invalidCollect => "Invalid collect, expected collect:$var.@property"
  | .unknownCollectProperty name => "Unknown collect property '" ++ name ++ "'"
  | .expectedDot => "Expected '.' before switch"
  | .emptySubject => "Empty switch subject"
  | .unbalancedElse => "Unbalanced '[' in else"
  | .textAfterElse => "Unexpected text after else"
  | .expectedBracket => "Expected '[' in switch"
  | .unbalancedBracket => "Unbalanced '[' in switch"
  | .missingCondition => "Switch branch needs 'condition:result'"

/-- A parse error: its cause, the text it was found in, and the position in that text if known. -/
structure ParseFailure where
  cause : ParseCause
  /-- The text that the message quotes; nothing is quoted when it is empty. -/
  source : String := ""
  position : Option Nat := none
  deriving DecidableEq, Repr

def ParseFailure.message (e : ParseFailure) : String :=
  if e.source.isEmpty then e.cause.message else e.cause.message ++ " in '" ++ e.source ++ "'"

/-! ## The other kinds -/

/-- A name that leads nowhere, or to something of the wrong sort. -/
inductive ResolutionFailure where
  | unknownCollection (id : String)
  | unknownReference (ref collection : String)
  | unknownParent (parent table : String)
  | parentNotSimple (parent type : String)
  | memberNotSimple (table member : String)
  | unknownVariable (name : String)
  | unknownCapture (name : String)
  | notATable (ref : String)
  | notATemplate (ref : String)
  deriving DecidableEq, Repr

def ResolutionFailure.message : ResolutionFailure → String
  | .unknownCollection id => "Collection not found: '" ++ id ++ "'"
  | .unknownReference ref collection =>
    "Table or template not found: '" ++ ref ++ "' (in collection '" ++ collection ++ "')"
  | .unknownParent parent table =>
    "Parent table not found: '" ++ parent ++ "' for table '" ++ table ++ "'"
  | .parentNotSimple parent type =>
    "Cannot extend non-simple table: '" ++ parent ++ "' (type: " ++ type ++ ")"
  | .memberNotSimple table member =>
    "Collection table '" ++ table ++ "' member '" ++ member ++ "' is not a simple table"
  | .unknownVariable name => "Unknown variable '$" ++ name ++ "'"
  | .unknownCapture name => "Unknown capture variable '$" ++ name ++ "'"
  | .notATable ref => "'" ++ ref ++ "' is a template, not a table"
  | .notATemplate ref => "'" ++ ref ++ "' is a table, not a template"

/-- Which nesting went too deep. -/
inductive DepthLimit where
  | recursion
  | inheritance
  deriving DecidableEq, Repr

def DepthLimit.name : DepthLimit → String
  | .recursion => "Recursion depth"
  | .inheritance => "Inheritance depth"

/-- A limit that was passed, with what was open at that moment, outermost first. -/
structure DepthFailure where
  what : DepthLimit
  limit : Nat
  chain : List String
  deriving DecidableEq, Repr

def DepthFailure.message (e : DepthFailure) : String :=
  let path := if e.chain.isEmpty then "<root>" else String.intercalate " -> " e.chain
  e.what.name ++ " limit exceeded (max: " ++ toString e.limit ++ "): " ++ path

/-- A draw that has nothing to draw from. -/
inductive SelectionFailure where
  | zeroWeight
  | noEntries (table : String)
  | noPooledEntries (table : String)
  | noSources (table : String)
  | noPositiveWeight (table : String)
  | noRange (roll : Int) (table : String)
  /-- Every entry of a table is excluded. -/
  | exhausted (table : String)
  /-- Every entry of a pool is excluded. -/
  | poolExhausted (table : String)
  | tooFewUnique (requested : Nat) (ref : String) (available : Nat)
  deriving DecidableEq, Repr

def SelectionFailure.message : SelectionFailure → String
  | .zeroWeight => "Cannot select from a pool with zero total weight"
  | .noEntries table => "Table '" ++ table ++ "' has no entries"
  | .noPooledEntries table => "Collection table '" ++ table ++ "' has no entries"
  | .noSources table => "Composite table '" ++ table ++ "' has no sources"
  | .noPositiveWeight table => "Table '" ++ table ++ "' has no entries with positive weight"
  | .noRange roll table =>
    "Roll " ++ toString roll ++ " matches no range in table '" ++ table ++ "'"
  | .exhausted table => "All entries of table '" ++ table ++ "' are used"
  | .poolExhausted table => "All entries of collection table '" ++ table ++ "' are used"
  | .tooFewUnique requested ref available =>
    "Requested " ++ toString requested ++ " unique entries from '" ++ ref ++ "' but only " ++
      toString available ++ " are available"

/-- Whether exclusions are what left nothing to draw. -/
def SelectionFailure.isExhaustion : SelectionFailure → Bool
  | .exhausted _ => true
  | .poolExhausted _ => true
  | _ => false

/-- A shared variable declared or read against the order of declarations. -/
inductive DeclarationFailure where
  | declaredTwice (name owner : String)
  | shadowsStatic (name : String)
  | shadowsStaticIn (name owner : String)
  | shadowsDocument (name owner : String)
  | selfReference (name : String)
  | forwardReference (reader name : String)
  deriving DecidableEq, Repr

def DeclarationFailure.message : DeclarationFailure → String
  | .declaredTwice name owner =>
    "Shared variable '" ++ name ++ "' is declared twice in " ++ owner
  | .shadowsStatic name => "Shared variable '" ++ name ++ "' shadows a static variable"
  | .shadowsStaticIn name owner =>
    "Shared variable '" ++ name ++ "' in " ++ owner ++ " shadows a static variable"
  | .shadowsDocument name owner =>
    "Shared variable '" ++ name ++ "' in " ++ owner ++ " shadows a document-level shared variable"
  | .selfReference name => "Shared variable '" ++ name ++ "' references itself"
  | .forwardReference reader name =>
    "Shared variable '" ++ reader ++ "' references '" ++ name ++ "' before it is declared"

/-- A document that cannot be read or loaded, with the issues found in it. -/
inductive DocumentFailure where
  | invalidJson (message : String) (line column : Nat)
  | invalidUtf8 (position : Nat) (reason : String)
  | notAnObject
  | schema (issues : List String)
  | integrity (issues : List String)
  | namespaceTaken (name owner : String)
  deriving DecidableEq, Repr

def DocumentFailure.message : DocumentFailure → String
  | .invalidJson message _ _ => "Invalid JSON: " ++ message
  | .invalidUtf8 _ _ => "Invalid UTF-8 input"
  | .notAnObject => "Collection document must be a JSON object"
  | .schema issues =>
    "Document does not match the collection schema (" ++ toString issues.length ++ " issue(s))"
  | .integrity issues => "Document is invalid (" ++ toString issues.length ++ " error(s))"
  | .namespaceTaken name owner =>
    "Namespace '" ++ name ++ "' is already used by collection '" ++ owner ++ "'"

def DocumentFailure.issues : DocumentFailure → List String
  | .invalidJson message line column =>
    ["line " ++ toString line ++ ", column " ++ toString column ++ ": " ++ message]
  | .invalidUtf8 position reason => ["byte " ++ toString position ++ ": " ++ reason]
  | .notAnObject => []
  | .schema issues => issues
  | .integrity issues => issues
  | .namespaceTaken name _ => ["metadata.namespace: duplicate '" ++ name ++ "'"]

/-! ## All failures -/

/-- An error of the language, by kind. -/
inductive RollError where
  | parse (e : ParseFailure)
  | resolution (e : ResolutionFailure)
  | depth (e : DepthFailure)
  | selection (e : SelectionFailure)
  | declaration (e : DeclarationFailure)
  | document (e : DocumentFailure)
  deriving DecidableEq, Repr

def RollError.message : RollError → String
  | .parse e => e.message
  | .resolution e => e.message
  | .depth e => e.message
  | .selection e => e.message
  | .declaration e => e.message
  | .document e => e.message

/-- The name of an error's kind. -/
def RollError.kind : RollError → String
  | .parse _ => "parse"
  | .resolution _ => "resolution"
  | .depth _ => "depth_exceeded"
  | .selection _ => "selection"
  | .declaration _ => "declaration"
  | .document _ => "document"

/-- A breakdown of arithmetic. -/
inductive Fault where
  /-- A number too large for the operation. -/
  | overflow
  /-- Text or a number that has no value of the required sort. -/
  | invalidValue
  | zeroDivision
  deriving DecidableEq, Repr

/-- Why an evaluation stopped. -/
inductive Failure where
  | error (e : RollError)
  | fault (f : Fault)
  /-- The bound on nested evaluations was reached. -/
  | outOfFuel
  deriving DecidableEq, Repr

namespace Failure

def parse (cause : ParseCause) (source : String) (position : Option Nat) : Failure :=
  .error (.parse ⟨cause, source, position⟩)

def resolution (e : ResolutionFailure) : Failure := .error (.resolution e)

def selection (e : SelectionFailure) : Failure := .error (.selection e)

def declaration (e : DeclarationFailure) : Failure := .error (.declaration e)

def document (e : DocumentFailure) : Failure := .error (.document e)

end Failure

end RandomTables
