-- SUMMARY: The output of a directive, and what it leaves for repetitions that follow.
import RandomTables.Content
import RandomTables.Evaluation.Roll

/-!
# Evaluating directives

Every directive is one step of the trace, whose value is the directive's output. A pattern remembers
its latest roll or dice so that a later directive can repeat it; inside an entry with nothing to
repeat, the table of the entry is rolled again without the entry.
-/
namespace RandomTables

/-- What a repetition would repeat. -/
inductive Again where
  | nothing
  | ref (ref : String)
  | dice (spec : DiceFormula)

namespace Eval

/-- The output in place of a calculation that failed. -/
def mathError : String := "[math error]"

/-- The texts of some outcomes in a row. -/
def joinOutcomes (separator : String) (outcomes : List Outcome) : String :=
  String.intercalate separator (outcomes.map (·.text))

section

variable (env : Surroundings) (answer : Answer) (collectionId : String) (node : Option Nat)

/-- The number or truth value of a calculation. -/
def evalNumber (e : Expr) : Eval Value := do
  match ← e.eval (expressionScope env answer true none collectionId) with
  | .str s => return .num (← lift (Value.str s).number)
  | v => return v

/-- The output of a calculation. A malformed expression is shown in the output and ends nothing. -/
def renderMath (raw : String) (e : Expr) : Eval String := do
  annotate node [("expression", .str e.render)]
  tryCatch ((·.text) <$> evalNumber env answer collectionId e) fun f =>
    match f with
    | .error (.parse e) => do
      log .warning ("Math error in '" ++ raw ++ "': " ++ e.message)
      setError node e.message
      return mathError
    | f => throw f

/-- A roll of a reference without exclusions. -/
def rollReference (ref : String) : Eval Outcome := do
  let target ← liftResolution (env.registry.resolve ref collectionId)
  answer (.roll target [])

/-- The text of a named instance, which is rolled once. -/
def evalInstance (ref name : String) : Eval String := do
  match (← get).instances.get? name with
  | some text =>
    annotate node [("instance", .str name), ("cached", .bool true)]
    return text
  | none =>
    let outcome ← rollReference env answer collectionId ref
    modify fun c => { c with instances := c.instances.put name outcome.text }
    annotate node [("instance", .str name), ("cached", .bool false)]
    return outcome.text

def renderTable (ref : String) : Eval String := do
  let outcome ← rollReference env answer collectionId ref
  annotate node [("tableId", .str outcome.tableId), ("entryId", Json.ofOption outcome.entryId)]
  return outcome.text

def renderMultiRoll (count : Multiplicity) (ref : String) (unique : Bool) (separator : String) :
    Eval String := do
  let n ← evalCount env answer count collectionId
  let outcomes ← rollMany env answer ref n collectionId unique
  annotate node [("tableId", .str ref), ("count", .int n), ("countSource", .str count.source),
    ("unique", .bool unique), ("separator", .str separator)]
  return joinOutcomes separator outcomes

def renderUnique (count : Nat) (ref separator : String) : Eval String := do
  let outcomes ← rollMany env answer ref count collectionId true
  annotate node [("tableId", .str ref), ("requested", .int count),
    ("returned", .int outcomes.length)]
  return joinOutcomes separator outcomes

/-! ## Repetitions -/

/-- One level deeper for a repetition. -/
def repeating {α : Type} (body : Eval α) : Eval α :=
  descending env.config.maxRecursionDepth "again" body

/-- Rolls dice again. -/
def diceAgain (spec : DiceFormula) : Nat → List String → Eval (List String)
  | 0, done => return done.reverse
  | n + 1, done => do
    let result ← repeating env (castDice env spec)
    note { kind := .directive .dice, label := "Dice: " ++ spec.text, raw := spec.text
           value := .int result.total, metadata := result.fields }
    diceAgain spec n (toString result.total :: done)

/-- Rolls the table of an entry again without the excluded entries, until none is left. -/
def entryAgain (frame : Frame) (unique : Bool) :
    Nat → List String → List String → Eval (List String)
  | 0, _, done => return done.reverse
  | n + 1, excluded, done => do
    let target : Target := ⟨.table (.simple frame.table), frame.collectionId⟩
    match ← repeating env (unlessExhausted (answer (.roll target excluded))) with
    | none => return done.reverse
    | some o =>
      entryAgain frame unique n (if unique then keysOf o ++ excluded else excluded) (o.text :: done)

/-- The key of the entry that a frame rolls. -/
def Frame.keys (frame : Frame) : List String :=
  match frame.entryId with
  | some id => if id.isEmpty then [] else [id]
  | none => []

def renderAgain (memory : Again) (count : Nat) (unique : Bool) (separator : String) :
    Eval String := do
  match memory with
  | .dice spec =>
    let totals ← diceAgain env spec count []
    annotate node [("target", .str spec.text)]
    return String.intercalate separator totals
  | .ref ref =>
    let outcomes ← repeating env (rollMany env answer ref count collectionId unique)
    annotate node [("target", .str ref)]
    return joinOutcomes separator outcomes
  | .nothing =>
    match (← get).frames.head? with
    | none =>
      log .warning "\x7b\x7bagain\x7d\x7d used outside of a table roll"
      return ""
    | some frame =>
      annotate node [("target", .str frame.table.id), ("excluded", Json.ofOption frame.entryId)]
      let texts ← entryAgain env answer frame unique count (Frame.keys frame) []
      return String.intercalate separator texts

/-! ## Variables and captures -/

def renderVariable (name : String) (importAlias : Option String) : Eval String := do
  match importAlias with
  | some importAlias =>
    let text ← readImported env importAlias name collectionId
    annotate node [("name", .str name), ("alias", .str importAlias), ("source", .str "import")]
    return text
  | none =>
    let source ← sortOfVariable env name collectionId
    annotate node [("name", .str name), ("source", .str source)]
    readVariable env answer name collectionId

/-- The items that an index chooses: all of them without one. -/
def chosenItems (items : Captured) (index : Option Int) (name : String) : Eval Captured := do
  match index with
  | none => return items
  | some index => return (← nthItem items index name).toList

def renderCaptureAccess (name : String) (index : Option Int) (asked : Option CaptureAttribute)
    (separator : Option String) : Eval String := do
  let items ← readItems env answer name collectionId
  annotate node [("name", .str name), ("count", .int items.length)]
  if asked = some .count then return toString items.length
  else
    let chosen ← chosenItems items index name
    return joinItems (separator.getD defaultSeparator) chosen

def renderCaptureProperty (name : String) (index : Option Int) (properties : List String)
    (separator : Option String) : Eval String := do
  let items ← readItems env answer name collectionId
  let chosen ← chosenItems items index name
  let texts := (chosen.map fun i => i.textAt properties).filter fun text => !text.isEmpty
  annotate node [("name", .str name), ("properties", Json.ofList properties)]
  return String.intercalate (separator.getD defaultSeparator) texts

def renderPlaceholder (name : String) (property : Option String) : Eval String := do
  let text ← readPlaceholder env answer name property
  annotate node [("name", .str name), ("property", Json.ofOption property)]
  return text

def renderCapture (count : Multiplicity) (ref target : String) (unique silent : Bool)
    (separator : String) : Eval String := do
  let n ← evalCount env answer count collectionId
  let outcomes ← rollMany env answer ref n collectionId unique
  modify (Context.capture target (outcomes.map Outcome.item))
  annotate node [("variable", .str target), ("tableId", .str ref),
    ("count", .int outcomes.length), ("silent", .bool silent)]
  return if silent then "" else joinOutcomes separator outcomes

def renderCollect (name property : String) (fromSets unique : Bool) (separator : String) :
    Eval String := do
  let items ← readItems env answer name collectionId
  let all := (items.map fun i => i.collected property fromSets).filter fun text => !text.isEmpty
  let texts := if unique then all.eraseDups else all
  annotate node [("variable", .str name), ("property", .str property), ("unique", .bool unique),
    ("count", .int texts.length)]
  return String.intercalate separator texts

/-! ## All directives -/

/-- What a repetition would repeat after an action. -/
def remembered (memory : Again) : Action → Again
  | .dice spec => .dice spec
  | .table ref none => .ref ref
  | .multiRoll _ ref _ _ => .ref ref
  | .unique _ ref _ => .ref ref
  | .capture _ ref _ _ _ _ => .ref ref
  | _ => memory

/-- The output of an action. -/
def renderAction (memory : Again) (raw : String) : Action → Eval String
  | .dice spec => do
    let result ← castDice env spec
    annotate node result.fields
    return toString result.total
  | .math e => renderMath env answer collectionId node raw e
  | .table ref (some name) => evalInstance env answer collectionId node ref name
  | .table ref none => renderTable env answer collectionId node ref
  | .multiRoll count ref unique separator =>
    renderMultiRoll env answer collectionId node count ref unique separator
  | .unique count ref separator => renderUnique env answer collectionId node count ref separator
  | .again count unique separator =>
    renderAgain env answer collectionId node memory count unique separator
  | .variable name importAlias => renderVariable env answer collectionId node name importAlias
  | .captureAccess name index asked separator =>
    renderCaptureAccess env answer collectionId node name index asked separator
  | .captureProperty name index properties separator =>
    renderCaptureProperty env answer collectionId node name index properties separator
  | .placeholder name property => renderPlaceholder env answer node name property
  | .capture count ref target unique silent separator =>
    renderCapture env answer collectionId node count ref target unique silent separator
  | .collect name property fromSets unique separator =>
    renderCollect env answer collectionId node name property fromSets unique separator

end

section

variable (env : Surroundings) (answer : Answer) (collectionId : String)

/-- The step of a directive. -/
def stepOf (d : Directive) : TraceStep where
  kind := .directive d.kind
  label := d.raw
  raw := d.raw
  parsed := [("kind", .str d.kind.name)]

/-- Evaluates a directive inside its step. -/
def performing (d : Directive) (body : Option Nat → Eval (String × Again)) :
    Eval (String × Again) := do
  log .debug ("Evaluating " ++ d.kind.name ++ " directive '" ++ d.raw ++ "'")
  traced (stepOf d) fun node => do
    let (output, memory) ← body node
    setValue node (.str output)
    return (output, memory)

mutual

/-- The output of a directive and what a repetition would repeat after it. -/
def renderDirective (memory : Again) : Directive → Eval (String × Again)
  | .act raw action =>
    performing (.act raw action) fun node => do
      let output ← renderAction env answer collectionId node memory raw action
      return (output, remembered memory action)
  | .switch raw none branches otherwise =>
    performing (.switch raw none branches otherwise) fun node =>
      renderBranches none node memory 0 branches (renderOtherwise node memory otherwise)
  | .switch raw (some subject) branches otherwise =>
    performing (.switch raw (some subject) branches otherwise) fun node => do
      let (text, memory) ← renderDirective memory subject
      renderBranches (some text) node memory 0 branches (renderOtherwise node memory otherwise)

/-- The output of the first branch whose condition holds. -/
def renderBranches (subject : Option String) (node : Option Nat) (memory : Again) (index : Nat)
    (branches : List Branch) (otherwise : Eval (String × Again)) : Eval (String × Again) :=
  match branches with
  | [] => otherwise
  | .mk condition result :: rest => do
    let v ← condition.eval (expressionScope env answer false subject collectionId)
    if v.truthy then
      annotate node [("matched", .int index), ("condition", .str condition.render)]
      renderResult memory result
    else renderBranches subject node memory (index + 1) rest otherwise

/-- The output when no condition holds. -/
def renderOtherwise (node : Option Nat) (memory : Again) :
    Option Consequence → Eval (String × Again)
  | some result => do
    annotate node [("matched", .str "else")]
    renderResult memory result
  | none => do
    annotate node [("matched", .null)]
    return ("", memory)

def renderResult (memory : Again) : Consequence → Eval (String × Again)
  | .literal text => return (text, memory)
  | .directive d => renderDirective memory d

end

end

end Eval

end RandomTables
