-- SUMMARY: Rolling tables of every sort, expanding templates, and repeated rolls.
import RandomTables.Dice.Roll
import RandomTables.Directive.Parser
import RandomTables.Evaluation.Variables
import RandomTables.Pattern.Span
import RandomTables.Selection.Basic

/-!
# Rolling

A roll draws an entry, evaluates and publishes its sets, and then evaluates its value. Composite
tables pass the roll on to one of their sources. Every roll and every expansion of a template counts
as one level of depth.
-/
namespace RandomTables.Eval

/-- The only directive of a pattern that holds nothing else. -/
def onlyDirective (pattern : String) : Except Failure (Option Directive) :=
  match Span.find pattern.toList with
  | [span] =>
    if Text.trim pattern.toList = span.raw then (Directive.parse span.expression).map some
    else .ok none
  | _ => .ok none

/-- The table that a pattern consists of, if it is exactly one reference to a table. -/
def onlyTable (env : Surroundings) (pattern collectionId : String) : Eval (Option Target) := do
  match ← lift (onlyDirective pattern) with
  | some (.act _ (.table ref none)) =>
    match ← liftResolution (env.registry.find ref collectionId) with
    | some ⟨.table t, owner⟩ => return some ⟨.table t, owner⟩
    | _ => return none
  | _ => return none

section

variable (env : Surroundings) (answer : Answer)

/-! ## Entries -/

/-- The content of a set. A reference to a table alone keeps the whole item of its roll. -/
def renderSet (pattern collectionId : String) : Eval Content := do
  match ← onlyTable env pattern collectionId with
  | some target => return (← answer (.roll target [])).item.content
  | none => return .text (← answer (.pattern pattern collectionId))

/-- The contents of some sets. A set that is already being evaluated is empty. -/
def renderSets (collectionId tableId : String) : List (String × String) → Eval (Assoc Content)
  | [] => pure []
  | (key, pattern) :: rest => do
    let guard := collectionId ++ ":" ++ tableId ++ "." ++ key
    let content ←
      if !Text.holds Span.opening pattern.toList then pure (Content.text pattern)
      else if (← get).guards.contains guard then do
        log .warning ("Set '" ++ key ++ "' of table '" ++ tableId ++ "' references itself")
        pure (Content.text "")
      else guarding guard (renderSet env answer pattern collectionId)
    let more ← renderSets collectionId tableId rest
    return (key, content) :: more

/-- The description of a drawn entry, evaluated and recorded after its value. -/
def evalDescription (table : SimpleTable) (s : Selection) (text : String) :
    Eval (Option String) := do
  let pattern := s.entry.description.getD ""
  if pattern.isEmpty then return none
  else
    let description ← answer (.pattern pattern s.collectionId)
    modify (Context.describe (shownName table.name table.id) table.id text description)
    return some description

/-- The outcome of a drawn entry. -/
def outcomeOf (s : Selection) (table : SimpleTable) : Eval Outcome := do
  note { kind := .entrySelect, label := "Selected: " ++ s.entry.idText, raw := table.id
         value := Json.ofOption s.entry.value, metadata := s.fields }
  let (sets, text) ← withFrame ⟨table, s.collectionId, s.entry.id, s.entry.description⟩ do
    let sets ← renderSets env answer s.collectionId table.id
      (Assoc.putAll (table.defaultSets.getD []) s.entry.sets)
    if !sets.isEmpty then modify (Context.publish table.id sets)
    let text ← answer (.pattern (s.entry.value.getD "") s.collectionId)
    return (sets, text)
  if !sets.has "value" then modify (Context.publish table.id [("value", .text text)])
  let description ← evalDescription answer table s text
  return {
    text, tableId := table.id, collectionId := s.collectionId
    resultType := SimpleTable.firstText s.entry.resultType table.resultType
    assets := s.entry.assets, sets, entryId := s.entry.id, key := some s.key, description }

/-! ## Tables -/

def rollFromEntries (t : SimpleTable) (collectionId : String) (excluded : List String) :
    Eval Outcome := do
  let table ← resolving (env.registry.inherit env.base t collectionId)
  let s ← draw (table.draw collectionId excluded)
  outcomeOf env answer s table

/-- The share of a weight in a total. -/
def share (weight total : Weight) : Float :=
  if total.units = 0 then 0 else weight.toFloat / total.toFloat

/-- An outcome with a result type in place of a missing one. -/
def Outcome.typed (o : Outcome) (resultType : Option String) : Outcome :=
  { o with resultType := SimpleTable.firstText o.resultType resultType }

def rollFromSources (t : CompositeTable) (collectionId : String) (excluded : List String) :
    Eval Outcome := do
  let (source, weight, total) ← draw t.draw
  note { kind := .compositeSelect, label := "Source: " ++ source.tableId, raw := t.id
         value := .str source.tableId
         metadata := [("sourceTableId", .str source.tableId), ("weight", .float weight.toFloat),
          ("totalWeight", .float total.toFloat), ("probability", .float (share weight total))] }
  let target ← liftResolution (env.registry.resolve source.tableId collectionId)
  let outcome ← answer (.roll target excluded)
  return Outcome.typed outcome t.resultType

def rollFromMembers (t : CollectionTable) (collectionId : String) (excluded : List String) :
    Eval Outcome := do
  let members ← resolving (env.registry.members env.base t collectionId t.members)
  note { kind := .collectionMerge, label := "Merge: " ++ String.intercalate ", " t.members
         raw := t.id, value := .int members.length
         metadata := [("members", Json.ofList (members.map fun (m, _) => m.id)),
          ("poolSize", .int (Number.sumOf (fun (m, _) => m.entries.length) members))] }
  let s ← draw (drawPooled members t.id excluded)
  match members.find? fun (m, owner) => m.id = s.tableId && owner = s.collectionId with
  | some (table, _) =>
    let outcome ← outcomeOf env answer s table
    return Outcome.typed outcome t.resultType
  | none => throw (.selection (.noPooledEntries t.id))

def rollFrom (t : Table) (collectionId : String) (excluded : List String) : Eval Outcome :=
  match t with
  | .simple t => rollFromEntries env answer t collectionId excluded
  | .composite t => rollFromSources env answer t collectionId excluded
  | .collection t => rollFromMembers env answer t collectionId excluded

/-- One level of depth, one step of the trace and one scope around a roll. -/
def atLevel {α : Type} (id owner : String) (step : TraceStep) (shared : Option (Assoc String))
    (collectionId : String) (body : Option Nat → Eval α) : Eval α :=
  descending env.config.maxRecursionDepth id <|
    traced step fun node => inScope (owner ++ " '" ++ id ++ "'") shared collectionId (body node)

/-- Rolls a table or expands a template. -/
def roll (target : Target) (excluded : List String) : Eval Outcome :=
  let collectionId := target.collectionId
  match target.definition with
  | .table t =>
    let h := t.header
    let step : TraceStep := {
      kind := .tableRoll, label := "Roll: " ++ shownName h.name h.id, raw := h.id
      parsed := [("tableType", .str t.sort), ("collectionId", .str collectionId)] }
    atLevel env h.id "table" step h.shared collectionId fun node => do
      let outcome ← rollFrom env answer t collectionId excluded
      setValue node (.str outcome.text)
      annotate node [("entryId", Json.ofOption outcome.entryId),
        ("resultType", Json.ofOption outcome.resultType)]
      return outcome
  | .template t =>
    let step : TraceStep := {
      kind := .templateRef, label := "Template: " ++ shownName t.name t.id, raw := t.id
      parsed := [("collectionId", .str collectionId)] }
    atLevel env t.id "template" step t.shared collectionId fun node => do
      let text ← answer (.pattern t.pattern collectionId)
      setValue node (.str text)
      return { text, tableId := t.id, collectionId, resultType := t.resultType }

/-! ## Repeated rolls -/

/-- An outcome, or nothing if exclusions left nothing to draw. -/
def unlessExhausted (body : Eval Outcome) : Eval (Option Outcome) :=
  tryCatch (some <$> body) fun f =>
    match f with
    | .error (.selection e) => if e.isExhaustion then return none else throw f
    | f => throw f

/-- Some rolls of the same target, one after another. -/
def rollTimes (target : Target) : Nat → List Outcome → Eval (List Outcome)
  | 0, done => return done.reverse
  | n + 1, done => do
    let outcome ← answer (.roll target [])
    rollTimes target n (outcome :: done)

/-- The keys that exclude what was drawn. -/
def keysOf (o : Outcome) : List String :=
  match o.key with
  | some key => if key.isEmpty then [] else [key]
  | none => []

/-- Rolls without replacement, the latest first, until the count is reached or the policy ends the
draw. -/
def rollUnique (target : Target) (ref : String) (count : Nat) :
    Nat → List String → List Outcome → Eval (List Outcome)
  | 0, _, done => return done.reverse
  | n + 1, used, done => do
    let tooFew : Eval (List Outcome) :=
      throw (.selection (.tooFewUnique count ref done.length))
    match ← unlessExhausted (answer (.roll target used)) with
    | some o => rollUnique target ref count n (keysOf o ++ used) (o :: done)
    | none =>
      match env.config.uniqueOverflow with
      | .stop =>
        log .debug ("Unique draw from '" ++ ref ++ "' stopped at " ++ toString done.length ++ " of "
          ++ toString count)
        return done.reverse
      | .error => tooFew
      | .cycle =>
        -- everything may be drawn again
        if used.isEmpty then tooFew
        else
          match ← unlessExhausted (answer (.roll target [])) with
          | some o => rollUnique target ref count n (keysOf o) (o :: done)
          | none => tooFew

/-- Rolls a table or expands a template several times. Templates have no entries to be unique. -/
def rollMany (ref : String) (count : Nat) (collectionId : String) (unique : Bool) :
    Eval (List Outcome) := do
  let target ← liftResolution (env.registry.resolve ref collectionId)
  match target.definition, unique with
  | .table _, true => rollUnique env answer target ref count count [] []
  | _, _ => rollTimes answer target count []

/-- A roll of dice, which has to be one that can be written. -/
def castDice (spec : DiceFormula) : Eval DiceRoll := do
  let result ← draw (Draw.ofSource (spec.roll env.config.maxExplodingDice))
  lift result.checked

/-- How often a roll is repeated. -/
def evalCount (count : Multiplicity) (collectionId : String) : Eval Nat := do
  match count with
  | .literal n => return n
  | .dice spec =>
    let result ← castDice env spec
    note { kind := .directive .dice, label := "Count: " ++ spec.text, raw := spec.text
           value := .int result.total, metadata := result.fields }
    return result.total.toNat
  | .variable name =>
    let value ← readVariable env answer name collectionId
    let notANumber : Eval Nat := do
      log .warning ("Roll count '$" ++ name ++ "' is not a number: '" ++ value ++ "', using 1")
      return 1
    match Number.readFloat value.toList with
    | none => notANumber
    | some x =>
      match Number.truncateInt x with
      | .ok n => return n.toNat
      | .error (.fault .invalidValue) => notANumber
      | .error f => throw f

end

end RandomTables.Eval
