-- SUMMARY: Reading variables, captures and placeholders, by directives and in expressions.
import RandomTables.Evaluation.Monad
import RandomTables.Expr.Eval

/-!
# Reading variables

A name is looked up among the captures, then among the shared variables, then among the static
variables of the collection at hand, and last among those of the collection that the evaluation is
for. Reading a shared variable may evaluate it.
-/
namespace RandomTables.Eval

/-- The texts of some items in a row. -/
def joinItems (separator : String) (items : Captured) : String :=
  String.intercalate separator (items.map (·.value))

section

variable (env : Surroundings) (answer : Answer)

/-- The value of a shared variable, if a visible scope declares it. -/
def readShared (name : String) : Eval (Option Content) := do
  match (← get).shared.find name with
  | .undeclared => return none
  | .illegal e => throw (.declaration e)
  | .known c => return some c
  | .pending p =>
    let value ← settling p (answer (.shared p.scope.owner p.scope.collectionId p.declaration))
    return some value

/-- A static variable, as a collection sees it. -/
def staticText? (name collectionId : String) : Option String :=
  ((env.registry.get? collectionId).bind fun c => c.document.statics.get? name).or
    (env.statics.get? name)

/-- The text of a variable. -/
def readVariable (name collectionId : String) : Eval String := do
  match (← get).captures.get? name with
  | some items => return joinItems defaultSeparator items
  | none =>
    match ← readShared answer name with
    | some c => return c.value
    | none =>
      match staticText? env name collectionId with
      | some text => return text
      | none => throw (.resolution (.unknownVariable name))

/-- A static variable of an imported collection. -/
def readImported (importAlias name collectionId : String) : Eval String := do
  match ← liftResolution (env.registry.aliasedStatic importAlias name collectionId) with
  | some text => return text
  | none => throw (.resolution (.unknownVariable (importAlias ++ "." ++ name)))

/-- The items of a capture; a shared or static variable is read as one item. -/
def readItems (name collectionId : String) : Eval Captured := do
  match (← get).captures.get? name with
  | some items => return items
  | none =>
    match ← readShared answer name with
    | some c => return [c.toItem]
    | none =>
      match staticText? env name collectionId with
      | some text => return [{ value := text }]
      | none => throw (.resolution (.unknownCapture name))

/-- Where a variable would be read from. -/
def sortOfVariable (name collectionId : String) : Eval String := do
  let c ← get
  if c.captures.has name then return "capture"
  else if c.shared.declares name then return "shared"
  else if (staticText? env name collectionId).isSome then return "static"
  else return "undefined"

/-- The item at an index, counted from the end if it is negative. -/
def nthItem (items : Captured) (index : Int) (name : String) : Eval (Option Item) := do
  let place := if index < 0 then index + items.length else index
  match if place < 0 then none else items[place.toNat]? with
  | some item => return some item
  | none =>
    log .warning ("Capture index " ++ toString index ++ " out of range for '$" ++ name ++ "' ("
      ++ toString items.length ++ " items)")
    return none

/-- The text that the placeholder of the entry being rolled stands for: its description. -/
def readSelf (property : Option String) : Eval String := do
  match (← get).frames.head? with
  | none => return ""
  | some frame =>
    let description := frame.description.getD ""
    if property = some "description" ∧ ¬ description.isEmpty then
      descending env.config.maxRecursionDepth "@self.description"
        (answer (.pattern description frame.collectionId))
    else return ""

/-- The text of a placeholder, empty if nothing was published for it. -/
def readPlaceholder (name : String) (property : Option String) : Eval String := do
  if name = "self" then readSelf env answer property
  else
    match (← get).placeholder? name property with
    | some text => return text
    | none =>
      let shown := Expr.placeholderText name (property.filter fun p => !p.isEmpty)
      log .warning ("Placeholder '" ++ shown ++ "' is not set")
      return ""

/-! ## In expressions -/

/-- The text of a variable in an expression, whose name may have an attribute or begin with an
alias. -/
def readDotted (name collectionId : String) : Eval String := do
  if name.toList.contains '.' then
    let (head, rest) := Text.cutAtChar '.' name.toList
    let head := String.ofList head
    let rest := String.ofList rest
    let c ← get
    if (rest = CaptureAttribute.count.name ∨ rest = CaptureAttribute.value.name) ∧
        (c.captures.has head || c.shared.declares head) then
      let items ← readItems env answer head collectionId
      if rest = CaptureAttribute.count.name then return toString items.length
      else return joinItems defaultSeparator items
    else readImported env head rest collectionId
  else readVariable env answer name collectionId

/-- A text, or nothing in place of a name that leads nowhere. -/
def orEmpty (body : Eval String) : Eval String :=
  tryCatch body fun f =>
    match f with
    | .error (.resolution _) => return ""
    | f => throw f

/-- The scope of an expression. In a strict one every name has to lead somewhere. -/
def expressionScope (strict : Bool) (subject : Option String) (collectionId : String) :
    Expr.Scope Eval where
  resolveVariable name :=
    if strict then readDotted env answer name collectionId
    else orEmpty (readDotted env answer name collectionId)
  resolvePlaceholder name property := readPlaceholder env answer name property
  subject := subject

end

end RandomTables.Eval
