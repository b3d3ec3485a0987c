-- SUMMARY: The scopes of shared variables, and the store that reads and assigns variables in them.
import RandomTables.Content
import RandomTables.Error

/-!
# The store of shared variables

Scopes are listed from the innermost outwards. A variable is read in the innermost scope that
declares it, and evaluated when it is read for the first time; meanwhile only its own scope and
those around it are visible. `find` tells what reading a variable means, and a pending one is
evaluated between `Pending.store` and `Pending.resume`.
-/
namespace RandomTables

/-! ## Scopes of shared variables

The document, each rolled table and each expanded template may declare shared variables. The
position of a declaration decides which references are legal: while a variable is being evaluated,
it may only read variables of its scope that were declared before it. -/

/-- A shared variable. -/
structure Declaration where
  name : String
  pattern : String
  /-- How many variables of the scope were declared before. -/
  position : Nat
  /-- Whether the variable keeps the item of a roll instead of its text. -/
  keepsItem : Bool
  deriving DecidableEq, Repr

/-- The name under a key, and whether the key has the sign for keeping items. -/
def splitSign (key : String) : String × Bool :=
  match key.toList with
  | '$' :: name => (String.ofList name, true)
  | _ => (key, false)

/-- One level of shared variables. -/
structure SharedLevel where
  owner : String
  /-- The collection in which the patterns are evaluated. -/
  collectionId : String := ""
  declarations : List Declaration := []
  values : Assoc Content := []
  /-- The declarations under evaluation, the latest first. -/
  active : List Declaration := []

namespace SharedLevel

def declaration? (s : SharedLevel) (name : String) : Option Declaration :=
  s.declarations.find? fun d => d.name = name

def declares (s : SharedLevel) (name : String) : Bool := (s.declaration? name).isSome

/-- The declared names, in order. -/
def names (s : SharedLevel) : List String := s.declarations.map (·.name)

/-- Adds a declaration. A name can be declared once, with or without the sign. -/
def declare (s : SharedLevel) (key pattern : String) : Except DeclarationFailure SharedLevel :=
  let (name, keepsItem) := splitSign key
  if s.declares name then .error (.declaredTwice name s.owner)
  else
    let d : Declaration := ⟨name, pattern, s.declarations.length, keepsItem⟩
    .ok { s with declarations := s.declarations ++ [d] }

def declareAll (s : SharedLevel) : List (String × String) → Except DeclarationFailure SharedLevel
  | [] => .ok s
  | (key, pattern) :: rest => do
    let s ← s.declare key pattern
    s.declareAll rest

/-- Why a declaration cannot be read while another one is under evaluation. -/
def illegal? (s : SharedLevel) (d : Declaration) : Option DeclarationFailure :=
  match s.active with
  | [] => none
  | reader :: _ =>
    if reader.name = d.name then some (.selfReference d.name)
    else if reader.position < d.position then some (.forwardReference reader.name d.name)
    else none

end SharedLevel

/-! ## Visible scopes -/

structure SharedStore where
  /-- The names of the static variables, which no shared variable may take. -/
  statics : List String := []
  /-- The visible scopes, innermost first. -/
  scopes : List SharedLevel := []

/-- A variable whose evaluation has begun. -/
structure Pending where
  scope : SharedLevel
  declaration : Declaration
  /-- The scopes that are hidden meanwhile. -/
  hidden : List SharedLevel
  /-- The store during the evaluation. -/
  store : SharedStore

/-- What reading a variable means. -/
inductive Lookup where
  | undeclared
  | illegal (e : DeclarationFailure)
  | known (c : Content)
  | pending (p : Pending)

namespace SharedStore

def declares (s : SharedStore) (name : String) : Bool := s.scopes.any (·.declares name)

/-! ## Reading -/

/-- Looks a variable up, given the scopes inside the remaining ones. -/
def findIn (statics : List String) (hidden : List SharedLevel) (name : String) :
    List SharedLevel → Lookup
  | [] => .undeclared
  | scope :: outer =>
    match scope.declaration? name with
    | none => findIn statics (hidden ++ [scope]) name outer
    | some d =>
      match scope.illegal? d with
      | some e => .illegal e
      | none =>
        match scope.values.get? name with
        | some c => .known c
        | none => .pending ⟨scope, d, hidden,
            ⟨statics, { scope with active := d :: scope.active } :: outer⟩⟩

/-- What reading a variable means. The order of declarations counts even for known values. -/
def find (s : SharedStore) (name : String) : Lookup := findIn s.statics [] name s.scopes

/-- The innermost scope without its latest declaration under evaluation, and with its value if it
has one. -/
def settle (d : Declaration) (value : Option Content) : List SharedLevel → List SharedLevel
  | [] => []
  | scope :: outer =>
    { scope with
      active := scope.active.drop 1
      values := match value with
        | some c => scope.values.put d.name c
        | none => scope.values } :: outer

end SharedStore

/-- The store after an evaluation that ended in a value, or failed. -/
def Pending.resume (p : Pending) (value : Option Content) (s : SharedStore) : SharedStore :=
  { s with scopes := p.hidden ++ SharedStore.settle p.declaration value s.scopes }

namespace SharedStore

/-! ## Scopes -/

/-- The outermost scope. -/
def outermost (s : SharedStore) : Option SharedLevel := s.scopes.getLast?

/-- The first static variable among some names. -/
def staticAmong (s : SharedStore) (names : List String) : Option String :=
  names.find? fun name => s.statics.contains name

/-- Puts the scope of a document around all others. -/
def pushDocument (s : SharedStore) (declarations extra : Assoc String) (collectionId : String) :
    Except DeclarationFailure (SharedLevel × SharedStore) := do
  let scope ← SharedLevel.declareAll { owner := "document", collectionId } (declarations ++ extra)
  match s.staticAmong scope.names with
  | some name => throw (.shadowsStatic name)
  | none => return (scope, { s with scopes := s.scopes ++ [scope] })

/-- Why a table or template cannot declare a name. -/
def shadows? (s : SharedStore) (owner name : String) : Option DeclarationFailure :=
  if s.outermost.any (·.declares name) then some (.shadowsDocument name owner)
  else if s.statics.contains name then some (.shadowsStaticIn name owner)
  else none

/-- The declarations whose names no scope around has taken. -/
def unclaimed (s : SharedStore) (owner : String) :
    List (String × String) → Except DeclarationFailure (List (String × String))
  | [] => .ok []
  | (key, pattern) :: rest => do
    let name := (splitSign key).1
    match s.shadows? owner name with
    | some e => throw e
    | none =>
      let kept ← s.unclaimed owner rest
      return if s.declares name then kept else (key, pattern) :: kept

/-- Enters the scope of a table or template. Without declarations there is none. -/
def enter (s : SharedStore) (owner : String) (declarations : Assoc String)
    (collectionId : String) : Except DeclarationFailure (Option (SharedLevel × SharedStore)) :=
  if declarations.isEmpty then .ok none
  else do
    let kept ← s.unclaimed owner declarations
    let scope ← SharedLevel.declareAll { owner, collectionId } kept
    return some (scope, { s with scopes := scope :: s.scopes })

/-- Leaves the innermost scope. -/
def leave (s : SharedStore) : SharedStore := { s with scopes := s.scopes.drop 1 }

/-! ## Assigning -/

/-- A scope with a value under a name, which is declared if it is not yet. -/
def assignIn (scope : SharedLevel) (name : String) (c : Content) :
    Except DeclarationFailure SharedLevel := do
  let scope ← if scope.declares name then pure scope else scope.declare name ""
  return { scope with values := scope.values.put name c }

/-- Sets a value in the outermost scope without evaluating anything. -/
def assign (s : SharedStore) (name : String) (c : Content) :
    Except DeclarationFailure SharedStore := do
  let document := s.outermost.getD { owner := "document" }
  let scope ← assignIn document name c
  return { s with scopes := s.scopes.dropLast ++ [scope] }

/-- All values, those of inner scopes over those of outer ones. -/
def visibleValues (s : SharedStore) : Assoc Content :=
  s.scopes.reverse.foldl (fun values scope => values.putAll scope.values) []

end SharedStore

end RandomTables
