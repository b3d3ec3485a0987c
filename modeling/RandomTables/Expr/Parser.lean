-- SUMMARY: The parser of expressions: six levels of operators over unary ones and primaries.
import RandomTables.Expr.Basic
import RandomTables.Expr.Token
import RandomTables.Number.Reading

/-!
# Parsing expressions

    expression := level 6
    level n+1  := level n (operator of level n+1, level n)*
    level 0    := ('!' | '-' | '+') level 0 | primary
    primary    := number | string | variable | placeholder | word
                | word '(' (expression (',' expression)*)? ')' | '(' expression ')'

Every parser returns the tokens it leaves, which are fewer than it was given; that is why parsing
ends.
-/
namespace RandomTables.Expr

/-- A parsed value and the tokens after it, fewer than the ones given. -/
structure Parsed (α : Type) (given : List Token) where
  value : α
  rest : List Token
  shorter : rest.length < given.length

/-- A parsed value and the tokens after it, at most the ones given. -/
structure Passed (α : Type) (given : List Token) where
  value : α
  rest : List Token
  atMost : rest.length ≤ given.length

/-- The operator that a token stands for at a level; level 6 binds least. -/
def operatorAt : Nat → TokenKind → Option BinaryOp
  | 6, .or => some .or
  | 5, .and => some .and
  | 4, .equal => some .equal
  | 4, .notEqual => some .notEqual
  | 4, .contains => some .contains
  | 4, .matching => some .matching
  | 3, .less => some .less
  | 3, .lessEqual => some .lessEqual
  | 3, .greater => some .greater
  | 3, .greaterEqual => some .greaterEqual
  | 2, .plus => some .add
  | 2, .minus => some .subtract
  | 1, .multiply => some .multiply
  | 1, .divide => some .divide
  | 1, .modulo => some .modulo
  | _, _ => none

/-- The unary operator that a token stands for. -/
def unaryOf : TokenKind → Option UnaryOp
  | .not => some .not
  | .minus => some .negate
  | .plus => some .plus
  | _ => none

/-- Where the next token starts. -/
def here : List Token → Nat
  | [] => 0
  | t :: _ => t.position

/-- A parse error at the next token. -/
def failAt {α : Type} (source : String) (ts : List Token) (cause : ParseCause) :
    Except Failure α :=
  .error (.parse cause source (some (here ts)))

/-- The name and property of a placeholder written as one dotted name. -/
def placeholderOf (name : List Char) (position : Nat) : Expr :=
  let (head, property) := Text.cutAtChar '.' name
  .placeholder (String.ofList head)
    (if property.isEmpty then none else some (String.ofList property)) position

/-- The literal that a numeral stands for. A numeral may hold digits that have no value. -/
def numberOf (t : Token) : Except Failure Expr :=
  match Number.readFloat t.value with
  | some value => .ok (.number value t.position)
  | none => .error (.fault .invalidValue)

/-- A call, if the function exists and takes that many arguments. -/
def callOf (source : String) (name : Token) (arguments : List Expr) : Except Failure Expr :=
  match Function.ofName? name.value with
  | none => .error (.parse (.unknownFunction name.text) source (some name.position))
  | some f =>
    if f.takes arguments.length then .ok (.call f arguments name.position)
    else .error (.parse (.wrongArity f.name arguments.length) source (some name.position))

mutual

/-- Parses at a level; level 0 is that of the unary operators. -/
def parseLevel (source : String) (level : Nat) (ts : List Token) :
    Except Failure (Parsed Expr ts) :=
  match level with
  | 0 =>
    match ts with
    | [] => failAt source ts .expectedExpression
    | t :: rest =>
      match unaryOf t.kind with
      | some op => do
        let ⟨operand, rest', h⟩ ← parseLevel source 0 rest
        return ⟨.unary op operand t.position, rest', by simp; omega⟩
      | none => parseAtom source t rest
  | level + 1 => do
    let ⟨left, rest, h⟩ ← parseLevel source level ts
    let ⟨e, rest', h'⟩ ← parseChain source level left rest
    return ⟨e, rest', by omega⟩
  termination_by (ts.length, level + 2)

/-- Continues a chain of operators of the level above the given one. -/
def parseChain (source : String) (level : Nat) (left : Expr) (ts : List Token) :
    Except Failure (Passed Expr ts) :=
  match ts with
  | [] => .ok ⟨left, [], by simp⟩
  | t :: rest =>
    match operatorAt (level + 1) t.kind with
    | none => .ok ⟨left, t :: rest, by simp⟩
    | some op => do
      let ⟨right, rest', h⟩ ← parseLevel source level rest
      let ⟨e, rest'', h'⟩ ← parseChain source level (.binary op left right) rest'
      return ⟨e, rest'', by simp; omega⟩
  termination_by (ts.length, level + 2)

/-- Parses a primary that begins with the given token. -/
def parseAtom (source : String) (t : Token) (rest : List Token) :
    Except Failure (Parsed Expr (t :: rest)) :=
  let leaf (e : Expr) : Parsed Expr (t :: rest) := ⟨e, rest, by simp⟩
  match t.kind with
  | .number => (numberOf t).map leaf
  | .string => .ok (leaf (.text t.text t.position))
  | .variable => .ok (leaf (.variable t.text t.position))
  | .placeholder => .ok (leaf (placeholderOf t.value t.position))
  | .identifier =>
    match rest with
    | [] => .ok ⟨.text t.text t.position, [], by simp⟩
    | u :: rest' =>
      if u.kind = .leftParen then do
        let ⟨arguments, rest'', h⟩ ← parseArguments source rest'
        let e ← callOf source t arguments
        return ⟨e, rest'', by simp; omega⟩
      else .ok ⟨.text t.text t.position, u :: rest', by simp⟩
  | .leftParen => do
    let ⟨e, after, h⟩ ← parseLevel source 6 rest
    match after, h with
    | [], _ => failAt source [] .unclosedGroup
    | u :: after', h =>
      if u.kind = .rightParen then return ⟨e, after', by simp at h ⊢; omega⟩
      else failAt source (u :: after') .unclosedGroup
  | _ => failAt source (t :: rest) .expectedExpression
  termination_by (rest.length + 1, 1)

/-- Parses the arguments of a call after its opening parenthesis, up to the closing one. -/
def parseArguments (source : String) (ts : List Token) : Except Failure (Passed (List Expr) ts) :=
  match ts with
  | [] => failAt source ts .expectedExpression
  | t :: rest =>
    if t.kind = .rightParen then .ok ⟨[], rest, by simp⟩
    else do
      let ⟨e, after, h⟩ ← parseLevel source 6 (t :: rest)
      let ⟨es, after', h'⟩ ← parseMoreArguments source after
      return ⟨e :: es, after', by omega⟩
  termination_by (ts.length, 9)

/-- Parses the arguments after the first, each behind a comma, up to the closing parenthesis. -/
def parseMoreArguments (source : String) (ts : List Token) :
    Except Failure (Passed (List Expr) ts) :=
  match ts with
  | [] => failAt source ts .unclosedArguments
  | t :: rest =>
    if t.kind = .rightParen then .ok ⟨[], rest, by simp⟩
    else if t.kind = .comma then do
      let ⟨e, after, h⟩ ← parseLevel source 6 rest
      let ⟨es, after', h'⟩ ← parseMoreArguments source after
      return ⟨e :: es, after', by simp; omega⟩
    else failAt source ts .unclosedArguments
  termination_by (ts.length, 9)

end

/-- Parses all tokens of a text. The token that ends the text has to be the next one afterwards. -/
def ofTokens (source : String) (ts : List Token) : Except Failure Expr :=
  match ts with
  | [] => .error (.parse .emptyExpression source none)
  | t :: _ =>
    if t.kind = .eof then .error (.parse .emptyExpression source none)
    else do
      let ⟨e, rest, _⟩ ← parseLevel source 6 ts
      match rest with
      | [] => return e
      | u :: _ => if u.kind = .eof then return e else failAt source rest (.unexpectedToken u.text)

/-- The expression that a text writes. -/
def parse (cs : List Char) : Except Failure Expr :=
  match Token.scan cs with
  | .error e => .error (.parse e.cause (String.ofList cs) (some e.position))
  | .ok ts => ofTokens (String.ofList cs) ts

end RandomTables.Expr
