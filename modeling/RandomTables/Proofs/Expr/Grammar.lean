-- SUMMARY: The grammar of expressions: derivations with tokens and trees, at most one for a text.
import RandomTables.Expr.Parser

/-!
# The grammar of expressions

    expression     := logical_or
    logical_or     := logical_and ('||' logical_and)*
    logical_and    := equality ('&&' equality)*
    equality       := comparison (('==' | '!=' | 'contains' | 'matches') comparison)*
    comparison     := addition (('<' | '<=' | '>' | '>=') addition)*
    addition       := multiplication (('+' | '-') multiplication)*
    multiplication := unary (('*' | '/' | '%') unary)*
    unary          := ('!' | '-' | '+') unary | primary
    primary        := NUMBER | STRING | VARIABLE | PLACEHOLDER
                    | IDENTIFIER | function_call | '(' expression ')'
    function_call  := IDENTIFIER '(' (expression (',' expression)*)? ')'

A `Phrase` is a derivation. The nonterminals from `logical_or` to `unary` are the levels 6 to 0,
and a phrase of level 0 that begins with no sign is a primary. The grammar is about kinds of tokens,
so `=` and `==`, which are one kind, are one terminal. What follows a phrase shows where it ends,
and that is why a text has at most one derivation.
-/
namespace RandomTables.Expr

/-! ## Terminals -/

/-- The tokens that join phrases of the level below to one of a level, with what they mean. -/
def joiners : Nat → List (TokenKind × BinaryOp)
  | 6 => [(.or, .or)]
  | 5 => [(.and, .and)]
  | 4 => [(.equal, .equal), (.notEqual, .notEqual), (.contains, .contains), (.matching, .matching)]
  | 3 => [(.less, .less), (.lessEqual, .lessEqual), (.greater, .greater),
      (.greaterEqual, .greaterEqual)]
  | 2 => [(.plus, .add), (.minus, .subtract)]
  | 1 => [(.multiply, .multiply), (.divide, .divide), (.modulo, .modulo)]
  | _ => []

/-- The tokens that stand in front of a phrase of level 0, with what they mean. -/
def signs : List (TokenKind × UnaryOp) := [(.not, .not), (.minus, .negate), (.plus, .plus)]

/-- The tokens that are phrases alone. -/
def leaves : List TokenKind := [.number, .string, .variable, .placeholder, .identifier]

theorem le_of_mem_joiners {level : Nat} {p : TokenKind × BinaryOp} (h : p ∈ joiners level) :
    level ≤ 6 := by
  unfold joiners at h
  split at h
  all_goals first
    | omega
    | cases h

/-- A token joins phrases to one level only, and means one operator. -/
theorem joiners_unique {level level' : Nat} {kind : TokenKind} {op op' : BinaryOp}
    (h : (kind, op) ∈ joiners level) (h' : (kind, op') ∈ joiners level') :
    level = level' ∧ op = op' := by
  have hall : ∀ n < 7, ∀ m < 7, ∀ p ∈ joiners n, ∀ q ∈ joiners m, p.1 = q.1 → n = m ∧ p.2 = q.2 := by
    decide
  exact hall level (Nat.lt_succ_of_le (le_of_mem_joiners h)) level'
    (Nat.lt_succ_of_le (le_of_mem_joiners h')) _ h _ h' rfl

theorem signs_unique {kind : TokenKind} {op op' : UnaryOp} (h : (kind, op) ∈ signs)
    (h' : (kind, op') ∈ signs) : op = op' := by
  have hall : ∀ p ∈ signs, ∀ q ∈ signs, p.1 = q.1 → p.2 = q.2 := by decide
  exact hall _ h _ h' rfl

/-! ## Derivations -/

mutual

/-- A derivation from the nonterminal of a level. -/
inductive Phrase : Nat → Type where
  /-- A sign in front of a phrase of level 0. -/
  | signed (mark : Token) (op : UnaryOp) (hmark : (mark.kind, op) ∈ signs) (operand : Phrase 0) :
      Phrase 0
  | leaf (token : Token) (htoken : token.kind ∈ leaves) : Phrase 0
  | call (name : Token) (hname : name.kind = .identifier) (opening : Token)
      (hopening : opening.kind = .leftParen) (arguments : Arguments) (closing : Token)
      (hclosing : closing.kind = .rightParen) : Phrase 0
  | group (opening : Token) (hopening : opening.kind = .leftParen) (inner : Phrase 6)
      (closing : Token) (hclosing : closing.kind = .rightParen) : Phrase 0
  /-- A phrase of the level below, and those that are joined to it. -/
  | joined {level : Nat} (first : Phrase level) (rest : Joined level) : Phrase (level + 1)

/-- Phrases of a level, each behind a token that joins it to what stands before. -/
inductive Joined : Nat → Type where
  | done {level : Nat} : Joined level
  | more {level : Nat} (mark : Token) (op : BinaryOp) (hmark : (mark.kind, op) ∈ joiners (level + 1))
      (operand : Phrase level) (rest : Joined level) : Joined level

/-- Any number of expressions with commas between them. -/
inductive Arguments : Type where
  | empty
  | listed (first : Phrase 6) (rest : MoreArguments)

/-- Expressions, each behind a comma. -/
inductive MoreArguments : Type where
  | done
  | more (comma : Token) (hcomma : comma.kind = .comma) (argument : Phrase 6)
      (rest : MoreArguments)

end

/-! ## The tokens that are derived -/

mutual

def Phrase.tokens {level : Nat} : Phrase level → List Token
  | .signed mark _ _ operand => mark :: operand.tokens
  | .leaf token _ => [token]
  | .call name _ opening _ arguments closing _ => name :: opening :: (arguments.tokens ++ [closing])
  | .group opening _ inner closing _ => opening :: (inner.tokens ++ [closing])
  | .joined first rest => first.tokens ++ rest.tokens

def Joined.tokens {level : Nat} : Joined level → List Token
  | .done => []
  | .more mark _ _ operand rest => mark :: (operand.tokens ++ rest.tokens)

def Arguments.tokens : Arguments → List Token
  | .empty => []
  | .listed first rest => first.tokens ++ rest.tokens

def MoreArguments.tokens : MoreArguments → List Token
  | .done => []
  | .more comma _ argument rest => comma :: (argument.tokens ++ rest.tokens)

end

/-! ## Calls of known functions -/

def MoreArguments.count : MoreArguments → Nat
  | .done => 0
  | .more _ _ _ rest => rest.count + 1

def Arguments.count : Arguments → Nat
  | .empty => 0
  | .listed _ rest => rest.count + 1

/-- A name is that of a function that takes this many arguments. -/
def Calls (name : Token) (count : Nat) : Prop :=
  ∃ f, Function.ofName? name.value = some f ∧ f.takes count = true

mutual

/-- Every call names a known function and has a number of arguments that it takes. -/
def Phrase.Callable {level : Nat} : Phrase level → Prop
  | .signed _ _ _ operand => operand.Callable
  | .leaf _ _ => True
  | .call name _ _ _ arguments _ _ => Calls name arguments.count ∧ arguments.Callable
  | .group _ _ inner _ _ => inner.Callable
  | .joined first rest => first.Callable ∧ rest.Callable

def Joined.Callable {level : Nat} : Joined level → Prop
  | .done => True
  | .more _ _ _ operand rest => operand.Callable ∧ rest.Callable

def Arguments.Callable : Arguments → Prop
  | .empty => True
  | .listed first rest => first.Callable ∧ rest.Callable

def MoreArguments.Callable : MoreArguments → Prop
  | .done => True
  | .more _ _ argument rest => argument.Callable ∧ rest.Callable

end

/-! ## Trees -/

/-- The tree of a token alone. A numeral may hold digits that have no value. -/
def leafTree (t : Token) : Option Expr :=
  match t.kind with
  | .number => (Number.readFloat t.value).map (.number · t.position)
  | .variable => some (.variable t.text t.position)
  | .placeholder => some (placeholderOf t.value t.position)
  | _ => some (.text t.text t.position)

/-- The tree of a call, if the function is known and takes that many arguments. -/
def callTree (name : Token) (arguments : List Expr) : Option Expr :=
  match Function.ofName? name.value with
  | some f => if f.takes arguments.length then some (.call f arguments name.position) else none
  | none => none

mutual

/-- The tree of a derivation. A sign takes the phrase behind it, which may have signs itself. -/
def Phrase.tree {level : Nat} : Phrase level → Option Expr
  | .signed mark op _ operand => operand.tree.map (.unary op · mark.position)
  | .leaf token _ => leafTree token
  | .call name _ _ _ arguments _ _ => arguments.trees.bind (callTree name)
  | .group _ _ inner _ _ => inner.tree
  | .joined first rest => first.tree.bind rest.tree

/-- The tree of joined phrases, from the left, given that of what stands before them. -/
def Joined.tree {level : Nat} (joined : Joined level) (left : Expr) : Option Expr :=
  match joined with
  | .done => some left
  | .more _ op _ operand rest => operand.tree.bind fun right => rest.tree (.binary op left right)

def Arguments.trees : Arguments → Option (List Expr)
  | .empty => some []
  | .listed first rest => first.tree.bind fun e => rest.trees.map (e :: ·)

def MoreArguments.trees : MoreArguments → Option (List Expr)
  | .done => some []
  | .more _ _ argument rest => argument.tree.bind fun e => rest.trees.map (e :: ·)

end

/-! ## Unambiguity -/

/-- Tokens before which a phrase of a level ends: the next one opens no parenthesis and joins
nothing to the level or to one below. -/
def Stops (level : Nat) (rest : List Token) : Prop :=
  ∀ t ∈ rest.head?, t.kind ≠ .leftParen ∧ ∀ n ≤ level, ∀ op, (t.kind, op) ∉ joiners n

section

variable {level : Nat} {t : Token} {rest rest' : List Token}

theorem Stops.nil : Stops level [] := fun _ h => nomatch h

theorem Stops.mono {level' : Nat} (h : Stops level rest) (hle : level' ≤ level) :
    Stops level' rest := fun t ht =>
  ⟨(h t ht).1, fun n hn => (h t ht).2 n (Nat.le_trans hn hle)⟩

/-- Punctuation ends phrases of all levels. -/
theorem Stops.of_kind (h : t.kind ∈ [.rightParen, .comma, .eof]) : Stops level (t :: rest) := by
  have hnone : ∀ n < 7, ∀ kind ∈ [.rightParen, .comma, TokenKind.eof], ∀ p ∈ joiners n,
      p.1 ≠ kind := by decide
  intro u hu
  obtain rfl : t = u := Option.some.inj hu
  refine ⟨fun hparen => ?_, fun n _ op hop => ?_⟩
  · rw [hparen] at h
    exact absurd h (by decide)
  · exact hnone n (Nat.lt_succ_of_le (le_of_mem_joiners hop)) _ h _ hop rfl

theorem Stops.rightParen (h : t.kind = .rightParen) : Stops level (t :: rest) :=
  .of_kind (by simp [h])

/-- A token that joins phrases ends one of the level below. -/
theorem Stops.joiner {op : BinaryOp} (h : (t.kind, op) ∈ joiners (level + 1)) :
    Stops level (t :: rest) := by
  intro u hu
  obtain rfl : t = u := Option.some.inj hu
  refine ⟨fun hparen => ?_, fun n hn op' hop => ?_⟩
  · have hnone : ∀ n < 7, ∀ p ∈ joiners n, p.1 ≠ .leftParen := by decide
    exact hnone _ (Nat.lt_succ_of_le (le_of_mem_joiners h)) _ h hparen
  · have := (joiners_unique h hop).1
    omega

/-- What is joined to a phrase ends it, and so does what ends the whole. -/
theorem Joined.stops (joined : Joined level) (h : Stops (level + 1) rest) :
    Stops level (joined.tokens ++ rest) := by
  cases joined with
  | done => exact h.mono (Nat.le_succ level)
  | more mark op hmark operand rest => exact .joiner hmark

theorem MoreArguments.stops (arguments : MoreArguments) (ht : t.kind = .rightParen) :
    Stops level (arguments.tokens ++ t :: rest) := by
  cases arguments with
  | done => exact .rightParen ht
  | more comma hcomma argument rest => exact .of_kind (by simp [hcomma])

end

/-- What a phrase of level 0 is, as its first tokens show. -/
inductive Start where
  | sign | group | call | leaf
  deriving DecidableEq

def startOf : List Token → Option Start
  | [] => none
  | t :: rest =>
    if (signs.map (·.1)).contains t.kind then some .sign
    else if t.kind = .leftParen then some .group
    else if (rest.head?.map (·.kind)) = some .leftParen then some .call
    else if leaves.contains t.kind then some .leaf
    else none

def Phrase.start : Phrase 0 → Start
  | .signed .. => .sign
  | .leaf .. => .leaf
  | .call .. => .call
  | .group .. => .group

theorem Phrase.startOf_tokens (d : Phrase 0) {rest : List Token} (h : Stops 0 rest) :
    startOf (d.tokens ++ rest) = some d.start := by
  cases d with
  | signed mark op hmark operand =>
      have hsign : (signs.map (·.1)).contains mark.kind = true :=
        List.contains_iff_mem.2 (List.mem_map_of_mem (f := (·.1)) hmark)
      rw [tokens, List.cons_append, startOf, if_pos hsign, start]
  | leaf token htoken =>
      have hleaves : ∀ kind ∈ leaves, (signs.map (·.1)).contains kind = false ∧
          kind ≠ .leftParen := by decide
      have hnext : ¬ rest.head?.map (·.kind) = some .leftParen := by
        rw [Option.map_eq_some_iff]
        rintro ⟨t, ht, hkind⟩
        exact (h t ht).1 hkind
      obtain ⟨hsign, hparen⟩ := hleaves _ htoken
      rw [tokens, List.cons_append, List.nil_append, startOf, if_neg (Bool.eq_false_iff.1 hsign),
        if_neg hparen, if_neg hnext, if_pos (List.contains_iff_mem.2 htoken), start]
  | call name hname opening hopening arguments closing hclosing =>
      simp [tokens, startOf, hname, hopening, signs, start]
  | group opening hopening inner closing hclosing =>
      simp [tokens, startOf, hopening, signs, start]

/-- Phrases of level 0 that begin the same tokens, each up to where it ends, are of one sort. -/
theorem Phrase.start_eq {d d' : Phrase 0} {rest rest' : List Token} (hstop : Stops 0 rest)
    (hstop' : Stops 0 rest') (h : d.tokens ++ rest = d'.tokens ++ rest') : d.start = d'.start :=
  Option.some.inj
    ((d.startOf_tokens hstop).symm.trans ((congrArg startOf h).trans (d'.startOf_tokens hstop')))

theorem Phrase.tokens_ne_nil : ∀ {level : Nat} (d : Phrase level), d.tokens ≠ []
  | _, .signed .. => List.cons_ne_nil _ _
  | _, .leaf .. => List.cons_ne_nil _ _
  | _, .call .. => List.cons_ne_nil _ _
  | _, .group .. => List.cons_ne_nil _ _
  | _, .joined first _ => List.append_ne_nil_of_left_ne_nil first.tokens_ne_nil _

/-- A phrase begins with a sign, an opening parenthesis or a token that is a phrase alone. -/
theorem Phrase.kind_of_head : ∀ {level : Nat} (d : Phrase level) {t : Token},
    t ∈ d.tokens.head? →
      t.kind ∈ [.not, .minus, .plus, .leftParen, .number, .string, .variable, .placeholder, .identifier]
  | _, .signed mark op hmark operand, t, ht => by
      obtain rfl : mark = t := Option.some.inj ht
      have hall : ∀ p ∈ signs, p.1 ∈ [.not, .minus, .plus, .leftParen, .number, .string, .variable,
        .placeholder, TokenKind.identifier] := by decide
      exact hall _ hmark
  | _, .leaf token htoken, t, ht => by
      obtain rfl : token = t := Option.some.inj ht
      have hall : ∀ kind ∈ leaves, kind ∈ [.not, .minus, .plus, .leftParen, .number, .string,
        .variable, .placeholder, TokenKind.identifier] := by decide
      exact hall _ htoken
  | _, .call name hname .., t, ht => by
      obtain rfl : name = t := Option.some.inj ht
      simp [hname]
  | _, .group opening hopening .., t, ht => by
      obtain rfl : opening = t := Option.some.inj ht
      simp [hopening]
  | _, .joined first rest, t, ht => by
      obtain ⟨u, us, htokens⟩ := List.exists_cons_of_ne_nil first.tokens_ne_nil
      rw [tokens, htokens] at ht
      exact first.kind_of_head (htokens ▸ ht)

/-- Tokens that begin with a phrase do not begin with a closing parenthesis. -/
theorem Phrase.head_ne_rightParen {level : Nat} (d : Phrase level) {t : Token} {ts rest : List Token}
    (h : d.tokens ++ rest = t :: ts) : t.kind ≠ .rightParen := by
  obtain ⟨u, us, htokens⟩ := List.exists_cons_of_ne_nil d.tokens_ne_nil
  rw [htokens] at h
  obtain rfl := (List.cons.inj h).1
  have hkind : _ := d.kind_of_head (t := u) (htokens ▸ rfl)
  intro hparen
  rw [hparen] at hkind
  exact absurd hkind (by decide)

mutual

/-- Two phrases of a level that begin the same tokens, each up to where it ends, are the same. -/
theorem Phrase.unique : ∀ {level : Nat} (d d' : Phrase level) {rest rest' : List Token},
    Stops level rest → Stops level rest' → d.tokens ++ rest = d'.tokens ++ rest' →
      d = d' ∧ rest = rest'
  | _, .signed mark op hmark operand, d', rest, rest', hstop, hstop', h => by
      match d', Phrase.start_eq hstop hstop' h with
      | .signed mark' op' hmark' operand', _ =>
        obtain ⟨rfl, htail⟩ := List.cons.inj h
        obtain rfl := signs_unique hmark hmark'
        obtain ⟨rfl, rfl⟩ := operand.unique operand' hstop hstop' htail
        exact ⟨rfl, rfl⟩
  | _, .leaf token htoken, d', rest, rest', hstop, hstop', h => by
      match d', Phrase.start_eq hstop hstop' h with
      | .leaf token' htoken', _ =>
        obtain ⟨rfl, rfl⟩ := List.cons.inj h
        exact ⟨rfl, rfl⟩
  | _, .call name hname opening hopening arguments closing hclosing, d', rest, rest', hstop, hstop',
      h => by
      match d', Phrase.start_eq hstop hstop' h with
      | .call name' hname' opening' hopening' arguments' closing' hclosing', _ =>
        simp only [Phrase.tokens, List.cons_append, List.append_assoc, List.nil_append,
          List.cons.injEq] at h
        obtain ⟨rfl, rfl, htail⟩ := h
        obtain ⟨rfl, hend⟩ := arguments.unique arguments' hclosing hclosing' htail
        obtain ⟨rfl, rfl⟩ := List.cons.inj hend
        exact ⟨rfl, rfl⟩
  | _, .group opening hopening inner closing hclosing, d', rest, rest', hstop, hstop', h => by
      match d', Phrase.start_eq hstop hstop' h with
      | .group opening' hopening' inner' closing' hclosing', _ =>
        simp only [Phrase.tokens, List.cons_append, List.append_assoc, List.nil_append,
          List.cons.injEq] at h
        obtain ⟨rfl, htail⟩ := h
        obtain ⟨rfl, hend⟩ := inner.unique inner' (.rightParen hclosing) (.rightParen hclosing') htail
        obtain ⟨rfl, rfl⟩ := List.cons.inj hend
        exact ⟨rfl, rfl⟩
  | _, .joined first joined, .joined first' joined', rest, rest', hstop, hstop', h => by
      simp only [Phrase.tokens, List.append_assoc] at h
      obtain ⟨rfl, htail⟩ := first.unique first' (joined.stops hstop) (joined'.stops hstop') h
      obtain ⟨rfl, rfl⟩ := joined.unique joined' hstop hstop' htail
      exact ⟨rfl, rfl⟩
  termination_by structural _ d => d

theorem Joined.unique : ∀ {level : Nat} (d d' : Joined level) {rest rest' : List Token},
    Stops (level + 1) rest → Stops (level + 1) rest' → d.tokens ++ rest = d'.tokens ++ rest' →
      d = d' ∧ rest = rest'
  | _, .done, .done, _, _, _, _, h => ⟨rfl, h⟩
  | _, .done, .more mark op hmark _ _, rest, _, hstop, _, h => by
      obtain rfl : rest = _ := h
      exact absurd hmark ((hstop mark rfl).2 _ (Nat.le_refl _) op)
  | _, .more mark op hmark _ _, .done, _, rest', _, hstop', h => by
      obtain rfl : _ = rest' := h
      exact absurd hmark ((hstop' mark rfl).2 _ (Nat.le_refl _) op)
  | _, .more mark op hmark operand joined, .more mark' op' hmark' operand' joined', rest, rest',
      hstop, hstop', h => by
      simp only [Joined.tokens, List.cons_append, List.append_assoc, List.cons.injEq] at h
      obtain ⟨rfl, htail⟩ := h
      obtain rfl := (joiners_unique hmark hmark').2
      obtain ⟨rfl, hmore⟩ := operand.unique operand' (joined.stops hstop) (joined'.stops hstop') htail
      obtain ⟨rfl, rfl⟩ := joined.unique joined' hstop hstop' hmore
      exact ⟨rfl, rfl⟩
  termination_by structural _ d => d

theorem Arguments.unique : ∀ (d d' : Arguments) {closing closing' : Token} {rest rest' : List Token},
    closing.kind = .rightParen → closing'.kind = .rightParen →
      d.tokens ++ closing :: rest = d'.tokens ++ closing' :: rest' →
        d = d' ∧ closing :: rest = closing' :: rest'
  | .empty, .empty, _, _, _, _, _, _, h => ⟨rfl, h⟩
  | .empty, .listed first more, _, _, _, _, hclosing, _, h => by
      rw [Arguments.tokens, Arguments.tokens, List.append_assoc] at h
      exact absurd hclosing (first.head_ne_rightParen h.symm)
  | .listed first more, .empty, _, _, _, _, _, hclosing', h => by
      rw [Arguments.tokens, Arguments.tokens, List.append_assoc] at h
      exact absurd hclosing' (first.head_ne_rightParen h)
  | .listed first more, .listed first' more', _, _, _, _, hclosing, hclosing', h => by
      simp only [Arguments.tokens, List.append_assoc] at h
      obtain ⟨rfl, htail⟩ := first.unique first' (more.stops hclosing) (more'.stops hclosing') h
      obtain ⟨rfl, hend⟩ := more.unique more' hclosing hclosing' htail
      exact ⟨rfl, hend⟩
  termination_by structural d => d

theorem MoreArguments.unique : ∀ (d d' : MoreArguments) {closing closing' : Token}
    {rest rest' : List Token}, closing.kind = .rightParen → closing'.kind = .rightParen →
      d.tokens ++ closing :: rest = d'.tokens ++ closing' :: rest' →
        d = d' ∧ closing :: rest = closing' :: rest'
  | .done, .done, _, _, _, _, _, _, h => ⟨rfl, h⟩
  | .done, .more comma hcomma _ _, closing, _, _, _, hclosing, _, h => by
      obtain rfl : closing = comma := (List.cons.inj h).1
      exact absurd (hclosing.symm.trans hcomma) (by decide)
  | .more comma hcomma _ _, .done, _, closing', _, _, _, hclosing', h => by
      obtain rfl : comma = closing' := (List.cons.inj h).1
      exact absurd (hclosing'.symm.trans hcomma) (by decide)
  | .more comma hcomma argument more, .more comma' hcomma' argument' more', _, _, _, _, hclosing,
      hclosing', h => by
      simp only [MoreArguments.tokens, List.cons_append, List.append_assoc, List.cons.injEq] at h
      obtain ⟨rfl, htail⟩ := h
      obtain ⟨rfl, hmore⟩ := argument.unique argument' (more.stops hclosing) (more'.stops hclosing') htail
      obtain ⟨rfl, hend⟩ := more.unique more' hclosing hclosing' hmore
      exact ⟨rfl, hend⟩
  termination_by structural d => d

end

/-- The grammar is unambiguous. -/
theorem Phrase.tokens_injective {level : Nat} {d d' : Phrase level} (h : d.tokens = d'.tokens) :
    d = d' := by
  rw [← List.append_nil d.tokens, ← List.append_nil d'.tokens] at h
  exact (d.unique d' .nil .nil h).1

end RandomTables.Expr
