-- SUMMARY: Expressions on scripts of texts, how operations fail, and why expressions are refused.
import RandomTables.Expr.Eval
import RandomTables.Proofs.Regex.Reading

/-!
# Failures of expressions

An expression that cannot be read is a parse error, or holds a numeral without a value. Operations
fail as arithmetic does.
-/
namespace RandomTables

/-! ## Scripts

What an expression computes depends on the texts that its names stand for, and these may come from
anywhere. A script lists the texts in the order in which they are read. An expression can fail in
some way exactly if there is a script for which it does. -/

/-- A computation that reads texts one after another; after the last one all are empty. -/
abbrev Script := StateT (List String) (Except Failure)

namespace Script

variable {α β : Type} {x : Script α} {g : α → Script β} {a : α} {b : β} {f : Failure}

/-- The next text. -/
def next : Script String
  | [] => .ok ("", [])
  | text :: rest => .ok (text, rest)

/-- Some texts make a computation give a value, and it leaves all that follow them. -/
def Gives (x : Script α) (a : α) : Prop := ∃ texts, ∀ more, x (texts ++ more) = .ok (a, more)

/-- Some texts make a computation fail. -/
def Fails (x : Script α) (f : Failure) : Prop := ∃ texts, x texts = .error f

theorem bind_apply (x : Script α) (g : α → Script β) (texts : List String) :
    (x >>= g) texts = x texts >>= fun r => g r.1 r.2 := rfl

theorem gives_next (text : String) : next.Gives text := ⟨[text], fun _ => rfl⟩

theorem gives_pure (a : α) : Gives (pure a) a := ⟨[], fun _ => rfl⟩

theorem Gives.bind (hx : x.Gives a) (hg : (g a).Gives b) : (x >>= g).Gives b := by
  obtain ⟨texts, htexts⟩ := hx
  obtain ⟨others, hothers⟩ := hg
  refine ⟨texts ++ others, fun more => ?_⟩
  rw [List.append_assoc, bind_apply, htexts]
  exact hothers more

theorem Gives.fails_bind (hx : x.Gives a) (hg : (g a).Fails f) : (x >>= g).Fails f := by
  obtain ⟨texts, htexts⟩ := hx
  obtain ⟨others, hothers⟩ := hg
  refine ⟨texts ++ others, ?_⟩
  rw [bind_apply, htexts]
  exact hothers

theorem Fails.bind (hx : x.Fails f) : (x >>= g).Fails f := by
  obtain ⟨texts, htexts⟩ := hx
  refine ⟨texts, ?_⟩
  rw [bind_apply, htexts]
  rfl

theorem gives_lift (a : α) : Gives (Expr.lift (.ok a)) a := gives_pure a

theorem fails_lift (f : Failure) : Fails (Expr.lift (.error f) : Script α) f := ⟨[], rfl⟩

end Script

namespace Expr

/-- A scope whose names are read from a script. -/
def Scope.scripted (subject : Option String) : Scope Script where
  resolveVariable _ := Script.next
  resolvePlaceholder _ _ := Script.next
  subject

/-- An expression fails for some subject and some texts of its names. -/
def Fails (e : Expr) (f : Failure) : Prop := ∃ subject, (e.eval (.scripted subject)).Fails f

theorem eval_binary {m : Type → Type} [Monad m] [MonadExceptOf Failure m] {scope : Scope m}
    {op : BinaryOp} {left right : Expr} (hand : op ≠ .and) (hor : op ≠ .or) :
    eval scope (.binary op left right) = (do
      let a ← eval scope left
      let b ← eval scope right
      lift (applyBinary (render (.binary op left right)) op a b)) := by
  rw [eval]
  · exact hand
  · exact hor

end Expr

/-! ## Failures of texts -/

/-- A failure of a text that is read or calculated: a parse error or a breakdown. -/
def Failure.OfReading : Failure → Prop
  | .error (.parse _) | .fault _ => True
  | _ => False

theorem Failure.OfReading.ne_outOfFuel {f : Failure} (h : f.OfReading) : f ≠ .outOfFuel := by
  rintro rfl
  exact h

/-- A computation that fails only as texts do. -/
abbrev Ends {α : Type} (x : Except Failure α) : Prop := FailsOnly Failure.OfReading x

/-! ## Failures of operations -/

/-- What is wrong with the operands of an operation. -/
inductive ParseCause.OfOperands : ParseCause → Prop where
  | nonNumeric (operand : String) : OfOperands (.nonNumeric operand)
  | divisionByZero : OfOperands .divisionByZero
  | moduloByZero : OfOperands .moduloByZero

/-- A failure of an operation: arithmetic breaks down, or the operands are wrong. -/
def Failure.Arithmetical (f : Failure) : Prop :=
  f.Breaks ∨ ∃ cause source, cause.OfOperands ∧ f = .parse cause source none

theorem Failure.Arithmetical.ofReading {f : Failure} (h : f.Arithmetical) : f.OfReading := by
  rcases h with ⟨fault, rfl⟩ | ⟨cause, source, -, rfl⟩ <;> exact trivial

/-- A computation that fails as operations do. -/
abbrev Computes {α : Type} (x : Except Failure α) : Prop := FailsOnly Failure.Arithmetical x

section

variable {α : Type} {x : Except Failure α}

theorem Breaks.computes (h : Breaks x) : Computes x := FailsOnly.mono h fun _ => .inl

theorem Breaks.ends (h : Breaks x) : Ends x := by
  refine FailsOnly.mono h ?_
  rintro _ ⟨fault, rfl⟩
  exact trivial

theorem Computes.operands {cause : ParseCause} (h : cause.OfOperands) {source : String} :
    Computes (.error (.parse cause source none) : Except Failure α) :=
  FailsOnly.error (.inr ⟨cause, source, h, rfl⟩)

end

/-! ## Numbers -/

namespace Number

theorem breaks_floorInt (x : Float) : Breaks (floorInt x) := by
  unfold floorInt
  dsimp only
  split
  · exact .ok
  · exact Breaks.error

theorem breaks_truncateInt (x : Float) : Breaks (truncateInt x) := by
  unfold truncateInt
  dsimp only
  split
  · exact .ok
  · exact Breaks.error

theorem breaks_roundTo (x : Float) (digits : Int) : Breaks (roundTo x digits) := by
  refine .bind ?_ fun factor => .bind (.map (breaks_floorInt _)) fun whole => .ite Breaks.error .ok
  exact .ite Breaks.error (.ite .ok (.ite .ok .ok))

end Number

namespace Expr

/-! ## Operations -/

theorem breaks_patternMatches (text pattern : String) : Breaks (patternMatches text pattern) := by
  have hparse := Regex.ends_parse pattern.toList
  unfold patternMatches
  split
  · exact .ok
  · exact .ok
  · rename_i f hf
    exact FailsOnly.error (hparse.failure _ hf f rfl)

theorem breaks_applyFunction (function : Function) (arguments : List Float) :
    Breaks (applyFunction function arguments) := by
  unfold applyFunction
  split
  · exact .ok
  · exact .map (Number.breaks_floorInt _)
  · exact .map (.map (Number.breaks_floorInt _))
  · exact .ok
  · exact .ok
  · exact .ok
  · exact Number.breaks_roundTo _ _
  · exact .bind (Number.breaks_truncateInt _) fun places => Number.breaks_roundTo _ places

theorem computes_number (v : Value) : Computes v.number := by
  unfold Value.number
  split
  · exact .ok
  · exact Computes.operands (.nonNumeric _)

theorem computes_applyUnary (op : UnaryOp) (v : Value) : Computes (applyUnary op v) := by
  cases op with
  | not => exact .ok
  | negate => exact .map (computes_number v)
  | plus => exact .map (computes_number v)

theorem computes_arithmetic (source : String) (op : BinaryOp) (x y : Float) :
    Computes (arithmetic source op x y) := by
  cases op with
  | divide => exact .ite (Computes.operands .divisionByZero) .ok
  | modulo => exact .ite (Computes.operands .moduloByZero) .ok
  | _ => exact .ok

theorem computes_applyBinary (source : String) (op : BinaryOp) (a b : Value) :
    Computes (applyBinary source op a b) := by
  have harithmetic : Computes (do
      let x ← a.number
      let y ← b.number
      return .num (← arithmetic source op x y) : Except Failure Value) := by
    apply FailsOnly.bind (computes_number a)
    intro x
    apply FailsOnly.bind (computes_number b)
    intro y
    exact .bind (computes_arithmetic source op x y) fun _ => .ok
  cases op with
  | matching => exact .map (breaks_patternMatches _ _).computes
  | equal | notEqual | contains | less | lessEqual | greater | greaterEqual => exact .ok
  | or | and | add | subtract | multiply | divide | modulo => exact harithmetic

/-! ## Evaluation -/

section

variable {m : Type → Type} [Monad m] [MonadExceptOf Failure m]

/-- A property that reading the names of a scope has, and that computations keep. -/
structure Kept (scope : Scope m) (P : {α : Type} → m α → Prop) : Prop where
  named : ∀ name, P (scope.resolveVariable name)
  placeholder : ∀ name property, P (scope.resolvePlaceholder name property)
  pure : ∀ {α : Type} (a : α), P (pure a)
  bind : ∀ {α β : Type} {x : m α} {f : α → m β}, P x → (∀ a, P (f a)) → P (x >>= f)
  lift : ∀ {α : Type} {e : Except Failure α}, Computes e → P (lift e : m α)

variable {P : {α : Type} → m α → Prop} {scope : Scope m} (hP : Kept scope P)
include hP

mutual

/-- What reading names has, evaluating an expression has. -/
theorem kept_eval : ∀ e : Expr, P (e.eval scope)
  | .number value _ => by
      rw [eval]
      exact hP.pure _
  | .text value _ => by
      rw [eval]
      exact hP.pure _
  | .variable name _ => by
      rw [eval]
      split
      · exact hP.pure _
      · exact hP.bind (hP.named name) fun _ => hP.pure _
  | .placeholder name property _ => by
      rw [eval]
      exact hP.bind (hP.placeholder name property) fun _ => hP.pure _
  | .unary op operand _ => by
      rw [eval]
      exact hP.bind (kept_eval operand) fun v => hP.lift (computes_applyUnary op v)
  | .binary op left right => by
      have hleft := kept_eval left
      have hright := kept_eval right
      by_cases hand : op = .and
      · subst hand
        rw [eval]
        apply hP.bind hleft
        intro a
        split
        · exact hP.bind hright fun _ => hP.pure _
        · exact hP.pure _
      by_cases hor : op = .or
      · subst hor
        rw [eval]
        apply hP.bind hleft
        intro a
        split
        · exact hP.pure _
        · exact hP.bind hright fun _ => hP.pure _
      rw [eval_binary hand hor]
      exact hP.bind hleft fun a => hP.bind hright fun b => hP.lift (computes_applyBinary _ op a b)
  | .call function arguments _ => by
      rw [eval]
      apply hP.bind (kept_evalNumbers arguments)
      intro values
      exact hP.bind (hP.lift (breaks_applyFunction function values).computes) fun _ => hP.pure _

theorem kept_evalNumbers : ∀ arguments : List Expr, P (evalNumbers scope arguments)
  | [] => by
      rw [evalNumbers]
      exact hP.pure _
  | e :: rest => by
      rw [evalNumbers]
      apply hP.bind (kept_eval e)
      intro v
      apply hP.bind (hP.lift (computes_number v))
      intro x
      exact hP.bind (kept_evalNumbers rest) fun _ => hP.pure _

end

end

theorem computes_next (texts : List String) : Computes (Script.next texts) := by
  cases texts <;> exact .ok

/-- Whatever a script reads, it fails as operations do. -/
theorem kept_scripted (subject : Option String) :
    Kept (.scripted subject) fun {α : Type} (x : Script α) => ∀ texts, Computes (x texts) where
  named _ := computes_next
  placeholder _ _ := computes_next
  pure _ _ := .ok
  bind hx hf texts := .bind (hx texts) fun r => hf r.1 r.2
  lift {_ e} he _ := by
    cases e with
    | ok a => exact .ok
    | error f => exact FailsOnly.error (he.failure f rfl)

/-- An expression fails as its operations do, if its names are read. -/
theorem Fails.arithmetical {e : Expr} {f : Failure} (h : e.Fails f) : f.Arithmetical := by
  obtain ⟨subject, texts, hfails⟩ := h
  exact (kept_eval (kept_scripted subject) e texts).failure f hfails

theorem Fails.ofReading {e : Expr} {f : Failure} (h : e.Fails f) : f.OfReading :=
  h.arithmetical.ofReading

/-! ## Parsing -/

section

variable {source : String}

theorem ends_failAt {α : Type} {ts : List Token} {cause : ParseCause} :
    Ends (failAt source ts cause : Except Failure α) := .error trivial

theorem ends_numberOf (t : Token) : Ends (numberOf t) := by
  unfold numberOf
  split
  · exact .ok
  · exact .error trivial

theorem ends_callOf (name : Token) (arguments : List Expr) :
    Ends (callOf source name arguments) := by
  unfold callOf
  split
  · exact .error trivial
  · exact .ite .ok (.error trivial)

mutual

theorem ends_parseLevel :
    ∀ (level : Nat) (ts : List Token), Ends (parseLevel source level ts)
  | 0, [] => by
      rw [parseLevel]
      exact ends_failAt
  | 0, t :: rest => by
      rw [parseLevel]
      split
      · exact .bind (ends_parseLevel 0 rest) fun _ => .ok
      · exact ends_parseAtom t rest
  | level + 1, ts => by
      rw [parseLevel]
      apply FailsOnly.bind (ends_parseLevel level ts)
      intro left
      have := left.shorter
      exact .bind (ends_parseChain level _ left.rest) fun _ => .ok
  termination_by level ts => (ts.length, level + 2)

theorem ends_parseChain :
    ∀ (level : Nat) (left : Expr) (ts : List Token), Ends (parseChain source level left ts)
  | _, _, [] => by
      rw [parseChain]
      exact .ok
  | level, left, t :: rest => by
      rw [parseChain]
      split
      · exact .ok
      · apply FailsOnly.bind (ends_parseLevel level rest)
        intro right
        have hshorter : right.rest.length < rest.length + 1 := Nat.lt_succ_of_lt right.shorter
        exact .bind (ends_parseChain level _ right.rest) fun _ => .ok
  termination_by level _ ts => (ts.length, level + 2)

theorem ends_parseAtom (t : Token) (rest : List Token) : Ends (parseAtom source t rest) := by
  unfold parseAtom
  dsimp only
  split
  · exact .map (ends_numberOf t)
  · exact .ok
  · exact .ok
  · exact .ok
  · split
    · exact .ok
    · refine .ite (.bind (ends_parseArguments _) fun _ => ?_) .ok
      exact .bind (ends_callOf _ _) fun _ => .ok
  · refine .bind (ends_parseLevel 6 rest) ?_
    rintro ⟨e, after, h⟩
    dsimp only
    split
    · exact ends_failAt
    · exact .ite .ok ends_failAt
  · exact ends_failAt
  termination_by (rest.length + 1, 1)

theorem ends_parseArguments : ∀ ts : List Token, Ends (parseArguments source ts)
  | [] => by
      rw [parseArguments]
      exact ends_failAt
  | t :: rest => by
      rw [parseArguments]
      refine .ite .ok (.bind (ends_parseLevel 6 (t :: rest)) fun first => ?_)
      have hshorter : first.rest.length < rest.length + 1 := first.shorter
      exact .bind (ends_parseMoreArguments first.rest) fun _ => .ok
  termination_by ts => (ts.length, 9)

theorem ends_parseMoreArguments : ∀ ts : List Token, Ends (parseMoreArguments source ts)
  | [] => by
      rw [parseMoreArguments]
      exact ends_failAt
  | t :: rest => by
      rw [parseMoreArguments]
      refine .ite .ok (.ite (.bind (ends_parseLevel 6 rest) fun next => ?_) ends_failAt)
      have hshorter : next.rest.length < rest.length + 1 := Nat.lt_succ_of_lt next.shorter
      exact .bind (ends_parseMoreArguments next.rest) fun _ => .ok
  termination_by ts => (ts.length, 9)

end

theorem ends_ofTokens (ts : List Token) : Ends (ofTokens source ts) := by
  unfold ofTokens
  split
  · exact .error trivial
  · refine .ite (.error trivial) (.bind (ends_parseLevel 6 _) ?_)
    rintro ⟨e, rest, h⟩
    dsimp only
    split
    · exact .ok
    · exact .ite .ok ends_failAt

end

theorem ends_parse (cs : List Char) : Ends (parse cs) := by
  unfold parse
  split
  · exact .error trivial
  · exact ends_ofTokens _

end Expr

end RandomTables
