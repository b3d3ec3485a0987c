-- SUMMARY: Expressions, variables and placeholders are read alike on both sides of a simulation.
import RandomTables.Proofs.Evaluation.Simulation

/-!
# Reading in simulations

Where calls are answered alike, names are read alike. A shared variable is the only name whose
reading opens something: the scopes inside its own one are hidden until it has its value.
-/
namespace RandomTables

namespace Simulation

variable {S : Simulation} {w : Nesting}

/-- Scopes of expressions that read alike the variables and placeholders as stated. -/
structure Scopes (S : Simulation) (w : Nesting) (known shown : String → Prop)
    (scope scope' : Expr.Scope Eval) : Prop where
  named : ∀ name, known (Expr.rootOf name) →
    S.Related w (scope.resolveVariable name) (scope'.resolveVariable name)
  placeholder : ∀ name property, shown name →
    S.Related w (scope.resolvePlaceholder name property) (scope'.resolvePlaceholder name property)
  subject : scope'.subject = scope.subject

/-- Two evaluations that compute what a script does, if its failures are admitted. -/
def Follows (S : Simulation) (w : Nesting) {α : Type} (s : Script α) (x y : Eval α) : Prop :=
  (∀ f, s.Fails f → S.admits f) → S.Yields w s.Gives x y

namespace Follows

variable {α β : Type} {s : Script α} {x y : Eval α}

theorem pure (a : α) : S.Follows w (pure a) (pure a) (pure a) :=
  fun _ => .pure (Script.gives_pure a)

theorem lift (e : Except Failure α) :
    S.Follows w (Expr.lift e) (Expr.lift e : Eval α) (Expr.lift e) := by
  intro hadmits
  cases e with
  | ok a => exact .pure (Script.gives_lift a)
  | error f => exact .throw (hadmits f (Script.fails_lift f))

/-- A script may read anything. -/
theorem next {x y : Eval String} (h : S.Related w x y) : S.Follows w Script.next x y :=
  fun _ => h.mono fun text _ => Script.gives_next text

theorem bind {t : α → Script β} {f g : α → Eval β} (hx : S.Follows w s x y)
    (hf : ∀ a, S.Follows w (t a) (f a) (g a)) : S.Follows w (s >>= t) (x >>= f) (y >>= g) := by
  intro hadmits
  apply Yields.bind (hx fun e he => hadmits e he.bind)
  intro a ha
  have hrest := hf a fun e he => hadmits e (ha.fails_bind he)
  exact hrest.mono fun b hb => ha.bind hb

section

variable {known shown : String → Prop} {scope scope' : Expr.Scope Eval}

mutual

/-- An expression computes what its script does, where its names are read alike. -/
theorem eval (hscope : S.Scopes w known shown scope scope') : ∀ e : Expr, e.Reads known shown →
    S.Follows w (e.eval (.scripted scope.subject)) (e.eval scope) (e.eval scope')
  | .number value _, _ => by
      rw [Expr.eval, Expr.eval, Expr.eval]
      exact .pure _
  | .text value _, _ => by
      rw [Expr.eval, Expr.eval, Expr.eval]
      exact .pure _
  | .variable name _, hreads => by
      rw [Expr.eval, Expr.eval, Expr.eval, hscope.subject]
      split
      · exact .pure _
      · rename_i hname
        have hread := hscope.named name (hreads (eq_false_of_ne_true hname))
        exact .bind (.next hread) fun _ => .pure _
  | .placeholder name property _, hreads => by
      rw [Expr.eval, Expr.eval, Expr.eval]
      exact .bind (.next (hscope.placeholder name property hreads)) fun _ => .pure _
  | .unary op operand _, hreads => by
      rw [Expr.eval, Expr.eval, Expr.eval]
      exact .bind (eval hscope operand hreads) fun _ => .lift _
  | .binary op left right, hreads => by
      by_cases hand : op = .and
      · subst hand
        rw [Expr.eval, Expr.eval, Expr.eval]
        apply Follows.bind (eval hscope left hreads.1)
        intro a
        split
        · exact .bind (eval hscope right hreads.2) fun _ => .pure _
        · exact .pure _
      by_cases hor : op = .or
      · subst hor
        rw [Expr.eval, Expr.eval, Expr.eval]
        apply Follows.bind (eval hscope left hreads.1)
        intro a
        split
        · exact .pure _
        · exact .bind (eval hscope right hreads.2) fun _ => .pure _
      rw [Expr.eval_binary hand hor, Expr.eval_binary hand hor, Expr.eval_binary hand hor]
      exact .bind (eval hscope left hreads.1) fun a => .bind (eval hscope right hreads.2) fun b => .lift _
  | .call function arguments _, hreads => by
      rw [Expr.eval, Expr.eval, Expr.eval]
      exact .bind (evalNumbers hscope arguments hreads) fun values => .bind (.lift _) fun _ => .pure _

theorem evalNumbers (hscope : S.Scopes w known shown scope scope') :
    ∀ arguments : List Expr, Expr.AllRead known shown arguments →
    S.Follows w (Expr.evalNumbers (.scripted scope.subject) arguments)
      (Expr.evalNumbers scope arguments) (Expr.evalNumbers scope' arguments)
  | [], _ => by
      rw [Expr.evalNumbers, Expr.evalNumbers, Expr.evalNumbers]
      exact .pure _
  | e :: rest, hreads => by
      rw [Expr.evalNumbers, Expr.evalNumbers, Expr.evalNumbers]
      apply Follows.bind (eval hscope e hreads.1)
      intro v
      apply Follows.bind (.lift _)
      intro x
      exact .bind (evalNumbers hscope rest hreads.2) fun _ => .pure _

end

end

end Follows

namespace Yields

theorem lift_expr {α : Type} {P : α → Prop} {e : Except Failure α} (h : S.Settled P e) :
    S.Yields w P (Expr.lift e : Eval α) (Expr.lift e) := by
  cases e with
  | ok a => exact .pure (h.value a rfl)
  | error f => exact .throw (h.failure f rfl)

theorem eval (hS : S.Grounded) {known shown : String → Prop}
    {scope scope' : Expr.Scope Eval} (hscope : S.Scopes w known shown scope scope')
    {e : Expr} (hreads : e.Reads known shown)
    (he : S.material.calculation (.expression e)) :
    S.Related w (e.eval scope) (e.eval scope') := by
  have hfollows := Follows.eval hscope e hreads
  refine (hfollows fun f hf => ?_).related
  exact hS.calculation _ he f ⟨scope.subject, hf⟩

end Yields

/-! ## Answers -/

/-- Answers agree on a shared variable, where it is pending. -/
def Shares (S : Simulation) (a b : Answer) (w : Nesting) (name : String) : Prop :=
  ∀ p, w.shared.find name = .pending p →
    S.Related { w with shared := p.store }
      (a (.shared p.scope.owner p.scope.collectionId p.declaration))
      (b (.shared p.scope.owner p.scope.collectionId p.declaration))

/-- Answers to calls that agree wherever the calls may be made. -/
structure Answers (S : Simulation) (a b : Answer) : Prop where
  roll : ∀ {w} target target' excluded, S.Asking w → S.Targets w.frames target target' →
    S.Related w (a (.roll target excluded)) (b (.roll target' excluded))
  pattern : ∀ {w} text collectionId, S.Begun w → S.material.pattern text →
    S.Related w (a (.pattern text collectionId)) (b (.pattern text collectionId))
  shared : ∀ {w} name, S.Asking w → S.Shares a b w name
  /-- Variables in whose evaluation nothing is tolerated. -/
  harboured : ∀ {w} name, S.harbours name → S.Asking w → S.strict.Shares a b w name

/-! ## Variables -/

namespace Yields

section

variable {a b : Answer} (hS : S.Grounded)
include hS

theorem readShared {name : String} (hname : S.Shares a b w name) :
    S.Related w (Eval.readShared a name) (Eval.readShared b name) := by
  rintro c d hm
  obtain rfl := hm.nesting
  obtain ⟨v, hv, rfl⟩ := hm.twin
  simp only [Eval.readShared, Computation.get_bind_apply]
  cases hfind : c.shared.find name with
  | undeclared => exact .inr ⟨.ok trivial, rfl, hm⟩
  | illegal e => exact .inr ⟨.error (hS.ordinary _ (.declaration e)), rfl, hm⟩
  | known value => exact .inr ⟨.ok trivial, rfl, hm⟩
  | pending p =>
      have hcall := hname p.blank (SharedStore.find_blank hfind)
      exact (Agrees.settling hm hfind hcall).bind fun value _ => .pure trivial

theorem readVariable {name : String} (hname : S.Shares a b w name) (collectionId : String) :
    S.Related w (Eval.readVariable S.env a name collectionId)
      (Eval.readVariable S.second b name collectionId) := by
  refine .get_bind fun c v _ _ => ?_
  dsimp only
  split
  · exact .pure trivial
  · apply Yields.bind (.readShared hS hname)
    intro found _
    split
    · exact .pure trivial
    · rw [hS.static]
      split
      · exact .pure trivial
      · exact .throw (hS.ordinary _ (.resolution _))

theorem readImported (importAlias name collectionId : String) :
    S.Related w (Eval.readImported S.env importAlias name collectionId)
      (Eval.readImported S.second importAlias name collectionId) := by
  have hfound : S.Related w
      (Eval.liftResolution (S.env.registry.aliasedStatic importAlias name collectionId))
      (Eval.liftResolution (S.second.registry.aliasedStatic importAlias name collectionId)) := by
    change S.Related w _
      (Eval.liftResolution (S.registry.aliasedStatic importAlias name collectionId))
    rw [hS.aliased]
    exact .liftResolution hS fun _ _ => trivial
  apply Yields.bind hfound
  intro found _
  split
  · exact .pure trivial
  · exact .throw (hS.ordinary _ (.resolution _))

theorem readItems {name : String} (hname : S.Shares a b w name) (collectionId : String) :
    S.Related w (Eval.readItems S.env a name collectionId)
      (Eval.readItems S.second b name collectionId) := by
  refine .get_bind fun c v _ _ => ?_
  dsimp only
  split
  · exact .pure trivial
  · apply Yields.bind (.readShared hS hname)
    intro found _
    split
    · exact .pure trivial
    · rw [hS.static]
      split
      · exact .pure trivial
      · exact .throw (hS.ordinary _ (.resolution _))

theorem sortOfVariable (name collectionId : String) :
    S.Related w (Eval.sortOfVariable S.env name collectionId)
      (Eval.sortOfVariable S.second name collectionId) := by
  refine .get_bind fun c v _ _ => ?_
  dsimp only
  rw [hS.static]
  split
  · exact .pure trivial
  · split
    · exact .pure trivial
    · split
      · exact .pure trivial
      · exact .pure trivial

omit hS in
theorem nthItem (items : Captured) (index : Int) (name : String) :
    S.Related w (Eval.nthItem items index name) (Eval.nthItem items index name) := by
  unfold Eval.nthItem
  dsimp only
  split
  · exact .pure trivial
  · exact .bind (.log _ _) fun _ _ => .pure trivial

theorem readDotted {name : String} (hname : S.Shares a b w (Expr.rootOf name))
    (collectionId : String) :
    S.Related w (Eval.readDotted S.env a name collectionId)
      (Eval.readDotted S.second b name collectionId) := by
  unfold Eval.readDotted
  unfold Expr.rootOf at hname
  split
  · rename_i hdot
    rw [if_pos hdot] at hname
    dsimp only
    refine .get_bind fun c v _ _ => ?_
    dsimp only
    split
    · apply Yields.bind (.readItems hS hname _)
      intro items _
      split
      · exact .pure trivial
      · exact .pure trivial
    · exact .readImported hS _ _ _
  · rename_i hdot
    rw [if_neg hdot] at hname
    exact .readVariable hS hname _

end

/-! ## Placeholders -/

/-- A placeholder other than that of the entry being rolled calls for nothing. -/
theorem readPublished {a b : Answer} {name : String} (hname : name ≠ "self")
    (property : Option String) :
    S.Related w (Eval.readPlaceholder S.env a name property)
      (Eval.readPlaceholder S.second b name property) := by
  unfold Eval.readPlaceholder
  rw [if_neg hname, if_neg hname]
  refine .get_bind fun c v _ _ => ?_
  have hsame : { c with
      trace := v.trace, resolved := v.resolved, log := v.log, frames := v.frames }.placeholder?
        name property = c.placeholder? name property := rfl
  rw [hsame]
  split
  · exact .pure trivial
  · exact .bind (.log _ _) fun _ _ => .pure trivial

/-- A name that leads nowhere is empty, and a failure that is tolerated passes. -/
theorem orEmpty {x y : Eval String} {e : Expr} (h : S.Related w x y)
    (htolerated : ∀ f g, S.tolerates f g → f.Uncaught)
    (hpasses : S.Passes (Reading.condition e).Catches) :
    S.Related w (Eval.orEmpty x) (Eval.orEmpty y) := by
  refine .tryCatch h hpasses (fun f g htol => (htolerated f g htol).not_caught _)
    (fun f hf c => ?_) (fun f hf c => ?_) fun f hf => ?_
  · split
    · exact absurd ⟨_, rfl⟩ hf
    · rfl
  · split
    · exact absurd ⟨_, rfl⟩ hf
    · rfl
  · split
    · exact .pure trivial
    · exact .throw hf

end Yields

section

variable {a b : Answer} (hS : S.Lawful) (hab : S.Answers a b) (hw : S.Asking w)
include hS hab hw

/-- A description is evaluated one level deeper. -/
theorem Yields.readSelf (property : Option String) :
    S.Related w (Eval.readSelf S.env a property) (Eval.readSelf S.second b property) := by
  refine .get_bind fun c v hc hv => ?_
  obtain rfl := hc
  have hopen : ∀ f ∈ c.frames, S.material.Frame f := hw.2.1
  have hframes : List.Forall₂ S.Framed c.frames v.frames := hv.frames
  dsimp only
  generalize c.frames = frames at hopen hframes ⊢
  generalize v.frames = frames' at hframes ⊢
  cases hframes with
  | nil => exact .pure trivial
  | cons hframe _ =>
      obtain ⟨-⟩ := hframe
      dsimp only [List.head?_cons]
      split
      · refine .descending hS (hw.descends hS) fun hentered => ?_
        exact hab.pattern _ _ (hentered.begun hS) (hopen _ (.head _)).2
      · exact .pure trivial

theorem Yields.readPlaceholder (name : String) (property : Option String) :
    S.Related w (Eval.readPlaceholder S.env a name property)
      (Eval.readPlaceholder S.second b name property) := by
  by_cases hself : name = "self"
  · unfold Eval.readPlaceholder
    rw [if_pos hself, if_pos hself]
    exact .readSelf hS hab hw property
  · exact .readPublished hself property

/-! ## Scopes of expressions -/

/-- In a calculation every name has to lead somewhere. -/
theorem scopes_calculation (subject : Option String) (collectionId : String) :
    S.Scopes w (fun _ => True) (fun _ => True)
      (Eval.expressionScope S.env a true subject collectionId)
      (Eval.expressionScope S.second b true subject collectionId) where
  named _ _ := .readDotted hS.toGrounded (hab.shared _ hw) collectionId
  placeholder name property _ := .readPlaceholder hS hab hw name property
  subject := rfl

/-- Reading no more than harboured variables, nothing in a calculation is tolerated. -/
theorem scopes_harboured (subject : Option String) (collectionId : String) :
    S.strict.Scopes w S.harbours (· ≠ "self")
      (Eval.expressionScope S.env a true subject collectionId)
      (Eval.expressionScope S.second b true subject collectionId) where
  named _ hname := .readDotted hS.strict (hab.harboured _ hname hw) collectionId
  placeholder _ property hname := .readPublished hname property
  subject := rfl

/-- In a condition a name may lead nowhere. -/
theorem scopes_condition {e : Expr} (known : String → Prop)
    (hknown : ∀ name, known name → S.Passes (Reading.condition e).Catches ∨ S.harbours name)
    (subject : Option String) (collectionId : String) :
    S.Scopes w known (fun _ => True)
      (Eval.expressionScope S.env a false subject collectionId)
      (Eval.expressionScope S.second b false subject collectionId) where
  named name hname := by
    rcases hknown _ hname with hpasses | hharbours
    · exact .orEmpty (.readDotted hS.toGrounded (hab.shared _ hw) collectionId) hS.tolerated
        hpasses
    · have hread : S.strict.Related w (Eval.readDotted S.env a name collectionId)
          (Eval.readDotted S.second b name collectionId) :=
        .readDotted hS.strict (hab.harboured _ hharbours hw) collectionId
      exact .of_strict (.orEmpty (e := e) hread (fun _ _ => False.elim) fun _ _ => False.elim)
  placeholder name property _ := .readPlaceholder hS hab hw name property
  subject := rfl

/-- A condition holds in both settings or in neither. -/
theorem Yields.condition {e : Expr} (hcalculation : S.material.calculation (.expression e))
    (hreading : S.material.reading (.condition e)) (subject : Option String)
    (collectionId : String) :
    S.Related w (e.eval (Eval.expressionScope S.env a false subject collectionId))
      (e.eval (Eval.expressionScope S.second b false subject collectionId)) := by
  rcases hS.reading _ hreading with hpasses | hwithin
  · have hscope := scopes_condition hS hab hw (fun _ => True)
      (fun _ _ => .inl hpasses) subject collectionId
    exact .eval hS.toGrounded hscope e.reads_any hcalculation
  · have hscope := scopes_condition hS hab hw (e := e) S.harbours (fun _ => .inr) subject
      collectionId
    exact .eval hS.toGrounded hscope hwithin hcalculation

end

end Simulation

end RandomTables
