-- SUMMARY: Conditionals and whole requests agree in simulations.
import RandomTables.Engine.Request
import RandomTables.Proofs.Evaluation.Rendering

/-!
# Requests in simulations

A request opens the scope of its document, evaluates, and then applies the conditionals. A
conditional may assign a variable of the document, which no evaluation in between may do: so the
scope of the document grows from conditional to conditional, and nothing else is open then.
-/
namespace RandomTables

namespace Request

/-- What a request does in the scope of its document. -/
def completeIn (env : Surroundings) (answer : Answer) (request : Request) (d : Document) :
    StateM Context (List Segment × Except Failure Outcome) := do
  match ← request.perform env answer with
  | (segments, .error f) => return (segments, .error f)
  | (segments, .ok o) =>
    let (rendered, failure) ←
      Eval.amend env answer env.collectionId d.conditionals ⟨o.text, segments⟩
    match failure with
    | some f => return (rendered.segments, .error f)
    | none => return (rendered.segments, .ok { o with text := rendered.text })

theorem complete_apply (env : Surroundings) (answer : Answer) (request : Request) (d : Document)
    (extra : Assoc String) (c : Context) :
    request.complete env answer d extra c =
      match c.shared.pushDocument d.shared extra env.collectionId with
      | .error e => (([], .error (.declaration e)), c)
      | .ok (_, shared) => request.completeIn env answer d { c with shared } := by
  rw [complete, Computation.run_bind_apply, openDocument, Computation.get_bind_apply]
  cases c.shared.pushDocument d.shared extra env.collectionId with
  | error e => rfl
  | ok opened => rfl

end Request

namespace Eval

/-- The step of a conditional. -/
def stepOfConditional (c : Conditional) : TraceStep where
  kind := .conditional
  label := "When: " ++ c.condition
  raw := c.condition
  parsed := [("action", .str c.action.name)]

/-- What a conditional does inside its step. -/
def insideConditional (env : Surroundings) (answer : Answer) (collectionId : String)
    (c : Conditional) (text : String) (node : Option Nat) : Eval (Option Change) := do
  let scope := expressionScope env answer false (some text) collectionId
  let change ← if ← Expr.holdsIn scope c.condition then
      let value ← answer (.pattern c.value collectionId)
      some <$> changeOf c value text
    else pure none
  setValue node (.bool change.isSome)
  return change

theorem evalConditional_eq (env : Surroundings) (answer : Answer) (collectionId : String)
    (c : Conditional) (text : String) :
    evalConditional env answer collectionId c text =
      tracedApart (stepOfConditional c) (insideConditional env answer collectionId c text) := rfl

end Eval

namespace Simulation

variable {S : Simulation} {w : Nesting} {a b : Answer} {α : Type}

/-- Nothing is open but the level at hand and the scope of the document. -/
def Top (S : Simulation) (w : Nesting) : Prop := S.Entered w ∧ ∃ level, w.shared.scopes = [level]

/-- The stores in which nothing else is open. -/
abbrev Bare (S : Simulation) (w : Nesting) (s : SharedStore) : Prop := S.Top { w with shared := s }

/-- A conditional whose parts are made of the material. -/
structure Applies (S : Simulation) (c : Conditional) : Prop where
  condition : S.Settled
    (fun e => S.material.calculation (.expression e) ∧ S.material.reading (.condition e))
    (Expr.parse c.condition.toList)
  value : S.material.pattern c.value
  name : S.material.name (splitSign (c.target.getD "")).1
  target : c.action = .replace →
    ∀ f, Regex.parse (c.target.getD "").toList = .error (.breakdown f) → S.admits f

/-! ## Conditionals -/

theorem Yields.holdsIn (hS : S.Lawful) (hab : S.Answers a b) (hw : S.Asking w) {condition : String}
    (hc : S.Settled
      (fun e => S.material.calculation (.expression e) ∧ S.material.reading (.condition e))
      (Expr.parse condition.toList))
    (subject : Option String) (collectionId : String) :
    S.Related w
      (Expr.holdsIn (Eval.expressionScope S.env a false subject collectionId) condition)
      (Expr.holdsIn (Eval.expressionScope S.second b false subject collectionId) condition) := by
  apply Yields.bind (.lift_expr hc)
  rintro e ⟨hcalculation, hreading⟩
  apply Yields.next (.condition hS hab hw hcalculation hreading subject collectionId)
  exact fun _ => .pure trivial

theorem Yields.replaceMatches {pattern : String}
    (hp : ∀ f, Regex.parse pattern.toList = .error (.breakdown f) → S.admits f)
    (value text : String) :
    S.Related w (Eval.replaceMatches pattern value text)
      (Eval.replaceMatches pattern value text) := by
  unfold Eval.replaceMatches
  split
  · exact .pure trivial
  · refine .next (.change (fun _ => [_]) (fun _ => rfl) (fun _ => rfl) fun _ _ => rfl) fun _ => ?_
    exact .pure trivial
  · rename_i f hf
    exact .throw (hp f hf)

namespace Leads

/-- A variable of the document is assigned. -/
theorem assign (hS : S.Lawful) (hw : S.Top w) {name : String}
    (hname : S.material.name (splitSign name).1) (value : Content) :
    S.Leads w (S.Bare w) (fun _ => True)
      (do
        let shared ← Eval.liftDeclaration ((← get).shared.assign name value)
        modify fun c => { c with shared })
      (do
        let shared ← Eval.liftDeclaration ((← get).shared.assign name value)
        modify fun c => { c with shared }) := by
  rintro c d hm
  obtain ⟨v, hv, rfl⟩ := hm.twin
  obtain rfl := hm.nesting
  simp only [Computation.get_bind_apply]
  cases hassign : c.shared.assign name value with
  | error e =>
      exact .inr ⟨.error (hS.ordinary _ (.declaration e)), rfl, c.shared.blank, hw, hm⟩
  | ok shared =>
      refine .inr ⟨.ok trivial, rfl, shared.blank, ?_, ⟨rfl, v, hv, rfl⟩⟩
      obtain ⟨hentered, level, hlevel⟩ := hw
      obtain ⟨scope, hscopes, rfl⟩ := List.map_eq_singleton_iff.1 hlevel
      have hafter := hS.assigned _ _ _ _ _ _ _ hentered.1 hname hscopes hassign
      obtain ⟨scope', hscope', rfl⟩ := SharedStore.assign_eq_ok [] hscopes hassign
      refine ⟨⟨hafter, hentered.2.1, List.forall_mem_singleton.2 ?_⟩, _, rfl⟩
      have hmade : S.material.Scope scope := by
        refine hentered.2.2 scope.blank ?_
        rw [hlevel]
        exact List.mem_singleton_self _
      rcases hscope' with rfl | hdeclare
      · exact hmade
      · intro d hd
        change d ∈ scope'.declarations at hd
        rw [(SharedLevel.declare_eq_ok hdeclare).2, List.mem_append, List.mem_singleton] at hd
        rcases hd with hd | rfl
        · exact hmade d hd
        · exact hS.blank

variable (hS : S.Lawful) (hw : S.Top w) {c : Conditional} (hc : S.Applies c)
include hS hw hc

theorem changeOf (value text : String) :
    S.Leads w (S.Bare w) (fun _ => True) (Eval.changeOf c value text)
      (Eval.changeOf c value text) := by
  unfold Eval.changeOf
  dsimp only
  split
  · exact (Yields.pure trivial).leads hw
  · exact (Yields.pure trivial).leads hw
  · rename_i hreplace
    split
    · exact (Yields.pure trivial).leads hw
    · exact (Yields.replaceMatches (hc.target hreplace) value text).leads hw
  · split
    · have hassign := (Leads.assign hS hw hc.name (.text value)).bind (fun _ h => h)
        fun s _ hs _ => (Yields.pure (P := fun _ => True) (a := Change.keep) trivial).leads hs
      simpa only [bind_assoc] using hassign
    · exact (Yields.pure trivial).leads hw

theorem insideConditional (hab : S.Answers a b) (collectionId text : String) {n m : Option Nat}
    (hnode : S.tracing.steps n m) :
    S.Leads w (S.Bare w) (fun _ => True)
      (Eval.insideConditional S.env a collectionId c text n)
      (Eval.insideConditional S.second b collectionId c text m) := by
  have hbegun : S.Begun w := hw.1.begun hS
  have hfinish : ∀ s (change : Option Change), S.Bare w s →
      S.Leads { w with shared := s } (S.Bare w) (fun _ => True)
        (do
          Eval.setValue n (.bool change.isSome)
          return change)
        (do
          Eval.setValue m (.bool change.isSome)
          return change) := fun s change hs =>
    (Yields.next (.setValue hnode _) fun _ => .pure trivial).leads hs
  have hholds := Yields.holdsIn hS hab (hbegun.asking hS) hc.condition (some text) collectionId
  refine (hholds.leads hw).bind (fun _ h => h) fun s holds hs _ => ?_
  dsimp only
  split
  · have hvalue := hab.pattern c.value collectionId (w := { w with shared := s })
      (hs.1.begun hS) hc.value
    refine (hvalue.leads hs).bind (fun _ h => h) fun s value hs _ => ?_
    have hchange := changeOf (w := { w with shared := s }) hS hs hc value text
    simp only [map_eq_pure_bind, bind_assoc, pure_bind]
    exact hchange.bind (fun _ h => h) fun s change hs _ => hfinish s (some change) hs
  · rw [pure_bind]
    exact hfinish s none hs

theorem evalConditional (hab : S.Answers a b) (collectionId text : String) :
    S.Leads w (S.Bare w) (fun _ => True)
      (Eval.evalConditional S.env a collectionId c text)
      (Eval.evalConditional S.second b collectionId c text) :=
  .tracedApart (Eval.stepOfConditional c) fun _ _ steps hnode =>
    insideConditional (w := { w with steps }) hS hw hc hab collectionId text hnode

end Leads

/-! ## Runs -/

/-- A request whose parts are made of the material, in a context with no scope open. -/
structure Poses (S : Simulation) (w : Nesting) (request : Request) (d : Document)
    (extra : Assoc String) : Prop where
  pattern : ∀ text, request = .pattern text → S.material.pattern text
  conditionals : ∀ c ∈ d.conditionals, S.Applies c
  shared : ∀ p ∈ d.shared ++ extra, S.material.pattern p.2
  frames : w.frames = []
  scopes : w.shared.scopes = []
  entered : ∀ (before after : SharedStore) level, before.blank = w.shared →
    before.pushDocument d.shared extra S.env.collectionId = .ok (level, after) →
    S.entered { w with shared := after.blank }

/-- In the scope of its document a request has nothing else open. -/
theorem Poses.top {request : Request} {d : Document} {extra : Assoc String}
    (hposed : S.Poses w request d extra) {before after : SharedStore} {level : SharedLevel}
    (hpush : before.pushDocument d.shared extra S.env.collectionId = .ok (level, after))
    (hbefore : before.blank = w.shared) : S.Bare w after.blank := by
  obtain ⟨hafter, hlevel⟩ := SharedStore.pushDocument_eq_ok hpush
  have hscopes : after.blank.scopes = [level.blank] := by
    have hnone : before.scopes.map SharedLevel.blank = [] :=
      (congrArg SharedStore.scopes hbefore).trans hposed.scopes
    rw [hafter, List.map_eq_nil_iff.1 hnone]
    rfl
  have hmade : S.material.Scope level.blank := by
    refine SharedLevel.written_of_declareAll hlevel (fun d hd => absurd hd List.not_mem_nil)
      fun p hp d _ hpattern => ?_
    rw [hpattern]
    exact hposed.shared p hp
  refine ⟨⟨hposed.entered before after level hbefore hpush, ?_, ?_⟩, level.blank, hscopes⟩
  · intro f hf
    change f ∈ w.frames at hf
    rw [hposed.frames] at hf
    exact absurd hf List.not_mem_nil
  · change ∀ s ∈ after.blank.scopes, S.material.Scope s
    rw [hscopes]
    exact List.forall_mem_singleton.2 hmade

/-- What a request refers to. -/
theorem Lawful.target (hS : S.Lawful) (frames : List Frame) (ref : String) (wantsTemplate : Bool) :
    Looks (S.Targets frames)
      (Request.target S.env.registry S.env.collectionId ref wantsTemplate)
      (Request.target S.registry S.env.collectionId ref wantsTemplate) := by
  have hfound := hS.resolved frames ref S.env.collectionId
  unfold Request.target
  generalize S.env.registry.resolve ref S.env.collectionId = found at hfound ⊢
  generalize S.registry.resolve ref S.env.collectionId = found' at hfound ⊢
  cases hfound with
  | error e => exact .error e
  | ok h =>
      cases h with
      | table h =>
          cases wantsTemplate with
          | true => exact .error _
          | false => exact .ok (.table h)
      | template h =>
          cases wantsTemplate with
          | true => exact .ok (.template h)
          | false => exact .error _

namespace Runs

variable {β γ : Type} {R R' : Nesting → Prop} {failure? : β → Option Failure}
  {failure' : γ → Option Failure}

theorem mono {x y : StateM Context β} (hx : S.Runs w R failure? x y) (hR : ∀ v, R v → R' v) :
    S.Runs w R' failure? x y := by
  intro c d hm
  rcases hx c d hm with htol | ⟨hadmits, hresult, v, hv, hmatch⟩
  · exact .inl htol
  · exact .inr ⟨hadmits, hresult, v, hR v hv, hmatch⟩

theorem bind {x y : StateM Context γ} {f g : γ → StateM Context β}
    (hx : S.Runs w R failure' x y)
    (hf : ∀ v r, R v → (∀ e, failure' r = some e → S.admits e) →
      S.Runs v R' failure? (f r) (g r))
    (hleft : ∀ r e c, failure' r = some e → failure? (f r c).1 = some e)
    (hright : ∀ r e c, failure' r = some e → failure? (g r c).1 = some e) :
    S.Runs w R' failure? (x >>= f) (y >>= g) := by
  intro c d hm
  rw [StateM.bind_apply, StateM.bind_apply]
  rcases hx c d hm with ⟨e, he, htol⟩ | ⟨hadmits, hresult, v, hv, hmatch⟩
  · refine .inl ⟨e, hleft _ e _ he, ?_⟩
    cases he' : failure' (y d).1 with
    | none =>
        rw [he'] at htol
        exact S.lasting _ _ htol
    | some e' =>
        rw [hright _ e' _ he']
        rwa [he'] at htol
  · rw [hresult]
    exact hf v _ hv hadmits _ _ hmatch

/-- A result that is given after a record was logged. -/
theorem log (level : LogLevel) (logger : Logger) (message : String) {r : β}
    (hr : ∀ f, failure? r = some f → S.admits f) (hw : R w) :
    S.Runs w R failure?
      (do
        modify (Context.record level logger message)
        return r)
      (do
        modify (Context.record level logger message)
        return r) := by
  rintro c d hm
  obtain ⟨v, ⟨htrace, hresolved, hlog, hframes, hrecalled⟩, rfl⟩ := hm.twin
  refine .inr ⟨hr, rfl, w, hw, hm.nesting, { v with log := ⟨level, logger, message⟩ :: v.log }, ?_,
    rfl⟩
  exact ⟨htrace, hresolved, fun hlogged => congrArg (_ :: ·) (hlog hlogged), hframes, hrecalled⟩

variable (hS : S.Lawful) (hab : S.Answers a b)
include hS hab

theorem amendFrom (collectionId : String) {conditionals : List Conditional}
    (hconditionals : ∀ c ∈ conditionals, S.Applies c) (hw : S.Top w) (r : Rendered)
    (matched : Nat) :
    S.Runs w S.Top (fun r => failed? r.2)
      (Eval.amendFrom S.env a collectionId conditionals r matched)
      (Eval.amendFrom S.second b collectionId conditionals r matched) := by
  induction conditionals generalizing w r matched with
  | nil => exact .pure (fun _ h => nomatch h) hw
  | cons c rest ih =>
      rw [List.forall_mem_cons] at hconditionals
      have hchange := Leads.evalConditional hS hw hconditionals.1 hab collectionId r.text
      refine .run_bind hchange (fun s change hs _ => ?_) (fun s e hs he => ?_) (fun e c => rfl)
        fun e c => rfl
      · cases change with
        | none => exact ih hconditionals.2 hs r matched
        | some change => exact ih hconditionals.2 hs _ _
      · exact .pure (fun f hf => by cases hf; exact he) hs

theorem amend (collectionId : String) {conditionals : List Conditional}
    (hconditionals : ∀ c ∈ conditionals, S.Applies c) (hw : S.Top w) (r : Rendered) :
    S.Runs w S.Top Prod.snd (Eval.amend S.env a collectionId conditionals r)
      (Eval.amend S.second b collectionId conditionals r) := by
  refine .bind (amendFrom hS hab collectionId hconditionals hw r 0) ?_ (fun r e c he => ?_)
    fun r e c he => ?_
  · rintro v ⟨r, result⟩ hv hadmits
    cases result with
    | error f => exact .pure hadmits hv
    | ok matched => exact .log _ _ _ (fun _ h => nomatch h) hv
  all_goals
    obtain ⟨r, result⟩ := r
    cases result with
    | error f => exact he
    | ok matched => cases he

/-! ## Requests -/

theorem outcome (hw : S.Begun w) (ref : String) (wantsTemplate : Bool) :
    S.Related w (Request.outcome S.env a ref wantsTemplate)
      (Request.outcome S.second b ref wantsTemplate) := by
  apply Joins.bind (.liftResolution hS.toGrounded (hS.target _ ref wantsTemplate))
  intro target target' htarget
  exact hab.roll target target' [] (hw.asking hS) htarget

theorem perform {request : Request} (hw : S.Top w)
    (hpattern : ∀ text, request = .pattern text → S.material.pattern text) :
    S.Runs w S.Top (fun r => failed? r.2) (request.perform S.env a)
      (request.perform S.second b) := by
  have hbegun := hw.1.begun hS
  have hroll : ∀ ref wantsTemplate, S.Runs w S.Top (fun r => failed? r.2)
      (do return (([] : List Segment), ← (Request.outcome S.env a ref wantsTemplate).run))
      (do return ([], ← (Request.outcome S.second b ref wantsTemplate).run)) := by
    intro ref wantsTemplate
    have houtcome := (outcome hS hab hbegun ref wantsTemplate).leads (R := S.Bare w) hw
    refine .run_bind houtcome (fun s o hs _ => ?_) (fun s e hs he => ?_) (fun e c => rfl)
        fun e c => rfl
    · exact .pure (fun _ h => nomatch h) hs
    · exact .pure (fun f hf => by cases hf; exact he) hs
  cases request with
  | roll ref => exact hroll ref false
  | template ref => exact hroll ref true
  | pattern text =>
      have hrender := Runs.renderPattern hS hab (hbegun.asking hS) (hpattern text rfl)
        S.env.collectionId
      refine .mono (.map hrender fun r => ?_) fun v hv => hv ▸ hw
      unfold Rendering.text
      cases r.failure with
      | none => rfl
      | some f => rfl

theorem completeIn {request : Request} {d : Document} (hw : S.Top w)
    (hpattern : ∀ text, request = .pattern text → S.material.pattern text)
    (hconditionals : ∀ c ∈ d.conditionals, S.Applies c) :
    S.Runs w (fun _ => True) (fun r => failed? r.2) (request.completeIn S.env a d)
      (request.completeIn S.second b d) := by
  refine .bind (perform hS hab hw hpattern) ?_ (fun r e c he => ?_) fun r e c he => ?_
  · rintro v ⟨segments, result⟩ hv hadmits
    cases result with
    | error f => exact .pure hadmits trivial
    | ok o =>
        refine .bind (amend hS hab _ hconditionals hv _) ?_ (fun r e c he => ?_) fun r e c he => ?_
        · rintro v ⟨rendered, failure⟩ hv hadmits
          cases failure with
          | none => exact .pure (fun _ h => nomatch h) trivial
          | some f => exact .pure hadmits trivial
        all_goals
          obtain ⟨rendered, failure⟩ := r
          cases he
          rfl
  all_goals
    obtain ⟨segments, result⟩ := r
    cases result with
    | error f => exact he
    | ok o => cases he

theorem complete {request : Request} {d : Document} {extra : Assoc String}
    (hposed : S.Poses w request d extra) :
    S.Runs w (fun _ => True) (fun r => failed? r.2) (request.complete S.env a d extra)
      (request.complete S.second b d extra) := by
  intro c c' hm
  obtain ⟨v, hv, rfl⟩ := hm.twin
  obtain rfl := hm.nesting
  rw [Request.complete_apply, Request.complete_apply]
  dsimp only [second]
  cases hpush : c.shared.pushDocument d.shared extra S.env.collectionId with
  | error e =>
      refine .inr ⟨fun f hf => ?_, rfl, _, trivial, hm⟩
      cases hf
      exact hS.ordinary _ (.declaration e)
  | ok opened =>
      obtain ⟨level, shared⟩ := opened
      have htop := hposed.top hpush rfl
      exact completeIn hS hab htop hposed.pattern hposed.conditionals { c with shared }
        _ ⟨rfl, v, hv, rfl⟩

end Runs

end Simulation

end RandomTables
