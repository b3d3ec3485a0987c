-- SUMMARY: What is kept along a whole evaluation, from what each of its steps keeps.
import RandomTables.Proofs.Evaluation.ComposedPatterns

/-!
# Tracking

A `Tracking` says what holds of a context in which something is evaluated, what a finished
evaluation may have done to it, and what a context must still allow when the end is known in
advance. If every step keeps to that, whole evaluations do, and the calls they make are made in
contexts of which it holds. To say so without a record of the calls, calls made elsewhere are
answered by anything: evaluations do not notice.
-/
namespace RandomTables

/-! ## Opening and closing -/

/-- Opening a scope, or beginning a variable, and what closes it again. -/
inductive SharedStore.Opens : SharedStore → SharedStore → (SharedStore → SharedStore) → Prop where
  | scope {s s' : SharedStore} {owner collectionId : String} {declarations : Assoc String}
    {level : SharedLevel} (h : s.enter owner declarations collectionId = .ok (some (level, s'))) :
    Opens s s' SharedStore.leave
  | variable {s : SharedStore} {name : String} {p : Pending} (h : s.find name = .pending p)
    (value : Option Content) : Opens s p.store (p.resume value)

/-- Opening anything in a context, and what closes it again. -/
inductive Context.Opens : Context → Context → (Context → Context) → Prop where
  | level (c : Context) (label : String) :
    Opens c { c with depth := c.depth + 1, chain := label :: c.chain } Context.ascend
  | frame (c : Context) (frame : Frame) :
    Opens c { c with frames := frame :: c.frames } fun c => { c with frames := c.frames.drop 1 }
  | guard (c : Context) (guard : String) :
    Opens c { c with guards := guard :: c.guards } fun c => { c with guards := c.guards.drop 1 }
  | step (c : Context) (trace : OpenTrace) (close : OpenTrace → OpenTrace) :
    Opens c { c with trace } fun c => { c with trace := close c.trace }
  | shared {c : Context} {s : SharedStore} {close : SharedStore → SharedStore}
    (h : c.shared.Opens s close) :
    Opens c { c with shared := s } fun c => { c with shared := close c.shared }

namespace Eval

variable {α : Type}

theorem descending_apply (limit : Nat) (label : String) (body : Eval α) (c : Context) :
    descending limit label body c =
      if limit < c.depth + 1 then
        (.error (.error (.depth ⟨.recursion, limit, (label :: c.chain).reverse⟩)), c)
      else
        bracket { c with depth := c.depth + 1, chain := label :: c.chain } (fun _ => Context.ascend)
          body c := by
  rw [descending, Computation.get_bind_apply, Context.enterLevel]
  by_cases h : limit < c.depth + 1
  · simp only [if_pos h]
    rfl
  · simp only [if_neg h]

theorem inScope_apply (owner : String) (declarations : Option (Assoc String))
    (collectionId : String) (body : Eval α) (c : Context) :
    inScope owner declarations collectionId body c =
      match c.shared.enter owner (declarations.getD []) collectionId with
      | .error e => (.error (.declaration e), c)
      | .ok none => body c
      | .ok (some (_, shared)) =>
        bracket { c with shared } (fun _ c => { c with shared := c.shared.leave }) body c := by
  rw [inScope, Computation.get_bind_apply]
  rcases c.shared.enter owner (declarations.getD []) collectionId with _ | _ | _ <;> rfl

theorem traced_apply (step : TraceStep) (body : Option Nat → Eval α) (c : Context) :
    traced step body c =
      bracket { c with trace := (c.trace.enter step).2 }
        (fun r d => { d with trace := closeStep (c.trace.enter step).1 r d.trace })
        (body (c.trace.enter step).1) c := rfl

theorem readShared_apply (answer : Answer) (name : String) (c : Context) :
    readShared answer name c =
      match c.shared.find name with
      | .undeclared => (.ok none, c)
      | .illegal e => (.error (.declaration e), c)
      | .known value => (.ok (some value), c)
      | .pending p => (do
          let value ← bracket { c with shared := p.store }
            (fun result c => { c with shared := p.resume result.toOption c.shared })
            (answer (.shared p.scope.owner p.scope.collectionId p.declaration))
          modify (Context.record .debug .context
            ("Shared variable '" ++ p.declaration.name ++ "' evaluated in " ++ p.scope.owner))
          return some value : Eval (Option Content)) c := by
  rw [readShared, Computation.get_bind_apply]
  cases c.shared.find name with
  | undeclared => rfl
  | illegal e => rfl
  | known value => rfl
  | pending p =>
      simp only [settling, bind_assoc, Computation.get_bind_apply, pure_bind]

end Eval

/-! ## Trackings -/

structure Tracking where
  /-- What holds where something is evaluated. -/
  stands : Context → Prop
  /-- What evaluations do to the context until they end. -/
  leads : Context → Context → Prop
  /-- What holds of a context that the end, known in advance, can still be reached from. -/
  ends : Context → Prop

namespace Tracking

/-- Going on, opening and closing keep to a tracking. -/
structure Closed (T : Tracking) : Prop where
  refl : ∀ c, T.leads c c
  trans : ∀ c d e, T.leads c d → T.leads d e → T.leads c e
  stands : ∀ c d, T.stands c → T.leads c d → T.stands d
  ends : ∀ c d, T.stands c → T.leads c d → T.ends d → T.ends c
  opens : ∀ c d close, c.Opens d close → T.stands c → T.stands d
  closes : ∀ c d close e, c.Opens d close → T.stands c → T.leads d e → T.leads c (close e)
  /-- Where the end can be reached once something is closed, it can be reached before. -/
  inside : ∀ c d close e, c.Opens d close → T.stands c → T.leads d e → T.ends (close e) → T.ends e

/-- Every step of an evaluation keeps to a tracking. -/
structure Lawful (T : Tracking) (assigns : String → Prop) : Prop extends T.Closed where
  change : ∀ f, OwnChange f → ∀ c, T.leads c (f c)
  draw : ∀ c source, T.leads c { c with source }
  resolve : ∀ c resolved log, T.leads c { c with resolved, log }
  assign : ∀ c target value shared, T.stands c → assigns target →
    c.shared.assign target value = .ok shared → T.leads c { c with shared }

section

variable (T : Tracking) {α : Type}

/-- From a context an evaluation keeps to a tracking, and another one is the same if it can reach
the end. -/
def TracksFrom (x y : Eval α) (c : Context) : Prop :=
  T.leads c (x c).2 ∧ (T.ends (x c).2 → y c = x c)

def Tracks (x y : Eval α) : Prop := ∀ c, T.stands c → T.TracksFrom x y c

end

variable {T : Tracking} {assigns : String → Prop} {a b : Answer} {α β : Type} {c : Context}

/-- A step that makes no calls. -/
theorem Tracks.alone {x : Eval α} (h : ∀ c, T.stands c → T.leads c (x c).2) : T.Tracks x x :=
  fun c hc => ⟨h c hc, fun _ => rfl⟩

section

variable (hT : T.Closed)
include hT

theorem TracksFrom.stay (r : Except Failure α) :
    T.TracksFrom (fun c => (r, c)) (fun c => (r, c)) c := ⟨hT.refl c, fun _ => rfl⟩

/-- What follows an evaluation is tracked from where that one ended. -/
theorem TracksFrom.ran {x y : Eval α} {f g : Except Failure α → Eval β} (hc : T.stands c)
    (hx : T.TracksFrom x y c) (hf : ∀ r, T.Tracks (f r) (g r)) :
    T.TracksFrom (fun c => f (x c).1 (x c).2) (fun c => g (y c).1 (y c).2) c := by
  obtain ⟨hfirst, hsame⟩ := hx
  have hmiddle := hT.stands c _ hc hfirst
  obtain ⟨hsecond, hrest⟩ := hf (x c).1 (x c).2 hmiddle
  refine ⟨hT.trans _ _ _ hfirst hsecond, fun hends => ?_⟩
  dsimp only
  rw [hsame (hT.ends _ _ hmiddle hsecond hends)]
  exact hrest hends

theorem TracksFrom.bind {x y : Eval α} {f g : α → Eval β} (hc : T.stands c)
    (hx : T.TracksFrom x y c) (hf : ∀ v, T.Tracks (f v) (g v)) :
    T.TracksFrom (x >>= f) (y >>= g) c := by
  have hcont : ∀ r, T.Tracks (fun c => ExceptT.bindCont f r c) fun c => ExceptT.bindCont g r c := by
    intro r
    cases r with
    | ok v => exact hf v
    | error e => exact fun _ _ => .stay hT (.error e)
  exact .ran hT hc hx hcont

theorem Tracks.tryCatch {x y : Eval α} {f g : Failure → Eval α} (hx : T.Tracks x y)
    (hf : ∀ e, T.Tracks (f e) (g e)) : T.Tracks (tryCatch x f) (tryCatch y g) := by
  have hhandled : ∀ r : Except Failure α,
      T.Tracks (fun c => (MonadExcept.tryCatch (fun d => (r, d) : Eval α) f : Eval α) c)
        fun c => (MonadExcept.tryCatch (fun d => (r, d) : Eval α) g : Eval α) c := by
    intro r
    cases r with
    | ok v => exact fun _ _ => .stay hT (.ok v)
    | error e => exact hf e
  exact fun c hc => .ran hT hc (hx c hc) hhandled

/-- What runs between opening and closing is tracked. -/
theorem TracksFrom.bracket {x y : Eval α} (hc : T.stands c) (h : T.Tracks x y) {d : Context}
    {close : Except Failure α → Context → Context} (hopens : ∀ r, c.Opens d (close r)) :
    T.TracksFrom (Eval.bracket d close x) (Eval.bracket d close y) c := by
  obtain ⟨hleads, hsame⟩ := h d (hT.opens c d _ (hopens (x d).1) hc)
  refine ⟨hT.closes c d _ _ (hopens (x d).1) hc hleads, fun hends => ?_⟩
  have hinside := hT.inside c d _ _ (hopens (x d).1) hc hleads hends
  change ((y d).1, close (y d).1 (y d).2) = ((x d).1, close (x d).1 (x d).2)
  rw [hsame hinside]

theorem Tracks.inside {f g : Option Nat → Eval α} (h : ∀ node, T.Tracks (f node) (g node))
    (begun : OpenTrace → Option Nat × OpenTrace) :
    T.Tracks (do Eval.inside (begun (← get).trace) f)
      (do Eval.inside (begun (← get).trace) g) := fun c hc =>
  TracksFrom.bracket hT hc (h (begun c.trace).1) fun r =>
    .step c (begun c.trace).2 (Eval.closeStep (begun c.trace).1 r)

theorem Tracks.descending (limit : Nat) (label : String) {x y : Eval α} (h : T.Tracks x y) :
    T.Tracks (Eval.descending limit label x) (Eval.descending limit label y) := by
  intro c hc
  rw [TracksFrom, Eval.descending_apply, Eval.descending_apply]
  split
  · exact TracksFrom.stay hT _
  · exact TracksFrom.bracket hT hc h fun _ => .level c label

theorem Tracks.inScope (owner : String) (declarations : Option (Assoc String))
    (collectionId : String) {x y : Eval α} (h : T.Tracks x y) :
    T.Tracks (Eval.inScope owner declarations collectionId x)
      (Eval.inScope owner declarations collectionId y) := by
  intro c hc
  rw [TracksFrom, Eval.inScope_apply, Eval.inScope_apply]
  cases henter : c.shared.enter owner (declarations.getD []) collectionId with
  | error e => exact TracksFrom.stay hT _
  | ok entered =>
      cases entered with
      | none => exact h c hc
      | some opened => exact TracksFrom.bracket hT hc h fun _ => .shared (.scope henter)

/-- A shared variable is evaluated between beginning and settling it. -/
theorem Tracks.readShared
    (hrecord : ∀ level logger message c, T.leads c (Context.record level logger message c))
    (hab : ∀ owner collectionId d, T.Tracks (a (.shared owner collectionId d))
      (b (.shared owner collectionId d))) (name : String) :
    T.Tracks (Eval.readShared a name) (Eval.readShared b name) := by
  intro c hc
  rw [TracksFrom, Eval.readShared_apply, Eval.readShared_apply]
  cases hfind : c.shared.find name with
  | undeclared => exact TracksFrom.stay hT _
  | illegal e => exact TracksFrom.stay hT _
  | known value => exact TracksFrom.stay hT _
  | pending p =>
      have hbody := hab p.scope.owner p.scope.collectionId p.declaration
      have hsettled := TracksFrom.bracket hT hc hbody fun r => .shared (.variable hfind r.toOption)
      refine hsettled.bind hT hc fun value => ?_
      exact .alone fun c _ => hrecord _ _ _ c

end

/-- Evaluations that are put together in the same way are tracked if their calls are. -/
theorem Lawful.composed (hT : T.Lawful assigns)
    (hab : ∀ {α : Type} (call : Call α), T.Tracks (a call) (b call)) {x y : Eval α}
    (h : Composed assigns a b x y) : T.Tracks x y := by
  have hclosed := hT.toClosed
  induction h with
  | result r => exact fun _ _ => .stay hclosed r
  | ran _ _ hx hf => exact fun c hc => .ran hclosed hc (hx c hc) hf
  | get _ ih => exact fun c hc => ih c c hc
  | draw d => exact .alone fun c _ => hT.draw c _
  | resolving x => exact .alone fun c _ => hT.resolve c _ _
  | change hf => exact .alone fun c _ => hT.change _ hf c
  | @assigning target htarget value =>
      refine .alone fun c hc => ?_
      rw [Eval.assigning, Computation.get_bind_apply]
      cases hassign : c.shared.assign target value with
      | error e => exact hT.refl c
      | ok shared => exact hT.assign c target value shared hc htarget hassign
  | descending limit label _ ih => exact .descending hclosed limit label ih
  | withFrame frame _ ih => exact fun c hc => .bracket hclosed hc ih fun _ => .frame c frame
  | guarding guard _ ih => exact fun c hc => .bracket hclosed hc ih fun _ => .guard c guard
  | inScope owner declarations collectionId _ ih =>
      exact .inScope hclosed owner declarations collectionId ih
  | traced step _ ih => exact .inside hclosed ih fun trace => trace.enter step
  | tracedApart step _ ih => exact .inside hclosed ih fun trace => trace.enterApart step
  | readShared name =>
      exact .readShared hclosed (fun _ _ _ => hT.change _ (.record _ _ _)) (fun _ _ _ => hab _) name
  | callPattern text collectionId => exact hab _
  | callRoll target excluded => exact hab _

end Tracking

/-! ## Whole evaluations -/

namespace Eval

open Classical in
/-- The answers to calls, of which those that break a condition on their start and end go astray. An
evaluation that ends the same whatever becomes of them makes no such calls. -/
noncomputable def answerWhere (env : Surroundings) (P : Context → Context → Prop)
    (astray : Answer) : Nat → {α : Type} → Call α → Eval α
  | 0, _, _ => throw .outOfFuel
  | fuel + 1, _, call => fun c =>
    let answered := answerOnce env (answerWhere env P astray fuel) call c
    if P c answered.2 then answered else astray call c

theorem answerWithin_zero (env : Surroundings) {α : Type} (call : Call α) :
    answerWithin env 0 call = throw .outOfFuel := by
  cases call <;> rfl

theorem answerWithin_succ (env : Surroundings) (fuel : Nat) {α : Type} (call : Call α) :
    answerWithin env (fuel + 1) call = answerOnce env (answerWithin env fuel) call := by
  cases call <;> rfl

end Eval

/-- Whatever can be evaluated by the evaluator's own steps and by calls. -/
def Evaluation (assigns : String → Prop) {α : Type} (x : Answer → Eval α) : Prop :=
  ∀ a b : Answer, Composed assigns a b (x a) (x b)

namespace Tracking

variable {T : Tracking} {assigns : String → Prop} {env : Surroundings}
  {P : Context → Context → Prop}

/-- Answers to calls are tracked, however many calls may be open inside each other, if one answer is
as the calls that it makes are. -/
theorem Closed.answers (hT : T.Closed)
    (hP : ∀ c d, T.stands c → T.leads c d → T.ends d → P c d)
    (hstep : ∀ (fuel : Nat) (b : Answer),
      (∀ {α : Type} (call : Call α), T.Tracks (Eval.answerWithin env fuel call) (b call)) →
      ∀ {α : Type} (call : Call α),
        T.Tracks (Eval.answerOnce env (Eval.answerWithin env fuel) call)
          (Eval.answerOnce env b call))
    (astray : Answer) (fuel : Nat) {α : Type} (call : Call α) :
    T.Tracks (Eval.answerWithin env fuel call) (Eval.answerWhere env P astray fuel call) := by
  induction fuel generalizing α with
  | zero => cases call <;> exact fun _ _ => .stay hT _
  | succ fuel ih =>
      intro c hc
      rw [TracksFrom, Eval.answerWithin_succ, Eval.answerWhere]
      have honce := hstep fuel _ (fun call => ih call) call c hc
      refine ⟨honce.1, fun hends => ?_⟩
      have hanswered := honce.2 hends
      have hkept := hP c _ hc honce.1 hends
      rw [← hanswered] at hkept
      exact (if_pos hkept).trans hanswered

variable (hT : T.Lawful assigns) (hP : ∀ c d, T.stands c → T.leads c d → T.ends d → P c d)
  (astray : Answer)
include hT hP

theorem Lawful.answers (fuel : Nat) {α : Type} (call : Call α) :
    T.Tracks (Eval.answerWithin env fuel call) (Eval.answerWhere env P astray fuel call) :=
  hT.toClosed.answers hP (fun _ _ hab _ call => hT.composed hab (.answerOnce env call)) astray fuel
    call

/-- Whatever is evaluated is tracked. -/
theorem Lawful.evaluation {α : Type} {x : Answer → Eval α} (hx : Evaluation assigns x)
    (fuel : Nat) :
    T.Tracks (x (Eval.answerWithin env fuel)) (x (Eval.answerWhere env P astray fuel)) :=
  hT.composed (fun call => hT.answers hP astray fuel call) (hx _ _)

omit hP in
theorem Lawful.leads_answer (fuel : Nat) {α : Type} (call : Call α) {c : Context}
    (hc : T.stands c) : T.leads c (Eval.answerWithin env fuel call c).2 :=
  (hT.answers (P := fun _ _ => True) (fun _ _ _ _ _ => trivial) (Eval.answerWithin env fuel) fuel
    call c hc).1

omit hP in
theorem Lawful.leads_evaluation {α : Type} {x : Answer → Eval α} (hx : Evaluation assigns x)
    (fuel : Nat) {c : Context} (hc : T.stands c) :
    T.leads c (x (Eval.answerWithin env fuel) c).2 :=
  (hT.evaluation (P := fun _ _ => True) (fun _ _ _ _ _ => trivial) (Eval.answerWithin env fuel) hx
    fuel c hc).1

end Tracking

/-! ## Trackings of the store -/

/-- A tracking of the shared variables alone. -/
structure StoreTracking where
  stands : SharedStore → Prop
  leads : SharedStore → SharedStore → Prop
  ends : SharedStore → Prop

namespace StoreTracking

/-- Every step that concerns the shared variables keeps to a tracking. -/
structure Lawful (T : StoreTracking) (assigns : String → Prop) : Prop where
  refl : ∀ s, T.leads s s
  trans : ∀ s s' s'', T.leads s s' → T.leads s' s'' → T.leads s s''
  stands : ∀ s s', T.stands s → T.leads s s' → T.stands s'
  ends : ∀ s s', T.stands s → T.leads s s' → T.ends s' → T.ends s
  assign : ∀ s target value s', T.stands s → assigns target → s.assign target value = .ok s' →
    T.leads s s'
  opens : ∀ s s' close, s.Opens s' close → T.stands s → T.stands s'
  closes : ∀ s s' close e, s.Opens s' close → T.stands s → T.leads s' e → T.leads s (close e)
  inside : ∀ s s' close e, s.Opens s' close → T.stands s → T.leads s' e → T.ends (close e) →
    T.ends e

/-- The tracking of contexts by their shared variables. -/
def toTracking (T : StoreTracking) : Tracking where
  stands c := T.stands c.shared
  leads c d := T.leads c.shared d.shared
  ends c := T.ends c.shared

variable {T : StoreTracking} {assigns : String → Prop}

theorem Lawful.toTracking (hT : T.Lawful assigns) : T.toTracking.Lawful assigns where
  refl c := hT.refl c.shared
  trans _ _ _ := hT.trans _ _ _
  stands _ _ := hT.stands _ _
  ends _ _ := hT.ends _ _
  change f hf c := by
    have hsame : (f c).shared = c.shared := by
      cases hf with
      | capture name items =>
          unfold Context.capture
          dsimp only
          split <;> rfl
      | _ => rfl
    change T.leads c.shared (f c).shared
    rw [hsame]
    exact hT.refl _
  draw c _ := hT.refl c.shared
  resolve c _ _ := hT.refl c.shared
  assign _ _ _ _ := hT.assign _ _ _ _
  opens c d close h hc := by
    cases h with
    | shared h => exact hT.opens _ _ _ h hc
    | _ => exact hc
  closes c d close e h hc hleads := by
    cases h with
    | shared h => exact hT.closes _ _ _ _ h hc hleads
    | _ => exact hleads
  inside c d close e h hc hleads hends := by
    cases h with
    | shared h => exact hT.inside _ _ _ _ h hc hleads hends
    | _ => exact hends

end StoreTracking

end RandomTables
