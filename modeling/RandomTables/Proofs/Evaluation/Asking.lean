-- SUMMARY: The calls that an evaluation makes, and what it records in between.
import RandomTables.Proofs.Evaluation.Tracking

/-!
# Asking

An evaluation depends on the answers to its calls. It asks for one of them if, with that one answer
taken away and all others left, it comes to something else: then it is out of fuel. A quiet
evaluation is put together from calls and from steps that record no description. So whatever is
recorded in its course is recorded while one of the calls that it asks for is answered, and no two
of them are answered at the same time.
-/
namespace RandomTables

/-- A call and the context in which it is made. -/
structure Question where
  {α : Type}
  call : Call α
  context : Context

open Classical in
/-- The answers but for the one to a question, which there is no fuel for. -/
noncomputable def Answer.without (answer : Answer) (q : Question) : Answer := fun {α} call c =>
  if (⟨call, c⟩ : Question) = q then ((.error .outOfFuel : Except Failure α), c) else answer call c

theorem Answer.without_self {α : Type} (answer : Answer) (call : Call α) (c : Context) :
    (answer.without ⟨call, c⟩ call c).1 = .error .outOfFuel := congrArg Prod.fst (if_pos rfl)

/-- In a context an evaluation asks a question if it comes to something else without an answer. -/
def Asks {α : Type} (x : Answer → Eval α) (answer : Answer) (c : Context) (q : Question) : Prop :=
  x (answer.without q) c ≠ x answer c

/-- Where the answer to a question ends. -/
def Question.ended (q : Question) (answer : Answer) : Context := (answer q.call q.context).2

/-- Something is recorded as the description of a number while a question is answered. -/
structure Question.Spans (q : Question) (answer : Answer) (i : Nat) : Prop where
  begun : q.context.descriptions.length ≤ i
  ended : i < (q.ended answer).descriptions.length

/-- Answers only add descriptions, and close the levels that they open. -/
structure Answer.Tidy (answer : Answer) : Prop where
  adds : ∀ {α : Type} (call : Call α) (c : Context),
    c.descriptions <+: (answer call c).2.descriptions
  level : ∀ {α : Type} (call : Call α) (c : Context), (answer call c).2.depth = c.depth

/-- There was fuel for all that was evaluated. -/
def Fueled {α : Type} (r : Except Failure α) : Prop := r ≠ .error .outOfFuel

/-- An evaluation, by the answers to its calls, that is put together from these and from steps that
record nothing. -/
inductive Quiet : {α : Type} → (Answer → Eval α) → Prop where
  | silent {α : Type} {x : Eval α} (hdescriptions : ∀ c, (x c).2.descriptions = c.descriptions)
    (hdepth : ∀ c, (x c).2.depth = c.depth) : Quiet fun _ => x
  /-- What follows an evaluation depends on its result, and passes a lack of fuel on. -/
  | ran {α β : Type} {x : Answer → Eval α} {f : Except Failure α → Answer → Eval β} (hx : Quiet x)
    (hf : ∀ r, Quiet (f r))
    (hpass : ∀ a c, (f (.error .outOfFuel) a c).1 = .error .outOfFuel) :
    Quiet fun a c => f (x @a c).1 @a (x @a c).2
  | look {α : Type} {f : Context → Answer → Eval α} (h : ∀ c, Quiet (f c)) :
    Quiet fun a c => f c @a c
  /-- What is evaluated between opening and closing. -/
  | within {α : Type} {x : Answer → Eval α} (hx : Quiet x) {opened : Context → Context}
    {closed : Except Failure α → Context → Context} (levels : Nat)
    (hopened : ∀ c, (opened c).descriptions = c.descriptions ∧ (opened c).depth = c.depth + levels)
    (hclosed : ∀ r c, (closed r c).descriptions = c.descriptions ∧
      (closed r c).depth = c.depth - levels) :
    Quiet fun a c => ((x @a (opened c)).1, closed (x @a (opened c)).1 (x @a (opened c)).2)
  | call {α : Type} (call : Call α) : Quiet fun a => a call

namespace Quiet

variable {α β : Type} {x : Answer → Eval α} {a : Answer} {c : Context} {q q' : Question} {i : Nat}

/-! ## Combinators -/

theorem result (r : Except Failure α) : Quiet fun _ c => (r, c) :=
  .silent (fun _ => rfl) fun _ => rfl

theorem pure (v : α) : Quiet fun _ => Pure.pure v := .result (.ok v)

theorem throw (f : Failure) : Quiet fun _ => (throw f : Eval α) := .result (.error f)

theorem bind {f : α → Answer → Eval β} (hx : Quiet x) (hf : ∀ v, Quiet (f v)) :
    Quiet fun a => x @a >>= fun v => f v @a := by
  refine .ran (f := fun r a c => ExceptT.bindCont (fun v => f v @a) r c) hx (fun r => ?_)
    fun _ _ => rfl
  cases r with
  | ok v => exact hf v
  | error e => exact .throw e

theorem get_bind {f : Context → Answer → Eval α} (h : ∀ c, Quiet (f c)) :
    Quiet fun a => (get >>= fun c => f c @a : Eval α) :=
  (Quiet.look h : Quiet fun a c => f c @a c)

theorem map (f : α → β) (hx : Quiet x) : Quiet fun a => f <$> x @a := by
  simp only [map_eq_pure_bind]
  exact hx.bind fun v => .pure (f v)

theorem tryCatch {f : Failure → Answer → Eval α} (hx : Quiet x) (hf : ∀ e, Quiet (f e))
    (hpass : ∀ a, f .outOfFuel a = MonadExcept.throw .outOfFuel) :
    Quiet fun a => MonadExcept.tryCatch (x @a) fun e => f e @a := by
  let handled (r : Except Failure α) (a : Answer) : Eval α :=
    MonadExcept.tryCatch (fun d => (r, d) : Eval α) fun e => f e @a
  have hhandled : ∀ r, Quiet (handled r) := by
    intro r
    cases r with
    | ok v => exact .pure v
    | error e => exact hf e
  have hran : Quiet fun a c => handled (x @a c).1 @a (x @a c).2 := by
    refine .ran hx hhandled fun a c => ?_
    change (f .outOfFuel a c).1 = _
    rw [hpass]
    rfl
  exact hran

theorem liftResolution (e : Except ResolutionFailure α) : Quiet fun _ => Eval.liftResolution e := by
  cases e with
  | ok v => exact .pure v
  | error f => exact .throw _

/-- A change of what an evaluation keeps for itself that records nothing. -/
theorem change {f : Context → Context} (h : OwnChange f)
    (hdescriptions : ∀ c, (f c).descriptions = c.descriptions) : Quiet fun _ => modify f := by
  refine .silent hdescriptions fun c => ?_
  cases h with
  | capture name items =>
      change (c.capture name items).depth = c.depth
      unfold Context.capture
      dsimp only
      split <;> rfl
  | _ => rfl

/-- In every context an evaluation may go another way. -/
theorem of_pointwise (h : ∀ c, ∃ y : Answer → Eval α, Quiet y ∧ ∀ a, x a c = y a c) : Quiet x := by
  choose y hquiet hsame using h
  have hx : x = fun a c => y c a c := funext fun a => funext fun c => hsame c a
  rw [hx]
  exact .look hquiet

/-- What closes may depend on where it was opened. -/
theorem bracket (levels : Nat) (opened : Context → Context)
    (close : Context → Except Failure α → Context → Context) (hx : Quiet x)
    (hopened : ∀ c, (opened c).descriptions = c.descriptions ∧ (opened c).depth = c.depth + levels)
    (hclosed : ∀ c r d, (close c r d).descriptions = d.descriptions ∧
      (close c r d).depth = d.depth - levels) :
    Quiet fun a c => Eval.bracket (opened c) (close c) (x @a) c :=
  .look (f := fun c a d => Eval.bracket (opened d) (close c) (x a) d) fun c =>
    .within hx levels hopened (hclosed c)

theorem descending (limit : Nat) (label : String) (hx : Quiet x) :
    Quiet fun a => Eval.descending limit label (x @a) := by
  refine .of_pointwise fun c => ?_
  by_cases h : limit < c.depth + 1
  · let refused : DepthFailure := ⟨.recursion, limit, (label :: c.chain).reverse⟩
    refine ⟨_, .result (.error (.error (.depth refused))), fun a => ?_⟩
    rw [Eval.descending_apply, if_pos h]
  · refine ⟨_, .bracket 1 (fun c => { c with depth := c.depth + 1, chain := label :: c.chain })
      (fun _ _ => Context.ascend) hx (fun _ => ⟨rfl, rfl⟩) fun _ _ _ => ⟨rfl, rfl⟩, fun a => ?_⟩
    rw [Eval.descending_apply, if_neg h]

theorem withFrame (frame : Frame) (hx : Quiet x) : Quiet fun a => Eval.withFrame frame (x @a) :=
  .bracket 0 (fun c => { c with frames := frame :: c.frames })
    (fun _ _ c => { c with frames := c.frames.drop 1 }) hx (fun _ => ⟨rfl, rfl⟩)
    fun _ _ _ => ⟨rfl, rfl⟩

theorem guarding (guard : String) (hx : Quiet x) : Quiet fun a => Eval.guarding guard (x @a) :=
  .bracket 0 (fun c => { c with guards := guard :: c.guards })
    (fun _ _ c => { c with guards := c.guards.drop 1 }) hx (fun _ => ⟨rfl, rfl⟩)
    fun _ _ _ => ⟨rfl, rfl⟩

theorem inScope (owner : String) (declarations : Option (Assoc String)) (collectionId : String)
    (hx : Quiet x) : Quiet fun a => Eval.inScope owner declarations collectionId (x @a) := by
  refine .of_pointwise fun c => ?_
  cases henter : c.shared.enter owner (declarations.getD []) collectionId with
  | error e =>
      refine ⟨_, .result (.error (.declaration e)), fun a => ?_⟩
      rw [Eval.inScope_apply, henter]
  | ok entered =>
      cases entered with
      | none =>
          refine ⟨x, hx, fun a => ?_⟩
          rw [Eval.inScope_apply, henter]
      | some entered =>
          refine ⟨_, .bracket 0 (fun c => { c with shared := entered.2 })
            (fun _ _ c => { c with shared := c.shared.leave }) hx (fun _ => ⟨rfl, rfl⟩)
            fun _ _ _ => ⟨rfl, rfl⟩, fun a => ?_⟩
          rw [Eval.inScope_apply, henter]

/-- What is evaluated inside a step of the trace. -/
theorem inside {f : Option Nat → Answer → Eval α} (hf : ∀ node, Quiet (f node))
    (begun : OpenTrace → Option Nat × OpenTrace) :
    Quiet fun a => (do Eval.inside (begun (← get).trace) fun node => f node @a) := by
  refine .of_pointwise fun c => ⟨_, .bracket 0 (fun c => { c with trace := (begun c.trace).2 })
    (fun _ r d => { d with trace := Eval.closeStep (begun c.trace).1 r d.trace })
    (hf (begun c.trace).1) (fun _ => ⟨rfl, rfl⟩) fun _ _ _ => ⟨rfl, rfl⟩, fun _ => rfl⟩

theorem atLevel (env : Surroundings) (id owner : String) (step : TraceStep)
    (shared : Option (Assoc String)) (collectionId : String) {f : Option Nat → Answer → Eval α}
    (hf : ∀ node, Quiet (f node)) :
    Quiet fun a => Eval.atLevel env id owner step shared collectionId fun node => f node @a :=
  .descending _ _ (.inside (fun node => .inScope _ shared collectionId (hf node)) fun trace =>
    trace.enter step)

theorem readShared (name : String) : Quiet fun a => Eval.readShared @a name := by
  refine .of_pointwise fun c => ?_
  cases hfind : c.shared.find name with
  | undeclared => exact ⟨_, .result _, fun a => by rw [Eval.readShared_apply, hfind]⟩
  | illegal e => exact ⟨_, .result _, fun a => by rw [Eval.readShared_apply, hfind]⟩
  | known value => exact ⟨_, .result _, fun a => by rw [Eval.readShared_apply, hfind]⟩
  | pending p =>
      have hbody := Quiet.bracket 0 (fun c => { c with shared := p.store })
        (fun _ result c => { c with shared := p.resume result.toOption c.shared })
        (.call (.shared p.scope.owner p.scope.collectionId p.declaration)) (fun _ => ⟨rfl, rfl⟩)
        fun _ _ _ => ⟨rfl, rfl⟩
      have hkept := hbody.bind fun value => .bind
        (.change (.record .debug .context
          ("Shared variable '" ++ p.declaration.name ++ "' evaluated in " ++ p.scope.owner))
          fun _ => rfl)
        fun _ => .pure (some value)
      refine ⟨_, hkept, fun a => ?_⟩
      rw [Eval.readShared_apply, hfind]
      rfl

/-- Evaluations in lockstep for every answer there is, of which none records anything, are quiet. -/
theorem of_lockstep {x : Answer → Eval α}
    (h : Lockstep (fun n => ∃ node, n = fun _ => node) False (fun a : Answer => a) x) :
    Quiet x := by
  induction h with
  | result r => exact .result r
  | bind _ _ hx hf => exact .bind hx hf
  | tryCatch _ _ hpass hx hf => exact .tryCatch hx hf (hpass _ (.inl rfl))
  | look _ _ h => exact .get_bind h
  | draw d => exact .silent (fun _ => rfl) fun _ => rfl
  | resolving x => exact .silent (fun _ => rfl) fun _ => rfl
  | change h _ hdescriptions => exact .change h hdescriptions
  | describe h _ _ _ _ => exact h.elim
  | mark h f =>
      obtain ⟨node, rfl⟩ := h
      exact .silent (fun _ => rfl) fun _ => rfl
  | recalling name found =>
      refine .of_pointwise fun c => ?_
      cases hname : c.instances.get? name with
      | some text =>
          refine ⟨_, .pure (text, true), fun a => ?_⟩
          rw [Eval.recalling, Computation.get_bind_apply, hname]
      | none =>
          have hrolled : Quiet fun a : Answer =>
              Eval.liftResolution found >>= fun target => a (.roll target []) :=
            .bind (.liftResolution found) fun target => .call _
          refine ⟨_, hrolled.bind fun outcome => .bind (.change (.instantiate name outcome.text)
            fun _ => rfl) fun _ => .pure (outcome.text, false), fun a => ?_⟩
          rw [Eval.recalling, Computation.get_bind_apply, hname]
  | descending limit label _ h => exact .descending limit label h
  | withFrame frame _ h => exact .withFrame frame h
  | guarding guard _ h => exact .guarding guard h
  | inScope owner declarations collectionId _ h => exact .inScope owner declarations collectionId h
  | traced step _ h => exact .inside (fun node => h _ ⟨node, rfl⟩) fun trace => trace.enter step
  | readShared name => exact .readShared name
  | callPattern text collectionId => exact .call _
  | callRoll target excluded => exact .call _

/-! ## The course of a quiet evaluation -/

/-- What answers keep, evaluations keep. -/
theorem tidy (hx : Quiet x) (ha : a.Tidy) (c : Context) :
    c.descriptions <+: (x a c).2.descriptions ∧ (x a c).2.depth = c.depth := by
  induction hx generalizing c with
  | silent hdescriptions hdepth => exact ⟨hdescriptions c ▸ List.prefix_rfl, hdepth c⟩
  | @ran _ _ x f _ _ _ hx hf =>
      obtain ⟨hfirst, hlevel⟩ := hx c
      obtain ⟨hsecond, hlevel'⟩ := hf (x a c).1 (x a c).2
      exact ⟨hfirst.trans hsecond, hlevel'.trans hlevel⟩
  | look _ h => exact h c c
  | @within _ x _ opened closed levels hopened hclosed hx =>
      obtain ⟨hinside, hlevel⟩ := hx (opened c)
      rw [(hopened c).1] at hinside
      rw [(hopened c).2] at hlevel
      dsimp only
      rw [(hclosed _ _).1, (hclosed _ _).2, hlevel, Nat.add_sub_cancel]
      exact ⟨hinside, rfl⟩
  | call call => exact ⟨ha.adds call c, ha.level call c⟩

/-- Where a question is asked in the course of an evaluation. -/
structure Reaches (a : Answer) (q : Question) (c : Context) (r : Except Failure α × Context) :
    Prop where
  begun : c.descriptions <+: q.context.descriptions
  ended : (q.ended a).descriptions <+: r.2.descriptions
  level : c.depth ≤ q.context.depth
  fueled : Fueled r.1 → Fueled (a q.call q.context).1

/-- Without an answer, an evaluation is out of fuel if it comes to asking for that answer, and is
the same if it does not. -/
theorem same_or_reaches (hx : Quiet x) (ha : a.Tidy) (q : Question) (c : Context) :
    x (a.without q) c = x a c ∨
      (x (a.without q) c).1 = .error .outOfFuel ∧ Reaches a q c (x a c) := by
  induction hx generalizing c with
  | silent _ _ => exact .inl rfl
  | @ran α β x f hquiet hrest hpass hx hf =>
      -- the answer is missed in the first part, in what follows, or not at all
      rcases hx c with hsame | ⟨hout, hreaches⟩
      · rcases hf (x a c).1 (x a c).2 with hthen | ⟨hout, hreaches⟩
        · exact .inl (by dsimp only; rw [hsame, hthen])
        · refine .inr ⟨by dsimp only; rw [hsame]; exact hout, ?_, hreaches.ended, ?_, ?_⟩
          · exact (hquiet.tidy ha c).1.trans hreaches.begun
          · exact (hquiet.tidy ha c).2 ▸ hreaches.level
          · exact hreaches.fueled
      · refine .inr ⟨by dsimp only; rw [hout]; exact hpass _ _, hreaches.begun, ?_,
          hreaches.level, fun hfueled => hreaches.fueled fun hfirst => ?_⟩
        · exact hreaches.ended.trans ((hrest _).tidy ha _).1
        · dsimp only at hfueled
          rw [hfirst] at hfueled
          exact hfueled (hpass _ _)
  | look _ h => exact h c c
  | @within _ x _ opened closed levels hopened hclosed hx =>
      rcases hx (opened c) with hsame | ⟨hout, hreaches⟩
      · exact .inl (by dsimp only; rw [hsame])
      · refine .inr ⟨hout, (hopened c).1 ▸ hreaches.begun, ?_, ?_, hreaches.fueled⟩
        · dsimp only
          rw [(hclosed _ _).1]
          exact hreaches.ended
        · exact Nat.le_trans (Nat.le.intro (hopened c).2.symm) hreaches.level
  | @call _ call =>
      by_cases h : (⟨call, c⟩ : Question) = q
      · subst h
        exact .inr ⟨a.without_self call c, List.prefix_rfl, List.prefix_rfl, Nat.le_refl _, id⟩
      · exact .inl (if_neg h)

/-- A question that is asked is reached. -/
theorem reaches (hx : Quiet x) (ha : a.Tidy) (h : Asks x a c q) : Reaches a q c (x a c) :=
  ((hx.same_or_reaches ha q c).resolve_left h).2

/-- An evaluation that has enough fuel asks what it is out of fuel without. -/
theorem asks_iff (hx : Quiet x) (ha : a.Tidy) (hfueled : Fueled (x a c).1) :
    Asks x a c q ↔ (x (a.without q) c).1 = .error .outOfFuel := by
  constructor
  · exact fun h => ((hx.same_or_reaches ha q c).resolve_left h).1
  · exact fun hout hsame => hfueled (hsame ▸ hout)

/-- What is evaluated at a level of its own asks its questions there. -/
theorem level_of_atLevel (env : Surroundings) {id owner : String} {step : TraceStep}
    {shared : Option (Assoc String)} {collectionId : String} {f : Option Nat → Answer → Eval α}
    (hf : ∀ node, Quiet (f node)) (ha : a.Tidy)
    (h : Asks (fun a => Eval.atLevel env id owner step shared collectionId fun node => f node a) a c
      q) : c.depth + 1 ≤ q.context.depth := by
  have hinside : Quiet fun a => Eval.traced step fun node =>
      Eval.inScope (owner ++ " '" ++ id ++ "'") shared collectionId (f node a) :=
    .inside (fun node => .inScope _ shared collectionId (hf node)) fun trace => trace.enter step
  rw [Asks, Eval.atLevel, Eval.atLevel, Eval.descending_apply, Eval.descending_apply] at h
  split_ifs at h with hlimit
  · exact absurd rfl h
  · let opened : Context := { c with depth := c.depth + 1, chain := id :: c.chain }
    have hasks : Asks (fun a => Eval.traced step fun node =>
        Eval.inScope (owner ++ " '" ++ id ++ "'") shared collectionId (f node a)) a opened q :=
      fun hsame =>
        h (congrArg (fun r : Except Failure α × Context => (r.1, r.2.ascend)) hsame)
    exact (hinside.reaches ha hasks).level

/-- Whatever is recorded is recorded while a question that is asked is answered. -/
theorem exists_spans (hx : Quiet x) (ha : a.Tidy) (hbegun : c.descriptions.length ≤ i)
    (hended : i < (x a c).2.descriptions.length) :
    ∃ q, (x (a.without q) c).1 = .error .outOfFuel ∧ q.Spans a i := by
  induction hx generalizing c with
  | silent hdescriptions _ =>
      rw [hdescriptions] at hended
      exact absurd hended (Nat.not_lt.2 hbegun)
  | @ran _ _ x f hquiet _ hpass hx hf =>
      by_cases hfirst : i < (x a c).2.descriptions.length
      · obtain ⟨q, hout, hspans⟩ := hx hbegun hfirst
        refine ⟨q, ?_, hspans⟩
        dsimp only
        rw [hout]
        exact hpass _ _
      · obtain ⟨q, hout, hspans⟩ := hf (x a c).1 (Nat.not_lt.1 hfirst) hended
        rcases hquiet.same_or_reaches ha q c with hsame | ⟨-, hreaches⟩
        · exact ⟨q, by dsimp only; rw [hsame]; exact hout, hspans⟩
        · exact absurd (Nat.lt_of_lt_of_le hspans.ended hreaches.ended.length_le) hfirst
  | look _ h => exact h c hbegun hended
  | @within _ x _ opened closed levels hopened hclosed hx =>
      dsimp only at hended
      rw [(hclosed _ _).1] at hended
      rw [← (hopened c).1] at hbegun
      exact hx hbegun hended
  | @call _ call => exact ⟨⟨call, c⟩, a.without_self call c, hbegun, hended⟩

/-- No two questions are answered while the same is recorded. -/
theorem spans_unique (hx : Quiet x) (ha : a.Tidy) (hfueled : Fueled (x a c).1)
    (hq : (x (a.without q) c).1 = .error .outOfFuel)
    (hq' : (x (a.without q') c).1 = .error .outOfFuel) (hspans : q.Spans a i)
    (hspans' : q'.Spans a i) : q = q' := by
  induction hx generalizing c with
  | silent _ _ => exact absurd hq hfueled
  | @ran _ _ x f hquiet hrest hpass hx hf =>
      dsimp only at hfueled hq hq'
      have hfirst : Fueled (x a c).1 := fun hout => hfueled (by rw [hout]; exact hpass _ _)
      -- the answers to questions of the second part begin where those of the first one have ended
      have hapart : ∀ {p p' : Question}, p.Spans a i → p'.Spans a i →
          Reaches a p c (x a c) → (f (x a c).1 (a.without p') (x a c).2).1 = .error .outOfFuel →
          False := by
        intro p p' hp hp' hreaches hout
        rcases (hrest (x a c).1).same_or_reaches ha p' (x a c).2 with hsame | ⟨-, hlater⟩
        · exact hfueled (hsame ▸ hout)
        · have hless := Nat.lt_of_lt_of_le hp.ended hreaches.ended.length_le
          have hmore := Nat.le_trans hlater.begun.length_le hp'.begun
          exact absurd hless (Nat.not_lt.2 hmore)
      rcases hquiet.same_or_reaches ha q c with hsame | ⟨hout, hreaches⟩ <;>
        rcases hquiet.same_or_reaches ha q' c with hsame' | ⟨hout', hreaches'⟩
      · rw [hsame] at hq
        rw [hsame'] at hq'
        exact hf _ hfueled hq hq'
      · rw [hsame] at hq
        exact (hapart hspans' hspans hreaches' hq).elim
      · rw [hsame'] at hq'
        exact (hapart hspans hspans' hreaches hq').elim
      · exact hx hfirst hout hout'
  | look _ h => exact h c hfueled hq hq'
  | within _ _ _ _ hx => exact hx hfueled hq hq'
  | @call _ call =>
      have hself : ∀ p : Question, (a.without p call c).1 = .error .outOfFuel →
          (⟨call, c⟩ : Question) = p := by
        intro p hout
        by_contra hne
        rw [Answer.without, if_neg hne] at hout
        exact hfueled hout
      exact (hself q hq).symm.trans (hself q' hq')

end Quiet

end RandomTables
