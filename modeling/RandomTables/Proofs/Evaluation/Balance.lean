-- SUMMARY: Every operation closes what it opens, and evaluates only on levels within the limit.
import RandomTables.Proofs.Evaluation.Levels

/-!
# Balance

Whatever an operation of the evaluator opens is closed when it ends, be it in a value or in an
error. To tell what holds while it runs, calls are watched: one that is made where the depth is not
the number of open levels, or is over the limit, goes astray. As runs are the same whatever becomes
of calls that go astray, none does.
-/
namespace RandomTables

namespace Surroundings

/-- The depth is the number of open levels, which the limit allows. -/
def InStep (env : Surroundings) (depth : Nat) (chain : List String) : Prop :=
  depth = chain.length ∧ depth ≤ env.config.maxRecursionDepth

instance (env : Surroundings) (depth : Nat) (chain : List String) :
    Decidable (env.InStep depth chain) := inferInstanceAs (Decidable (_ ∧ _))

theorem InStep.deeper {env : Surroundings} {depth : Nat} {chain : List String} (label : String)
    (h : env.InStep depth chain) (hdepth : depth < env.config.maxRecursionDepth) :
    env.InStep (depth + 1) (label :: chain) :=
  ⟨congrArg Nat.succ h.1, hdepth⟩

end Surroundings

namespace Eval

/-- An evaluation that goes astray where levels are out of step. -/
def watched {α : Type} (env : Surroundings) (astray body : Eval α) : Eval α := fun c =>
  if env.InStep c.depth c.chain then body c else astray c

/-- The answers to calls of which each one is watched. -/
def watchedWithin (env : Surroundings) (astray : Answer) : Nat → {α : Type} → Call α → Eval α
  | 0, _, _ => throw .outOfFuel
  | fuel + 1, _, call =>
    watched env (astray call) (answerOnce env (watchedWithin env astray fuel) call)

end Eval

/-- What callers ask the evaluator to do. -/
inductive Operation : Type → Type where
  | pattern (text collectionId : String) : Operation String
  | directive (collectionId : String) (memory : Again) (d : Directive) :
    Operation (String × Again)
  /-- A roll of a table or the expansion of a template. -/
  | roll (target : Target) (excluded : List String) : Operation Outcome
  | rollMany (ref : String) (count : Nat) (collectionId : String) (unique : Bool) :
    Operation (List Outcome)
  | lookup (name collectionId : String) : Operation String
  | placeholder (name : String) (property : Option String) : Operation String

/-- The evaluation that an operation is. -/
def Operation.run (env : Surroundings) (answer : Answer) {α : Type} : Operation α → Eval α
  | .pattern text collectionId => Eval.evalPattern env answer text collectionId
  | .directive collectionId memory d => Eval.renderDirective env answer collectionId memory d
  | .roll target excluded => Eval.roll env answer target excluded
  | .rollMany ref count collectionId unique =>
    Eval.rollMany env answer ref count collectionId unique
  | .lookup name collectionId => Eval.readVariable env answer name collectionId
  | .placeholder name property => Eval.readPlaceholder env answer name property

namespace Simulation

/-! ## Watching -/

variable {env : Surroundings} {levels : Nat → List String → Prop} {a b : Answer}

theorem Yields.watched {S : Simulation} {w : Nesting} {α : Type} {P : α → Prop}
    {x y astray : Eval α} (h : S.Yields w P x y)
    (hw : S.env.InStep w.depth w.chain) :
    S.Yields w P x (Eval.watched S.env astray y) := by
  intro c d hm
  have hagrees := h c d hm
  obtain ⟨v, -, rfl⟩ := hm.twin
  obtain rfl := hm.nesting
  unfold Eval.watched
  split
  · exact hagrees
  · rename_i hastray
    exact absurd hw hastray

/-- Where levels are in step they stay so, and no call goes astray. -/
theorem answers_watched (env : Surroundings) (astray : Answer) (fuel : Nat) :
    (onLevels env .same env.InStep).Answers (Eval.answerWithin env fuel)
      (Eval.watchedWithin env astray fuel) := by
  have hlevelled : (onLevels env .same env.InStep).Levelled anything.Resolved (fun _ _ _ => True)
      env.InStep := levelled_onLevels fun _ _ => Surroundings.InStep.deeper
  induction fuel with
  | zero => exact hlevelled.exhausted
  | succ fuel ih =>
      have honce := hlevelled.once ih
      refine ⟨fun target target' excluded hw ht => ?_, fun text collectionId hw ht => ?_,
        fun name hw p hfind => ?_, fun _ h => h.elim⟩
      · obtain rfl := hlevelled.target_eq ht
        exact (honce.roll target' target' excluded hw ht).watched hw.1
      · exact (honce.pattern text collectionId hw ht).watched hw.1
      · exact (honce.shared name hw p hfind).watched hw.1

/-! ## Operations -/

section

variable {S : Simulation} {I : ResolvedTables → Prop} {K : ResolvedTables → String → SimpleTable → Prop}
  (h : S.Levelled I K levels) (hmaterial : S.material = anything)
  (hknown : ∀ tables collectionId t, K tables collectionId t)
include h hmaterial hknown

theorem Levelled.targets (frames : List Frame) (t : Target) : S.Targets frames t t := by
  obtain ⟨definition, owner⟩ := t
  have hblock : ∀ block, S.material.Block block := by rw [hmaterial]; exact block_anything
  cases definition with
  | template t => exact .template ⟨hblock _, h.lenient.pattern _⟩
  | table t =>
      cases t with
      | simple t =>
          refine .table (.simple (h.alikes owner ?_) (.inl fun tables => ?_))
          · rw [hmaterial]
            exact simple_anything t
          · rw [h.recalls]
            exact hknown tables owner t
      | composite t => exact .table (.composite (hblock _))
      | collection t => exact .table (.collection (hblock _))

/-- Operations agree with themselves wherever levels are as stated. -/
theorem Levelled.operation (hab : S.Answers a b) {w : Nesting} (hw : levels w.depth w.chain)
    {α : Type} (op : Operation α) : S.Related w (op.run S.env a) (op.run S.second b) := by
  have hS := h.lawful
  have hasking : S.Asking w := by
    refine ⟨(h.asking w.toReach).2 hw, ?_⟩
    rw [hmaterial]
    exact open_anything w
  cases op with
  | pattern text collectionId =>
      exact .evalPattern hS hab hasking (h.lenient.pattern text) collectionId
  | directive collectionId memory d =>
      have hmemory : Remembers S memory := by
        cases memory with
        | dice spec => exact h.lenient.calculation _
        | nothing | ref => trivial
      exact (Yields.renderDirective hS hab collectionId hasking hmemory
        ⟨fun k _ => h.lenient.calculation k, fun x _ => h.lenient.reading x⟩).related
  | roll target excluded =>
      exact .roll hS hab (hasking.descends hS) (h.targets hmaterial hknown _ target) excluded
  | rollMany ref count collectionId unique =>
      exact .rollMany hS hab hasking ref count collectionId unique
  | lookup name collectionId =>
      exact .readVariable hS.toGrounded (hab.shared name hasking) collectionId
  | placeholder name property => exact .readPlaceholder hS hab hasking name property

end

/-- A context beside itself. -/
theorem match_self (c : Context) : (onLevels env .same levels).Match c.nesting c c :=
  alone_onLevels.contexts rfl rfl (open_anything _) (fun _ _ => trivial) fun _ _ => simple_anything _

/-- With the same trace, what agrees is the same. -/
theorem Match.eq {w : Nesting} {c d : Context} (hm : (onLevels env .same levels).Match w c d) :
    d = c := alone_onLevels.eq_of_traced rfl hm

end Simulation

namespace Eval

open Simulation

/-- An operation leaves everything open that was open before and nothing else, whatever its
outcome is. If levels were in step, they are so at every call that is made, and in the body of every
level that is opened, which is one within the limit. -/
theorem balanced (env : Surroundings) (astray : Answer) (fuel : Nat) :
    (∀ {α : Type} (op : Operation α) (c : Context),
      (op.run env (answerWithin env fuel) c).2.nesting = c.nesting) ∧
    (∀ {α : Type} (op : Operation α) (c : Context), env.InStep c.depth c.chain →
      op.run env (watchedWithin env astray fuel) c = op.run env (answerWithin env fuel) c) ∧
    (∀ {α : Type} (label : String) (stray body : Eval α) (c : Context), c.depth = c.chain.length →
      descending env.config.maxRecursionDepth label (watched env stray body) c =
        descending env.config.maxRecursionDepth label body c) ∧
    ∀ (request : Request) (d : Document) (extra : Assoc String) (c : Context),
      env.InStep c.depth c.chain → c.frames = [] → c.shared.scopes = [] →
      request.complete env (watchedWithin env astray fuel) d extra c =
        request.complete env (answerWithin env fuel) d extra c := by
  have hself := (levelled_anywhere env .same).answers fuel
  have hwatched := answers_watched env astray fuel
  have hdeeper : Deepens env env.InStep := fun _ _ => Surroundings.InStep.deeper
  have hknown : ∀ (_ : ResolvedTables) (_ : String) (_ : SimpleTable), True :=
    fun _ _ _ => trivial
  refine ⟨fun op c => ?_, fun op c hc => ?_, fun label stray body c hc => ?_,
    fun request d extra c hc hframes hscopes => ?_⟩
  · rcases (levelled_anywhere env .same).operation rfl hknown hself trivial op c c (match_self c) with
      ⟨_, _, h⟩ | ⟨-, -, hmatch⟩
    · exact h.elim
    · exact hmatch.nesting
  · rcases (levelled_onLevels hdeeper).operation rfl hknown hwatched hc op c c (match_self c) with
      ⟨_, _, h⟩ | ⟨-, hresult, hmatch⟩
    · exact h.elim
    · exact Prod.ext hresult hmatch.eq
  · simp only [descending, Computation.get_bind_apply, Context.enterLevel]
    by_cases hdepth : env.config.maxRecursionDepth < c.depth + 1
    · rw [if_pos hdepth]
    · have hstep : env.InStep (c.depth + 1) (label :: c.chain) :=
        ⟨congrArg Nat.succ hc, Nat.not_lt.1 hdepth⟩
      rw [if_neg hdepth]
      simp only [bracket, watched, ExceptT.run, if_pos hstep]
  · have hblank : c.nesting.shared.scopes = [] := List.map_eq_nil_iff.2 hscopes
    have hruns := (levelled_onLevels hdeeper).complete hwatched (w := c.nesting) hc hframes hblank
      request d extra
    rcases hruns c c (match_self c) with ⟨_, _, h⟩ | ⟨-, hresult, v, -, hmatch⟩
    · exact h.elim
    · exact Prod.ext hresult hmatch.eq

/-- A template that expands itself is refused its third level, and both levels before are closed. -/
theorem balanced_of_endless_template :
    let template : Template := { id := "t", pattern := "\x7b\x7bt\x7d\x7d" }
    let document : Document :=
      { metadata := { name := "", namespaceText := "c" }, tables := [], templates := [template] }
    let config : Config := { maxRecursionDepth := 2 }
    let env : Surroundings := {
      registry := ⟨[{ id := "c", document }]⟩, base := config, config, collectionId := "c"
      statics := [] }
    let expansion : Operation Outcome := .roll ⟨.template template, "c"⟩ []
    let astray : Answer := fun {_} _ => throw .outOfFuel
    let run := expansion.run env (answerWithin env 9) {}
    (run.1.toOption.isNone ∧ run.2.log.length = 2 ∧ run.2.nesting = ({} : Context).nesting) ∧
    expansion.run env (watchedWithin env astray 9) {} = run ∧
    descending 2 "t" (watched env (throw .outOfFuel) get) {} = descending 2 "t" get {} ∧
    (Request.template "t").complete env (watchedWithin env astray 9) document [] {} =
      (Request.template "t").complete env (answerWithin env 9) document [] {} := by
  intro template document config env expansion astray run
  obtain ⟨hopen, hstep, hbody, hrequest⟩ := balanced env astray 9
  have hfresh : env.InStep 0 [] := ⟨rfl, Nat.zero_le _⟩
  refine ⟨⟨?_, ?_, hopen expansion {}⟩, hstep expansion {} hfresh, ?_, ?_⟩
  · decide +kernel
  · decide +kernel
  · exact hbody "t" (throw .outOfFuel) get {} rfl
  · exact hrequest (.template "t") document [] {} hfresh rfl rfl

end Eval

end RandomTables
