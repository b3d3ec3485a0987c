-- SUMMARY: What was asked before changes no result, unless a chain is too long; nor does tracing.
import RandomTables.Proofs.Engine.Caching
import RandomTables.Proofs.Engine.Reachable

/-!
# Isolated evaluations

All that one evaluation leaves to the next is the memory of resolved tables. An evaluation that
begins with a memory agrees with one that begins without any: where both remember a table, they
remember the same one, and where only one does, the other one resolves it and gets what is
remembered. The exception is a chain in which more tables extend each other than its collections
allow. It is refused where none of its tables is remembered, and accepted where enough of them are.
-/
namespace RandomTables

namespace Registry

/-- Resolves a table that is not remembered. -/
def inheritAnew (r : Registry) (config : Config) (fuel : Nat) (t : SimpleTable)
    (collectionId : String) (depth : Nat) (chain : List String) : Resolve SimpleTable := do
  let parentRef := t.parent.getD ""
  if parentRef.isEmpty then
    let resolved := t.identified
    Resolve.remember collectionId resolved
    return resolved
  else
    let limit := r.extensionLimit config collectionId
    if limit ≤ depth then
      throw (.error (.depth ⟨.inheritance, limit, chain ++ [parentRef]⟩))
    match ← Resolve.lift (r.find parentRef collectionId) with
    | some ⟨.table (.simple parent), parentCollection⟩ =>
      let parent ← inheritFrom r config fuel parent parentCollection (depth + 1) chain
      let resolved := t.laidOver parent
      Resolve.remember collectionId resolved
      Resolve.log .debug ("Resolved inheritance " ++ String.intercalate " -> " chain ++ " ("
        ++ toString resolved.entries.length ++ " entries)")
      return resolved
    | some ⟨.table other, _⟩ => throw (.resolution (.parentNotSimple parentRef other.sort))
    | _ => throw (.resolution (.unknownParent parentRef t.id))

theorem inheritFrom_apply (r : Registry) (config : Config) (fuel : Nat) (t : SimpleTable)
    (collectionId : String) (depth : Nat) (chain : List String) (s : Resolving) :
    r.inheritFrom config (fuel + 1) t collectionId depth chain s =
      match s.tables.lookup (collectionId, t.id) with
      | some resolved => (.ok resolved, s)
      | none => r.inheritAnew config fuel t collectionId depth (chain ++ [t.id]) s := by
  rw [inheritFrom, Computation.get_bind_apply]
  cases s.tables.lookup (collectionId, t.id) with
  | some resolved => rfl
  | none => rfl

end Registry

namespace Simulation

/-- The simulation of an evaluation that remembers less by one that remembers more. -/
def isolated (env : Surroundings) : Simulation where
  env
  registry := env.registry
  limit := env.config.maxRecursionDepth
  tracing := .same
  logged := False
  material := anything
  alike := fun _ t t' => t' = t
  remembers := env.registry.Beside
  recalls := env.registry.Known
  admits := fun _ => True
  tolerates := fun f _ => f.Overextends
  lasting := fun _ _ => id
  harbours := fun _ => False
  descends := fun _ => True
  asking := fun _ => True
  begun := fun _ => True
  entered := fun _ => True

variable {env : Surroundings}

/-! ## Resolving tables beside each other -/

section

variable (hr : env.registry.Distinct)
include hr

/-- Both runs come to what inheritance makes of the table with an id. -/
def Meets (r : Registry) (collectionId id : String) (tables : ResolvedTables)
    (resolved resolved' : SimpleTable) : Prop :=
  resolved' = resolved ∧ ∃ held, held.id = id ∧ r.Recollects tables collectionId held resolved

theorem inheritAnew_isolated {config : Config} {fuel depth : Nat} {t : SimpleTable}
    {collectionId : String} {chain : List String} (ht : env.registry.Holds collectionId t)
    (hparent : ∀ owner parent chain, env.registry.Holds owner parent →
      ¬ env.registry.extensionLimit config collectionId ≤ depth →
      (isolated env).Resolves (env.registry.Known · owner parent)
        (Meets env.registry owner parent.id)
        (env.registry.inheritFrom config fuel parent owner (depth + 1) chain)
        (env.registry.inheritFrom config fuel parent owner (depth + 1) chain)) :
    (isolated env).Resolves (fun _ => True) (Meets env.registry collectionId t.id)
      (env.registry.inheritAnew config fuel t collectionId depth chain)
      (env.registry.inheritAnew config fuel t collectionId depth chain) := by
  have htracks := Registry.tracks_inherits hr
  unfold Registry.inheritAnew
  dsimp only
  split
  · rename_i hnone
    rintro s s' hs -
    have hbeside : env.registry.Beside s.tables s'.tables := hs.tables
    have hown := htracks.own hbeside.left ht hnone
    have hlater := hbeside.remembering hown.1 (htracks.own hbeside.right ht hnone).1
    exact .inr ⟨.ok ⟨rfl, hown.2⟩, ⟨hlater, fun h => h.elim⟩,
      fun _ _ h => h.grows (List.suffix_cons _ _)⟩
  · rename_i hsome
    split
    · exact fun s s' hs _ => .inl ⟨_, rfl, _, rfl, rfl⟩
    · rename_i hlimit
      cases hfind : env.registry.find (t.parent.getD "") collectionId with
      | error e => exact .throw trivial
      | ok found =>
          rw [Resolve.lift_ok_bind]
          split
          · have hheld := Registry.holds_of_find hfind
            refine .bind ((hparent _ _ _ hheld hlimit).of_imp fun _ _ => .inl hheld) ?_
            rintro inherited _ - ⟨rfl, -⟩ s s' hs ⟨-, hmade⟩
            have hbeside : env.registry.Beside s.tables s'.tables := hs.tables
            obtain ⟨held, hid, hrecollects⟩ := hmade
            have hmade' : env.registry.Recollects s'.tables _ held _ :=
              ⟨hrecollects.holds, hrecollects.inherits, hbeside.covers _ hrecollects.remembered⟩
            have hextends := eq_false_of_ne_true hsome
            have hlaid := htracks.laid hbeside.left ht hextends hfind ⟨held, hid, hrecollects⟩
            have hlaid' := htracks.laid hbeside.right ht hextends hfind ⟨held, hid, hmade'⟩
            exact .inr ⟨.ok ⟨rfl, hlaid.2⟩, ⟨hbeside.remembering hlaid.1 hlaid'.1, fun h => h.elim⟩,
              fun _ _ h => h.grows (List.suffix_cons _ _)⟩
          · exact .throw trivial
          · exact .throw trivial

theorem inheritFrom_isolated {config : Config} {fuel depth : Nat} {t : SimpleTable}
    {collectionId : String} {chain : List String} (hdepth : depth ≤ env.registry.greatestLimit config)
    (hfuel : env.registry.greatestLimit config < fuel + depth) :
    (isolated env).Resolves (env.registry.Known · collectionId t)
      (Meets env.registry collectionId t.id)
      (env.registry.inheritFrom config fuel t collectionId depth chain)
      (env.registry.inheritFrom config fuel t collectionId depth chain) := by
  induction fuel generalizing t collectionId depth chain with
  | zero => omega
  | succ fuel ih =>
      intro s s' hs hknown
      have hbeside : env.registry.Beside s.tables s'.tables := hs.tables
      cases hright : s'.tables.lookup (collectionId, t.id) with
      | some found =>
          have hkeeps : Resolve.Keeps _ _ _
              (env.registry.inheritFrom config (fuel + 1) t collectionId depth chain) :=
            Registry.inheritFrom_keeps (Registry.tracks_inherits hr) hdepth hfuel
          obtain ⟨hkept, hgrows, hmade⟩ := hkeeps s hbeside.left hknown
          have harrives : Registry.Arrives s'.tables found
              (env.registry.inheritFrom config (fuel + 1) t collectionId depth chain s) :=
            Registry.inheritFrom_of_known hright hdepth hfuel hbeside hknown
          rw [Registry.inheritFrom_apply (s := s'), hright]
          rcases harrives with hover | ⟨hresult, hcovers⟩
          · exact .inl hover
          · rw [hresult] at hmade ⊢
            exact .inr ⟨.ok ⟨rfl, hmade⟩, ⟨⟨hkept, hbeside.right, hcovers⟩, fun h => h.elim⟩,
              fun _ _ h => h.grows hgrows⟩
      | none =>
          have hleft : s.tables.lookup (collectionId, t.id) = none := by
            refine Option.not_isSome_iff_eq_none.1 fun h => ?_
            have hcovered := hbeside.covers _ h
            rw [hright] at hcovered
            cases hcovered
          rw [Registry.inheritFrom_apply, Registry.inheritFrom_apply, hleft, hright]
          refine inheritAnew_isolated hr (hknown.holds hleft) (fun owner parent chain hheld hlimit =>
            ih ?_ ?_) s s' hs trivial
          · exact Nat.lt_of_not_le fun h =>
              hlimit (Nat.le_trans (env.registry.extensionLimit_le config _) h)
          · omega

/-! ## The simulation -/

theorem inherits_isolated (collectionId : String) (t t' : SimpleTable)
    (ht : (isolated env).Alike collectionId t t') :
    (isolated env).Resolves (fun tables => (isolated env).recalls tables collectionId t)
      (fun tables resolved resolved' => (isolated env).Alike collectionId resolved resolved' ∧
        (isolated env).recalls tables collectionId resolved)
      (env.registry.inherit env.base t collectionId)
      (env.registry.inherit env.base t' collectionId) := by
  obtain rfl := ht.alike
  refine (inheritFrom_isolated hr (Nat.zero_le _) (by omega)).mono ?_
  rintro tables resolved _ ⟨rfl, held, -, hmade⟩
  exact ⟨⟨simple_anything _, rfl, rfl⟩, .inr ⟨held, hmade⟩⟩

theorem lawful_isolated : (isolated env).Lawful where
  descends_of_asking _ h := h
  asking_of_begun _ h := h
  begun_of_entered _ h := h
  deeper _ _ _ _ := trivial
  scope _ _ _ _ _ _ _ _ _ _ _ := trivial
  assigned _ _ _ _ _ _ _ _ _ _ _ := trivial
  limit_le := Nat.le_refl _
  refused _ _ _ _ := .inr ⟨rfl, trivial⟩
  tolerated := by
    rintro _ _ ⟨d, rfl, -⟩
    exact .inr ⟨d, rfl⟩
  exhausted _ _ h := .inl h
  reading _ _ := .inl fun _ _ h => .inl h
  ordinary _ _ := trivial
  aliased _ _ _ := rfl
  static _ _ := rfl
  found := found_self rfl (registry_anything _).made (fun _ _ _ => rfl) fun _ _ _ h => .inl h
  inherits := inherits_isolated hr
  directive _ _ _ _ := ⟨fun _ _ => ⟨fun _ _ => trivial, fun _ _ => trivial⟩, fun _ _ => trivial⟩
  blank := trivial
  calculation _ _ _ _ := trivial
  width _ _ _ _ _ _ := trivial

/-- Answers agree, whatever is remembered. -/
theorem answers_isolated (fuel : Nat) :
    (isolated env).Answers (Eval.answerWithin env fuel) (Eval.answerWithin env fuel) := by
  induction fuel with
  | zero =>
      exact ⟨fun _ _ _ _ _ => .throw trivial, fun _ _ _ _ => .throw trivial,
        fun _ _ _ _ => .throw trivial, fun _ h => h.elim⟩
  | succ fuel ih =>
      have honce : (isolated env).Answers (Eval.answerOnce env (Eval.answerWithin env fuel))
          (Eval.answerOnce env (Eval.answerWithin env fuel)) :=
        Answers.once (lawful_isolated hr) ih (fun _ h => h) (fun _ h => h) (fun _ _ _ h _ => h)
          fun _ _ h => h.elim
      exact ⟨honce.roll, honce.pattern, honce.shared, honce.harboured⟩

end

end Simulation

/-- The report of an evaluation that came to a chain in which too many tables extend each other. -/
def Report.Overextends (r : Report) : Prop :=
  ∃ d, r.error = some (.depth d) ∧ d.what = .inheritance

namespace Engine

variable {e : Engine}

/-! ## Results -/

/-- An engine with the same collections and another memory. -/
abbrev recalling (e : Engine) (resolved : ResolvedTables) : Engine := { e with resolved }

/-- A reply shows nothing of what is remembered. -/
theorem result_reply (e e' : Engine) (collectionId : String) (request : Request)
    (segments : List Segment) (result : Except Failure Outcome) (c : Context)
    (resolved : ResolvedTables) (log : List LogRecord) (frames : List Frame) :
    (e'.reply collectionId request segments result { c with resolved, log, frames }).result =
      (e.reply collectionId request segments result c).result := by
  unfold reply
  dsimp only
  split <;> rfl

open Simulation in
/-- The runs of a request with different memories. -/
theorem run_of_beside (hr : e.registry.Distinct) {tables tables' : ResolvedTables}
    (hbeside : e.registry.Beside tables tables') (c : Collection) (request : Request)
    (options : Options) :
    (∃ f, ((e.recalling tables).run c request options).1.2 = .error f ∧ f.Overextends) ∨
      ∃ resolved log frames, (e.recalling tables').run c request options =
        (((e.recalling tables).run c request options).1,
          { ((e.recalling tables).run c request options).2 with resolved, log, frames }) := by
  let env := e.surroundings c
  let start := (e.recalling tables).freshContext request options c.document.statics.keys
  have hstart : (isolated env).Match start.nesting start { start with resolved := tables' } :=
    ⟨rfl, ⟨start.trace, tables', [], []⟩,
      ⟨rfl, hbeside, fun h => h.elim, .nil, fun _ hf => absurd hf List.not_mem_nil⟩, rfl⟩
  have hposed : (isolated env).Poses start.nesting request c.document options.shared :=
    ⟨fun _ _ => trivial, fun _ _ => ⟨⟨fun _ _ => ⟨trivial, trivial⟩, fun _ _ => trivial⟩, trivial,
      trivial, fun _ _ _ => trivial⟩, fun _ _ => trivial, rfl, rfl, fun _ _ _ _ _ => trivial⟩
  have hruns := Runs.complete (S := isolated env) (lawful_isolated hr)
    (answers_isolated hr (env.callBound options.shared)) hposed _ _ hstart
  rcases hruns with ⟨f, hf, hover⟩ | ⟨-, hresult, v, -, hmatch⟩
  · exact .inl ⟨f, eq_error_of_failed hf, hover⟩
  · obtain ⟨parts, hparts, hcontext⟩ := hmatch.twin
    refine .inr ⟨parts.resolved, parts.log, parts.frames, Prod.ext hresult (hcontext.trans ?_)⟩
    rw [show parts.trace = _ from hparts.trace]
    rfl

/-- An evaluation that begins with a memory gives what it gives with a smaller one, unless it comes to
a chain that is too long. -/
theorem result_of_beside (hr : e.registry.Distinct) {tables tables' : ResolvedTables}
    (hbeside : e.registry.Beside tables tables') (collectionId : String) (request : Request)
    (options : Options)
    (hfresh : ∀ report,
      ((e.recalling tables).evaluate collectionId request options).result = .ok report →
        ¬ report.Overextends) :
    ((e.recalling tables').evaluate collectionId request options).result =
      ((e.recalling tables).evaluate collectionId request options).result := by
  cases hc : e.registry.loaded collectionId with
  | error failure =>
      have hmissing : ∀ tables, (e.recalling tables).registry.loaded collectionId =
          .error failure := fun _ => hc
      rw [evaluate_of_missing (hmissing _), evaluate_of_missing (hmissing _)]
      exact result_reply _ (e.recalling tables') collectionId request [] _
        ((e.recalling tables).freshContext request options []) tables' [] []
  | ok c =>
      have hloaded : ∀ tables, (e.recalling tables).registry.loaded collectionId = .ok c :=
        fun _ => hc
      rw [evaluate_of_loaded (hloaded _)] at hfresh
      rw [evaluate_of_loaded (hloaded _), evaluate_of_loaded (hloaded _)]
      rcases run_of_beside hr hbeside c request options with
        ⟨f, hf, d, rfl, hd⟩ | ⟨resolved, log, frames, hrun⟩
      · rw [hf] at hfresh
        exact absurd ⟨d, rfl, hd⟩ (hfresh _ rfl)
      · rw [hrun]
        exact result_reply _ _ _ _ _ _ _ _ _ _

/-! ## Histories of requests -/

/-- An action that changes neither the collections nor how their imports are wired. -/
def Action.Asks : Action → Prop
  | .inherit _ _ | .members _ _ | .evaluate _ _ _ => True
  | _ => False

/-- Such an action leaves everything but the memory alone. -/
theorem after_of_asks {action : Action} (h : action.Asks) :
    ∃ resolved, e.after action = e.recalling resolved := by
  cases action with
  | inherit ref collectionId =>
      rw [after]
      split
      · exact ⟨_, rfl⟩
      · exact ⟨e.resolved, rfl⟩
  | members ref collectionId =>
      rw [after]
      split
      · exact ⟨_, rfl⟩
      · exact ⟨e.resolved, rfl⟩
  | evaluate collectionId request options =>
      rw [after, evaluate]
      split <;> exact ⟨_, reply_engine _ _ _ _ _ _⟩
  | load _ _ _ | loadDocument _ _ _ | tryLoad _ _ _ | unload _ | wireImports _ => exact h.elim

theorem afterAll_of_asks {history : List Action} (h : ∀ action ∈ history, action.Asks) :
    ∃ resolved, e.afterAll history = e.recalling resolved := by
  induction history generalizing e with
  | nil => exact ⟨e.resolved, rfl⟩
  | cons action rest ih =>
      rw [List.forall_mem_cons] at h
      obtain ⟨resolved, haction⟩ := after_of_asks (e := e) h.1
      obtain ⟨later, hrest⟩ := ih (e := e.after action) h.2
      exact ⟨later, hrest.trans (by rw [haction])⟩

/-- Such actions keep the memory faithful. -/
theorem Faithful.afterAll_of_asks (he : e.Faithful) (hr : e.registry.Distinct)
    {history : List Action} (h : ∀ action ∈ history, action.Asks) :
    (e.afterAll history).Faithful := by
  induction history generalizing e with
  | nil => exact he
  | cons action rest ih =>
      rw [List.forall_mem_cons] at h
      obtain ⟨resolved, haction⟩ := after_of_asks (e := e) h.1
      have hfaithful : (e.after action).Faithful := by
        refine he.after hr ?_
        rintro paths rfl
        exact h.1.elim
      refine ih hfaithful ?_ h.2
      rw [haction]
      exact hr

/-- Whatever was asked since the tables were forgotten, an evaluation gives what it gives where nothing
was asked before, unless there it reports a chain in which too many tables extend each other. -/
theorem evaluate_of_forgetful (he : e.Reachable) {history : List Action}
    (hhistory : ∀ action ∈ history, action.Asks) (collectionId : String) (request : Request)
    (options : Options)
    (hfresh : ∀ report, (e.forgetful.evaluate collectionId request options).result = .ok report →
      ¬ report.Overextends) :
    ((e.forgetful.afterAll history).evaluate collectionId request options).result =
      (e.forgetful.evaluate collectionId request options).result := by
  obtain ⟨resolved, hafter⟩ := afterAll_of_asks (e := e.forgetful) hhistory
  have hdistinct := he.orderly.distinct
  have hfaithful := (Faithful.forgetful e).afterAll_of_asks hdistinct hhistory
  rw [hafter] at hfaithful ⊢
  have hbeside : e.registry.Beside [] resolved :=
    ⟨Registry.remembers_nil, hfaithful, fun _ h => nomatch h⟩
  exact result_of_beside hdistinct hbeside collectionId request options hfresh

/-- A table that extends another one is rolled after that one was. -/
theorem evaluate_of_forgetful_after_parent :
    let origin : SimpleTable := { id := "t0", entries := [{ value := some "v" }] }
    let parent : SimpleTable := { id := "t1", parent := some "t0" }
    let heir : SimpleTable := { id := "t2", parent := some "t1" }
    let document : Document := {
      metadata := { name := "n", namespaceText := "c" }
      tables := [.simple origin, .simple parent, .simple heir] }
    let e : Engine := (({} : Engine).loadDocument "c" document none).engine
    let options : Options := { source := .ofDraws [0] }
    let history : List Action := [.evaluate "c" (.roll "t1") options]
    (e.Reachable ∧ (∀ action ∈ history, action.Asks) ∧
      (e.forgetful.afterAll history).resolved.length = 2 ∧
      ((e.forgetful.evaluate "c" (.roll "t2") options).result.toOption.map (·.text)) = some "v") ∧
    ((e.forgetful.afterAll history).evaluate "c" (.roll "t2") options).result =
      (e.forgetful.evaluate "c" (.roll "t2") options).result := by
  intro origin parent heir document e options history
  have he : e.Reachable := .loadDocument (.initial _) "c" document none
  have hasks : ∀ action ∈ history, action.Asks := List.forall_mem_singleton.2 trivial
  have hresult : (e.forgetful.evaluate "c" (.roll "t2") options).result.toOption.all
      (·.error.isNone) := by decide +kernel
  refine ⟨⟨he, hasks, by decide +kernel, by decide +kernel⟩,
    evaluate_of_forgetful he hasks "c" (.roll "t2") options ?_⟩
  rintro report hreport ⟨d, herror, -⟩
  rw [hreport] at hresult
  change report.error.isNone = true at hresult
  rw [herror] at hresult
  cases hresult

/-- Where only one table may extend another, a chain of three is refused, but rolled once the middle
one was. -/
theorem evaluate_accepted_after_parent :
    let origin : SimpleTable := { id := "t0", entries := [{ value := some "v" }] }
    let parent : SimpleTable := { id := "t1", parent := some "t0" }
    let heir : SimpleTable := { id := "t2", parent := some "t1" }
    let document : Document := {
      metadata := { name := "n", namespaceText := "c", maxInheritanceDepth := some 1 }
      tables := [.simple origin, .simple parent, .simple heir] }
    let e : Engine := (({} : Engine).loadDocument "c" document none).engine
    let options : Options := { source := .ofDraws [0] }
    let history : List Action := [.evaluate "c" (.roll "t1") options]
    let fresh := (e.forgetful.evaluate "c" (.roll "t2") options).result
    let later := ((e.forgetful.afterAll history).evaluate "c" (.roll "t2") options).result
    e.Reachable ∧ (∀ action ∈ history, action.Asks) ∧
    fresh.toOption.bind (·.error) = some (.depth ⟨.inheritance, 1, ["t2", "t1", "t0"]⟩) ∧
    later.toOption.map (·.text) = some "v" ∧ later.toOption.bind (·.error) = none ∧ later ≠ fresh := by
  intro origin parent heir document e options history fresh later
  have hfresh : fresh.toOption.bind (·.error) =
      some (.depth ⟨.inheritance, 1, ["t2", "t1", "t0"]⟩) := by decide +kernel
  have hlater : later.toOption.bind (·.error) = none := by decide +kernel
  refine ⟨.loadDocument (.initial _) "c" document none, List.forall_mem_singleton.2 trivial, hfresh,
    by decide +kernel, hlater, fun hsame => ?_⟩
  rw [hsame, hfresh] at hlater
  cases hlater

end Engine

/-! ## Tracing is transparent

No evaluation reads the trace that it records. So an evaluation runs beside itself with a trace that
records nothing, and both draw the same random numbers, resolve the same tables and end in the same
result. -/

/-- A report without its trace. -/
def Report.untraced (r : Report) : Report := { r with trace := none }

namespace Options

/-- The same options with a trace. -/
def traced (options : Options) : Options := { options with tracing := true }

/-- The same options without a trace. -/
def untraced (options : Options) : Options := { options with tracing := false }

end Options

/-- Two replies that differ in nothing but that the second one tells what happened. -/
structure Reply.Untraced (silent traced : Reply (Except Failure Report)) : Prop where
  result : silent.result = traced.result.map Report.untraced
  told : ∀ report, traced.result = .ok report → report.trace.isSome
  engine : silent.engine = traced.engine
  records : silent.records = traced.records

namespace Engine

open Simulation

variable (e : Engine) (request : Request) (options : Options)

/-- The same reply follows from contexts that differ in the trace. -/
theorem reply_untraced (collectionId : String) (segments : List Segment)
    (result : Except Failure Outcome) {c d : Context} (hd : d = { c with trace := d.trace })
    (htraced : c.trace.enabled = true) (hsilent : d.trace.enabled = false) :
    (e.reply collectionId request segments result d).Untraced
      (e.reply collectionId request segments result c) := by
  obtain ⟨trace, rfl⟩ : ∃ trace, d = { c with trace } := ⟨_, hd⟩
  cases result with
  | ok o =>
      refine ⟨congrArg Except.ok ?_, ?_, rfl, rfl⟩
      · simp only [Report.ofOutcome, Report.untraced, OpenTrace.conclude_eq_none hsilent]
        rfl
      · rintro _ ⟨⟩
        exact OpenTrace.isSome_conclude htraced (.str o.text) none
  | error f =>
      cases f with
      | error error =>
          refine ⟨congrArg Except.ok ?_, ?_, rfl, rfl⟩
          · simp only [Report.ofError, Report.untraced, OpenTrace.conclude_eq_none hsilent]
            rfl
          · rintro _ ⟨⟩
            exact OpenTrace.isSome_conclude htraced (.str "") (some error.message)
      | fault fault => exact ⟨rfl, fun _ h => (nomatch h), rfl, rfl⟩
      | outOfFuel => exact ⟨rfl, fun _ h => (nomatch h), rfl, rfl⟩

/-- Runs with and without a trace give the same result, and what they leave differs in the trace. -/
theorem run_untraced (c : Collection) :
    (e.run c request options.untraced).1 = (e.run c request options.traced).1 ∧
      (e.run c request options.untraced).2 =
        { (e.run c request options.traced).2 with
          trace := (e.run c request options.untraced).2.trace } ∧
      (e.run c request options.traced).2.trace.enabled = true ∧
      (e.run c request options.untraced).2.trace.enabled = false := by
  let env := e.surroundings c
  have hlevelled := levelled_anywhere env .silenced
  have hstart := hlevelled.bare
    (c := e.freshContext request options.traced c.document.statics.keys)
    (d := e.freshContext request options.untraced c.document.statics.keys) rfl ⟨rfl, rfl⟩ rfl rfl
    fun _ _ => simple_anything _
  have hanswers := hlevelled.answers (env.callBound options.shared)
  have hruns := hlevelled.complete hanswers trivial rfl rfl request c.document options.shared _ _ hstart
  rcases hruns with ⟨_, _, h⟩ | ⟨-, hresult, v, -, hmatch⟩
  · exact h.elim
  · exact ⟨hresult, hlevelled.eq_of_match hmatch, hmatch.traces⟩

/-- Whether a trace is recorded changes nothing in a reply but the trace itself, and the same random
numbers are drawn. The collections stay what they are. -/
theorem evaluate_untraced (collectionId : String) :
    (e.evaluate collectionId request options.untraced).Untraced
        (e.evaluate collectionId request options.traced) ∧
      (∀ tracing, (e.evaluate collectionId request { options with tracing }).engine.registry =
        e.registry) ∧
      ∀ c, (e.run c request options.untraced).1 = (e.run c request options.traced).1 ∧
        (e.run c request options.untraced).2.source = (e.run c request options.traced).2.source := by
  refine ⟨?_, fun _ => registry_evaluate e _ _ _, fun c => ?_⟩
  · cases hc : e.registry.loaded collectionId with
    | error failure =>
        rw [evaluate_of_missing hc, evaluate_of_missing hc]
        exact e.reply_untraced request collectionId [] _ rfl rfl rfl
    | ok c =>
        obtain ⟨hresult, hcontext, htraced, hsilent⟩ := e.run_untraced request options c
        rw [evaluate_of_loaded hc, evaluate_of_loaded hc, hresult]
        exact e.reply_untraced request collectionId _ _ hcontext htraced hsilent
  · obtain ⟨hresult, hcontext, -⟩ := e.run_untraced request options c
    exact ⟨hresult, by rw [hcontext]⟩

end Engine

end RandomTables
