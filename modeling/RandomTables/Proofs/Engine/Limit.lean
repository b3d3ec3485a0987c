-- SUMMARY: The limit on levels refuses levels and does nothing else.
import RandomTables.Proofs.Evaluation.Balance
import RandomTables.Proofs.Evaluation.Budget

/-!
# The limit on levels

An evaluation under a limit runs beside itself under a higher one. The two are the same up to the
first level that only the lower limit refuses, and no handler catches the failure of a refused
level, so that it ends the evaluation. The failure lists the levels that are open and the refused
one, and as levels are in step those are as many as the limit allows.
-/
namespace RandomTables

/-- The surroundings with another limit on levels. -/
def Surroundings.limitedTo (env : Surroundings) (limit : Nat) : Surroundings :=
  { env with config := { env.config with maxRecursionDepth := limit } }

/-- An evaluation that ended at the limit on levels. -/
def Report.OverLimit (r : Report) : Prop := ∃ d, r.error = some (.depth d) ∧ d.what = .recursion

/-- A failure that lists as many levels as the limit allows and the refused one, beginning with
those that were open, the outermost first. -/
structure DepthFailure.Lists (d : DepthFailure) (limit : Nat) (chain : List String) : Prop where
  reached : d.limit = limit
  length : d.chain.length = limit + 1
  outermost : chain.reverse <+: d.chain

namespace Simulation

variable {env : Surroundings}

/-! ## Higher limits -/

/-- The simulation of an evaluation by itself under another limit on levels. What the limit of the
first setting refuses is tolerated. -/
def limited (env : Surroundings) (limit : Nat) : Simulation :=
  { onLevels env .same fun _ _ => True with
    limit
    tolerates := fun f _ => f.OverLimit
    lasting := fun _ _ => id }

theorem levelled_limited {limit : Nat} (hlimit : env.config.maxRecursionDepth ≤ limit) :
    (limited env limit).Levelled anything.Resolved (fun _ _ _ => True) fun _ _ => True where
  toAlone := ⟨rfl, trivial, fun _ _ _ => .rfl, fun _ _ => .rfl, rfl, registry_anything _⟩
  lenient := Material.lenient_ofNames _
  name _ := trivial
  descends _ := .rfl
  asking _ := .rfl
  begun _ := .rfl
  entered _ := .rfl
  deepens _ _ _ _ _ := trivial
  harbours _ := id
  limit_le := hlimit
  admits _ _ := trivial
  tolerates _ _ h := ⟨h, h⟩
  refused _ _ _ _ _ := .inl ⟨_, rfl, rfl⟩

/-- A request that does not come to the limit gives the same under a higher one. -/
theorem complete_limited (env : Surroundings) {c : Collection}
    (hc : c ∈ env.registry.collections) (request : Request) (extra : Assoc String) (start : Context) (hdepth : start.depth = 0)
    (hframes : start.frames = []) (hscopes : start.shared.scopes = [])
    (hresolved : ∀ t ∈ start.resolved, env.registry.Derived t.2) {limit : Nat}
    (hlimit : env.config.maxRecursionDepth ≤ limit)
    (hwithin : ∀ f, (request.complete env (env.answer extra) c.document extra start).1.2 = .error f →
      ¬ f.OverLimit) :
    request.complete (env.limitedTo limit) ((env.limitedTo limit).answer extra) c.document extra
        start =
      request.complete env (env.answer extra) c.document extra start := by
  have hlevelled := levelled_limited hlimit
  -- Both runs are compared with the fuel that suffices for either.
  let fuel := max (env.callBound extra) ((env.limitedTo limit).callBound extra)
  have hlower := (Engine.complete_settles env hc request extra start hdepth hframes hscopes
    hresolved (Nat.le_max_left _ _ : _ ≤ fuel)).2
  have hhigher := (Engine.complete_settles (env.limitedTo limit) hc request extra start hdepth
    hframes hscopes hresolved (Nat.le_max_right _ _ : _ ≤ fuel)).2
  have hruns := hlevelled.complete (hlevelled.answers fuel) trivial hframes
    (List.map_eq_nil_iff.2 hscopes) request c.document extra _ _
    (hlevelled.bare rfl rfl hframes hscopes fun _ _ => simple_anything _)
  rw [← hhigher, ← hlower]
  rw [← hlower] at hwithin
  rcases hruns with ⟨f, hf, hover⟩ | ⟨-, hresult, v, -, hmatch⟩
  · exact absurd hover (hwithin f (eq_error_of_failed hf))
  · exact Prod.ext hresult (hlevelled.eq_of_traced rfl hmatch)

/-! ## Refused levels -/

/-- The simulation of an evaluation by itself in which some levels are open. At the limit it admits
only failures that list these levels. -/
def listing (env : Surroundings) (chain : List String) : Simulation :=
  { onLevels env .same fun depth inner => env.InStep depth inner ∧ chain <:+ inner with
    admits := fun f => ∀ d, f = .error (.depth d) → d.what = .recursion →
      d.Lists env.config.maxRecursionDepth chain }

theorem levelled_listing (env : Surroundings) (chain : List String) :
    (listing env chain).Levelled anything.Resolved (fun _ _ _ => True)
      fun depth inner => env.InStep depth inner ∧ chain <:+ inner where
  toAlone := ⟨rfl, trivial, fun _ _ _ => .rfl, fun _ _ => .rfl, rfl, registry_anything _⟩
  lenient := Material.lenient_ofNames _
  name _ := trivial
  descends _ := .rfl
  asking _ := .rfl
  begun _ := .rfl
  entered _ := .rfl
  deepens _ _ label h hdepth := ⟨h.1.deeper label hdepth, h.2.trans (List.suffix_cons _ _)⟩
  harbours _ := id
  limit_le := Nat.le_refl _
  admits _ hf d hd hwhat := absurd ⟨d, hd, hwhat⟩ hf
  tolerates _ _ := False.elim
  refused depth inner label h hdepth := by
    refine .inr ⟨rfl, ?_⟩
    rintro _ ⟨⟩ -
    obtain ⟨⟨hstep, hle⟩, hsuffix⟩ := h
    refine ⟨rfl, ?_, List.reverse_prefix.2 (hsuffix.trans (List.suffix_cons _ _))⟩
    rw [List.length_reverse, List.length_cons, ← hstep]
    exact congrArg Nat.succ (Nat.le_antisymm hle (Nat.not_lt.1 hdepth))

end Simulation

namespace Eval

open Simulation

/-- A level that is opened at the limit is refused with the labels of all open levels and its own. -/
theorem descending_refused {env : Surroundings} {α : Type} (label : String) (body : Eval α)
    {c : Context} (h : ¬ c.depth < env.config.maxRecursionDepth) :
    descending env.config.maxRecursionDepth label body c =
      (.error (.error (.depth
        ⟨.recursion, env.config.maxRecursionDepth, (label :: c.chain).reverse⟩)), c) := by
  have hrefused : env.config.maxRecursionDepth < c.depth + 1 := by omega
  simp only [descending, Computation.get_bind_apply, Context.enterLevel, if_pos hrefused]
  rfl

/-- Where an operation ends at the limit, the levels it was called in are listed first. -/
theorem lists_of_operation {env : Surroundings} (fuel : Nat) {α : Type} (op : Operation α)
    {c : Context} (hc : env.InStep c.depth c.chain) {d : DepthFailure}
    (hfails : (op.run env (answerWithin env fuel) c).1 = .error (.error (.depth d)))
    (hwhat : d.what = .recursion) : d.Lists env.config.maxRecursionDepth c.chain := by
  have hlevelled := levelled_listing env c.chain
  have hrun := hlevelled.operation rfl (fun _ _ _ => trivial) (hlevelled.answers fuel)
    (w := c.nesting) ⟨hc, List.suffix_refl _⟩ op c c
    (hlevelled.contexts rfl rfl (open_anything _) (fun _ _ => trivial) fun _ _ => simple_anything _)
  rcases hrun with ⟨_, _, h⟩ | ⟨hsettled, -, -⟩
  · exact h.elim
  · exact hsettled.failure _ hfails d rfl hwhat

end Eval

namespace Engine

open Simulation

variable (e : Engine) (limit : Nat) (collectionId : String) (request : Request) (options : Options)

/-- Evaluates a request in a loaded collection under another limit on levels. -/
def runUnder (c : Collection) : (List Segment × Except Failure Outcome) × Context :=
  let env := (e.surroundings c).limitedTo limit
  (request.complete env (env.answer options.shared) c.document options.shared).run
    (e.freshContext request options c.document.statics.keys)

/-- Evaluates a request in a collection under another limit on levels. -/
def evaluateUnder : Reply (Except Failure Report) :=
  match e.registry.loaded collectionId with
  | .error error =>
    e.reply collectionId request [] (.error (.resolution error)) (e.freshContext request options [])
  | .ok c =>
    let ((segments, result), context) := e.runUnder limit request options c
    e.reply collectionId request segments result context

/-- The limit on levels of a collection is the one that its evaluations are under. -/
theorem evaluateUnder_own {c : Collection} (hc : e.registry.loaded collectionId = .ok c) :
    e.evaluateUnder (e.config.within c.document.metadata).maxRecursionDepth collectionId request
      options = e.evaluate collectionId request options := by
  unfold evaluateUnder evaluate
  rw [hc]
  rfl

theorem evaluateUnder_of_loaded {c : Collection} (hc : e.registry.loaded collectionId = .ok c) :
    e.evaluateUnder limit collectionId request options =
      e.reply collectionId request (e.runUnder limit request options c).1.1
        (e.runUnder limit request options c).1.2 (e.runUnder limit request options c).2 := by
  unfold evaluateUnder
  rw [hc]

theorem lists_of_runUnder (c : Collection) {d : DepthFailure}
    (hfails : (e.runUnder limit request options c).1.2 = .error (.error (.depth d)))
    (hwhat : d.what = .recursion) : d.Lists limit [] := by
  let env := (e.surroundings c).limitedTo limit
  have hlevelled := levelled_listing env []
  have hruns := hlevelled.complete (hlevelled.answers (env.callBound options.shared))
    ⟨⟨rfl, Nat.zero_le _⟩, List.suffix_refl _⟩ rfl rfl request c.document options.shared _ _
    (hlevelled.bare (c := e.freshContext request options c.document.statics.keys) rfl rfl rfl rfl
      fun _ _ => simple_anything _)
  rcases hruns with ⟨_, _, h⟩ | ⟨hadmits, -, -⟩
  · exact h.elim
  · exact hadmits _ (congrArg failed? hfails) d rfl hwhat

/-- The error in a reply is the one that the run ended in. -/
theorem error_of_reply {segments : List Segment} {result : Except Failure Outcome} {c : Context}
    {report : Report} {error : RollError}
    (h : (e.reply collectionId request segments result c).result = .ok report)
    (herror : report.error = some error) : result = .error (.error error) := by
  cases result with
  | ok o =>
      cases h
      cases herror
  | error f =>
      cases f with
      | error error' =>
          cases h
          cases herror
          rfl
      | fault _ => cases h
      | outOfFuel => cases h

/-- A limit on levels that is not reached might as well be higher: the reply, the context that the
run leaves and with it the random numbers that were drawn are the same. A limit that is reached is
told in an error that lists one level more than it allows. Wherever an operation ends in this error,
the levels that were open when it began are listed first, the outermost before the others; the error
is raised for a level that is opened at the limit, which is listed last. -/
theorem evaluate_limited {e : Engine} (he : e.Reachable) {limit higher : Nat}
    (hlimit : limit ≤ higher) (collectionId : String) (request : Request) (options : Options) :
    ((∀ report, (e.evaluateUnder limit collectionId request options).result = .ok report →
        ¬ report.OverLimit) →
      e.evaluateUnder higher collectionId request options =
          e.evaluateUnder limit collectionId request options ∧
        ∀ c, e.registry.loaded collectionId = .ok c →
          e.runUnder higher request options c = e.runUnder limit request options c) ∧
    (∀ report d, (e.evaluateUnder limit collectionId request options).result = .ok report →
      report.error = some (.depth d) → d.what = .recursion →
        d.limit = limit ∧ d.chain.length = limit + 1) ∧
    (∀ c, e.registry.loaded collectionId = .ok c →
      e.evaluate collectionId request options =
        e.evaluateUnder (e.config.within c.document.metadata).maxRecursionDepth collectionId request
          options) ∧
    ∀ (env : Surroundings) (fuel : Nat) (c : Context), env.InStep c.depth c.chain →
      (∀ {α : Type} (op : Operation α) (d : DepthFailure),
        (op.run env (Eval.answerWithin env fuel) c).1 = .error (.error (.depth d)) →
        d.what = .recursion → d.Lists env.config.maxRecursionDepth c.chain) ∧
      ∀ {α : Type} (label : String) (body : Eval α), ¬ c.depth < env.config.maxRecursionDepth →
        Eval.descending env.config.maxRecursionDepth label body c =
          (.error (.error (.depth
            ⟨.recursion, env.config.maxRecursionDepth, (label :: c.chain).reverse⟩)), c) := by
  refine ⟨fun hwithin => ?_, fun report d hreport herror hwhat => ?_,
    fun c hc => (e.evaluateUnder_own collectionId request options hc).symm,
    fun env fuel c hc => ⟨fun op d => Eval.lists_of_operation fuel op hc,
      fun label body => Eval.descending_refused label body⟩⟩
  · cases hc : e.registry.loaded collectionId with
    | error failure =>
        refine ⟨?_, fun _ h => nomatch h⟩
        unfold evaluateUnder
        rw [hc]
    | ok c =>
        have hrun : e.runUnder higher request options c = e.runUnder limit request options c := by
          refine complete_limited ((e.surroundings c).limitedTo limit) (Material.mem_of_loaded hc)
            request options.shared (e.freshContext request options c.document.statics.keys) rfl rfl
            rfl he.derived hlimit ?_
          rintro _ hf ⟨d, rfl, hwhat⟩
          rw [evaluateUnder_of_loaded _ _ _ _ _ hc] at hwithin
          change (e.runUnder limit request options c).1.2 = _ at hf
          rw [hf] at hwithin
          exact hwithin _ rfl ⟨d, rfl, hwhat⟩
        refine ⟨?_, ?_⟩
        · rw [evaluateUnder_of_loaded _ _ _ _ _ hc, evaluateUnder_of_loaded _ _ _ _ _ hc, hrun]
        · rintro _ ⟨⟩
          exact hrun
  · cases hc : e.registry.loaded collectionId with
    | error failure =>
        unfold evaluateUnder at hreport
        rw [hc] at hreport
        cases hreport
        cases herror
    | ok c =>
        rw [evaluateUnder_of_loaded _ _ _ _ _ hc] at hreport
        have hfails := e.error_of_reply collectionId request hreport herror
        have hlists := e.lists_of_runUnder limit request options c hfails hwhat
        exact ⟨hlists.reached, hlists.length⟩

/-- A template that expands another one needs two levels. One is too few, and three are as good. -/
theorem evaluate_limited_of_two_templates :
    let outer : Template := { id := "t", name := "T", pattern := "\x7b\x7bu\x7d\x7d" }
    let inner : Template := { id := "u", name := "U", pattern := "x" }
    let document : Document :=
      { metadata := { name := "n", namespaceText := "c" }, tables := [], templates := [outer, inner] }
    let e : Engine := (({} : Engine).loadDocument "c" document none).engine
    let options : Options := { source := .ofDraws [] }
    let result := fun limit => (e.evaluateUnder limit "c" (.template "t") options).result
    ((result 2).toOption.map fun report => (report.text, report.error)) = some ("x", none) ∧
    ((result 1).toOption.bind fun report => report.error) =
      some (.depth ⟨.recursion, 1, ["t", "u"]⟩) ∧
    e.evaluateUnder 3 "c" (.template "t") options =
      e.evaluateUnder 2 "c" (.template "t") options ∧
    (∀ report d, result 1 = .ok report → report.error = some (.depth d) → d.what = .recursion →
      d.limit = 1 ∧ d.chain.length = 2) := by
  intro outer inner document e options result
  have hreachable : e.Reachable := .loadDocument (.initial _) "c" document none
  have hfits : ((result 2).toOption.map fun report => (report.text, report.error)) =
      some ("x", none) := by decide +kernel
  refine ⟨hfits, by decide +kernel, ?_, ?_⟩
  · refine ((evaluate_limited hreachable (by decide : 2 ≤ 3) "c" (.template "t") options).1 ?_).1
    rintro report hreport ⟨d, herror, -⟩
    change result 2 = .ok report at hreport
    rw [hreport] at hfits
    exact nomatch (congrArg Prod.snd (Option.some.inj hfits)).symm.trans herror
  · exact (evaluate_limited hreachable (by decide : 1 ≤ 2) "c" (.template "t") options).2.1

end Engine

end RandomTables
