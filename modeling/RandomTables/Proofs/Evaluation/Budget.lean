-- SUMMARY: Fuel that suffices for a request, which always ends, and the breakdowns it may come to.
import Mathlib.Tactic.Ring
import RandomTables.Proofs.Directive.Reading
import RandomTables.Proofs.Engine.Reachable
import RandomTables.Proofs.Registry.Material
import RandomTables.Proofs.Shared.Measure

/-!
# Budgets

Between two levels each call leaves fewer shared variables to read, and there are no more levels
than the limit allows. So the number of calls inside each other is bounded by the limit and the
number of names that documents declare, and more fuel than that changes nothing. What may still
happen, beside the errors of the language, is that arithmetic breaks down in something that is
written in the documents or the request.
-/
namespace RandomTables

/-! ## Breakdowns -/

/-- An error of the language or one of the given faults. -/
def Failure.Within (faults : Fault → Prop) : Failure → Prop
  | .error _ => True
  | .fault f => faults f
  | .outOfFuel => False

theorem Failure.Within.intro {faults : Fault → Prop} {f : Failure} (hends : f ≠ .outOfFuel)
    (h : ∀ fault, f = .fault fault → faults fault) : f.Within faults := by
  cases f with
  | error e => trivial
  | fault fault => exact h fault rfl
  | outOfFuel => exact absurd rfl hends

namespace Surroundings

variable (env : Surroundings) (d : Document) (request : Request) (extra : Assoc String)

/-- The patterns that the evaluation of a request may come to. -/
inductive Writes : String → Prop where
  | request {text : String} (h : request = .pattern text) : Writes text
  | extra {p : String × String} (hp : p ∈ extra) : Writes p.2
  | document {c : Collection} (hc : c ∈ env.registry.collections) {text : String}
    (h : c.document.Writes text) : Writes text

/-- The breakdowns that the evaluation of a request for a document may come to. -/
inductive BreaksDown (fault : Fault) : Prop where
  | pattern {text : String} (htext : env.Writes request extra text)
    (h : PatternFails env.config.maxExplodingDice text (.fault fault))
  /-- A range of a table has more numbers than a weight can count. -/
  | width {t : SimpleTable} (ht : env.registry.Derived t) {r : RollRange} (hr : t.Spans r)
    (h : Weight.ofInt r.size = .error (.fault fault))
  | condition {c : Conditional} (hc : c ∈ d.conditionals)
    (h : ConditionFails c.condition (.fault fault))
  /-- A bound of the text to replace is beyond all bounds. -/
  | target {c : Conditional} (hc : c ∈ d.conditionals) (haction : c.action = .replace)
    (h : Regex.parse (c.target.getD "").toList = .error (.breakdown (.fault fault)))

end Surroundings

/-- The material whose calculations break down in nothing but the given faults. -/
def Material.confined (env : Surroundings) (known : List String) (faults : Fault → Prop) :
    Material where
  pattern text :=
    ∀ fault, PatternFails env.config.maxExplodingDice text (.fault fault) → faults fault
  name := (· ∈ known)
  calculation k := ∀ fault, k.Fails env.config.maxExplodingDice (.fault fault) → faults fault
  table := env.registry.Derived
  identified _ := .identified
  laidOver _ _ := .laidOver

namespace Simulation

/-- Whether `cost` calls may still be made inside each other on this level, and as many on each of
the levels below as the known names allow. -/
def Affords (env : Surroundings) (known : List String) (fuel cost : Nat) (r : Reach) : Prop :=
  (env.config.maxRecursionDepth - r.depth) * (2 * (known.length + 1)) + cost ≤ fuel ∧
    r.shared.Ordered (· ∈ known)

/-- The simulation of an evaluation with some fuel by itself. -/
def fueled (env : Surroundings) (known : List String) (faults : Fault → Prop) (fuel : Nat) :
    Simulation where
  env
  registry := env.registry
  limit := env.config.maxRecursionDepth
  tracing := .same
  logged := True
  material := .confined env known faults
  alike := fun _ t t' => t' = t
  remembers := fun u v => v = u ∧ (Material.confined env known faults).Resolved u
  recalls := fun _ _ _ => True
  admits := fun f => f.Within faults
  tolerates := fun _ _ => False
  lasting := fun _ _ => id
  harbours := fun _ => False
  descends := Affords env known fuel 1
  asking := fun r => Affords env known fuel (2 * r.shared.remaining + 2) r
  begun := fun r => Affords env known fuel (2 * r.shared.remaining + 3) r
  entered := Affords env known fuel (2 * known.length + 3)

variable {env : Surroundings} {known : List String} {faults : Fault → Prop} {fuel : Nat}

theorem Affords.mono {cost less : Nat} {r : Reach} (h : Affords env known fuel cost r)
    (hless : less ≤ cost) : Affords env known fuel less r :=
  ⟨Nat.le_trans (Nat.add_le_add_left hless _) h.1, h.2⟩

theorem Affords.deeper {r : Reach} (h : Affords env known fuel 1 r) (label : String)
    (hdepth : r.depth < env.config.maxRecursionDepth) :
    Affords env known fuel (2 * known.length + 3) (r.deeper label) := by
  refine ⟨?_, h.2⟩
  have hleft : env.config.maxRecursionDepth - r.depth =
      env.config.maxRecursionDepth - (r.depth + 1) + 1 := by omega
  have hbudget := h.1
  rw [hleft, Nat.succ_mul] at hbudget
  change (env.config.maxRecursionDepth - (r.depth + 1)) * _ + _ ≤ fuel
  omega

/-- A call has one unit of fuel less inside. -/
theorem Affords.inside {cost : Nat} {r : Reach} (h : Affords env known (fuel + 1) (cost + 1) r) :
    Affords env known fuel cost r := ⟨Nat.le_of_succ_le_succ h.1, h.2⟩

/-! ## Enough fuel -/

theorem not_patternFails_empty {cap : Nat} {f : Failure} : ¬ PatternFails cap "" f := by
  rintro ⟨span, hspan, -⟩
  have hnone : Span.find "".toList = [] := by cbv
  exact absurd (hnone ▸ hspan) List.not_mem_nil

/-- A registry is made of the confined material if its patterns are. -/
theorem registry_confined (hknown : ∀ name ∈ env.registry.sharedNames, name ∈ known)
    (hpattern : ∀ c ∈ env.registry.collections, ∀ text, c.document.Writes text →
      (Material.confined env known faults).pattern text) :
    (Material.confined env known faults).Registry env.registry :=
  Material.registry_of_contents hknown hpattern fun _ h => h

section

variable (hr : (Material.confined env known faults).Registry env.registry)
  (hwidth : ∀ t, env.registry.Derived t → ∀ r, t.Spans r → ∀ fault,
    Weight.ofInt r.size = .error (.fault fault) → faults fault)

include hr in
theorem alone_fueled : (fueled env known faults fuel).Alone
    (Material.confined env known faults).Resolved fun _ _ _ => True :=
  ⟨rfl, trivial, fun _ _ _ => .rfl, fun _ _ => .rfl, rfl, Registry.upholds_material hr⟩

theorem within_of_ordinary {f : Failure} (h : f.Ordinary) : f.Within faults := by
  obtain ⟨e, rfl, -⟩ := h
  trivial

include hr hwidth

theorem lawful_fueled : (fueled env known faults fuel).Lawful where
  descends_of_asking _ h := h.mono (by omega)
  asking_of_begun _ h := h.mono (by omega)
  begun_of_entered _ h := h.mono (by have := h.2.remaining_le; omega)
  deeper _ label h hdepth := h.deeper label hdepth
  scope _ _ _ _ _ _ _ _ h hblock henter :=
    ⟨h.1, (h.2.of_blank.enter (fun p hp => (hblock p hp).1) henter).blank⟩
  assigned _ _ _ _ _ _ _ h hname hscopes hassign :=
    ⟨h.1, (h.2.of_blank.assign hscopes hname hassign).blank⟩
  limit_le := Nat.le_refl _
  refused _ _ _ _ := .inr ⟨rfl, trivial⟩
  tolerated _ _ h := h.elim
  exhausted _ _ h := h.elim
  reading _ _ := .inl fun _ _ h => h.elim
  ordinary _ := within_of_ordinary
  aliased := (alone_fueled hr).aliased
  static := (alone_fueled hr).static
  found := (alone_fueled hr).found
  inherits := (alone_fueled hr).inherits fun _ => within_of_ordinary
  directive text htext span hspan := by
    refine ⟨fun d hd => ⟨fun k hk fault hfails => ?_, fun _ _ => trivial⟩,
      fun f hf => .intro ?_ ?_⟩
    · exact htext fault ⟨span, hspan, .inr ⟨d, hd, k, hk, hfails⟩⟩
    · exact ((Directive.ends_parse _).failure f hf).ne_outOfFuel
    · rintro fault rfl
      exact htext fault ⟨span, hspan, .inl hf⟩
  blank _ h := absurd h not_patternFails_empty
  calculation k hk f hf := .intro hf.ofReading.ne_outOfFuel fun fault h => hk fault (h ▸ hf)
  width t ht r hspans f hf :=
    .intro ((Weight.ends_ofInt r.size).failure f hf).ne_outOfFuel fun fault h =>
      hwidth t ht r hspans fault (h ▸ hf)

/-- Answers are the same with more fuel, where they afford their calls. -/
theorem answers_fueled {more : Nat} (hmore : fuel ≤ more) :
    (fueled env known faults fuel).Answers (Eval.answerWithin env fuel)
      (Eval.answerWithin env more) := by
  induction fuel generalizing more with
  | zero =>
      refine ⟨fun _ _ _ hw => ?_, fun _ _ hw => ?_, fun _ hw => ?_, fun _ h => h.elim⟩
      · exact absurd hw.1.1 (by omega)
      · exact absurd hw.1.1 (by omega)
      · exact absurd hw.1.1 (by omega)
  | succ fuel ih =>
      obtain ⟨more, rfl⟩ : ∃ n, more = n + 1 := ⟨more - 1, by omega⟩
      have honce : (fueled env known faults (fuel + 1)).Answers
          (Eval.answerOnce env (Eval.answerWithin env fuel))
          (Eval.answerOnce env (Eval.answerWithin env more)) :=
        Answers.once (lawful_fueled hr hwidth) (ih (Nat.le_of_succ_le_succ hmore))
          (fun _ h => (h.mono (by omega)).inside) (fun _ h => h.inside)
          (fun r name p h hfind => by
            obtain ⟨hordered, hless⟩ := h.2.pending hfind
            have hbudget : 2 * p.store.remaining + 4 ≤ 2 * r.shared.remaining + 2 := by omega
            exact ⟨(h.mono hbudget).inside.1, hordered⟩)
          fun _ _ h => h.elim
      exact ⟨honce.roll, honce.pattern, honce.shared, honce.harboured⟩

end

/-! ## Requests -/

section

variable {request : Request} {extra : Assoc String} {c : Collection}
  (hc : c ∈ env.registry.collections)
include hc

theorem applies_fueled {conditional : Conditional}
    (hconditional : conditional ∈ c.document.conditionals) :
    (fueled env (env.sharedNames extra) (env.BreaksDown c.document request extra) fuel).Applies
      conditional where
  condition := by
    refine ⟨fun e he => ⟨fun fault hfails => ?_, trivial⟩, fun f hf => .intro ?_ ?_⟩
    · exact .condition hconditional (.inr ⟨e, he, hfails⟩)
    · exact ((Expr.ends_parse _).failure f hf).ne_outOfFuel
    · rintro fault rfl
      exact .condition hconditional (.inl hf)
  value _ h := .pattern (.document hc (.conditional hconditional)) h
  name := List.mem_append_left _ (env.registry.mem_sharedNames hc
    (Document.mem_sharedNames_of_conditional hconditional))
  target haction f hf := by
    refine .intro (fun h => ?_) ?_
    · obtain ⟨fault, hfault⟩ := (Regex.ends_parse _).failure _ hf f rfl
      exact nomatch h.symm.trans hfault
    rintro fault rfl
    exact .target hconditional haction hf

/-- A request is posed with the fuel that its surroundings give. -/
theorem poses_fueled {w : Nesting} (hdepth : w.depth = 0) (hframes : w.frames = [])
    (hscopes : w.shared.scopes = []) :
    (fueled env (env.sharedNames extra) (env.BreaksDown c.document request extra)
      (env.callBound extra)).Poses w request c.document extra where
  pattern _ hrequest _ h := .pattern (.request hrequest) h
  conditionals _ := applies_fueled hc
  shared p hp _ h := by
    rcases List.mem_append.1 hp with hp | hp
    · exact .pattern (.document hc (.shared hp)) h
    · exact .pattern (.extra hp) h
  frames := hframes
  scopes := hscopes
  entered before after level hbefore hpush := by
    have hnone : before.scopes = [] := by
      rw [← hbefore] at hscopes
      exact List.map_eq_nil_iff.1 hscopes
    have hnames : ∀ p ∈ c.document.shared ++ extra, (splitSign p.1).1 ∈ env.sharedNames extra := by
      refine List.forall_mem_append.2 ⟨fun p hp => ?_, fun p hp => ?_⟩
      · exact List.mem_append_left _ (env.registry.mem_sharedNames hc
          (Document.mem_sharedNames_of_shared (List.mem_map.2 ⟨p, hp, rfl⟩)))
      · exact List.mem_append_right _ (List.mem_map.2 ⟨p, hp, rfl⟩)
    refine ⟨?_, (SharedStore.Ordered.pushDocument hnone hnames hpush).blank⟩
    have hbound : env.callBound extra = env.config.maxRecursionDepth *
        (2 * ((env.sharedNames extra).length + 1)) +
          4 * ((env.sharedNames extra).length + 1) + 4 := by
      rw [Surroundings.length_sharedNames, Surroundings.callBound]
      ring
    change (env.config.maxRecursionDepth - w.depth) * _ + _ ≤ _
    rw [hbound, hdepth, Nat.sub_zero]
    omega

end

end Simulation

namespace Engine

open Simulation

/-- The evaluation of a request is the same with any more fuel, and fails only in an error of the
language or in a breakdown that it may come to. -/
theorem complete_settles (env : Surroundings) {c : Collection} (hc : c ∈ env.registry.collections)
    (request : Request) (extra : Assoc String) (start : Context) (hdepth : start.depth = 0)
    (hframes : start.frames = []) (hscopes : start.shared.scopes = [])
    (hresolved : ∀ t ∈ start.resolved, env.registry.Derived t.2) {fuel : Nat}
    (hfuel : env.callBound extra ≤ fuel) :
    (∀ f, (request.complete env (env.answer extra) c.document extra start).1.2 = .error f →
      f.Within (env.BreaksDown c.document request extra)) ∧
    request.complete env (Eval.answerWithin env fuel) c.document extra start =
      request.complete env (env.answer extra) c.document extra start := by
  have hr : (Material.confined env (env.sharedNames extra)
      (env.BreaksDown c.document request extra)).Registry env.registry := by
    refine registry_confined (fun _ h => List.mem_append_left _ h)
      fun c' hc' text htext fault h => ?_
    exact .pattern (.document hc' htext) h
  have hwidth : ∀ t, env.registry.Derived t → ∀ r, t.Spans r → ∀ fault,
      Weight.ofInt r.size = .error (.fault fault) → env.BreaksDown c.document request extra fault :=
    fun _ ht _ hspans _ h => .width ht hspans h
  have hposed : (fueled env (env.sharedNames extra) (env.BreaksDown c.document request extra)
      (env.callBound extra)).Poses start.nesting request c.document extra :=
    poses_fueled hc hdepth hframes (List.map_eq_nil_iff.2 hscopes)
  have halone : (fueled env (env.sharedNames extra) (env.BreaksDown c.document request extra)
      (env.callBound extra)).Alone (Material.confined env _ _).Resolved fun _ _ _ => True :=
    alone_fueled hr
  have hself := Runs.complete (lawful_fueled hr hwidth) (answers_fueled hr hwidth hfuel) hposed _ _
    (halone.bare rfl rfl hframes hscopes fun t ht => (hresolved t ht).simple hr)
  rcases hself with ⟨_, _, h⟩ | ⟨hadmits, hresult, v, -, hmatch⟩
  · exact h.elim
  · exact ⟨fun f hf => hadmits f (congrArg failed? hf),
      Prod.ext hresult (halone.eq_of_traced rfl hmatch)⟩

/-- The run of a request is the same with any more fuel, and fails only in an error of the language
or in a breakdown that it may come to. -/
theorem run_settles {e : Engine} (he : e.Reachable) {collectionId : String} {c : Collection}
    (hc : e.registry.loaded collectionId = .ok c) (request : Request) (options : Options)
    {fuel : Nat} (hfuel : (e.surroundings c).callBound options.shared ≤ fuel) :
    (∀ f, (e.run c request options).1.2 = .error f →
      f.Within ((e.surroundings c).BreaksDown c.document request options.shared)) ∧
    (request.complete (e.surroundings c) (Eval.answerWithin (e.surroundings c) fuel) c.document
        options.shared).run (e.freshContext request options c.document.statics.keys) =
      e.run c request options :=
  complete_settles (e.surroundings c) (Material.mem_of_loaded hc) request options.shared
    (e.freshContext request options c.document.statics.keys) rfl rfl rfl he.derived hfuel

end Engine

/-! ## Termination

However tables, templates, shared variables and descriptions refer to each other, the evaluation of
a request ends, and it does so long before its fuel does. -/

namespace Engine

/-- Every request ends in a report or in a breakdown of arithmetic, and would end in the same way
with any more fuel. -/
theorem evaluate_ends {e : Engine} (he : e.Reachable) (collectionId : String) (request : Request)
    (options : Options) :
    ((∃ report, (e.evaluate collectionId request options).result = .ok report) ∨
      ∃ fault, (e.evaluate collectionId request options).result = .error (.fault fault)) ∧
    ∀ c, e.registry.loaded collectionId = .ok c →
      ∀ fuel, (e.surroundings c).callBound options.shared ≤ fuel →
        (request.complete (e.surroundings c) (Eval.answerWithin (e.surroundings c) fuel) c.document
            options.shared).run (e.freshContext request options c.document.statics.keys) =
          e.run c request options := by
  refine ⟨?_, fun c hc fuel hfuel => (run_settles he hc request options hfuel).2⟩
  unfold evaluate
  split
  · exact .inl ⟨_, rfl⟩
  · rename_i c hc
    have hends := (run_settles he hc request options (Nat.le_refl _)).1
    dsimp only
    revert hends
    cases (e.run c request options).1.2 with
    | ok o => exact fun _ => .inl ⟨_, rfl⟩
    | error f =>
        cases f with
        | error error => exact fun _ => .inl ⟨_, rfl⟩
        | fault fault => exact fun _ => .inr ⟨fault, rfl⟩
        | outOfFuel => exact fun h => (h _ rfl).elim

/-- The expansion of a template in itself ends in an error, with twelve open calls or with more. -/
theorem evaluate_ends_of_endless_template :
    let template : Template := { id := "t", name := "T", pattern := "\x7b\x7bt\x7d\x7d" }
    let document : Document :=
      { metadata := { name := "n", namespaceText := "c" }, tables := [], templates := [template] }
    let e : Engine :=
      (({ config := { maxRecursionDepth := 2 } } : Engine).loadDocument "c" document none).engine
    let c : Collection := { id := "c", document }
    let env := e.surroundings c
    let options : Options := { source := .ofDraws [] }
    let result := (e.evaluate "c" (.template "t") options).result
    (env.callBound [] = 12 ∧ (result.toOption.bind (·.error)).isSome) ∧
    ((∃ report, result = .ok report) ∨ ∃ fault, result = .error (.fault fault)) ∧
    ((Request.template "t").complete env (Eval.answerWithin env 100) document []).run
        (e.freshContext (.template "t") options []) = e.run c (.template "t") options := by
  intro template document e c env options result
  have hreachable : e.Reachable := .loadDocument (.initial _) "c" document none
  have hloaded : e.registry.loaded "c" = .ok c := rfl
  obtain ⟨hresult, hruns⟩ := evaluate_ends hreachable "c" (.template "t") options
  refine ⟨⟨rfl, ?_⟩, hresult, hruns c hloaded 100 ?_⟩
  · decide +kernel
  · decide +kernel

end Engine

end RandomTables
