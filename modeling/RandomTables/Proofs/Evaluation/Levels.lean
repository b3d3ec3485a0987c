-- SUMMARY: Evaluations beside themselves, wherever levels are as stated.
import RandomTables.Proofs.Directive.Reading
import RandomTables.Proofs.Engine.Completing

/-!
# Levels

The simplest simulations are those of an evaluation by itself. Any failure is admitted and none
tolerated, so both runs are the same to the end, and what is proved is what they keep.
-/
namespace RandomTables

/-- The failure of a level that the limit refuses. -/
def Failure.OverLimit (f : Failure) : Prop :=
  ∃ e : DepthFailure, f = .error (.depth e) ∧ e.what = .recursion

theorem Failure.Ordinary.not_overLimit {f : Failure} (h : f.Ordinary) : ¬ f.OverLimit := by
  rintro ⟨e, rfl, hwhat⟩
  obtain ⟨_, hf, hordinary⟩ := h
  cases hf
  exact nomatch hwhat.symm.trans (hordinary e rfl)

theorem Failure.OfReading.not_overLimit {f : Failure} (h : f.OfReading) : ¬ f.OverLimit := by
  rintro ⟨e, rfl, -⟩
  exact h

namespace Simulation

/-! ## Settings with the same registry -/

section

variable {S : Simulation}

/-- Where both settings have the same registry, references lead to the same targets. -/
theorem found_self (hsame : S.registry = S.env.registry)
    (hmade : S.material.Registry S.env.registry)
    (halike : ∀ collectionId t, S.env.registry.Holds collectionId t → S.alike collectionId t t)
    (hrecalls : ∀ tables collectionId t, S.env.registry.Holds collectionId t →
      S.recalls tables collectionId t)
    (frames : List Frame) (ref collectionId : String) :
    Looks (Option.Rel (S.Targets frames)) (S.env.registry.find ref collectionId)
      (S.registry.find ref collectionId) := by
  rw [hsame]
  cases hfound : S.env.registry.find ref collectionId with
  | error e => exact .error e
  | ok found =>
      refine .ok ?_
      cases found with
      | none => exact .none
      | some target =>
          refine .some ?_
          have htarget := hmade.target_of_find hfound
          obtain ⟨definition, owner⟩ := target
          cases definition with
          | template t => exact .template htarget
          | table t =>
              cases t with
              | composite t => exact .table (.composite htarget)
              | collection t => exact .table (.collection htarget)
              | simple t =>
                  have hheld := S.env.registry.holds_of_find hfound
                  exact .table (.simple ⟨htarget, halike _ _ hheld, rfl⟩
                    (.inl fun _ => hrecalls _ _ _ hheld))

/-- Two settings that differ at most in their answers, their limits and their traces. What they
remember is as stated by `I`, and tables are as stated by `K`. -/
structure Alone (S : Simulation) (I : ResolvedTables → Prop)
    (K : ResolvedTables → String → SimpleTable → Prop) : Prop where
  registry : S.registry = S.env.registry
  logged : S.logged
  alike : ∀ collectionId t t', S.alike collectionId t t' ↔ t' = t
  remembers : ∀ u v, S.remembers u v ↔ v = u ∧ I u
  recalls : S.recalls = K
  upholds : S.env.registry.Upholds S.material I K

namespace Alone

variable {I : ResolvedTables → Prop} {K : ResolvedTables → String → SimpleTable → Prop} (h : S.Alone I K)
include h

theorem aliased (importAlias name collectionId : String) :
    S.registry.aliasedStatic importAlias name collectionId =
      S.env.registry.aliasedStatic importAlias name collectionId := by rw [h.registry]

theorem static (name collectionId : String) :
    Eval.staticText? S.second name collectionId = Eval.staticText? S.env name collectionId := by
  change ((S.registry.get? collectionId).bind _).or _ = _
  rw [h.registry]
  rfl

theorem found (frames : List Frame) (ref collectionId : String) :
    Looks (Option.Rel (S.Targets frames)) (S.env.registry.find ref collectionId)
      (S.registry.find ref collectionId) := by
  refine found_self h.registry h.upholds.made (fun _ _ _ => (h.alike _ _ _).2 rfl) ?_ frames ref
    collectionId
  rw [h.recalls]
  exact fun _ _ _ hheld => h.upholds.held hheld

theorem alikes (collectionId : String) {t : SimpleTable} (ht : S.material.Simple t) :
    S.Alike collectionId t t := ⟨ht, (h.alike _ _ _).2 rfl, rfl⟩

theorem target_eq {frames : List Frame} {target target' : Target}
    (ht : S.Targets frames target target') : target' = target := by
  cases ht with
  | template _ => rfl
  | table ht =>
      cases ht with
      | simple ht _ => rw [(h.alike _ _ _).1 ht.alike]
      | composite _ => rfl
      | collection _ => rfl

theorem inherits (hordinary : ∀ f, f.Ordinary → S.admits f) (collectionId : String)
    (t t' : SimpleTable) (ht : S.Alike collectionId t t') :
    S.Resolves (fun tables => S.recalls tables collectionId t)
      (fun tables resolved resolved' =>
        S.Alike collectionId resolved resolved' ∧ S.recalls tables collectionId resolved)
      (S.env.registry.inherit S.env.base t collectionId)
      (S.registry.inherit S.env.base t' collectionId) := by
  rintro s ⟨tables, log⟩ ⟨htables, hlog⟩ hknown
  obtain ⟨rfl, hresolved⟩ := (h.remembers _ _).1 htables
  obtain rfl := hlog h.logged
  obtain rfl := (h.alike _ _ _).1 ht.alike
  rw [h.recalls] at hknown ⊢
  rw [h.registry]
  obtain ⟨hkept, hgrows, hresult⟩ :=
    h.upholds.inherit S.env.base collectionId _ ht.made s hresolved hknown
  refine .inr ⟨?_, ⟨(h.remembers _ _).2 ⟨rfl, hkept⟩, fun _ => rfl⟩, ?_⟩
  rotate_left
  · rw [Grows, h.recalls]
    exact fun _ _ => h.upholds.grows hgrows
  revert hresult
  cases (S.env.registry.inherit S.env.base t' collectionId s).1 with
  | ok resolved => exact fun hmade => .ok ⟨h.alikes collectionId hmade.1, hmade.2⟩
  | error f => exact fun hf => .error (hordinary f hf)

/-- Two contexts that differ in the trace alone. -/
theorem contexts {c d : Context} (hd : d = { c with trace := d.trace })
    (htraces : S.tracing.traces c.trace d.trace) (hopen : S.material.Open c.nesting)
    (hframes : ∀ f ∈ c.frames, K c.resolved f.collectionId f.table) (hresolved : I c.resolved) :
    S.Match c.nesting c d := by
  rw [← h.recalls] at hframes
  refine ⟨rfl, { c.parts with trace := d.trace },
    ⟨htraces, (h.remembers _ _).2 ⟨rfl, hresolved⟩, fun _ => rfl, ?_, hframes⟩, hd⟩
  have hmade : ∀ f ∈ c.frames, S.material.Frame f := hopen.1
  change List.Forall₂ S.Framed c.frames c.frames
  exact List.forall₂_same.2 fun f hf => .intro (h.alikes _ (hmade f hf).1)

/-- The same where no table is being rolled and nothing is declared. -/
theorem bare {c d : Context} (hd : d = { c with trace := d.trace })
    (htraces : S.tracing.traces c.trace d.trace) (hframes : c.frames = [])
    (hscopes : c.shared.scopes = []) (hresolved : I c.resolved) : S.Match c.nesting c d := by
  have hnone : c.nesting.shared.scopes = [] := List.map_eq_nil_iff.2 hscopes
  refine h.contexts hd htraces ⟨?_, ?_⟩ ?_ hresolved
  · change ∀ f ∈ c.frames, _
    rw [hframes]
    exact fun _ hf => absurd hf List.not_mem_nil
  · rw [hnone]
    exact fun _ hs => absurd hs List.not_mem_nil
  · rw [hframes]
    exact fun _ hf => absurd hf List.not_mem_nil

/-- What agrees differs in the trace alone. -/
theorem eq_of_match {w : Nesting} {c d : Context} (hm : S.Match w c d) :
    d = { c with trace := d.trace } := by
  obtain ⟨⟨trace, resolved, log, frames⟩, ⟨-, htables, hlog, hframes, -⟩, rfl⟩ := hm.twin
  have hsame : frames = c.frames := by
    refine (List.forall₂_eq_eq_eq ▸ hframes.imp fun f f' hf => ?_ : c.frames = frames).symm
    obtain ⟨hf⟩ := hf
    rw [(h.alike _ _ _).1 hf.alike]
  obtain ⟨rfl, -⟩ := (h.remembers _ _).1 htables
  obtain rfl := hlog h.logged
  subst hsame
  rfl

/-- With the same trace, what agrees is the same. -/
theorem eq_of_traced (hsame : S.tracing = .same) {w : Nesting} {c d : Context}
    (hm : S.Match w c d) : d = c := by
  have htrace := hm.traces
  rw [hsame] at htrace
  rw [h.eq_of_match hm, show d.trace = c.trace from htrace]

end Alone

end

/-! ## Evaluations by themselves -/

/-- Levels as stated stay so when the limit lets another one be opened. -/
def Deepens (env : Surroundings) (levels : Nat → List String → Prop) : Prop :=
  ∀ depth chain label, levels depth chain → depth < env.config.maxRecursionDepth →
    levels (depth + 1) (label :: chain)

/-- A simulation of an evaluation by itself that asks of what is open no more than that levels are
as stated, and of failures no more than that the limit on levels is kept as stated. -/
structure Levelled (S : Simulation) (I : ResolvedTables → Prop)
    (K : ResolvedTables → String → SimpleTable → Prop) (levels : Nat → List String → Prop) : Prop
    extends S.Alone I K where
  lenient : S.material.Lenient
  name : ∀ name, S.material.name name
  descends : ∀ r, S.descends r ↔ levels r.depth r.chain
  asking : ∀ r, S.asking r ↔ levels r.depth r.chain
  begun : ∀ r, S.begun r ↔ levels r.depth r.chain
  entered : ∀ r, S.entered r ↔ levels r.depth r.chain
  deepens : Deepens S.env levels
  harbours : ∀ name, ¬ S.harbours name
  limit_le : S.env.config.maxRecursionDepth ≤ S.limit
  admits : ∀ f, ¬ f.OverLimit → S.admits f
  tolerates : ∀ f g, S.tolerates f g → f.OverLimit ∧ S.tolerates f none
  refused : ∀ depth chain label, levels depth chain → ¬ depth < S.env.config.maxRecursionDepth →
    S.tolerates (.error (.depth
        ⟨.recursion, S.env.config.maxRecursionDepth, (label :: chain).reverse⟩)) none ∨
      S.limit = S.env.config.maxRecursionDepth ∧
        S.admits (.error (.depth
          ⟨.recursion, S.env.config.maxRecursionDepth, (label :: chain).reverse⟩))

namespace Levelled

variable {S : Simulation} {I : ResolvedTables → Prop}
  {K : ResolvedTables → String → SimpleTable → Prop} {levels : Nat → List String → Prop}
  {a b : Answer} (h : S.Levelled I K levels)
include h

theorem ordinary {f : Failure} (hf : f.Ordinary) : S.admits f :=
  h.admits f hf.not_overLimit

theorem ofReading {f : Failure} (hf : f.OfReading) : S.admits f :=
  h.admits f hf.not_overLimit

theorem rescoped {depth : Nat} {chain : List String} {s : SharedStore}
    (hentered : S.entered ⟨depth, chain, s⟩) (s' : SharedStore) : S.entered ⟨depth, chain, s'⟩ :=
  (h.entered ⟨depth, chain, s'⟩).2 ((h.entered ⟨depth, chain, s⟩).1 hentered)

theorem lawful : S.Lawful where
  descends_of_asking r hr := (h.descends r).2 ((h.asking r).1 hr)
  asking_of_begun r hr := (h.asking r).2 ((h.begun r).1 hr)
  begun_of_entered r hr := (h.begun r).2 ((h.entered r).1 hr)
  deeper r label hr hdepth := (h.entered _).2 (h.deepens _ _ label ((h.descends r).1 hr) hdepth)
  scope _ _ _ _ _ _ _ _ hr _ _ := h.rescoped hr _
  assigned _ _ _ _ _ _ _ hr _ _ _ := h.rescoped hr _
  limit_le := h.limit_le
  refused r label hr := h.refused r.depth r.chain label ((h.descends r).1 hr)
  tolerated f g hf := by
    obtain ⟨e, rfl, -⟩ := (h.tolerates f g hf).1
    exact .inr ⟨e, rfl⟩
  exhausted f g hf := .inl (h.tolerates f _ hf).2
  reading _ _ := .inl fun f _ hf => .inl (h.tolerates f _ hf).2
  ordinary _ := h.ordinary
  aliased := h.aliased
  static := h.static
  found := h.found
  inherits := h.inherits fun _ => h.ordinary
  directive _ _ _ _ :=
    ⟨fun _ _ => ⟨fun _ _ => h.lenient.calculation _, fun _ _ => h.lenient.reading _⟩,
      fun f hf => h.ofReading ((Directive.ends_parse _).failure f hf)⟩
  blank := h.lenient.pattern ""
  calculation _ _ _ hf := h.ofReading hf.ofReading
  width _ _ r _ f hf := h.ofReading ((Weight.ends_ofInt r.size).failure f hf)

theorem exhausted : S.Answers (fun {_} _ => throw .outOfFuel) (fun {_} _ => throw .outOfFuel) := by
  have hadmits : S.admits .outOfFuel := h.admits _ (by rintro ⟨_, hf, -⟩; cases hf)
  exact ⟨fun _ _ _ _ _ => .throw hadmits, fun _ _ _ _ => .throw hadmits,
    fun _ _ _ _ => .throw hadmits, fun name hname => absurd hname (h.harbours name)⟩

theorem once (hab : S.Answers a b) :
    S.Answers (Eval.answerOnce S.env a) (Eval.answerOnce S.second b) := by
  have honce : (S.wherever S.descends S.asking S.begun S.entered).Answers
      (Eval.answerOnce S.env a) (Eval.answerOnce S.second b) :=
    .once h.lawful hab h.lawful.descends_of_asking h.lawful.asking_of_begun
      (fun r _ p hr _ => (h.begun { r with shared := p.store }).2 ((h.asking r).1 hr))
      fun _ name hname => absurd hname (h.harbours name)
  exact honce

/-- Evaluations agree with themselves wherever levels are as stated. -/
theorem answers (fuel : Nat) :
    S.Answers (Eval.answerWithin S.env fuel) (Eval.answerWithin S.second fuel) := by
  induction fuel with
  | zero => exact h.exhausted
  | succ fuel ih =>
      have honce := h.once ih
      exact ⟨honce.roll, honce.pattern, honce.shared, honce.harboured⟩

/-- Whatever a conditional is written with, it is made of lenient material. -/
theorem applies (c : Conditional) : S.Applies c := by
  refine ⟨⟨fun _ _ => ⟨h.lenient.calculation _, h.lenient.reading _⟩, fun f hf => ?_⟩,
    h.lenient.pattern _, h.name _, fun _ f hf => ?_⟩
  · exact h.ofReading ((Expr.ends_parse _).failure f hf)
  · obtain ⟨fault, rfl⟩ := (Regex.ends_parse _).failure _ hf f rfl
    exact h.ofReading trivial

/-- A request agrees with itself where no table is being rolled and nothing is declared. -/
theorem complete (hab : S.Answers a b) {w : Nesting} (hw : levels w.depth w.chain)
    (hframes : w.frames = []) (hscopes : w.shared.scopes = []) (request : Request) (d : Document)
    (extra : Assoc String) :
    S.Runs w (fun _ => True) (fun r => failed? r.2) (request.complete S.env a d extra)
      (request.complete S.second b d extra) :=
  .complete h.lawful hab ⟨fun _ _ => h.lenient.pattern _, fun c _ => h.applies c,
    fun _ _ => h.lenient.pattern _, hframes, hscopes, fun _ _ _ _ _ => (h.entered _).2 hw⟩

end Levelled

/-- The simulation of an evaluation by itself, wherever levels are as stated. Any failure is
admitted. -/
def keeping (env : Surroundings) (T : Tracing) (M : Material) (I : ResolvedTables → Prop)
    (K : ResolvedTables → String → SimpleTable → Prop) (levels : Nat → List String → Prop) :
    Simulation where
  env
  registry := env.registry
  limit := env.config.maxRecursionDepth
  tracing := T
  logged := True
  material := M
  alike := fun _ t t' => t' = t
  remembers := fun u v => v = u ∧ I u
  recalls := K
  admits := fun _ => True
  tolerates := fun _ _ => False
  lasting := fun _ _ => id
  harbours := fun _ => False
  descends := fun r => levels r.depth r.chain
  asking := fun r => levels r.depth r.chain
  begun := fun r => levels r.depth r.chain
  entered := fun r => levels r.depth r.chain

section

variable {env : Surroundings} {T : Tracing} {M : Material} {I : ResolvedTables → Prop}
  {K : ResolvedTables → String → SimpleTable → Prop} {levels : Nat → List String → Prop}
  (hr : env.registry.Upholds M I K)
include hr

theorem alone_keeping : (keeping env T M I K levels).Alone I K :=
  ⟨rfl, trivial, fun _ _ _ => .rfl, fun _ _ => .rfl, rfl, hr⟩

theorem levelled_keeping (hM : M.Lenient) (hname : ∀ name, M.name name)
    (hlevels : Deepens env levels) : (keeping env T M I K levels).Levelled I K levels where
  toAlone := alone_keeping hr
  lenient := hM
  name := hname
  descends _ := .rfl
  asking _ := .rfl
  begun _ := .rfl
  entered _ := .rfl
  deepens := hlevels
  harbours _ := id
  limit_le := Nat.le_refl _
  admits _ _ := trivial
  tolerates _ _ := False.elim
  refused _ _ _ _ _ := .inr ⟨rfl, trivial⟩

end

/-! ## Evaluations made of anything -/

/-- Material of which everything is made. -/
abbrev anything : Material := .ofNames fun _ => True

theorem block_anything (block : Assoc String) : anything.Block block :=
  fun _ _ => ⟨trivial, trivial⟩

theorem simple_anything (t : SimpleTable) : anything.Simple t :=
  (Material.lenient_ofNames _).simple trivial (block_anything _)

theorem target_anything (t : Target) : anything.Target t := by
  obtain ⟨definition, collectionId⟩ := t
  cases definition with
  | template t => exact ⟨block_anything _, trivial⟩
  | table t =>
      cases t with
      | simple t => exact simple_anything t
      | composite t => exact block_anything _
      | collection t => exact block_anything _

theorem open_anything (w : Nesting) : anything.Open w :=
  ⟨fun _ _ => ⟨simple_anything _, trivial⟩, fun _ _ _ _ => trivial⟩

theorem registry_anything (r : Registry) :
    r.Upholds anything anything.Resolved fun _ _ _ => True :=
  Registry.upholds_material ⟨fun _ _ t _ => target_anything ⟨.table t, ""⟩,
    fun _ _ t _ => target_anything ⟨.template t, ""⟩⟩

/-- The simulation of an evaluation by itself that says nothing of tables. -/
abbrev onLevels (env : Surroundings) (T : Tracing) (levels : Nat → List String → Prop) :
    Simulation :=
  keeping env T anything anything.Resolved (fun _ _ _ => True) levels

section

variable {env : Surroundings} {T : Tracing} {levels : Nat → List String → Prop}

theorem alone_onLevels : (onLevels env T levels).Alone anything.Resolved fun _ _ _ => True :=
  alone_keeping (registry_anything _)

theorem levelled_onLevels (hlevels : Deepens env levels) :
    (onLevels env T levels).Levelled anything.Resolved (fun _ _ _ => True) levels :=
  levelled_keeping (registry_anything _) (Material.lenient_ofNames _) (fun _ => trivial) hlevels

end

theorem levelled_anywhere (env : Surroundings) (T : Tracing) :
    (onLevels env T fun _ _ => True).Levelled anything.Resolved (fun _ _ _ => True)
      fun _ _ => True := levelled_onLevels fun _ _ _ _ _ => trivial

end Simulation

end RandomTables
