-- SUMMARY: A document that is exported and loaded again is rolled as before, if its tables are kept.
import Mathlib
import RandomTables.Proofs.Engine.Isolation
import RandomTables.Proofs.Engine.Links
import RandomTables.Proofs.Registry.Rewriting

/-!
# Documents loaded again

An engine whose collection was exported and loaded again runs beside the engine as it was. They
resolve the same tables in the same order, and what each resolves differs from what the other one
does in the marks of what entries were given. No draw looks at these, so the results are the same.
That needs the tables of the collection to be kept: an entry that overrides an inherited one would
otherwise do so in another way, because the text gives fields that the document did not give and
leaves out those that it gave as null.
-/
namespace RandomTables

/-! ## Resolving tables -/

/-- A remembered table in place of another one. Neither extends anything any more. -/
structure RememberedAlike (p q : (String × String) × SimpleTable) : Prop where
  key : q.1 = p.1
  bare : q.2.bare = p.2.bare
  settled : (p.2.parent.getD "").isEmpty = true

/-- What is looked up in such memories is there in both or in neither. -/
theorem lookup_rememberedAlike {u v : ResolvedTables} (h : List.Forall₂ RememberedAlike u v)
    (key : String × String) :
    Option.Rel (fun t t' : SimpleTable => t'.bare = t.bare ∧ (t.parent.getD "").isEmpty = true)
      (u.lookup key) (v.lookup key) := by
  induction h with
  | nil => exact .none
  | cons hp _ ih =>
      rename_i p q u v _
      rw [List.lookup_cons, List.lookup_cons, hp.key]
      cases key == p.1 with
      | true => exact .some ⟨hp.bare, hp.settled⟩
      | false => exact ih

namespace Simulation

/-- The simulation of evaluations by those in which a collection is rewritten. -/
def rewriting (env : Surroundings) (id : String) : Simulation where
  env
  registry := env.registry.rewriting id
  limit := env.config.maxRecursionDepth
  tracing := .same
  logged := True
  material := anything
  alike := fun collectionId t t' =>
    (t.parent.getD "").isEmpty = false → t' = t.rewrittenIn id collectionId
  remembers := fun u v => env.registry.Remembers u ∧ List.Forall₂ RememberedAlike u v
  recalls := env.registry.Known
  admits := fun _ => True
  tolerates := fun _ _ => False
  lasting := fun _ _ h => h
  harbours := fun _ => False
  descends := fun _ => True
  asking := fun _ => True
  begun := fun _ => True
  entered := fun _ => True

variable {env : Surroundings} {id : String}

section

variable (hr : env.registry.Distinct) (hrewritable : env.registry.Rewritable id)
include hr hrewritable

/-- Both runs come to tables in place of each other that extend nothing. -/
def Settles (r : Registry) (collectionId tableId : String) (tables : ResolvedTables)
    (resolved resolved' : SimpleTable) : Prop :=
  resolved'.bare = resolved.bare ∧ (resolved.parent.getD "").isEmpty = true ∧
    ∃ held, held.id = tableId ∧ r.Recollects tables collectionId held resolved

theorem inheritAnew_rewriting {config : Config} {fuel depth : Nat} {t t' : SimpleTable}
    {collectionId : String} {chain : List String} (ht : env.registry.Holds collectionId t)
    (halike : (t.parent.getD "").isEmpty = false → t' = t.rewrittenIn id collectionId)
    (hbare : t'.bare = t.bare)
    (hparent : ∀ owner parent chain, env.registry.Holds owner parent →
      ¬ env.registry.extensionLimit config collectionId ≤ depth →
      (rewriting env id).Resolves (env.registry.Known · owner parent)
        (Settles env.registry owner parent.id)
        (env.registry.inheritFrom config fuel parent owner (depth + 1) chain)
        ((env.registry.rewriting id).inheritFrom config fuel (parent.rewrittenIn id owner) owner
          (depth + 1) chain)) :
    (rewriting env id).Resolves (fun _ => True) (Settles env.registry collectionId t.id)
      (env.registry.inheritAnew config fuel t collectionId depth chain)
      ((env.registry.rewriting id).inheritAnew config fuel t' collectionId depth chain) := by
  have htracks := Registry.tracks_inherits hr
  have hid : t'.id = t.id := by rw [SimpleTable.eq_of_bare hbare]
  have hextends : t'.parent = t.parent := by rw [SimpleTable.eq_of_bare hbare]
  unfold Registry.inheritAnew
  dsimp only
  rw [hextends, hid, Registry.extensionLimit_rewriting, Registry.find_rewriting]
  split
  · rename_i hnone
    rintro s s' ⟨⟨hleft, htables⟩, hlog⟩ -
    have hown := htracks.own hleft ht hnone
    have hsame : RememberedAlike ((collectionId, t.id), t.identified)
        ((collectionId, t'.id), t'.identified) :=
      ⟨by rw [hid], SimpleTable.bare_identified hbare, hnone⟩
    exact .inr ⟨.ok ⟨hsame.bare, hnone, hown.2⟩, ⟨⟨hown.1, .cons hsame htables⟩, hlog⟩,
      fun _ _ h => h.grows (List.suffix_cons _ _)⟩
  · rename_i hsome
    split
    · exact .throw trivial
    · rename_i hlimit
      cases hfind : env.registry.find (t.parent.getD "") collectionId with
      | error e => exact .throw trivial
      | ok found =>
          rw [Except.map, Resolve.lift_ok_bind, Resolve.lift_ok_bind]
          rcases found with _ | ⟨(_ | _ | _) | _, owner⟩
          · exact .throw trivial
          · rename_i parent
            have hheld := Registry.holds_of_find hfind
            have hnotNone := eq_false_of_ne_true hsome
            refine .bind ((hparent _ _ _ hheld hlimit).of_imp fun _ _ => .inl hheld) ?_
            rintro inherited inherited' - ⟨hinherited, -⟩ s s' ⟨⟨hleft, htables⟩, hlog⟩
              ⟨-, -, held, hheldId, hmade⟩
            obtain rfl := hheld.unique hr hmade.holds hheldId
            have hlaid := htracks.laid hleft ht hnotNone hfind ⟨held, rfl, hmade⟩
            have hsame : RememberedAlike ((collectionId, t.id), t.laidOver inherited)
                ((collectionId, t'.id), t'.laidOver inherited') := by
              refine ⟨by rw [hid], ?_, rfl⟩
              rw [halike hnotNone]
              exact hrewritable.bare_laidOver ht hnotNone hfind hmade.inherits hinherited
            have hlength : (t'.laidOver inherited').entries.length =
                (t.laidOver inherited).entries.length := by
              have hentries := congrArg List.length (SimpleTable.entries_of_bare hsame.bare)
              rwa [List.length_map, List.length_map] at hentries
            refine .inr ⟨.ok ⟨hsame.bare, rfl, hlaid.2⟩,
              ⟨⟨hlaid.1, .cons hsame htables⟩, fun hlogged => ?_⟩,
              fun _ _ h => h.grows (List.suffix_cons _ _)⟩
            change LogRecord.mk _ _ _ :: _ = LogRecord.mk _ _ _ :: _
            rw [hlog hlogged, hlength]
          · exact .throw trivial
          · exact .throw trivial
          · exact .throw trivial

theorem inheritFrom_rewriting {config : Config} {fuel depth : Nat} {t t' : SimpleTable}
    {collectionId : String} {chain : List String}
    (halike : (t.parent.getD "").isEmpty = false → t' = t.rewrittenIn id collectionId)
    (hbare : t'.bare = t.bare) (hdepth : depth ≤ env.registry.greatestLimit config)
    (hfuel : env.registry.greatestLimit config < fuel + depth) :
    (rewriting env id).Resolves (env.registry.Known · collectionId t)
      (Settles env.registry collectionId t.id)
      (env.registry.inheritFrom config fuel t collectionId depth chain)
      ((env.registry.rewriting id).inheritFrom config fuel t' collectionId depth chain) := by
  induction fuel generalizing t t' collectionId depth chain with
  | zero => omega
  | succ fuel ih =>
      intro s s' hs hknown
      obtain ⟨hleft, htables⟩ : env.registry.Remembers s.tables ∧
        List.Forall₂ RememberedAlike s.tables s'.tables := hs.tables
      have hid : t'.id = t.id := by rw [SimpleTable.eq_of_bare hbare]
      have hlookups := lookup_rememberedAlike htables (collectionId, t.id)
      rw [Registry.inheritFrom_apply, Registry.inheritFrom_apply, hid]
      cases hlookup : s.tables.lookup (collectionId, t.id) with
      | some resolved =>
          rw [hlookup] at hlookups
          cases hlookup' : s'.tables.lookup (collectionId, t.id) with
          | none =>
              rw [hlookup'] at hlookups
              cases hlookups
          | some resolved' =>
              rw [hlookup'] at hlookups
              obtain ⟨hsame, hsettled⟩ : resolved'.bare = resolved.bare ∧ _ := by
                cases hlookups
                assumption
              exact .inr ⟨.ok ⟨hsame, hsettled, hknown.recollects hleft hlookup⟩, hs,
                fun _ _ h => h⟩
      | none =>
          rw [hlookup] at hlookups
          cases hlookup' : s'.tables.lookup (collectionId, t.id) with
          | some resolved' =>
              rw [hlookup'] at hlookups
              cases hlookups
          | none =>
              refine inheritAnew_rewriting hr hrewritable (hknown.holds hlookup) halike hbare
                (fun owner parent chain hheld hlimit => ?_) s s' hs trivial
              refine ih (fun _ => rfl) (parent.bare_rewrittenIn id owner) ?_ (by omega)
              exact Nat.lt_of_not_le fun h =>
                hlimit (Nat.le_trans (env.registry.extensionLimit_le config _) h)

theorem inherits_rewriting (collectionId : String) (t t' : SimpleTable)
    (ht : (rewriting env id).Alike collectionId t t') :
    (rewriting env id).Resolves (fun tables => (rewriting env id).recalls tables collectionId t)
      (fun tables resolved resolved' => (rewriting env id).Alike collectionId resolved resolved' ∧
        (rewriting env id).recalls tables collectionId resolved)
      (env.registry.inherit env.base t collectionId)
      ((env.registry.rewriting id).inherit env.base t' collectionId) := by
  unfold Registry.inherit
  rw [Registry.greatestLimit_rewriting]
  refine (inheritFrom_rewriting hr hrewritable ht.alike ht.bare (Nat.zero_le _) (by omega)).mono ?_
  rintro tables resolved resolved' ⟨hbare, hsettled, held, -, hmade⟩
  refine ⟨⟨simple_anything _, fun hextends => ?_, hbare⟩, .inr ⟨held, hmade⟩⟩
  exact absurd (hsettled.symm.trans hextends) (by decide)

omit hr hrewritable in
theorem found_rewriting (frames : List Frame) (ref collectionId : String) :
    Looks (Option.Rel ((rewriting env id).Targets frames)) (env.registry.find ref collectionId)
      ((env.registry.rewriting id).find ref collectionId) := by
  rw [Registry.find_rewriting]
  cases hfind : env.registry.find ref collectionId with
  | error e => exact .error e
  | ok found =>
      refine .ok ?_
      rcases found with _ | ⟨(t | t | t) | t, owner⟩
      · exact .none
      · have hheld := Registry.holds_of_find hfind
        exact .some (.table (.simple ⟨simple_anything t, fun _ => rfl, t.bare_rewrittenIn id owner⟩
          (.inl fun _ => .inl hheld)))
      · exact .some (.table (.composite (block_anything _)))
      · exact .some (.table (.collection (block_anything _)))
      · exact .some (.template ⟨block_anything _, trivial⟩)

theorem lawful_rewriting : (rewriting env id).Lawful where
  descends_of_asking _ h := h
  asking_of_begun _ h := h
  begun_of_entered _ h := h
  deeper _ _ _ _ := trivial
  scope _ _ _ _ _ _ _ _ _ _ _ := trivial
  assigned _ _ _ _ _ _ _ _ _ _ _ := trivial
  limit_le := Nat.le_refl _
  refused _ _ _ _ := .inr ⟨rfl, trivial⟩
  tolerated _ _ h := h.elim
  exhausted _ _ h := h.elim
  reading _ _ := .inl fun _ _ h => h.elim
  ordinary _ _ := trivial
  aliased := env.registry.aliasedStatic_rewriting id
  static name collectionId := by
    change (((env.registry.rewriting id).get? collectionId).bind _).or _ = _
    rw [Registry.get?_rewriting, Option.bind_map]
    simp only [Function.comp_def, Collection.document_rewrittenIn]
    rfl
  found := found_rewriting
  inherits := inherits_rewriting hr hrewritable
  directive _ _ _ _ := ⟨fun _ _ => ⟨fun _ _ => trivial, fun _ _ => trivial⟩, fun _ _ => trivial⟩
  blank := trivial
  calculation _ _ _ _ := trivial
  width _ _ _ _ _ _ := trivial

/-- Answers agree, whatever is remembered. -/
theorem answers_rewriting (fuel : Nat) :
    (rewriting env id).Answers (Eval.answerWithin env fuel)
      (Eval.answerWithin (rewriting env id).second fuel) := by
  induction fuel with
  | zero =>
      exact ⟨fun _ _ _ _ _ => .throw trivial, fun _ _ _ _ => .throw trivial,
        fun _ _ _ _ => .throw trivial, fun _ h => h.elim⟩
  | succ fuel ih =>
      have honce : (rewriting env id).Answers (Eval.answerOnce env (Eval.answerWithin env fuel))
          (Eval.answerOnce (rewriting env id).second
            (Eval.answerWithin (rewriting env id).second fuel)) :=
        Answers.once (lawful_rewriting hr hrewritable) ih (fun _ h => h) (fun _ h => h)
          (fun _ _ _ h _ => h) fun _ _ h => h.elim
      exact ⟨honce.roll, honce.pattern, honce.shared, honce.harboured⟩

end

/-- Tables that both runs end in are the same when bare. -/
theorem map_bare_of_pair {S : Simulation} {collectionId : String} {P : SimpleTable → Prop}
    {result result' : Except Failure SimpleTable}
    (h : S.Pair (fun t t' => S.Alike collectionId t t' ∧ P t) result result') :
    result'.map SimpleTable.bare = result.map SimpleTable.bare := by
  cases h with
  | ok hresolved => exact congrArg Except.ok hresolved.1.bare
  | error _ => rfl

end Simulation

/-- The fuel for a request is the same. -/
theorem Surroundings.callBound_rewriting (env : Surroundings) (id : String) (extra : Assoc String) :
    (Simulation.rewriting env id).second.callBound extra = env.callBound extra := by
  have hbound : (Simulation.rewriting env id).second.sharedBound extra = env.sharedBound extra :=
    congrArg (· + extra.length) (env.registry.sumOf_sharedCount_rewriting id)
  rw [callBound, callBound, hbound]
  rfl

namespace Engine

/-! ## Requests -/

/-- An engine in place of another one, in which a collection is rewritten that may be. -/
structure RewritesTo (id : String) (e e' : Engine) : Prop where
  config : e'.config = e.config
  registry : e'.registry = e.registry.rewriting id
  distinct : e.registry.Distinct
  rewritable : e.registry.Rewritable id
  faithful : e.Faithful
  tables : List.Forall₂ RememberedAlike e.resolved e'.resolved

variable {id : String} {e e' : Engine}

/-- The surroundings are those of the second setting. -/
theorem RewritesTo.surroundings (h : RewritesTo id e e') (c : Collection) :
    e'.surroundings (c.rewrittenIn id) = (Simulation.rewriting (e.surroundings c) id).second := by
  rw [Engine.surroundings, Collection.document_rewrittenIn, Collection.id_rewrittenIn, h.config,
    h.registry]
  rfl

/-- What an engine resolves tables in, outside of all requests. -/
def plainSurroundings (e : Engine) (collectionId : String) : Surroundings :=
  { registry := e.registry, base := e.config, config := e.config, collectionId, statics := [] }

open Simulation in
/-- The runs of a request agree, and so do the memories that they leave. -/
theorem RewritesTo.run (h : RewritesTo id e e') (c : Collection) (request : Request)
    (options : Options) :
    (e'.run (c.rewrittenIn id) request options).1 = (e.run c request options).1 ∧
      ∃ resolved frames, (e'.run (c.rewrittenIn id) request options).2 =
          { (e.run c request options).2 with resolved, frames } ∧
        e.registry.Remembers (e.run c request options).2.resolved ∧
        List.Forall₂ RememberedAlike (e.run c request options).2.resolved resolved := by
  let env := e.surroundings c
  let start := e.freshContext request options c.document.statics.keys
  let start' := { start with resolved := e'.resolved }
  have hstart : (rewriting env id).Match start.nesting start start' :=
    ⟨rfl, ⟨start.trace, e'.resolved, [], []⟩,
      ⟨rfl, ⟨h.faithful, h.tables⟩, fun _ => rfl, .nil, fun _ hf => absurd hf List.not_mem_nil⟩, rfl⟩
  have hposed : (rewriting env id).Poses start.nesting request c.document options.shared :=
    ⟨fun _ _ => trivial, fun _ _ => ⟨⟨fun _ _ => ⟨trivial, trivial⟩, fun _ _ => trivial⟩, trivial,
      trivial, fun _ _ _ => trivial⟩, fun _ _ => trivial, rfl, rfl, fun _ _ _ _ _ => trivial⟩
  have hruns := Runs.complete (S := rewriting env id) (lawful_rewriting h.distinct h.rewritable)
    (answers_rewriting h.distinct h.rewritable (env.callBound options.shared)) hposed _ _ hstart
  have hsecond : e'.run (c.rewrittenIn id) request options =
      request.complete (rewriting env id).second
        (Eval.answerWithin (rewriting env id).second (env.callBound options.shared)) c.document
        options.shared start' := by
    rw [Engine.run, h.surroundings]
    change request.complete _ (Eval.answerWithin _ (Surroundings.callBound _ _)) _ _ _ = _
    rw [Surroundings.callBound_rewriting, Collection.document_rewrittenIn]
    rfl
  rcases hruns with ⟨_, _, h⟩ | ⟨-, hresult, v, -, hmatch⟩
  · exact h.elim
  · obtain ⟨parts, ⟨htrace, ⟨hleft, htables⟩, hlog, -, -⟩, hcontext⟩ := hmatch.twin
    rw [hsecond]
    refine ⟨hresult, parts.resolved, parts.frames, hcontext.trans ?_, hleft, htables⟩
    rw [show parts.trace = _ from htrace, show parts.log = _ from hlog trivial]
    rfl

/-- A request is answered in the same way. -/
theorem RewritesTo.evaluate (h : RewritesTo id e e') (collectionId : String) (request : Request)
    (options : Options) :
    (e'.evaluate collectionId request options).result =
        (e.evaluate collectionId request options).result ∧
      (e'.evaluate collectionId request options).records =
        (e.evaluate collectionId request options).records ∧
      RewritesTo id (e.evaluate collectionId request options).engine
        (e'.evaluate collectionId request options).engine := by
  have hreply : ∀ segments result (c : Context) resolved frames, e.registry.Remembers c.resolved →
      List.Forall₂ RememberedAlike c.resolved resolved →
      (e'.reply collectionId request segments result { c with resolved, frames }).result =
          (e.reply collectionId request segments result c).result ∧
        (e'.reply collectionId request segments result { c with resolved, frames }).records =
          (e.reply collectionId request segments result c).records ∧
        RewritesTo id (e.reply collectionId request segments result c).engine
          (e'.reply collectionId request segments result { c with resolved, frames }).engine := by
    intro segments result c resolved frames hleft htables
    refine ⟨?_, ?_, ?_⟩
    · rcases result with (_ | _ | _) | _ <;> rfl
    · rcases result with (_ | _ | _) | _ <;> rfl
    · rw [reply_engine, reply_engine]
      exact ⟨h.config, h.registry, h.distinct, h.rewritable, hleft, htables⟩
  cases hloaded : e.registry.loaded collectionId with
  | error failure =>
      have hmissing : e'.registry.loaded collectionId = .error failure := by
        rw [h.registry, Registry.loaded_rewriting, hloaded]
        rfl
      rw [evaluate_of_missing hloaded, evaluate_of_missing hmissing]
      exact hreply [] _ (e.freshContext request options []) e'.resolved [] h.faithful h.tables
  | ok c =>
      have hloaded' : e'.registry.loaded collectionId = .ok (c.rewrittenIn id) := by
        rw [h.registry, Registry.loaded_rewriting, hloaded]
        rfl
      obtain ⟨hresult, resolved, frames, hcontext, hleft, htables⟩ :=
        h.run c request options
      rw [evaluate_of_loaded hloaded, evaluate_of_loaded hloaded', hresult, hcontext]
      exact hreply _ _ _ resolved frames hleft htables

open Simulation in
/-- So are computations that resolve tables. -/
theorem RewritesTo.resolving (h : RewritesTo id e e') {α : Type} {K : ResolvedTables → Prop}
    {R : ResolvedTables → α → α → Prop} {x y : Resolve α} {collectionId : String}
    (hx : (rewriting (e.plainSurroundings collectionId) id).Resolves K R x y)
    (hK : K e.resolved) :
    (rewriting (e.plainSurroundings collectionId) id).Pair (R (e.resolving x).engine.resolved)
        (e.resolving x).result (e'.resolving y).result ∧
      RewritesTo id (e.resolving x).engine (e'.resolving y).engine := by
  have hrecalls : (rewriting (e.plainSurroundings collectionId) id).Recalls ⟨e.resolved, []⟩
      ⟨e'.resolved, []⟩ := ⟨⟨h.faithful, h.tables⟩, fun _ => rfl⟩
  rcases hx _ _ hrecalls hK with ⟨_, _, h⟩ | ⟨hpair, ⟨⟨hleft, htables⟩, -⟩, -⟩
  · exact h.elim
  · exact ⟨hpair, h.config, h.registry, h.distinct, h.rewritable, hleft, htables⟩

/-- What a table that is held inherits is the same but for what its entries gave. -/
theorem RewritesTo.inherit (h : RewritesTo id e e') {collectionId : String} {t : SimpleTable}
    (ht : e.registry.Holds collectionId t) :
    (e'.inherit (t.rewrittenIn id collectionId) collectionId).result.map SimpleTable.bare =
        (e.inherit t collectionId).result.map SimpleTable.bare ∧
      RewritesTo id (e.inherit t collectionId).engine
        (e'.inherit (t.rewrittenIn id collectionId) collectionId).engine := by
  let env := e.plainSurroundings collectionId
  have halike : (Simulation.rewriting env id).Alike collectionId t (t.rewrittenIn id collectionId) :=
    ⟨Simulation.simple_anything t, fun _ => rfl, t.bare_rewrittenIn id collectionId⟩
  obtain ⟨hpair, hlater⟩ := h.resolving
    (Simulation.inherits_rewriting h.distinct h.rewritable collectionId _ _ halike) (.inl ht)
  rw [Engine.inherit, Engine.inherit, h.config, h.registry]
  exact ⟨Simulation.map_bare_of_pair hpair, hlater⟩

/-- Whatever is asked leaves such engines. -/
theorem RewritesTo.after (h : RewritesTo id e e') {action : Action} (haction : action.Asks) :
    RewritesTo id (e.after action) (e'.after action) := by
  cases action with
  | evaluate collectionId request options =>
      exact (h.evaluate collectionId request options).2.2
  | inherit ref collectionId =>
      rw [Engine.after, Engine.after, h.registry, Registry.resolve_rewriting]
      cases hresolve : e.registry.resolve ref collectionId with
      | error _ => exact h
      | ok found =>
          rcases found with ⟨(t | t | t) | t, owner⟩
          · have hheld := Registry.holds_of_find (e.registry.find_of_resolve hresolve)
            exact (h.inherit hheld).2
          · exact h
          · exact h
          · exact h
  | members ref collectionId =>
      rw [Engine.after, Engine.after, h.registry, Registry.resolve_rewriting]
      cases hresolve : e.registry.resolve ref collectionId with
      | error _ => exact h
      | ok found =>
          rcases found with ⟨(t | t | t) | t, owner⟩
          · exact h
          · exact h
          · let env := e.plainSurroundings collectionId
            have hlawful : (Simulation.rewriting env id).Lawful :=
              Simulation.lawful_rewriting h.distinct h.rewritable
            have hmembers := Simulation.Resolves.members hlawful t owner t.members
            have hlater := (h.resolving hmembers trivial).2
            change RewritesTo id (e.members t owner).engine (e'.members t owner).engine
            rw [Engine.members, Engine.members, h.config, h.registry]
            exact hlater
          · exact h
  | load _ _ _ | loadDocument _ _ _ | tryLoad _ _ _ | unload _ | wireImports _ => exact haction.elim

theorem RewritesTo.afterAll (h : RewritesTo id e e') {history : List Action}
    (hhistory : ∀ action ∈ history, action.Asks) :
    RewritesTo id (e.afterAll history) (e'.afterAll history) := by
  induction history generalizing e e' with
  | nil => exact h
  | cons action rest ih =>
      rw [List.forall_mem_cons] at hhistory
      exact ih (h.after hhistory.1) hhistory.2

end Engine

/-! ## Documents replaced by their own text

A document is written as JSON text, and the collection is loaded from that text. The document is then
as it was but for the fields that its entries give. So tables inherit the same and requests are
answered as before, if the tables of the collection are kept over those that they extend. An entry
that gave no sets, however, overrides those that it inherited: the text says that there are none. -/

namespace Engine

/-- An engine whose collection with an id has another document. Nothing is resolved yet. -/
def replacing (e : Engine) (id : String) (d : Document) : Engine :=
  { e with registry := e.registry.replacing id d, resolved := [] }

variable {e : Engine}

/-- Loading the text of a document does to a collection what replacing the document does, after it
was loaded as it is. -/
theorem engine_load_jsonText (he : e.Reachable) {c : Collection} (hc : c ∈ e.registry.collections)
    {draft : Draft} (hproper : draft.Proper) {records : List LogRecord}
    (hload : Document.load draft = (.ok c.document, records)) (hplain : c.document.Plain)
    (indent : Option Nat) (sourcePath : Option String) :
    (e.load c.id (.text (Text.codes (c.document.jsonText indent))) sourcePath).engine =
      (e.load c.id draft sourcePath).engine.replacing c.id c.document.rewritten := by
  have hagain := Document.load_jsonText hproper hload hplain indent
  have hfree := he.linked.conflict_eq_none hc (d := c.document) rfl
  have hfreeAgain := he.linked.conflict_eq_none hc (d := c.document.rewritten) rfl
  rw [e.engine_load c.id sourcePath hload hfree, e.engine_load c.id sourcePath hagain hfreeAgain]
  exact congrArg (fun collections => ({ e with registry := ⟨collections⟩, resolved := [] } : Engine))
    (Registry.place_replaced (c := { id := c.id, document := c.document, sourcePath })
      he.orderly.distinct c.document.rewritten)

/-- Where the tables of a collection are kept over those that they extend, the text of its document
changes nothing: what tables inherit is the same, and so is every answer. An entry is kept exactly if
it overrides what it inherits as it did. -/
theorem evaluate_of_reloaded (he : e.Reachable) {c : Collection} (hc : c ∈ e.registry.collections)
    {draft : Draft} (hproper : draft.Proper) {records : List LogRecord}
    (hload : Document.load draft = (.ok c.document, records)) (hplain : c.document.Plain)
    (hkeeps : e.registry.Keeps c.id) (indent : Option Nat) :
    let text := Draft.text (Text.codes (c.document.jsonText indent))
    let later := e.replacing c.id c.document.rewritten
    (Document.load text = (.ok c.document.rewritten, records) ∧
      ∀ sourcePath, (e.load c.id text sourcePath).engine =
        (e.load c.id draft sourcePath).engine.replacing c.id c.document.rewritten) ∧
    (∀ t, .simple t ∈ c.document.tables → ∀ own ∈ t.entries, ∀ inherited : Entry,
      (inherited.overriddenBy own.rewritten).bare = (inherited.overriddenBy own).bare ↔
        own.KeptOver inherited) ∧
    (∀ collectionId t, e.registry.Holds collectionId t → ∃ t',
      later.registry.Holds collectionId t' ∧ t'.id = t.id ∧
      (later.inherit t' collectionId).result.map SimpleTable.bare =
        (e.forgetful.inherit t collectionId).result.map SimpleTable.bare) ∧
    ∀ history, (∀ action ∈ history, action.Asks) → ∀ collectionId request options,
      ((later.afterAll history).evaluate collectionId request options).result =
          ((e.forgetful.afterAll history).evaluate collectionId request options).result ∧
        ((later.afterAll history).evaluate collectionId request options).records =
          ((e.forgetful.afterAll history).evaluate collectionId request options).records := by
  intro text later
  have hdistinct := he.orderly.distinct
  have hauthored := (Document.authored_of_load hproper hload).entries
  have hrewritable : e.registry.Rewritable c.id := by
    refine ⟨hkeeps, fun t ht => ?_⟩
    obtain ⟨other, hother, hid, htable⟩ := ht
    obtain rfl := List.inj_on_of_nodup_map hdistinct hother hc hid
    exact hauthored t (List.mem_of_find?_eq_some htable)
  have hregistry : later.registry = e.registry.rewriting c.id :=
    Registry.replacing_rewritten hdistinct hc
  have hrewrites : RewritesTo c.id e.forgetful later :=
    ⟨rfl, hregistry, hdistinct, hrewritable, Faithful.forgetful e, .nil⟩
  refine ⟨⟨Document.load_jsonText hproper hload hplain indent,
    engine_load_jsonText he hc hproper hload hplain indent⟩, ?_, ?_, ?_⟩
  · exact fun t ht own hown => Entry.overriddenBy_rewritten_iff (hauthored t ht own hown)
  · intro collectionId t ht
    refine ⟨t.rewrittenIn c.id collectionId, ?_, t.id_rewrittenIn c.id collectionId, ?_⟩
    · rw [hregistry]
      exact e.registry.holds_rewriting c.id ht
    · exact (hrewrites.inherit ht).1
  · intro history hhistory collectionId request options
    obtain ⟨hresult, hrecords, -⟩ :=
      (hrewrites.afterAll hhistory).evaluate collectionId request options
    exact ⟨hresult, hrecords⟩

/-- An entry that gives its sets is kept. -/
theorem evaluate_of_reloaded_heir :
    let parent : SimpleTable := {
      id := "p", entries := [{ value := some "old", id := some "a", given := [.value, .id] }] }
    let heir : SimpleTable := {
      id := "t", parent := some "p"
      entries := [{
        value := some "new", id := some "a", sets := [("k", "v")], given := [.value, .id, .sets] }] }
    let d : Document := {
      metadata := { name := "n", namespaceText := "c" }, tables := [.simple parent, .simple heir] }
    let j : Json := .obj [("metadata", .obj [("name", .str "n"), ("namespace", .str "c")]),
      ("tables", .arr [
        .obj [("id", .str "p"), ("entries", .arr [
          .obj [("id", .str "a"), ("value", .str "old")]])],
        .obj [("id", .str "t"), ("extends", .str "p"), ("entries", .arr [
          .obj [("id", .str "a"), ("value", .str "new"), ("sets", .obj [("k", .str "v")])]])]])]
    let c : Collection := { id := "c", document := d }
    let e := (({} : Engine).load "c" (.value j) none).engine
    let text := Draft.text (Text.codes (d.jsonText none))
    (e.Reachable ∧ e.registry = ⟨[c]⟩ ∧ j.Proper ∧ Document.load (.value j) = (.ok d, []) ∧
      d.Plain ∧ e.registry.Keeps "c") ∧
    Document.load text = (.ok d.rewritten, []) ∧
    heir.entries.map (·.rewritten.given) ≠ heir.entries.map (·.given) ∧
    ∀ request options, ((e.replacing "c" d.rewritten).evaluate "c" request options).result =
      (e.forgetful.evaluate "c" request options).result := by
  intro parent heir d j c e text
  have hload : Document.load (.value j) = (.ok d, []) :=
    Document.load_of_flawless rfl (by cbv)
  have hregistry : e.registry = ⟨[c]⟩ := by
    change (Engine.load _ _ _ _).engine.registry = _
    rw [engine_load _ _ _ hload rfl]
    rfl
  have hproper : j.Proper := by
    simp [j, Json.proper_obj, Json.proper_arr, Assoc.keys]
  have hplain : d.Plain := Document.plain_of_blocks (by decide)
  have hkeeps : e.registry.Keeps "c" := by
    rw [hregistry]
    rintro t ⟨_, hc, -, htable⟩ hextends owner extended resolved hfind hinherits
    obtain rfl := List.mem_singleton.1 hc
    rcases List.mem_pair.1 (List.mem_of_find?_eq_some htable) with ht | ht
    · cases ht
      exact absurd hextends (by decide)
    · cases ht
      have hparent : (Registry.mk [c]).find "p" "c" =
          .ok (some ⟨.table (.simple parent), "c"⟩) := by cbv
      cases hparent.symm.trans hfind
      cases hinherits with
      | laid hsome _ _ => exact absurd hsome (by decide)
      | own _ =>
          refine ⟨fun inherited hinherited => ?_, trivial⟩
          cases hinherited
          refine ⟨fun f _ => ?_, .inl rfl⟩
          cases f with
          | value | weight | range | id | description | resultType | sets => exact .inl (by decide)
          | assets | tags => exact .inr rfl
  have he : e.Reachable := .load (.initial {}) "c" (.value j) none
  have hc : c ∈ e.registry.collections := by
    rw [hregistry]
    exact .head _
  obtain ⟨⟨hagain, -⟩, -, -, hanswers⟩ := evaluate_of_reloaded he hc
    (show (Draft.value j).Proper from hproper) hload hplain hkeeps none
  exact ⟨⟨he, hregistry, hproper, hload, hplain, hkeeps⟩, hagain, by decide,
    fun request options => (hanswers [] (by rintro _ ⟨⟩) "c" request options).1⟩

/-- An entry that gives no sets inherits them until its document is loaded from its own text. -/
theorem sets_lost_by_reloading :
    let parent : SimpleTable := {
      id := "p"
      entries := [{
        value := some "old", id := some "a", sets := [("k", "v")], given := [.value, .id, .sets] }] }
    let heir : SimpleTable := {
      id := "t", parent := some "p"
      entries := [{ value := some "new", id := some "a", given := [.value, .id] }] }
    let d : Document := {
      metadata := { name := "n", namespaceText := "c" }, tables := [.simple parent, .simple heir] }
    let j : Json := .obj [("metadata", .obj [("name", .str "n"), ("namespace", .str "c")]),
      ("tables", .arr [
        .obj [("id", .str "p"), ("entries", .arr [
          .obj [("id", .str "a"), ("value", .str "old"), ("sets", .obj [("k", .str "v")])]])],
        .obj [("id", .str "t"), ("extends", .str "p"), ("entries", .arr [
          .obj [("id", .str "a"), ("value", .str "new")]])]])]
    let before := (({} : Engine).load "c" (.value j) none).engine
    let later := (before.load "c" (.text (Text.codes (d.jsonText (some 2)))) none).engine
    let inherited (e : Engine) : Option (List (Assoc String)) :=
      match e.registry.resolve "t" "c" with
      | .ok ⟨.table (.simple t), owner⟩ =>
        (e.inherit t owner).result.toOption.map fun resolved => resolved.entries.map Entry.sets
      | _ => none
    Document.load (.value j) = (.ok d, []) ∧
    Document.load (.text (Text.codes (d.jsonText (some 2)))) = (.ok d.rewritten, []) ∧
    inherited before = some [[("k", "v")]] ∧ inherited later = some [[]] := by
  intro parent heir d j before later inherited
  have hload : Document.load (.value j) = (.ok d, []) :=
    Document.load_of_flawless rfl (by cbv)
  have hproper : j.Proper := by
    simp [j, Json.proper_obj, Json.proper_arr, Assoc.keys]
  have hplain : d.Plain := Document.plain_of_blocks (by decide)
  have hagain := Document.load_jsonText (show (Draft.value j).Proper from hproper) hload hplain (some 2)
  have hbefore : before = { registry := ⟨[{ id := "c", document := d }]⟩ } :=
    engine_load {} "c" none hload rfl
  have hlater : later = { registry := ⟨[{ id := "c", document := d.rewritten }]⟩ } := by
    change (Engine.load before "c" _ none).engine = _
    rw [hbefore, engine_load _ "c" none hagain (Option.isNone_iff_eq_none.1 (by decide))]
    rfl
  refine ⟨hload, hagain, ?_, ?_⟩
  · rw [hbefore]
    decide
  · rw [hlater]
    decide

end Engine

end RandomTables
