-- SUMMARY: What loading does to an engine, and the engines that requests lead to.
import Mathlib.Data.List.Nodup
import RandomTables.Engine.Basic
import RandomTables.Proofs.Document.Soundness
import RandomTables.Proofs.Evaluation.Levels
import RandomTables.Proofs.Registry.Inheriting

/-!
# Reachable engines

Collections are loaded and unloaded, imports are wired, and requests are answered, in any order.
Whatever happened before, the registry is orderly, and an engine remembers only tables that
inheritance makes of those that are loaded now.
-/
namespace RandomTables

/-! ## Loading

Whatever a collection is loaded from, the engine is left as it was, or a sound document is put under
the id and the tables resolved so far are forgotten. So the collections of an engine have ids of
their own, and their documents are without errors, in particular without tables of the same id. -/

/-! ## Orderly registries -/

namespace Registry

/-- Every collection has an id of its own and a document without errors. -/
structure Orderly (r : Registry) : Prop where
  distinct : r.Distinct
  sound : ∀ c ∈ r.collections, c.document.errors = []

theorem mem_place {c other : Collection} {collections : List Collection}
    (h : other ∈ place c collections) : other = c ∨ other ∈ collections := by
  induction collections with
  | nil => exact .inl (List.mem_singleton.1 h)
  | cons first rest ih =>
      rw [place] at h
      split at h
      · rcases List.mem_cons.1 h with rfl | h
        · exact .inl rfl
        · exact .inr (List.mem_cons_of_mem _ h)
      · rcases List.mem_cons.1 h with rfl | h
        · exact .inr List.mem_cons_self
        · exact (ih h).imp_right (List.mem_cons_of_mem _)

/-- Putting a collection in its place keeps apart what no other collection shares with it. -/
theorem nodup_place {α : Type} (f : Collection → α) {c : Collection}
    {collections : List Collection} (hids : (collections.map (·.id)).Nodup)
    (h : (collections.map f).Nodup) (hother : ∀ other ∈ collections, other.id ≠ c.id → f other ≠ f c) :
    ((place c collections).map f).Nodup := by
  induction collections with
  | nil => exact List.nodup_singleton _
  | cons first rest ih =>
      rw [List.map_cons, List.nodup_cons] at hids h
      rw [List.forall_mem_cons] at hother
      rw [place]
      split
      · rename_i hid
        refine List.nodup_cons.2 ⟨fun hmem => ?_, h.2⟩
        obtain ⟨other, hrest, hsame⟩ := List.mem_map.1 hmem
        refine hother.2 other hrest (fun heq => ?_) hsame
        exact hids.1 (List.mem_map.2 ⟨other, hrest, heq.trans hid.symm⟩)
      · rename_i hne
        refine List.nodup_cons.2 ⟨fun hmem => ?_, ih hids.2 h.2 hother.2⟩
        obtain ⟨other, hplaced, hsame⟩ := List.mem_map.1 hmem
        rcases mem_place hplaced with rfl | hrest
        · exact hother.1 hne hsame.symm
        · exact h.1 (List.mem_map.2 ⟨other, hrest, hsame⟩)

namespace Orderly

variable {r : Registry}

theorem empty : ({} : Registry).Orderly :=
  ⟨List.nodup_nil, fun _ h => absurd h List.not_mem_nil⟩

theorem add (hr : r.Orderly) {id : String} {d : Document} {sourcePath : Option String}
    (hd : d.errors = []) {r' : Registry} (h : r.add id d sourcePath = .ok r') : r'.Orderly := by
  unfold Registry.add at h
  split at h
  · cases h
  · cases h
    refine ⟨nodup_place _ hr.distinct hr.distinct fun _ _ hne => hne, fun c hc => ?_⟩
    rcases mem_place hc with rfl | hc
    · exact hd
    · exact hr.sound c hc

theorem remove (hr : r.Orderly) (id : String) : (r.remove id).Orderly := by
  have hids : (r.remove id).ids = (r.collections.filter fun c => c.id != id).map (·.id) := by
    rw [ids, Registry.remove, List.map_map]
    rfl
  refine ⟨?_, fun c hc => ?_⟩
  · rw [Distinct, hids]
    exact hr.distinct.sublist (List.filter_sublist.map _)
  · obtain ⟨c, hkept, rfl⟩ := List.mem_map.1 hc
    exact hr.sound c (List.mem_filter.1 hkept).1

theorem wireAll (hr : r.Orderly) (paths : Assoc String) : (r.wireAll paths).Orderly := by
  have hids : (r.wireAll paths).ids = r.ids := by
    rw [ids, Registry.wireAll, List.map_map]
    rfl
  refine ⟨?_, fun c hc => ?_⟩
  · rw [Distinct, hids]
    exact hr.distinct
  · obtain ⟨other, hother, rfl⟩ := List.mem_map.1 hc
    exact hr.sound other hother

/-- Every simple table of a collection is the one that its id means. -/
theorem holds (hr : r.Orderly) {c : Collection} (hc : c ∈ r.collections) {t : SimpleTable}
    (ht : .simple t ∈ c.document.tables) : r.Holds c.id t :=
  ⟨c, hc, rfl, Assoc.find?_key_of_mem (Document.nodup_tables (hr.sound c hc)) ht⟩

end Orderly

end Registry

/-! ## Loading -/

namespace Engine

/-- What loading makes of an engine: it stays as it was, or a sound document is added and all
resolved tables are forgotten. -/
inductive Loads (e : Engine) : Engine → Prop where
  | refused : Loads e e
  | added {id : String} {d : Document} {sourcePath : Option String} {registry : Registry}
    (hsound : d.errors = []) (hadd : e.registry.add id d sourcePath = .ok registry) :
    Loads e { e with registry, resolved := [] }

variable (e : Engine) (id : String) (sourcePath : Option String)

theorem loads_addChecked {checked : Except Failure Document} (records : List LogRecord)
    (h : ∀ d, checked = .ok d → d.errors = []) :
    e.Loads (e.addChecked id sourcePath checked records).engine := by
  cases checked with
  | error f => exact .refused
  | ok d =>
      unfold addChecked Engine.add
      dsimp only
      cases hadd : e.registry.add id d sourcePath with
      | error f => exact .refused
      | ok registry => exact .added (h d rfl) hadd

theorem loads_loadDocument (d : Document) :
    e.Loads (e.loadDocument id d sourcePath).engine := by
  refine e.loads_addChecked id sourcePath _ fun d' h => ?_
  obtain ⟨rfl, hsound⟩ := Document.of_ensureSound h
  exact hsound

theorem loads_load (draft : Draft) : e.Loads (e.load id draft sourcePath).engine := by
  refine e.loads_addChecked id sourcePath _ fun d h => ?_
  split at h
  · obtain ⟨rfl, hsound⟩ := Document.of_ensureSound h
    exact hsound
  · cases h

theorem loads_tryLoad (draft : Draft) : e.Loads (e.tryLoad id draft sourcePath).engine := by
  unfold tryLoad
  cases Document.ofDraft draft with
  | ok d =>
      dsimp only
      split
      · exact e.loads_loadDocument id sourcePath d
      · exact e.loads_loadDocument id sourcePath d
  | error error =>
      dsimp only
      split
      · exact .refused
      · exact .refused

/-- A document without errors is loaded if no other collection has its namespace. -/
theorem engine_loadDocument {d : Document} (hsound : d.errors.isEmpty = true)
    (hfree : e.registry.conflict? id d = none) :
    (e.loadDocument id d sourcePath).engine =
      { e with
        registry := ⟨Registry.place { id, document := d, sourcePath } e.registry.collections⟩
        resolved := [] } := by
  have hchecked : d.ensureSound = .ok d := by rw [Document.ensureSound, if_pos hsound]
  rw [loadDocument, hchecked]
  simp only [addChecked, Engine.add, Registry.add, hfree]

/-- So is what is read from a draft. -/
theorem engine_load {draft : Draft} {d : Document} {records : List LogRecord}
    (hload : Document.load draft = (.ok d, records)) (hfree : e.registry.conflict? id d = none) :
    (e.load id draft sourcePath).engine =
      { e with
        registry := ⟨Registry.place { id, document := d, sourcePath } e.registry.collections⟩
        resolved := [] } := by
  rw [load, hload]
  simp only [addChecked, Engine.add, Registry.add, hfree]

end Engine

/-! ## Engines that requests lead to -/

namespace Registry

/-- Derived tables stem from the documents alone. -/
theorem Derived.mono {r r' : Registry}
    (hr : ∀ c ∈ r.collections, ∃ c' ∈ r'.collections, c'.document = c.document) {t : SimpleTable}
    (h : r.Derived t) : r'.Derived t := by
  induction h with
  | own hc ht =>
      obtain ⟨c', hc', hdocument⟩ := hr _ hc
      exact .own hc' (hdocument ▸ ht)
  | identified _ ih => exact .identified ih
  | laidOver _ _ ih ihparent => exact .laidOver ih ihparent

end Registry

namespace Engine

/-- The engines that loading, unloading and requests lead to. -/
inductive Reachable : Engine → Prop where
  | initial (config : Config) : Reachable { config }
  | load {e : Engine} (he : Reachable e) (id : String) (draft : Draft)
    (sourcePath : Option String) : Reachable (e.load id draft sourcePath).engine
  | loadDocument {e : Engine} (he : Reachable e) (id : String) (d : Document)
    (sourcePath : Option String) : Reachable (e.loadDocument id d sourcePath).engine
  | tryLoad {e : Engine} (he : Reachable e) (id : String) (draft : Draft)
    (sourcePath : Option String) : Reachable (e.tryLoad id draft sourcePath).engine
  | unload {e : Engine} (he : Reachable e) (id : String) : Reachable (e.unload id).engine
  | wireImports {e : Engine} (he : Reachable e) (paths : Assoc String) :
    Reachable (e.wireImports paths).engine
  | inherit {e : Engine} (he : Reachable e) {ref collectionId owner : String} {t : SimpleTable}
    (ht : e.registry.resolve ref collectionId = .ok ⟨.table (.simple t), owner⟩) :
    Reachable (e.inherit t owner).engine
  | members {e : Engine} (he : Reachable e) (t : CollectionTable) (collectionId : String) :
    Reachable (e.members t collectionId).engine
  | evaluate {e : Engine} (he : Reachable e) (collectionId : String) (request : Request)
    (options : Options) : Reachable (e.evaluate collectionId request options).engine

/-- Every resolved table is derived from the registry. -/
def Derived (e : Engine) : Prop := ∀ t ∈ e.resolved, e.registry.Derived t.2

variable {e : Engine}

theorem reply_engine (e : Engine) (collectionId : String) (request : Request)
    (segments : List Segment) (result : Except Failure Outcome) (c : Context) :
    (e.reply collectionId request segments result c).engine =
      { e with resolved := c.resolved } := by
  unfold reply
  dsimp only
  split <;> rfl

theorem evaluate_of_loaded {collectionId : String} {c : Collection}
    (hc : e.registry.loaded collectionId = .ok c) (request : Request) (options : Options) :
    e.evaluate collectionId request options =
      e.reply collectionId request (e.run c request options).1.1 (e.run c request options).1.2
        (e.run c request options).2 := by
  unfold evaluate
  rw [hc]

theorem evaluate_of_missing {collectionId : String} {failure : ResolutionFailure}
    (hc : e.registry.loaded collectionId = .error failure) (request : Request) (options : Options) :
    e.evaluate collectionId request options =
      e.reply collectionId request [] (.error (.resolution failure))
        (e.freshContext request options []) := by
  unfold evaluate
  rw [hc]

theorem registry_evaluate (e : Engine) (collectionId : String) (request : Request)
    (options : Options) : (e.evaluate collectionId request options).engine.registry = e.registry := by
  unfold evaluate
  split <;> rw [reply_engine]

open Simulation in
/-- An evaluation keeps what the registry upholds. -/
theorem resolved_evaluate {M : Material} {I : ResolvedTables → Prop}
    {K : ResolvedTables → String → SimpleTable → Prop} (hM : M.Lenient)
    (hname : ∀ name, M.name name) (hr : e.registry.Upholds M I K) (he : I e.resolved)
    (collectionId : String) (request : Request) (options : Options) :
    I (e.evaluate collectionId request options).engine.resolved := by
  unfold evaluate
  split
  · rw [reply_engine]
    exact he
  · rename_i c hc
    rw [reply_engine]
    have hupholds : (e.surroundings c).registry.Upholds M I K := hr
    have hlevelled : (keeping (e.surroundings c) .same M I K fun _ _ => True).Levelled I K
        fun _ _ => True := levelled_keeping hupholds hM hname fun _ _ _ _ _ => trivial
    have hself := hlevelled.answers ((e.surroundings c).callBound options.shared)
    have hruns := hlevelled.complete hself
      (w := (e.freshContext request options c.document.statics.keys).nesting) trivial rfl rfl request
      c.document options.shared
    rcases hruns _ _ (hlevelled.bare rfl rfl rfl rfl he) with
      ⟨_, _, h⟩ | ⟨-, -, v, -, hmatch⟩
    · exact h.elim
    · obtain ⟨v, hv, -⟩ := hmatch.twin
      exact hv.resolved.2

namespace Derived

/-- Resolved tables are made of what the registry is made of. -/
theorem resolved (he : e.Derived) {M : Material} (hr : M.Registry e.registry) :
    M.Resolved e.resolved := fun t ht => (he t ht).simple hr

/-! ## Loading -/

theorem loads (he : e.Derived) {e' : Engine} (h : e.Loads e') : e'.Derived := by
  cases h with
  | refused => exact he
  | added _ _ => exact fun t ht => absurd ht List.not_mem_nil

theorem unload (he : e.Derived) (id : String) : (e.unload id).engine.Derived := by
  unfold Engine.unload
  split
  · exact fun t ht => absurd ht List.not_mem_nil
  · exact he

theorem wireImports (he : e.Derived) (paths : Assoc String) :
    (e.wireImports paths).engine.Derived := by
  intro t ht
  refine (he t ht).mono fun c hc => ⟨{ c with wired := (e.registry.wire paths c).1 }, ?_, rfl⟩
  exact List.mem_map.2 ⟨c, hc, rfl⟩

/-! ## Resolving -/

theorem resolving {α : Type} (he : e.Derived) {P : ResolvedTables → α → Prop} {x : Resolve α}
    (hx : x.Keeps (Material.ofRegistry e.registry).Resolved (fun _ => True) P) :
    (e.resolving x).engine.Derived := by
  have hbefore := he.resolved (Material.registry_ofRegistry e.registry)
  exact fun t ht => ((hx ⟨e.resolved, []⟩ hbefore trivial).1 t ht).made

theorem inherit (he : e.Derived) {ref collectionId owner : String} {t : SimpleTable}
    (ht : e.registry.resolve ref collectionId = .ok ⟨.table (.simple t), owner⟩) :
    (e.inherit t owner).engine.Derived := by
  have hr := Material.registry_ofRegistry e.registry
  have hmade : (Material.ofRegistry e.registry).Simple t := hr.target_of_resolve ht
  exact he.resolving ((Registry.inherit_keeps (Registry.tracks_material hr) t owner).of_imp
    fun _ _ => hmade)

theorem members (he : e.Derived) (t : CollectionTable) (collectionId : String) :
    (e.members t collectionId).engine.Derived :=
  he.resolving (Registry.members_keeps
    (Registry.tracks_material (Material.registry_ofRegistry e.registry)) (Q := fun _ _ => True)
    (fun _ => trivial) t collectionId t.members)

/-! ## Requests -/

theorem evaluate (he : e.Derived) (collectionId : String) (request : Request) (options : Options) :
    (e.evaluate collectionId request options).engine.Derived := by
  have hr := Material.registry_ofRegistry e.registry
  have hafter := resolved_evaluate (Material.lenient_ofRegistry _) (fun _ => trivial)
    (Registry.upholds_material hr) (he.resolved hr) collectionId request options
  intro t ht
  rw [registry_evaluate]
  exact (hafter t ht).made

end Derived

namespace Reachable

theorem derived (he : e.Reachable) : e.Derived := by
  induction he with
  | initial config => exact fun t ht => absurd ht List.not_mem_nil
  | load _ id draft sourcePath ih => exact ih.loads (loads_load _ id sourcePath draft)
  | loadDocument _ id d sourcePath ih => exact ih.loads (loads_loadDocument _ id sourcePath d)
  | tryLoad _ id draft sourcePath ih => exact ih.loads (loads_tryLoad _ id sourcePath draft)
  | unload _ id ih => exact ih.unload id
  | wireImports _ paths ih => exact ih.wireImports paths
  | inherit _ ht ih => exact ih.inherit ht
  | members _ t collectionId ih => exact ih.members t collectionId
  | evaluate _ collectionId request options ih => exact ih.evaluate collectionId request options

/-- The registry of a reachable engine is orderly. -/
theorem orderly (he : e.Reachable) : e.registry.Orderly := by
  have hloads : ∀ {e e' : Engine}, e.Loads e' → e.registry.Orderly → e'.registry.Orderly := by
    intro e e' h he
    cases h with
    | refused => exact he
    | added hsound hadd => exact he.add hsound hadd
  induction he with
  | initial config => exact .empty
  | load _ id draft sourcePath ih => exact hloads (loads_load _ id sourcePath draft) ih
  | loadDocument _ id d sourcePath ih => exact hloads (loads_loadDocument _ id sourcePath d) ih
  | tryLoad _ id draft sourcePath ih => exact hloads (loads_tryLoad _ id sourcePath draft) ih
  | unload _ id ih =>
      unfold Engine.unload
      split
      · exact ih.remove id
      · exact ih
  | wireImports _ paths ih => exact ih.wireAll paths
  | inherit _ _ ih => exact ih
  | members _ _ _ ih => exact ih
  | evaluate _ collectionId request options ih =>
      rw [registry_evaluate]
      exact ih

end Reachable

end Engine

end RandomTables
