-- SUMMARY: A bundle holds what imports lead to, nearer collections first, and lists the imports that lead nowhere.
import RandomTables.Proofs.Engine.Caching
import RandomTables.Proofs.Registry.Aliases
import RandomTables.Proofs.Registry.Breadth

/-!
# What a bundle holds

The bundle of a collection holds exactly what a chain of imports leads to, whatever circles they
make, each collection once and as it is registered. It lists the import paths that lead nowhere, and
leaves the engine as it was.
-/
namespace RandomTables

namespace Registry

variable {r : Registry} {c d : Collection} {i : Import}

/-! ## Where an export follows imports -/

/-- Where an export follows the imports of a collection. -/
def exported (r : Registry) : Leading := fun c i => r.exportTarget ⟨c, [], i⟩

theorem mem_of_exported (h : r.exported c i = some d) : d ∈ r.collections := by
  rcases Option.or_eq_some_iff.1 h with hwired | ⟨-, hpath⟩
  · obtain ⟨id, -, hget⟩ := Option.bind_eq_some_iff.1 hwired
    exact List.mem_of_find?_eq_some hget
  · exact mem_of_atPath hpath

/-- An import has no loaded target: its alias is not wired to a loaded collection, and no collection
has its path as namespace or id. -/
def Dangles (r : Registry) (c : Collection) (i : Import) : Prop :=
  (∀ id, c.wired.get? i.importAlias = some id → r.get? id = none) ∧
    ∀ other ∈ r.collections, other.namespaceText ≠ i.path ∧ other.id ≠ i.path

theorem exported_eq_none_iff : r.exported c i = none ↔ r.Dangles c i := by
  have hpath : r.atPath [] i.path = none ↔
      ∀ other ∈ r.collections, other.namespaceText ≠ i.path ∧ other.id ≠ i.path := by
    rw [atPath_nil, Option.or_eq_none_iff, withNamespace?, get?, List.find?_eq_none,
      List.find?_eq_none]
    simp only [decide_eq_true_eq, ← forall₂_and]
  rw [exported, exportTarget, Option.or_eq_none_iff, Option.bind_eq_none_iff, hpath]
  rfl

/-- The ids of the collections that the imports of a collection lead to, in their order. -/
def exportedIds (r : Registry) (c : Collection) : List String :=
  c.document.imports.filterMap fun i => (r.exported c i).map (·.id)

end Registry

namespace Export

theorem nodup_eraseDups {α : Type} [BEq α] [LawfulBEq α] (l : List α) : l.eraseDups.Nodup := by
  induction hlength : l.length using Nat.strongRecOn generalizing l with
  | ind n ih =>
      cases l with
      | nil => exact List.nodup_nil
      | cons a rest =>
          have hshorter : (rest.filter fun b => !b == a).length < n := by
            rw [← hlength, List.length_cons]
            exact Nat.lt_succ_of_le (List.length_filter_le _ _)
          rw [List.eraseDups_cons]
          refine List.nodup_cons.2 ⟨fun hmem => ?_, ih _ hshorter _ rfl⟩
          have hother := (List.mem_filter.1 (List.mem_eraseDups.1 hmem)).2
          simp at hother

namespace Bundle

/-! ## Closed bundles -/

/-- A bundle closes a collection under its imports. -/
structure Closes (r : Registry) (c : Collection) (b : Bundle) : Prop where
  main : b.main = c
  /-- The dependencies are the other collections to which a chain of imports leads. -/
  reached : ∀ d, d ∈ b.dependencies ↔ d.id ≠ c.id ∧ ∃ path, Trail r.exported c path d
  registered : ∀ d ∈ b.dependencies, r.get? d.id = some d
  once : (b.collections.map (·.id)).Nodup
  /-- No dependency is farther away than a later one. -/
  nearer : b.dependencies.Pairwise fun d e => ∀ path, Trail r.exported c path e →
    ∃ shorter, Trail r.exported c shorter d ∧ shorter.length ≤ path.length
  /-- Each dependency is where an import of the earlier collections first leads to it. -/
  queued : b.collections.map (·.id) = (c.id :: b.collections.flatMap r.exportedIds).eraseDups
  /-- The paths that are listed are those of the imports without a loaded target. -/
  dangling : ∀ path, path ∈ b.dangling ↔
    ∃ d ∈ b.collections, ∃ i ∈ d.document.imports, i.path = path ∧ r.Dangles d i
  danglingOnce : b.dangling.Nodup

variable {r : Registry} {c : Collection}

theorem mem_danglingPaths {d : Collection} {path : String} :
    path ∈ danglingPaths r d ↔ ∃ i ∈ d.document.imports, i.path = path ∧ r.Dangles d i := by
  rw [danglingPaths, List.mem_map]
  constructor
  · rintro ⟨link, hlink, rfl⟩
    obtain ⟨hmem, hnone⟩ := List.mem_filter.1 hlink
    obtain ⟨i, hi, rfl⟩ := List.mem_map.1 hmem
    exact ⟨i, hi, rfl, Registry.exported_eq_none_iff.1 (Option.isNone_iff_eq_none.1 hnone)⟩
  · rintro ⟨i, hi, rfl, hdangles⟩
    refine ⟨⟨d, [], i⟩, List.mem_filter.2 ⟨List.mem_map_of_mem hi, ?_⟩, rfl⟩
    exact Option.isNone_iff_eq_none.2 (Registry.exported_eq_none_iff.2 hdangles)

theorem closes_ofCollection (hr : r.Distinct) (hc : c ∈ r.collections) :
    (ofCollection r c).Closes r c := by
  have hloaded : ∀ c i d, r.exported c i = some d → d ∈ r.collections :=
    fun _ _ _ => Registry.mem_of_exported
  have hreached : ∀ {d}, d ∈ (ofCollection r c).dependencies ↔
      d.id ≠ c.id ∧ ∃ path, Trail r.exported c path d :=
    Registry.mem_reachedFrom_iff hloaded Registry.behind_perm hr hc
  refine ⟨rfl, fun d => hreached, fun d hd => ?_, ?_, ?_, ?_, fun path => ?_, nodup_eraseDups _⟩
  · obtain ⟨-, path, htrail⟩ := hreached.1 hd
    exact Registry.get?_of_mem hr (htrail.mem hloaded hc)
  · have hnodup := Registry.nodup_reachedFrom hloaded Registry.behind_perm c
    rw [collections, List.map_cons, ofCollection, List.map_map]
    exact hnodup
  · refine List.pairwise_map.2 ?_
    refine (Registry.sorted_reachedFrom hloaded c).imp_of_mem
      fun {p q} hp hq hle path htrail => ⟨p.1, ?_, ?_⟩
    · exact Registry.trail_of_reachedFrom hloaded Registry.behind_perm hp
    · exact Nat.le_trans hle (Registry.length_le_of_trail hloaded hr hc hq htrail)
  · have hqueue : (ofCollection r c).collections.flatMap r.exportedIds =
        (([], c) :: r.reachedInBreadth c).flatMap fun p =>
          (Link.ofCollection p.1 p.2).filterMap (Link.targetId? r.exported) := by
      simp only [collections, ofCollection, List.flatMap_cons, List.flatMap_map, Link.ofCollection,
        List.filterMap_map]
      rfl
    rw [hqueue, collections, List.map_cons, ofCollection, List.map_map]
    exact Registry.ids_reachedFrom hloaded c
  · rw [ofCollection, List.mem_eraseDups, List.mem_flatMap]
    simp only [mem_danglingPaths]
    rfl

end Bundle

end Export

namespace Engine

open Export

/-- The bundle of a loaded collection closes it under its imports. -/
theorem bundle_of_loaded {e : Engine} {id : String} {c : Collection} (hr : e.registry.Distinct)
    (hc : e.registry.get? id = some c) :
    ∃ b, (e.bundle id).result = .ok b ∧ (e.bundle id).engine = e ∧ b.Closes e.registry c := by
  refine ⟨Bundle.ofCollection e.registry c, ?_, ?_,
    Bundle.closes_ofCollection hr (List.mem_of_find?_eq_some hc)⟩
  · rw [bundle, Registry.loaded, hc]
  · rw [bundle, Registry.loaded, hc]

/-- Two imports lead to the same collection by different ways, one of them leads back to where it
came from, and one leads nowhere in two collections. -/
theorem bundle_of_loaded_circle :
    let plain (name : String) (paths : List String) : Document := {
      metadata := { name, namespaceText := name }
      imports := paths.map fun path => { path, importAlias := path }
      tables := [.simple { id := "t", entries := [{ value := some "v" }] }] }
    let e : Engine := ({} : Engine).afterAll [.loadDocument "1" (plain "d" ["y"]) none,
      .loadDocument "2" (plain "c" ["d", "y"]) none, .loadDocument "3" (plain "b" ["x", "d"]) none,
      .loadDocument "4" (plain "a" ["b", "2", "a", "x"]) none,
      .loadDocument "5" (plain "e" ["a"]) none, .wireImports [("y", "4")]]
    e.Reachable ∧ e.registry.Distinct ∧
    (∃ c, e.registry.get? "4" = some c ∧ ∃ b, (e.bundle "4").result = .ok b ∧
      (e.bundle "4").engine = e ∧ b.Closes e.registry c) ∧
    (e.bundle "4").result.toOption.map (fun b => (b.collections.map (·.id), b.dangling)) =
      some (["4", "3", "2", "1"], ["x"]) := by
  intro plain e
  have he : e.Reachable :=
    .wireImports (.loadDocument (.loadDocument (.loadDocument (.loadDocument (.loadDocument
      (.initial {}) "1" _ none) "2" _ none) "3" _ none) "4" _ none) "5" _ none) _
  have hloaded : (e.registry.get? "4").isSome := by decide +kernel
  obtain ⟨c, hc⟩ := Option.isSome_iff_exists.1 hloaded
  exact ⟨he, he.orderly.distinct, ⟨c, hc, bundle_of_loaded he.orderly.distinct hc⟩,
    by decide +kernel⟩

end Engine

end RandomTables
