-- SUMMARY: Where the imports are wired, and what loading and removing collections does to the wires.
import RandomTables.Proofs.Assoc
import RandomTables.Proofs.Engine.Reachable

/-!
# Links between collections

A wire leads from an alias that a document declares to another collection that is loaded. Loading
and removing collections and wiring their imports keep it so: what is loaded in the place of another
document begins without wires, and removing a collection cuts the wires to it.
-/
namespace RandomTables

namespace Registry

variable {r : Registry}

/-! ## Wiring -/

section

variable (r) (paths : Assoc String) (c : Collection)

/-- The wire of an import, if it leads somewhere. -/
def wireOf (i : Import) : Option (String × String) :=
  (r.wireTarget paths c.id i).map fun target => (i.importAlias, target.id)

/-- The wires are those of the imports that lead somewhere; the other imports are missing. -/
theorem wire_eq : r.wire paths c =
    (Assoc.ofPairs (c.document.imports.filterMap (r.wireOf paths c)),
      c.document.imports.filter fun i => (r.wireTarget paths c.id i).isNone) := by
  -- after what was wired and what was missing before
  let before : Assoc String × List Import := ([], [])
  change _ = (before.1.putAll _, before.2 ++ _)
  rw [wire]
  change List.foldl _ before _ = _
  generalize before = found
  induction c.document.imports generalizing found with
  | nil => exact Prod.ext rfl (List.append_nil found.2).symm
  | cons i rest ih =>
      rw [List.foldl_cons, List.filterMap_cons, List.filter_cons, wireOf]
      cases htarget : r.wireTarget paths c.id i with
      | some target => exact ih _
      | none =>
          dsimp only
          rw [ih, Option.isNone_none, if_pos rfl, List.append_assoc]
          rfl

end

variable {paths : Assoc String} {c : Collection}

theorem id_ne_of_wireTarget {owner : String} {i : Import} {target : Collection}
    (h : r.wireTarget paths owner i = some target) : target.id ≠ owner :=
  bne_iff_ne.1 (Option.filter_eq_some_iff.1 h).2

theorem mem_of_atPath {path : String} {target : Collection}
    (h : r.atPath paths path = some target) : target ∈ r.collections := by
  rcases Option.or_eq_some_iff.1 h with hfirst | ⟨-, hid⟩
  · rcases Option.or_eq_some_iff.1 hfirst with hmap | ⟨-, hnamespace⟩
    · obtain ⟨id, -, hget⟩ := Option.bind_eq_some_iff.1 hmap
      exact List.mem_of_find?_eq_some hget
    · exact List.mem_of_find?_eq_some hnamespace
  · exact List.mem_of_find?_eq_some hid

theorem mem_of_wireTarget {owner : String} {i : Import} {target : Collection}
    (h : r.wireTarget paths owner i = some target) : target ∈ r.collections :=
  mem_of_atPath (Option.filter_eq_some_iff.1 h).1

theorem key_wireOf (i : Import) (wire : String × String) (h : r.wireOf paths c i = some wire) :
    wire.1 = i.importAlias := by
  obtain ⟨target, -, rfl⟩ := Option.map_eq_some_iff.1 h
  rfl

section

variable (haliases : (c.document.imports.map Import.importAlias).Nodup)
include haliases

/-- Where no alias is declared twice, every import that leads somewhere has a wire of its own. -/
theorem wires_of_nodup :
    (r.wire paths c).1 = c.document.imports.filterMap (r.wireOf paths c) := by
  rw [wire_eq]
  exact Assoc.ofPairs_of_nodup (haliases.sublist (Assoc.keys_filterMap_sublist key_wireOf _))

theorem mem_wire {wire : String × String} : wire ∈ (r.wire paths c).1 ↔
    ∃ i ∈ c.document.imports, ∃ target,
      r.wireTarget paths c.id i = some target ∧ (i.importAlias, target.id) = wire := by
  simp only [wires_of_nodup haliases, List.mem_filterMap, wireOf, Option.map_eq_some_iff]

/-- An alias is wired to where its import leads. -/
theorem get?_wire {i : Import} (hi : i ∈ c.document.imports) :
    (r.wire paths c).1.get? i.importAlias = (r.wireTarget paths c.id i).map (·.id) := by
  rw [wires_of_nodup haliases, Assoc.get?_filterMap key_wireOf haliases hi, wireOf, Option.map_map]
  rfl

end

/-- The paths that are reported under the id of a collection are those of its imports that lead
nowhere. -/
theorem mem_unresolved (hr : r.Distinct) (hc : c ∈ r.collections) {path : String} :
    path ∈ ((r.unresolved paths).get? c.id).getD [] ↔
      ∃ i ∈ c.document.imports, r.wireTarget paths c.id i = none ∧ i.path = path := by
  have hmissing : ((r.unresolved paths).get? c.id).getD [] = (r.wire paths c).2.map (·.path) := by
    rw [unresolved, Assoc.get?_filterMap ?keyed hr hc]
    case keyed =>
      intro c p h
      split at h
      · cases h
      · cases h
        rfl
    split
    · rename_i hnone
      rw [hnone]
      rfl
    · rfl
  rw [hmissing, wire_eq]
  simp only [List.mem_map, List.mem_filter, Option.isNone_iff_eq_none, and_assoc]

/-- The path of an import is reported exactly if it leads nowhere. -/
theorem reported_iff (hr : r.Distinct) (hc : c ∈ r.collections) {i : Import}
    (hi : i ∈ c.document.imports) :
    i.path ∈ ((r.unresolved paths).get? c.id).getD [] ↔ r.wireTarget paths c.id i = none := by
  rw [mem_unresolved hr hc]
  refine ⟨?_, fun h => ⟨i, hi, h, rfl⟩⟩
  rintro ⟨other, -, hnone, hpath⟩
  rw [wireTarget, hpath] at hnone
  exact hnone

/-! ## Linked registries -/

/-- A wire leads from an alias of the document to another collection that is loaded. -/
structure IsWire (r : Registry) (c : Collection) (wire : String × String) : Prop where
  declared : wire.1 ∈ c.document.imports.map Import.importAlias
  other : wire.2 ≠ c.id
  loaded : wire.2 ∈ r.ids

/-- No two collections have the same namespace, and every wire is one, with an alias of its own. -/
structure Linked (r : Registry) : Prop where
  namespaces : (r.collections.map Collection.namespaceText).Nodup
  aliases : ∀ c ∈ r.collections, c.wired.keys.Nodup
  wires : ∀ c ∈ r.collections, ∀ wire ∈ c.wired, r.IsWire c wire

theorem mem_ids_place {collections : List Collection} {id : String}
    (h : id ∈ collections.map (·.id)) : id ∈ (place c collections).map (·.id) := by
  induction collections with
  | nil => cases h
  | cons first rest ih =>
      rw [place]
      split
      · rename_i hid
        rw [List.map_cons, hid] at h
        exact h
      · rcases List.mem_cons.1 h with rfl | hrest
        · exact List.mem_cons_self
        · exact List.mem_cons_of_mem _ (ih hrest)

namespace Linked

theorem empty : ({} : Registry).Linked :=
  ⟨List.nodup_nil, fun _ h => absurd h List.not_mem_nil, fun _ h => absurd h List.not_mem_nil⟩

/-- A collection makes room for a document with its namespace. -/
theorem conflict_eq_none (h : r.Linked) {c : Collection} (hc : c ∈ r.collections) {d : Document}
    (hmetadata : d.metadata = c.document.metadata) : r.conflict? c.id d = none := by
  refine List.find?_eq_none.2 fun other hother => ?_
  rw [Bool.and_eq_true, bne_iff_ne, decide_eq_true_eq, hmetadata]
  rintro ⟨hid, hsame⟩
  exact hid (congrArg Collection.id (List.inj_on_of_nodup_map h.namespaces hother hc hsame))

theorem add (h : r.Linked) (hr : r.Distinct) {id : String} {d : Document}
    {sourcePath : Option String} {r' : Registry} (hadd : r.add id d sourcePath = .ok r') :
    r'.Linked := by
  unfold Registry.add at hadd
  split at hadd
  · cases hadd
  · rename_i hfree
    cases hadd
    have hnamespace : ∀ other ∈ r.collections, other.id ≠ id →
        other.namespaceText ≠ d.metadata.namespaceText := by
      intro other hother hid hsame
      have hnone := List.find?_eq_none.1 hfree other hother
      simp [hid, hsame] at hnone
    refine ⟨nodup_place _ hr h.namespaces hnamespace, fun c hc => ?_, fun c hc wire hwire => ?_⟩
    · rcases mem_place hc with rfl | hc
      · exact List.nodup_nil
      · exact h.aliases c hc
    · rcases mem_place hc with rfl | hc
      · cases hwire
      · obtain ⟨hdeclared, hother, hloaded⟩ := h.wires c hc wire hwire
        exact ⟨hdeclared, hother, mem_ids_place hloaded⟩

theorem remove (h : r.Linked) (id : String) : (r.remove id).Linked := by
  have hnamespaces : (r.remove id).collections.map Collection.namespaceText =
      (r.collections.filter fun c => c.id != id).map Collection.namespaceText := by
    rw [Registry.remove, List.map_map]
    rfl
  refine ⟨?_, fun c hc => ?_, fun c hc wire hwire => ?_⟩
  · rw [hnamespaces]
    exact h.namespaces.sublist (List.filter_sublist.map _)
  · obtain ⟨c, hkept, rfl⟩ := List.mem_map.1 hc
    exact (h.aliases c (List.mem_filter.1 hkept).1).sublist (List.filter_sublist.map _)
  · obtain ⟨c, hkept, rfl⟩ := List.mem_map.1 hc
    obtain ⟨hwired, hcut⟩ := List.mem_filter.1 hwire
    obtain ⟨hdeclared, hother, hloaded⟩ := h.wires c (List.mem_filter.1 hkept).1 wire hwired
    refine ⟨hdeclared, hother, ?_⟩
    obtain ⟨target, htarget, hid⟩ := List.mem_map.1 hloaded
    refine List.mem_map.2 ⟨_, List.mem_map.2 ⟨target, List.mem_filter.2 ⟨htarget, ?_⟩, rfl⟩, hid⟩
    rw [hid]
    exact hcut

theorem wireAll (h : r.Linked) (hr : r.Orderly) (paths : Assoc String) :
    (r.wireAll paths).Linked := by
  have hids : (r.wireAll paths).ids = r.ids := by
    rw [ids, Registry.wireAll, List.map_map]
    rfl
  have hnamespaces : (r.wireAll paths).collections.map Collection.namespaceText =
      r.collections.map Collection.namespaceText := by
    rw [Registry.wireAll, List.map_map]
    rfl
  refine ⟨hnamespaces ▸ h.namespaces, fun c hc => ?_, fun c hc wire hwire => ?_⟩
  · obtain ⟨c, -, rfl⟩ := List.mem_map.1 hc
    dsimp only
    rw [wire_eq]
    exact Assoc.nodup_keys_ofPairs _
  · obtain ⟨owner, howner, rfl⟩ := List.mem_map.1 hc
    have haliases := Document.nodup_aliases (hr.sound owner howner)
    obtain ⟨i, hi, target, htarget, rfl⟩ := (mem_wire haliases).1 hwire
    refine ⟨List.mem_map.2 ⟨i, hi, rfl⟩, id_ne_of_wireTarget htarget, ?_⟩
    rw [hids]
    exact List.mem_map.2 ⟨target, mem_of_wireTarget htarget, rfl⟩

end Linked

end Registry

end RandomTables
