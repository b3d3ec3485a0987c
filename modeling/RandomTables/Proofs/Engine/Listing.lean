-- SUMMARY: What is listed as imported is what the aliases lead to, and which of it the listed references mean.
import RandomTables.Engine.Listing
import RandomTables.Proofs.Engine.Caching
import RandomTables.Proofs.Registry.Paths

/-!
# Listed imports

The listing of what a collection imports has the tables, or the templates, of every other collection
that its aliases lead to, each once, however the imports go round in circles. The reference under
which something is listed means just that, unless something else comes first by the order in which
references are looked up.
-/
namespace RandomTables

namespace Registry

variable {r : Registry} {c : Collection} {δ β : Type}

/-- A listing of what is imported: for one sort of definitions, which of them a collection lists, and
their summaries with the ids of their collections. -/
structure ListsImports (r : Registry) (c : Collection) (sort : δ → Definition)
    (own : Collection → List δ) (summary : String → δ → β) (owner : β → String)
    (listed : List (Imported β)) : Prop where
  /-- Each other collection that aliases lead to has its own definitions listed, each once. -/
  complete : ∀ d, d.id ≠ c.id → (∃ path, Trail r.aliasing c path d) →
    (listed.filter fun item => owner item.item = d.id).map (·.item) = (own d).map (summary d.id)
  /-- Whatever is listed belongs to such a collection, and the reference means it if it is in sight. -/
  sound : ∀ item ∈ listed, ∃ d path x, d.id ≠ c.id ∧ Trail r.aliasing c path d ∧ x ∈ own d ∧
    item = ⟨joinParts path, along path (sort x).id, summary d.id x⟩ ∧
    (r.resolve item.fullId c.id = .ok ⟨sort x, d.id⟩ ↔ r.InSight c path d (sort x))

/-- If no collection has the empty id, listings follow aliases as references do. -/
theorem reachedInDepth_eq (hempty : r.get? "" = none) (c : Collection) :
    r.reachedInDepth c = r.reachedFrom (fun l => r.aliasing l.owner l.item)
      (fun new rest => new ++ rest) c := by
  have htargets : ∀ l : Link, r.aliased l.owner l.item.importAlias = r.aliasing l.owner l.item := by
    intro l
    rw [aliased, aliasing]
    cases r.aliasedId l.owner l.item.importAlias with
    | none => rfl
    | some id =>
        by_cases hid : id = ""
        · rw [hid, Option.bind_some, hempty]
          rfl
        · have hsome : id.isEmpty = false := by simpa using hid
          rw [Option.filter_some, if_pos (by rw [hsome]; rfl)]
  rw [reachedInDepth, funext htargets]

theorem joinParts_append {path : List String} (hpath : path ≠ []) (id : String) :
    joinParts path ++ "." ++ id = along path id := by
  induction path with
  | nil => exact absurd rfl hpath
  | cons first rest ih =>
      rw [along_cons]
      cases rest with
      | nil => simp [joinParts, along_nil]
      | cons next rest =>
          rw [← ih (List.cons_ne_nil _ _)]
          simp [joinParts, String.append_assoc]

/-- Of items with keys of their own, those with the key of one of them are that one alone. -/
theorem flatMap_of_key {α γ : Type} (key : α → String) (f : α → List γ) {items : List α}
    (hkeys : (items.map key).Nodup) {a : α} (ha : a ∈ items) :
    (items.flatMap fun b => if key b = key a then f b else []) = f a := by
  induction items with
  | nil => cases ha
  | cons b rest ih =>
      obtain ⟨hfresh, hrest⟩ := List.nodup_cons.1 hkeys
      rw [List.flatMap_cons]
      rcases List.mem_cons.1 ha with rfl | ha
      · have hnone : ∀ b ∈ rest, (if key b = key a then f b else []) = [] := fun b hb =>
          if_neg fun hsame : key b = key a => hfresh (hsame ▸ List.mem_map_of_mem hb)
        rw [if_pos rfl, List.flatMap_eq_nil_iff.2 hnone, List.append_nil]
      · have hother : key b ≠ key a := fun hsame => hfresh (hsame ▸ List.mem_map_of_mem ha)
        rw [if_neg hother, List.nil_append, ih hrest ha]

section

variable (hr : r.Orderly) (hempty : r.get? "" = none) (hdots : r.Undotted) (hc : c ∈ r.collections)
include hr hempty hdots hc

/-- A listing is complete and sound if its summaries tell collections and ids. -/
theorem listsImports_importedItems {sort : δ → Definition} {own : Collection → List δ}
    {summary : String → δ → β} {owner id : β → String} {list : Collection → List β}
    (hown : ∀ d x, x ∈ own d → d.document.Defines (sort x))
    (howner : ∀ collectionId x, owner (summary collectionId x) = collectionId)
    (hid : ∀ collectionId x, id (summary collectionId x) = (sort x).id)
    (hlist : ∀ d, list d = (own d).map (summary d.id)) :
    r.ListsImports c sort own summary owner (r.importedItems id list c) := by
  have hloaded : ∀ c i d, r.aliasing c i = some d → d ∈ r.collections :=
    fun _ _ _ => mem_of_aliasing
  have hjoin : ∀ new rest : List Link, (new ++ rest).Perm (new ++ rest) := fun _ _ => .refl _
  have hnodup := nodup_reachedFrom hloaded hjoin c
  have hmem := fun d => mem_reachedFrom_iff (d := d) hloaded hjoin hr.distinct hc
  have hlisted : r.importedItems id list c =
      (r.reachedFrom (fun l => r.aliasing l.owner l.item) (fun new rest => new ++ rest) c).flatMap
        fun p => (own p.2).map fun x =>
          ⟨joinParts p.1, joinParts p.1 ++ "." ++ (sort x).id, summary p.2.id x⟩ := by
    simp only [importedItems, reachedInDepth_eq hempty, hlist, List.map_map, Function.comp_def, hid]
  rw [hlisted]
  constructor
  · intro d hother htrail
    obtain ⟨p, hp, rfl⟩ := List.mem_map.1 ((hmem d).2 ⟨hother, htrail⟩)
    rw [List.filter_flatMap, List.map_flatMap, ← flatMap_of_key (·.2.id)
      (fun p => (own p.2).map (summary p.2.id)) (List.nodup_cons.1 hnodup).2 hp]
    refine List.flatMap_congr fun q _ => ?_
    rw [List.filter_map, List.map_map]
    simp only [Function.comp_def, howner]
    split
    · rename_i hsame
      simp [hsame]
    · rename_i hne
      simp [hne]
  · intro item hitem
    obtain ⟨p, hp, hitem⟩ := List.mem_flatMap.1 hitem
    obtain ⟨x, hx, rfl⟩ := List.mem_map.1 hitem
    have htrail := trail_of_reachedFrom hloaded hjoin hp
    have hother : p.2.id ≠ c.id := ((hmem p.2).1 (List.mem_map_of_mem hp)).1
    have hpath : p.1 ≠ [] := fun hpath => by
      rw [hpath] at htrail
      cases htrail
      exact hother rfl
    rw [joinParts_append hpath]
    exact ⟨p.2, p.1, x, hother, htrail, hx, rfl, resolve_along_iff hr hdots hc htrail
      (fun _ _ _ => apart_reachedFrom hloaded hjoin aliasing_congr hp) (hown _ _ hx)⟩

/-- The listings of the tables and templates that a collection imports have what its aliases lead to,
and a listed reference means what it is listed for exactly if that is in sight. -/
theorem imports_listed :
    r.ListsImports c .table (fun d => d.document.tables.filter fun t => !t.header.hidden)
      TableSummary.ofTable TableSummary.collectionId (r.importedTables c) ∧
    r.ListsImports c .template (fun d => d.document.templates)
      TemplateSummary.ofTemplate TemplateSummary.collectionId (r.importedTemplates c) := by
  constructor
  · exact listsImports_importedItems hr hempty hdots hc (fun _ _ hx => (List.mem_filter.1 hx).1)
      (fun _ _ => rfl) (fun _ _ => rfl) fun _ => rfl
  · exact listsImports_importedItems hr hempty hdots hc (fun _ _ hx => hx)
      (fun _ _ => rfl) (fun _ _ => rfl) fun _ => rfl

end

/-- A collection whose imports lead in a circle lists what it comes to, under references that mean it,
also for an id with points. The hidden table is left out. -/
theorem imports_listed_circle :
    let table (id : String) (hidden : Bool) : Table :=
      .simple { id, hidden, entries := [{ value := some "v" }] }
    let host (name : String) (imports : List Import) (tables : List Table) : Document := {
      metadata := { name, namespaceText := name }, imports, tables
      templates := [{ id := "p" ++ name, pattern := "w" }] }
    let e : Engine := ({} : Engine).afterAll [
      .loadDocument "a" (host "a" [⟨"c", "z", none⟩] [table "u.v" false, table "h" true]) none,
      .loadDocument "b" (host "b" [⟨"a", "y", none⟩, ⟨"b", "b", none⟩] [table "t" false]) none,
      .loadDocument "c" (host "c" [⟨"b", "x", none⟩, ⟨"a", "w", none⟩] [table "s" false]) none]
    let listed {α : Type} (list : Collection → List α) : Option (List α) :=
      (e.registry.get? "c").map list
    e.Reachable ∧ (e.registry.get? "" = none ∧ e.registry.Undotted) ∧
    (∃ c ∈ e.registry.collections, c.id = "c" ∧
      e.registry.ListsImports c .table (fun d => d.document.tables.filter fun t => !t.header.hidden)
        TableSummary.ofTable TableSummary.collectionId (e.registry.importedTables c) ∧
      e.registry.ListsImports c .template (fun d => d.document.templates)
        TemplateSummary.ofTemplate TemplateSummary.collectionId (e.registry.importedTemplates c)) ∧
    listed (fun c => (e.registry.importedTables c).map (·.fullId)) = some ["x.t", "x.y.u.v"] ∧
    listed (fun c => (e.registry.importedTemplates c).map (·.fullId)) = some ["x.pb", "x.y.pa"] ∧
    (e.registry.resolve "x.y.u.v" "c").toOption.map (fun t => (t.definition.id, t.collectionId)) =
      some ("u.v", "a") := by
  intro table host e listed
  have he : e.Reachable :=
    .loadDocument (.loadDocument (.loadDocument (.initial {}) "a" _ none) "b" _ none) "c" _ none
  have hloaded : (e.registry.get? "c").isSome := by decide +kernel
  obtain ⟨c, hc⟩ := Option.isSome_iff_exists.1 hloaded
  have hmem : c ∈ e.registry.collections := List.mem_of_find?_eq_some hc
  have hid : c.id = "c" := by simpa using List.find?_some hc
  have hempty : e.registry.get? "" = none := Option.isNone_iff_eq_none.1 (by decide +kernel)
  have hdots : e.registry.Undotted := by
    unfold Undotted
    decide +kernel
  exact ⟨he, ⟨hempty, hdots⟩, ⟨c, hmem, hid, imports_listed he.orderly hempty hdots hmem⟩,
    by decide +kernel, by decide +kernel, by decide +kernel⟩

/-- A table is listed although a template of its collection hides it, and although the importing
collection has a table under the whole reference. What is loaded under the empty id is not listed,
although references lead there. -/
theorem imports_listed_out_of_sight :
    let table (id : String) : Table := .simple { id, entries := [{ value := some "v" }] }
    let host (name : String) (imports : List Import) (tables : List Table)
        (templates : List Template) : Document :=
      { metadata := { name, namespaceText := name }, imports, tables, templates }
    let e (id : String) : Engine := ({} : Engine).afterAll [
      .loadDocument id (host "a" [] [table "t", table "u"] [{ id := "t", pattern := "w" }]) none,
      .loadDocument "c" (host "c" [⟨"a", "x", none⟩] [table "x.u"] []) none]
    let listed (id : String) := ((e id).registry.get? "c").map fun c =>
      ((e id).registry.importedTables c).map fun item => (item.fullId, item.item.collectionId)
    let means (id ref : String) := ((e id).registry.resolve ref "c").toOption.map fun t =>
      (t.definition.sort, t.definition.id, t.collectionId)
    (∀ id, (e id).Reachable) ∧
    (listed "a" = some [("x.t", "a"), ("x.u", "a")] ∧
      means "a" "x.t" = some ("template", "t", "a") ∧ means "a" "x.u" = some ("table", "x.u", "c")) ∧
    listed "" = some [] ∧ means "" "x.t" = some ("template", "t", "") := by
  intro table host e listed means
  refine ⟨fun id => .loadDocument (.loadDocument (.initial {}) id _ none) "c" _ none, ?_⟩
  decide +kernel

end Registry

end RandomTables
