-- SUMMARY: Conditions on the parts of documents and what keeps them; what documents contain.
import RandomTables.Evaluation.Answer
import RandomTables.Proofs.Directive.Reading
import RandomTables.Proofs.Evaluation.Monad
import RandomTables.Registry.Inheritance

/-!
# What tables are made of

A `Material` states conditions on the parts that documents are written with. If every collection of
a registry is made of it, so is everything that is found in the registry, and so are the tables that
come out of inheritance, whatever extends what.
-/
namespace RandomTables

/-- Conditions on the parts that tables, templates and directives are made of. -/
structure Material where
  /-- Patterns that are evaluated. -/
  pattern : String → Prop
  /-- Names of shared variables. -/
  name : String → Prop
  calculation : Calculation → Prop
  /-- Expressions with what they are evaluated for. -/
  reading : Reading → Prop := fun _ => True
  /-- Simple tables, which inheritance keeps. -/
  table : SimpleTable → Prop := fun _ => True
  identified : ∀ t, table t → table t.identified := by exact fun _ _ => trivial
  laidOver : ∀ t parent, table t → table parent → table (t.laidOver parent) := by
    exact fun _ _ _ _ => trivial

namespace Material

variable (M : Material)

/-! ## Tables -/

/-- A block of shared variables made of the material. -/
def Block (block : Assoc String) : Prop :=
  ∀ d ∈ block, M.name (splitSign d.1).1 ∧ M.pattern d.2

structure Entry (e : Entry) : Prop where
  value : M.pattern (e.value.getD "")
  description : M.pattern (e.description.getD "")
  sets : ∀ set ∈ e.sets, M.pattern set.2

structure Simple (t : SimpleTable) : Prop where
  made : M.table t
  shared : M.Block (t.shared.getD [])
  entries : ∀ e ∈ t.entries, M.Entry e
  defaultSets : ∀ set ∈ t.defaultSets.getD [], M.pattern set.2

def Table : Table → Prop
  | .simple t => M.Simple t
  | .composite t => M.Block (t.shared.getD [])
  | .collection t => M.Block (t.shared.getD [])

structure Template (t : Template) : Prop where
  shared : M.Block (t.shared.getD [])
  pattern : M.pattern t.pattern

def Target (t : Target) : Prop :=
  match t.definition with
  | .table t => M.Table t
  | .template t => M.Template t

/-- Resolved tables made of the material. -/
def Resolved (tables : ResolvedTables) : Prop := ∀ t ∈ tables, M.Simple t.2

/-- A registry whose collections are made of the material. -/
structure Registry (r : Registry) : Prop where
  tables : ∀ c ∈ r.collections, ∀ t ∈ c.document.tables, M.Table t
  templates : ∀ c ∈ r.collections, ∀ t ∈ c.document.templates, M.Template t

/-! ## Directives -/

/-- Calculations made of the material. -/
abbrev Calculates (ks : List Calculation) : Prop := ∀ k ∈ ks, M.calculation k

/-- Calculations and expressions made of the material. -/
structure Uses (ks : List Calculation) (xs : List Reading) : Prop where
  calculates : M.Calculates ks
  reads : ∀ x ∈ xs, M.reading x

/-- A directive all of whose calculations and expressions are made of the material. -/
def Directive (d : Directive) : Prop := M.Uses d.calculations d.readings

/-! ## Lenient material -/

/-- Material that asks for nothing but the names of variables and the making of tables. -/
structure Lenient : Prop where
  pattern : ∀ text, M.pattern text
  calculation : ∀ k, M.calculation k
  reading : ∀ x, M.reading x

variable {M}

theorem uses_append {ks ks' : List Calculation} {xs xs' : List Reading} :
    M.Uses (ks ++ ks') (xs ++ xs') ↔ M.Uses ks xs ∧ M.Uses ks' xs' := by
  constructor
  · rintro ⟨hcalculates, hreads⟩
    obtain ⟨hks, hks'⟩ := List.forall_mem_append.1 hcalculates
    obtain ⟨hxs, hxs'⟩ := List.forall_mem_append.1 hreads
    exact ⟨⟨hks, hxs⟩, hks', hxs'⟩
  · rintro ⟨⟨hks, hxs⟩, hks', hxs'⟩
    exact ⟨List.forall_mem_append.2 ⟨hks, hks'⟩, List.forall_mem_append.2 ⟨hxs, hxs'⟩⟩

theorem uses_cons {k : Calculation} {ks : List Calculation} {x : Reading} {xs : List Reading} :
    M.Uses (k :: ks) (x :: xs) ↔ (M.calculation k ∧ M.reading x) ∧ M.Uses ks xs := by
  constructor
  · rintro ⟨hcalculates, hreads⟩
    obtain ⟨hk, hks⟩ := List.forall_mem_cons.1 hcalculates
    obtain ⟨hx, hxs⟩ := List.forall_mem_cons.1 hreads
    exact ⟨⟨hk, hx⟩, hks, hxs⟩
  · rintro ⟨⟨hk, hx⟩, hks, hxs⟩
    exact ⟨List.forall_mem_cons.2 ⟨hk, hks⟩, List.forall_mem_cons.2 ⟨hx, hxs⟩⟩

namespace Lenient

variable (h : M.Lenient)
include h

theorem simple {t : SimpleTable} (ht : M.table t) (hblock : M.Block (t.shared.getD [])) :
    M.Simple t where
  made := ht
  shared := hblock
  entries _ _ := ⟨h.pattern _, h.pattern _, fun _ _ => h.pattern _⟩
  defaultSets _ _ := h.pattern _

end Lenient

/-- The lenient material that puts a condition on names alone. -/
def ofNames (name : String → Prop) : Material where
  pattern := fun _ => True
  name
  calculation := fun _ => True

theorem lenient_ofNames (name : String → Prop) : (ofNames name).Lenient :=
  ⟨fun _ => trivial, fun _ => trivial, fun _ => trivial⟩

end Material

/-! ## Inherited tables -/

theorem mem_of_lookup {α β : Type} [BEq α] [LawfulBEq α] {pairs : List (α × β)} {key : α}
    {value : β} (h : pairs.lookup key = some value) : (key, value) ∈ pairs := by
  obtain ⟨before, after, rfl, -⟩ := List.lookup_eq_some_iff.1 h
  exact List.mem_append_right _ List.mem_cons_self

section

variable {α : Type} {P : String × α → Prop}

theorem forall_mem_put {a : Assoc α} {key : String} {value : α} (ha : ∀ p ∈ a, P p)
    (hv : P (key, value)) : ∀ p ∈ a.put key value, P p := by
  induction a with
  | nil => exact List.forall_mem_singleton.2 hv
  | cons p rest ih =>
      rw [List.forall_mem_cons] at ha
      rw [Assoc.put]
      split
      · rename_i hkey
        exact List.forall_mem_cons.2 ⟨hkey ▸ hv, ha.2⟩
      · exact List.forall_mem_cons.2 ⟨ha.1, ih ha.2⟩

theorem forall_mem_putAll {a b : Assoc α} (ha : ∀ p ∈ a, P p) (hb : ∀ p ∈ b, P p) :
    ∀ p ∈ Assoc.putAll a b, P p := by
  unfold Assoc.putAll
  induction b generalizing a with
  | nil => exact ha
  | cons p rest ih =>
      rw [List.forall_mem_cons] at hb
      exact ih (forall_mem_put ha hb.1) hb.2

end

theorem SimpleTable.defaultSets_laidOver (t parent : SimpleTable) :
    (t.laidOver parent).defaultSets.getD [] =
      Assoc.putAll (parent.defaultSets.getD []) (t.defaultSets.getD []) := by
  change (laySets parent.defaultSets t.defaultSets).getD [] = _
  unfold laySets
  dsimp only
  split
  · rename_i hempty
    exact (List.isEmpty_iff.1 hempty).symm
  · rfl

/-- What holds of inherited entries and is kept by laying entries over them holds of all entries. -/
theorem SimpleTable.forall_layEntries {P Q : Entry → Prop} {tableId : String}
    {inherited own : List Entry} (hinherited : ∀ e ∈ inherited, P e) (hown : ∀ e ∈ own, Q e)
    (hover : ∀ e o, P e → Q o → P (e.overriddenBy o))
    (hnew : ∀ o index, Q o → P { o with id := some (o.key tableId index) }) :
    ∀ e ∈ layEntries tableId inherited own, P e := by
  have hlay : ∀ (entries : Assoc Entry) (o : Entry × Nat), (∀ p ∈ entries, P p.2) → Q o.1 →
      ∀ p ∈ layEntry tableId entries o, P p.2 := by
    intro entries o hentries ho
    unfold layEntry
    dsimp only
    split
    · rename_i e hget
      exact forall_mem_put hentries (hover _ _ (hentries _ (mem_of_lookup hget)) ho)
    · exact forall_mem_put hentries (hnew _ _ ho)
  have hfold : ∀ (rest : List (Entry × Nat)) (start : Assoc Entry), (∀ o ∈ rest, Q o.1) →
      (∀ p ∈ start, P p.2) → ∀ p ∈ rest.foldl (layEntry tableId) start, P p.2 := by
    intro rest
    induction rest with
    | nil => exact fun _ _ h => h
    | cons o rest ih =>
        intro start hrest hstart
        rw [List.forall_mem_cons] at hrest
        exact ih _ hrest.2 (hlay _ _ hstart hrest.1)
  intro e he
  obtain ⟨p, hp, rfl⟩ := List.mem_map.1 he
  refine hfold _ _ (fun o ho => hown _ (List.fst_mem_of_mem_zipIdx ho)) ?_ p hp
  refine forall_mem_putAll (fun _ h => absurd h List.not_mem_nil) fun p hin => ?_
  obtain ⟨e, he, rfl⟩ := List.mem_map.1 hin
  exact hinherited e he

namespace Material

variable {M : Material}

theorem Entry.withId {e : RandomTables.Entry} (h : M.Entry e) (id : Option String) :
    M.Entry { e with id } := ⟨h.value, h.description, h.sets⟩

theorem Entry.overriddenBy {inherited own : RandomTables.Entry} (hi : M.Entry inherited)
    (ho : M.Entry own) : M.Entry (inherited.overriddenBy own) := by
  unfold RandomTables.Entry.overriddenBy
  refine ⟨?_, ?_, ?_⟩
  · dsimp only
    split
    · exact ho.value
    · exact hi.value
  · dsimp only
    split
    · exact ho.description
    · exact hi.description
  · dsimp only
    split
    · exact ho.sets
    · exact hi.sets

theorem Simple.identified {t : SimpleTable} (h : M.Simple t) : M.Simple t.identified := by
  refine ⟨M.identified t h.made, h.shared, fun e he => ?_, h.defaultSets⟩
  obtain ⟨⟨own, index⟩, hown, rfl⟩ := List.mem_map.1 he
  have hentry := h.entries own (List.fst_mem_of_mem_zipIdx hown)
  dsimp only
  split
  · exact hentry.withId _
  · exact hentry

theorem Simple.laidOver {t parent : SimpleTable} (ht : M.Simple t) (hp : M.Simple parent) :
    M.Simple (t.laidOver parent) := by
  refine ⟨M.laidOver t parent ht.made hp.made, ht.shared, ?_, ?_⟩
  · exact SimpleTable.forall_layEntries hp.entries ht.entries
      (fun _ _ hinherited hown => hinherited.overriddenBy hown) fun _ _ hown => hown.withId _
  · intro set hset
    rw [SimpleTable.defaultSets_laidOver] at hset
    exact forall_mem_putAll hp.defaultSets ht.defaultSets set hset

/-! ## What references lead to -/

theorem mem_of_loaded {r : RandomTables.Registry} {id : String} {c : Collection}
    (h : r.loaded id = .ok c) : c ∈ r.collections := by
  unfold Registry.loaded at h
  cases hc : r.get? id with
  | none =>
      simp only [hc] at h
      cases h
  | some c' =>
      simp only [hc, Except.ok.injEq] at h
      exact h ▸ List.mem_of_find?_eq_some hc

end Material

namespace Registry

variable {r : Registry} {t : Target}

theorem exists_of_findQualified {parts : List String} {size : Nat}
    (h : r.findQualified parts size = some t) :
    ∃ c ∈ r.collections, ∃ id, c.find? id = some t := by
  induction size with
  | zero => cases h
  | succ size ih =>
      rw [findQualified] at h
      split at h
      · rename_i found hfound
        cases h
        obtain ⟨c, hc, hfind⟩ := Option.bind_eq_some_iff.1 hfound
        exact ⟨c, List.mem_of_find?_eq_some hc, _, hfind⟩
      · exact ih h

theorem exists_of_findParts {parts : List String} {collectionId : String}
    (h : r.findParts parts collectionId = .ok (some t)) :
    ∃ c ∈ r.collections, ∃ id, c.find? id = some t := by
  induction parts generalizing collectionId with
  | nil =>
      obtain ⟨c, hc, hfind⟩ := Except.bind_eq_ok h
      exact ⟨c, Material.mem_of_loaded hc, _, Except.ok.inj hfind⟩
  | cons importAlias parts ih =>
      cases parts with
      | nil =>
          obtain ⟨c, hc, hfind⟩ := Except.bind_eq_ok h
          exact ⟨c, Material.mem_of_loaded hc, _, Except.ok.inj hfind⟩
      | cons part rest =>
          obtain ⟨c, hc, hfind⟩ := Except.bind_eq_ok h
          dsimp only at hfind
          split at hfind
          · rename_i found hfound
            cases hfind
            exact ⟨c, Material.mem_of_loaded hc, _, hfound⟩
          · split at hfind
            · obtain ⟨byAlias, halias, hlast⟩ := Except.bind_eq_ok hfind
              cases byAlias with
              | none => exact exists_of_findQualified (Except.ok.inj hlast)
              | some found =>
                  cases hlast
                  exact ih halias
            · exact exists_of_findQualified (Except.ok.inj hfind)

/-- What a reference leads to is a definition of some collection. -/
theorem exists_of_find {ref collectionId : String} (h : r.find ref collectionId = .ok (some t)) :
    ∃ c ∈ r.collections, ∃ id, c.find? id = some t := exists_of_findParts h

theorem find_of_resolve {ref collectionId : String} (h : r.resolve ref collectionId = .ok t) :
    r.find ref collectionId = .ok (some t) := by
  obtain ⟨found, hfound, hlast⟩ := Except.bind_eq_ok h
  cases found with
  | none => cases hlast
  | some found =>
      cases hlast
      exact hfound

/-- A collection holds a simple table under the id of the table. -/
def Holds (r : Registry) (collectionId : String) (t : SimpleTable) : Prop :=
  ∃ c ∈ r.collections, c.id = collectionId ∧ c.table? t.id = some (.simple t)

end Registry

theorem Collection.table_of_find? {c : Collection} {id owner : String} {t : Table}
    (h : c.find? id = some ⟨.table t, owner⟩) : c.id = owner ∧ c.table? t.id = some t := by
  unfold find? at h
  cases ht : c.template? id with
  | some template =>
      simp only [ht] at h
      cases h
  | none =>
      simp only [ht] at h
      obtain ⟨table, htable, hsame⟩ := Option.map_eq_some_iff.1 h
      cases hsame
      have hid : t.id = id := by simpa using List.find?_some htable
      exact ⟨rfl, hid ▸ htable⟩

/-- A simple table that a reference leads to is held where it was found. -/
theorem Registry.holds_of_find {r : Registry} {ref collectionId owner : String} {t : SimpleTable}
    (h : r.find ref collectionId = .ok (some ⟨.table (.simple t), owner⟩)) : r.Holds owner t := by
  obtain ⟨c, hc, id, hfind⟩ := exists_of_find h
  obtain ⟨hid, htable⟩ := Collection.table_of_find? hfind
  exact ⟨c, hc, hid, htable⟩

namespace Material

variable {M : Material}

namespace Registry

variable {r : RandomTables.Registry} {t : RandomTables.Target}

theorem target_of_find? (hr : M.Registry r) {c : Collection} (hc : c ∈ r.collections) {id : String}
    (h : c.find? id = some t) : M.Target t := by
  unfold Collection.find? at h
  cases ht : c.template? id with
  | some template =>
      simp only [ht, Option.some.injEq] at h
      subst h
      exact hr.templates c hc template (List.mem_of_find?_eq_some ht)
  | none =>
      simp only [ht] at h
      obtain ⟨table, htable, rfl⟩ := Option.map_eq_some_iff.1 h
      exact hr.tables c hc table (List.mem_of_find?_eq_some htable)

theorem target_of_find (hr : M.Registry r) {ref collectionId : String}
    (h : r.find ref collectionId = .ok (some t)) : M.Target t := by
  obtain ⟨c, hc, id, hfind⟩ := RandomTables.Registry.exists_of_find h
  exact hr.target_of_find? hc hfind

theorem target_of_resolve (hr : M.Registry r) {ref collectionId : String}
    (h : r.resolve ref collectionId = .ok t) : M.Target t :=
  hr.target_of_find (RandomTables.Registry.find_of_resolve h)

end Registry

end Material

/-! ## Derived tables -/

/-- The simple tables of a registry and whatever inheritance makes of them. -/
inductive Registry.Derived (r : Registry) : SimpleTable → Prop where
  | own {c : Collection} {t : SimpleTable} (hc : c ∈ r.collections)
    (ht : .simple t ∈ c.document.tables) : Derived r t
  | identified {t : SimpleTable} (ht : Derived r t) : Derived r t.identified
  | laidOver {t parent : SimpleTable} (ht : Derived r t) (hparent : Derived r parent) :
    Derived r (t.laidOver parent)

/-- What the tables of a registry are made of, derived tables are made of too. -/
theorem Registry.Derived.simple {M : Material} {r : Registry} (hr : M.Registry r) {t : SimpleTable}
    (h : r.Derived t) : M.Simple t := by
  induction h with
  | own hc ht => exact hr.tables _ hc _ ht
  | identified _ ih => exact ih.identified
  | laidOver _ _ ih ihparent => exact ih.laidOver ihparent

/-- The lenient material whose tables are those of a registry. -/
def Material.ofRegistry (r : RandomTables.Registry) : Material :=
  { Material.ofNames fun _ => True with
    table := r.Derived
    identified := fun _ => .identified
    laidOver := fun _ _ => .laidOver }

namespace Material

theorem lenient_ofRegistry (r : RandomTables.Registry) : (ofRegistry r).Lenient :=
  ⟨fun _ => trivial, fun _ => trivial, fun _ => trivial⟩

theorem registry_ofRegistry (r : RandomTables.Registry) : (ofRegistry r).Registry r where
  tables c hc t ht := by
    cases t with
    | simple t => exact (lenient_ofRegistry r).simple (.own hc ht) fun _ _ => ⟨trivial, trivial⟩
    | composite t => exact fun _ _ => ⟨trivial, trivial⟩
    | collection t => exact fun _ _ => ⟨trivial, trivial⟩
  templates _ _ _ _ := ⟨fun _ _ => ⟨trivial, trivial⟩, trivial⟩

end Material

/-! ## Contents of documents

How many calls an evaluation may have open follows from the names of shared variables, and how it
may fail from the patterns. Both are taken from the documents as they are loaded; inheritance adds
nothing to them. -/

/-! ## Names of shared variables -/

/-- The names that a block declares. -/
def declaredNames (block : Assoc String) : List String := block.map fun d => (splitSign d.1).1

/-- The names of shared variables that a document declares or sets. -/
def Document.sharedNames (d : Document) : List String :=
  declaredNames d.shared ++ d.tables.flatMap (fun t => declaredNames (t.header.shared.getD [])) ++
    d.templates.flatMap (fun t => declaredNames (t.shared.getD [])) ++
    d.conditionals.map fun c => (splitSign (c.target.getD "")).1

def Registry.sharedNames (r : Registry) : List String :=
  r.collections.flatMap fun c => c.document.sharedNames

theorem length_flatMap_eq_sumOf {α β : Type} (f : α → List β) (l : List α) :
    (l.flatMap f).length = Number.sumOf (fun a => (f a).length) l := by
  induction l with
  | nil => rfl
  | cons a rest ih => rw [List.flatMap_cons, List.length_append, ih, Number.sumOf]

theorem Document.length_sharedNames (d : Document) : d.sharedNames.length = d.sharedCount := by
  simp only [sharedNames, sharedCount, List.length_append, List.length_map, declaredNames,
    length_flatMap_eq_sumOf, countShared]

theorem Registry.length_sharedNames (r : Registry) :
    r.sharedNames.length = Number.sumOf (fun c => c.document.sharedCount) r.collections := by
  simp only [sharedNames, length_flatMap_eq_sumOf, Document.length_sharedNames]

/-- The names that an evaluation with extra shared variables can meet. -/
def Surroundings.sharedNames (env : Surroundings) (extra : Assoc String) : List String :=
  env.registry.sharedNames ++ declaredNames extra

theorem Surroundings.length_sharedNames (env : Surroundings) (extra : Assoc String) :
    (env.sharedNames extra).length = env.sharedBound extra := by
  simp only [sharedNames, sharedBound, List.length_append, Registry.length_sharedNames,
    declaredNames, List.length_map]

namespace Document

variable {d : Document} {name : String}

theorem mem_sharedNames_of_shared (h : name ∈ declaredNames d.shared) : name ∈ d.sharedNames :=
  List.mem_append_left _ (List.mem_append_left _ (List.mem_append_left _ h))

theorem mem_sharedNames_of_table {t : Table} (ht : t ∈ d.tables)
    (h : name ∈ declaredNames (t.header.shared.getD [])) : name ∈ d.sharedNames :=
  List.mem_append_left _ (List.mem_append_left _ (List.mem_append_right _
    (List.mem_flatMap.2 ⟨t, ht, h⟩)))

theorem mem_sharedNames_of_template {t : Template} (ht : t ∈ d.templates)
    (h : name ∈ declaredNames (t.shared.getD [])) : name ∈ d.sharedNames :=
  List.mem_append_left _ (List.mem_append_right _ (List.mem_flatMap.2 ⟨t, ht, h⟩))

theorem mem_sharedNames_of_conditional {c : Conditional} (hc : c ∈ d.conditionals) :
    (splitSign (c.target.getD "")).1 ∈ d.sharedNames :=
  List.mem_append_right _ (List.mem_map.2 ⟨c, hc, rfl⟩)

end Document

theorem Registry.mem_sharedNames {r : Registry} {c : Collection} (hc : c ∈ r.collections)
    {name : String} (h : name ∈ c.document.sharedNames) : name ∈ r.sharedNames :=
  List.mem_flatMap.2 ⟨c, hc, h⟩

/-! ## Patterns -/

/-- The patterns of an entry: its value, its description and its sets. -/
inductive Entry.Writes (e : Entry) : String → Prop where
  | value : Writes e (e.value.getD "")
  | description : Writes e (e.description.getD "")
  | set {set : String × String} (hset : set ∈ e.sets) : Writes e set.2

inductive SimpleTable.Writes (t : SimpleTable) : String → Prop where
  | entry {e : Entry} (he : e ∈ t.entries) {text : String} (h : e.Writes text) : Writes t text
  | defaultSet {set : String × String} (hset : set ∈ t.defaultSets.getD []) : Writes t set.2

/-- The patterns of a document. -/
inductive Document.Writes (d : Document) : String → Prop where
  | shared {p : String × String} (hp : p ∈ d.shared) : Writes d p.2
  | tableShared {t : Table} (ht : t ∈ d.tables) {p : String × String}
    (hp : p ∈ t.header.shared.getD []) : Writes d p.2
  | table {t : SimpleTable} (ht : .simple t ∈ d.tables) {text : String} (h : t.Writes text) :
    Writes d text
  | templateShared {t : Template} (ht : t ∈ d.templates) {p : String × String}
    (hp : p ∈ t.shared.getD []) : Writes d p.2
  | template {t : Template} (ht : t ∈ d.templates) : Writes d t.pattern
  | conditional {c : Conditional} (hc : c ∈ d.conditionals) : Writes d c.value

/-! ## Registries -/

/-- A registry is made of its names, its patterns and the tables that inheritance makes of it. -/
theorem Material.registry_of_contents {M : Material} {r : RandomTables.Registry}
    (hname : ∀ name ∈ r.sharedNames, M.name name)
    (hpattern : ∀ c ∈ r.collections, ∀ text, c.document.Writes text → M.pattern text)
    (htable : ∀ t, r.Derived t → M.table t) : M.Registry r := by
  refine ⟨fun c hc t ht => ?_, fun c hc t ht => ?_⟩
  · have hshared : M.Block (t.header.shared.getD []) := fun p hp =>
      ⟨hname _ (r.mem_sharedNames hc (Document.mem_sharedNames_of_table ht
        (List.mem_map.2 ⟨p, hp, rfl⟩))), hpattern c hc _ (.tableShared ht hp)⟩
    cases t with
    | simple t =>
        refine ⟨htable t (.own hc ht), hshared, fun e he => ?_, fun set hset => ?_⟩
        · have hentry := fun text (h : e.Writes text) => hpattern c hc text (.table ht (.entry he h))
          exact ⟨hentry _ .value, hentry _ .description, fun set hset => hentry _ (.set hset)⟩
        · exact hpattern c hc _ (.table ht (.defaultSet hset))
    | composite t => exact hshared
    | collection t => exact hshared
  · refine ⟨fun p hp => ⟨hname _ ?_, ?_⟩, hpattern c hc _ (.template ht)⟩
    · exact r.mem_sharedNames hc (Document.mem_sharedNames_of_template ht
        (List.mem_map.2 ⟨p, hp, rfl⟩))
    · exact hpattern c hc _ (.templateShared ht hp)

end RandomTables
