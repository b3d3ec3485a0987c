-- SUMMARY: References without points lead to the collection itself, those with an alias to what it imports.
import RandomTables.Proofs.Document.Soundness
import RandomTables.Proofs.Registry.Inheriting
import RandomTables.Proofs.Text.Cutting

/-!
# References within a collection

A reference without points means a definition of the collection in which it stands. Where all tables
of a collection extend tables of it, resolving them fails only for the length of the chain.
-/
namespace RandomTables

namespace Registry

variable {r : Registry} {c : Collection} {ref : String}

/-- A reference without points means the definition of the collection with that id. -/
theorem find_of_plain (hr : r.Distinct) (hc : c ∈ r.collections)
    (hdot : ref.toList.contains '.' = false) : r.find ref c.id = .ok (c.find? ref) := by
  have hparts : refParts ref = [ref] := by
    rw [refParts, Text.splitAtChar_of_absent hdot, List.map_singleton, String.ofList_toList]
  rw [find, hparts, findParts, loaded, get?_of_mem hr hc]
  rfl

theorem resolve_of_find {collectionId : String} {t : Target}
    (h : r.find ref collectionId = .ok (some t)) : r.resolve ref collectionId = .ok t := by
  rw [resolve, h]
  rfl

/-- What a reference without points means: the template with that id, which hides the table, or else
the table with that id, a simple one where only those are allowed. -/
inductive Leads (r : Registry) (c : Collection) (ref : String) (simple : Bool) : Prop where
  | template {t : Template} (ht : t ∈ c.document.templates) (hid : t.id = ref)
    (hfind : r.find ref c.id = .ok (some ⟨.template t, c.id⟩))
  | table {t : Table} (ht : t ∈ c.document.tables) (hid : t.id = ref)
    (hfree : ∀ template ∈ c.document.templates, template.id ≠ ref)
    (hsimple : simple = true → t.isSimple = true)
    (hfind : r.find ref c.id = .ok (some ⟨.table t, c.id⟩))

/-- A reference to a table of the document leads to it, unless a template hides the table. -/
theorem leads_of_localTable (hr : r.Distinct) (hc : c ∈ r.collections)
    (hdot : ref.toList.contains '.' = false) {simple : Bool} {t : Table}
    (ht : Integrity.localTable c.document ref = some t)
    (hsimple : simple = true → t.isSimple = true) : r.Leads c ref simple := by
  have hfind := find_of_plain hr hc hdot
  rw [Collection.find?] at hfind
  cases htemplate : c.template? ref with
  | some template =>
      rw [htemplate] at hfind
      refine .template (List.mem_of_find?_eq_some htemplate) ?_ hfind
      simpa using List.find?_some htemplate
  | none =>
      have htable : c.table? ref = some t := ht
      rw [htemplate, htable] at hfind
      refine .table (List.mem_of_find?_eq_some ht) ?_ (fun template hmem hid => ?_) hsimple hfind
      · simpa using List.find?_some ht
      · exact List.find?_eq_none.1 htemplate template hmem (decide_eq_true hid)

/-- What a reference leads to if no template hides a table. -/
theorem Leads.exists_table {simple : Bool} (h : r.Leads c ref simple)
    (hfree : ∀ template ∈ c.document.templates, template.id ≠ ref) :
    ∃ t ∈ c.document.tables, (simple = true → t.isSimple = true) ∧
      r.find ref c.id = .ok (some ⟨.table t, c.id⟩) := by
  cases h with
  | template ht hid _ => exact absurd hid (hfree _ ht)
  | table ht _ _ hsimple hfind => exact ⟨_, ht, hsimple, hfind⟩

/-! ## Chains within a collection -/

/-- Every simple table of a collection that extends another one extends a simple table of it. -/
def Rooted (r : Registry) (c : Collection) : Prop :=
  ∀ t, .simple t ∈ c.document.tables → (t.parent.getD "").isEmpty = false →
    ∃ parent, .simple parent ∈ c.document.tables ∧
      r.find (t.parent.getD "") c.id = .ok (some ⟨.table (.simple parent), c.id⟩)

/-- A resolution that gives a table, unless its chain is too long. -/
def Succeeds {α : Type} (x : Resolve α) : Prop := ∀ s f, (x s).1 = .error f → f.Overextends

theorem Succeeds.bind {α β : Type} {x : Resolve α} {f : α → Resolve β} (hx : Succeeds x)
    (hf : ∀ a, Succeeds (f a)) : Succeeds (x >>= f) := by
  intro s failure h
  rw [Computation.bind_apply] at h
  rcases hrun : x s with ⟨result, later⟩
  rw [hrun] at h
  cases result with
  | ok a => exact hf a later failure h
  | error e =>
      refine hx s failure ?_
      rw [hrun]
      cases h
      rfl

variable {config : Config}

/-- A table of such a collection is resolved, unless the chain is too long. -/
theorem inheritFrom_succeeds (hrooted : r.Rooted c) {fuel depth : Nat} {t : SimpleTable}
    {chain : List String} (ht : .simple t ∈ c.document.tables)
    (hdepth : depth ≤ r.greatestLimit config) (hfuel : r.greatestLimit config < fuel + depth) :
    Succeeds (r.inheritFrom config fuel t c.id depth chain) := by
  induction fuel generalizing t depth chain with
  | zero => omega
  | succ fuel ih =>
      intro s f h
      rw [inheritFrom, Computation.get_bind_apply] at h
      cases hlookup : s.tables.lookup (c.id, t.id) with
      | some resolved =>
          rw [hlookup] at h
          cases h
      | none =>
          rw [hlookup] at h
          dsimp only at h
          split at h
          · cases h
          · rename_i hsome
            split at h
            · cases h
              exact ⟨_, rfl, rfl⟩
            · rename_i hlimit
              obtain ⟨parent, hparent, hfind⟩ := hrooted t ht (eq_false_of_ne_true hsome)
              have hnext : depth + 1 ≤ r.greatestLimit config :=
                Nat.lt_of_not_le fun h => hlimit (Nat.le_trans (r.extensionLimit_le config _) h)
              rw [hfind, Resolve.lift_ok_bind] at h
              refine Succeeds.bind (ih hparent hnext (by omega)) (fun resolved s f h => ?_) s f h
              cases h

theorem inherit_succeeds (hrooted : r.Rooted c) {t : SimpleTable}
    (ht : .simple t ∈ c.document.tables) : Succeeds (r.inherit config t c.id) :=
  inheritFrom_succeeds hrooted ht (Nat.zero_le _) (by omega)

/-- So are the members of a table whose members are simple tables of the collection. -/
theorem members_succeed (hrooted : r.Rooted c) (t : CollectionTable) {members : List String}
    (hmembers : ∀ member ∈ members, ∃ table, .simple table ∈ c.document.tables ∧
      r.find member c.id = .ok (some ⟨.table (.simple table), c.id⟩)) :
    Succeeds (r.members config t c.id members) := by
  induction members with
  | nil =>
      intro _ _ h
      cases h
  | cons member rest ih =>
      rw [List.forall_mem_cons] at hmembers
      obtain ⟨⟨table, htable, hfind⟩, hrest⟩ := hmembers
      rw [Registry.members, resolve_of_find hfind, Resolve.lift_ok_bind]
      refine (inherit_succeeds hrooted htable).bind fun resolved => ?_
      refine (ih hrest).bind fun more _ _ h => ?_
      cases h

end Registry

/-! ## References with an alias

The parts of a reference join to it again. So a definition of a collection is found by its id even
if the id has points, and an alias in front of a reference leads on to the collection that it means,
unless the collection has a definition of its own under the whole reference. -/

namespace Registry

variable {r : Registry} {c : Collection} {importAlias ref owner : String} {t : Target}

theorem joinParts_refParts (ref : String) : joinParts (refParts ref) = ref := by
  apply String.toList_injective
  rw [joinParts, refParts, String.toList_intercalate, List.map_map]
  have hsame : String.toList ∘ String.ofList = id := funext fun cs => String.toList_ofList
  rw [hsame, List.map_id]
  exact Text.intercalate_splitAtChar '.' ref.toList

theorem refParts_qualified (hdot : importAlias.toList.contains '.' = false) (ref : String) :
    refParts (importAlias ++ "." ++ ref) = importAlias :: refParts ref := by
  have hchars : (importAlias ++ "." ++ ref).toList = importAlias.toList ++ '.' :: ref.toList := by
    simp
  rw [refParts, hchars, Text.splitAtChar_append hdot, List.map_cons, String.ofList_toList, refParts]

theorem exists_refParts (ref : String) : ∃ part rest, refParts ref = part :: rest := by
  obtain ⟨piece, pieces, hsplit⟩ := Text.exists_splitAtChar '.' ref.toList
  exact ⟨String.ofList piece, pieces.map String.ofList, by rw [refParts, hsplit, List.map_cons]⟩

variable (hr : r.Distinct) (hc : c ∈ r.collections)
include hr hc

/-- A definition of a collection is found there by its id. -/
theorem find_of_local (h : c.find? ref = some t) : r.find ref c.id = .ok (some t) := by
  have hloaded : r.loaded c.id = .ok c := by rw [loaded, get?_of_mem hr hc]
  have hjoined := joinParts_refParts ref
  obtain ⟨part, rest, hparts⟩ := exists_refParts ref
  rw [hparts] at hjoined
  rw [find, hparts]
  cases rest with
  | nil =>
      obtain rfl : part = ref := by simpa [joinParts] using hjoined
      rw [findParts, hloaded]
      exact congrArg Except.ok h
  | cons next rest =>
      rw [findParts, hloaded]
      dsimp only [bind, Except.bind]
      rw [hjoined, h]
      rfl

/-- An alias leads on to the collection that it means. -/
theorem find_of_alias (hdot : importAlias.toList.contains '.' = false)
    (halias : r.aliasedId c importAlias = some owner)
    (hlocal : c.find? (importAlias ++ "." ++ ref) = none)
    (h : r.find ref owner = .ok (some t)) :
    r.find (importAlias ++ "." ++ ref) c.id = .ok (some t) := by
  have hloaded : r.loaded c.id = .ok c := by rw [loaded, get?_of_mem hr hc]
  have hqualified := refParts_qualified hdot ref
  have hjoined := joinParts_refParts (importAlias ++ "." ++ ref)
  obtain ⟨part, rest, hparts⟩ := exists_refParts ref
  rw [hqualified, hparts] at hjoined
  rw [find, hparts] at h
  rw [find, hqualified, hparts, findParts, hloaded]
  dsimp only [bind, Except.bind]
  rw [hjoined, hlocal, halias]
  dsimp only
  rw [h]
  rfl

end Registry

end RandomTables
