-- SUMMARY: A reference by several aliases means what the first collection on its way defines for what is left of it.
import RandomTables.Proofs.Engine.Reachable
import RandomTables.Proofs.Registry.Local
import RandomTables.Proofs.Registry.Reaching

/-!
# References along a path of aliases

A reference that consists of aliases and an id follows the trail of the aliases. Each collection on
the way is asked first for a definition of its own, under what is left of the reference. So the
reference means the definition at the end of the trail unless a collection before it has one, or a
template at the end has the same id.
-/
namespace RandomTables

/-! ## Definitions of a collection -/

/-- A document has a definition. -/
def Document.Defines (d : Document) : Definition → Prop
  | .table t => t ∈ d.tables
  | .template t => t ∈ d.templates

/-- No template of a document hides a definition with the same id. -/
def Document.Shows (d : Document) (x : Definition) : Prop :=
  ∀ t ∈ d.templates, t.id = x.id → .template t = x

namespace Collection

variable {c : Collection} {x : Definition}

theorem collectionId_of_find? {id : String} {t : Target} (h : c.find? id = some t) :
    t.collectionId = c.id := by
  rw [find?] at h
  split at h
  · cases h
    rfl
  · obtain ⟨_, -, rfl⟩ := Option.map_eq_some_iff.1 h
    rfl

/-- What a collection finds under the id of a definition of its own. -/
theorem find?_of_defines (hsound : c.document.errors = []) (hx : c.document.Defines x) :
    ∃ found, c.find? x.id = some ⟨found, c.id⟩ ∧ (found = x ↔ c.document.Shows x) := by
  rw [find?]
  cases htemplate : c.template? x.id with
  | some t =>
      have ht : t ∈ c.document.templates := List.mem_of_find?_eq_some htemplate
      have hid : t.id = x.id := by simpa using List.find?_some htemplate
      refine ⟨.template t, rfl, fun h other hother hsame => ?_, fun h => h t ht hid⟩
      rw [← h] at hsame ⊢
      exact congrArg _ (List.inj_on_of_nodup_map (Document.nodup_templates hsound) hother ht hsame)
  | none =>
      have hnone : ∀ t ∈ c.document.templates, t.id ≠ x.id := fun t ht hid =>
        List.find?_eq_none.1 htemplate t ht (decide_eq_true hid)
      cases x with
      | template t => exact absurd rfl (hnone t hx)
      | table t =>
          have htable : c.table? t.id = some t :=
            Assoc.find?_key_of_mem (Document.nodup_tables hsound) hx
          refine ⟨.table t, ?_, fun _ other hother hid => absurd hid (hnone other hother),
            fun _ => rfl⟩
          dsimp only [Definition.id]
          rw [htable]
          rfl

end Collection

namespace Registry

variable {r : Registry} {c d : Collection} {path : List String} {id : String}

/-! ## References along a path -/

/-- An id behind aliases, with points between them. -/
def along (path : List String) (id : String) : String := joinParts (path ++ [id])

theorem along_nil (id : String) : along [] id = id := by
  simp [along, joinParts]

theorem along_cons (importAlias : String) (path : List String) (id : String) :
    along (importAlias :: path) id = importAlias ++ "." ++ along path id := by
  rw [along, along, joinParts, joinParts]
  cases path <;> simp [String.intercalate_cons_cons]

/-- Where references follow the imports of a collection. -/
def aliasing (r : Registry) : Leading := fun c i => (r.aliasedId c i.importAlias).bind r.get?

theorem mem_of_aliasing {i : Import} (h : r.aliasing c i = some d) : d ∈ r.collections := by
  obtain ⟨id, -, hget⟩ := Option.bind_eq_some_iff.1 h
  exact List.mem_of_find?_eq_some hget

theorem aliasedId_of_aliasing {i : Import} (h : r.aliasing c i = some d) :
    r.aliasedId c i.importAlias = some d.id := by
  obtain ⟨id, halias, hget⟩ := Option.bind_eq_some_iff.1 h
  have hid : d.id = id := by simpa using List.find?_some hget
  rw [hid, halias]

theorem aliasing_congr (c : Collection) (i j : Import) (h : i.importAlias = j.importAlias) :
    r.aliasing c i = r.aliasing c j := by
  rw [aliasing, aliasing, h]

/-- No collection before the end of a path has a definition under what is left of a reference. -/
def Open (r : Registry) (c : Collection) (path : List String) (id : String) : Prop :=
  ∀ before after k, path = before ++ after → after ≠ [] → Trail r.aliasing c before k →
    k.find? (along after id) = none

/-- The aliases of all imports have no points. -/
def Undotted (r : Registry) : Prop :=
  ∀ c ∈ r.collections, ∀ i ∈ c.document.imports, i.importAlias.toList.contains '.' = false

theorem Open.cons {next : Collection} {i : Import} (hleads : r.aliasing c i = some next)
    (hlocal : c.find? (along (i.importAlias :: path) id) = none) (h : r.Open next path id) :
    r.Open c (i.importAlias :: path) id := by
  intro before after k hpath hafter hk
  cases before with
  | nil =>
      cases hk
      obtain rfl : _ = after := hpath
      exact hlocal
  | cons first before =>
      obtain ⟨rfl, rfl⟩ := List.cons.inj hpath
      exact h before after k rfl hafter (hk.of_cons aliasing_congr hleads)

/-- A reference along a trail means what is at the end if nothing is on the way, and otherwise what a
collection on the way has. -/
theorem find_along (hr : r.Distinct) (hdots : r.Undotted) (hc : c ∈ r.collections)
    (h : Trail r.aliasing c path d) {t : Target} (hfound : d.find? id = some t) :
    r.find (along path id) c.id = .ok (some t) ∧ r.Open c path id ∨
    ∃ before after k other, path = before ++ after ∧ after ≠ [] ∧ Trail r.aliasing c before k ∧
      k.find? (along after id) = some other ∧
      r.find (along path id) c.id = .ok (some other) := by
  induction h with
  | nil =>
      refine .inl ⟨?_, fun before after k hpath hafter _ => ?_⟩
      · rw [along_nil]
        exact find_of_local hr hc hfound
      · exact absurd (List.append_eq_nil_iff.1 hpath.symm).2 hafter
  | @cons c next d i path hi hleads _ ih =>
      cases hlocal : c.find? (along (i.importAlias :: path) id) with
      | some other =>
          exact .inr ⟨[], _, c, other, rfl, List.cons_ne_nil _ _, .nil, hlocal,
            find_of_local hr hc hlocal⟩
      | none =>
          -- what is found from the next collection on is found through the alias
          have hon : ∀ {t : Target}, r.find (along path id) next.id = .ok (some t) →
              r.find (along (i.importAlias :: path) id) c.id = .ok (some t) := by
            intro t hfind
            rw [along_cons] at hlocal ⊢
            exact find_of_alias hr hc (hdots c hc i hi) (aliasedId_of_aliasing hleads) hlocal hfind
          rcases ih (mem_of_aliasing hleads) hfound with ⟨hfind, hopen⟩ |
            ⟨before, after, k, other, rfl, hafter, hk, hother, hfind⟩
          · exact .inl ⟨hon hfind, hopen.cons hleads hlocal⟩
          · exact .inr ⟨i.importAlias :: before, after, k, other, rfl, hafter, .cons hi hleads hk,
              hother, hon hfind⟩

theorem resolve_eq_ok_iff {ref collectionId : String} {t : Target} :
    r.resolve ref collectionId = .ok t ↔ r.find ref collectionId = .ok (some t) := by
  constructor
  · intro h
    rw [resolve] at h
    cases hfind : r.find ref collectionId with
    | error f => rw [hfind] at h; cases h
    | ok found =>
        rw [hfind] at h
        cases found with
        | none => cases h
        | some t' => cases h; rfl
  · exact resolve_of_find

/-- A definition is in sight at the end of a path: nothing on the way has the rest of the reference as
id, and no template hides the definition. -/
structure InSight (r : Registry) (c : Collection) (path : List String) (d : Collection)
    (x : Definition) : Prop where
  way : r.Open c path x.id
  shown : d.document.Shows x

/-- A reference along a trail that does not pass its end before means a definition there exactly if it
is in sight. -/
theorem resolve_along_iff (hr : r.Orderly) (hdots : r.Undotted) (hc : c ∈ r.collections)
    (h : Trail r.aliasing c path d) (hapart : ∀ before after k, path = before ++ after →
      after ≠ [] → Trail r.aliasing c before k → k.id ≠ d.id)
    {x : Definition} (hx : d.document.Defines x) :
    r.resolve (along path x.id) c.id = .ok ⟨x, d.id⟩ ↔ r.InSight c path d x := by
  have hd := h.mem (fun _ _ _ => mem_of_aliasing) hc
  obtain ⟨found, hfound, hshown⟩ := Collection.find?_of_defines (hr.sound d hd) hx
  rw [resolve_eq_ok_iff]
  rcases find_along hr.distinct hdots hc h hfound with ⟨hfind, hopen⟩ |
    ⟨before, after, k, other, hpath, hafter, hk, hother, hfind⟩
  · rw [hfind]
    constructor
    · intro h
      cases h
      exact ⟨hopen, hshown.1 rfl⟩
    · rintro ⟨-, hshows⟩
      rw [hshown.2 hshows]
  · constructor
    · intro h
      rw [hfind] at h
      cases h
      have hid : k.id = d.id := (Collection.collectionId_of_find? hother).symm
      exact absurd hid (hapart before after k hpath hafter hk)
    · rintro ⟨hopen, -⟩
      rw [hopen before after k hpath hafter hk] at hother
      cases hother

end Registry

end RandomTables
