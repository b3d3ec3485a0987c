-- SUMMARY: What the rules leave of a document without errors: distinct ids, known references, ranges.
import Mathlib.Data.List.Nodup
import RandomTables.Document.Load
import RandomTables.Shared.Store

/-!
# Soundness

A document is sound if no rule finds an error in it. Warnings remain possible, so each rule is read
from findings of which none is an error: no alias and no id is given twice, a reference without
points is to a table of the document, ranges leave nothing out, and no shared variable has the name
of a static one.
-/
namespace RandomTables

namespace Integrity

/-- Findings that do no harm: none of them is an error. -/
def Harmless (findings : List Finding) : Prop := ∀ f ∈ findings, f.isError = false

theorem Harmless.of_subset {findings more : List Finding} (h : Harmless more)
    (hsub : ∀ f ∈ findings, f ∈ more) : Harmless findings := fun f hf => h f (hsub f hf)

/-- Where every finding would be an error, there is none. -/
theorem Harmless.eq_nil {findings : List Finding} (h : Harmless findings)
    (herror : ∀ f ∈ findings, f.isError = true) : findings = [] := by
  refine List.eq_nil_iff_forall_not_mem.2 fun f hf => ?_
  have hwarning := h f hf
  rw [herror f hf] at hwarning
  cases hwarning

/-- Findings on each of some items. -/
theorem Harmless.of_zipIdx {α : Type} {items : List α} {check : α × Nat → List Finding}
    (h : Harmless (items.zipIdx.map check).flatten) {item : α} (hitem : item ∈ items) :
    ∃ index, Harmless (check (item, index)) := by
  obtain ⟨index, hindex, rfl⟩ := List.getElem_of_mem hitem
  refine ⟨index, fun f hf => h f (List.mem_flatten.2 ⟨_, List.mem_map.2 ⟨_, ?_, rfl⟩, hf⟩)⟩
  exact List.mem_zipIdx_iff_getElem?.2 (List.getElem?_eq_getElem hindex)

/-! ## Distinct keys -/

theorem length_repeatsFrom (seen : List String) (keys : List (Option String)) :
    (repeatsFrom seen keys).length = keys.length := by
  induction keys generalizing seen with
  | nil => rfl
  | cons key rest ih =>
      cases key with
      | none => exact congrArg Nat.succ (ih seen)
      | some key => exact congrArg Nat.succ (ih (key :: seen))

/-- Keys of which none repeats another one or one that was seen before. Absent keys may repeat. -/
theorem nodup_of_repeatsFrom {seen : List String} {keys : List (Option String)}
    (h : ∀ again ∈ repeatsFrom seen keys, again = false) :
    (keys.filterMap id).Nodup ∧ ∀ key ∈ keys.filterMap id, key ∉ seen := by
  induction keys generalizing seen with
  | nil => exact ⟨List.nodup_nil, fun _ hkey => absurd hkey List.not_mem_nil⟩
  | cons key rest ih =>
      cases key with
      | none => exact ih (List.forall_mem_cons.1 h).2
      | some key =>
          rw [repeatsFrom, List.forall_mem_cons] at h
          obtain ⟨hnew, hrest⟩ := h
          obtain ⟨hnodup, hunseen⟩ := ih hrest
          have hkey : key ∉ seen := by simpa using hnew
          refine ⟨List.nodup_cons.2 ⟨fun hmem => ?_, hnodup⟩, ?_⟩
          · exact hunseen key hmem List.mem_cons_self
          · refine List.forall_mem_cons.2 ⟨hkey, fun other hother => ?_⟩
            exact fun hseen => hunseen other hother (List.mem_cons_of_mem _ hseen)

/-- Where a check makes an error of every repeated key and no error is found, no key is repeated. -/
theorem nodup_of_findOn {α : Type} {items : List α} {key : α → Option String}
    {check : Nat → α → Bool → List Finding}
    (hcheck : ∀ index item, ∃ f ∈ check index item true, f.isError = true)
    (h : Harmless (findOn items key check)) : (items.filterMap key).Nodup := by
  have hlength : (repeats (items.map key)).length = items.length := by
    rw [repeats, length_repeatsFrom, List.length_map]
  have hnone : ∀ again ∈ repeats (items.map key), again = false := by
    intro again hagain
    obtain ⟨index, hindex, rfl⟩ := List.getElem_of_mem hagain
    have hitem : index < items.length := hlength ▸ hindex
    have hzip : index < (items.zip (repeats (items.map key))).length := by
      rw [List.length_zip]
      omega
    have hfound : Harmless (check index items[index] (repeats (items.map key))[index]) := by
      refine fun f hf => h f (List.mem_flatten.2 ⟨_, List.mem_map.2
        ⟨((items[index], _), index), ?_, rfl⟩, hf⟩)
      refine List.mem_zipIdx_iff_getElem?.2 ?_
      rw [List.getElem?_eq_getElem hzip, List.getElem_zip]
    refine eq_false_of_ne_true fun htrue => ?_
    rw [htrue] at hfound
    obtain ⟨f, hf, herror⟩ := hcheck index items[index]
    exact absurd herror (ne_true_of_eq_false (hfound f hf))
  have hnodup := (nodup_of_repeatsFrom hnone).1
  rwa [List.filterMap_map] at hnodup

/-! ## References -/

/-- A reference without points is to a table of the document, to a simple one where only those are
allowed. -/
theorem localTable_of_harmless {d : Document} {path ref : String} {simple : Bool}
    (h : Harmless (referenceFindings d path ref simple))
    (hdot : ref.toList.contains '.' = false) :
    ∃ table, localTable d ref = some table ∧ (simple = true → table.isSimple = true) := by
  unfold referenceFindings at h
  cases htable : localTable d ref with
  | some table =>
      refine ⟨table, rfl, fun hsimple => ?_⟩
      rw [htable, hsimple] at h
      cases hsort : table.isSimple with
      | true => rfl
      | false =>
          have hfound := h ⟨path, .notSimple ref table.sort⟩ (by simp [hsort])
          cases hfound
  | none =>
      rw [htable, hdot] at h
      have hfound := h ⟨path, .unknownTable ref⟩ List.mem_cons_self
      cases hfound

theorem isError_of_rangesFindings {path : String} {entries : List Entry} :
    ∀ f ∈ rangesFindings path entries, f.isError = true := by
  have hneighbours : ∀ ranges, ∀ f ∈ neighboursFindings path ranges, f.isError = true := by
    intro ranges
    fun_induction neighboursFindings path ranges with
    | case1 _ before index range rest place ih =>
        refine List.forall_mem_append.2 ⟨fun f hf => ?_, ih⟩
        split at hf
        · rw [List.mem_singleton.1 hf]
          rfl
        · split at hf
          · rw [List.mem_singleton.1 hf]
            rfl
          · cases hf
    | case2 => exact fun f hf => absurd hf List.not_mem_nil
  intro f hf
  unfold rangesFindings at hf
  dsimp only at hf
  split at hf
  · rw [List.mem_singleton.1 hf]
    rfl
  · exact hneighbours _ f hf

/-- The name under a key is the name that is declared. -/
theorem plainName_eq (key : String) : plainName key = (splitSign key).1 := by
  rw [plainName, splitSign]
  rcases key.toList with _ | ⟨c, name⟩
  · rfl
  · by_cases hsign : c = '$'
    · subst hsign
      rfl
    · simp [hsign]

end Integrity

/-! ## Documents -/

namespace Document

open Integrity

/-- The entries of a document keep to their rules: each has a weight or a range, and a range begins
before it ends. -/
def Consistent (d : Document) : Prop :=
  ∀ t, .simple t ∈ d.tables → ∀ e ∈ t.entries, e.conflict = none

theorem of_ensureSound {d d' : Document} (h : d.ensureSound = .ok d') : d' = d ∧ d.errors = [] := by
  unfold ensureSound at h
  split at h
  · rename_i hsound
    cases h
    exact ⟨rfl, List.isEmpty_iff.1 hsound⟩
  · cases h

variable {d : Document}

/-- The findings on a document without errors do no harm. -/
theorem harmless (h : d.errors = []) : Harmless d.findings := by
  refine fun f hf => eq_false_of_ne_true fun herror => ?_
  have hmem : f ∈ d.errors := List.mem_filter.2 ⟨hf, herror⟩
  rw [h] at hmem
  exact absurd hmem List.not_mem_nil

/-- A document without errors declares no alias twice. -/
theorem nodup_aliases (h : d.errors = []) : (d.imports.map Import.importAlias).Nodup := by
  have hfindings : Harmless (importsFindings d) := (harmless h).of_subset fun f hf => by
    simp only [findings, List.mem_append]
    exact .inl (.inl (.inl (.inl hf)))
  have hcheck := nodup_of_findOn (fun _ _ => ⟨_, List.mem_cons_self, rfl⟩) hfindings
  rwa [List.filterMap_eq_map'] at hcheck

/-- A document without errors has no two tables of the same id. -/
theorem nodup_tables (h : d.errors = []) : (d.tables.map Table.id).Nodup := by
  have hfindings : Harmless (tableIdsFindings d) := (harmless h).of_subset fun f hf => by
    simp only [findings, List.mem_append]
    exact .inl (.inl (.inl (.inr hf)))
  have hcheck := nodup_of_findOn (fun _ _ => ⟨_, List.mem_cons_self, rfl⟩) hfindings
  rwa [List.filterMap_eq_map'] at hcheck

/-- A document without errors has no two templates of the same id. -/
theorem nodup_templates (h : d.errors = []) : (d.templates.map Template.id).Nodup := by
  have hfindings : Harmless (templateIdsFindings d) := (harmless h).of_subset fun f hf => by
    simp only [findings, List.mem_append]
    exact .inl (.inl (.inr hf))
  have hcheck := nodup_of_findOn
    (fun _ _ => ⟨_, List.mem_append_left _ List.mem_cons_self, rfl⟩) hfindings
  rwa [List.filterMap_eq_map'] at hcheck

/-- The findings on a table of a document without errors do no harm. -/
theorem harmless_table (h : d.errors = []) {t : Table} (ht : t ∈ d.tables) :
    ∃ index, Harmless (tableFindings d index t) := by
  have hfindings : Harmless (d.tables.zipIdx.map fun p => tableFindings d p.2 p.1).flatten :=
    (harmless h).of_subset fun f hf => by
      simp only [findings, List.mem_append]
      exact .inl (.inr hf)
  exact hfindings.of_zipIdx ht

/-- No two entries of a table have the same id. Any number of them may have none. -/
theorem nodup_entryIds (h : d.errors = []) {t : SimpleTable} (ht : .simple t ∈ d.tables) :
    (t.entries.filterMap fun e => if e.idText.isEmpty then none else e.id).Nodup := by
  obtain ⟨index, hfindings⟩ := harmless_table h ht
  have hids : Harmless (entryIdsFindings _ t.entries) := hfindings.of_subset fun f hf =>
    List.mem_append_left _ (List.mem_append_left _ hf)
  exact nodup_of_findOn (fun _ _ => ⟨_, List.mem_cons_self, rfl⟩) hids

/-- What a table extends by a reference without points is a simple table of the document, and another
one. -/
theorem parent_of_sound (h : d.errors = []) {t : SimpleTable} (ht : .simple t ∈ d.tables)
    (hsome : (t.parent.getD "").isEmpty = false)
    (hdot : (t.parent.getD "").toList.contains '.' = false) :
    t.parent.getD "" ≠ t.id ∧
      ∃ parent, localTable d (t.parent.getD "") = some (.simple parent) := by
  obtain ⟨index, hfindings⟩ := harmless_table h ht
  have hparent : Harmless (parentFindings d _ t) := hfindings.of_subset fun f hf =>
    List.mem_append_left _ (List.mem_append_right _ hf)
  unfold parentFindings at hparent
  dsimp only at hparent
  rw [if_neg (ne_true_of_eq_false hsome)] at hparent
  by_cases hself : t.parent.getD "" = t.id
  · rw [if_pos hself] at hparent
    cases hparent _ List.mem_cons_self
  · rw [if_neg hself] at hparent
    obtain ⟨table, htable, hsimple⟩ := localTable_of_harmless hparent hdot
    refine ⟨hself, ?_⟩
    cases table with
    | simple parent => exact ⟨parent, htable⟩
    | composite _ => cases hsimple rfl
    | collection _ => cases hsimple rfl

/-- A source that is named without points is a table of the document. -/
theorem source_of_sound (h : d.errors = []) {t : CompositeTable} (ht : .composite t ∈ d.tables)
    {source : TableSource} (hsource : source ∈ t.sources)
    (hdot : source.tableId.toList.contains '.' = false) :
    ∃ table, localTable d source.tableId = some table := by
  obtain ⟨index, hfindings⟩ := harmless_table h ht
  obtain ⟨place, hplace⟩ := Harmless.of_zipIdx
    (hfindings.of_subset fun f hf => List.mem_append_right _ hf) hsource
  dsimp only at hplace
  by_cases hself : source.tableId = t.id
  · rw [if_pos hself] at hplace
    cases hplace _ List.mem_cons_self
  · rw [if_neg hself] at hplace
    obtain ⟨table, htable, -⟩ := localTable_of_harmless hplace hdot
    exact ⟨table, htable⟩

/-- A member that is named without points is a simple table of the document. -/
theorem member_of_sound (h : d.errors = []) {t : CollectionTable} (ht : .collection t ∈ d.tables)
    {member : String} (hmember : member ∈ t.members)
    (hdot : member.toList.contains '.' = false) :
    ∃ table, localTable d member = some (.simple table) := by
  obtain ⟨index, hfindings⟩ := harmless_table h ht
  obtain ⟨place, hplace⟩ := Harmless.of_zipIdx
    (hfindings.of_subset fun f hf => List.mem_append_right _ hf) hmember
  obtain ⟨table, htable, hsimple⟩ := localTable_of_harmless hplace hdot
  cases table with
  | simple table => exact ⟨table, htable⟩
  | composite _ => cases hsimple rfl
  | collection _ => cases hsimple rfl

/-- The ranges of a table in range mode leave nothing out and cover nothing twice. -/
theorem rangesFindings_of_sound (h : d.errors = []) {t : SimpleTable} (ht : .simple t ∈ d.tables)
    (hmode : t.inRangeMode = true) : ∃ path, rangesFindings path t.entries = [] := by
  obtain ⟨index, hfindings⟩ := harmless_table h ht
  have hweights : Harmless (weightsFindings _ t) := hfindings.of_subset fun f hf =>
    List.mem_append_right _ hf
  rw [weightsFindings, if_pos hmode] at hweights
  exact ⟨_, hweights.eq_nil isError_of_rangesFindings⟩

/-- No shared variable has the name of a static one. -/
theorem statics_of_sound (h : d.errors = []) {key : String} (hkey : key ∈ d.shared.keys) :
    d.statics.has (splitSign key).1 = false := by
  refine eq_false_of_ne_true fun hstatic => ?_
  have hfound : ⟨"shared." ++ key, .shadowsStatic (plainName key)⟩ ∈ d.findings := by
    refine List.mem_append_right _ (List.mem_flatten.2 ⟨_, List.mem_map.2 ⟨key, hkey, rfl⟩, ?_⟩)
    dsimp only
    rw [plainName_eq, if_pos hstatic]
    exact List.mem_cons_self
  cases harmless h _ hfound

end Document

end RandomTables
