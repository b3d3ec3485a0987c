-- SUMMARY: What inheritance does to the ranges of tables, and what rolls on such tables do.
import Mathlib
import RandomTables.Proofs.Assoc
import RandomTables.Proofs.Engine.Caching
import RandomTables.Proofs.Engine.Reachable
import RandomTables.Proofs.Selection.Ranges

/-!
# Inherited ranges

The ranges of a table are checked where it is loaded, and drawn from where it has inherited. Laying a
table over another one keeps every range one that begins before it ends, but not the partition: that
is certain only along chains in which no table touches the ranges of what it extends. A table that
has inherited is partitioned exactly if the check of a loaded table finds nothing on what it has
become; then a roll always draws an entry, and no entry is out of reach.
-/
namespace RandomTables

/-- Whether the range of an entry, if it has one, begins before it ends. -/
def Entry.Forward (e : Entry) : Prop := ∀ r, e.range = some r → r.Forward

theorem Entry.forward_of_conflict {e : Entry} (h : e.conflict = none) : e.Forward := by
  intro r hrange
  unfold Entry.conflict at h
  rw [hrange] at h
  cases hweight : e.weight with
  | some w =>
      rw [hweight] at h
      cases h
  | none =>
      rw [hweight] at h
      dsimp only at h
      split at h
      · cases h
      · rename_i hordered
        exact Int.not_lt.1 hordered

theorem Entry.Forward.overriddenBy {inherited own : Entry} (hi : inherited.Forward)
    (ho : own.Forward) : (inherited.overriddenBy own).Forward := by
  intro r h
  change (if own.gives .range then own.range
    else if own.gives .weight then none else inherited.range) = some r at h
  split at h
  · exact ho r h
  · split at h
    · cases h
    · exact hi r h

namespace SimpleTable

theorem ranges_identified (t : SimpleTable) :
    t.identified.entries.map (·.range) = t.entries.map (·.range) := by
  have hfrom : ∀ (entries : List Entry) (start : Nat),
      ((entries.zipIdx start).map fun p =>
        if p.1.idText.isEmpty then { p.1 with id := some (p.1.key t.id p.2) } else p.1).map
        (·.range) =
      entries.map (·.range) := by
    intro entries
    induction entries with
    | nil => exact fun _ => rfl
    | cons e rest ih =>
        intro start
        rw [List.zipIdx_cons, List.map_cons, List.map_cons, List.map_cons, ih]
        refine congrArg (· :: _) ?_
        dsimp only
        split <;> rfl
  exact hfrom t.entries 0

theorem forward_of_ranges {t : SimpleTable} (h : ∀ e ∈ t.entries, e.Forward) :
    ∀ r ∈ t.ranges, r.Forward := by
  intro r hr
  obtain ⟨e, he, hrange⟩ := List.mem_filterMap.1 hr
  exact h e he r hrange

/-- A partition is a matter of the ranges of the entries. -/
theorem Partitioned.of_ranges {t t' : SimpleTable} (h : t.Partitioned)
    (hranges : t'.entries.map (·.range) = t.entries.map (·.range)) : t'.Partitioned := by
  have hsame : t'.ranges = t.ranges := by
    have hmap : ∀ s : SimpleTable, s.ranges = (s.entries.map (·.range)).filterMap id := by
      intro s
      rw [List.filterMap_map]
      rfl
    rw [hmap, hmap, hranges]
  have hcount : ∀ (s : SimpleTable) (roll : Int),
      s.entries.countP (fun e => e.range.any (·.covers roll)) =
        (s.entries.map (·.range)).countP (fun range => range.any (·.covers roll)) := by
    intro s roll
    rw [List.countP_map]
    rfl
  refine ⟨fun e he => ?_, fun all roll hall hroll => ?_⟩
  · have hmem : e.range ∈ t.entries.map (·.range) := by
      rw [← hranges]
      exact List.mem_map.2 ⟨e, he, rfl⟩
    obtain ⟨other, hother, hrange⟩ := List.mem_map.1 hmem
    obtain ⟨all, roll, hall, hroll, hcovers⟩ := h.reached other hother
    exact ⟨all, roll, hsame ▸ hall, hroll, hrange ▸ hcovers⟩
  · rw [hcount, hranges, ← hcount]
    exact h.once all roll (hsame ▸ hall) hroll

/-- A table changes no range of the table that it is laid over: it overrides entries and gives them
neither weights nor ranges. -/
structure KeepsRanges (t inherited : SimpleTable) : Prop where
  distinct : (inherited.entries.map (·.idText)).Nodup
  overrides : ∀ own ∈ t.entries.zipIdx,
    own.1.key t.id own.2 ∈ inherited.entries.map (·.idText)
  silent : ∀ own ∈ t.entries, own.gives .weight = false ∧ own.gives .range = false

theorem KeepsRanges.ranges_laidOver {t inherited : SimpleTable} (h : t.KeepsRanges inherited) :
    (t.laidOver inherited).entries.map (·.range) = inherited.entries.map (·.range) := by
  have hfold : ∀ (own : List (Entry × Nat)) (entries : Assoc Entry),
      (∀ o ∈ own, o.1.key t.id o.2 ∈ entries.keys ∧ o.1.gives .weight = false ∧
        o.1.gives .range = false) →
      (own.foldl (layEntry t.id) entries).map (fun p => p.2.range) =
        entries.map fun p => p.2.range := by
    intro own
    induction own with
    | nil => exact fun _ _ => rfl
    | cons o rest ih =>
        intro entries howns
        rw [List.forall_mem_cons] at howns
        obtain ⟨⟨hkey, hweight, hrange⟩, hrest⟩ := howns
        obtain ⟨before, hbefore⟩ := Option.isSome_iff_exists.1 (Assoc.isSome_get?_iff.2 hkey)
        have hlay : layEntry t.id entries o =
            entries.put (o.1.key t.id o.2) (before.overriddenBy o.1) := by
          rw [layEntry]
          dsimp only
          rw [hbefore]
        have hsame : (before.overriddenBy o.1).range = before.range := by
          rw [Entry.overriddenBy, hrange, hweight]
          rfl
        rw [List.foldl_cons, hlay, ih, Assoc.map_put_of_same hbefore hsame]
        intro later hlater
        rw [Assoc.keys_put_of_mem hkey]
        exact hrest later hlater
  have hkeys : Assoc.keys (inherited.entries.map fun e => (e.idText, e)) =
      inherited.entries.map (·.idText) := by
    rw [Assoc.keys, List.map_map]
    rfl
  change (layEntries t.id inherited.entries t.entries).map (·.range) = _
  rw [layEntries, List.map_map]
  rw [Assoc.ofPairs_of_nodup (hkeys ▸ h.distinct)]
  refine (hfold _ _ fun o ho => ?_).trans (by rw [List.map_map]; rfl)
  rw [hkeys]
  exact ⟨h.overrides o ho, h.silent o.1 (List.fst_mem_of_mem_zipIdx ho)⟩

end SimpleTable

namespace Registry

variable {r : Registry} {collectionId : String} {t resolved : SimpleTable}

/-! ## Derived tables -/

/-- Where the entries of all documents keep to their rules, the ranges of all derived tables begin
before they end. -/
theorem Derived.forward (hr : ∀ c ∈ r.collections, c.document.Consistent) (h : r.Derived t) :
    ∀ e ∈ t.entries, e.Forward := by
  induction h with
  | own hc ht => exact fun e he => Entry.forward_of_conflict (hr _ hc _ ht e he)
  | identified _ ih =>
      intro e he
      obtain ⟨⟨own, index⟩, hown, rfl⟩ := List.mem_map.1 he
      have hforward := ih own (List.fst_mem_of_mem_zipIdx hown)
      dsimp only
      split
      · exact hforward
      · exact hforward
  | laidOver _ _ ih ihparent =>
      exact SimpleTable.forall_layEntries ihparent ih (fun _ _ hi ho => hi.overriddenBy ho)
        fun _ _ ho => ho

theorem exists_of_holds (h : r.Holds collectionId t) :
    ∃ c ∈ r.collections, c.id = collectionId ∧ .simple t ∈ c.document.tables := by
  obtain ⟨c, hc, hid, htable⟩ := h
  exact ⟨c, hc, hid, List.mem_of_find?_eq_some htable⟩

theorem Inherits.derived (h : r.Inherits collectionId t resolved)
    (ht : r.Holds collectionId t) : r.Derived resolved := by
  induction h with
  | own _ =>
      obtain ⟨c, hc, -, hmem⟩ := exists_of_holds ht
      exact (Derived.own hc hmem).identified
  | laid _ hfind _ ih =>
      obtain ⟨c, hc, -, hmem⟩ := exists_of_holds ht
      exact (Derived.own hc hmem).laidOver (ih (holds_of_find hfind))

/-! ## Steady chains -/

/-- What inheritance makes of a table if no table of its chain changes a range of the table that it
extends. -/
inductive Steady (r : Registry) : String → SimpleTable → SimpleTable → Prop where
  | own {collectionId : String} {t : SimpleTable} (hnone : (t.parent.getD "").isEmpty = true) :
    Steady r collectionId t t.identified
  | laid {collectionId owner : String} {t parent resolved : SimpleTable}
    (hsome : (t.parent.getD "").isEmpty = false)
    (hfind : r.find (t.parent.getD "") collectionId =
      .ok (some ⟨.table (.simple parent), owner⟩))
    (hparent : Steady r owner parent resolved) (hkeeps : t.KeepsRanges resolved) :
    Steady r collectionId t (t.laidOver resolved)

namespace Steady

theorem inherits (h : r.Steady collectionId t resolved) : r.Inherits collectionId t resolved := by
  induction h with
  | own hnone => exact .own hnone
  | laid hsome hfind _ _ ih => exact .laid hsome hfind ih

/-- The ranges are those of the table that the chain ends with. -/
theorem exists_root (h : r.Steady collectionId t resolved) (ht : r.Holds collectionId t) :
    ∃ c ∈ r.collections, ∃ root, .simple root ∈ c.document.tables ∧
      resolved.entries.map (·.range) = root.entries.map (·.range) := by
  induction h with
  | own _ =>
      obtain ⟨c, hc, -, hmem⟩ := exists_of_holds ht
      exact ⟨c, hc, _, hmem, SimpleTable.ranges_identified _⟩
  | laid _ hfind _ hkeeps ih =>
      obtain ⟨c, hc, root, hroot, hranges⟩ := ih (holds_of_find hfind)
      exact ⟨c, hc, root, hroot, hkeeps.ranges_laidOver.trans hranges⟩

/-- Such a table is partitioned if it is in range mode, since the one that the chain ends with was
checked. -/
theorem partitioned (h : r.Steady collectionId t resolved) (hr : r.Orderly)
    (hconsistent : ∀ c ∈ r.collections, c.document.Consistent) (ht : r.Holds collectionId t)
    (hmode : resolved.inRangeMode = true) : resolved.Partitioned := by
  obtain ⟨c, hc, root, hroot, hranges⟩ := h.exists_root ht
  have hrootMode : root.inRangeMode = true := by
    obtain ⟨e, he, hsome⟩ := List.any_eq_true.1 hmode
    have hmem : e.range ∈ root.entries.map (·.range) := by
      rw [← hranges]
      exact List.mem_map.2 ⟨e, he, rfl⟩
    obtain ⟨other, hother, hrange⟩ := List.mem_map.1 hmem
    exact List.any_eq_true.2 ⟨other, hother, hrange ▸ hsome⟩
  obtain ⟨path, hchecked⟩ := Document.rangesFindings_of_sound (hr.sound c hc) hroot hrootMode
  have hforward := SimpleTable.forward_of_ranges ((Derived.own hc hroot).forward hconsistent)
  exact ((SimpleTable.partitioned_iff hforward path).2 hchecked).of_ranges hranges

end Steady

end Registry

/-! ## Rolls on inherited ranges -/

namespace Engine

variable {e : Engine} {c : Collection} {t : SimpleTable}

/-- What inheriting gives is derived from the registry. -/
theorem derived_of_inherit (he : e.Derived) (hc : c ∈ e.registry.collections)
    (ht : .simple t ∈ c.document.tables) {resolved : SimpleTable}
    (h : (e.inherit t c.id).result = .ok resolved) : e.registry.Derived resolved := by
  have hr := Material.registry_ofRegistry e.registry
  have hkeeps : Resolve.Keeps _ _ _ (e.registry.inherit e.config t c.id) :=
    Registry.inherit_keeps (Registry.tracks_material hr) t c.id
  have hresult := (hkeeps ⟨e.resolved, []⟩ (he.resolved hr) (hr.tables c hc _ ht)).2.2
  change (e.registry.inherit e.config t c.id ⟨e.resolved, []⟩).1 = .ok resolved at h
  rw [h] at hresult
  exact hresult.made

/-- Whatever was loaded before, a table that has inherited is partitioned exactly if the check of
ranges finds nothing on it, and then every roll draws an entry and every entry is drawn by a roll.
So it is where no table of the chain changes a range, and in particular where nothing is extended. -/
theorem partitioned_of_reachable (he : e.Reachable)
    (hconsistent : ∀ c ∈ e.registry.collections, c.document.Consistent)
    (hc : c ∈ e.registry.collections) (ht : .simple t ∈ c.document.tables) :
    (∀ resolved, (e.inherit t c.id).result = .ok resolved →
      (∀ path, resolved.Partitioned ↔ Integrity.rangesFindings path resolved.entries = []) ∧
      (resolved.Partitioned → resolved.inRangeMode = true →
        (∀ source : Source, source.Proper → ∀ collectionId roll,
          (resolved.draw collectionId [] source).1 ≠
            .error (.selection (.noRange roll resolved.id))) ∧
        ∀ entry ∈ resolved.entries, ∃ all roll, SimpleTable.span resolved.ranges = some all ∧
          all.covers roll = true ∧ resolved.entryAt roll = some entry)) ∧
    ∀ resolved, e.registry.Steady c.id t resolved → resolved.inRangeMode = true →
      resolved.Partitioned ∧
        (e.Faithful → ∀ given, (e.inherit t c.id).result = .ok given → given = resolved) := by
  have horderly := he.orderly
  have hheld := horderly.holds hc ht
  refine ⟨fun resolved h => ?_, fun resolved hsteady hmode => ⟨?_, fun hfaithful given h => ?_⟩⟩
  · have hderived := derived_of_inherit he.derived hc ht h
    have hforward := SimpleTable.forward_of_ranges (hderived.forward hconsistent)
    refine ⟨SimpleTable.partitioned_iff hforward, fun hpartitioned hmode => ⟨?_, ?_⟩⟩
    · exact fun source hsource collectionId roll =>
        SimpleTable.draw_ne_noRange hpartitioned hforward hmode hsource collectionId roll
    · exact fun entry hentry => hpartitioned.exists_entryAt hentry
  · exact hsteady.partitioned horderly hconsistent hheld hmode
  · exact (hfaithful.inherits horderly.distinct hheld h).unique hsteady.inherits

/-- A table renames the second of two entries that it inherits. -/
theorem partitioned_of_renamed_entry :
    let origin : SimpleTable := { id := "p", entries := [
      { id := some "a", range := some ⟨1, 3⟩, value := some "low", given := [.id, .range, .value] },
      { id := some "b", range := some ⟨4, 6⟩, value := some "high",
        given := [.id, .range, .value] }] }
    let heir : SimpleTable := { id := "t", parent := some "p", entries := [
      { id := some "b", value := some "higher", given := [.id, .value] }] }
    let document : Document := {
      metadata := { name := "n", namespaceText := "c" }, tables := [.simple origin, .simple heir] }
    let c : Collection := { id := "c", document }
    let e : Engine := (({} : Engine).loadDocument "c" document none).engine
    (e.Reachable ∧ e.registry = ⟨[c]⟩ ∧ c.document.Consistent ∧
      e.registry.Steady c.id heir (heir.laidOver origin.identified) ∧
      (heir.laidOver origin.identified).entries.map (·.value) = [some "low", some "higher"]) ∧
    (heir.laidOver origin.identified).Partitioned ∧
    ∃ resolved, (e.inherit heir c.id).result = .ok resolved ∧
      ∀ source : Source, source.Proper → ∀ roll,
        (resolved.draw c.id [] source).1 ≠ .error (.selection (.noRange roll resolved.id)) := by
  intro origin heir document c e
  have he : e.Reachable := .loadDocument (.initial _) "c" document none
  have hloaded : e = { registry := ⟨[c]⟩ } := engine_loadDocument _ _ _ (by cbv) rfl
  have hregistry : e.registry = ⟨[c]⟩ := by rw [hloaded]
  have hc : c ∈ e.registry.collections := by
    rw [hregistry]
    exact .head _
  have hconsistent : c.document.Consistent := by
    intro t ht entry hentry
    rcases List.mem_pair.1 ht with h | h <;> cases h
    · rcases List.mem_pair.1 hentry with rfl | rfl <;> decide
    · rw [List.mem_singleton.1 hentry]
      decide
  have hall : ∀ c ∈ e.registry.collections, c.document.Consistent := by
    rw [hregistry]
    exact List.forall_mem_singleton.2 hconsistent
  have hheir : .simple heir ∈ c.document.tables := .tail _ (.head _)
  have hsteady : e.registry.Steady c.id heir (heir.laidOver origin.identified) := by
    have hfind : e.registry.find "p" "c" = .ok (some ⟨.table (.simple origin), "c"⟩) := by
      rw [hregistry]
      cbv
    refine .laid rfl hfind (.own rfl) ⟨by decide, ?_, ?_⟩
    · exact List.forall_mem_singleton.2 (by decide)
    · exact List.forall_mem_singleton.2 (by decide)
  have hmain := partitioned_of_reachable he hall hc hheir
  have hpartitioned := (hmain.2 _ hsteady (by decide)).1
  have hfaithful : e.Faithful := by
    rw [hloaded]
    exact Registry.remembers_nil
  refine ⟨⟨he, hregistry, hconsistent, hsteady, by decide⟩, hpartitioned, ?_⟩
  have hgiven : (e.inherit heir c.id).result.toOption.isSome = true := by
    rw [hloaded]
    decide
  cases hresult : (e.inherit heir c.id).result with
  | error f =>
      rw [hresult] at hgiven
      cases hgiven
  | ok resolved =>
      obtain rfl := (hmain.2 _ hsteady (by decide)).2 hfaithful resolved hresult
      exact ⟨_, rfl, fun source hsource roll =>
        ((hmain.1 _ hresult).2 hpartitioned (by decide)).1 source hsource c.id roll⟩

/-- Both tables pass the check, but moving the range of an inherited entry leaves a gap, and giving it
more rolls leaves another one out of reach. -/
theorem gap_after_inheriting :
    let entry (id : String) (first last : Int) : Entry :=
      { id := some id, range := some ⟨first, last⟩, value := some id, given := [.id, .range, .value] }
    let origin : SimpleTable := { id := "p", entries := [entry "a" 1 3, entry "b" 4 6] }
    let document : Document := {
      metadata := { name := "n", namespaceText := "c" }
      tables := [.simple origin, .simple { id := "t", parent := some "p", entries := [entry "b" 8 9] },
        .simple { id := "u", parent := some "p", entries := [entry "a" 1 6] }] }
    let e : Engine := (({} : Engine).loadDocument "c" document none).engine
    let rolled (id : String) (millionths : Nat) :=
      (e.evaluate "c" (.roll id) { source := .ofDraws [millionths] }).result.toOption
    (document.errors = [] ∧ e.Reachable ∧ e.registry.ids = ["c"]) ∧
    (rolled "t" 700000).bind (·.error) = some (.selection (.noRange 7 "t")) ∧
    (rolled "u" 999999).map (·.text) = some "a" := by
  intro entry origin document e rolled
  have hsound : document.errors.isEmpty = true := by cbv
  have hloaded : e = { registry := ⟨[{ id := "c", document }]⟩ } :=
    engine_loadDocument _ _ _ hsound rfl
  refine ⟨⟨List.isEmpty_iff.1 hsound, .loadDocument (.initial _) "c" document none, ?_⟩, ?_, ?_⟩
  · rw [hloaded]
    rfl
  · simp only [rolled, hloaded]
    decide
  · simp only [rolled, hloaded]
    decide +kernel

end Engine

end RandomTables
