-- SUMMARY: The collections in which the texts of inherited entries were written.
import Mathlib.Data.List.Perm.Subperm
import RandomTables.Proofs.Assoc
import RandomTables.Proofs.Registry.Inheriting

/-!
# Homes

A table of one collection may extend a table of another one, so what inheritance makes of it can
hold texts of several collections. The home of a field of an entry is the collection of the table
that gives the field last, or else of the table that declares the entry first.
-/
namespace RandomTables

namespace SimpleTable

/-- An entry of the table has this id. -/
def declares (t : SimpleTable) (entryId : String) : Bool :=
  t.identified.entries.any fun e => e.idText = entryId

/-- An entry of the table with this id gives this field. -/
def gives (t : SimpleTable) (entryId : String) (f : EntryField) : Bool :=
  t.identified.entries.any fun e => e.idText = entryId && e.gives f

/-- The table has a default set with this key. -/
def presets (t : SimpleTable) (key : String) : Bool := (t.defaultSets.getD []).has key

end SimpleTable

/-- Where the texts of an entry are at home: each field, and each set by its key. -/
structure Homes where
  value : String
  description : String
  set : String → String

namespace Registry

variable (r : Registry)

/-- How many tables all collections have. -/
def tableCount : Nat := (r.collections.flatMap fun c => c.document.tables).length

/-- A table of a collection, the table that it extends, and so on, each with its collection. -/
def lineage : Nat → String → SimpleTable → List (String × SimpleTable)
  | 0, _, _ => []
  | fuel + 1, collectionId, t =>
    (collectionId, t) ::
      if (t.parent.getD "").isEmpty then []
      else match r.find (t.parent.getD "") collectionId with
        | .ok (some ⟨.table (.simple parent), owner⟩) => lineage fuel owner parent
        | _ => []

/-- The lineage of the simple table that a collection holds under an id. -/
def lineageOf (collectionId tableId : String) : List (String × SimpleTable) :=
  match (r.get? collectionId).bind fun c => c.table? tableId with
  | some (.simple t) => r.lineage r.tableCount collectionId t
  | _ => []

/-- The collection of the first table that gives something, or else of the last one that declares
it. -/
def homeAlong (gives declares : SimpleTable → Bool) : List (String × SimpleTable) → Option String
  | [] => none
  | (collectionId, t) :: rest =>
    if gives t then some collectionId
    else (homeAlong gives declares rest).or (if declares t then some collectionId else none)

/-- The home of a field of an entry, by the ids of its table and of the entry. -/
def fieldHome (collectionId tableId entryId : String) (f : EntryField) : String :=
  (homeAlong (·.gives entryId f) (·.declares entryId)
    (r.lineageOf collectionId tableId)).getD collectionId

/-- The home of a default set of a table. -/
def presetHome (collectionId tableId key : String) : String :=
  (homeAlong (·.presets key) (fun _ => false)
    (r.lineageOf collectionId tableId)).getD collectionId

/-- Where the texts of an entry of a resolved table are at home. A set is the entry's own or else a
default one. -/
def homesOf (collectionId tableId : String) (e : Entry) : Homes where
  value := r.fieldHome collectionId tableId e.idText .value
  description := r.fieldHome collectionId tableId e.idText .description
  set key :=
    if e.sets.has key then r.fieldHome collectionId tableId e.idText .sets
    else r.presetHome collectionId tableId key

/-! ## Lineages -/

/-- A table of a collection, the table that it extends, and so on to one that extends none. -/
inductive Descends : String → SimpleTable → List (String × SimpleTable) → Prop where
  | own {collectionId : String} {t : SimpleTable} (hnone : (t.parent.getD "").isEmpty = true) :
    Descends collectionId t [(collectionId, t)]
  | laid {collectionId owner : String} {t parent : SimpleTable}
    {line : List (String × SimpleTable)} (hsome : (t.parent.getD "").isEmpty = false)
    (hfind : r.find (t.parent.getD "") collectionId =
      .ok (some ⟨.table (.simple parent), owner⟩))
    (hparent : Descends owner parent line) :
    Descends collectionId t ((collectionId, t) :: line)

variable {r} {collectionId : String} {t : SimpleTable} {line : List (String × SimpleTable)}

namespace Descends

theorem unique {other : List (String × SimpleTable)} (h : r.Descends collectionId t line)
    (h' : r.Descends collectionId t other) : line = other := by
  induction h generalizing other with
  | own hnone =>
      cases h' with
      | own _ => rfl
      | laid hsome _ _ => exact absurd (hnone.symm.trans hsome) (by decide)
  | laid hsome hfind _ ih =>
      cases h' with
      | own hnone => exact absurd (hnone.symm.trans hsome) (by decide)
      | laid _ hfind' hparent =>
          cases hfind.symm.trans hfind'
          rw [ih hparent]

/-- The lineage of a table that extends another one goes on with that of the other one. -/
theorem exists_rest (h : r.Descends collectionId t line) {owner : String} {parent : SimpleTable}
    (hsome : (t.parent.getD "").isEmpty = false)
    (hfind : r.find (t.parent.getD "") collectionId =
      .ok (some ⟨.table (.simple parent), owner⟩)) :
    ∃ rest, line = (collectionId, t) :: rest ∧ r.Descends owner parent rest := by
  cases h with
  | own hnone => exact absurd (hnone.symm.trans hsome) (by decide)
  | laid _ hfind' hparent =>
      cases hfind.symm.trans hfind'
      exact ⟨_, rfl, hparent⟩

theorem holds (h : r.Descends collectionId t line) (ht : r.Holds collectionId t) :
    ∀ p ∈ line, r.Holds p.1 p.2 := by
  induction h with
  | own _ => exact List.forall_mem_singleton.2 ht
  | laid _ hfind _ ih => exact List.forall_mem_cons.2 ⟨ht, ih (holds_of_find hfind)⟩

/-- Every table of a lineage has the rest as its own lineage. -/
theorem of_mem (h : r.Descends collectionId t line) {p : String × SimpleTable} (hp : p ∈ line) :
    ∃ rest, rest <:+ line ∧ r.Descends p.1 p.2 rest := by
  induction h with
  | own hnone =>
      obtain rfl := List.mem_singleton.1 hp
      exact ⟨_, List.suffix_refl _, .own hnone⟩
  | laid hsome hfind hparent ih =>
      rcases List.mem_cons.1 hp with rfl | hp
      · exact ⟨_, List.suffix_refl _, .laid hsome hfind hparent⟩
      · obtain ⟨rest, hrest, hdescends⟩ := ih hp
        exact ⟨rest, hrest.trans (List.suffix_cons _ _), hdescends⟩

/-- No table extends itself, be it by way of others: its lineage would be a part of itself. -/
theorem nodup (h : r.Descends collectionId t line) : line.Nodup := by
  induction h with
  | own _ => exact List.nodup_singleton _
  | laid hsome hfind hparent ih =>
      refine List.nodup_cons.2 ⟨fun hmem => ?_, ih⟩
      obtain ⟨rest, hrest, hdescends⟩ := hparent.of_mem hmem
      obtain rfl := hdescends.unique (.laid hsome hfind hparent)
      exact Nat.not_succ_le_self _ hrest.length_le

/-- No two tables of a lineage are of the same collection and have the same id. -/
theorem nodup_homes (hr : r.Distinct) (h : r.Descends collectionId t line)
    (ht : r.Holds collectionId t) : (line.map fun p => (p.1, p.2.id)).Nodup := by
  have hheld := h.holds ht
  refine h.nodup.map_on fun p hp q hq hsame => ?_
  obtain ⟨hcollection, hid⟩ := Prod.mk.inj hsame
  have hq' := hheld q hq
  rw [← hcollection] at hq'
  exact Prod.ext hcollection ((hheld p hp).unique hr hq' hid.symm).symm

/-- A lineage is no longer than there are tables. -/
theorem length_le (hr : r.Distinct) (h : r.Descends collectionId t line)
    (ht : r.Holds collectionId t) : line.length ≤ r.tableCount := by
  let keys := r.collections.flatMap fun c => c.document.tables.map fun t => (c.id, t.header.id)
  have hsubset : (line.map fun p => (p.1, p.2.id)) ⊆ keys := by
    intro key hkey
    obtain ⟨p, hp, rfl⟩ := List.mem_map.1 hkey
    obtain ⟨c, hc, hcollection, htable⟩ := h.holds ht p hp
    refine List.mem_flatMap.2 ⟨c, hc, List.mem_map.2 ⟨_, List.mem_of_find?_eq_some htable, ?_⟩⟩
    rw [hcollection]
    rfl
  have hcount : keys.length = r.tableCount := by
    simp only [keys, tableCount, List.length_flatMap, List.length_map]
  have hle := (List.subperm_of_subset (h.nodup_homes hr ht) hsubset).length_le
  rwa [List.length_map, hcount] at hle

end Descends

theorem lineage_eq (h : r.Descends collectionId t line) {fuel : Nat} (hfuel : line.length ≤ fuel) :
    r.lineage fuel collectionId t = line := by
  induction h generalizing fuel with
  | own hnone =>
      obtain ⟨fuel, rfl⟩ := Nat.exists_eq_add_of_lt hfuel
      rw [lineage, if_pos hnone]
  | laid hsome hfind _ ih =>
      cases fuel with
      | zero => cases hfuel
      | succ fuel =>
          rw [lineage, if_neg (ne_true_of_eq_false hsome), hfind]
          exact congrArg _ (ih (Nat.le_of_succ_le_succ hfuel))

theorem lineageOf_eq (hr : r.Distinct) (ht : r.Holds collectionId t)
    (h : r.Descends collectionId t line) : r.lineageOf collectionId t.id = line := by
  have hle := h.length_le hr ht
  obtain ⟨c, hc, rfl, htable⟩ := ht
  rw [lineageOf, get?_of_mem hr hc, Option.bind_some, htable]
  exact lineage_eq h hle

end Registry

/-! ## Entries laid over others -/

/-- A part of an entry that goes with one of its fields. -/
structure Entry.PartOf {α : Type} (part : Entry → α) (f : EntryField) : Prop where
  withId : ∀ e id, part { e with id } = part e
  overriddenBy : ∀ inherited own : Entry,
    part (inherited.overriddenBy own) = if own.gives f then part own else part inherited

theorem Entry.id_of_idText {e : Entry} (h : e.idText ≠ "") : e.id = some e.idText := by
  unfold Entry.idText at h ⊢
  cases hid : e.id with
  | none =>
      rw [hid] at h
      exact absurd rfl h
  | some id => rfl

/-- No key is empty: those that are made have three digits. -/
theorem Entry.key_ne_empty (tableId : String) (index : Nat) (e : Entry) :
    e.key tableId index ≠ "" := by
  rw [Entry.key]
  split
  · intro hnil
    have hlength := congrArg (fun text : String => text.toList.length) hnil
    simp only [Text.padLeft, String.toList_append, String.toList_ofList, List.length_append,
      List.length_replicate, String.toList_empty, List.length_nil] at hlength
    omega
  · rename_i hid
    simpa using hid

theorem Entry.partOf_value : PartOf Entry.value .value := ⟨fun _ _ => rfl, fun _ _ => rfl⟩

theorem Entry.partOf_description : PartOf Entry.description .description :=
  ⟨fun _ _ => rfl, fun _ _ => rfl⟩

theorem Entry.partOf_sets : PartOf Entry.sets .sets := ⟨fun _ _ => rfl, fun _ _ => rfl⟩

namespace SimpleTable

/-- What becomes of the entry with a key, if there is one yet, under an entry with an id. -/
def layUnder (key : String) (found : Option Entry) (own : Entry) : Option Entry :=
  if own.idText = key then some (found.elim own (·.overriddenBy own)) else found

/-- An entry of a table with the id that its place gives it. -/
def identify (tableId : String) (own : Entry × Nat) : Entry :=
  if own.1.idText.isEmpty then { own.1 with id := some (own.1.key tableId own.2) } else own.1

theorem idText_identify (tableId : String) (own : Entry × Nat) :
    (identify tableId own).idText = own.1.key tableId own.2 := by
  unfold identify Entry.key
  split
  · rfl
  · rfl

theorem overriddenBy_identify (tableId : String) (inherited : Entry) (own : Entry × Nat) :
    inherited.overriddenBy (identify tableId own) = inherited.overriddenBy own.1 := by
  unfold identify
  split
  · rfl
  · rfl

theorem identify_eq (tableId : String) (own : Entry × Nat) :
    identify tableId own = { own.1 with id := some (own.1.key tableId own.2) } := by
  unfold identify Entry.key
  split
  · rfl
  · rename_i hid
    rw [← Entry.id_of_idText (e := own.1) (by simpa using hid)]

theorem get?_layEntry (tableId : String) (entries : Assoc Entry) (own : Entry × Nat)
    (key : String) :
    (layEntry tableId entries own).get? key =
      layUnder key (entries.get? key) (identify tableId own) := by
  unfold layEntry layUnder
  dsimp only
  rw [idText_identify, ← identify_eq]
  by_cases hkey : own.1.key tableId own.2 = key
  · rw [if_pos hkey, hkey]
    cases entries.get? key with
    | none => exact Assoc.get?_put_self _ _ _
    | some inherited =>
        rw [Assoc.get?_put_self]
        exact congrArg some (overriddenBy_identify tableId inherited own).symm
  · rw [if_neg hkey]
    split <;> rw [Assoc.get?_put, if_neg (Ne.symm hkey)]

variable {t : SimpleTable} {inherited : List Entry} {key : String} {found : Option Entry}
  {own : List Entry} {e : Entry}

theorem entries_identified (t : SimpleTable) :
    t.identified.entries = t.entries.zipIdx.map (identify t.id) := rfl

/-- The entry with a key among entries that are laid over inherited ones. -/
theorem get?_laid (t : SimpleTable) (start : Assoc Entry) (key : String) :
    (t.entries.zipIdx.foldl (layEntry t.id) start).get? key =
      t.identified.entries.foldl (layUnder key) (start.get? key) := by
  rw [entries_identified, List.foldl_map]
  induction t.entries.zipIdx generalizing start with
  | nil => rfl
  | cons own rest ih => rw [List.foldl_cons, List.foldl_cons, ih, get?_layEntry]

/-- An entry is laid over what there was: its part is that of an own entry which gives it, or if
there is none, that of what there was, or else of the own entry that came first. -/
theorem part_of_layUnder {α : Type} {part : Entry → α} {f : EntryField} (hpart : Entry.PartOf part f)
    (h : own.foldl (layUnder key) found = some e) :
    (∃ o ∈ own, o.idText = key ∧ o.gives f = true ∧ part o = part e) ∨
      (∀ o ∈ own, o.idText = key → o.gives f = false) ∧
        ((∃ inherited, found = some inherited ∧ part inherited = part e) ∨
          found = none ∧ ∃ o ∈ own, o.idText = key ∧ part o = part e) := by
  induction own generalizing found with
  | nil => exact .inr ⟨fun _ ho => absurd ho List.not_mem_nil, .inl ⟨e, h, rfl⟩⟩
  | cons o rest ih =>
      rw [List.foldl_cons] at h
      rcases ih h with ⟨o', ho', hgiven⟩ | ⟨hnone, hrest⟩
      · exact .inl ⟨o', List.mem_cons_of_mem _ ho', hgiven⟩
      · by_cases hkey : o.idText = key
        · have hlaid : layUnder key found o = some (found.elim o (·.overriddenBy o)) := if_pos hkey
          rw [hlaid] at hrest
          obtain ⟨now, hnow, hsame⟩ : ∃ now, found.elim o (·.overriddenBy o) = now ∧
              part now = part e := by
            rcases hrest with ⟨now, hnow, hsame⟩ | ⟨hfails, -⟩
            · exact ⟨now, Option.some.inj hnow, hsame⟩
            · cases hfails
          by_cases hgives : o.gives f = true
          · refine .inl ⟨o, List.mem_cons_self, hkey, hgives, ?_⟩
            rw [← hsame, ← hnow]
            cases found with
            | none => rfl
            | some inherited => exact (hpart.overriddenBy inherited o).trans (if_pos hgives) |>.symm
          · refine .inr ⟨List.forall_mem_cons.2 ⟨fun _ => eq_false_of_ne_true hgives, hnone⟩, ?_⟩
            cases found with
            | none =>
                cases hnow
                exact .inr ⟨rfl, o, List.mem_cons_self, hkey, hsame⟩
            | some inherited =>
                refine .inl ⟨inherited, rfl, ?_⟩
                rw [← hsame, ← hnow]
                exact ((hpart.overriddenBy inherited o).trans (if_neg hgives)).symm
        · have hleft : layUnder key found o = found := if_neg hkey
          rw [hleft] at hrest
          refine .inr ⟨List.forall_mem_cons.2 ⟨fun hsame => absurd hsame hkey, hnone⟩, ?_⟩
          rcases hrest with hrest | ⟨hfound, o', ho', hrest⟩
          · exact .inl hrest
          · exact .inr ⟨hfound, o', List.mem_cons_of_mem _ ho', hrest⟩

/-- Nothing is laid where there was nothing and no entry has the key. -/
theorem layUnder_eq_none (h : own.foldl (layUnder key) found = none) :
    found = none ∧ ∀ o ∈ own, o.idText ≠ key := by
  induction own generalizing found with
  | nil => exact ⟨h, fun _ ho => absurd ho List.not_mem_nil⟩
  | cons o rest ih =>
      obtain ⟨hnone, hrest⟩ := ih h
      unfold layUnder at hnone
      split at hnone
      · cases hnone
      · rename_i hkey
        exact ⟨hnone, List.forall_mem_cons.2 ⟨hkey, hrest⟩⟩

theorem idText_of_layUnder (hfound : ∀ e, found = some e → e.idText = key)
    (h : own.foldl (layUnder key) found = some e) : e.idText = key := by
  induction own generalizing found with
  | nil => exact hfound e h
  | cons o rest ih =>
      refine ih (fun e' he' => ?_) h
      unfold layUnder at he'
      split at he'
      · rename_i hkey
        cases he'
        cases found with
        | none => exact hkey
        | some inherited => exact hfound inherited rfl
      · exact hfound e' he'

theorem nodup_keys_laid (t : SimpleTable) {start : Assoc Entry} (h : start.keys.Nodup) :
    Assoc.keys (t.entries.zipIdx.foldl (layEntry t.id) start) |>.Nodup := by
  induction t.entries.zipIdx generalizing start with
  | nil => exact h
  | cons own rest ih =>
      refine ih ?_
      unfold layEntry
      dsimp only
      split
      · exact Assoc.nodup_keys_put h _ _
      · exact Assoc.nodup_keys_put h _ _

/-- Entries by their ids. -/
abbrev byId (entries : List Entry) : Assoc Entry :=
  Assoc.ofPairs (entries.map fun e => (e.idText, e))

theorem mem_of_byId (h : (byId inherited).get? key = some e) : e ∈ inherited ∧ e.idText = key := by
  rw [Assoc.get?_ofPairs] at h
  obtain ⟨e', he', hsame⟩ := List.mem_map.1 (List.mem_reverse.1 (mem_of_lookup h))
  obtain ⟨rfl, rfl⟩ := Prod.mk.inj hsame
  exact ⟨he', rfl⟩

theorem idText_ne_of_byId (h : (byId inherited).get? key = none) :
    ∀ e ∈ inherited, e.idText ≠ key := by
  rintro e he rfl
  rw [Assoc.get?_ofPairs] at h
  have hmem : (e.idText, e) ∈ (inherited.map fun e => (e.idText, e)).reverse :=
    List.mem_reverse.2 (List.mem_map.2 ⟨e, he, rfl⟩)
  have hne := List.lookup_eq_none_iff.1 h _ hmem
  simp at hne

theorem declares_of_gives {f : EntryField} (h : t.gives key f = true) : t.declares key = true := by
  obtain ⟨e, he, hgives⟩ := List.any_eq_true.1 h
  exact List.any_eq_true.2 ⟨e, he, (Bool.and_eq_true_iff.1 hgives).1⟩

theorem gives_eq_false {f : EntryField}
    (h : ∀ o ∈ t.identified.entries, o.idText = key → o.gives f = false) :
    t.gives key f = false := by
  refine List.any_eq_false.2 fun o ho hgives => ?_
  obtain ⟨hid, hgiven⟩ := Bool.and_eq_true_iff.1 hgives
  rw [h o ho (of_decide_eq_true hid)] at hgiven
  cases hgiven

theorem declares_of_mem (h : e ∈ t.identified.entries) : t.declares e.idText = true :=
  List.any_eq_true.2 ⟨e, h, decide_eq_true rfl⟩

/-- What an entry of a table that is laid over another one was laid together from. -/
theorem layUnder_of_mem (h : e ∈ layEntries t.id inherited t.entries) :
    t.identified.entries.foldl (layUnder e.idText) ((byId inherited).get? e.idText) = some e := by
  obtain ⟨⟨key, e⟩, hp, rfl⟩ := List.mem_map.1 h
  have hget := Assoc.get?_eq_some_of_mem (nodup_keys_laid t (Assoc.nodup_keys_ofPairs _)) hp
  rw [get?_laid] at hget
  have hid : e.idText = key := idText_of_layUnder (fun _ hfound => (mem_of_byId hfound).2) hget
  rw [hid]
  exact hget

/-- An inherited entry, or an own one, has an entry with its id. -/
theorem exists_mem_layEntries (h : (∃ e ∈ inherited, e.idText = key) ∨ t.declares key = true) :
    ∃ e ∈ layEntries t.id inherited t.entries, e.idText = key := by
  cases hlaid : t.identified.entries.foldl (layUnder key) ((byId inherited).get? key) with
  | none =>
      obtain ⟨hinherited, hown⟩ := layUnder_eq_none hlaid
      rcases h with ⟨e, he, hid⟩ | h
      · exact absurd hid (idText_ne_of_byId hinherited e he)
      · obtain ⟨o, ho, hid⟩ := List.any_eq_true.1 h
        exact absurd (of_decide_eq_true hid) (hown o ho)
  | some e =>
      have hid : e.idText = key := idText_of_layUnder (fun _ hfound => (mem_of_byId hfound).2) hlaid
      rw [← get?_laid] at hlaid
      exact ⟨e, List.mem_map.2 ⟨_, mem_of_lookup hlaid, rfl⟩, hid⟩

end SimpleTable

/-- Every entry has an id. -/
def SimpleTable.Named (t : SimpleTable) : Prop := ∀ e ∈ t.entries, e.idText ≠ ""

theorem SimpleTable.Named.identified (t : SimpleTable) : t.identified.Named := by
  intro e he
  obtain ⟨own, -, rfl⟩ := List.mem_map.1 he
  change (identify _ own).idText ≠ ""
  rw [idText_identify]
  exact own.1.key_ne_empty _ own.2

theorem SimpleTable.Named.laidOver {parent : SimpleTable} (h : parent.Named) (t : SimpleTable) :
    (t.laidOver parent).Named :=
  forall_layEntries (P := fun e => e.idText ≠ "") (Q := fun _ => True) h (fun _ _ => trivial)
    (fun _ _ h _ => h) fun o index _ => o.key_ne_empty _ index

namespace Registry

variable {r : Registry} {collectionId : String} {t resolved : SimpleTable}

theorem Inherits.named (h : r.Inherits collectionId t resolved) : resolved.Named := by
  induction h with
  | own _ => exact .identified _
  | laid _ _ _ ih => exact ih.laidOver _

/-- Every entry of a table with what it inherits has an id. -/
theorem Inherits.idText_ne_empty (h : r.Inherits collectionId t resolved) {e : Entry}
    (he : e ∈ resolved.entries) : e.idText ≠ "" := h.named e he

/-- Tables are remembered under their ids, and all their entries have ids. -/
def Filed (tables : ResolvedTables) : Prop := ∀ p ∈ tables, p.2.id = p.1.2 ∧ p.2.Named

/-- Resolving tables remembers them so. -/
theorem tracks_filed (r : Registry) :
    r.Tracks Filed (fun _ _ => True) (fun _ _ _ => True)
      fun _ _ t resolved => resolved.id = t.id ∧ resolved.Named where
  found _ := trivial
  start _ := trivial
  known hs _ hlookup := hs _ (mem_of_lookup hlookup)
  anew _ _ := trivial
  own hs _ _ :=
    ⟨List.forall_mem_cons.2 ⟨⟨rfl, .identified _⟩, hs⟩, rfl, .identified _⟩
  laid hs _ _ _ hparent :=
    ⟨List.forall_mem_cons.2 ⟨⟨rfl, hparent.2.laidOver _⟩, hs⟩, rfl, hparent.2.laidOver _⟩

/-- An entry of a table in a line that has the part of another entry with its id, where the part is
at home. -/
def Written {α : Type} (part : Entry → α) (f : EntryField) (line : List (String × SimpleTable))
    (e : Entry) : Prop :=
  ∃ home t own, homeAlong (·.gives e.idText f) (·.declares e.idText) line = some home ∧
    (home, t) ∈ line ∧ own ∈ t.identified.entries ∧ own.idText = e.idText ∧ part own = part e

section

variable {gives declares : SimpleTable → Bool} {line : List (String × SimpleTable)}

theorem homeAlong_cons_of_gives (h : gives t = true) :
    homeAlong gives declares ((collectionId, t) :: line) = some collectionId := if_pos h

theorem homeAlong_cons_of_not_gives (h : gives t = false) :
    homeAlong gives declares ((collectionId, t) :: line) =
      (homeAlong gives declares line).or (if declares t then some collectionId else none) :=
  if_neg (ne_true_of_eq_false h)

theorem homeAlong_eq_none (hgives : ∀ p ∈ line, gives p.2 = false)
    (hdeclares : ∀ p ∈ line, declares p.2 = false) : homeAlong gives declares line = none := by
  induction line with
  | nil => rfl
  | cons p rest ih =>
      rw [List.forall_mem_cons] at hgives hdeclares
      rw [homeAlong_cons_of_not_gives hgives.1, ih hgives.2 hdeclares.2, hdeclares.1]
      rfl

/-- Where the first table declares something and no other one does, the first collection is its
home. -/
theorem homeAlong_cons_of_declares (hdeclares : declares t = true)
    (hrest : homeAlong gives declares line = none) :
    homeAlong gives declares ((collectionId, t) :: line) = some collectionId := by
  rw [homeAlong, hrest, hdeclares]
  split <;> rfl

end

/-- Every part of what a table inherits is written where it is at home, and the tables in the lineage
declare no other entries than it has. -/
theorem Inherits.written {α : Type} {part : Entry → α} {f : EntryField}
    (hpart : Entry.PartOf part f) (h : r.Inherits collectionId t resolved) :
    ∃ line, r.Descends collectionId t line ∧
      (∀ p ∈ line, ∀ key, p.2.declares key = true → ∃ e ∈ resolved.entries, e.idText = key) ∧
      ∀ e ∈ resolved.entries, Written part f line e := by
  induction h with
  | own hnone =>
      rename_i collectionId t
      refine ⟨_, .own hnone, List.forall_mem_singleton.2 fun key hkey => ?_, fun e he => ?_⟩
      · obtain ⟨e, he, hid⟩ := List.any_eq_true.1 hkey
        exact ⟨e, he, of_decide_eq_true hid⟩
      · exact ⟨collectionId, t, e,
          homeAlong_cons_of_declares (SimpleTable.declares_of_mem he) rfl,
          List.mem_singleton_self _, he, rfl, rfl⟩
  | laid hsome hfind hparent ih =>
      rename_i collectionId owner t parent inherited
      obtain ⟨line, hline, hdeclared, hwritten⟩ := ih
      refine ⟨_, .laid hsome hfind hline, List.forall_mem_cons.2 ⟨fun key hkey => ?_, ?_⟩,
        fun e he => ?_⟩
      · exact SimpleTable.exists_mem_layEntries (.inr hkey)
      · exact fun p hp key hkey => SimpleTable.exists_mem_layEntries (.inl (hdeclared p hp key hkey))
      · rcases SimpleTable.part_of_layUnder hpart (SimpleTable.layUnder_of_mem he) with
          ⟨o, ho, hid, hgives, hsame⟩ | ⟨hnone, hrest⟩
        · have hgiven : t.gives e.idText f = true :=
            List.any_eq_true.2 ⟨o, ho, Bool.and_eq_true_iff.2 ⟨decide_eq_true hid, hgives⟩⟩
          exact ⟨collectionId, t, o, homeAlong_cons_of_gives hgiven, List.mem_cons_self, ho, hid,
            hsame⟩
        · have hgiven := SimpleTable.gives_eq_false hnone
          rcases hrest with ⟨e', hfound, hsame⟩ | ⟨hfound, o, ho, hid, hsame⟩
          · obtain ⟨he', hid⟩ := SimpleTable.mem_of_byId hfound
            obtain ⟨home, t', own, hhome, hmem, hown, hid', hsame'⟩ := hwritten e' he'
            rw [hid] at hhome hid'
            refine ⟨home, t', own, ?_, List.mem_cons_of_mem _ hmem, hown, hid', hsame'.trans hsame⟩
            rw [homeAlong_cons_of_not_gives hgiven, hhome]
            rfl
          · have hfresh : ∀ p ∈ line, p.2.declares e.idText = false := by
              intro p hp
              refine eq_false_of_ne_true fun hdeclares => ?_
              obtain ⟨e', he', hid'⟩ := hdeclared p hp _ hdeclares
              exact SimpleTable.idText_ne_of_byId hfound e' he' hid'
            have hnowhere : homeAlong (·.gives e.idText f) (·.declares e.idText) line = none := by
              refine homeAlong_eq_none (fun p hp => ?_) hfresh
              refine eq_false_of_ne_true fun hgives => ?_
              have hdeclares := SimpleTable.declares_of_gives hgives
              rw [hfresh p hp] at hdeclares
              cases hdeclares
            exact ⟨collectionId, t, o,
              homeAlong_cons_of_declares (hid ▸ SimpleTable.declares_of_mem ho) hnowhere,
              List.mem_cons_self, ho, hid, hsame⟩

/-- Every default set that a table inherits is one of the table where it is at home. -/
theorem Inherits.preset (h : r.Inherits collectionId t resolved) :
    ∃ line, r.Descends collectionId t line ∧ ∀ key pattern,
      Assoc.get? (resolved.defaultSets.getD []) key = some pattern →
      ∃ home t', homeAlong (·.presets key) (fun _ => false) line = some home ∧
        (home, t') ∈ line ∧ (key, pattern) ∈ t'.defaultSets.getD [] := by
  induction h with
  | own hnone =>
      rename_i collectionId t
      refine ⟨_, .own hnone, fun key pattern hset => ?_⟩
      have hgives : t.presets key = true := Option.isSome_of_eq_some hset
      exact ⟨collectionId, t, homeAlong_cons_of_gives hgives, List.mem_singleton_self _,
        mem_of_lookup hset⟩
  | laid hsome hfind hparent ih =>
      rename_i collectionId owner t parent inherited
      obtain ⟨line, hline, hpreset⟩ := ih
      refine ⟨_, .laid hsome hfind hline, fun key pattern hset => ?_⟩
      rw [SimpleTable.defaultSets_laidOver, Assoc.get?_putAll] at hset
      cases hown : Assoc.get? (t.defaultSets.getD []).reverse key with
      | some own =>
          rw [hown] at hset
          cases hset
          have hgives : t.presets key = true := by
            rw [SimpleTable.presets, Assoc.has_eq_reverse, hown]
            rfl
          exact ⟨collectionId, t, homeAlong_cons_of_gives hgives, List.mem_cons_self,
            List.mem_reverse.1 (mem_of_lookup hown)⟩
      | none =>
          rw [hown] at hset
          have hgives : t.presets key = false := by
            rw [SimpleTable.presets, Assoc.has_eq_reverse, hown]
            rfl
          obtain ⟨home, t', hhome, hmem, hset'⟩ := hpreset key pattern hset
          refine ⟨home, t', ?_, List.mem_cons_of_mem _ hmem, hset'⟩
          rw [homeAlong_cons_of_not_gives hgives, hhome]
          rfl

/-! ## Texts at home -/

/-- A table of a collection has an entry with an id and a part as stated. -/
def Writes (r : Registry) (collectionId entryId : String) (P : Entry → Prop) : Prop :=
  ∃ t own, r.Holds collectionId t ∧ own ∈ t.identified.entries ∧ own.idText = entryId ∧ P own

/-- A table of a collection has a default set. -/
def Presets (r : Registry) (collectionId : String) (set : String × String) : Prop :=
  ∃ t, r.Holds collectionId t ∧ set ∈ t.defaultSets.getD []

/-- All texts of an entry of a resolved table are written where they are at home. -/
structure Housed (r : Registry) (collectionId : String) (t : SimpleTable) (e : Entry) : Prop where
  value : r.Writes (r.homesOf collectionId t.id e).value e.idText (·.value = e.value)
  description :
    r.Writes (r.homesOf collectionId t.id e).description e.idText (·.description = e.description)
  set : ∀ key pattern,
    Assoc.get? (Assoc.putAll (t.defaultSets.getD []) e.sets) key = some pattern →
    r.Writes ((r.homesOf collectionId t.id e).set key) e.idText (fun own => (key, pattern) ∈ own.sets) ∨
      r.Presets ((r.homesOf collectionId t.id e).set key) (key, pattern)

variable (hr : r.Distinct) (ht : r.Holds collectionId t) (h : r.Inherits collectionId t resolved)
include hr ht h

theorem Inherits.writes {α : Type} {part : Entry → α} {f : EntryField}
    (hpart : Entry.PartOf part f) {e : Entry} (he : e ∈ resolved.entries) :
    r.Writes (r.fieldHome collectionId t.id e.idText f) e.idText (fun own => part own = part e) := by
  obtain ⟨line, hline, -, hwritten⟩ := h.written hpart
  obtain ⟨home, owner, own, hhome, hmem, hown, hid, hsame⟩ := hwritten e he
  rw [fieldHome, lineageOf_eq hr ht hline, hhome]
  exact ⟨owner, own, hline.holds ht _ hmem, hown, hid, hsame⟩

theorem Inherits.presets {key pattern : String}
    (hset : Assoc.get? (resolved.defaultSets.getD []) key = some pattern) :
    r.Presets (r.presetHome collectionId t.id key) (key, pattern) := by
  obtain ⟨line, hline, hpreset⟩ := h.preset
  obtain ⟨home, owner, hhome, hmem, hown⟩ := hpreset key pattern hset
  rw [presetHome, lineageOf_eq hr ht hline, hhome]
  exact ⟨owner, hline.holds ht _ hmem, hown⟩

/-- Whatever a table inherits, its texts are written where they are at home. -/
theorem Inherits.housed {e : Entry} (he : e ∈ resolved.entries) :
    r.Housed collectionId resolved e := by
  have hid := h.id_eq
  refine ⟨?_, ?_, fun key pattern hset => ?_⟩
  · rw [hid]
    exact h.writes hr ht Entry.partOf_value he
  · rw [hid]
    exact h.writes hr ht Entry.partOf_description he
  · rw [hid, homesOf]
    rw [Assoc.get?_putAll] at hset
    dsimp only
    cases hown : Assoc.get? e.sets.reverse key with
    | none =>
        rw [hown] at hset
        have hnone : e.sets.has key = false := by
          rw [Assoc.has_eq_reverse, hown]
          rfl
        rw [if_neg (ne_true_of_eq_false hnone)]
        exact .inr (h.presets hr ht hset)
    | some own =>
        rw [hown] at hset
        cases hset
        have hsome : e.sets.has key = true := by
          rw [Assoc.has_eq_reverse, hown]
          rfl
        rw [if_pos hsome]
        obtain ⟨owner, o, hheld, ho, hoid, hsame⟩ := h.writes hr ht Entry.partOf_sets he
        refine .inl ⟨owner, o, hheld, ho, hoid, ?_⟩
        change (key, pattern) ∈ o.sets
        rw [hsame]
        exact List.mem_reverse.1 (mem_of_lookup hown)

end Registry

end RandomTables
