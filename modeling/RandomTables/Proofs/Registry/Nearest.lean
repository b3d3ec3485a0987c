-- SUMMARY: What a table inherits field by field: the nearest entry that gives it decides.
import RandomTables.Proofs.Document.Overriding
import RandomTables.Proofs.Registry.Ranges
import RandomTables.Proofs.Registry.Rows

/-!
# The nearest entry decides

Tables are laid over each other from the end of a lineage on, one entry over another. What comes of
it can be said without that order: each field of an entry is that of the nearest table whose entry
with the key gives it, where the weight and the range count as one field. So it is with default sets
and result types.
-/
namespace RandomTables

/-- The part of the nearest entry with a key in a line of tables that gives it, or else a default. -/
def nearest {α : Type} (line : List (String × SimpleTable)) (key : String) (gives : Entry → Bool)
    (part : Entry → α) (default : α) : α :=
  ((line.findSome? fun p =>
    p.2.identified.entries.find? fun e => e.idText = key && gives e).map part).getD default

/-- The entry with a key each field of which is that of the nearest entry that gives it. -/
def nearestEntry (line : List (String × SimpleTable)) (key : String) : Entry where
  value := nearest line key (·.gives .value) (·.value) none
  weight := nearest line key (·.givesChance) (·.weight) none
  range := nearest line key (·.givesChance) (·.range) none
  id := some key
  description := nearest line key (·.gives .description) (·.description) none
  resultType := nearest line key (·.gives .resultType) (·.resultType) none
  sets := nearest line key (·.gives .sets) (·.sets) []
  assets := nearest line key (·.gives .assets) (·.assets) []
  tags := nearest line key (·.gives .tags) (·.tags) []

/-- The keys in a line of tables in the order in which they first come, the last table first. -/
def keysAlong (line : List (String × SimpleTable)) : List String :=
  (line.reverse.flatMap fun p => p.2.identified.entries.map (·.idText)).eraseDups

/-- A table has one entry for each key in a line of tables, and of everything what the nearest table
gives. -/
structure Nearest (line : List (String × SimpleTable)) (t : SimpleTable) : Prop where
  entries : t.entries.map Entry.bare = (keysAlong line).map (nearestEntry line)
  chances : ∀ e ∈ t.entries, (e.weight = none ∨ e.range = none) ∧ e.Forward
  defaultSets : ∀ key, (t.defaultSets.getD []).get? key =
    line.findSome? fun p => (p.2.defaultSets.getD []).get? key
  resultType : t.resultType.getD "" =
    ((line.map (·.2.resultType.getD "")).find? (!·.isEmpty)).getD ""

namespace Entry

/-! ## One entry over another one -/

/-- What is not given has its default, apart from the id. -/
def Quiet (e : Entry) : Prop := ∀ f ≠ EntryField.id, e.gives f = false → e.Lacks f

theorem Authored.quiet {e : Entry} (h : e.Authored) : e.Quiet := fun f _ => h.silent f

/-- A part of an entry that is overridden by the entries that give it and has a default otherwise. -/
structure DecidedBy {α : Type} (part : Entry → α) (gives : Entry → Bool) (default : α) : Prop where
  overriddenBy : ∀ {own : Entry} (inherited : Entry), own.Quiet →
    part (inherited.overriddenBy own) = if gives own then part own else part inherited
  default : ∀ {own : Entry}, own.Quiet → gives own = false → part own = default

theorem Quiet.chance_overriddenBy {own : Entry} (h : own.Quiet) (inherited : Entry) :
    ((inherited.overriddenBy own).weight, (inherited.overriddenBy own).range) =
      if own.givesChance then (own.weight, own.range) else (inherited.weight, inherited.range) :=
  Entry.chance_overriddenBy inherited (h .weight (by decide)) (h .range (by decide))

theorem Quiet.chance {own : Entry} (h : own.Quiet) (hgives : own.givesChance = false) :
    own.weight = none ∧ own.range = none := by
  obtain ⟨hweight, hrange⟩ := Bool.or_eq_false_iff.1 hgives
  exact ⟨h .weight (by decide) hweight, h .range (by decide) hrange⟩

theorem decidedBy_weight : DecidedBy Entry.weight givesChance none where
  overriddenBy inherited h := by
    have hweight := congrArg Prod.fst (h.chance_overriddenBy inherited)
    rwa [apply_ite Prod.fst] at hweight
  default h hgives := (h.chance hgives).1

theorem decidedBy_range : DecidedBy Entry.range givesChance none where
  overriddenBy inherited h := by
    have hrange := congrArg Prod.snd (h.chance_overriddenBy inherited)
    rwa [apply_ite Prod.snd] at hrange
  default h hgives := (h.chance hgives).2

theorem conflict_congr {e e' : Entry} (hweight : e'.weight = e.weight)
    (hrange : e'.range = e.range) : e'.conflict = e.conflict := by
  rw [conflict, conflict, hweight, hrange]

/-- All other fields but the id are overridden on their own. -/
theorem decidedBy_field {α : Type} {part : Entry → α} {f : EntryField} {default : α} (hf : f ≠ .id)
    (hover : ∀ inherited own : Entry, part (inherited.overriddenBy own) =
      if own.gives f then part own else part inherited)
    (hdefault : ∀ own : Entry, own.Lacks f → part own = default) :
    DecidedBy part (·.gives f) default where
  overriddenBy inherited _ := hover inherited _
  default h hgives := hdefault _ (h f hf hgives)

/-- A conflict of the weight and the range comes from the entry that gives them. -/
theorem decidedBy_conflict : DecidedBy Entry.conflict givesChance none where
  overriddenBy {own} inherited h := by
    have hchance := h.chance_overriddenBy inherited
    cases hgives : own.givesChance <;> rw [hgives] at hchance <;>
      exact conflict_congr (congrArg Prod.fst hchance) (congrArg Prod.snd hchance)
  default h hgives := by
    obtain ⟨hweight, hrange⟩ := h.chance hgives
    rw [conflict, hweight, hrange]

end Entry

namespace SimpleTable

variable {t : SimpleTable} {inherited own : List Entry} {key : String} {found : Option Entry}
  {e : Entry}

theorem quiet_identify {tableId : String} {own : Entry × Nat} (h : own.1.Quiet) :
    (identify tableId own).Quiet := by
  unfold identify
  split
  · intro f hf hgives
    have hlacks := h f hf hgives
    cases f with
    | id => exact absurd rfl hf
    | _ => exact hlacks
  · exact h

theorem quiet_of_mem_identified (h : ∀ e ∈ t.entries, e.Quiet) :
    ∀ e ∈ t.identified.entries, e.Quiet := by
  rw [entries_identified]
  exact List.forall_mem_map.2 fun own hown => quiet_identify (h _ (List.fst_mem_of_mem_zipIdx hown))

theorem foldl_layUnder_of_ne (h : ∀ o ∈ own, o.idText ≠ key) :
    own.foldl (layUnder key) found = found := by
  induction own with
  | nil => rfl
  | cons o rest ih =>
      obtain ⟨ho, hrest⟩ := List.forall_mem_cons.1 h
      rw [List.foldl_cons, layUnder, if_neg ho, ih hrest]

/-- Of entries with keys of their own, the one with a key is laid over what there was. -/
theorem foldl_layUnder_eq (h : (own.map (·.idText)).Nodup) :
    own.foldl (layUnder key) found =
      match own.find? (·.idText = key) with
      | some o => some (found.elim o (·.overriddenBy o))
      | none => found := by
  induction own with
  | nil => rfl
  | cons o rest ih =>
      obtain ⟨hnew, hrest⟩ := List.nodup_cons.1 h
      rw [List.foldl_cons, layUnder, List.find?_cons]
      by_cases hkey : o.idText = key
      · have hne : ∀ other ∈ rest, other.idText ≠ key := fun other hother hsame =>
          hnew (List.mem_map.2 ⟨other, hother, hsame.trans hkey.symm⟩)
        rw [if_pos hkey, decide_eq_true hkey, foldl_layUnder_of_ne hne]
      · rw [if_neg hkey, decide_eq_false hkey, ih hrest]

/-- The entry with a key that gives something is the one with the key, if it gives that. -/
theorem find?_gives (h : (own.map (·.idText)).Nodup) (gives : Entry → Bool) :
    own.find? (fun e => e.idText = key && gives e) =
      (own.find? (·.idText = key)).filter gives := by
  induction own with
  | nil => rfl
  | cons o rest ih =>
      obtain ⟨hnew, hrest⟩ := List.nodup_cons.1 h
      rw [List.find?_cons, List.find?_cons]
      by_cases hkey : o.idText = key
      · have hnone : rest.find? (fun e => e.idText = key && gives e) = none := by
          refine List.find?_eq_none.2 fun other hother hfound => ?_
          have hsame : other.idText = key := by simpa using (Bool.and_eq_true_iff.1 hfound).1
          exact hnew (List.mem_map.2 ⟨other, hother, hsame.trans hkey.symm⟩)
        cases hgives : gives o <;> simp [hkey, hgives, hnone, Option.filter]
      · simp [hkey, ih hrest]

/-- An entry of a table laid over another one is an inherited entry, the own entry with its key, or
the one overridden by the other. -/
theorem laid_of_mem (h : (t.identified.entries.map (·.idText)).Nodup)
    (he : e ∈ layEntries t.id inherited t.entries) :
    (t.identified.entries.find? (·.idText = e.idText) = none ∧ e ∈ inherited) ∨
      ∃ own, t.identified.entries.find? (·.idText = e.idText) = some own ∧
        ((∃ i ∈ inherited, i.idText = e.idText ∧ e = i.overriddenBy own) ∨
          (∀ i ∈ inherited, i.idText ≠ e.idText) ∧ e = own) := by
  have hlaid := layUnder_of_mem he
  rw [foldl_layUnder_eq h] at hlaid
  cases hfind : t.identified.entries.find? (·.idText = e.idText) with
  | none =>
      rw [hfind] at hlaid
      exact .inl ⟨rfl, (mem_of_byId hlaid).1⟩
  | some own =>
      rw [hfind] at hlaid
      refine .inr ⟨own, rfl, ?_⟩
      cases hget : (byId inherited).get? e.idText with
      | none =>
          rw [hget] at hlaid
          exact .inr ⟨idText_ne_of_byId hget, (Option.some.inj hlaid).symm⟩
      | some i =>
          rw [hget] at hlaid
          obtain ⟨hi, hid⟩ := mem_of_byId hget
          exact .inl ⟨i, hi, hid, (Option.some.inj hlaid).symm⟩

end SimpleTable

/-! ## Along a lineage -/

section

variable {α : Type} {line : List (String × SimpleTable)} {p : String × SimpleTable} {key : String}
  {gives : Entry → Bool} {part : Entry → α} {default : α}

theorem nearest_cons (h : (p.2.identified.entries.map (·.idText)).Nodup) :
    nearest (p :: line) key gives part default =
      match (p.2.identified.entries.find? (·.idText = key)).filter gives with
      | some e => part e
      | none => nearest line key gives part default := by
  rw [nearest, List.findSome?_cons, SimpleTable.find?_gives h]
  cases (p.2.identified.entries.find? (·.idText = key)).filter gives <;> rfl

/-- Where no entry has the key there is the default. -/
theorem nearest_of_ne (h : ∀ p ∈ line, ∀ e ∈ p.2.identified.entries, e.idText ≠ key) :
    nearest line key gives part default = default := by
  have hnone : (line.findSome? fun p =>
      p.2.identified.entries.find? fun e => e.idText = key && gives e) = none := by
    refine List.findSome?_eq_none_iff.2 fun p hp => List.find?_eq_none.2 fun e he => ?_
    simp [h p hp e he]
  rw [nearest, hnone]
  rfl

/-- What holds of the default and of all entries holds of the nearest one. -/
theorem nearest_of_forall {P : α → Prop} (hdefault : P default)
    (h : ∀ p ∈ line, ∀ e ∈ p.2.identified.entries, P (part e)) :
    P (nearest line key gives part default) := by
  unfold nearest
  cases hfound : line.findSome? fun p =>
      p.2.identified.entries.find? fun e => e.idText = key && gives e with
  | none => exact hdefault
  | some e =>
      obtain ⟨p, hp, hfind⟩ := List.exists_of_findSome?_eq_some hfound
      exact h p hp e (List.mem_of_find?_eq_some hfind)

end

namespace Registry

variable {r : Registry} {collectionId : String} {t resolved : SimpleTable}
  {line : List (String × SimpleTable)} {config : Config}

/-- A table is resolved if each collection on its lineage allows for the tables that come before one
of its own that extends another one. -/
theorem exists_inheritFrom (h : r.Descends collectionId t line) {depth fuel : Nat}
    (hlimit : ∀ p ∈ line.dropLast.zipIdx depth, p.2 < r.extensionLimit config p.1.1)
    (hfuel : line.length ≤ fuel) (chain : List String) (s : Resolving) :
    ∃ resolved, (r.inheritFrom config fuel t collectionId depth chain s).1 = .ok resolved := by
  induction h generalizing depth fuel chain s with
  | own hnone =>
      rename_i collectionId t
      cases fuel with
      | zero => cases hfuel
      | succ fuel =>
          rw [inheritFrom, Computation.get_bind_apply]
          cases s.tables.lookup (collectionId, t.id) with
          | some found => exact ⟨found, rfl⟩
          | none =>
              dsimp only
              rw [if_pos hnone]
              exact ⟨_, rfl⟩
  | laid hsome hfind hparent ih =>
      rename_i collectionId owner t parent line
      cases fuel with
      | zero => cases hfuel
      | succ fuel =>
          rw [inheritFrom, Computation.get_bind_apply]
          cases s.tables.lookup (collectionId, t.id) with
          | some found => exact ⟨found, rfl⟩
          | none =>
              have hne : line ≠ [] := by cases hparent <;> exact List.cons_ne_nil _ _
              rw [List.dropLast_cons_of_ne_nil hne, List.zipIdx_cons, List.forall_mem_cons] at hlimit
              obtain ⟨hdepth, hrest⟩ := hlimit
              obtain ⟨inherited, hinherited⟩ :=
                ih hrest (Nat.le_of_succ_le_succ hfuel) (chain ++ [t.id]) s
              dsimp only
              rw [if_neg (ne_true_of_eq_false hsome), if_neg (Nat.not_le.2 hdepth), hfind,
                Resolve.lift_ok_bind]
              dsimp only
              rw [Computation.bind_apply]
              rcases hrun : r.inheritFrom config fuel parent owner (depth + 1)
                (chain ++ [t.id]) s with ⟨result, later⟩
              rw [hrun] at hinherited
              obtain rfl : result = .ok inherited := hinherited
              exact ⟨_, rfl⟩

theorem exists_inherit (h : r.Descends collectionId t line)
    (hlimit : ∀ p ∈ line.dropLast.zipIdx, p.2 < r.extensionLimit config p.1.1) (s : Resolving) :
    ∃ resolved, (r.inherit config t collectionId s).1 = .ok resolved := by
  have hfuel : line.length ≤ r.greatestLimit config + 2 := by
    by_contra hlong
    have hlast : r.greatestLimit config + 1 < line.dropLast.length := by
      rw [List.length_dropLast]
      omega
    have hmem : (line.dropLast.get ⟨_, hlast⟩, r.greatestLimit config + 1) ∈
        line.dropLast.zipIdx := List.mem_zipIdx_iff_getElem?.2 (List.getElem?_eq_getElem hlast)
    have hle := r.extensionLimit_le config (line.dropLast.get ⟨_, hlast⟩).1
    exact absurd (Nat.lt_of_lt_of_le (hlimit _ hmem) hle) (by simp)
  exact exists_inheritFrom h hlimit hfuel [] s

namespace Inherits

variable (h : r.Inherits collectionId t resolved) (hline : r.Descends collectionId t line)
  (hkeys : ∀ p ∈ line, (p.2.identified.entries.map (·.idText)).Nodup)
include h hline

section

include hkeys

/-- A table has one entry for every key of its lineage. -/
theorem keys_eq : resolved.entries.map (·.idText) = keysAlong line ∧
    (resolved.entries.map (·.idText)).Nodup := by
  obtain ⟨line', hline', hrow⟩ := h.rowOf_eq
  obtain rfl := hline'.unique hline
  have hrows : ∀ row ∈ line'.map (·.2.row), row.keys.Nodup := by
    refine List.forall_mem_map.2 fun p hp => ?_
    rw [SimpleTable.row, keys_rowOf]
    exact hkeys p hp
  have hflatten : Assoc.keys (line'.map (·.2.row)).reverse.flatten =
      line'.reverse.flatMap fun p => p.2.identified.entries.map (·.idText) := by
    rw [← List.map_reverse]
    induction line'.reverse with
    | nil => rfl
    | cons p rest ih =>
        rw [List.map_cons, List.flatten_cons, Assoc.keys_append, ih, SimpleTable.row, keys_rowOf,
          List.flatMap_cons]
  rw [← keys_rowOf, hrow, Assoc.mergeRows_eq hrows]
  refine ⟨?_, Assoc.nodup_keys_mergeAll (a := []) List.nodup_nil _⟩
  rw [Assoc.keys_mergeAll, hflatten, keysAlong]

/-- No table of the lineage has an entry with a key that no entry has. -/
theorem idText_ne {key : String} (hne : ∀ e ∈ resolved.entries, e.idText ≠ key) :
    ∀ p ∈ line, ∀ e ∈ p.2.identified.entries, e.idText ≠ key := by
  rintro p hp e he rfl
  have hkey : e.idText ∈ keysAlong line :=
    List.mem_eraseDups.2 (List.mem_flatMap.2 ⟨p, List.mem_reverse.2 hp, List.mem_map_of_mem he⟩)
  rw [← (h.keys_eq hline hkeys).1] at hkey
  obtain ⟨e', he', hid⟩ := List.mem_map.1 hkey
  exact hne e' he' hid

/-- A part of an entry is that of the nearest entry that gives it. -/
theorem part_eq {α : Type} {part : Entry → α} {gives : Entry → Bool} {default : α}
    (hpart : Entry.DecidedBy part gives default) (hquiet : ∀ p ∈ line, ∀ e ∈ p.2.entries, e.Quiet) :
    ∀ e ∈ resolved.entries, part e = nearest line e.idText gives part default := by
  induction h generalizing line with
  | own hnone =>
      rename_i t
      obtain rfl := hline.unique (.own hnone)
      intro e he
      obtain ⟨hnodup, -⟩ := List.forall_mem_cons.1 hkeys
      have hquiet := SimpleTable.quiet_of_mem_identified (hquiet _ List.mem_cons_self)
      rw [nearest_cons hnodup, Assoc.find?_key_of_mem hnodup he]
      cases hgives : gives e with
      | true => rw [Option.filter_some, if_pos hgives]
      | false =>
          rw [Option.filter_some, if_neg (ne_true_of_eq_false hgives)]
          exact hpart.default (hquiet e he) hgives
  | laid hsome hfind hparent ih =>
      rename_i t parent inherited
      obtain ⟨line, rfl, hrest⟩ := hline.exists_rest hsome hfind
      obtain ⟨hnodup, hkeys⟩ := List.forall_mem_cons.1 hkeys
      obtain ⟨hquietOwn, hquiet⟩ := List.forall_mem_cons.1 hquiet
      have hquietOwn := SimpleTable.quiet_of_mem_identified hquietOwn
      have hinherited := ih hrest hkeys hquiet
      intro e he
      rw [nearest_cons hnodup]
      rcases SimpleTable.laid_of_mem hnodup he with ⟨hnone, hmem⟩ | ⟨own, hown, hlaid⟩
      · rw [hnone]
        exact hinherited e hmem
      have hquiet := hquietOwn own (List.mem_of_find?_eq_some hown)
      rw [hown, Option.filter_some]
      rcases hlaid with ⟨i, hi, hid, rfl⟩ | ⟨hne, rfl⟩
      · rw [hpart.overriddenBy i hquiet, hinherited i hi, hid]
        split <;> rfl
      · have habsent := hparent.idText_ne hrest hkeys hne
        cases hgives : gives e with
        | true => simp
        | false =>
            rw [hpart.default hquiet hgives]
            exact (nearest_of_ne habsent).symm

end

/-- A default set is that of the nearest table that has it. -/
theorem get?_defaultSets (hnodup : ∀ p ∈ line, (p.2.defaultSets.getD []).keys.Nodup)
    (key : String) : (resolved.defaultSets.getD []).get? key =
      line.findSome? fun p => (p.2.defaultSets.getD []).get? key := by
  induction h generalizing line with
  | own hnone =>
      obtain rfl := hline.unique (.own hnone)
      exact List.findSome?_singleton.symm
  | laid hsome hfind hparent ih =>
      rename_i t parent inherited
      obtain ⟨line, rfl, hrest⟩ := hline.exists_rest hsome hfind
      obtain ⟨hown, hnodup⟩ := List.forall_mem_cons.1 hnodup
      rw [SimpleTable.defaultSets_laidOver, Assoc.get?_putAll, ih hrest hnodup,
        ← Assoc.get?_ofPairs, Assoc.ofPairs_of_nodup hown, List.findSome?_cons]
      cases (t.defaultSets.getD []).get? key <;> rfl

/-- The result type is the first one that is not empty. -/
theorem resultType_eq : resolved.resultType.getD "" =
    ((line.map (·.2.resultType.getD "")).find? (!·.isEmpty)).getD "" := by
  induction h generalizing line with
  | own hnone =>
      rename_i t
      obtain rfl := hline.unique (.own hnone)
      change t.resultType.getD "" = _
      by_cases hempty : t.resultType.getD "" = "" <;> simp [hempty]
  | laid hsome hfind hparent ih =>
      rename_i t parent inherited
      obtain ⟨line, rfl, hrest⟩ := hline.exists_rest hsome hfind
      change (SimpleTable.firstText t.resultType inherited.resultType).getD "" = _
      by_cases hempty : t.resultType.getD "" = "" <;>
        simp [SimpleTable.firstText, hempty, ih hrest]

/-- What a table inherits is what the nearest tables give. -/
theorem eq_nearest (hkeys : ∀ p ∈ line, (p.2.identified.entries.map (·.idText)).Nodup)
    (hauthored : ∀ p ∈ line, ∀ e ∈ p.2.entries, e.Authored)
    (hsets : ∀ p ∈ line, (p.2.defaultSets.getD []).keys.Nodup) : Nearest line resolved := by
  have hquiet : ∀ p ∈ line, ∀ e ∈ p.2.entries, e.Quiet :=
    fun p hp e he => (hauthored p hp e he).quiet
  refine ⟨?_, fun e he => ?_, h.get?_defaultSets hline hsets, h.resultType_eq hline⟩
  · rw [← (h.keys_eq hline hkeys).1, List.map_map]
    refine List.map_congr_left fun e he => ?_
    have hid : e.id = some e.idText := Entry.id_of_idText (h.idText_ne_empty he)
    have hpart : ∀ {α : Type} {part : Entry → α} {gives : Entry → Bool} {default : α},
        Entry.DecidedBy part gives default → part e = nearest line e.idText gives part default :=
      fun hpart => h.part_eq hline hkeys hpart hquiet e he
    simp only [Function.comp_apply, Entry.bare, nearestEntry, Entry.mk.injEq]
    refine ⟨?_, ?_, ?_, hid, ?_, ?_, ?_, ?_, ?_, trivial⟩
    · exact hpart (Entry.decidedBy_field (by decide) (fun _ _ => rfl) fun _ h => h)
    · exact hpart Entry.decidedBy_weight
    · exact hpart Entry.decidedBy_range
    · exact hpart (Entry.decidedBy_field (by decide) (fun _ _ => rfl) fun _ h => h)
    · exact hpart (Entry.decidedBy_field (by decide) (fun _ _ => rfl) fun _ h => h)
    · exact hpart (Entry.decidedBy_field (by decide) (fun _ _ => rfl) fun _ h => h)
    · exact hpart (Entry.decidedBy_field (by decide) (fun _ _ => rfl) fun _ h => h)
    · exact hpart (Entry.decidedBy_field (by decide) (fun _ _ => rfl) fun _ h => h)
  · have hconflict : e.conflict = none := by
      rw [h.part_eq hline hkeys Entry.decidedBy_conflict hquiet e he]
      refine nearest_of_forall (P := (· = none)) rfl fun p hp own hown => ?_
      obtain ⟨declared, hdeclared, rfl⟩ := List.mem_map.1 hown
      have hnone := (hauthored p hp _ (List.fst_mem_of_mem_zipIdx hdeclared)).consistent
      dsimp only
      split <;> exact hnone
    refine ⟨?_, Entry.forward_of_conflict hconflict⟩
    unfold Entry.conflict at hconflict
    split at hconflict
    · cases hconflict
    · exact .inl ‹_›
    · exact .inr ‹_›

end Inherits

/-- A table whose lineage is not too long for any collection on it is resolved, and if no table of
the lineage has a key twice, the nearest tables decide what it becomes. -/
theorem inherit_nearest (hr : r.Distinct) (hauthored : ∀ c ∈ r.collections, c.document.Authored)
    (ht : r.Holds collectionId t) (hline : r.Descends collectionId t line)
    (hlimit : ∀ p ∈ line.dropLast.zipIdx, p.2 < r.extensionLimit config p.1.1)
    (hkeys : ∀ p ∈ line, (p.2.identified.entries.map (·.idText)).Nodup)
    {s : Resolving} (hs : r.Remembers s.tables) :
    ∃ resolved, (r.inherit config t collectionId s).1 = .ok resolved ∧ Nearest line resolved := by
  obtain ⟨resolved, hresolved⟩ := exists_inherit hline hlimit s
  have hdeclared : ∀ p ∈ line, ∃ c ∈ r.collections, .simple p.2 ∈ c.document.tables := by
    intro p hp
    obtain ⟨c, hc, -, htable⟩ := exists_of_holds (hline.holds ht p hp)
    exact ⟨c, hc, htable⟩
  have hinherits := inherits_of_inherit hr ht hs hresolved
  refine ⟨resolved, hresolved, hinherits.eq_nearest hline hkeys (fun p hp => ?_) fun p hp => ?_⟩
  · obtain ⟨c, hc, htable⟩ := hdeclared p hp
    exact (hauthored c hc).entries p.2 htable
  · obtain ⟨c, hc, htable⟩ := hdeclared p hp
    cases hsets : p.2.defaultSets with
    | none => exact List.nodup_nil
    | some block => exact (hauthored c hc).keys block (.table htable (.inl (.inr hsets)))

/-- In a chain of three tables, as many as are allowed, one table gives an entry a range instead of
its weight, and another one takes the value of an entry away. -/
theorem inherit_nearest_of_three_tables :
    let origin : SimpleTable := {
      id := "p", resultType := some "text", defaultSets := some [("x", "1"), ("y", "2")], entries := [
        { id := some "a", value := some "low", weight := some 2, given := [.id, .value, .weight] },
        { id := some "b", value := some "high", tags := ["t"], given := [.id, .value, .tags] }] }
    let middle : SimpleTable := { id := "m", parent := some "p", resultType := some "", entries := [
      { id := some "c", value := some "new", given := [.id, .value] },
      { id := some "a", range := some ⟨1, 2⟩, given := [.id, .range] }] }
    let heir : SimpleTable := {
      id := "t", parent := some "m", defaultSets := some [("y", "3")], entries := [
        { id := some "b", given := [.id, .value] }] }
    let document : Document := {
      metadata := { name := "n", namespaceText := "c", maxInheritanceDepth := some 2 }
      tables := [.simple origin, .simple middle, .simple heir] }
    let r : Registry := ⟨[{ id := "c", document }]⟩
    let line := [("c", heir), ("c", middle), ("c", origin)]
    (document.Authored ∧ r.Holds "c" heir ∧ r.Descends "c" heir line ∧
      (∀ p ∈ line.dropLast.zipIdx, p.2 < r.extensionLimit {} p.1.1) ∧
      ∀ p ∈ line, (p.2.identified.entries.map (·.idText)).Nodup) ∧
    (∃ resolved, (r.inherit {} heir "c" ⟨[], []⟩).1 = .ok resolved ∧ Nearest line resolved) ∧
    keysAlong line = ["a", "b", "c"] ∧
    ["a", "b", "c"].map (fun key => ((nearestEntry line key).value, (nearestEntry line key).range)) =
      [(some "low", some ⟨1, 2⟩), (none, none), (some "new", none)] := by
  intro origin middle heir document r line
  have hentries : ∀ e ∈ origin.entries ++ middle.entries ++ heir.entries, e.Authored := by
    simp only [origin, middle, heir, List.cons_append, List.nil_append, List.forall_mem_cons]
    refine ⟨?_, ?_, ?_, ?_, ?_, fun _ he => absurd he List.not_mem_nil⟩ <;>
      refine ⟨rfl, fun f hsilent => ?_, List.nodup_nil, List.nodup_nil⟩ <;>
      cases f <;> first | rfl | exact absurd hsilent (by decide)
  have hauthored : document.Authored := by
    have hblocks : ∀ block ∈ document.blocks, block.keys.Nodup := by decide +kernel
    refine ⟨fun t ht e he => hentries e ?_, fun block hblock => hblocks _ (Document.mem_blocks hblock)⟩
    simp only [document, List.mem_cons, Table.simple.injEq, List.not_mem_nil, or_false] at ht
    rcases ht with rfl | rfl | rfl <;> simp [he]
  have hr : r.Distinct := List.nodup_singleton _
  have ht : r.Holds "c" heir := ⟨_, .head _, rfl, by cbv⟩
  have hline : r.Descends "c" heir line := by
    have hmiddle : r.find "m" "c" = .ok (some ⟨.table (.simple middle), "c"⟩) := by cbv
    have horigin : r.find "p" "c" = .ok (some ⟨.table (.simple origin), "c"⟩) := by cbv
    exact .laid rfl hmiddle (.laid rfl horigin (.own rfl))
  have hlimit : ∀ p ∈ line.dropLast.zipIdx, p.2 < r.extensionLimit {} p.1.1 := by
    refine List.forall_mem_cons.2 ⟨?_, List.forall_mem_singleton.2 ?_⟩ <;> decide +kernel
  have hkeys : ∀ p ∈ line, (p.2.identified.entries.map (·.idText)).Nodup := by
    simp only [line, List.forall_mem_cons]
    decide +kernel
  refine ⟨⟨hauthored, ht, hline, hlimit, hkeys⟩, ?_, by decide +kernel, by decide +kernel⟩
  exact inherit_nearest hr (List.forall_mem_singleton.2 hauthored) ht hline hlimit hkeys remembers_nil

end Registry

end RandomTables
