-- SUMMARY: Which declared entries become one entry of a table that has inherited.
import RandomTables.Proofs.Engine.Reachable
import RandomTables.Proofs.Number.Shortest
import RandomTables.Proofs.Registry.Rows

/-!
# Declared entries

What becomes of an entry that a table of a lineage declares? It is meant to override an inherited
entry if both are given the same id, and to be an entry of its own otherwise. The key that is made
for an entry without an id can stand in the way of that, if it is the key of another entry as well.
So each entry of a table that has inherited is followed back to all entries that it was made of.
-/
namespace RandomTables

/-! ## Entries and what they are made of -/

/-- An entry in its place in a table of a collection. -/
structure Declared where
  collectionId : String
  tableId : String
  index : Nat
  entry : Entry

namespace Declared

/-- The table that declares the entry, by the ids of its collection and its own. -/
def home (d : Declared) : String × String := (d.collectionId, d.tableId)

def key (d : Declared) : String := d.entry.key d.tableId d.index

/-- The entry is given an id. -/
def Named (d : Declared) : Prop := d.entry.idText.isEmpty = false

instance (d : Declared) : Decidable d.Named := inferInstanceAs (Decidable (_ = _))

/-- The entry with the id that its place gives it. -/
def identified (d : Declared) : Entry := SimpleTable.identify d.tableId (d.entry, d.index)

/-- Two tables give their entries the same id. -/
structure Overrides (own inherited : Declared) : Prop where
  named : inherited.Named
  id : own.entry.id = inherited.entry.id
  home : own.home ≠ inherited.home

end Declared

/-- An entry with the declared entries that it is made of, the oldest one first. -/
structure Blend where
  entry : Entry
  sources : List Declared

namespace Blend

def of (d : Declared) : Blend := ⟨d.identified, [d]⟩

def overriddenBy (inherited own : Blend) : Blend :=
  ⟨inherited.entry.overriddenBy own.entry, inherited.sources ++ own.sources⟩

/-- The entry is the first of those that it is made of, overridden by the others in turn. -/
def Made (b : Blend) : Prop :=
  ∃ first rest, b.sources = first :: rest ∧
    b.entry = rest.foldl (fun e d => e.overriddenBy d.identified) first.identified

end Blend

/-- The entries that a table of a collection declares. -/
def SimpleTable.declared (collectionId : String) (t : SimpleTable) : List Declared :=
  t.entries.zipIdx.map fun (entry, index) => ⟨collectionId, t.id, index, entry⟩

/-- Declared entries under their keys. -/
def blendsOf (declared : List Declared) : Assoc Blend := declared.map fun d => (d.key, .of d)

/-- The entries that the tables of a line declare, those of the last table first. -/
def declaredAlong (line : List (String × SimpleTable)) : List Declared :=
  line.reverse.flatMap fun p => p.2.declared p.1

/-- The entries of the first table of a line that has inherited from the others. -/
def blendAlong (line : List (String × SimpleTable)) : List Blend :=
  (Assoc.mergeRows Blend.overriddenBy (line.map fun p => blendsOf (p.2.declared p.1))).map (·.2)

/-- No entry of a line is lost, and none is merged with another one unless it overrides it. What is
not inherited stands after what is. -/
structure KeptApart (line : List (String × SimpleTable)) (blends : List Blend) : Prop where
  ids : (blends.map (·.entry.idText)).Nodup
  complete : (blends.flatMap (·.sources)).Perm (declaredAlong line)
  made : ∀ b ∈ blends, b.Made
  alone : ∀ b ∈ blends, ∀ d ∈ b.sources, ¬ d.Named → b.sources = [d]
  overriding : ∀ b ∈ blends, b.sources.Pairwise fun inherited own => own.Overrides inherited
  older : ∀ b ∈ blends, b.sources.Sublist (declaredAlong line)
  placed : (blends.map (·.sources.head?)).Sublist ((declaredAlong line).map some)

/-- The key that is made for an entry without an id is given to another entry as its id, or made for
an entry of another table as well. -/
def Clashes (line : List (String × SimpleTable)) : Prop :=
  ∃ d ∈ declaredAlong line, ¬ d.Named ∧
    ∃ other ∈ declaredAlong line, other.key = d.key ∧ (other.Named ∨ other.home ≠ d.home)

instance (line : List (String × SimpleTable)) : Decidable (Clashes line) :=
  inferInstanceAs (Decidable (∃ d ∈ declaredAlong line, ¬ d.Named ∧
    ∃ other ∈ declaredAlong line, other.key = d.key ∧ (other.Named ∨ other.home ≠ d.home)))

/-! ## Keys -/

/-- Keys that a table makes for entries without ids tell their places. -/
theorem Entry.index_eq_of_key {tableId : String} {e e' : Entry} {index index' : Nat}
    (he : e.idText.isEmpty = true) (he' : e'.idText.isEmpty = true)
    (h : e.key tableId index = e'.key tableId index') : index = index' := by
  have hvalue : ∀ n : Nat, Text.numeral (Text.padLeft 3 '0' (toString n).toList) = n := by
    intro n
    have hdigits : Text.numeral (toString n).toList = n :=
      (congrArg Text.numeral Nat.toList_repr).trans (Number.numeral_toDigits n)
    rw [Text.padLeft, Number.numeral_append, Number.numeral_zeros, hdigits]
    simp
  rw [key, key, if_pos he, if_pos he'] at h
  have hchars := congrArg String.toList h
  simp only [String.toList_append, String.toList_ofList, List.append_cancel_left_eq] at hchars
  rw [← hvalue index, hchars, hvalue]

namespace Declared

theorem idText_identified (d : Declared) : d.identified.idText = d.key :=
  SimpleTable.idText_identify d.tableId (d.entry, d.index)

theorem Named.key_eq {d : Declared} (h : d.Named) : d.key = d.entry.idText :=
  if_neg (ne_true_of_eq_false h)

theorem Named.id_eq {d : Declared} (h : d.Named) : d.entry.id = some d.entry.idText :=
  Entry.id_of_idText fun hempty => by simp [Named, hempty] at h

theorem Overrides.named_own {own inherited : Declared} (h : own.Overrides inherited) :
    own.Named := by
  rw [Named, Entry.idText, h.id]
  exact h.named

/-- An entry without an id overrides none and is not overridden. -/
theorem eq_singleton_of_overriding {sources : List Declared}
    (h : sources.Pairwise fun inherited own => own.Overrides inherited) {d : Declared}
    (hd : d ∈ sources) (hunnamed : ¬ d.Named) : sources = [d] := by
  cases sources with
  | nil => cases hd
  | cons first rest =>
      obtain ⟨hfirst, -⟩ := List.pairwise_cons.1 h
      rcases List.mem_cons.1 hd with rfl | hd
      · cases rest with
        | nil => rfl
        | cons second _ => exact absurd (hfirst second List.mem_cons_self).named hunnamed
      · exact absurd (hfirst d hd).named_own hunnamed

end Declared

/-! ## Merging step by step -/

/-- Some declared entries are merged to entries under their keys. -/
structure Blended (declared : List Declared) (blends : Assoc Blend) : Prop where
  nodup : blends.keys.Nodup
  keyed : ∀ p ∈ blends, p.2.entry.idText = p.1 ∧ ∀ d ∈ p.2.sources, d.key = p.1
  made : ∀ p ∈ blends, p.2.Made
  older : ∀ p ∈ blends, p.2.sources.Sublist declared
  complete : (blends.flatMap (·.2.sources)).Perm declared
  placed : (blends.map (·.2.sources.head?)).Sublist (declared.map some)

theorem blended_nil : Blended [] [] where
  nodup := List.nodup_nil
  keyed := fun _ hp => absurd hp List.not_mem_nil
  made := fun _ hp => absurd hp List.not_mem_nil
  older := fun _ hp => absurd hp List.not_mem_nil
  complete := .refl _
  placed := .slnil

/-- One more entry is merged with what is there under its key, or added at the end. -/
theorem Blended.merge {declared : List Declared} {blends : Assoc Blend}
    (h : Blended declared blends) (d : Declared) :
    Blended (declared ++ [d]) (Assoc.merge Blend.overriddenBy blends (d.key, .of d)) := by
  have hlater : ∀ p ∈ blends, p.2.sources.Sublist (declared ++ [d]) :=
    fun p hp => (h.older p hp).trans (List.sublist_append_left _ _)
  cases hget : blends.get? d.key with
  | none =>
      have hnew : d.key ∉ blends.keys := fun hmem => by
        simpa [hget] using Assoc.isSome_get?_iff.2 hmem
      have hnodup := Assoc.nodup_keys_put h.nodup d.key (Blend.of d)
      rw [Assoc.put_of_not_mem hnew] at hnodup
      rw [Assoc.merge_of_not_mem hnew]
      refine ⟨hnodup, ?_, ?_, ?_, ?_, ?_⟩
      · refine List.forall_mem_append.2 ⟨h.keyed, List.forall_mem_singleton.2 ?_⟩
        exact ⟨d.idText_identified, List.forall_mem_singleton.2 rfl⟩
      · exact List.forall_mem_append.2 ⟨h.made, List.forall_mem_singleton.2 ⟨d, [], rfl, rfl⟩⟩
      · refine List.forall_mem_append.2 ⟨hlater, List.forall_mem_singleton.2 ?_⟩
        exact List.sublist_append_right _ _
      · rw [List.flatMap_append]
        exact h.complete.append_right _
      · rw [List.map_append, List.map_append]
        exact h.placed.append (.refl _)
  | some before =>
      have hmem := mem_of_lookup hget
      have hmerge : Assoc.merge Blend.overriddenBy blends (d.key, .of d) =
          blends.put d.key (before.overriddenBy (.of d)) := by
        rw [Assoc.merge, hget, Option.elim_some]
      obtain ⟨hid, hkeys⟩ := h.keyed _ hmem
      obtain ⟨first, rest, hsources, hentry⟩ := h.made _ hmem
      have hhead : (before.overriddenBy (.of d)).sources.head? = before.sources.head? := by
        rw [Blend.overriddenBy, hsources]
        rfl
      have hplaced := Assoc.map_put_of_same (f := fun b : Blend => b.sources.head?) hget hhead
      rw [hmerge]
      refine ⟨Assoc.nodup_keys_put h.nodup _ _, ?_, ?_, ?_, ?_, ?_⟩
      · refine forall_mem_put h.keyed ⟨hid, List.forall_mem_append.2 ⟨hkeys, ?_⟩⟩
        exact List.forall_mem_singleton.2 rfl
      · refine forall_mem_put h.made ⟨first, rest ++ [d], ?_, ?_⟩
        · exact congrArg (· ++ [d]) hsources
        · rw [List.foldl_append, ← hentry]
          rfl
      · exact forall_mem_put hlater ((h.older _ hmem).append (.refl _))
      · exact (Assoc.flatMap_put_of_append hget rfl).trans (h.complete.append_right _)
      · rw [hplaced, List.map_append]
        exact h.placed.trans (List.sublist_append_left _ _)

theorem Blended.mergeAll {declared : List Declared} {blends : Assoc Blend}
    (h : Blended declared blends) (more : List Declared) :
    Blended (declared ++ more) (Assoc.mergeAll Blend.overriddenBy blends (blendsOf more)) := by
  induction more generalizing declared blends with
  | nil => rwa [List.append_nil]
  | cons d rest ih =>
      rw [List.append_cons]
      exact ih (h.merge d)

/-! ## Entries along a lineage -/

section

variable {line : List (String × SimpleTable)}

theorem keys_blendsOf (declared : List Declared) :
    (blendsOf declared).keys = declared.map Declared.key := by
  rw [blendsOf, Assoc.keys, List.map_map]
  rfl

theorem blendsOf_append (declared more : List Declared) :
    blendsOf (declared ++ more) = blendsOf declared ++ blendsOf more := List.map_append

theorem mem_declaredAlong {d : Declared} :
    d ∈ declaredAlong line ↔ ∃ p ∈ line, d ∈ p.2.declared p.1 := by
  simp [declaredAlong]

theorem home_of_mem_declared {collectionId : String} {t : SimpleTable} {d : Declared}
    (h : d ∈ t.declared collectionId) : d.home = (collectionId, t.id) := by
  obtain ⟨own, -, rfl⟩ := List.mem_map.1 h
  rfl

/-- Where no table of a line has a key twice, the entries of all tables are merged one by one. -/
theorem blended_blendAlong (h : ∀ p ∈ line, ((p.2.declared p.1).map Declared.key).Nodup) :
    ∃ blends, Blended (declaredAlong line) blends ∧ blendAlong line = blends.map (·.2) := by
  have hrows : ∀ row ∈ line.map fun p => blendsOf (p.2.declared p.1), row.keys.Nodup := by
    intro row hrow
    obtain ⟨p, hp, rfl⟩ := List.mem_map.1 hrow
    rw [keys_blendsOf]
    exact h p hp
  have hflatten : (line.map fun p => blendsOf (p.2.declared p.1)).reverse.flatten =
      blendsOf (declaredAlong line) := by
    rw [← List.map_reverse, declaredAlong]
    induction line.reverse with
    | nil => rfl
    | cons p rest ih =>
        rw [List.map_cons, List.flatten_cons, ih, List.flatMap_cons, blendsOf_append]
  refine ⟨_, blended_nil.mergeAll (declaredAlong line), ?_⟩
  rw [blendAlong, Assoc.mergeRows_eq hrows, hflatten]

/-- Every entry has the key of all that it is made of as its id. -/
theorem key_of_mem_blendAlong {b : Blend} (hb : b ∈ blendAlong line) :
    ∀ d ∈ b.sources, d.key = b.entry.idText := by
  have hover : ∀ key (before value : Blend),
      (before.entry.idText = key ∧ ∀ d ∈ before.sources, d.key = key) →
      (value.entry.idText = key ∧ ∀ d ∈ value.sources, d.key = key) →
      (before.overriddenBy value).entry.idText = key ∧
        ∀ d ∈ (before.overriddenBy value).sources, d.key = key :=
    fun _ _ _ hbefore hvalue =>
      ⟨hbefore.1, List.forall_mem_append.2 ⟨hbefore.2, hvalue.2⟩⟩
  obtain ⟨p, hp, rfl⟩ := List.mem_map.1 hb
  obtain ⟨hid, hkeys⟩ := Assoc.forall_mem_mergeRows hover (fun row hrow q hq => by
    obtain ⟨place, -, rfl⟩ := List.mem_map.1 hrow
    obtain ⟨d, -, rfl⟩ := List.mem_map.1 hq
    exact ⟨d.idText_identified, List.forall_mem_singleton.2 rfl⟩) p hp
  exact fun d hd => (hkeys d hd).trans hid.symm

/-- Where the key of an entry without an id clashes with another one, one of both is lost, or they
are merged. -/
theorem KeptApart.not_clashes (h : KeptApart line (blendAlong line)) : ¬ Clashes line := by
  rintro ⟨d, hd, hunnamed, other, hother, hkey, hdiffers⟩
  obtain ⟨b, hb, hsource⟩ := List.mem_flatMap.1 (h.complete.mem_iff.2 hd)
  obtain ⟨b', hb', hsource'⟩ := List.mem_flatMap.1 (h.complete.mem_iff.2 hother)
  have hsame : b'.entry.idText = b.entry.idText := by
    rw [← key_of_mem_blendAlong hb d hsource, ← key_of_mem_blendAlong hb' other hsource', hkey]
  obtain rfl := List.inj_on_of_nodup_map h.ids hb' hb hsame
  rw [h.alone _ hb d hsource hunnamed, List.mem_singleton] at hsource'
  subst hsource'
  rcases hdiffers with hnamed | hhome
  · exact hunnamed hnamed
  · exact hhome rfl

end

namespace Registry

variable {r : Registry} {collectionId : String} {t resolved : SimpleTable}
  {line : List (String × SimpleTable)}

/-- The entries of a table that has inherited are made of what the tables of its lineage declare. -/
theorem Inherits.blendAlong_eq (h : r.Inherits collectionId t resolved) :
    ∃ line, r.Descends collectionId t line ∧
      (blendAlong line).map (·.entry) = resolved.entries ∧
      (1 < line.length → (resolved.entries.map (·.idText)).Nodup) := by
  obtain ⟨line, hline, hrow⟩ := h.rowOf_eq
  let rows := line.map fun p => blendsOf (p.2.declared p.1)
  have hrows : rows.map (List.map (Prod.map id Blend.entry)) = line.map (·.2.row) := by
    rw [List.map_map]
    refine List.map_congr_left fun p _ => ?_
    simp only [Function.comp_apply, blendsOf, SimpleTable.declared, SimpleTable.row, rowOf,
      SimpleTable.entries_identified, List.map_map]
    exact List.map_congr_left fun own _ =>
      Prod.ext (SimpleTable.idText_identify p.2.id own).symm rfl
  refine ⟨line, hline, ?_, fun hlength => ?_⟩
  · have hmap : (Assoc.mergeRows Blend.overriddenBy rows).map (Prod.map id Blend.entry) =
        rowOf resolved.entries := by
      rw [hrow, ← hrows]
      exact Assoc.mergeRows_map (fun _ _ => rfl) rows
    rw [blendAlong, List.map_map, ← values_rowOf resolved.entries, ← hmap, List.map_map]
    rfl
  · rw [← keys_rowOf, hrow]
    exact Assoc.nodup_keys_mergeRows (by rwa [List.length_map])

section

variable (hr : r.Orderly) (ht : r.Holds collectionId t) (h : r.Descends collectionId t line)
  (hclash : ¬ Clashes line)
include hr ht h hclash

/-- Without a clash no table has a key twice. -/
theorem Descends.nodup_keys : ∀ p ∈ line, ((p.2.declared p.1).map Declared.key).Nodup := by
  intro p hp
  obtain ⟨c, hc, -, htable⟩ := h.holds ht p hp
  have hids := Document.nodup_entryIds (hr.sound c hc) (List.mem_of_find?_eq_some htable)
  rw [List.Nodup, List.pairwise_filterMap, List.pairwise_iff_getElem] at hids
  rw [List.Nodup, List.pairwise_map, SimpleTable.declared, List.pairwise_map,
    List.pairwise_iff_getElem]
  intro i j hi hj hlt hkey
  rw [List.length_zipIdx] at hi hj
  simp only [List.getElem_zipIdx, Nat.zero_add] at hkey
  let place (k : Nat) (hk : k < p.2.entries.length) : Declared := ⟨p.1, p.2.id, k, p.2.entries[k]⟩
  have hplace : ∀ k hk, place k hk ∈ declaredAlong line := fun k hk =>
    mem_declaredAlong.2 ⟨p, hp, List.mem_map.2 ⟨(p.2.entries[k], k),
      List.mem_zipIdx_iff_getElem?.2 (List.getElem?_eq_getElem hk), rfl⟩⟩
  have hsame : (place i hi).key = (place j hj).key := hkey
  by_cases hi' : (place i hi).Named <;> by_cases hj' : (place j hj).Named
  · refine hids i j hi hj hlt _ ?_ _ ?_ (hi'.key_eq.symm.trans (hsame.trans hj'.key_eq))
    · exact (if_neg (ne_true_of_eq_false hi')).trans hi'.id_eq
    · exact (if_neg (ne_true_of_eq_false hj')).trans hj'.id_eq
  · exact hclash ⟨_, hplace j hj, hj', _, hplace i hi, hsame, .inl hi'⟩
  · exact hclash ⟨_, hplace i hi, hi', _, hplace j hj, hsame.symm, .inl hj'⟩
  · have hindex : i = j :=
      Entry.index_eq_of_key (eq_true_of_ne_false hi') (eq_true_of_ne_false hj') hsame
    omega

/-- Without a clash entries have the same key only if they override each other. -/
theorem Descends.overrides :
    (declaredAlong line).Pairwise fun inherited own =>
      own.key = inherited.key → own.Overrides inherited := by
  have hhomes := h.nodup_homes hr.distinct ht
  rw [List.Nodup, List.pairwise_map, ← List.pairwise_reverse] at hhomes
  refine List.pairwise_flatMap.2 ⟨fun p hp => ?_, hhomes.imp_of_mem ?_⟩
  · have hkeys := h.nodup_keys hr ht hclash p (List.mem_reverse.1 hp)
    exact (List.pairwise_map.1 hkeys).imp fun hne hkey => absurd hkey.symm hne
  · intro p q hp hq hne inherited hinherited own hown hkey
    have hinherited' := mem_declaredAlong.2 ⟨p, List.mem_reverse.1 hp, hinherited⟩
    have hown' := mem_declaredAlong.2 ⟨q, List.mem_reverse.1 hq, hown⟩
    have hhome : own.home ≠ inherited.home := by
      rw [home_of_mem_declared hown, home_of_mem_declared hinherited]
      exact hne
    have hnamed : inherited.Named := by
      by_contra hunnamed
      exact hclash ⟨inherited, hinherited', hunnamed, own, hown', hkey, .inr hhome⟩
    have hownNamed : own.Named := by
      by_contra hunnamed
      exact hclash ⟨own, hown', hunnamed, inherited, hinherited', hkey.symm, .inr hhome.symm⟩
    refine ⟨hnamed, ?_, hhome⟩
    rw [hnamed.id_eq, hownNamed.id_eq, ← hnamed.key_eq, ← hownNamed.key_eq, hkey]

/-- Without a clash nothing is lost or merged that is not meant to be. -/
theorem Descends.keptApart : KeptApart line (blendAlong line) := by
  obtain ⟨blends, hblended, heq⟩ := blended_blendAlong (h.nodup_keys hr ht hclash)
  have hoverrides := h.overrides hr ht hclash
  rw [heq]
  have hpairwise : ∀ p ∈ blends, p.2.sources.Pairwise fun inherited own =>
      own.Overrides inherited := by
    intro p hp
    refine (hoverrides.sublist (hblended.older p hp)).imp_of_mem fun hinherited hown hover => ?_
    have hkeys := (hblended.keyed p hp).2
    exact hover ((hkeys _ hown).trans (hkeys _ hinherited).symm)
  refine ⟨?_, ?_, List.forall_mem_map.2 hblended.made, ?_, ?_, ?_, ?_⟩
  · have hids : (blends.map (·.2)).map (·.entry.idText) = blends.keys := by
      rw [List.map_map]
      exact List.map_congr_left fun p hp => (hblended.keyed p hp).1
    exact hids ▸ hblended.nodup
  · rw [List.flatMap_map]
    exact hblended.complete
  · refine List.forall_mem_map.2 fun p hp d hd hunnamed => ?_
    exact Declared.eq_singleton_of_overriding (hpairwise p hp) hd hunnamed
  · exact List.forall_mem_map.2 hpairwise
  · exact List.forall_mem_map.2 hblended.older
  · rw [List.map_map]
    exact hblended.placed

end

/-- Inheriting gives an entry to every entry that a table of the lineage declares, and the same one
only to those that override each other, exactly if no key that is made for an entry clashes with
another one. A table that extends another one has no id twice in any case. -/
theorem keptApart_of_inherit (hr : r.Orderly) {config : Config} (ht : r.Holds collectionId t)
    {s : Resolving} (hs : r.Remembers s.tables)
    (h : (r.inherit config t collectionId s).1 = .ok resolved) :
    ∃ line, r.Descends collectionId t line ∧
      (blendAlong line).map (·.entry) = resolved.entries ∧
      (1 < line.length → (resolved.entries.map (·.idText)).Nodup) ∧
      (KeptApart line (blendAlong line) ↔ ¬ Clashes line) := by
  have hinherits := inherits_of_inherit hr.distinct ht hs h
  obtain ⟨line, hline, hentries, hids⟩ := hinherits.blendAlong_eq
  refine ⟨line, hline, hentries, hids, fun hkept => hkept.not_clashes, fun hclash => ?_⟩
  exact hline.keptApart hr ht hclash

/-- A table overrides an entry and adds another one to an entry that is given no id either. -/
theorem keptApart_of_two_tables :
    let origin : SimpleTable := { id := "p", entries := [
      { id := some "a", value := some "low", given := [.id, .value] },
      { value := some "high", given := [.value] }] }
    let heir : SimpleTable := { id := "t", parent := some "p", entries := [
      { value := some "more", given := [.value] },
      { id := some "a", value := some "lower", given := [.id, .value] }] }
    let document : Document := {
      metadata := { name := "n", namespaceText := "c" }, tables := [.simple origin, .simple heir] }
    let r : Registry := ⟨[{ id := "c", document }]⟩
    let line := [("c", heir), ("c", origin)]
    (r.Orderly ∧ r.Holds "c" heir ∧ r.Descends "c" heir line ∧ ¬ Clashes line) ∧
    ∃ resolved, (r.inherit {} heir "c" ⟨[], []⟩).1 = .ok resolved ∧
      resolved.entries.map (fun e => (e.idText, e.value)) =
        [("a", some "lower"), ("p001", some "high"), ("t000", some "more")] ∧
      KeptApart line (blendAlong line) ∧ (blendAlong line).map (·.entry) = resolved.entries := by
  intro origin heir document r line
  have hr : r.Orderly := by
    refine ⟨List.nodup_singleton _, List.forall_mem_singleton.2 (List.isEmpty_iff.1 ?_)⟩
    cbv
  have ht : r.Holds "c" heir := ⟨_, .head _, rfl, by cbv⟩
  have hfind : r.find "p" "c" = .ok (some ⟨.table (.simple origin), "c"⟩) := by cbv
  have hline : r.Descends "c" heir line := .laid rfl hfind (.own rfl)
  have hclash : ¬ Clashes line := by decide +kernel
  have hresult : ((r.inherit {} heir "c" ⟨[], []⟩).1.map fun t : SimpleTable =>
      t.entries.map fun e => (e.idText, e.value)) =
        .ok [("a", some "lower"), ("p001", some "high"), ("t000", some "more")] := by
    decide +kernel
  obtain ⟨resolved, hinherit, hvalues⟩ := Except.map_eq_ok hresult
  refine ⟨⟨hr, ht, hline, hclash⟩, resolved, hinherit, hvalues.symm, ?_⟩
  obtain ⟨line', hline', hentries, -, hkept⟩ := keptApart_of_inherit hr ht remembers_nil hinherit
  obtain rfl := hline'.unique hline
  exact ⟨hkept.2 hclash, hentries⟩

/-- The id of an entry can be the key that is made for another one. If that is inherited it is
overridden and lost, and otherwise there are two entries of one id. -/
theorem entries_clash_of_made_key :
    let made : Entry := { value := some "made", given := [.value] }
    let named (id : String) : Entry := { id := some id, value := some id, given := [.id, .value] }
    let origin : SimpleTable := { id := "p", entries := [made] }
    let heir : SimpleTable := { id := "t", parent := some "p", entries := [named "p000"] }
    let alone : SimpleTable := { id := "u", entries := [made, named "u000"] }
    let document : Document := {
      metadata := { name := "n", namespaceText := "c" }
      tables := [.simple origin, .simple heir, .simple alone] }
    let r : Registry := ⟨[{ id := "c", document }]⟩
    let entries (t : SimpleTable) := (r.inherit {} t "c" ⟨[], []⟩).1.map fun resolved =>
      resolved.entries.map fun e => (e.idText, e.value)
    document.errors = [] ∧ r.Distinct ∧
    entries heir = .ok [("p000", some "p000")] ∧
    entries alone = .ok [("u000", some "made"), ("u000", some "u000")] := by
  intro made named origin heir alone document r entries
  refine ⟨List.isEmpty_iff.1 (by cbv), List.nodup_singleton _, by decide +kernel, by decide +kernel⟩

end Registry

end RandomTables
