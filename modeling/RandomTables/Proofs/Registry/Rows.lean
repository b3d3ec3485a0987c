-- SUMMARY: Chains of tables as rows of entries that are merged one after another.
import Mathlib.Data.List.Induction
import RandomTables.Proofs.Registry.Homes

/-!
# Rows of entries

A table is laid over the one that it extends entry by entry, and so on along its lineage. Where no
table has a key twice this is a single merge: the entries of all tables, from the oldest one on, are
put one after another into one association, each over what is there under its key.
-/
namespace RandomTables

/-! ## Merging -/

namespace Assoc

variable {α : Type} {combine : α → α → α}

/-- Puts a value over what is there under its key. -/
def merge (combine : α → α → α) (a : Assoc α) (p : String × α) : Assoc α :=
  a.put p.1 ((a.get? p.1).elim p.2 (combine · p.2))

/-- Puts some values over what is there, one after another. -/
def mergeAll (combine : α → α → α) (a b : Assoc α) : Assoc α := b.foldl (merge combine) a

/-- Merges rows, the first of which is the latest. Alone, the last row stays as it is. -/
def mergeRows (combine : α → α → α) : List (Assoc α) → Assoc α
  | [] => []
  | [row] => row
  | row :: older :: rest => mergeAll combine (ofPairs (mergeRows combine (older :: rest))) row

theorem mergeAll_append (a b c : Assoc α) :
    mergeAll combine a (b ++ c) = mergeAll combine (mergeAll combine a b) c := List.foldl_append

theorem merge_of_not_mem {a : Assoc α} {p : String × α} (h : p.1 ∉ a.keys) :
    merge combine a p = a ++ [p] := by
  simp [merge, get?_eq_none_of_not_mem h, put_of_not_mem h]

theorem keys_merge (a : Assoc α) (p : String × α) :
    (merge combine a p).keys = if p.1 ∈ a.keys then a.keys else a.keys ++ [p.1] := by
  split
  · exact keys_put_of_mem ‹_› _
  · rw [merge_of_not_mem ‹_›, keys_append]
    rfl

theorem mergeAll_of_nodup {a b : Assoc α} (h : (keys (a ++ b)).Nodup) :
    mergeAll combine a b = a ++ b := by
  induction b generalizing a with
  | nil => exact (List.append_nil a).symm
  | cons p rest ih =>
      have hnew : p.1 ∉ a.keys := by
        rw [keys_append, keys_cons] at h
        exact fun hmem => (List.nodup_append'.1 h).2.2 hmem List.mem_cons_self
      rw [mergeAll, List.foldl_cons, merge_of_not_mem hnew, ← mergeAll, ih, List.append_assoc]
      · rfl
      · rwa [List.append_assoc]

/-- Keys stand in the order in which they first come. -/
theorem keys_mergeAll (b : Assoc α) : (mergeAll combine [] b).keys = (keys b).eraseDups := by
  induction b using List.reverseRecOn with
  | nil => rfl
  | append_singleton b p ih =>
      have hlast : [p.1].removeAll (keys b) = if p.1 ∈ keys b then [] else [p.1] := by
        by_cases hmem : p.1 ∈ keys b <;> simp [List.removeAll, hmem]
      rw [mergeAll_append, keys_append, List.eraseDups_append]
      change (merge combine (mergeAll combine [] b) p).keys =
        _ ++ ([p.1].removeAll (keys b)).eraseDups
      rw [keys_merge, ih, hlast]
      simp only [List.mem_eraseDups]
      split
      · exact (List.append_nil _).symm
      · rfl

theorem nodup_keys_mergeAll {a : Assoc α} (h : a.keys.Nodup) (b : Assoc α) :
    (mergeAll combine a b).keys.Nodup := by
  induction b generalizing a with
  | nil => exact h
  | cons p rest ih => exact ih (nodup_keys_put h p.1 _)

/-- What holds of values under their keys, and of values put over each other, holds of what they are
merged to. -/
theorem forall_mem_mergeAll {P : String → α → Prop}
    (hover : ∀ key before value, P key before → P key value → P key (combine before value))
    {a b : Assoc α} (ha : ∀ p ∈ a, P p.1 p.2) (hb : ∀ p ∈ b, P p.1 p.2) :
    ∀ p ∈ mergeAll combine a b, P p.1 p.2 := by
  induction b generalizing a with
  | nil => exact ha
  | cons q rest ih =>
      obtain ⟨hq, hrest⟩ := List.forall_mem_cons.1 hb
      refine ih (forall_mem_put ha ?_) hrest
      cases hget : a.get? q.1 with
      | none => exact hq
      | some before => exact hover _ _ _ (ha _ (mem_of_lookup hget)) hq

theorem forall_mem_mergeRows {P : String → α → Prop}
    (hover : ∀ key before value, P key before → P key value → P key (combine before value))
    {rows : List (Assoc α)} (h : ∀ row ∈ rows, ∀ p ∈ row, P p.1 p.2) :
    ∀ p ∈ mergeRows combine rows, P p.1 p.2 := by
  fun_induction mergeRows combine rows with
  | case1 => exact fun p hp => absurd hp List.not_mem_nil
  | case2 row => exact h row List.mem_cons_self
  | case3 row older rest ih =>
      obtain ⟨hrow, hrest⟩ := List.forall_mem_cons.1 h
      exact forall_mem_mergeAll hover (forall_mem_putAll (fun _ hp => absurd hp List.not_mem_nil)
        (ih hrest)) hrow

section

variable {β : Type} {f : α → β} {combine' : β → β → β}
  (hf : ∀ before value, f (combine before value) = combine' (f before) (f value))
include hf

theorem mergeAll_map (a b : Assoc α) :
    (mergeAll combine a b).map (Prod.map id f) =
      mergeAll combine' (a.map (Prod.map id f)) (b.map (Prod.map id f)) := by
  induction b generalizing a with
  | nil => rfl
  | cons p rest ih =>
      have hmerge : (merge combine a p).map (Prod.map id f) =
          merge combine' (a.map (Prod.map id f)) (Prod.map id f p) := by
        rw [merge, put_map, merge]
        refine congrArg (put _ p.1) ?_
        rw [Prod.map_fst, id, get?_map]
        cases a.get? p.1 with
        | none => rfl
        | some before => exact hf before p.2
      rw [mergeAll, List.foldl_cons, ← mergeAll, ih, hmerge]
      rfl

theorem mergeRows_map (rows : List (Assoc α)) :
    (mergeRows combine rows).map (Prod.map id f) =
      mergeRows combine' (rows.map (List.map (Prod.map id f))) := by
  fun_induction mergeRows combine rows with
  | case1 => rfl
  | case2 row => rfl
  | case3 row older rest ih =>
      rw [mergeAll_map hf, ← ofPairs_map, ih]
      rfl

end

/-- Rows without repeated keys are merged value by value, from the last row on. -/
theorem mergeRows_eq {rows : List (Assoc α)} (h : ∀ row ∈ rows, row.keys.Nodup) :
    mergeRows combine rows = mergeAll combine [] rows.reverse.flatten := by
  fun_induction mergeRows combine rows with
  | case1 => rfl
  | case2 row => simpa using (mergeAll_of_nodup (a := []) (h row List.mem_cons_self)).symm
  | case3 row older rest ih =>
      obtain ⟨-, hrest⟩ := List.forall_mem_cons.1 h
      have hnodup : (mergeAll combine [] (older :: rest).reverse.flatten).keys.Nodup :=
        nodup_keys_mergeAll (a := []) List.nodup_nil _
      have hflatten : (row :: older :: rest).reverse.flatten =
          (older :: rest).reverse.flatten ++ row := by
        rw [List.reverse_cons, List.flatten_append, List.flatten_singleton]
      rw [ih hrest, ofPairs_of_nodup hnodup, ← mergeAll_append, hflatten]

theorem nodup_keys_mergeRows {rows : List (Assoc α)} (h : 1 < rows.length) :
    (mergeRows combine rows).keys.Nodup := by
  match rows, h with
  | row :: older :: rest, _ => exact nodup_keys_mergeAll (nodup_keys_ofPairs _) row

end Assoc

/-! ## Rows of tables -/

/-- Entries under their ids. -/
def rowOf (entries : List Entry) : Assoc Entry := entries.map fun e => (e.idText, e)

theorem keys_rowOf (entries : List Entry) : (rowOf entries).keys = entries.map (·.idText) := by
  rw [rowOf, Assoc.keys, List.map_map]
  rfl

theorem values_rowOf (entries : List Entry) : (rowOf entries).map (·.2) = entries := by
  rw [rowOf, List.map_map]
  exact List.map_id entries

theorem rowOf_values {row : Assoc Entry} (h : ∀ p ∈ row, p.2.idText = p.1) :
    rowOf (row.map (·.2)) = row := by
  have hsame : ∀ p ∈ row, (p.2.idText, p.2) = id p := fun p hp => Prod.ext (h p hp) rfl
  rw [rowOf, List.map_map]
  exact (List.map_congr_left hsame).trans (List.map_id row)

namespace SimpleTable

/-- The entries of a table under their keys. -/
def row (t : SimpleTable) : Assoc Entry := rowOf t.identified.entries

/-- Laying an entry over others puts it over what is there under its key. -/
theorem layEntry_eq_merge (tableId : String) (entries : Assoc Entry) (own : Entry × Nat) :
    layEntry tableId entries own =
      Assoc.merge Entry.overriddenBy entries
        ((identify tableId own).idText, identify tableId own) := by
  rw [layEntry, Assoc.merge, idText_identify]
  dsimp only
  cases entries.get? (own.1.key tableId own.2) with
  | none => rw [Option.elim_none, identify_eq]
  | some inherited => rw [Option.elim_some, overriddenBy_identify]

/-- A table that is laid over another one has the merged rows of both. -/
theorem rowOf_laidOver (t parent : SimpleTable) :
    rowOf (t.laidOver parent).entries =
      Assoc.mergeAll Entry.overriddenBy (Assoc.ofPairs (rowOf parent.entries)) t.row := by
  have hfold : t.entries.zipIdx.foldl (layEntry t.id) (Assoc.ofPairs (rowOf parent.entries)) =
      Assoc.mergeAll Entry.overriddenBy (Assoc.ofPairs (rowOf parent.entries)) t.row := by
    rw [row, rowOf.eq_def t.identified.entries, entries_identified, List.map_map, Assoc.mergeAll,
      List.foldl_map]
    exact congrArg (fun step => List.foldl step _ _) (funext fun entries => funext fun own =>
      layEntry_eq_merge t.id entries own)
  have hkeyed : ∀ entries : List Entry, ∀ p ∈ rowOf entries, p.2.idText = p.1 :=
    fun entries p hp => by
      obtain ⟨e, -, rfl⟩ := List.mem_map.1 hp
      rfl
  have hover : ∀ key (before value : Entry), before.idText = key → value.idText = key →
      (before.overriddenBy value).idText = key := fun _ _ _ hbefore _ => hbefore
  change rowOf ((t.entries.zipIdx.foldl (layEntry t.id) (Assoc.ofPairs (rowOf parent.entries))).map
    (·.2)) = _
  rw [hfold]
  refine rowOf_values (Assoc.forall_mem_mergeAll hover ?_ (hkeyed _))
  exact forall_mem_putAll (fun _ hp => absurd hp List.not_mem_nil) (hkeyed _)

end SimpleTable

/-! ## Rows along a lineage -/

namespace Registry

variable {r : Registry} {collectionId : String} {t resolved : SimpleTable}

/-- What a table inherits are the merged rows of the tables of its lineage. -/
theorem Inherits.rowOf_eq (h : r.Inherits collectionId t resolved) :
    ∃ line, r.Descends collectionId t line ∧
      rowOf resolved.entries = Assoc.mergeRows Entry.overriddenBy (line.map (·.2.row)) := by
  induction h with
  | own hnone => exact ⟨_, .own hnone, rfl⟩
  | laid hsome hfind hparent ih =>
      rename_i t parent resolved
      obtain ⟨line, hdescends, hrow⟩ := ih
      refine ⟨_, .laid hsome hfind hdescends, ?_⟩
      rw [SimpleTable.rowOf_laidOver, hrow]
      cases hdescends with
      | own _ => rfl
      | laid _ _ _ => rfl

end Registry

end RandomTables
