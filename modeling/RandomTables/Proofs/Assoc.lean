-- SUMMARY: The keys of associations stay distinct, and what is found in associations put together.
import Mathlib.Data.List.Nodup
import RandomTables.Assoc

/-!
# Associations

Putting a value under a key keeps the keys distinct. Where one association was put into another one,
the latest value of the second counts, and then what the first one has.
-/
namespace RandomTables

namespace Assoc

variable {α : Type}

theorem keys_cons (p : String × α) (a : Assoc α) : keys (p :: a) = p.1 :: keys a := rfl

theorem keys_append (a b : Assoc α) : keys (a ++ b) = keys a ++ keys b := List.map_append

theorem put_of_not_mem {a : Assoc α} {key : String} (h : key ∉ a.keys) (value : α) :
    a.put key value = a ++ [(key, value)] := by
  induction a with
  | nil => rfl
  | cons p rest ih =>
      obtain ⟨hne, hrest⟩ := not_or.1 (List.mem_cons.not.1 h)
      rw [put, if_neg (Ne.symm hne), ih hrest]
      rfl

theorem keys_put_of_mem {a : Assoc α} {key : String} (h : key ∈ a.keys) (value : α) :
    (a.put key value).keys = a.keys := by
  induction a with
  | nil => cases h
  | cons p rest ih =>
      rw [put]
      split
      · rfl
      · rename_i hne
        have hrest : key ∈ keys rest := (List.mem_cons.1 h).resolve_left (Ne.symm hne)
        rw [keys_cons, keys_cons, ih hrest]

theorem nodup_keys_put {a : Assoc α} (h : a.keys.Nodup) (key : String) (value : α) :
    (a.put key value).keys.Nodup := by
  by_cases hkey : key ∈ a.keys
  · rw [keys_put_of_mem hkey]
    exact h
  · rw [put_of_not_mem hkey, keys_append]
    refine List.Nodup.append h (List.nodup_singleton key) ?_
    exact List.disjoint_singleton.2 hkey

theorem nodup_keys_putAll {a : Assoc α} (h : a.keys.Nodup) (b : Assoc α) :
    (putAll a b).keys.Nodup := by
  unfold putAll
  induction b generalizing a with
  | nil => exact h
  | cons p rest ih => exact ih (nodup_keys_put h p.1 p.2)

theorem nodup_keys_ofPairs (pairs : List (String × α)) : (ofPairs pairs).keys.Nodup :=
  nodup_keys_putAll (a := []) List.nodup_nil pairs

theorem putAll_of_nodup {a b : Assoc α} (h : (keys (a ++ b)).Nodup) : putAll a b = a ++ b := by
  unfold putAll
  induction b generalizing a with
  | nil => exact (List.append_nil a).symm
  | cons p rest ih =>
      have hsplit : a ++ p :: rest = a ++ [p] ++ rest := List.append_cons a p rest
      have hnew : p.1 ∉ a.keys := by
        rw [keys_append, keys_cons] at h
        exact fun hmem => (List.nodup_append'.1 h).2.2 hmem List.mem_cons_self
      rw [List.foldl_cons]
      dsimp only
      rw [put_of_not_mem hnew, hsplit]
      refine ih ?_
      rw [← hsplit]
      exact h

/-- Pairs with distinct keys are an association as they stand. -/
theorem ofPairs_of_nodup {pairs : List (String × α)} (h : (keys pairs).Nodup) :
    ofPairs pairs = pairs := putAll_of_nodup (a := []) h

theorem get?_eq_some_of_mem {a : Assoc α} (h : a.keys.Nodup) {key : String} {value : α}
    (hmem : (key, value) ∈ a) : a.get? key = some value := by
  induction a with
  | nil => cases hmem
  | cons p rest ih =>
      obtain ⟨hfresh, hrest⟩ := List.nodup_cons.1 h
      rw [get?_cons]
      rcases List.mem_cons.1 hmem with rfl | hmem
      · exact if_pos rfl
      · have hother : key ∈ keys rest := List.mem_map.2 ⟨_, hmem, rfl⟩
        rw [if_neg, ih hrest hmem]
        rintro rfl
        exact hfresh hother

theorem get?_eq_none_of_not_mem {a : Assoc α} {key : String} (h : key ∉ a.keys) :
    a.get? key = none := by
  induction a with
  | nil => rfl
  | cons p rest ih =>
      obtain ⟨hne, hrest⟩ := not_or.1 (List.mem_cons.not.1 h)
      rw [get?_cons, if_neg hne, ih hrest]

theorem get?_append (a b : Assoc α) (key : String) :
    get? (a ++ b) key = (a.get? key).or (b.get? key) := List.lookup_append

/-- Another value with the same part leaves all parts as they are. -/
theorem map_put_of_same {β : Type} {f : α → β} {a : Assoc α} {key : String} {value before : α}
    (hget : a.get? key = some before) (hsame : f value = f before) :
    (a.put key value).map (fun p => f p.2) = a.map fun p => f p.2 := by
  induction a with
  | nil => cases hget
  | cons p rest ih =>
      rw [get?_cons] at hget
      rw [put]
      split
      · rename_i hkey
        rw [if_pos hkey.symm] at hget
        cases hget
        rw [List.map_cons, List.map_cons, hsame]
      · rename_i hkey
        rw [if_neg (Ne.symm hkey)] at hget
        rw [List.map_cons, List.map_cons, ih hget]

/-- A value with more in it adds that to what all values have. -/
theorem flatMap_put_of_append {β : Type} {f : α → List β} {a : Assoc α} {key : String}
    {value before : α} {more : List β} (hget : a.get? key = some before)
    (hvalue : f value = f before ++ more) :
    ((a.put key value).flatMap fun p => f p.2).Perm ((a.flatMap fun p => f p.2) ++ more) := by
  induction a with
  | nil => cases hget
  | cons p rest ih =>
      rw [get?_cons] at hget
      rw [put]
      split
      · rename_i hkey
        rw [if_pos hkey.symm] at hget
        cases hget
        simpa [hvalue] using List.perm_append_comm.append_left (f p.2)
      · rename_i hkey
        rw [if_neg (Ne.symm hkey)] at hget
        simpa using (ih hget).append_left (f p.2)

/-- The second association counts, from its end, and then the first one. -/
theorem get?_putAll (a b : Assoc α) (key : String) :
    (putAll a b).get? key = (get? b.reverse key).or (a.get? key) := by
  unfold putAll
  induction b generalizing a with
  | nil => rfl
  | cons p rest ih =>
      rw [List.foldl_cons, ih, List.reverse_cons, get?_append, Option.or_assoc, get?_put, get?_cons]
      split <;> rfl

theorem get?_ofPairs (pairs : List (String × α)) (key : String) :
    (ofPairs pairs).get? key = get? pairs.reverse key := by
  rw [ofPairs, get?_putAll, get?_nil, Option.or_none]

theorem isSome_get?_iff {a : Assoc α} {key : String} : (a.get? key).isSome ↔ key ∈ a.keys := by
  induction a with
  | nil => exact iff_of_false (nomatch ·) List.not_mem_nil
  | cons p rest ih =>
      rw [get?_cons, keys_cons, List.mem_cons]
      split
      · rename_i hkey
        exact iff_of_true rfl (.inl hkey)
      · rename_i hkey
        rw [ih, or_iff_right hkey]

theorem has_eq_reverse (a : Assoc α) (key : String) :
    a.has key = (get? a.reverse key).isSome := by
  refine Bool.eq_iff_iff.2 ?_
  rw [has, isSome_get?_iff, isSome_get?_iff, keys, keys, List.map_reverse, List.mem_reverse]

/-! ### Keyed items -/

/-- Among items with keys of their own, the one with a key is what is found by it. -/
theorem find?_key_of_mem {β : Type} {key : β → String} {items : List β} (h : (items.map key).Nodup)
    {b : β} (hb : b ∈ items) : items.find? (fun item => key item = key b) = some b := by
  obtain ⟨found, hfound⟩ : ∃ found, items.find? (fun item => key item = key b) = some found :=
    Option.isSome_iff_exists.1 (List.find?_isSome.2 ⟨b, hb, decide_eq_true rfl⟩)
  have hkey : key found = key b := of_decide_eq_true (List.find?_some hfound :)
  rw [hfound, List.inj_on_of_nodup_map h (List.mem_of_find?_eq_some hfound) hb hkey]

section

variable {β : Type} {f : β → Option (String × α)} {key : β → String}
  (hf : ∀ b p, f b = some p → p.1 = key b)
include hf

theorem keys_filterMap_sublist (items : List β) :
    List.Sublist (keys (items.filterMap f)) (items.map key) := by
  induction items with
  | nil => exact .slnil
  | cons b rest ih =>
      rw [List.filterMap_cons]
      cases hb : f b with
      | none => exact ih.cons _
      | some p =>
          dsimp only
          rw [keys_cons, List.map_cons, hf b p hb]
          exact ih.cons_cons _

/-- Items with distinct keys are found under them. -/
theorem get?_filterMap {items : List β} (h : (items.map key).Nodup) {b : β} (hb : b ∈ items) :
    get? (items.filterMap f) (key b) = (f b).map Prod.snd := by
  cases hvalue : f b with
  | some p =>
      refine get?_eq_some_of_mem (h.sublist (keys_filterMap_sublist hf items)) ?_
      rw [← hf b p hvalue]
      exact List.mem_filterMap.2 ⟨b, hb, hvalue⟩
  | none =>
      refine get?_eq_none_of_not_mem fun hkey => ?_
      obtain ⟨p, hp, hsame⟩ := List.mem_map.1 hkey
      obtain ⟨other, hother, hp⟩ := List.mem_filterMap.1 hp
      obtain rfl := List.inj_on_of_nodup_map h hother hb ((hf other p hp).symm.trans hsame)
      cases hvalue.symm.trans hp

end

/-! ### Other values under the same keys -/

section

variable {β : Type} (f : α → β)

theorem put_map (a : Assoc α) (key : String) (value : α) :
    (put a key value).map (Prod.map id f) = put (a.map (Prod.map id f)) key (f value) := by
  induction a with
  | nil => rfl
  | cons p rest ih =>
      obtain ⟨k, v⟩ := p
      by_cases hkey : k = key
      · rw [put, if_pos hkey, List.map_cons, List.map_cons]
        exact (if_pos hkey).symm
      · rw [put, if_neg hkey, List.map_cons, List.map_cons, ih]
        exact (if_neg hkey).symm

theorem ofPairs_map (pairs : List (String × α)) :
    ofPairs (pairs.map (Prod.map id f)) = (ofPairs pairs).map (Prod.map id f) := by
  have hfold : ∀ start : Assoc α, putAll (start.map (Prod.map id f)) (pairs.map (Prod.map id f)) =
      (putAll start pairs).map (Prod.map id f) := by
    intro start
    induction pairs generalizing start with
    | nil => rfl
    | cons p rest ih =>
        rw [List.map_cons, putAll, putAll, List.foldl_cons, List.foldl_cons]
        obtain ⟨key, value⟩ := p
        have hput := put_map f start key value
        exact (congrArg (putAll · (rest.map (Prod.map id f))) hput.symm).trans (ih _)
  exact hfold []

theorem get?_map (a : Assoc α) (key : String) :
    get? (a.map (Prod.map id f)) key = (a.get? key).map f := by
  induction a with
  | nil => rfl
  | cons p rest ih =>
      rw [List.map_cons, get?_cons, get?_cons, ih, apply_ite (Option.map f)]
      rfl

end

end Assoc

end RandomTables
