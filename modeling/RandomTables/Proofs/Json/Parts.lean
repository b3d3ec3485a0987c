-- SUMMARY: Parts of JSON values, and values that JSON text can write.
import Mathlib.Data.List.Induction
import Mathlib.Data.List.Nodup
import RandomTables.Document.Writer
import RandomTables.Json.Reader
import RandomTables.Proofs.Assoc
import RandomTables.Proofs.Evaluation.Monad
import RandomTables.Proofs.Registry.Material

/-!
# Proper values

Not every JSON value can be written: the keys of an object have to be distinct, and an integer must
not have more digits than a numeral may have. A value is proper if all its parts keep to this. Whatever
is read from text is proper, and a proper value stays so without its nulls.
-/
namespace RandomTables

/-! ## Numerals -/

theorem Text.numeral_lt (digits : List Char) :
    Text.numeral digits < Number.tenTo digits.length := by
  induction digits using List.reverseRecOn with
  | nil => exact Nat.one_pos
  | append_singleton digits c ih =>
      have hvalue := Text.decimalValue_lt c
      rw [Text.numeral_concat, List.length_append, List.length_singleton, Number.tenTo_succ]
      omega

theorem Number.natAbs_signed (negative : Bool) (n : Nat) : (signed negative n).natAbs = n := by
  cases negative <;> simp [signed]

theorem Number.tenTo_le {m n : Nat} (h : m ≤ n) : tenTo m ≤ tenTo n :=
  Nat.pow_le_pow_right (Nat.zero_lt_succ 9) h

/-- An integer with no more digits than a numeral may have. -/
theorem Number.isWritable_numeral {digits : List Char} (h : digits.length ≤ mostDigits)
    (negative : Bool) : isWritable (signed negative (Text.numeral digits)) = true := by
  have hlt := Text.numeral_lt digits
  rw [isWritable, natAbs_signed, decide_eq_true_eq]
  exact Nat.lt_of_lt_of_le hlt (tenTo_le h)

theorem Number.isWritable_of_readInteger {negative : Bool} {digits : List Char} {n : Int}
    (h : readInteger negative digits = .ok n) : isWritable n = true := by
  obtain ⟨m, hm, rfl⟩ := Except.map_eq_ok h
  rw [readDigits] at hm
  split at hm
  · cases hm
  · rename_i hlength
    cases hm
    exact isWritable_numeral (Nat.not_lt.1 hlength) negative

namespace Json

/-! ## Parts -/

/-- A value is part of itself, and the parts of its items and fields are its parts as well. -/
inductive Part (p : Json) : Json → Prop where
  | self : Part p p
  | item {items : List Json} {j : Json} (h : j ∈ items) (hp : Part p j) : Part p (.arr items)
  | field {fields : List (String × Json)} {key : String} {j : Json} (h : (key, j) ∈ fields)
    (hp : Part p j) : Part p (.obj fields)

/-- What JSON text can write: an integer that has a numeral, an object with distinct keys. -/
def Plain : Json → Prop
  | .int n => Number.isWritable n = true
  | .obj fields => (Assoc.keys fields).Nodup
  | _ => True

/-- A value whose parts can all be written. -/
def Proper (j : Json) : Prop := ∀ p, Part p j → p.Plain

theorem proper_of_scalar {j : Json} (hitems : ∀ items, j ≠ .arr items)
    (hfields : ∀ fields, j ≠ .obj fields) (h : j.Plain) : j.Proper := by
  intro p hp
  cases hp with
  | self => exact h
  | item => exact absurd rfl (hitems _)
  | field => exact absurd rfl (hfields _)

@[simp] theorem proper_null : Proper .null :=
  proper_of_scalar (fun _ h => nomatch h) (fun _ h => nomatch h) trivial

@[simp] theorem proper_bool (b : Bool) : Proper (.bool b) :=
  proper_of_scalar (fun _ h => nomatch h) (fun _ h => nomatch h) trivial

@[simp] theorem proper_float (x : Float) : Proper (.float x) :=
  proper_of_scalar (fun _ h => nomatch h) (fun _ h => nomatch h) trivial

@[simp] theorem proper_str (s : String) : Proper (.str s) :=
  proper_of_scalar (fun _ h => nomatch h) (fun _ h => nomatch h) trivial

theorem proper_int {n : Int} (h : Number.isWritable n = true) : Proper (.int n) :=
  proper_of_scalar (fun _ h => nomatch h) (fun _ h => nomatch h) h

theorem Proper.isWritable {n : Int} (h : Proper (.int n)) : Number.isWritable n = true := h _ .self

theorem proper_arr {items : List Json} : Proper (.arr items) ↔ ∀ j ∈ items, j.Proper := by
  constructor
  · exact fun h j hj p hp => h p (.item hj hp)
  · intro h p hp
    cases hp with
    | self => trivial
    | item hj hp => exact h _ hj p hp

theorem proper_obj {fields : List (String × Json)} :
    Proper (.obj fields) ↔ (Assoc.keys fields).Nodup ∧ ∀ f ∈ fields, f.2.Proper := by
  constructor
  · exact fun h => ⟨h _ .self, fun f hf p hp => h p (.field hf hp)⟩
  · rintro ⟨hkeys, h⟩ p hp
    cases hp with
    | self => exact hkeys
    | field hf hp => exact h _ hf p hp

theorem Proper.get? {j value : Json} (hj : j.Proper) {key : String}
    (h : j.get? key = some value) : value.Proper := by
  cases j with
  | obj fields => exact (proper_obj.1 hj).2 _ (mem_of_lookup h)
  | _ => cases h

/-! ## Values without nulls -/

theorem withoutNullsAll_eq (items : List Json) : withoutNullsAll items = items.map withoutNulls := by
  induction items with
  | nil => rfl
  | cons item rest ih => rw [withoutNullsAll, ih, List.map_cons]

/-- Whether a value is null. -/
def isNull : Json → Bool
  | .null => true
  | _ => false

theorem withoutNullsFields_eq (fields : List (String × Json)) :
    withoutNullsFields fields =
      (fields.filter fun f => !f.2.isNull).map (Prod.map id withoutNulls) := by
  induction fields with
  | nil => rfl
  | cons field rest ih =>
      obtain ⟨key, j⟩ := field
      cases j with
      | null =>
          rw [withoutNullsFields, ih]
          rfl
      | _ =>
          rw [withoutNullsFields, ih]
          · rfl
          · exact fun h => nomatch h

theorem keys_withoutNullsFields (fields : List (String × Json)) :
    (Assoc.keys (withoutNullsFields fields)).Sublist (Assoc.keys fields) := by
  rw [withoutNullsFields_eq, Assoc.keys, List.map_map]
  exact List.filter_sublist.map Prod.fst

theorem Plain.withoutNulls {j : Json} (h : j.Plain) : j.withoutNulls.Plain := by
  cases j with
  | obj fields => exact List.Nodup.sublist (keys_withoutNullsFields fields) h
  | _ => exact h

/-- The parts that are left without the nulls. -/
theorem Part.of_withoutNulls {p k j : Json} (hp : Part p k) (hk : k = j.withoutNulls) :
    ∃ q, Part q j ∧ p = q.withoutNulls := by
  induction hp generalizing j with
  | self => exact ⟨j, .self, hk⟩
  | item hitem _ ih =>
      cases j <;> cases hk
      rename_i items
      rw [withoutNullsAll_eq] at hitem
      obtain ⟨item, hmem, hitem⟩ := List.mem_map.1 hitem
      obtain ⟨q, hq, rfl⟩ := ih hitem.symm
      exact ⟨q, .item hmem hq, rfl⟩
  | field hfield _ ih =>
      cases j <;> cases hk
      rename_i fields
      rw [withoutNullsFields_eq] at hfield
      obtain ⟨⟨key, value⟩, hmem, hfield⟩ := List.mem_map.1 hfield
      cases hfield
      obtain ⟨q, hq, rfl⟩ := ih rfl
      exact ⟨q, .field (List.mem_of_mem_filter hmem) hq, rfl⟩

theorem Proper.withoutNulls {j : Json} (h : j.Proper) : j.withoutNulls.Proper := by
  intro p hp
  obtain ⟨q, hq, rfl⟩ := hp.of_withoutNulls rfl
  exact (h q hq).withoutNulls

/-! ## Values that are read -/

theorem proper_of_readWord {c after : Cursor} {j : Json} (h : readWord c = some (j, after)) :
    j.Proper := by
  obtain ⟨⟨word, value⟩, hword, hfound⟩ := Option.map_eq_some_iff.1 h
  cases hfound
  have hmem := List.mem_of_find?_eq_some hword
  simp only [List.mem_cons, Prod.mk.injEq, List.not_mem_nil, or_false] at hmem
  rcases hmem with ⟨-, rfl⟩ | ⟨-, rfl⟩ | ⟨-, rfl⟩ | ⟨-, rfl⟩ | ⟨-, rfl⟩ | ⟨-, rfl⟩ <;> simp

theorem proper_of_readNumber {c after : Cursor} {j : Json} (h : readNumber c = .ok (j, after)) :
    j.Proper := by
  unfold readNumber at h
  dsimp only at h
  split at h
  · cases h
  · split at h
    · split at h
      · rename_i n hn
        cases h
        exact proper_int (Number.isWritable_of_readInteger hn)
      · cases h
    · cases h
      exact proper_float _

section

variable {fuel : Nat}

theorem proper_of_readItems
    (hvalue : ∀ c j after, readValue fuel c = .ok (j, after) → j.Proper)
    (hitems : ∀ c items after, readItems fuel c = .ok (items, after) → ∀ j ∈ items, j.Proper)
    {c after : Cursor} {items : List Json} (h : readItems (fuel + 1) c = .ok (items, after)) :
    ∀ j ∈ items, j.Proper := by
  rw [readItems] at h
  obtain ⟨⟨item, rest⟩, hitem, h⟩ := Except.bind_eq_ok h
  have hproper := hvalue _ _ _ hitem
  dsimp only at h
  split at h
  · cases h
    exact List.forall_mem_singleton.2 hproper
  · split at h
    · obtain ⟨⟨more, rest⟩, hmore, h⟩ := Except.bind_eq_ok h
      cases h
      exact List.forall_mem_cons.2 ⟨hproper, hitems _ _ _ hmore⟩
    · cases h

theorem proper_of_readFields
    (hvalue : ∀ c j after, readValue fuel c = .ok (j, after) → j.Proper)
    (hfields : ∀ c fields after, readFields fuel c = .ok (fields, after) → ∀ f ∈ fields, f.2.Proper)
    {c after : Cursor} {fields : List (String × Json)}
    (h : readFields (fuel + 1) c = .ok (fields, after)) : ∀ f ∈ fields, f.2.Proper := by
  rw [readFields] at h
  split at h
  · cases h
  · obtain ⟨⟨key, rest⟩, -, h⟩ := Except.bind_eq_ok h
    dsimp only at h
    split at h
    · cases h
    · obtain ⟨⟨value, rest⟩, hread, h⟩ := Except.bind_eq_ok h
      have hproper := hvalue _ _ _ hread
      dsimp only at h
      split at h
      · cases h
        exact List.forall_mem_singleton.2 hproper
      · split at h
        · obtain ⟨⟨more, rest⟩, hmore, h⟩ := Except.bind_eq_ok h
          cases h
          exact List.forall_mem_cons.2 ⟨hproper, hfields _ _ _ hmore⟩
        · cases h

theorem proper_of_readValue
    (hitems : ∀ c items after, readItems fuel c = .ok (items, after) → ∀ j ∈ items, j.Proper)
    (hfields : ∀ c fields after, readFields fuel c = .ok (fields, after) → ∀ f ∈ fields, f.2.Proper)
    {c after : Cursor} {j : Json} (h : readValue (fuel + 1) c = .ok (j, after)) : j.Proper := by
  rw [readValue] at h
  split at h
  · obtain ⟨⟨codes, rest⟩, -, h⟩ := Except.bind_eq_ok h
    cases h
    exact proper_str _
  · split at h
    · dsimp only at h
      split at h
      · cases h
        exact proper_obj.2 ⟨List.nodup_nil, List.forall_mem_nil _⟩
      · obtain ⟨⟨fields, rest⟩, hread, h⟩ := Except.bind_eq_ok h
        cases h
        refine proper_obj.2 ⟨Assoc.nodup_keys_ofPairs fields, ?_⟩
        exact forall_mem_putAll (List.forall_mem_nil _) (hfields _ _ _ hread)
    · split at h
      · dsimp only at h
        split at h
        · cases h
          exact proper_arr.2 (List.forall_mem_nil _)
        · obtain ⟨⟨items, rest⟩, hread, h⟩ := Except.bind_eq_ok h
          cases h
          exact proper_arr.2 (hitems _ _ _ hread)
      · split at h
        · rename_i found hfound
          cases h
          exact proper_of_readWord hfound
        · exact proper_of_readNumber h

end

/-- Whatever is read is proper. -/
theorem proper_of_reading (fuel : Nat) :
    (∀ c j after, readValue fuel c = .ok (j, after) → j.Proper) ∧
      (∀ c items after, readItems fuel c = .ok (items, after) → ∀ j ∈ items, j.Proper) ∧
      ∀ c fields after, readFields fuel c = .ok (fields, after) → ∀ f ∈ fields, f.2.Proper := by
  induction fuel with
  | zero =>
      refine ⟨fun c j after h => ?_, fun c items after h => ?_, fun c fields after h => ?_⟩
      · simp [readValue, refuse] at h
      · simp [readItems, refuse] at h
      · simp [readFields, refuse] at h
  | succ fuel ih =>
      obtain ⟨hvalue, hitems, hfields⟩ := ih
      exact ⟨fun _ _ _ => proper_of_readValue hitems hfields,
        fun _ _ _ => proper_of_readItems hvalue hitems,
        fun _ _ _ => proper_of_readFields hvalue hfields⟩

/-- Whatever text writes is proper. -/
theorem proper_of_ofCodePoints {codes : List Nat} {j : Json} (h : ofCodePoints codes = .ok j) :
    j.Proper := by
  obtain ⟨⟨value, after⟩, hvalue, h⟩ := Except.bind_eq_ok h
  dsimp only at h
  split at h
  · cases h
    exact (proper_of_reading _).1 _ _ _ hvalue
  · cases h

end Json

end RandomTables
