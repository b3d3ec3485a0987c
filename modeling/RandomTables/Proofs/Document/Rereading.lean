-- SUMMARY: Values that are read from JSON are read again from what is written of them.
import Mathlib.Data.List.TakeWhile
import RandomTables.Document.Reader
import RandomTables.Proofs.Json.Parts

/-!
# Rereading

A reader rereads what a writer writes if every value that it gives is read again, up to a change that
is the same each time. The law is shown for scalars, lists and texts under keys, and for the fields of
an object: a field that is left out or null is not written, and is read as left out.
-/
namespace RandomTables

open Json

namespace Schema

namespace Checked

variable {α β : Type}

theorem map_eq_ok {f : α → β} {x : Checked α} {b : β} :
    f <$> x = .ok b ↔ ∃ a, x = .ok a ∧ f a = b := by
  cases x with
  | ok a => exact ⟨fun h => ⟨a, rfl, Checked.ok.inj h⟩, fun ⟨_, h, hb⟩ => by cases h; exact hb ▸ rfl⟩
  | refused issues => exact ⟨fun h => (nomatch h), fun ⟨_, h, _⟩ => (nomatch h)⟩

theorem seq_eq_ok {f : Checked (α → β)} {x : Checked α} {b : β} :
    f <*> x = .ok b ↔ ∃ g a, f = .ok g ∧ x = .ok a ∧ g a = b := by
  cases f with
  | refused issues =>
      refine ⟨fun h => ?_, fun ⟨_, _, h, _⟩ => (nomatch h)⟩
      cases x <;> cases h
  | ok g =>
      cases x with
      | refused issues => exact ⟨fun h => (nomatch h), fun ⟨_, _, _, h, _⟩ => (nomatch h)⟩
      | ok a =>
          refine ⟨fun h => ⟨g, a, rfl, rfl, Checked.ok.inj h⟩, ?_⟩
          rintro ⟨_, _, h, h', rfl⟩
          cases h
          cases h'
          rfl

/-- Whatever holds of a value that was read is a fact on the values that it is made of. -/
theorem exists_map {f : α → β} {x : Checked α} {P : β → Prop} :
    (∃ b, f <$> x = .ok b ∧ P b) ↔ ∃ a, x = .ok a ∧ P (f a) := by
  constructor
  · rintro ⟨_, h, hb⟩
    obtain ⟨a, ha, rfl⟩ := map_eq_ok.1 h
    exact ⟨a, ha, hb⟩
  · rintro ⟨a, ha, hb⟩
    exact ⟨f a, map_eq_ok.2 ⟨a, ha, rfl⟩, hb⟩

theorem exists_seq {f : Checked (α → β)} {x : Checked α} {P : β → Prop} :
    (∃ b, f <*> x = .ok b ∧ P b) ↔ ∃ g, f = .ok g ∧ ∃ a, x = .ok a ∧ P (g a) := by
  constructor
  · rintro ⟨_, h, hb⟩
    obtain ⟨g, a, hg, ha, rfl⟩ := seq_eq_ok.1 h
    exact ⟨g, hg, a, ha, hb⟩
  · rintro ⟨g, hg, a, ha, hb⟩
    exact ⟨g a, seq_eq_ok.2 ⟨g, a, hg, ha, rfl⟩, hb⟩

theorem seqLeft_eq_ok {x : Checked α} {y : Checked β} {a : α} :
    x <* y = .ok a ↔ x = .ok a ∧ ∃ b, y = .ok b := by
  change Function.const β <$> x <*> y = .ok a ↔ _
  rw [seq_eq_ok]
  constructor
  · rintro ⟨_, b, h, hb, rfl⟩
    obtain ⟨a, ha, rfl⟩ := map_eq_ok.1 h
    exact ⟨ha, b, hb⟩
  · rintro ⟨ha, b, hb⟩
    exact ⟨_, b, map_eq_ok.2 ⟨a, ha, rfl⟩, hb, rfl⟩

theorem under_eq_ok {key : String} {x : Checked α} {a : α} : x.under key = .ok a ↔ x = .ok a := by
  cases x with
  | ok _ => exact .rfl
  | refused issues => exact ⟨fun h => (nomatch h), fun h => (nomatch h)⟩

theorem checkedBy_eq_ok {rule : α → Option Mismatch} {x : Checked α} {a : α} :
    x.checkedBy rule = .ok a ↔ x = .ok a ∧ rule a = none := by
  cases x with
  | refused issues => exact ⟨fun h => (nomatch h), fun h => (nomatch h.1)⟩
  | ok a' =>
      rw [checkedBy]
      cases hrule : rule a' with
      | none => exact ⟨fun h => by cases h; exact ⟨rfl, hrule⟩, fun h => h.1⟩
      | some m =>
          refine ⟨fun h => (nomatch h), ?_⟩
          rintro ⟨h, hnone⟩
          cases h
          rw [hrule] at hnone
          cases hnone

/-- All items are read if each one is. -/
theorem all_eq_ok {read : Nat → α → Checked β} {R : α → β → Prop}
    (hR : ∀ index a b, read index a = .ok b ↔ R a b) {index : Nat} {items : List α}
    {values : List β} : all read index items = .ok values ↔ List.Forall₂ R items values := by
  induction items generalizing index values with
  | nil =>
      refine ⟨fun h => by cases h; exact .nil, ?_⟩
      rintro ⟨⟩
      rfl
  | cons a rest ih =>
      rw [all, seq_eq_ok]
      constructor
      · rintro ⟨g, more, hg, hmore, rfl⟩
        obtain ⟨b, hb, rfl⟩ := map_eq_ok.1 hg
        exact .cons ((hR _ _ _).1 hb) (ih.1 hmore)
      · rintro (_ | ⟨hb, hmore⟩)
        exact ⟨_, _, map_eq_ok.2 ⟨_, (hR _ _ _).2 hb, rfl⟩, ih.2 hmore, rfl⟩

end Checked

end Schema

open Schema

/-! ## Rereading -/

/-- A reader reads what is written of the values that it gives, as they are `again`. What is written
of values that are read from proper ones is proper, and never null. -/
structure Rereads {α : Type} (read : Reader α) (write : α → Json) (again : α → α) : Prop where
  again : ∀ j a, read j = .ok a → read (write a).withoutNulls = .ok (again a)
  proper : ∀ j a, j.Proper → read j = .ok a → (write a).Proper
  isNull : ∀ a, (write a).isNull = false

/-- A value that is written with nothing to leave out is read back if its reader takes it. -/
theorem Rereads.of_scalar {α : Type} {read : Reader α} {write : α → Json}
    (hscalar : ∀ a, (write a).withoutNulls = write a) (hnull : ∀ a, (write a).isNull = false)
    (h : ∀ j a, read j = .ok a → read (write a) = .ok a ∧ (j.Proper → (write a).Proper)) :
    Rereads read write id :=
  ⟨fun j a hread => (hscalar a).symm ▸ (h j a hread).1, fun j a hj hread => (h j a hread).2 hj, hnull⟩

/-! ### Scalars -/

theorem rereads_text : Rereads Schema.text .str id := by
  refine .of_scalar (fun _ => rfl) (fun _ => rfl) fun j s h => ?_
  cases j <;> cases h
  exact ⟨rfl, fun _ => proper_str s⟩

/-- So are the texts that keep to a rule. -/
theorem rereads_checked (rule : String → Option Mismatch) :
    Rereads (fun j => (Schema.text j).checkedBy rule) .str id := by
  refine .of_scalar (fun _ => rfl) (fun _ => rfl) fun j s h => ?_
  obtain ⟨-, hrule⟩ := Checked.checkedBy_eq_ok.1 h
  exact ⟨Checked.checkedBy_eq_ok.2 ⟨rfl, hrule⟩, fun _ => proper_str s⟩

theorem rereads_weight : Rereads weight .float id := by
  refine .of_scalar (fun _ => rfl) (fun _ => rfl) fun j x h => ?_
  obtain ⟨-, hrule⟩ := Checked.checkedBy_eq_ok.1 h
  exact ⟨Checked.checkedBy_eq_ok.2 ⟨rfl, hrule⟩, fun _ => proper_float x⟩

theorem rereads_boolean : Rereads boolean .bool id :=
  .of_scalar (fun _ => rfl) (fun _ => rfl) fun _ b _ => ⟨rfl, fun _ => proper_bool b⟩

theorem rereads_choice {α : Type} {values : List α} {name : α → String}
    (h : ∀ a ∈ values, Text.isWhole (name a) = true ∧ values.find? (fun b => name b = name a) = some a) :
    Rereads (choice values name) (fun a => .str (name a)) id := by
  refine .of_scalar (fun _ => rfl) (fun _ => rfl) fun j a hread => ⟨?_, fun _ => proper_str _⟩
  have hmem : a ∈ values := by
    cases j with
    | str s =>
        rw [choice, fromWhole] at hread
        split at hread
        · split at hread
          · rename_i hfind
            cases hread
            exact List.mem_of_find?_eq_some hfind
          · cases hread
        · cases hread
    | _ => cases hread
  obtain ⟨hwhole, hfind⟩ := h a hmem
  rw [choice, fromWhole, if_pos hwhole, hfind]

/-! ### Integers -/

theorem isWritable_of_lt {n : Int} (h : n.natAbs < Number.twoTo 63) :
    Number.isWritable n = true := by
  have hfits : Number.twoTo 63 ≤ Number.tenTo 19 := by decide
  have hdigits : Number.tenTo 19 ≤ Number.tenTo Number.mostDigits := Number.tenTo_le (by decide)
  exact decide_eq_true (Nat.lt_of_lt_of_le h (Nat.le_trans hfits hdigits))

theorem isWritable_of_plainInteger {cs : List Char} {n : Int} (h : plainInteger cs = .ok n) :
    Number.isWritable n = true := by
  unfold plainInteger at h
  split at h
  rename_i negative digits _
  split at h
  · cases h
    exact isWritable_of_lt (by decide)
  · split at h
    · cases h
    · by_cases hlength : Number.mostDigits <
          (digits.takeWhile Char.isDigit).length + (if negative then 1 else 0)
      · rw [if_pos hlength] at h
        cases h
      · rw [if_neg hlength] at h
        split at h
        · rename_i hdigits
          cases h
          rw [List.takeWhile_eq_self_iff.2 (List.all_eq_true.1 hdigits)] at hlength
          exact Number.isWritable_numeral (by omega) _
        · cases h

theorem isWritable_of_integerOf {cs : List Char} {n : Int} (h : integerOf cs = .ok n) :
    Number.isWritable n = true := by
  unfold integerOf at h
  split at h
  · split at h
    · rename_i hplain
      cases h
      obtain ⟨_, _, hread⟩ := Option.map_eq_some_iff.1 hplain
      exact isWritable_of_plainInteger hread
    · cases h
  · exact isWritable_of_plainInteger h

/-- An integer that is read from a proper value has a numeral. -/
theorem isWritable_of_integer {j : Json} {n : Int} (hj : j.Proper) (h : integer j = .ok n) :
    Number.isWritable n = true := by
  unfold integer at h
  split at h
  · cases h
    exact hj.isWritable
  · rename_i b
    cases h
    cases b <;> exact isWritable_of_lt (by decide)
  · unfold fromWhole at h
    split at h
    · dsimp only at h
      split at h
      · rename_i hread
        cases h
        exact isWritable_of_integerOf hread
      · cases h
    · cases h
  · split at h
    · split at h
      · cases h
      · split at h
        · rename_i hlt
          cases h
          exact isWritable_of_lt hlt
        · cases h
    · cases h
  · cases h

theorem rereads_integerFrom (least : Nat) : Rereads (integerFrom least) ofNat id := by
  refine .of_scalar (fun _ => rfl) (fun _ => rfl) fun j n h => ?_
  have hmap : ∀ {x : Checked Int}, x.map Int.toNat = .ok n → ∃ i, x = .ok i ∧ i.toNat = n :=
    fun h => Checked.map_eq_ok.1 h
  obtain ⟨i, hi, rfl⟩ := hmap h
  obtain ⟨hread, hrule⟩ := Checked.checkedBy_eq_ok.1 hi
  have hleast : (least : Int) ≤ i := by
    by_contra hlt
    rw [if_neg hlt] at hrule
    cases hrule
  have hsame : ((i.toNat : Nat) : Int) = i := by omega
  refine ⟨?_, fun hj => ?_⟩
  · rw [integerFrom, ofNat, hsame]
    change Checked.map Int.toNat (Checked.checkedBy _ (.ok i)) = _
    rw [Checked.checkedBy, if_pos hleast]
    rfl
  · rw [ofNat, hsame]
    exact proper_int (isWritable_of_integer hj hread)

theorem rereads_page : Rereads Schema.page Page.toJson id := by
  refine .of_scalar (fun p => by cases p <;> rfl) (fun p => by cases p <;> rfl) fun j p h => ?_
  have hnumber : ∀ n, integer j = .ok n → p = .number n →
      Schema.page p.toJson = .ok p ∧ (j.Proper → p.toJson.Proper) := by
    rintro n hn rfl
    exact ⟨rfl, fun hj => proper_int (isWritable_of_integer hj hn)⟩
  cases j with
  | str s =>
      cases h
      exact ⟨rfl, fun _ => proper_str s⟩
  | _ =>
      rw [Schema.page] at h
      · split at h
        · rename_i hn
          cases h
          exact hnumber _ hn rfl
        · cases h
      · exact fun _ h => nomatch h

theorem rereads_range : Rereads Schema.range RollRange.toJson id := by
  refine .of_scalar (fun _ => rfl) (fun _ => rfl) fun j r h => ⟨rfl, fun hj => ?_⟩
  cases j with
  | arr items =>
      rw [Schema.range] at h
      split at h
      · cases h
      · obtain ⟨_, last, hmade, hlast, rfl⟩ := Checked.seq_eq_ok.1 h
        obtain ⟨first, hfirst, rfl⟩ := Checked.map_eq_ok.1 hmade
        have hbound : ∀ {index : Nat} {j : Json} {n : Int}, items[index]? = some j →
            integer j = .ok n → (Json.int n).Proper := fun hitem hn =>
          proper_int (isWritable_of_integer (proper_arr.1 hj _ (List.mem_of_getElem? hitem)) hn)
        replace hfirst := Checked.under_eq_ok.1 hfirst
        replace hlast := Checked.under_eq_ok.1 hlast
        refine proper_arr.2 (List.forall_mem_cons.2 ⟨?_, List.forall_mem_singleton.2 ?_⟩)
        · split at hfirst
          · exact hbound ‹_› hfirst
          · cases hfirst
        · split at hlast
          · exact hbound ‹_› hlast
          · cases hlast
  | _ => cases h

/-! ### Lists and texts under keys -/

theorem Rereads.list {α : Type} {read : Reader α} {write : α → Json} {again : α → α}
    (h : Rereads read write again) :
    Rereads (Schema.list read) (fun items => .arr (items.map write)) (List.map again) := by
  have hall : ∀ {items : List Json} {values : List α},
      Schema.list read (.arr items) = .ok values ↔
        List.Forall₂ (fun j a => read j = .ok a) items values :=
    Checked.all_eq_ok fun _ _ _ => Checked.under_eq_ok
  have hitems : ∀ {j values}, Schema.list read j = .ok values →
      ∃ items, j = .arr items ∧ List.Forall₂ (fun j a => read j = .ok a) items values := by
    intro j values hread
    cases j with
    | arr items => exact ⟨items, rfl, hall.1 hread⟩
    | _ => cases hread
  refine ⟨fun j values hread => ?_, fun j values hj hread => ?_, fun _ => rfl⟩
  · obtain ⟨items, rfl, heach⟩ := hitems hread
    rw [withoutNulls, withoutNullsAll_eq, hall]
    clear hread
    induction heach with
    | nil => exact .nil
    | cons ha _ ih => exact .cons (h.again _ _ ha) ih
  · obtain ⟨items, rfl, heach⟩ := hitems hread
    rw [proper_arr] at hj ⊢
    clear hread
    induction heach with
    | nil => exact fun _ hj => nomatch hj
    | cons ha _ ih =>
        rw [List.forall_mem_cons] at hj
        exact List.forall_mem_cons.2 ⟨h.proper _ _ hj.1 ha, ih hj.2⟩

theorem rereads_texts_list : Rereads (Schema.list Schema.text) ofList id := by
  have h := rereads_text.list
  rw [List.map_id_fun] at h
  exact h

/-- Texts under keys as they are read again: the keys have no surrogates, and of those that become
equal the last one counts. -/
def rekeyed (texts : Assoc String) : Assoc String :=
  Assoc.ofPairs (texts.map fun (key, value) => (Text.withoutSurrogates key, value))

theorem textsJson_eq (texts : Assoc String) :
    textsJson texts = .obj ((rekeyed texts).map (Prod.map id .str)) := by
  rw [textsJson, rekeyed, ← Assoc.ofPairs_map, List.map_map]
  rfl

theorem withoutNulls_textsJson (texts : Assoc String) :
    (textsJson texts).withoutNulls = textsJson texts := by
  rw [textsJson_eq, withoutNulls]
  congr 1
  induction rekeyed texts with
  | nil => rfl
  | cons p rest ih =>
      obtain ⟨key, text⟩ := p
      rw [List.map_cons, withoutNullsFields]
      · rw [ih]
        rfl
      · intro h
        cases h

theorem rereads_texts : Rereads texts textsJson rekeyed := by
  have htext : ∀ (f : String × Json) (b : String × String),
      (Prod.mk f.1 <$> Schema.text f.2).under (Text.withoutSurrogates f.1) = .ok b ↔
        f = Prod.map id .str b := by
    rintro ⟨key, j⟩ ⟨key', text⟩
    rw [Checked.under_eq_ok, Checked.map_eq_ok]
    constructor
    · rintro ⟨s, hs, hb⟩
      cases hb
      cases j <;> cases hs
      rfl
    · rintro ⟨⟩
      exact ⟨text, rfl, rfl⟩
  refine ⟨fun _ a _ => ?_, fun _ a _ _ => ?_, fun _ => rfl⟩
  · rw [withoutNulls_textsJson, textsJson_eq]
    refine (Checked.all_eq_ok fun _ => htext).2 ?_
    induction rekeyed a with
    | nil => exact .nil
    | cons b rest ih => exact .cons rfl ih
  · refine proper_obj.2 ⟨Assoc.nodup_keys_ofPairs _, ?_⟩
    refine forall_mem_putAll (fun _ hf => nomatch hf) fun f hf => ?_
    obtain ⟨_, _, rfl⟩ := List.mem_map.1 hf
    exact proper_str _

/-! ## Fields -/

/-- Names of fields that are distinct, and none of which is the other spelling of another one. -/
abbrev Legible (names : List String) : Prop :=
  names.Nodup ∧ ∀ name ∈ names, underscored name ∈ names → underscored name = name

section

variable {fields : List (String × Json)} {name : String} {value : Json}

/-- What is under a key without the nulls. -/
theorem get?_withoutNullsFields (hkeys : (Assoc.keys fields).Nodup) (hmem : (name, value) ∈ fields) :
    Assoc.get? (withoutNullsFields fields) name =
      if value.isNull then none else some value.withoutNulls := by
  have hsublist := keys_withoutNullsFields fields
  split
  · rename_i hnull
    refine Assoc.get?_eq_none_of_not_mem fun hname => ?_
    rw [withoutNullsFields_eq] at hname
    obtain ⟨_, hkept, hname⟩ := List.mem_map.1 hname
    obtain ⟨⟨key, value'⟩, hfield, rfl⟩ := List.mem_map.1 hkept
    obtain ⟨hfield, hsome⟩ := List.mem_filter.1 hfield
    obtain rfl : key = name := hname
    have hget := Assoc.get?_eq_some_of_mem hkeys hmem
    rw [Assoc.get?_eq_some_of_mem hkeys hfield] at hget
    cases hget
    rw [hnull] at hsome
    cases hsome
  · rename_i hsome
    refine Assoc.get?_eq_some_of_mem (hkeys.sublist hsublist) ?_
    rw [withoutNullsFields_eq]
    refine List.mem_map.2 ⟨_, List.mem_filter.2 ⟨hmem, ?_⟩, rfl⟩
    rw [eq_false_of_ne_true hsome]
    rfl

/-- A written field is found under its name, unless it is null. -/
theorem valueOf_written (hkeys : (Assoc.keys fields).Nodup) {other : String}
    (hother : other ∈ Assoc.keys fields → other = name) (hmem : (name, value) ∈ fields) :
    valueOf (.obj (withoutNullsFields fields)) name other =
      if value.isNull then none else some value.withoutNulls := by
  have hget := get?_withoutNullsFields hkeys hmem
  have hnone : value.isNull = true → Assoc.get? (withoutNullsFields fields) other = none := by
    intro hnull
    by_cases hsame : other = name
    · rw [hsame, hget, if_pos hnull]
    · refine Assoc.get?_eq_none_of_not_mem fun h => hsame (hother ?_)
      exact (keys_withoutNullsFields fields).subset h
  rw [valueOf, Json.get?, Json.get?, hget]
  split
  · rename_i hnull
    exact hnone hnull
  · rfl

variable {α : Type} {read : Reader α} {write : α → Json} {again : α → α} {j : Json} {a : α}
  {default : α} {o : Option α}

theorem proper_valueOf {other : String} (h : valueOf j name other = some value) (hj : j.Proper) :
    value.Proper := by
  rcases Option.or_eq_some_iff.1 h with h | ⟨-, h⟩
  · exact hj.get? h
  · exact hj.get? h

/-- A field that was left out has a value that some other value gives. -/
theorem exists_of_fieldD (hdefault : ∃ j, j.Proper ∧ read j = .ok default)
    (hread : Schema.fieldD j name default read = .ok a) :
    ∃ value, (j.Proper → value.Proper) ∧ read value = .ok a := by
  rw [Schema.fieldD] at hread
  split at hread
  · rename_i value hvalue
    exact ⟨value, proper_valueOf hvalue, Checked.under_eq_ok.1 hread⟩
  · cases hread
    obtain ⟨value, hvalue, hread⟩ := hdefault
    exact ⟨value, fun _ => hvalue, hread⟩

theorem exists_of_field? (hread : Schema.field? j name read = .ok o) :
    ∃ value, (j.Proper → value.Proper) ∧ nullable read value = .ok o := by
  have hdefault : ∃ j, j.Proper ∧ nullable read j = .ok none := ⟨.null, proper_null, rfl⟩
  exact exists_of_fieldD hdefault hread

theorem isNull_withoutNulls (j : Json) : j.withoutNulls.isNull = j.isNull := by
  cases j <;> rfl

variable (h : Rereads read write again)
include h

theorem Rereads.field (hread : Schema.field j name read = .ok a)
    (hfields : Legible (Assoc.keys fields)) (hmem : (name, write a) ∈ fields) :
    Schema.field (.obj (withoutNullsFields fields)) name read = .ok (again a) := by
  have hname : name ∈ Assoc.keys fields := List.mem_map_of_mem (f := Prod.fst) hmem
  rw [Schema.field, Checked.under_eq_ok] at hread ⊢
  rw [value?, valueOf_written hfields.1 (hfields.2 name hname) hmem, h.isNull]
  split at hread
  · exact h.again _ _ hread
  · cases hread

theorem Rereads.proper_field (hj : j.Proper) (hread : Schema.field j name read = .ok a) :
    (write a).Proper := by
  rw [Schema.field, Checked.under_eq_ok] at hread
  split at hread
  · rename_i value hvalue
    exact h.proper _ _ (proper_valueOf hvalue hj) hread
  · cases hread

theorem Rereads.fieldD (hdefault : ∃ j, j.Proper ∧ read j = .ok default)
    (hread : Schema.fieldD j name default read = .ok a)
    (hfields : Legible (Assoc.keys fields)) (hmem : (name, write a) ∈ fields) :
    Schema.fieldD (.obj (withoutNullsFields fields)) name default read = .ok (again a) := by
  have hname : name ∈ Assoc.keys fields := List.mem_map_of_mem (f := Prod.fst) hmem
  obtain ⟨value, -, hvalue⟩ := exists_of_fieldD hdefault hread
  rw [Schema.fieldD, value?, valueOf_written hfields.1 (hfields.2 name hname) hmem, h.isNull]
  exact Checked.under_eq_ok.2 (h.again _ _ hvalue)

theorem Rereads.proper_fieldD (hdefault : ∃ j, j.Proper ∧ read j = .ok default) (hj : j.Proper)
    (hread : Schema.fieldD j name default read = .ok a) : (write a).Proper := by
  obtain ⟨value, hproper, hvalue⟩ := exists_of_fieldD hdefault hread
  exact h.proper _ _ (hproper hj) hvalue

/-- The value of a field that may be left out, or null. -/
theorem Rereads.nullable_again {value : Json} (hread : nullable read value = .ok o) :
    o = none ∨ ∃ a, o = some a ∧ read value = .ok a ∧
      nullable read (write a).withoutNulls = .ok (some (again a)) := by
  have hread' : ∀ {value : Json}, value.isNull = false →
      nullable read value = some <$> read value := by
    intro value hvalue
    cases value <;> first | rfl | cases hvalue
  by_cases hnull : value.isNull = true
  · left
    cases value <;> cases hnull
    cases hread
    rfl
  · rw [hread' (eq_false_of_ne_true hnull)] at hread
    obtain ⟨a, ha, rfl⟩ := Checked.map_eq_ok.1 hread
    refine .inr ⟨a, rfl, ha, ?_⟩
    rw [hread' ((isNull_withoutNulls _).trans (h.isNull a)), h.again _ _ ha]
    rfl

theorem Rereads.field? (hread : Schema.field? j name read = .ok o)
    (hfields : Legible (Assoc.keys fields)) (hmem : (name, orNull write o) ∈ fields) :
    Schema.field? (.obj (withoutNullsFields fields)) name read = .ok (o.map again) := by
  have hname : name ∈ Assoc.keys fields := List.mem_map_of_mem (f := Prod.fst) hmem
  obtain ⟨value, -, hvalue⟩ := exists_of_field? hread
  rw [Schema.field?, Schema.fieldD, value?, valueOf_written hfields.1 (hfields.2 name hname) hmem]
  rcases h.nullable_again hvalue with rfl | ⟨a, rfl, -, hagain⟩
  · rfl
  · rw [orNull, h.isNull]
    exact Checked.under_eq_ok.2 hagain

theorem Rereads.proper_field? (hj : j.Proper) (hread : Schema.field? j name read = .ok o) :
    (orNull write o).Proper := by
  obtain ⟨value, hproper, hvalue⟩ := exists_of_field? hread
  rcases h.nullable_again hvalue with rfl | ⟨a, rfl, ha, -⟩
  · exact proper_null
  · exact h.proper _ _ (hproper hj) ha

end

/-- A field that may be left out is read as it was, if its value is. -/
theorem Rereads.same_field? {α : Type} {read : Reader α} {write : α → Json}
    (h : Rereads read write id) {fields : List (String × Json)} {name : String} {j : Json}
    {o : Option α} (hread : Schema.field? j name read = .ok o)
    (hfields : Legible (Assoc.keys fields)) (hmem : (name, orNull write o) ∈ fields) :
    Schema.field? (.obj (withoutNullsFields fields)) name read = .ok o := by
  have hagain := h.field? hread hfields hmem
  rwa [Option.map_id] at hagain

/-- An object is reread if its fields are. -/
theorem Rereads.object {α : Type} {sort : String} {read : Json → Checked α}
    {fields : α → List (String × Json)} {again : α → α}
    (hfields : ∀ a, (Assoc.keys (fields a)).Nodup)
    (h : ∀ given a, read (.obj given) = .ok a →
      read (.obj (withoutNullsFields (fields a))) = .ok (again a) ∧
        ((Json.obj given).Proper → ∀ f ∈ fields a, f.2.Proper)) :
    Rereads (object sort read) (fun a => .obj (fields a)) again := by
  refine ⟨fun j a hread => ?_, fun j a hj hread => ?_, fun _ => rfl⟩
  · cases j with
    | obj given => exact (h given a hread).1
    | _ => cases hread
  · cases j with
    | obj given => exact proper_obj.2 ⟨hfields a, (h given a hread).2 hj⟩
    | _ => cases hread

/-! ### Values that are always proper -/

@[simp] theorem proper_ofOption (o : Option String) : (ofOption o).Proper := by
  cases o with
  | none => exact proper_null
  | some s => exact proper_str s

theorem ofOption_eq (o : Option String) : ofOption o = orNull .str o := by cases o <;> rfl

theorem ofOption_map {α : Type} (name : α → String) (o : Option α) :
    ofOption (o.map name) = orNull (fun a => .str (name a)) o := by cases o <;> rfl

/-- A list may be left out, as may texts under keys. -/
theorem gives_nil {α : Type} (read : Reader α) :
    ∃ j : Json, j.Proper ∧ Schema.list read j = .ok [] := ⟨.arr [], proper_arr.2 (by simp), rfl⟩

theorem gives_noTexts : ∃ j : Json, j.Proper ∧ texts j = .ok [] :=
  ⟨.obj [], proper_obj.2 ⟨.nil, by simp⟩, rfl⟩

end RandomTables
