-- SUMMARY: What is certain of documents that are read, whether they are sound or not.
import RandomTables.Proofs.Document.Reloading
import RandomTables.Proofs.Document.Soundness

/-!
# Authored documents

A document that is read is more than a value of its type: a field that an entry does not give has its
default, no entry has a weight beside a range, and no key of a block is given twice.
-/
namespace RandomTables

open Json Schema

/-! ## What readers ensure -/

/-- A reader whose values of proper JSON are as stated. -/
def Ensures {α : Type} (read : Reader α) (P : α → Prop) : Prop :=
  ∀ j a, j.Proper → read j = .ok a → P a

namespace Ensures

variable {α : Type} {read : Reader α} {P : α → Prop}

theorem list (h : Ensures read P) : Ensures (Schema.list read) fun values => ∀ a ∈ values, P a := by
  intro j values hj hread
  cases j with
  | arr items =>
      have heach : List.Forall₂ (fun j a => read j = .ok a) items values :=
        (Checked.all_eq_ok fun _ _ _ => Checked.under_eq_ok).1 hread
      rw [proper_arr] at hj
      clear hread
      induction heach with
      | nil => exact fun _ ha => nomatch ha
      | cons ha _ ih =>
          rw [List.forall_mem_cons] at hj
          exact List.forall_mem_cons.2 ⟨h _ _ hj.1 ha, ih hj.2⟩
  | _ => cases hread

variable (h : Ensures read P) {j : Json} (hj : j.Proper) {name : String}
include h hj

theorem field {a : α} (hread : Schema.field j name read = .ok a) : P a := by
  rw [Schema.field, Checked.under_eq_ok] at hread
  split at hread
  · rename_i value hvalue
    exact h _ _ (proper_valueOf hvalue hj) hread
  · cases hread

theorem fieldD {default a : α} (hdefault : ∃ j, j.Proper ∧ read j = .ok default)
    (hread : Schema.fieldD j name default read = .ok a) : P a := by
  obtain ⟨value, hproper, hvalue⟩ := exists_of_fieldD hdefault hread
  exact h _ _ (hproper hj) hvalue

theorem field? {o : Option α} (hread : Schema.field? j name read = .ok o) :
    ∀ a, o = some a → P a := by
  rintro a rfl
  obtain ⟨value, hproper, hvalue⟩ := exists_of_field? hread
  cases value with
  | null => cases hvalue
  | _ =>
      obtain ⟨_, ha, hsome⟩ := Checked.map_eq_ok.1 hvalue
      cases hsome
      exact h _ _ (hproper hj) ha

end Ensures

theorem exists_of_texts {j : Json} {block : Assoc String} (hread : texts j = .ok block) :
    ∃ fields, j = .obj fields ∧ block.keys = Assoc.keys fields := by
  cases j with
  | obj fields =>
      have heach : List.Forall₂
          (fun (f : String × Json) (b : String × String) => Prod.mk f.1 <$> text f.2 = .ok b)
          fields block := (Checked.all_eq_ok fun _ _ _ => Checked.under_eq_ok).1 hread
      refine ⟨fields, rfl, ?_⟩
      clear hread
      induction heach with
      | nil => rfl
      | cons hb _ ih =>
          obtain ⟨_, -, rfl⟩ := Checked.map_eq_ok.1 hb
          exact congrArg (List.cons _) ih
  | _ => cases hread

/-- No key is given twice. -/
theorem ensures_texts : Ensures texts fun block => block.keys.Nodup := by
  intro j block hj hread
  obtain ⟨fields, rfl, hkeys⟩ := exists_of_texts hread
  exact hkeys ▸ (proper_obj.1 hj).1

/-! ## Entries -/

/-- A field has its default. -/
def Entry.Lacks (e : Entry) : EntryField → Prop
  | .value => e.value = none
  | .weight => e.weight = none
  | .range => e.range = none
  | .id => e.id = none
  | .description => e.description = none
  | .resultType => e.resultType = none
  | .sets => e.sets = []
  | .assets => e.assets = []
  | .tags => e.tags = []

/-- What is certain of an entry that is read. -/
structure Entry.Authored (e : Entry) : Prop where
  consistent : e.conflict = none
  silent : ∀ f, e.gives f = false → e.Lacks f
  sets : e.sets.keys.Nodup
  assets : e.assets.keys.Nodup

theorem Entry.ensures_read : Ensures Entry.read Entry.Authored := by
  intro j e hj hread
  cases j with
  | obj fields =>
      obtain ⟨⟨hvalue, hweight, hrange, hid, hdescription, hresult, hsets, hassets, htags, hgiven⟩,
        hconflict⟩ := read_eq_ok.1 hread
      refine ⟨hconflict, fun f hsilent => ?_, ensures_texts.fieldD hj gives_noTexts hsets,
        ensures_texts.fieldD hj gives_noTexts hassets⟩
      have hall : f ∈ EntryField.all := by cases f <;> decide
      have habsent : fieldOf? (.obj fields) f = none := by
        rw [gives, ← hgiven, List.contains_eq_mem, decide_eq_false_iff_not, List.mem_filter] at hsilent
        exact Option.not_isSome_iff_eq_none.1 fun hsome => hsilent ⟨hall, hsome⟩
      have hdefault : ∀ {α : Type} {name : String} {default a : α} {read : Reader α},
          fieldD (.obj fields) name default read = .ok a → value? (.obj fields) name = none →
          a = default := by
        intro α name default a read hread hnone
        rw [fieldD, hnone] at hread
        exact (Checked.ok.inj hread).symm
      cases f with
      | value => exact hdefault hvalue habsent
      | weight => exact hdefault hweight habsent
      | range =>
          rw [rangeField, habsent] at hrange
          exact (Checked.ok.inj hrange).symm
      | id => exact hdefault hid habsent
      | description => exact hdefault hdescription habsent
      | resultType => exact hdefault hresult habsent
      | sets => exact hdefault hsets habsent
      | assets => exact hdefault hassets habsent
      | tags => exact hdefault htags habsent
  | _ => cases hread

/-! ## Tables and templates -/

/-- The blocks of texts under keys that tables of every sort have. -/
def TableHeader.Blocks (h : TableHeader) (block : Assoc String) : Prop :=
  h.shared = some block ∨ h.defaultSets = some block

/-- The blocks of a table and its entries. -/
def Table.Blocks (t : Table) (block : Assoc String) : Prop :=
  t.header.Blocks block ∨ ∃ s, t = .simple s ∧ ∃ e ∈ s.entries, block = e.sets ∨ block = e.assets

/-- What is certain of a table that is read. -/
structure Table.Authored (t : Table) : Prop where
  entries : ∀ s, t = .simple s → ∀ e ∈ s.entries, e.Authored
  keys : ∀ block, t.Blocks block → block.keys.Nodup

theorem TableHeader.ensures_read :
    Ensures TableHeader.read fun h => ∀ block, h.Blocks block → block.keys.Nodup := by
  intro j h hj hread
  obtain ⟨-, -, -, -, -, hshared, hsets, -, -⟩ := read_eq_ok.1 hread
  rintro block (hblock | hblock)
  · exact ensures_texts.field? hj hshared block hblock
  · exact ensures_texts.field? hj hsets block hblock

theorem Table.ensures_read : Ensures Table.read Table.Authored := by
  intro j t hj hread
  have hobject : ∃ fields, j = .obj fields := by
    cases j with
    | obj fields => exact ⟨fields, rfl⟩
    | _ =>
        rcases read_eq_ok.1 hread with ⟨-, s, hs, -⟩ | ⟨-, s, hs, -⟩ | ⟨-, s, hs, -⟩ <;> cases hs
  obtain ⟨fields, rfl⟩ := hobject
  -- Tables of the other sorts have no entries.
  have hbare : ∀ {t : Table} {h : TableHeader}, t.header = h → (∀ s, t ≠ .simple s) →
      TableHeader.read (.obj fields) = .ok h → t.Authored := by
    rintro t _ rfl hsort hheader
    refine ⟨fun s hs => absurd hs (hsort s), ?_⟩
    rintro block (hblock | ⟨s, hs, -⟩)
    · exact TableHeader.ensures_read _ _ hj hheader block hblock
    · exact absurd hs (hsort s)
  rcases read_eq_ok.1 hread with ⟨-, s, hs, rfl⟩ | ⟨-, s, hs, rfl⟩ | ⟨-, s, hs, rfl⟩
  · obtain ⟨hheader, -, hentries, -⟩ := SimpleTable.read_eq_ok.1 hs
    have hauthored := Entry.ensures_read.list.fieldD hj (gives_nil _) hentries
    refine ⟨?_, ?_⟩
    · rintro _ ⟨⟩
      exact hauthored
    · rintro block (hblock | ⟨_, ⟨⟩, e, he, rfl | rfl⟩)
      · exact TableHeader.ensures_read _ _ hj hheader block hblock
      · exact (hauthored e he).sets
      · exact (hauthored e he).assets
  · exact hbare rfl (fun _ h => nomatch h) (CompositeTable.read_eq_ok.1 hs).1
  · exact hbare rfl (fun _ h => nomatch h) (CollectionTable.read_eq_ok.1 hs).1

theorem Template.ensures_read :
    Ensures Template.read fun t => ∀ block, t.shared = some block → block.keys.Nodup := by
  intro j t hj hread
  cases j with
  | obj fields =>
      obtain ⟨-, -, -, -, -, hshared, -⟩ := read_eq_ok.1 hread
      exact ensures_texts.field? hj hshared
  | _ => cases hread

/-! ## Documents -/

namespace Document

/-- The blocks of texts under keys that a document has anywhere. -/
inductive Blocks (d : Document) : Assoc String → Prop where
  | statics : Blocks d d.statics
  | shared : Blocks d d.shared
  | table {t : Table} (ht : t ∈ d.tables) {block : Assoc String} (h : t.Blocks block) :
    Blocks d block
  | template {t : Template} (ht : t ∈ d.templates) {block : Assoc String}
    (h : t.shared = some block) : Blocks d block

/-- What is certain of a document that is read. -/
structure Authored (d : Document) : Prop where
  entries : ∀ t, .simple t ∈ d.tables → ∀ e ∈ t.entries, e.Authored
  keys : ∀ block, d.Blocks block → block.keys.Nodup

theorem ensures_read : Ensures Document.read Document.Authored := by
  intro j d hj hread
  cases j with
  | obj fields =>
      obtain ⟨-, -, htables, htemplates, hstatics, hshared, -⟩ := read_eq_ok.1 hread
      have htables := Table.ensures_read.list.field hj htables
      have htemplates := Template.ensures_read.list.fieldD hj (gives_nil _) htemplates
      refine ⟨fun t ht => (htables _ ht).entries t rfl, ?_⟩
      rintro block (_ | _ | ⟨ht, hblock⟩ | ⟨ht, hblock⟩)
      · exact ensures_texts.fieldD hj gives_noTexts hstatics
      · exact ensures_texts.fieldD hj gives_noTexts hshared
      · exact (htables _ ht).keys block hblock
      · exact htemplates _ ht block hblock
  | _ => cases hread

/-- No entry of a document that was read has weights and ranges that conflict. -/
theorem Authored.isConsistent {d : Document} (h : d.Authored) : d.Consistent :=
  fun t ht e he => (h.entries t ht e he).consistent

end Document

/-- A draft that JSON text can hold, which every text and all bytes are. -/
def Draft.Proper : Draft → Prop
  | .value j => j.Proper
  | _ => True

/-- The JSON of a proper draft is proper. -/
theorem Draft.proper_json {draft : Draft} (hproper : draft.Proper) {j : Json}
    (h : draft.json = .ok j) : j.Proper := by
  have hdecode : ∀ codes, decode codes = .ok j → j.Proper := by
    intro codes hcodes
    unfold decode at hcodes
    split at hcodes
    · rename_i hread
      cases hcodes
      exact proper_of_ofCodePoints hread
    · cases hcodes
    · cases hcodes
  unfold json at h
  split at h
  · cases h
    exact hproper
  · cases h
  · exact hdecode _ h
  · split at h
    · exact hdecode _ h
    · cases h

/-- A document that a JSON value describes is read from an object. -/
theorem Document.exists_of_ofJson {j : Json} {d : Document} (h : ofJson j = .ok d) :
    ∃ fields, j = .obj fields ∧ Document.read (.obj fields) = .ok d := by
  unfold ofJson at h
  split at h
  · rename_i fields
    split at h
    · rename_i hread
      cases h
      exact ⟨fields, rfl, hread⟩
    · cases h
  · cases h

/-- A document that a proper draft describes is read from proper JSON. -/
theorem Document.exists_of_ofDraft {draft : Draft} (hproper : draft.Proper) {d : Document}
    (h : ofDraft draft = .ok d) : ∃ j, j.Proper ∧ Document.read j = .ok d := by
  obtain ⟨j, hj, h⟩ := Except.bind_eq_ok h
  obtain ⟨fields, rfl, hread⟩ := exists_of_ofJson h
  exact ⟨.obj fields, Draft.proper_json hproper hj, hread⟩

end RandomTables
