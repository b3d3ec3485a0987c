-- SUMMARY: Documents are read again from their JSON text, with what is written of them given.
import RandomTables.Document.Load
import RandomTables.Proofs.Document.Rereading
import RandomTables.Proofs.Json.RoundTrip

/-!
# Reloading documents

Every part of a document is reread. What is read again is the part itself but for two things: keys
are written without surrogates, and the fields that an entry gives are then those that are written
of it, be it that they were left out before.
-/
namespace RandomTables

open Json Schema

/-! ## Imports -/

theorem Import.read_eq_ok {fields : List (String × Json)} {i : Import} :
    Import.read (.obj fields) = .ok i ↔
      field (.obj fields) "path" Schema.text = .ok i.path ∧
      field (.obj fields) "alias" Import.aliasName = .ok i.importAlias ∧
      field? (.obj fields) "description" Schema.text = .ok i.description := by
  obtain ⟨path, importAlias, description⟩ := i
  simp only [read, object]
  rw [Checked.seq_eq_ok]
  simp only [exists_and_left, Checked.exists_seq, Checked.exists_map]
  simp

theorem Import.rereads : Rereads Import.read Import.toJson id := by
  refine .object (fun i => (by decide : ["path", "alias", "description"].Nodup)) fun given i h => ?_
  have hfields : Legible ["path", "alias", "description"] := by decide
  obtain ⟨hpath, halias, hdescription⟩ := read_eq_ok.1 h
  refine ⟨read_eq_ok.2 ⟨?_, ?_, ?_⟩, fun _ => ?_⟩
  · exact rereads_text.field hpath hfields (by simp)
  · exact (rereads_checked _).field halias hfields (by simp)
  · exact rereads_text.same_field? hdescription hfields (by simp [ofOption_eq])
  · simp

theorem Metadata.read_eq_ok {fields : List (String × Json)} {m : Metadata} :
    Metadata.read (.obj fields) = .ok m ↔
      field (.obj fields) "name" Schema.text = .ok m.name ∧
      field (.obj fields) "namespace" namespaceName = .ok m.namespaceText ∧
      fieldD (.obj fields) "version" "1.0.0" Schema.text = .ok m.version ∧
      field? (.obj fields) "specVersion" Schema.text = .ok m.specVersion ∧
      field? (.obj fields) "description" Schema.text = .ok m.description ∧
      field? (.obj fields) "author" Schema.text = .ok m.author ∧
      field? (.obj fields) "maxRecursionDepth" (integerFrom 1) = .ok m.maxRecursionDepth ∧
      field? (.obj fields) "maxExplodingDice" (integerFrom 0) = .ok m.maxExplodingDice ∧
      field? (.obj fields) "maxInheritanceDepth" (integerFrom 1) = .ok m.maxInheritanceDepth ∧
      field? (.obj fields) "uniqueOverflowBehavior" (choice [.stop, .cycle, .error] Overflow.name) =
        .ok m.uniqueOverflow := by
  obtain ⟨_, _, _, _, _, _, _, _, _, _⟩ := m
  simp only [read, object]
  rw [Checked.seq_eq_ok]
  simp only [exists_and_left, Checked.exists_seq, Checked.exists_map]
  simp

theorem rereads_overflow :
    Rereads (choice [.stop, .cycle, .error] Overflow.name) (fun o => .str o.name) id :=
  rereads_choice (by decide)

theorem Metadata.rereads : Rereads Metadata.read Metadata.toJson id := by
  have hfields : Legible ["name", "namespace", "version", "specVersion", "description", "author",
    "maxRecursionDepth", "maxExplodingDice", "maxInheritanceDepth", "uniqueOverflowBehavior"] := by
    decide
  refine .object (fun m => hfields.1) fun given m h => ?_
  obtain ⟨hname, hspace, hversion, hspec, hdescription, hauthor, hdepth, hdice, hchain, hoverflow⟩ :=
    read_eq_ok.1 h
  have htext := rereads_text
  refine ⟨read_eq_ok.2 ⟨?_, ?_, ?_, ?_, ?_, ?_, ?_, ?_, ?_, ?_⟩, fun hj => ?_⟩
  · exact htext.field hname hfields (by simp)
  · exact (rereads_checked _).field hspace hfields (by simp)
  · exact htext.fieldD ⟨.str "1.0.0", proper_str _, rfl⟩ hversion hfields (by simp)
  · exact htext.same_field? hspec hfields (by simp [ofOption_eq])
  · exact htext.same_field? hdescription hfields (by simp [ofOption_eq])
  · exact htext.same_field? hauthor hfields (by simp [ofOption_eq])
  · exact (rereads_integerFrom 1).same_field? hdepth hfields (by simp)
  · exact (rereads_integerFrom 0).same_field? hdice hfields (by simp)
  · exact (rereads_integerFrom 1).same_field? hchain hfields (by simp)
  · exact rereads_overflow.same_field? hoverflow hfields (by simp [ofOption_map])
  · have hdepth := (rereads_integerFrom 1).proper_field? hj hdepth
    have hdice := (rereads_integerFrom 0).proper_field? hj hdice
    have hchain := (rereads_integerFrom 1).proper_field? hj hchain
    simp [hdepth, hdice, hchain]

/-! ## Tables -/

theorem Attribution.read_eq_ok {fields : List (String × Json)} {a : Attribution} :
    Attribution.read (.obj fields) = .ok a ↔
      field? (.obj fields) "book" Schema.text = .ok a.book ∧
      field? (.obj fields) "page" Schema.page = .ok a.page ∧
      field? (.obj fields) "url" Schema.text = .ok a.url ∧
      field? (.obj fields) "license" Schema.text = .ok a.license := by
  obtain ⟨_, _, _, _⟩ := a
  simp only [read, object]
  rw [Checked.seq_eq_ok]
  simp only [exists_and_left, Checked.exists_seq, Checked.exists_map]
  simp

theorem Attribution.rereads : Rereads Attribution.read Attribution.toJson id := by
  have hfields : Legible ["book", "page", "url", "license"] := by decide
  refine .object (fun _ => hfields.1) fun given a h => ?_
  obtain ⟨hbook, hpage, hurl, hlicense⟩ := read_eq_ok.1 h
  refine ⟨read_eq_ok.2 ⟨?_, ?_, ?_, ?_⟩, fun hj => ?_⟩
  · exact rereads_text.same_field? hbook hfields (by simp [ofOption_eq])
  · exact rereads_page.same_field? hpage hfields (by simp)
  · exact rereads_text.same_field? hurl hfields (by simp [ofOption_eq])
  · exact rereads_text.same_field? hlicense hfields (by simp [ofOption_eq])
  · have hpage := rereads_page.proper_field? hj hpage
    simp [hpage]

/-- What is written of a field of an entry. -/
def Entry.fieldJson (e : Entry) : EntryField → Json
  | .value => ofOption e.value
  | .weight => orNull .float e.weight
  | .range => orNull RollRange.toJson e.range
  | .id => ofOption e.id
  | .description => ofOption e.description
  | .resultType => ofOption e.resultType
  | .sets => textsJson e.sets
  | .assets => textsJson e.assets
  | .tags => ofList e.tags

/-- The fields of an entry that are written. -/
def Entry.written (e : Entry) : List EntryField :=
  EntryField.all.filter fun f => !(e.fieldJson f).isNull

/-- An entry as it is read again. What is written of it is given. -/
def Entry.reloaded (e : Entry) : Entry :=
  { e with sets := rekeyed e.sets, assets := rekeyed e.assets, given := e.written }

theorem Entry.read_eq_ok {fields : List (String × Json)} {e : Entry} :
    Entry.read (.obj fields) = .ok e ↔
      (field? (.obj fields) "value" Schema.text = .ok e.value ∧
      field? (.obj fields) "weight" Schema.weight = .ok e.weight ∧
      rangeField (.obj fields) = .ok e.range ∧
      field? (.obj fields) "id" Schema.text = .ok e.id ∧
      field? (.obj fields) "description" Schema.text = .ok e.description ∧
      field? (.obj fields) "resultType" Schema.text = .ok e.resultType ∧
      fieldD (.obj fields) "sets" [] texts = .ok e.sets ∧
      fieldD (.obj fields) "assets" [] texts = .ok e.assets ∧
      fieldD (.obj fields) "tags" [] (list Schema.text) = .ok e.tags ∧
      (EntryField.all.filter fun f => (fieldOf? (.obj fields) f).isSome) = e.given) ∧
      e.conflict = none := by
  obtain ⟨_, _, _, _, _, _, _, _, _, _⟩ := e
  simp only [read, object]
  rw [Checked.checkedBy_eq_ok, Checked.seq_eq_ok]
  simp only [exists_and_left, Checked.exists_seq, Checked.exists_map]
  simp [and_assoc]

namespace Entry

variable {fields : List (String × Json)} {j : Json} {o : Option RollRange}

theorem exists_of_rangeField (hread : rangeField j = .ok o) :
    ∃ value, (j.Proper → value.Proper) ∧ nullable Schema.range value = .ok o := by
  rw [rangeField] at hread
  split at hread
  · rename_i value hvalue
    exact ⟨value, proper_valueOf hvalue, Checked.under_eq_ok.1 hread⟩
  · cases hread
    exact ⟨.null, fun _ => proper_null, rfl⟩

/-- The range is read as it was, although its other name is not its name in other words. -/
theorem rangeField_again (hread : rangeField j = .ok o) (hkeys : (Assoc.keys fields).Nodup)
    (hother : "roll_range" ∉ Assoc.keys fields)
    (hmem : ("range", orNull RollRange.toJson o) ∈ fields) :
    rangeField (.obj (withoutNullsFields fields)) = .ok o := by
  obtain ⟨value, -, hvalue⟩ := exists_of_rangeField hread
  have hwritten : fieldOf? (.obj (withoutNullsFields fields)) .range = _ :=
    valueOf_written hkeys (absurd · hother) hmem
  rw [rangeField, hwritten]
  rcases rereads_range.nullable_again hvalue with rfl | ⟨a, rfl, -, hagain⟩
  · rfl
  · exact Checked.under_eq_ok.2 hagain

theorem proper_rangeField (hj : j.Proper) (hread : rangeField j = .ok o) :
    (orNull RollRange.toJson o).Proper := by
  obtain ⟨value, hproper, hvalue⟩ := exists_of_rangeField hread
  rcases rereads_range.nullable_again hvalue with rfl | ⟨a, rfl, ha, -⟩
  · exact proper_null
  · exact rereads_range.proper _ _ (hproper hj) ha

/-- The fields that are found in a written entry. -/
theorem filter_fieldOf (e : Entry) :
    let written := EntryField.all.map fun f => (f.name, e.fieldJson f)
    (EntryField.all.filter fun f =>
      (fieldOf? (.obj (withoutNullsFields written)) f).isSome) = e.written := by
  intro written
  have hkeys : (Assoc.keys written).Nodup := (by decide : (EntryField.all.map EntryField.name).Nodup)
  have hother : ∀ f ∈ EntryField.all,
      f.otherName ∈ EntryField.all.map EntryField.name → f.otherName = f.name := by decide
  refine List.filter_congr fun f hf => ?_
  have hfound := valueOf_written hkeys (hother f hf) (List.mem_map.2 ⟨f, hf, rfl⟩)
  rw [fieldOf?, hfound]
  cases (e.fieldJson f).isNull <;> rfl

theorem rereads : Rereads Entry.read Entry.toJson reloaded := by
  have hfields : Legible ["value", "weight", "range", "id", "description", "resultType", "sets",
    "assets", "tags"] := by decide
  refine .object (fun _ => hfields.1) fun given e h => ?_
  obtain ⟨⟨hvalue, hweight, hrange, hid, hdescription, hresult, hsets, hassets, htags, -⟩,
    hconflict⟩ := read_eq_ok.1 h
  refine ⟨read_eq_ok.2 ⟨⟨?_, ?_, ?_, ?_, ?_, ?_, ?_, ?_, ?_, ?_⟩, hconflict⟩, fun hj => ?_⟩
  · exact rereads_text.same_field? hvalue hfields (by simp [reloaded, ofOption_eq])
  · exact rereads_weight.same_field? hweight hfields (by simp [reloaded])
  · exact rangeField_again hrange hfields.1 (by simp [Assoc.keys]) (by simp [reloaded])
  · exact rereads_text.same_field? hid hfields (by simp [reloaded, ofOption_eq])
  · exact rereads_text.same_field? hdescription hfields (by simp [reloaded, ofOption_eq])
  · exact rereads_text.same_field? hresult hfields (by simp [reloaded, ofOption_eq])
  · exact rereads_texts.fieldD gives_noTexts hsets hfields (by simp)
  · exact rereads_texts.fieldD gives_noTexts hassets hfields (by simp)
  · exact rereads_texts_list.fieldD (gives_nil _) htags hfields (by simp [reloaded])
  · exact filter_fieldOf e
  · have hweight := rereads_weight.proper_field? hj hweight
    have hrange := proper_rangeField hj hrange
    have hsets := rereads_texts.proper_fieldD gives_noTexts hj hsets
    have hassets := rereads_texts.proper_fieldD gives_noTexts hj hassets
    have htags := rereads_texts_list.proper_fieldD (gives_nil _) hj htags
    simp [hweight, hrange, hsets, hassets, htags]

end Entry

namespace TableHeader

/-- What tables of every sort have, as it is read again. -/
def reloaded (h : TableHeader) : TableHeader :=
  { h with shared := h.shared.map rekeyed, defaultSets := h.defaultSets.map rekeyed }

theorem read_eq_ok {j : Json} {h : TableHeader} :
    TableHeader.read j = .ok h ↔
      field j "id" Schema.text = .ok h.id ∧
      fieldD j "name" "" Schema.text = .ok h.name ∧
      field? j "description" Schema.text = .ok h.description ∧
      field? j "resultType" Schema.text = .ok h.resultType ∧
      fieldD j "hidden" false boolean = .ok h.hidden ∧
      field? j "shared" texts = .ok h.shared ∧
      field? j "defaultSets" texts = .ok h.defaultSets ∧
      field? j "source" Attribution.read = .ok h.source ∧
      fieldD j "tags" [] (list Schema.text) = .ok h.tags := by
  obtain ⟨_, _, _, _, _, _, _, _, _⟩ := h
  simp only [read]
  rw [Checked.seq_eq_ok]
  simp only [exists_and_left, Checked.exists_seq, Checked.exists_map]
  simp [-Bool.exists_bool]

variable {j : Json} {h : TableHeader}

theorem read_again {fields : List (String × Json)} (hread : TableHeader.read j = .ok h)
    (hfields : Legible (Assoc.keys fields)) (hsub : h.fields ⊆ fields) :
    TableHeader.read (.obj (withoutNullsFields fields)) = .ok h.reloaded := by
  obtain ⟨hid, hname, hdescription, hresult, hhidden, hshared, hsets, hsource, htags⟩ :=
    read_eq_ok.1 hread
  refine read_eq_ok.2 ⟨?_, ?_, ?_, ?_, ?_, ?_, ?_, ?_, ?_⟩
  · exact rereads_text.field hid hfields (hsub (by simp [TableHeader.fields, reloaded]))
  · exact rereads_text.fieldD ⟨.str "", proper_str _, rfl⟩ hname hfields
      (hsub (by simp [TableHeader.fields, reloaded]))
  · exact rereads_text.same_field? hdescription hfields
      (hsub (by simp [TableHeader.fields, reloaded, ofOption_eq]))
  · exact rereads_text.same_field? hresult hfields
      (hsub (by simp [TableHeader.fields, reloaded, ofOption_eq]))
  · exact rereads_boolean.fieldD ⟨.bool false, proper_bool _, rfl⟩ hhidden hfields
      (hsub (by simp [TableHeader.fields, reloaded]))
  · exact rereads_texts.field? hshared hfields (hsub (by simp [TableHeader.fields]))
  · exact rereads_texts.field? hsets hfields (hsub (by simp [TableHeader.fields]))
  · exact Attribution.rereads.same_field? hsource hfields
      (hsub (by simp [TableHeader.fields, reloaded]))
  · exact rereads_texts_list.fieldD (gives_nil _) htags hfields
      (hsub (by simp [TableHeader.fields, reloaded]))

theorem proper_fields (hj : j.Proper) (hread : TableHeader.read j = .ok h) :
    ∀ f ∈ h.fields, f.2.Proper := by
  obtain ⟨-, -, -, -, -, hshared, hsets, hsource, htags⟩ := read_eq_ok.1 hread
  have hshared := rereads_texts.proper_field? hj hshared
  have hsets := rereads_texts.proper_field? hj hsets
  have hsource := Attribution.rereads.proper_field? hj hsource
  have htags := rereads_texts_list.proper_fieldD (gives_nil _) hj htags
  simp [TableHeader.fields, hshared, hsets, hsource, htags]

end TableHeader

/-- The type of a table that is written is the one that it is read as. -/
theorem rereads_type {name : String} (hwhole : Text.isWhole name = true) :
    Rereads (typeNamed name) (fun _ => .str name) id := by
  have hname : ∀ u ∈ [()], Text.isWhole name = true ∧ [()].find? (fun _ => name = name) = some u := by
    simp [hwhole]
  exact rereads_choice hname

namespace SimpleTable

/-- A simple table as it is read again. -/
def reloaded (t : SimpleTable) : SimpleTable :=
  { t with
    toTableHeader := t.toTableHeader.reloaded
    entries := t.entries.map Entry.reloaded }

theorem read_eq_ok {fields : List (String × Json)} {t : SimpleTable} :
    SimpleTable.read (.obj fields) = .ok t ↔
      TableHeader.read (.obj fields) = .ok t.toTableHeader ∧
      (∃ u, fieldD (.obj fields) "type" () (typeNamed "simple") = .ok u) ∧
      fieldD (.obj fields) "entries" [] (list Entry.read) = .ok t.entries ∧
      field? (.obj fields) "extends" Schema.text = .ok t.parent := by
  obtain ⟨_, _, _⟩ := t
  simp only [read, object]
  rw [Checked.seq_eq_ok]
  simp only [exists_and_left, Checked.exists_seq, Checked.exists_map]
  simp [Checked.seqLeft_eq_ok, and_assoc]

theorem rereads : Rereads SimpleTable.read SimpleTable.toJson reloaded := by
  have hfields : Legible ["id", "name", "description", "resultType", "hidden", "shared",
    "defaultSets", "source", "tags", "type", "entries", "extends"] := by decide
  refine .object (fun _ => hfields.1) fun given t h => ?_
  obtain ⟨hheader, ⟨_, htype⟩, hentries, hparent⟩ := read_eq_ok.1 h
  refine ⟨read_eq_ok.2 ⟨?_, ⟨(), ?_⟩, ?_, ?_⟩, fun hj => ?_⟩
  · exact TableHeader.read_again hheader hfields (List.subset_append_left _ _)
  · exact (rereads_type (by decide)).fieldD ⟨.str "simple", proper_str _, rfl⟩ htype hfields (by simp)
  · exact Entry.rereads.list.fieldD (gives_nil _) hentries hfields (by simp)
  · exact rereads_text.same_field? hparent hfields (by simp [reloaded, ofOption_eq])
  · have hentries := Entry.rereads.list.proper_fieldD (gives_nil _) hj hentries
    rw [List.forall_mem_append]
    exact ⟨TableHeader.proper_fields hj hheader, by simp [hentries]⟩

end SimpleTable

theorem TableSource.read_eq_ok {fields : List (String × Json)} {s : TableSource} :
    TableSource.read (.obj fields) = .ok s ↔
      field (.obj fields) "tableId" Schema.text = .ok s.tableId ∧
      field? (.obj fields) "weight" Schema.weight = .ok s.weight := by
  obtain ⟨_, _⟩ := s
  simp only [read, object]
  rw [Checked.seq_eq_ok]
  simp only [exists_and_left, Checked.exists_map]
  simp

theorem TableSource.rereads : Rereads TableSource.read TableSource.toJson id := by
  have hfields : Legible ["tableId", "weight"] := by decide
  refine .object (fun _ => hfields.1) fun given s h => ?_
  obtain ⟨htable, hweight⟩ := read_eq_ok.1 h
  refine ⟨read_eq_ok.2 ⟨?_, ?_⟩, fun hj => ?_⟩
  · exact rereads_text.field htable hfields (by simp)
  · exact rereads_weight.same_field? hweight hfields (by simp)
  · have hweight := rereads_weight.proper_field? hj hweight
    simp [hweight]

namespace CompositeTable

/-- A composite table as it is read again. -/
def reloaded (t : CompositeTable) : CompositeTable :=
  { t with toTableHeader := t.toTableHeader.reloaded }

theorem read_eq_ok {fields : List (String × Json)} {t : CompositeTable} :
    CompositeTable.read (.obj fields) = .ok t ↔
      TableHeader.read (.obj fields) = .ok t.toTableHeader ∧
      (∃ u, field (.obj fields) "type" (typeNamed "composite") = .ok u) ∧
      field (.obj fields) "sources" (list TableSource.read) = .ok t.sources := by
  obtain ⟨_, _⟩ := t
  simp only [read, object]
  rw [Checked.seq_eq_ok]
  simp only [exists_and_left, Checked.exists_map]
  simp [Checked.seqLeft_eq_ok, and_assoc]

theorem rereads : Rereads CompositeTable.read CompositeTable.toJson reloaded := by
  have hfields : Legible ["id", "name", "description", "resultType", "hidden", "shared",
    "defaultSets", "source", "tags", "type", "sources"] := by decide
  have hlist := TableSource.rereads.list
  rw [List.map_id_fun] at hlist
  refine .object (fun _ => hfields.1) fun given t h => ?_
  obtain ⟨hheader, ⟨_, htype⟩, hsources⟩ := read_eq_ok.1 h
  refine ⟨read_eq_ok.2 ⟨?_, ⟨(), ?_⟩, ?_⟩, fun hj => ?_⟩
  · exact TableHeader.read_again hheader hfields (List.subset_append_left _ _)
  · exact (rereads_type (by decide)).field htype hfields (by simp)
  · exact hlist.field hsources hfields (by simp [reloaded])
  · have hsources := hlist.proper_field hj hsources
    rw [List.forall_mem_append]
    exact ⟨TableHeader.proper_fields hj hheader, by simp [hsources]⟩

end CompositeTable

namespace CollectionTable

/-- A collection table as it is read again. -/
def reloaded (t : CollectionTable) : CollectionTable :=
  { t with toTableHeader := t.toTableHeader.reloaded }

theorem read_eq_ok {fields : List (String × Json)} {t : CollectionTable} :
    CollectionTable.read (.obj fields) = .ok t ↔
      TableHeader.read (.obj fields) = .ok t.toTableHeader ∧
      (∃ u, field (.obj fields) "type" (typeNamed "collection") = .ok u) ∧
      field (.obj fields) "collections" (list Schema.text) = .ok t.members := by
  obtain ⟨_, _⟩ := t
  simp only [read, object]
  rw [Checked.seq_eq_ok]
  simp only [exists_and_left, Checked.exists_map]
  simp [Checked.seqLeft_eq_ok, and_assoc]

theorem rereads : Rereads CollectionTable.read CollectionTable.toJson reloaded := by
  have hfields : Legible ["id", "name", "description", "resultType", "hidden", "shared",
    "defaultSets", "source", "tags", "type", "collections"] := by decide
  refine .object (fun _ => hfields.1) fun given t h => ?_
  obtain ⟨hheader, ⟨_, htype⟩, hmembers⟩ := read_eq_ok.1 h
  refine ⟨read_eq_ok.2 ⟨?_, ⟨(), ?_⟩, ?_⟩, fun hj => ?_⟩
  · exact TableHeader.read_again hheader hfields (List.subset_append_left _ _)
  · exact (rereads_type (by decide)).field htype hfields (by simp)
  · exact rereads_texts_list.field hmembers hfields (by simp [reloaded])
  · have hmembers := rereads_texts_list.proper_field hj hmembers
    rw [List.forall_mem_append]
    exact ⟨TableHeader.proper_fields hj hheader, by simp [hmembers]⟩

end CollectionTable

namespace Table

/-- A table as it is read again. -/
def reloaded : Table → Table
  | .simple t => .simple t.reloaded
  | .composite t => .composite t.reloaded
  | .collection t => .collection t.reloaded

/-- The type that is written is the tag. -/
theorem tagOf_written {fields : List (String × Json)} {name : String}
    (hkeys : (Assoc.keys fields).Nodup) (hmem : ("type", .str name) ∈ fields) :
    tagOf (.obj (withoutNullsFields fields)) = some name := by
  have hget : Json.get? (.obj (withoutNullsFields fields)) "type" = some (.str name) :=
    get?_withoutNullsFields hkeys hmem
  rw [tagOf, hget]
  rfl

theorem read_eq_ok {j : Json} {t : Table} :
    Table.read j = .ok t ↔
      (tagOf j = some "simple" ∧ ∃ s, SimpleTable.read j = .ok s ∧ .simple s = t) ∨
      (tagOf j = some "composite" ∧ ∃ s, CompositeTable.read j = .ok s ∧ .composite s = t) ∨
      (tagOf j = some "collection" ∧ ∃ s, CollectionTable.read j = .ok s ∧ .collection s = t) := by
  rw [read]
  cases tagOf j with
  | none => simp [Checked.refuse]
  | some tag =>
      dsimp only
      split
      · rename_i htag
        simp [htag, Checked.under_eq_ok, Checked.map_eq_ok]
      · split
        · rename_i htag
          simp [htag, Checked.under_eq_ok, Checked.map_eq_ok]
        · split
          · rename_i htag
            simp [htag, Checked.under_eq_ok, Checked.map_eq_ok]
          · simp [*, Checked.refuse]

theorem rereads : Rereads Table.read Table.toJson reloaded := by
  refine ⟨fun j t h => ?_, fun j t hj h => ?_, fun t => by cases t <;> rfl⟩
  · rw [read_eq_ok]
    rcases read_eq_ok.1 h with ⟨-, s, hs, rfl⟩ | ⟨-, s, hs, rfl⟩ | ⟨-, s, hs, rfl⟩
    · refine .inl ⟨tagOf_written ?_ (by simp), s.reloaded, SimpleTable.rereads.again _ _ hs, rfl⟩
      exact (by decide : ["id", "name", "description", "resultType", "hidden", "shared",
        "defaultSets", "source", "tags", "type", "entries", "extends"].Nodup)
    · refine .inr (.inl ⟨tagOf_written ?_ (by simp), s.reloaded,
        CompositeTable.rereads.again _ _ hs, rfl⟩)
      exact (by decide : ["id", "name", "description", "resultType", "hidden", "shared",
        "defaultSets", "source", "tags", "type", "sources"].Nodup)
    · refine .inr (.inr ⟨tagOf_written ?_ (by simp), s.reloaded,
        CollectionTable.rereads.again _ _ hs, rfl⟩)
      exact (by decide : ["id", "name", "description", "resultType", "hidden", "shared",
        "defaultSets", "source", "tags", "type", "collections"].Nodup)
  · rcases read_eq_ok.1 h with ⟨-, s, hs, rfl⟩ | ⟨-, s, hs, rfl⟩ | ⟨-, s, hs, rfl⟩
    · exact SimpleTable.rereads.proper _ _ hj hs
    · exact CompositeTable.rereads.proper _ _ hj hs
    · exact CollectionTable.rereads.proper _ _ hj hs

end Table

/-! ## Documents -/

namespace Template

/-- A template as it is read again. -/
def reloaded (t : Template) : Template := { t with shared := t.shared.map rekeyed }

theorem read_eq_ok {fields : List (String × Json)} {t : Template} :
    Template.read (.obj fields) = .ok t ↔
      field (.obj fields) "id" Schema.text = .ok t.id ∧
      fieldD (.obj fields) "name" "" Schema.text = .ok t.name ∧
      field (.obj fields) "pattern" Schema.text = .ok t.pattern ∧
      field? (.obj fields) "description" Schema.text = .ok t.description ∧
      field? (.obj fields) "resultType" Schema.text = .ok t.resultType ∧
      field? (.obj fields) "shared" texts = .ok t.shared ∧
      fieldD (.obj fields) "tags" [] (list Schema.text) = .ok t.tags := by
  obtain ⟨_, _, _, _, _, _, _⟩ := t
  simp only [read, object]
  rw [Checked.seq_eq_ok]
  simp only [exists_and_left, Checked.exists_seq, Checked.exists_map]
  simp

theorem rereads : Rereads Template.read Template.toJson reloaded := by
  have hfields : Legible ["id", "name", "pattern", "description", "resultType", "shared", "tags"] := by
    decide
  refine .object (fun _ => hfields.1) fun given t h => ?_
  obtain ⟨hid, hname, hpattern, hdescription, hresult, hshared, htags⟩ := read_eq_ok.1 h
  refine ⟨read_eq_ok.2 ⟨?_, ?_, ?_, ?_, ?_, ?_, ?_⟩, fun hj => ?_⟩
  · exact rereads_text.field hid hfields (by simp [reloaded])
  · exact rereads_text.fieldD ⟨.str "", proper_str _, rfl⟩ hname hfields (by simp [reloaded])
  · exact rereads_text.field hpattern hfields (by simp [reloaded])
  · exact rereads_text.same_field? hdescription hfields (by simp [reloaded, ofOption_eq])
  · exact rereads_text.same_field? hresult hfields (by simp [reloaded, ofOption_eq])
  · exact rereads_texts.field? hshared hfields (by simp)
  · exact rereads_texts_list.fieldD (gives_nil _) htags hfields (by simp [reloaded])
  · have hshared := rereads_texts.proper_field? hj hshared
    have htags := rereads_texts_list.proper_fieldD (gives_nil _) hj htags
    simp [hshared, htags]

end Template

theorem rereads_action :
    Rereads (choice [.append, .prepend, .replace, .setVariable] ConditionalAction.name)
      (fun a => .str a.name) id :=
  rereads_choice (by decide)

theorem Conditional.read_eq_ok {fields : List (String × Json)} {c : Conditional} :
    Conditional.read (.obj fields) = .ok c ↔
      field (.obj fields) "when" Schema.text = .ok c.condition ∧
      field (.obj fields) "action" (choice [.append, .prepend, .replace, .setVariable]
        ConditionalAction.name) = .ok c.action ∧
      field? (.obj fields) "target" Schema.text = .ok c.target ∧
      fieldD (.obj fields) "value" "" Schema.text = .ok c.value := by
  obtain ⟨_, _, _, _⟩ := c
  simp only [read, object]
  rw [Checked.seq_eq_ok]
  simp only [exists_and_left, Checked.exists_seq, Checked.exists_map]
  simp

theorem Conditional.rereads : Rereads Conditional.read Conditional.toJson id := by
  have hfields : Legible ["when", "action", "target", "value"] := by decide
  refine .object (fun _ => hfields.1) fun given c h => ?_
  obtain ⟨hcondition, haction, htarget, hvalue⟩ := read_eq_ok.1 h
  refine ⟨read_eq_ok.2 ⟨?_, ?_, ?_, ?_⟩, fun _ => ?_⟩
  · exact rereads_text.field hcondition hfields (by simp)
  · exact rereads_action.field haction hfields (by simp)
  · exact rereads_text.same_field? htarget hfields (by simp [ofOption_eq])
  · exact rereads_text.fieldD ⟨.str "", proper_str _, rfl⟩ hvalue hfields (by simp)
  · simp

namespace Document

/-- A document as it is read again. -/
def reloaded (d : Document) : Document :=
  { d with
    tables := d.tables.map Table.reloaded
    templates := d.templates.map Template.reloaded
    statics := rekeyed d.statics
    shared := rekeyed d.shared }

theorem read_eq_ok {fields : List (String × Json)} {d : Document} :
    Document.read (.obj fields) = .ok d ↔
      field (.obj fields) "metadata" Metadata.read = .ok d.metadata ∧
      fieldD (.obj fields) "imports" [] (list Import.read) = .ok d.imports ∧
      field (.obj fields) "tables" (list Table.read) = .ok d.tables ∧
      fieldD (.obj fields) "templates" [] (list Template.read) = .ok d.templates ∧
      fieldD (.obj fields) "variables" [] texts = .ok d.statics ∧
      fieldD (.obj fields) "shared" [] texts = .ok d.shared ∧
      fieldD (.obj fields) "conditionals" [] (list Conditional.read) = .ok d.conditionals := by
  obtain ⟨_, _, _, _, _, _, _⟩ := d
  simp only [read, object]
  rw [Checked.seq_eq_ok]
  simp only [exists_and_left, Checked.exists_seq, Checked.exists_map]
  simp

/-- What is written of a document, with the nulls. -/
def fields (d : Document) : List (String × Json) :=
  [("metadata", d.metadata.toJson), ("imports", .arr (d.imports.map Import.toJson)),
    ("tables", .arr (d.tables.map Table.toJson)),
    ("templates", .arr (d.templates.map Template.toJson)), ("variables", textsJson d.statics),
    ("shared", textsJson d.shared), ("conditionals", .arr (d.conditionals.map Conditional.toJson))]

theorem rereads : Rereads Document.read (fun d => .obj d.fields) reloaded := by
  have hfields : Legible ["metadata", "imports", "tables", "templates", "variables", "shared",
    "conditionals"] := by decide
  have himport := Import.rereads.list
  have hconditional := Conditional.rereads.list
  rw [List.map_id_fun] at himport hconditional
  refine .object (fun _ => hfields.1) fun given d h => ?_
  obtain ⟨hmetadata, himports, htables, htemplates, hstatics, hshared, hconditionals⟩ :=
    read_eq_ok.1 h
  refine ⟨read_eq_ok.2 ⟨?_, ?_, ?_, ?_, ?_, ?_, ?_⟩, fun hj => ?_⟩
  · exact Metadata.rereads.field hmetadata hfields (by simp [reloaded, fields])
  · exact himport.fieldD (gives_nil _) himports hfields (by simp [reloaded, fields])
  · exact Table.rereads.list.field htables hfields (by simp [fields])
  · exact Template.rereads.list.fieldD (gives_nil _) htemplates hfields (by simp [fields])
  · exact rereads_texts.fieldD gives_noTexts hstatics hfields (by simp [fields])
  · exact rereads_texts.fieldD gives_noTexts hshared hfields (by simp [fields])
  · exact hconditional.fieldD (gives_nil _) hconditionals hfields (by simp [reloaded, fields])
  · have hmetadata := Metadata.rereads.proper_field hj hmetadata
    have himports := himport.proper_fieldD (gives_nil _) hj himports
    have htables := Table.rereads.list.proper_field hj htables
    have htemplates := Template.rereads.list.proper_fieldD (gives_nil _) hj htemplates
    have hstatics := rereads_texts.proper_fieldD gives_noTexts hj hstatics
    have hshared := rereads_texts.proper_fieldD gives_noTexts hj hshared
    have hconditionals := hconditional.proper_fieldD (gives_nil _) hj hconditionals
    simp [fields, hmetadata, himports, htables, htemplates, hstatics, hshared, hconditionals]

end Document

end RandomTables
