-- SUMMARY: A sound document is loaded from its own JSON text, where all that is written is given.
import RandomTables.Proofs.Document.Authored
import RandomTables.Proofs.Selection.Bare

/-!
# Rewritten documents

A document whose keys have no surrogates is the same when it is read again from its text, but for the
fields that its entries give. The rules do not look at those, so the text of a sound document is
loaded, with the same warnings.
-/
namespace RandomTables

open Json Schema

/-! ## What is read again -/

/-- An entry that gives what is written of it. -/
def Entry.rewritten (e : Entry) : Entry := { e with given := e.written }

def SimpleTable.rewritten (t : SimpleTable) : SimpleTable :=
  { t with entries := t.entries.map Entry.rewritten }

def Table.rewritten : Table → Table
  | .simple t => .simple t.rewritten
  | t => t

/-- A document whose entries give what is written of them. -/
def Document.rewritten (d : Document) : Document :=
  { d with tables := d.tables.map Table.rewritten }

/-- A document none of whose keys has a surrogate. -/
def Document.Plain (d : Document) : Prop :=
  ∀ block, d.Blocks block → ∀ key ∈ block.keys, Text.withoutSurrogates key = key

/-- All blocks of a table and its entries. -/
def Table.blocks (t : Table) : List (Assoc String) :=
  t.header.shared.toList ++ t.header.defaultSets.toList ++
    match t with
    | .simple s => s.entries.flatMap fun e => [e.sets, e.assets]
    | _ => []

/-- All blocks of a document. -/
def Document.blocks (d : Document) : List (Assoc String) :=
  d.statics :: d.shared ::
    (d.tables.flatMap Table.blocks ++ d.templates.flatMap fun t => t.shared.toList)

theorem Table.mem_blocks {t : Table} {block : Assoc String} (h : t.Blocks block) :
    block ∈ t.blocks := by
  rcases h with (hshared | hsets) | ⟨s, rfl, e, he, hblock⟩
  · exact List.mem_append_left _ (List.mem_append_left _ (Option.mem_toList.2 hshared))
  · exact List.mem_append_left _ (List.mem_append_right _ (Option.mem_toList.2 hsets))
  · refine List.mem_append_right _ (List.mem_flatMap.2 ⟨e, he, ?_⟩)
    exact List.mem_pair.2 hblock

theorem Document.mem_blocks {d : Document} {block : Assoc String} (h : d.Blocks block) :
    block ∈ d.blocks := by
  rcases h with _ | _ | ⟨ht, hblock⟩ | ⟨ht, hblock⟩
  · exact List.mem_cons_self
  · exact List.mem_cons_of_mem _ List.mem_cons_self
  · refine List.mem_cons_of_mem _ (List.mem_cons_of_mem _ (List.mem_append_left _ ?_))
    exact List.mem_flatMap.2 ⟨_, ht, Table.mem_blocks hblock⟩
  · refine List.mem_cons_of_mem _ (List.mem_cons_of_mem _ (List.mem_append_right _ ?_))
    exact List.mem_flatMap.2 ⟨_, ht, Option.mem_toList.2 hblock⟩

theorem Document.plain_of_blocks {d : Document}
    (h : ∀ block ∈ d.blocks, ∀ key ∈ block.keys, Text.withoutSurrogates key = key) : d.Plain :=
  fun block hblock => h block (mem_blocks hblock)

@[simp] theorem SimpleTable.bare_rewritten (t : SimpleTable) : t.rewritten.bare = t.bare := by
  simp only [rewritten, bare, List.map_map]
  rfl

@[simp] theorem Table.header_rewritten (t : Table) : t.rewritten.header = t.header := by
  cases t <;> rfl

theorem rekeyed_of_plain {block : Assoc String} (hkeys : block.keys.Nodup)
    (hplain : ∀ key ∈ block.keys, Text.withoutSurrogates key = key) : rekeyed block = block := by
  have hsame : (block.map fun p => (Text.withoutSurrogates p.1, p.2)) = block := by
    refine (List.map_congr_left fun p hp => ?_).trans (List.map_id block)
    exact Prod.ext (hplain p.1 (List.mem_map_of_mem hp)) rfl
  exact (congrArg Assoc.ofPairs hsame).trans (Assoc.ofPairs_of_nodup hkeys)

theorem map_rekeyed_of_plain {block? : Option (Assoc String)}
    (h : ∀ block, block? = some block → rekeyed block = block) : block?.map rekeyed = block? := by
  cases block? with
  | none => rfl
  | some block => exact congrArg some (h block rfl)

namespace Document

variable {d : Document}

/-- Only what the entries give is read in another way than it was. -/
theorem reloaded_of_plain (hd : d.Authored) (hplain : d.Plain) : d.reloaded = d.rewritten := by
  have hblock : ∀ block, d.Blocks block → rekeyed block = block :=
    fun block h => rekeyed_of_plain (hd.keys block h) (hplain block h)
  have hheader : ∀ t ∈ d.tables, t.header.reloaded = t.header := by
    intro t ht
    rw [TableHeader.reloaded,
      map_rekeyed_of_plain fun block h => hblock block (.table ht (.inl (.inl h))),
      map_rekeyed_of_plain fun block h => hblock block (.table ht (.inl (.inr h)))]
  have hentry : ∀ t, .simple t ∈ d.tables → ∀ e ∈ t.entries, e.reloaded = e.rewritten := by
    intro t ht e he
    rw [Entry.reloaded, Entry.rewritten,
      hblock _ (.table ht (.inr ⟨t, rfl, e, he, .inl rfl⟩)),
      hblock _ (.table ht (.inr ⟨t, rfl, e, he, .inr rfl⟩))]
  have htables : d.tables.map Table.reloaded = d.tables.map Table.rewritten := by
    refine List.map_congr_left fun t ht => ?_
    cases t with
    | simple t =>
        have hsame := hheader _ ht
        change t.toTableHeader.reloaded = t.toTableHeader at hsame
        rw [Table.reloaded, SimpleTable.reloaded, hsame, List.map_congr_left (hentry t ht)]
        rfl
    | composite t =>
        have hsame := hheader _ ht
        change t.toTableHeader.reloaded = t.toTableHeader at hsame
        rw [Table.reloaded, CompositeTable.reloaded, hsame]
        rfl
    | collection t =>
        have hsame := hheader _ ht
        change t.toTableHeader.reloaded = t.toTableHeader at hsame
        rw [Table.reloaded, CollectionTable.reloaded, hsame]
        rfl
  have htemplates : d.templates.map Template.reloaded = d.templates := by
    refine (List.map_congr_left fun t ht => ?_).trans (List.map_id _)
    rw [Template.reloaded, map_rekeyed_of_plain fun block h => hblock block (.template ht h)]
    rfl
  rw [reloaded, rewritten, htables, htemplates, hblock _ .statics, hblock _ .shared]

end Document

/-! ## The rules -/

/-- What the rules look at in an entry. -/
def Entry.outline (e : Entry) : Entry := { id := e.id, weight := e.weight, range := e.range }

/-- What the rules look at in a table. -/
def Table.outline : Table → Table
  | .simple t => .simple { id := t.id, entries := t.entries.map Entry.outline, parent := t.parent }
  | .composite t => .composite { id := t.id, sources := t.sources }
  | .collection t => .collection { id := t.id, members := t.members }

/-- A document with what the rules look at. -/
def Document.outline (d : Document) : Document :=
  { d with
    tables := d.tables.map Table.outline
    templates := d.templates.map fun t => { id := t.id, pattern := "" } }

theorem Table.id_outline (t : Table) : t.outline.id = t.id := by cases t <;> rfl

namespace Integrity

theorem findOn_map {α β : Type} (f : α → β) (items : List α) (key : β → Option String)
    (check : Nat → β → Bool → List Finding) :
    findOn (items.map f) key check =
      findOn items (fun a => key (f a)) fun index a again => check index (f a) again := by
  simp only [findOn, List.map_map, List.zip_map_left, List.zipIdx_map, Function.comp_def]
  rfl

variable (d : Document)

theorem localTable_outline (id : String) :
    localTable d.outline id = (localTable d id).map Table.outline := by
  have hid : (fun t : Table => decide (t.id = id)) ∘ Table.outline = fun t => decide (t.id = id) := by
    funext t
    rw [Function.comp_apply, Table.id_outline]
  rw [localTable, localTable, Document.outline, List.find?_map, hid]

theorem referenceFindings_outline (path ref : String) (simple : Bool) :
    referenceFindings d.outline path ref simple = referenceFindings d path ref simple := by
  rw [referenceFindings, referenceFindings, localTable_outline]
  cases localTable d ref with
  | none => rfl
  | some t => cases t <;> rfl

theorem rangesFindings_outline (path : String) (entries : List Entry) :
    rangesFindings path (entries.map Entry.outline) = rangesFindings path entries := by
  have hranges : rangesOf (entries.map Entry.outline) = rangesOf entries := by
    simp only [rangesOf, List.zipIdx_map, List.filterMap_map]
    rfl
  rw [rangesFindings, rangesFindings, hranges, List.length_map]

theorem simpleFindings_outline (path : String) (t : SimpleTable) :
    simpleFindings d.outline path
        { id := t.id, entries := t.entries.map Entry.outline, parent := t.parent } =
      simpleFindings d path t := by
  have hids : entryIdsFindings path (t.entries.map Entry.outline) =
      entryIdsFindings path t.entries := findOn_map Entry.outline t.entries _ _
  have hmode : (t.entries.map Entry.outline).any (·.range.isSome) = t.inRangeMode := by
    rw [List.any_map]
    rfl
  have hempty : (t.entries.map Entry.outline).all weighsNothing = t.entries.all weighsNothing := by
    rw [List.all_map]
    rfl
  simp only [simpleFindings, parentFindings, weightsFindings, SimpleTable.inRangeMode, hids, hmode,
    hempty, referenceFindings_outline, rangesFindings_outline, List.isEmpty_map]
  rfl

theorem tableFindings_outline (index : Nat) (t : Table) :
    tableFindings d.outline index t.outline = tableFindings d index t := by
  cases t with
  | simple t => exact simpleFindings_outline d _ t
  | composite t => simp only [tableFindings, Table.outline, compositeFindings,
      referenceFindings_outline, Table.id, Table.header]
  | collection t => simp only [tableFindings, Table.outline, collectionFindings,
      referenceFindings_outline, Table.id, Table.header]

end Integrity

namespace Document

open Integrity

variable {d : Document}

/-- The rules find the same where they look at the same. -/
theorem findings_outline (d : Document) : d.outline.findings = d.findings := by
  have hids : tableIdsFindings d.outline = tableIdsFindings d := by
    rw [tableIdsFindings, outline, findOn_map]
    simp only [Table.id_outline]
    rfl
  have htemplates : templateIdsFindings d.outline = templateIdsFindings d := by
    simp only [templateIdsFindings, localTable_outline, Option.isSome_map]
    exact findOn_map _ d.templates _ _
  have htables : (d.outline.tables.zipIdx.map fun p => tableFindings d.outline p.2 p.1) =
      d.tables.zipIdx.map fun p => tableFindings d p.2 p.1 := by
    change ((d.tables.map Table.outline).zipIdx.map _) = _
    rw [List.zipIdx_map, List.map_map]
    exact List.map_congr_left fun p _ => tableFindings_outline d p.2 p.1
  rw [findings, findings, hids, htemplates]
  exact congrArg (fun found => importsFindings d ++ tableIdsFindings d ++ templateIdsFindings d ++
    List.flatten found ++ sharedFindings d) htables

theorem findings_rewritten (d : Document) : d.rewritten.findings = d.findings := by
  have htable (t : Table) : t.rewritten.outline = t.outline := by
    cases t with
    | simple t =>
        simp only [Table.rewritten, Table.outline, SimpleTable.rewritten, List.map_map]
        rfl
    | _ => rfl
  have houtline : d.rewritten.outline = d.outline := by
    rw [rewritten, outline, outline, List.map_map]
    exact congrArg (fun tables => { d.outline with tables })
      (List.map_congr_left fun t _ => htable t)
  rw [← findings_outline, houtline, findings_outline]

/-- A document in which the rules find nothing is loaded without a warning. -/
theorem load_of_flawless {draft : Draft} (h : ofDraft draft = .ok d) (hfindings : d.findings = []) :
    load draft = (.ok d, []) := by
  rw [load, h]
  dsimp only
  rw [ensureSound, errors, warnings, hfindings]
  rfl

/-- What a loaded document is. -/
theorem exists_of_load {draft : Draft} {records : List LogRecord}
    (h : load draft = (.ok d, records)) :
    ofDraft draft = .ok d ∧ d.errors = [] ∧ records = d.warnings := by
  unfold load at h
  split at h
  · rename_i other hother
    obtain ⟨hsound, rfl⟩ := Prod.mk.inj h
    unfold ensureSound at hsound
    split at hsound
    · rename_i hnone
      cases hsound
      exact ⟨hother, List.isEmpty_iff.1 hnone, rfl⟩
    · cases hsound
  · cases h

/-- A document that was loaded is read. -/
theorem authored_of_load {draft : Draft} (hproper : draft.Proper) {records : List LogRecord}
    (h : load draft = (.ok d, records)) : d.Authored := by
  obtain ⟨j, hj, hread⟩ := exists_of_ofDraft hproper (exists_of_load h).1
  exact ensures_read j d hj hread

/-- The text of a document begins with a bracket, and so with no byte order mark. -/
theorem exists_codes_jsonText (d : Document) (indent : Option Nat) :
    ∃ rest, Text.codes (d.jsonText indent) = 123 :: rest := by
  have hbracket : Text.codes "\x7b" = [123] := by decide
  have hbracketed : ∀ (items : List String) (right : String),
      ∃ rest, Text.codes (bracketed indent 0 "\x7b" right items) = 123 :: rest := by
    intro items right
    by_cases hnone : items = []
    · subst hnone
      refine ⟨Text.codes right, (Text.codes_append "\x7b" right).trans ?_⟩
      rw [hbracket, List.singleton_append]
    · obtain ⟨opening, between, closing, -, -, -, hcodes⟩ :=
        codes_bracketed indent 0 "\x7b" right hnone
      rw [hcodes, hbracket]
      exact ⟨_, rfl⟩
  exact hbracketed _ _

/-- A document that was read is read again from what is written of it. -/
theorem ofJson_toJson {j : Json} {d : Document} (h : ofJson j = .ok d) :
    ofJson d.toJson = .ok d.reloaded := by
  obtain ⟨fields, rfl, hread⟩ := exists_of_ofJson h
  have hagain := rereads.again _ d hread
  rw [withoutNulls] at hagain
  change ofJson (.obj (withoutNullsFields d.fields)) = _
  rw [ofJson, hagain]

/-- So it is from its text, whatever its keys are. -/
theorem ofDraft_jsonText {draft : Draft} (hproper : draft.Proper) (h : ofDraft draft = .ok d)
    (indent : Option Nat) :
    ofDraft (.text (Text.codes (d.jsonText indent))) = .ok d.reloaded := by
  obtain ⟨j, hj, hread⟩ := Except.bind_eq_ok h
  have hproper : (Json.obj d.fields).Proper := by
    obtain ⟨j, hj, hread⟩ := exists_of_ofDraft hproper h
    exact rereads.proper j d hj hread
  have htext : ofCodePoints (Text.codes (d.jsonText indent)) = .ok d.toJson :=
    ofCodePoints_text indent hproper.withoutNulls
  have hjson : Draft.json (.text (Text.codes (d.jsonText indent))) = .ok d.toJson := by
    obtain ⟨rest, hrest⟩ := d.exists_codes_jsonText indent
    rw [hrest] at htext ⊢
    rw [Draft.json, Draft.decode, htext]
    exact fun _ h => nomatch h
  rw [ofDraft, hjson]
  exact ofJson_toJson hread

/-- A document that was loaded is loaded again from its text. What it is then differs in what its
entries give, and the warnings are the same. -/
theorem load_jsonText {draft : Draft} (hproper : draft.Proper) {records : List LogRecord}
    (h : load draft = (.ok d, records)) (hplain : d.Plain) (indent : Option Nat) :
    load (.text (Text.codes (d.jsonText indent))) = (.ok d.rewritten, records) := by
  obtain ⟨hdraft, hsound, rfl⟩ := exists_of_load h
  have hagain := ofDraft_jsonText hproper hdraft indent
  rw [reloaded_of_plain (authored_of_load hproper h) hplain] at hagain
  have herrors : d.rewritten.errors = [] := by
    rw [errors, findings_rewritten]
    exact hsound
  have hwarnings : d.rewritten.warnings = d.warnings := by
    rw [warnings, warnings, findings_rewritten]
    rfl
  rw [load, hagain]
  dsimp only
  rw [ensureSound, herrors, hwarnings]
  rfl

end Document

end RandomTables
