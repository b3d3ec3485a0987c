-- SUMMARY: What is written of a document that was read is read, and then written the same.
import RandomTables.Proofs.Document.Rewriting

/-!
# Settled documents

Reading may change what was given: numbers may be given as texts, fields may be left out, and keys are
written without surrogates. All of that happens once. What is written of a document is read as a
document of which the same is written, and the rules find the same in both, unless keys without their
surrogates become names that are taken.
-/
namespace RandomTables

open Json Schema

/-! ## Keys -/

namespace Text

theorem withoutSurrogates_of_isWhole {text : String} (h : isWhole text = true) :
    withoutSurrogates text = text := by
  have hnone : ∀ c ∈ text.toList, isStandIn c = false := by
    simpa [isWhole] using h
  rw [withoutSurrogates, List.flatMap_congr fun c hc => by rw [hnone c hc]]
  simp

/-- Nothing is left to replace. -/
theorem isWhole_withoutSurrogates (text : String) : isWhole (withoutSurrogates text) = true := by
  have hreplaced : isStandIn (Char.ofNat 0xfffd) = false := by decide
  have hnone : ∀ c ∈ (withoutSurrogates text).toList, isStandIn c = false := by
    intro c hc
    rw [withoutSurrogates, String.toList_ofList, List.mem_flatMap] at hc
    obtain ⟨c', -, hc⟩ := hc
    split at hc
    · rw [List.eq_of_mem_replicate hc]
      exact hreplaced
    · rename_i hwhole
      rw [List.mem_singleton.1 hc]
      exact eq_false_of_ne_true hwhole
  simpa [isWhole] using hnone

end Text

theorem plain_rekeyed (block : Assoc String) :
    ∀ key ∈ (rekeyed block).keys, Text.withoutSurrogates key = key := by
  intro key hkey
  obtain ⟨p, hp, rfl⟩ := List.mem_map.1 hkey
  refine forall_mem_putAll (P := fun p => Text.withoutSurrogates p.1 = p.1)
    (List.forall_mem_nil _) (fun p hp => ?_) p hp
  obtain ⟨q, -, rfl⟩ := List.mem_map.1 hp
  exact Text.withoutSurrogates_of_isWhole (Text.isWhole_withoutSurrogates q.1)

/-- Keys are rewritten once. -/
theorem rekeyed_rekeyed (block : Assoc String) : rekeyed (rekeyed block) = rekeyed block :=
  rekeyed_of_plain (Assoc.nodup_keys_ofPairs _) (plain_rekeyed block)

@[simp] theorem textsJson_rekeyed (block : Assoc String) :
    textsJson (rekeyed block) = textsJson block := by
  rw [textsJson_eq, textsJson_eq, rekeyed_rekeyed]

@[simp] theorem orNull_rekeyed (block? : Option (Assoc String)) :
    orNull textsJson (block?.map rekeyed) = orNull textsJson block? := by
  cases block? with
  | none => rfl
  | some block => exact textsJson_rekeyed block

/-! ## What is written of parts -/

@[simp] theorem Entry.toJson_reloaded (e : Entry) : e.reloaded.toJson = e.toJson := by
  simp [toJson, reloaded]

@[simp] theorem TableHeader.fields_reloaded (h : TableHeader) : h.reloaded.fields = h.fields := by
  simp [fields, reloaded]

@[simp] theorem Table.toJson_reloaded (t : Table) : t.reloaded.toJson = t.toJson := by
  cases t with
  | simple t => simp [reloaded, toJson, SimpleTable.toJson, SimpleTable.reloaded, Function.comp_def]
  | composite t => simp [reloaded, toJson, CompositeTable.toJson, CompositeTable.reloaded]
  | collection t => simp [reloaded, toJson, CollectionTable.toJson, CollectionTable.reloaded]

@[simp] theorem Template.toJson_reloaded (t : Template) : t.reloaded.toJson = t.toJson := by
  simp [toJson, reloaded]

theorem Document.toJson_reloaded (d : Document) : d.reloaded.toJson = d.toJson := by
  simp [toJson, reloaded, Function.comp_def]

/-! ## What the rules find -/

/-- Whether a shared variable is found to have the name of a static one. -/
def Finding.isShadowing (f : Finding) : Bool :=
  match f.defect with
  | .shadowsStatic _ => true
  | _ => false

namespace Document

open Integrity

variable {d : Document}

/-- What the rules but the one on shared variables find. -/
def findingsApart (d : Document) : List Finding := ({ d with shared := [] } : Document).findings

theorem findings_eq (d : Document) : d.findings = d.findingsApart ++ sharedFindings d := by
  have hnone : sharedFindings { d with shared := [] } = [] := rfl
  rw [findingsApart, findings, findings, hnone, List.append_nil]
  rfl

theorem isShadowing_sharedFindings (d : Document) : ∀ f ∈ sharedFindings d, f.isShadowing = true := by
  intro f hf
  obtain ⟨_, hkey, hf⟩ := List.mem_flatten.1 hf
  obtain ⟨key, -, rfl⟩ := List.mem_map.1 hkey
  dsimp only at hf
  split at hf
  · rw [List.mem_singleton.1 hf]
    rfl
  · cases hf

theorem filter_findings (d : Document) :
    (d.findings.filter fun f => !f.isShadowing) = d.findingsApart.filter fun f => !f.isShadowing := by
  rw [findings_eq, List.filter_append]
  refine (congrArg _ (List.filter_eq_nil_iff.2 fun f hf => ?_)).trans (List.append_nil _)
  simp [isShadowing_sharedFindings d f hf]

theorem outline_reloaded (d : Document) :
    d.reloaded.outline = { d.outline with statics := rekeyed d.statics, shared := rekeyed d.shared } := by
  have htable (t : Table) : t.reloaded.outline = t.outline := by
    cases t with
    | simple t =>
        simp only [Table.reloaded, Table.outline, SimpleTable.reloaded, List.map_map]
        rfl
    | _ => rfl
  simp [reloaded, outline, htable, Function.comp_def, Template.reloaded]

theorem findingsApart_reloaded (d : Document) : d.reloaded.findingsApart = d.findingsApart := by
  have hbare : ({ d.reloaded with shared := [] } : Document).outline =
      { ({ d with shared := [] } : Document).outline with statics := rekeyed d.statics } := by
    have h := outline_reloaded d
    exact congrArg (fun d : Document => { d with shared := [] }) h
  rw [findingsApart, findingsApart, ← findings_outline, hbare, ← findings_outline { d with shared := [] }]
  rfl

/-- The rules find the same if no shared and no static variable has a surrogate in its name. -/
theorem findings_reloaded (hkeys : d.shared.keys.Nodup) (hstatics : d.statics.keys.Nodup)
    (hplain : ∀ key ∈ d.shared.keys ++ d.statics.keys, Text.withoutSurrogates key = key) :
    d.reloaded.findings = d.findings := by
  obtain ⟨hshared, hstatic⟩ := List.forall_mem_append.1 hplain
  have hsame : sharedFindings d.reloaded = sharedFindings d := by
    simp only [sharedFindings, reloaded, rekeyed_of_plain hkeys hshared,
      rekeyed_of_plain hstatics hstatic]
  rw [findings_eq, findings_eq, findingsApart_reloaded, hsame]

end Document

/-! ## Documents that are read -/

/-- A value whose objects have distinct keys. -/
def Json.Distinct (j : Json) : Prop := ∀ fields, Part (.obj fields) j → (Assoc.keys fields).Nodup

theorem Json.part_of_get? {j value : Json} {key : String} (h : j.get? key = some value) :
    Part value j := by
  cases j with
  | obj fields => exact .field (mem_of_lookup h) .self
  | _ => cases h

namespace Document

/-- No key of a block that a document gives is given twice. -/
theorem nodup_of_fieldD {j : Json} (hj : j.Distinct) {name : String} {block : Assoc String}
    (h : fieldD j name [] texts = .ok block) : block.keys.Nodup := by
  rw [fieldD] at h
  split at h
  · rename_i value hvalue
    obtain ⟨fields, rfl, hkeys⟩ := exists_of_texts (Checked.under_eq_ok.1 h)
    have hpart : Part (.obj fields) j := by
      rcases Option.or_eq_some_iff.1 hvalue with hvalue | ⟨-, hvalue⟩
      · exact part_of_get? hvalue
      · exact part_of_get? hvalue
    exact hkeys ▸ hj fields hpart
  · cases h
    exact .nil

/-- What is written of a document that was read is read, and then written the same. The rules find the
same in both but for shared variables with the names of static ones, and those too if no such name
has a surrogate. -/
theorem settles {j : Json} {d : Document} (hj : j.Distinct) (h : ofJson j = .ok d) :
    ∃ d', ofJson d.toJson = .ok d' ∧ d'.toJson = d.toJson ∧
      (d'.findings.filter fun f => !f.isShadowing) = (d.findings.filter fun f => !f.isShadowing) ∧
      ((∀ key ∈ d.shared.keys ++ d.statics.keys, Text.withoutSurrogates key = key) →
        d'.findings = d.findings) := by
  obtain ⟨fields, rfl, hread⟩ := exists_of_ofJson h
  obtain ⟨-, -, -, -, hstatics, hshared, -⟩ := read_eq_ok.1 hread
  refine ⟨d.reloaded, ofJson_toJson h, d.toJson_reloaded, ?_, fun hplain => ?_⟩
  · rw [filter_findings, filter_findings, findingsApart_reloaded]
  · exact findings_reloaded (nodup_of_fieldD hj hshared) (nodup_of_fieldD hj hstatics) hplain

/-- Numbers that are given as texts or truth values, and a field in its other spelling. -/
theorem settles_of_loose_fields :
    let j : Json := .obj [
      ("metadata", .obj [("name", .str "d"), ("namespace", .str "d"),
        ("max_recursion_depth", .str "7.0")]),
      ("tables", .arr [.obj [("id", .str "t"), ("hidden", .str "yes"),
        ("source", .obj [("page", .bool true)]),
        ("entries", .arr [.obj [("value", .str "v"), ("weight", .str "2"), ("id", .null)]])]]),
      ("variables", .obj [("x", .str "s")]),
      ("shared", .obj [("$x", .str "v")])]
    ∃ d d', j.Distinct ∧ ofJson j = .ok d ∧ d.findings = [⟨"shared.$x", .shadowsStatic "x"⟩] ∧
      ofJson d.toJson = .ok d' ∧ d'.toJson = d.toJson ∧ d'.findings = d.findings := by
  intro j
  have hproper : j.Proper := by simp [j, proper_obj, proper_arr, Assoc.keys]
  have hj : j.Distinct := fun fields h => hproper _ h
  have hread : (ofJson j).toOption.map (fun d => (d.findings, d.shared.keys ++ d.statics.keys)) =
      some ([⟨"shared.$x", .shadowsStatic "x"⟩], ["$x", "x"]) := by decide +kernel
  obtain ⟨d, h⟩ : ∃ d, ofJson j = .ok d := by
    cases h : ofJson j with
    | ok d => exact ⟨d, rfl⟩
    | error e =>
        rw [h] at hread
        cases hread
  rw [h] at hread
  obtain ⟨hfindings, hnames⟩ := Prod.mk.inj (Option.some.inj hread)
  obtain ⟨d', hagain, hjson, -, hsame⟩ := settles hj h
  refine ⟨d, d', hj, h, hfindings, hagain, hjson, hsame fun key hkey => ?_⟩
  change key ∈ d.shared.keys ++ d.statics.keys at hkey
  rw [hnames] at hkey
  revert key
  decide +kernel

/-- Two names with different surrogates become one name, which a shared and a static variable have. -/
theorem shadowing_after_settling :
    let name (surrogate : Nat) := String.singleton (Text.charOf surrogate)
    let j : Json := .obj [
      ("metadata", .obj [("name", .str "d"), ("namespace", .str "d")]),
      ("tables", .arr []),
      ("variables", .obj [(name 0xd801, .str "s")]),
      ("shared", .obj [(name 0xd800, .str "v")])]
    ∃ d d', j.Distinct ∧ ofJson j = .ok d ∧ d.findings = [] ∧ ofJson d.toJson = .ok d' ∧
      d'.findings = [⟨"shared.\ufffd\ufffd\ufffd", .shadowsStatic "\ufffd\ufffd\ufffd"⟩] := by
  intro name j
  have hproper : j.Proper := by simp [j, proper_obj, proper_arr, Assoc.keys]
  let d : Document := {
    metadata := { name := "d", namespaceText := "d" }
    tables := []
    statics := [(name 0xd801, "s")]
    shared := [(name 0xd800, "v")] }
  exact ⟨d, d.reloaded, fun fields h => hproper _ h, rfl, by decide +kernel,
    ofJson_toJson (j := j) rfl, by decide +kernel⟩

end Document

end RandomTables
