-- SUMMARY: When an entry overrides what it did if what is written of it counts as given.
import RandomTables.Proofs.Assoc
import RandomTables.Proofs.Document.Rewriting

/-!
# Overriding

An entry overrides the fields that it gives. Written and read again it gives other fields: those with
a default value are written although they were not given, and those that are null are not written
although they were. That makes a difference to an inherited entry, field by field, exactly if the
inherited one has something there.
-/
namespace RandomTables

namespace Entry

/-! ## One entry over another one -/

/-- Whether an entry gives a weight or a range, which count as one field. -/
def givesChance (e : Entry) : Bool := e.gives .weight || e.gives .range

/-- An entry overrides another one in the same way when it gives what is written of it: it gave that
before, or the other one has nothing there. -/
structure KeptOver (own inherited : Entry) : Prop where
  field : ∀ f ∉ [EntryField.id, .weight, .range],
    own.rewritten.gives f = own.gives f ∨ inherited.Lacks f
  chance : own.rewritten.givesChance = own.givesChance ∨
    inherited.Lacks .weight ∧ inherited.Lacks .range

/-- What is not written of an entry is not there. -/
theorem lacks_of_not_rewritten {e : Entry} {f : EntryField} (h : e.rewritten.gives f = false) :
    e.Lacks f := by
  have hall : f ∈ EntryField.all := by cases f <;> decide
  have hnull : (e.fieldJson f).isNull = true := by
    rw [gives, rewritten, written, List.contains_eq_mem, decide_eq_false_iff_not,
      List.mem_filter] at h
    cases hnull : (e.fieldJson f).isNull with
    | true => rfl
    | false =>
        refine absurd ⟨hall, ?_⟩ h
        rw [hnull]
        rfl
  have hnone : ∀ {α : Type} {write : α → Json} {o : Option α}, (∀ a, (write a).isNull = false) →
      (Json.orNull write o).isNull = true → o = none := by
    intro α write o hwrite ho
    cases o with
    | none => rfl
    | some a => cases (hwrite a).symm.trans ho
  have htext : ∀ {o : Option String}, (Json.ofOption o).isNull = true → o = none :=
    fun h => hnone (fun _ => rfl) (ofOption_eq _ ▸ h)
  cases f with
  | weight => exact hnone (fun _ => rfl) hnull
  | range => exact hnone (fun _ => rfl) hnull
  | sets | assets | tags => cases hnull
  | _ => exact htext hnull

section

variable {α : Type} {own inherited default : α} {written given : Bool}

/-- A field is overridden in the same way if it is written exactly if it is given, or if nothing is
inherited. -/
theorem overriding_iff (hwritten : written = false → own = default)
    (hgiven : given = false → own = default) :
    (if written then own else inherited) = (if given then own else inherited) ↔
      written = given ∨ inherited = default := by
  cases written <;> cases given
  · exact iff_of_true rfl (.inl rfl)
  · obtain rfl := hwritten rfl
    simp
  · obtain rfl := hgiven rfl
    simp [eq_comm]
  · exact iff_of_true rfl (.inl rfl)

end

/-- The weight and the range are overridden together. -/
theorem chance_overriddenBy {own : Entry} (inherited : Entry)
    (hweight : own.gives .weight = false → own.weight = none)
    (hrange : own.gives .range = false → own.range = none) :
    ((inherited.overriddenBy own).weight, (inherited.overriddenBy own).range) =
      if own.givesChance then (own.weight, own.range) else (inherited.weight, inherited.range) := by
  unfold overriddenBy givesChance
  dsimp only
  cases hgivesWeight : own.gives .weight <;> cases hgivesRange : own.gives .range
  · rfl
  · rw [hweight hgivesWeight]
    rfl
  · rw [hrange hgivesRange]
    rfl
  · rfl

/-- An entry of a document that was read overrides another one as it did exactly if it is kept. -/
theorem overriddenBy_rewritten_iff {own : Entry} (h : own.Authored) (inherited : Entry) :
    (inherited.overriddenBy own.rewritten).bare = (inherited.overriddenBy own).bare ↔
      own.KeptOver inherited := by
  have hgiven := h.silent
  have hwritten : ∀ f, own.rewritten.gives f = false → own.Lacks f :=
    fun f => lacks_of_not_rewritten
  have hchance : ((inherited.overriddenBy own.rewritten).weight,
        (inherited.overriddenBy own.rewritten).range) =
      ((inherited.overriddenBy own).weight, (inherited.overriddenBy own).range) ↔
      own.rewritten.givesChance = own.givesChance ∨
        inherited.Lacks .weight ∧ inherited.Lacks .range := by
    have hnone : ∀ e : Entry, (∀ f, e.gives f = false → own.Lacks f) → e.givesChance = false →
        (own.weight, own.range) = (none, none) := by
      intro e hlacks hsilent
      obtain ⟨hweight, hrange⟩ := Bool.or_eq_false_iff.1 hsilent
      exact Prod.ext (hlacks .weight hweight) (hlacks .range hrange)
    rw [chance_overriddenBy inherited (hgiven .weight) (hgiven .range),
      chance_overriddenBy inherited (hwritten .weight) (hwritten .range)]
    exact (overriding_iff (hnone own.rewritten hwritten) (hnone own hgiven)).trans
      (or_congr .rfl Prod.ext_iff)
  constructor
  · intro hsame
    refine ⟨fun f hf => ?_, hchance.1 ?_⟩
    · cases f with
      | value => exact (overriding_iff (hwritten .value) (hgiven .value)).1 (congrArg Entry.value hsame)
      | description =>
          exact (overriding_iff (hwritten .description) (hgiven .description)).1
            (congrArg Entry.description hsame)
      | resultType =>
          exact (overriding_iff (hwritten .resultType) (hgiven .resultType)).1
            (congrArg Entry.resultType hsame)
      | sets => exact (overriding_iff (hwritten .sets) (hgiven .sets)).1 (congrArg Entry.sets hsame)
      | assets =>
          exact (overriding_iff (hwritten .assets) (hgiven .assets)).1 (congrArg Entry.assets hsame)
      | tags => exact (overriding_iff (hwritten .tags) (hgiven .tags)).1 (congrArg Entry.tags hsame)
      | id | weight | range => exact absurd (by decide) hf
    · exact Prod.ext (congrArg Entry.weight hsame :) (congrArg Entry.range hsame :)
  · rintro ⟨hfield, hkept⟩
    obtain ⟨hweight, hrange⟩ := Prod.mk.inj (hchance.2 hkept)
    simp only [bare, Entry.mk.injEq]
    refine ⟨?_, hweight, hrange, rfl, ?_, ?_, ?_, ?_, ?_, trivial⟩
    · exact (overriding_iff (hwritten .value) (hgiven .value)).2 (hfield .value (by decide))
    · exact (overriding_iff (hwritten .description) (hgiven .description)).2
        (hfield .description (by decide))
    · exact (overriding_iff (hwritten .resultType) (hgiven .resultType)).2
        (hfield .resultType (by decide))
    · exact (overriding_iff (hwritten .sets) (hgiven .sets)).2 (hfield .sets (by decide))
    · exact (overriding_iff (hwritten .assets) (hgiven .assets)).2 (hfield .assets (by decide))
    · exact (overriding_iff (hwritten .tags) (hgiven .tags)).2 (hfield .tags (by decide))

/-- What becomes of an entry that is overridden does not depend on what it was given. -/
theorem bare_overriddenBy {inherited inherited' : Entry} (h : inherited'.bare = inherited.bare)
    (own : Entry) : (inherited'.overriddenBy own).bare = (inherited.overriddenBy own).bare := by
  rw [eq_of_bare h]
  rfl

end Entry

/-! ## One table over another one -/

/-- Entries under their keys without the marks of what they were given. -/
def bareEntries (entries : Assoc Entry) : Assoc Entry := entries.map (Prod.map id Entry.bare)

namespace SimpleTable

/-- Each of the entries that are laid over those so far is kept over the one that it overrides. -/
def KeptFrom (tableId : String) (entries : Assoc Entry) : List (Entry × Nat) → Prop
  | [] => True
  | own :: rest =>
    (∀ inherited, entries.get? (own.1.key tableId own.2) = some inherited →
      own.1.KeptOver inherited) ∧
    KeptFrom tableId (layEntry tableId entries own) rest

/-- The entries of a table are kept over those of a table that it extends. -/
def KeptOver (t parent : SimpleTable) : Prop :=
  KeptFrom t.id (Assoc.ofPairs (parent.entries.map fun e => (e.idText, e))) t.entries.zipIdx

/-- Laying an entry over others that differ in what they were given, where it may itself give other
fields as long as it overrides alike. -/
theorem bare_layEntry {tableId : String} {entries entries' : Assoc Entry}
    (hentries : bareEntries entries' = bareEntries entries) {own own' : Entry}
    (hown : own'.bare = own.bare) (index : Nat)
    (hover : ∀ inherited, entries.get? (own.key tableId index) = some inherited →
      (inherited.overriddenBy own').bare = (inherited.overriddenBy own).bare) :
    bareEntries (layEntry tableId entries' (own', index)) =
      bareEntries (layEntry tableId entries (own, index)) := by
  have hkey : own'.key tableId index = own.key tableId index := by
    rw [Entry.eq_of_bare hown]
    rfl
  have hget : (entries'.get? (own.key tableId index)).map Entry.bare =
      (entries.get? (own.key tableId index)).map Entry.bare := by
    rw [← Assoc.get?_map, ← Assoc.get?_map]
    exact congrArg (Assoc.get? · _) hentries
  unfold layEntry
  dsimp only
  rw [hkey]
  cases hbefore : entries.get? (own.key tableId index) with
  | none =>
      rw [hbefore] at hget
      rw [Option.map_eq_none_iff.1 hget]
      dsimp only
      rw [bareEntries, bareEntries, Assoc.put_map, Assoc.put_map]
      refine congrArg₂ (Assoc.put · _ ·) hentries ?_
      rw [Entry.eq_of_bare hown]
      rfl
  | some inherited =>
      rw [hbefore] at hget
      obtain ⟨inherited', hinherited', hbare⟩ := Option.map_eq_some_iff.1 hget
      rw [hinherited']
      dsimp only
      rw [bareEntries, bareEntries, Assoc.put_map, Assoc.put_map]
      exact congrArg₂ (Assoc.put · _ ·) hentries
        ((Entry.bare_overriddenBy hbare own').trans (hover inherited hbefore))

/-- Where both rows of entries begin. -/
theorem bareEntries_start {entries entries' : List Entry}
    (h : entries'.map Entry.bare = entries.map Entry.bare) :
    bareEntries (Assoc.ofPairs (entries'.map fun e => (e.idText, e))) =
      bareEntries (Assoc.ofPairs (entries.map fun e => (e.idText, e))) := by
  have hpairs : ∀ entries : List Entry, (entries.map fun e => (e.idText, e)).map
      (Prod.map id Entry.bare) = (entries.map Entry.bare).map fun e => (e.idText, e) := by
    intro entries
    rw [List.map_map, List.map_map]
    rfl
  rw [bareEntries, bareEntries, ← Assoc.ofPairs_map, ← Assoc.ofPairs_map, hpairs, hpairs, h]

/-- Tables laid over others are the same when bare if their entries are. -/
theorem bare_laidOver_of {t t' parent parent' : SimpleTable} (ht : t'.bare = t.bare)
    (hparent : parent'.bare = parent.bare)
    (hentries : bareEntries (t'.entries.zipIdx.foldl (layEntry t.id)
        (Assoc.ofPairs (parent'.entries.map fun e => (e.idText, e)))) =
      bareEntries (t.entries.zipIdx.foldl (layEntry t.id)
        (Assoc.ofPairs (parent.entries.map fun e => (e.idText, e))))) :
    (t'.laidOver parent').bare = (t.laidOver parent).bare := by
  have hlaid : (layEntries t.id parent'.entries t'.entries).map Entry.bare =
      (layEntries t.id parent.entries t.entries).map Entry.bare := by
    have hvalues : ∀ entries : Assoc Entry, (entries.map (·.2)).map Entry.bare =
        (bareEntries entries).map (·.2) := by
      intro entries
      rw [bareEntries, List.map_map, List.map_map]
      rfl
    rw [layEntries, layEntries, hvalues, hvalues, hentries]
  rw [eq_of_bare ht, eq_of_bare hparent, bare, bare]
  simp only [laidOver]
  exact congrArg (fun entries => { (t.laidOver parent) with entries }) hlaid

theorem bare_laidOver (t : SimpleTable) {parent parent' : SimpleTable}
    (h : parent'.bare = parent.bare) : (t.laidOver parent').bare = (t.laidOver parent).bare := by
  have hfold : ∀ (own : List (Entry × Nat)) (entries entries' : Assoc Entry),
      bareEntries entries' = bareEntries entries →
      bareEntries (own.foldl (layEntry t.id) entries') =
        bareEntries (own.foldl (layEntry t.id) entries) := by
    intro own
    induction own with
    | nil => exact fun _ _ h => h
    | cons o rest ih => exact fun _ _ h => ih _ _ (bare_layEntry h rfl o.2 fun _ _ => rfl)
  exact bare_laidOver_of rfl h (hfold _ _ _ (bareEntries_start (entries_of_bare h)))

/-- A table that is kept over another one may give what is written of it. -/
theorem bare_laidOver_rewritten {t parent parent' : SimpleTable}
    (hauthored : ∀ e ∈ t.entries, e.Authored) (hkept : t.KeptOver parent)
    (h : parent'.bare = parent.bare) :
    (t.rewritten.laidOver parent').bare = (t.laidOver parent).bare := by
  have hfold : ∀ (own : List (Entry × Nat)) (entries entries' : Assoc Entry),
      (∀ o ∈ own, o.1.Authored) → KeptFrom t.id entries own →
      bareEntries entries' = bareEntries entries →
      bareEntries ((own.map (Prod.map Entry.rewritten id)).foldl (layEntry t.id) entries') =
        bareEntries (own.foldl (layEntry t.id) entries) := by
    intro own
    induction own with
    | nil => exact fun _ _ _ _ h => h
    | cons o rest ih =>
        intro entries entries' howns hkept h
        obtain ⟨own, index⟩ := o
        obtain ⟨howns, hrest⟩ := List.forall_mem_cons.1 howns
        have hbare : own.rewritten.bare = own.bare := rfl
        refine ih _ _ hrest hkept.2 (bare_layEntry h hbare index fun inherited hinherited => ?_)
        exact (Entry.overriddenBy_rewritten_iff howns inherited).2 (hkept.1 inherited hinherited)
  refine bare_laidOver_of (bare_rewritten t) h ?_
  rw [rewritten, List.zipIdx_map]
  exact hfold _ _ _ (fun o ho => hauthored o.1 (List.fst_mem_of_mem_zipIdx ho)) hkept
    (bareEntries_start (entries_of_bare h))

/-- Giving ids to entries does not look at what they were given. -/
theorem bare_identified {t t' : SimpleTable} (h : t'.bare = t.bare) :
    t'.identified.bare = t.identified.bare := by
  have hbare : ∀ t : SimpleTable, t.identified.bare = t.bare.identified := by
    intro t
    simp only [identified, bare, List.map_map, List.zipIdx_map]
    refine congrArg (fun entries => { t with entries }) (List.map_congr_left fun p _ => ?_)
    obtain ⟨e, index⟩ := p
    have hempty : e.bare.idText.isEmpty = e.idText.isEmpty := rfl
    simp only [Function.comp_apply, Prod.map, hempty]
    split <;> rfl
  rw [hbare, hbare, h]

end SimpleTable

end RandomTables
