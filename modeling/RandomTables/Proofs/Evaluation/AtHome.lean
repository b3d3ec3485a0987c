-- SUMMARY: Evaluations that read the texts of inherited entries in the collections they come from.
import RandomTables.Evaluation.Answer
import RandomTables.Proofs.Evaluation.Levels
import RandomTables.Proofs.Evaluation.Portable
import RandomTables.Proofs.Registry.Homes

/-!
# Evaluations at home

A drawn entry is evaluated in the collection of the table that was rolled, although its texts may come
from tables of other collections. Here it is evaluated at home: its value, its description and each
of its sets in the collection where that was written. Both come to the same if every text means the
same in both collections.
-/
namespace RandomTables

/-- The entry that a frame rolls, if its table extends no other one. -/
def Frame.entry? (f : Frame) : Option Entry :=
  if (f.table.parent.getD "").isEmpty then
    f.table.entries.find? fun e => e.id = f.entryId && e.description = f.description
  else none

/-- Where a text of a collection is at home during a roll: the description of the entry that is being
rolled comes from where it was written. -/
def Frame.homeOf (r : Registry) (f : Frame) (text collectionId : String) : String :=
  match f.entry? with
  | some e =>
    if e.description.getD "" = text ∧ f.collectionId = collectionId then
      (r.homesOf f.collectionId f.table.id e).description
    else collectionId
  | none => collectionId

namespace Eval

section

variable (env : Surroundings) (answer : Answer)

/-- The contents of some sets, each evaluated in a collection of its own. -/
def renderSetsIn (homes : String → String) (collectionId tableId : String) :
    List (String × String) → Eval (Assoc Content)
  | [] => pure []
  | (key, pattern) :: rest => do
    let guard := collectionId ++ ":" ++ tableId ++ "." ++ key
    let content ←
      if !Text.holds Span.opening pattern.toList then pure (Content.text pattern)
      else if (← get).guards.contains guard then do
        log .warning ("Set '" ++ key ++ "' of table '" ++ tableId ++ "' references itself")
        pure (Content.text "")
      else guarding guard (renderSet env answer pattern (homes key))
    let more ← renderSetsIn homes collectionId tableId rest
    return (key, content) :: more

/-- The outcome of a drawn entry whose texts are evaluated in collections of their own. -/
def outcomeIn (homes : Homes) (s : Selection) (table : SimpleTable) : Eval Outcome := do
  note { kind := .entrySelect, label := "Selected: " ++ s.entry.idText, raw := table.id
         value := Json.ofOption s.entry.value, metadata := s.fields }
  let (sets, text) ← withFrame ⟨table, s.collectionId, s.entry.id, s.entry.description⟩ do
    let sets ← renderSetsIn env answer homes.set s.collectionId table.id
      (Assoc.putAll (table.defaultSets.getD []) s.entry.sets)
    if !sets.isEmpty then modify (Context.publish table.id sets)
    let text ← answer (.pattern (s.entry.value.getD "") homes.value)
    return (sets, text)
  if !sets.has "value" then modify (Context.publish table.id [("value", .text text)])
  let description ← evalDescription answer table { s with collectionId := homes.description } text
  return {
    text, tableId := table.id, collectionId := s.collectionId
    resultType := SimpleTable.firstText s.entry.resultType table.resultType
    assets := s.entry.assets, sets, entryId := s.entry.id, key := some s.key, description }

/-- The outcome of a drawn entry, evaluated at home. -/
def outcomeAtHome (s : Selection) (table : SimpleTable) : Eval Outcome :=
  outcomeIn env answer (env.registry.homesOf s.collectionId table.id s.entry) s table

/-! ## Rolls -/

section

variable (realize : Selection → SimpleTable → Eval Outcome)

/-- Rolls a simple table and makes an outcome of the drawn entry. -/
def rollFromEntriesWith (t : SimpleTable) (collectionId : String) (excluded : List String) :
    Eval Outcome := do
  let table ← resolving (env.registry.inherit env.base t collectionId)
  let s ← draw (table.draw collectionId excluded)
  realize s table

/-- Rolls a collection table and makes an outcome of the drawn entry. -/
def rollFromMembersWith (t : CollectionTable) (collectionId : String) (excluded : List String) :
    Eval Outcome := do
  let members ← resolving (env.registry.members env.base t collectionId t.members)
  note { kind := .collectionMerge, label := "Merge: " ++ String.intercalate ", " t.members
         raw := t.id, value := .int members.length
         metadata := [("members", Json.ofList (members.map fun (m, _) => m.id)),
          ("poolSize", .int (Number.sumOf (fun (m, _) => m.entries.length) members))] }
  let s ← draw (drawPooled members t.id excluded)
  match members.find? fun (m, owner) => m.id = s.tableId && owner = s.collectionId with
  | some (table, _) =>
    let outcome ← realize s table
    return Outcome.typed outcome t.resultType
  | none => throw (.selection (.noPooledEntries t.id))

def rollFromWith (t : Table) (collectionId : String) (excluded : List String) : Eval Outcome :=
  match t with
  | .simple t => rollFromEntriesWith env realize t collectionId excluded
  | .composite t => rollFromSources env answer t collectionId excluded
  | .collection t => rollFromMembersWith env realize t collectionId excluded

/-- Rolls a table and makes an outcome of the drawn entry, or expands a template. -/
def rollWith (target : Target) (excluded : List String) : Eval Outcome :=
  let collectionId := target.collectionId
  match target.definition with
  | .table t =>
    let h := t.header
    let step : TraceStep := {
      kind := .tableRoll, label := "Roll: " ++ shownName h.name h.id, raw := h.id
      parsed := [("tableType", .str t.sort), ("collectionId", .str collectionId)] }
    atLevel env h.id "table" step h.shared collectionId fun node => do
      let outcome ← rollFromWith env answer realize t collectionId excluded
      setValue node (.str outcome.text)
      annotate node [("entryId", Json.ofOption outcome.entryId),
        ("resultType", Json.ofOption outcome.resultType)]
      return outcome
  | .template _ => roll env answer target excluded

end

/-! ## Answers -/

/-- The answers to what the rendering of a text calls for. The only texts among them are descriptions
of entries that are being rolled, which are read at home. -/
def describing (answer : Answer) : Answer
  | _, .pattern text collectionId => do
    match (← get).frames.head? with
    | some frame => answer (.pattern text (frame.homeOf env.registry text collectionId))
    | none => answer (.pattern text collectionId)
  | _, .roll target excluded => answer (.roll target excluded)
  | _, .shared owner collectionId d => answer (.shared owner collectionId d)

end

/-- The answers to calls, with at most `fuel` calls open inside each other, where entries are
evaluated at home. -/
def answerAtHome (env : Surroundings) : Nat → {α : Type} → Call α → Eval α
  | 0, _, _ => throw .outOfFuel
  | fuel + 1, _, .pattern text collectionId =>
    evalPattern env (describing env (answerAtHome env fuel)) text collectionId
  | fuel + 1, _, .roll target excluded =>
    rollWith env (answerAtHome env fuel) (outcomeAtHome env (answerAtHome env fuel)) target excluded
  | fuel + 1, _, .shared owner collectionId d =>
    evalShared env (answerAtHome env fuel) owner collectionId d

end Eval

/-! ## Texts that mean the same at home -/

namespace Registry

/-- Every text of a resolved table means the same at home as in the collection of the table. -/
structure Familiar (r : Registry) (collectionId : String) (t : SimpleTable) : Prop where
  value : ∀ e ∈ t.entries,
    r.Portable (r.homesOf collectionId t.id e).value collectionId (e.value.getD "")
  description : ∀ e ∈ t.entries,
    r.Portable (r.homesOf collectionId t.id e).description collectionId (e.description.getD "")
  set : ∀ e ∈ t.entries, ∀ set ∈ Assoc.putAll (t.defaultSets.getD []) e.sets,
    r.Portable ((r.homesOf collectionId t.id e).set set.1) collectionId set.2

/-- A table is what inheritance makes of one that the collection holds. -/
def Makes (r : Registry) (collectionId : String) (t : SimpleTable) : Prop :=
  ∃ held, r.Holds collectionId held ∧ r.Inherits collectionId held t

/-- Every text that a table inherits means the same at home as in the collection of the table. -/
def Domestic (r : Registry) : Prop :=
  ∀ collectionId t, r.Makes collectionId t → r.Familiar collectionId t

variable {r : Registry} {collectionId : String} {t : SimpleTable}

theorem Makes.unique (hr : r.Distinct) {t' : SimpleTable} (h : r.Makes collectionId t)
    (h' : r.Makes collectionId t') (hid : t'.id = t.id) : t = t' := by
  obtain ⟨held, hheld, hinherits⟩ := h
  obtain ⟨held', hheld', hinherits'⟩ := h'
  obtain rfl := hheld.unique hr hheld' (by rw [← hinherits'.id_eq, hid, hinherits.id_eq])
  exact hinherits.unique hinherits'

theorem exists_of_homeAlong {gives declares : SimpleTable → Bool}
    {line : List (String × SimpleTable)} {home : String}
    (h : homeAlong gives declares line = some home) : ∃ p ∈ line, p.1 = home := by
  induction line with
  | nil => cases h
  | cons p rest ih =>
      rw [homeAlong] at h
      split at h
      · exact ⟨p, List.mem_cons_self, Option.some.inj h⟩
      · rcases Option.or_eq_some_iff.1 h with h | ⟨-, h⟩
        · obtain ⟨q, hq, hhome⟩ := ih h
          exact ⟨q, List.mem_cons_of_mem _ hq, hhome⟩
        · split at h
          · exact ⟨p, List.mem_cons_self, Option.some.inj h⟩
          · cases h

section

variable {tableId : String} (h : ∀ p ∈ r.lineageOf collectionId tableId, p.1 = collectionId)
include h

theorem getD_homeAlong (gives declares : SimpleTable → Bool) :
    (homeAlong gives declares (r.lineageOf collectionId tableId)).getD collectionId =
      collectionId := by
  cases hhome : homeAlong gives declares (r.lineageOf collectionId tableId) with
  | none => rfl
  | some home =>
      obtain ⟨p, hp, rfl⟩ := exists_of_homeAlong hhome
      exact h p hp

/-- A table whose lineage stays in its collection has all texts at home there. -/
theorem homesOf_eq (e : Entry) :
    r.homesOf collectionId tableId e = ⟨collectionId, collectionId, fun _ => collectionId⟩ := by
  simp only [homesOf, fieldHome, presetHome, getD_homeAlong h, ite_self]

theorem familiar_of_lineage {t : SimpleTable} (hid : t.id = tableId) :
    r.Familiar collectionId t := by
  subst hid
  refine ⟨fun e _ => ?_, fun e _ => ?_, fun e _ set _ => ?_⟩ <;> rw [homesOf_eq h] <;>
    exact r.portable_self _ _

end

/-- So has a table that was made of one that extends no other one. -/
theorem familiar_of_own (hr : r.Distinct) {held : SimpleTable} (hheld : r.Holds collectionId held)
    (hnone : (held.parent.getD "").isEmpty = true) (hid : t.id = held.id) :
    r.Familiar collectionId t := by
  refine familiar_of_lineage ?_ hid
  rw [lineageOf_eq hr hheld (.own hnone)]
  exact List.forall_mem_singleton.2 rfl

end Registry

section

variable {r : Registry} (hr : r.Distinct) (hdomestic : r.Domestic)
include hr hdomestic

/-- The text that a frame asks for means the same at home. -/
theorem Frame.portable_homeOf {f : Frame} {tables : ResolvedTables}
    (hf : r.Known tables f.collectionId f.table) (text collectionId : String) :
    r.Portable (f.homeOf r text collectionId) collectionId text := by
  unfold homeOf
  split
  · rename_i e hentry
    split
    · rename_i hsame
      obtain ⟨htext, rfl⟩ := hsame
      unfold entry? at hentry
      split at hentry
      · rename_i hnone
        have hmem : e ∈ f.table.entries := List.mem_of_find?_eq_some hentry
        have hfamiliar : r.Familiar f.collectionId f.table := by
          rcases hf with hheld | ⟨held, hmade⟩
          · exact Registry.familiar_of_own hr hheld hnone rfl
          · exact hdomestic _ _ ⟨held, hmade.holds, hmade.inherits⟩
        exact htext ▸ hfamiliar.description e hmem
      · cases hentry
    · exact r.portable_self _ text
  · exact r.portable_self _ text

end

namespace Eval

variable {env : Surroundings} {answer : Answer}

/-- Answers that are the same wherever a text means the same. -/
def Travels (env : Surroundings) (answer : Answer) : Prop :=
  ∀ text here there, env.registry.Portable here there text →
    answer (.pattern text there) = answer (.pattern text here)

theorem travels_answerAtHome (fuel : Nat) : Travels env (answerAtHome env fuel) := by
  intro text here there h
  cases fuel with
  | zero => rfl
  | succ fuel => exact evalPattern_same h

theorem describing_apply (htravels : Travels env answer) (hr : env.registry.Distinct)
    (hdomestic : env.registry.Domestic) {c : Context}
    (hc : ∀ f ∈ c.frames, env.registry.Known c.resolved f.collectionId f.table)
    (text collectionId : String) :
    describing env answer (.pattern text collectionId) c = answer (.pattern text collectionId) c := by
  simp only [describing, Computation.get_bind_apply]
  cases hhead : c.frames.head? with
  | none => rfl
  | some frame =>
      have hknown := hc frame (List.mem_of_mem_head? hhead)
      exact (congrFun (htravels text _ _ (frame.portable_homeOf hr hdomestic hknown text collectionId))
        c).symm

/-! ## Entries -/

theorem renderSetsIn_eq (htravels : Travels env answer) {homes : String → String}
    (collectionId tableId : String) {sets : List (String × String)}
    (h : ∀ set ∈ sets, env.registry.Portable (homes set.1) collectionId set.2) :
    renderSetsIn env answer homes collectionId tableId sets =
      renderSets env answer collectionId tableId sets := by
  induction sets with
  | nil => rfl
  | cons set rest ih =>
      obtain ⟨key, pattern⟩ := set
      rw [List.forall_mem_cons] at h
      have hset := renderSet_same h.1 (htravels pattern _ _ h.1)
      rw [renderSetsIn, renderSets, ih h.2, hset]

/-- An entry whose texts mean the same at home has the same outcome at home. -/
theorem outcomeAtHome_eq (htravels : Travels env answer) {s : Selection} {table : SimpleTable}
    (hfamiliar : env.registry.Familiar s.collectionId table) (hs : s.entry ∈ table.entries) :
    outcomeAtHome env answer s table = outcomeOf env answer s table := by
  have hvalue := htravels _ _ _ (hfamiliar.value _ hs)
  have hdescription := htravels _ _ _ (hfamiliar.description _ hs)
  have hsets := renderSetsIn_eq htravels s.collectionId table.id (hfamiliar.set _ hs)
  unfold outcomeAtHome outcomeIn outcomeOf evalDescription
  simp only [hsets, hvalue, hdescription]

/-! ## Rolls -/

theorem rollWith_outcomeOf (target : Target) (excluded : List String) :
    rollWith env answer (outcomeOf env answer) target excluded = roll env answer target excluded := by
  obtain ⟨definition, collectionId⟩ := target
  cases definition with
  | template t => rfl
  | table t => cases t <;> rfl

/-- A resolution that gives something was one that keeps to what is stated. -/
theorem made_of_resolving {I K : ResolvedTables → Prop} {α : Type} {P : ResolvedTables → α → Prop}
    {x : Resolve α} (hx : Resolve.Keeps I K P x) {c c' : Context} {a : α} (hc : I c.resolved)
    (hk : K c.resolved) (h : resolving x c = (.ok a, c')) : P c'.resolved a := by
  obtain ⟨hresult, hcontext⟩ := Prod.mk.inj h
  obtain ⟨-, -, hvalue⟩ := hx ⟨c.resolved, []⟩ hc hk
  change (x ⟨c.resolved, []⟩).1 = .ok a at hresult
  rw [hresult] at hvalue
  rw [← hcontext]
  exact hvalue

theorem drawn_of_draw {S : Simulation} {α : Type} {P : α → Prop} {d : Draw α} (hd : S.Draws P d)
    {c c' : Context} {a : α} (h : draw d c = (.ok a, c')) : P a :=
  (hd c.source).value a (Prod.mk.inj h).1

theorem bracket_congr {α : Type} {x y : Eval α} {opened : Context}
    (close : Except Failure α → Context → Context) (c : Context) (h : x opened = y opened) :
    bracket opened close x c = bracket opened close y c :=
  congrArg (fun run : Except Failure α × Context => (run.1, close run.1 run.2)) h

theorem traced_congr {α : Type} {step : TraceStep} {body body' : Option Nat → Eval α} {c : Context}
    (h : ∀ node trace, body' node { c with trace } = body node { c with trace }) :
    traced step body' c = traced step body c :=
  congrArg (Simulation.closing (c.trace.enter step).1) (h _ (c.trace.enter step).2)

/-- What is done one level deeper is the same if it is in all contexts that remember the same
tables. -/
theorem atLevel_congr {α : Type} {id owner : String} {step : TraceStep}
    {shared : Option (Assoc String)} {collectionId : String} {body body' : Option Nat → Eval α}
    {c : Context} (h : ∀ node c', c'.resolved = c.resolved → body' node c' = body node c') :
    atLevel env id owner step shared collectionId body' c =
      atLevel env id owner step shared collectionId body c := by
  have hscope : ∀ node c', c'.resolved = c.resolved →
      inScope (owner ++ " '" ++ id ++ "'") shared collectionId (body' node) c' =
        inScope (owner ++ " '" ++ id ++ "'") shared collectionId (body node) c' := by
    intro node c' hsame
    simp only [inScope, Computation.get_bind_apply]
    cases c'.shared.enter (owner ++ " '" ++ id ++ "'") (shared.getD []) collectionId with
    | error e => rfl
    | ok entered =>
        cases entered with
        | none => exact h node c' hsame
        | some entered =>
            obtain ⟨level, store⟩ := entered
            exact bracket_congr (fun _ c => { c with shared := c.shared.leave }) c'
              (h node { c' with shared := store } hsame)
  simp only [atLevel, descending, Computation.get_bind_apply, Context.enterLevel]
  by_cases hdepth : env.config.maxRecursionDepth < c.depth + 1
  · rw [if_pos hdepth]
  · rw [if_neg hdepth]
    exact bracket_congr _ _ (traced_congr fun node trace => hscope node _ rfl)

section

variable (hr : env.registry.Distinct) {realize realize' : Selection → SimpleTable → Eval Outcome}
  (hrealize : ∀ t s, env.registry.Makes s.collectionId t → s.entry ∈ t.entries →
    realize' s t = realize s t)
  {c : Context} (hc : env.registry.Remembers c.resolved)
include hr hrealize hc

theorem rollFromEntriesWith_congr {t : SimpleTable} {collectionId : String}
    (ht : env.registry.Known c.resolved collectionId t) (excluded : List String) :
    rollFromEntriesWith env realize' t collectionId excluded c =
      rollFromEntriesWith env realize t collectionId excluded c := by
  unfold rollFromEntriesWith
  rw [Computation.bind_apply, Computation.bind_apply]
  rcases hrun : resolving (env.registry.inherit env.base t collectionId) c with ⟨e | table, c'⟩
  · rfl
  · obtain ⟨held, -, hmade⟩ := made_of_resolving
      (Registry.inherit_keeps (Registry.tracks_inherits hr) t collectionId) hc ht hrun
    dsimp only
    rw [Computation.bind_apply, Computation.bind_apply]
    rcases hdraw : draw (table.draw collectionId excluded) c' with ⟨e | s, c''⟩
    · rfl
    · have hfrom := drawn_of_draw (Simulation.Draws.simple
        (Simulation.levelled_anywhere env .same).lawful
        (Simulation.simple_anything table) collectionId excluded) hdraw
      obtain rfl : s.collectionId = collectionId := hfrom.collectionId
      exact congrFun (hrealize table s ⟨held, hmade.holds, hmade.inherits⟩ hfrom.entry) c''

theorem rollFromMembersWith_congr (t : CollectionTable) (collectionId : String)
    (excluded : List String) :
    rollFromMembersWith env realize' t collectionId excluded c =
      rollFromMembersWith env realize t collectionId excluded c := by
  unfold rollFromMembersWith
  rw [Computation.bind_apply, Computation.bind_apply]
  rcases hrun : resolving (env.registry.members env.base t collectionId t.members) c with
    ⟨e | members, c'⟩
  · rfl
  · have hmembers : ∀ m ∈ members, env.registry.Makes m.2 m.1 := by
      refine made_of_resolving (Registry.members_keeps (Registry.tracks_inherits hr) ?_ t
        collectionId t.members) hc trivial hrun
      exact fun ⟨held, _, hmade⟩ => ⟨held, hmade.holds, hmade.inherits⟩
    dsimp only
    rw [Computation.bind_apply, Computation.bind_apply]
    rcases note _ c' with ⟨e | u, c₁⟩
    · rfl
    · dsimp only
      rw [Computation.bind_apply, Computation.bind_apply]
      rcases hdraw : draw (drawPooled members t.id excluded) c₁ with ⟨e | s, c₂⟩
      · rfl
      · obtain ⟨m, hm, hfrom⟩ := drawn_of_draw (Simulation.Draws.pooled
          (Simulation.levelled_anywhere env .same).lawful
          (fun m _ => Simulation.simple_anything m.1) t.id excluded) hdraw
        dsimp only
        cases hfound : members.find? fun m => m.1.id = s.tableId && m.2 = s.collectionId with
        | none => rfl
        | some found =>
            obtain ⟨table, owner⟩ := found
            have hmeant := List.find?_some hfound
            simp only [Bool.and_eq_true, decide_eq_true_eq] at hmeant
            obtain ⟨hid, rfl⟩ := hmeant
            have htable := hmembers _ (List.mem_of_find?_eq_some hfound)
            have hsame : m.1 = table := by
              have hmade := hmembers m hm
              rw [← show s.collectionId = m.2 from hfrom.collectionId] at hmade
              exact hmade.unique hr htable (hid.trans hfrom.tableId)
            have hmem : s.entry ∈ table.entries := hsame ▸ hfrom.entry
            dsimp only
            rw [Computation.bind_apply, Computation.bind_apply, hrealize table s htable hmem]

theorem rollWith_congr {target : Target} (htarget : ∀ t, target.definition = .table (.simple t) →
      env.registry.Known c.resolved target.collectionId t) (excluded : List String) :
    rollWith env answer realize' target excluded c =
      rollWith env answer realize target excluded c := by
  obtain ⟨definition, collectionId⟩ := target
  cases definition with
  | template t => rfl
  | table t =>
      refine atLevel_congr fun node c' hsame => ?_
      rw [← hsame] at hc htarget
      have hroll : rollFromWith env answer realize' t collectionId excluded c' =
          rollFromWith env answer realize t collectionId excluded c' := by
        cases t with
        | simple t => exact rollFromEntriesWith_congr hr hrealize hc (htarget t rfl) excluded
        | composite t => rfl
        | collection t => exact rollFromMembersWith_congr hr hrealize hc t collectionId excluded
      rw [Computation.bind_apply, Computation.bind_apply, hroll]

end

end Eval

end RandomTables
