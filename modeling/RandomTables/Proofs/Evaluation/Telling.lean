-- SUMMARY: What the answer to a call records by itself: the description of an entry, at its end.
import RandomTables.Proofs.Evaluation.Asking
import RandomTables.Proofs.Evaluation.Entering

/-!
# Telling

The roll of a simple table or of a collection of tables draws an entry. If the entry has a
description, the roll records it when everything else of the roll is done. No other call records
anything by itself. So the answer to any call is a quiet evaluation, and then perhaps a record.
-/
namespace RandomTables

/-- The entry that a roll of a table draws, and the resolved table that it is evaluated for, where
some tables are resolved already. The roll of a composite table leaves the draw to a source. -/
inductive Table.Draws (env : Surroundings) (excluded : List String) (resolved : ResolvedTables)
    (source : Source) : Table → String → Selection → SimpleTable → Prop where
  | simple {t table : SimpleTable} {owner : String} {s : Selection}
    (inherits : (env.registry.inherit env.base t owner ⟨resolved, []⟩).1 = .ok table)
    (drawn : (table.draw owner excluded source).1 = .ok s) :
    Draws env excluded resolved source (.simple t) owner s table
  | collection {t : CollectionTable} {owner : String} {members : List (SimpleTable × String)}
    {m : SimpleTable × String} {s : Selection}
    (inherits : (env.registry.members env.base t owner t.members ⟨resolved, []⟩).1 = .ok members)
    (drawn : (drawPooled members t.id excluded source).1 = .ok s)
    (first : (members.find? fun m => m.1.id = s.tableId && m.2 = s.collectionId) = some m) :
    Draws env excluded resolved source (.collection t) owner s m.1

namespace Table.Draws

/-- A roll draws one entry. -/
theorem unique {env : Surroundings} {excluded : List String}
    {resolved : ResolvedTables} {source : Source} {t : Table} {owner : String} {s s' : Selection}
    {table table' : SimpleTable} (h : t.Draws env excluded resolved source owner s table)
    (h' : t.Draws env excluded resolved source owner s' table') : s' = s ∧ table' = table := by
  cases h with
  | simple inherits drawn =>
      cases h' with
      | simple inherits' drawn' =>
          cases inherits.symm.trans inherits'
          cases drawn.symm.trans drawn'
          exact ⟨rfl, rfl⟩
  | collection inherits drawn first =>
      cases h' with
      | collection inherits' drawn' first' =>
          cases inherits.symm.trans inherits'
          cases drawn.symm.trans drawn'
          cases first.symm.trans first'
          exact ⟨rfl, rfl⟩

/-- What holds of some entry that a roll draws holds of the one that it draws. -/
theorem exists_iff {env : Surroundings} {excluded : List String} {resolved : ResolvedTables}
    {source : Source} {t : Table} {owner : String} {s : Selection} {table : SimpleTable}
    (h : t.Draws env excluded resolved source owner s table)
    {P : Selection → SimpleTable → Prop} :
    (∃ s' table', t.Draws env excluded resolved source owner s' table' ∧ P s' table') ↔
      P s table := by
  constructor
  · rintro ⟨s', table', h', hP⟩
    obtain ⟨rfl, rfl⟩ := h.unique h'
    exact hP
  · exact fun hP => ⟨s, table, h, hP⟩

end Table.Draws

/-- The record of the description of an entry, after a roll of a table at a depth. -/
def Outcome.record (o : Outcome) (table : SimpleTable) (depth : Nat) : Description where
  tableName := shownName table.name table.id
  tableId := table.id
  rolledValue := o.text
  description := o.description.getD ""
  depth

/-- What is to be recorded of a call that gave a value: the description of the entry that a roll
drew, if the entry has one. -/
def Call.Tells (env : Surroundings) : {α : Type} → Call α → Context → α → Description → Prop
  | _, .roll ⟨.table t, owner⟩ excluded, c, o, r =>
    ∃ s table, t.Draws env excluded c.resolved c.source owner s table ∧
      s.entry.description.getD "" ≠ "" ∧ r = o.record table (c.depth + 1)
  | _, _, _, _, _ => False

/-- How many levels a call opens around all that it asks for. -/
def Call.levels {α : Type} : Call α → Nat
  | .roll _ _ => 1
  | _ => 0

namespace Eval

variable {α β : Type}

/-! ## Recording at the end -/

/-- Evaluates, and records what there is to tell if that gave a value. -/
def recording (x : Eval (α × Option Description)) : Eval α := fun c =>
  match x c with
  | (.ok (v, told), d) => (.ok v, { d with descriptions := d.descriptions ++ told.toList })
  | (.error f, d) => (.error f, d)

theorem recording_ok {x : Eval (α × Option Description)} {c d : Context} {v : α}
    {told : Option Description} (h : x c = (.ok (v, told), d)) :
    recording x c = (.ok v, { d with descriptions := d.descriptions ++ told.toList }) := by
  unfold recording
  rw [h]

theorem recording_error {x : Eval (α × Option Description)} {c d : Context} {f : Failure}
    (h : x c = (.error f, d)) : recording x c = (.error f, d) := by
  unfold recording
  rw [h]

/-- A record changes nothing else. -/
theorem recording_apply (x : Eval (α × Option Description)) (c : Context) :
    (recording x c).1 = (x c).1.map Prod.fst ∧
      (x c).2.descriptions <+: (recording x c).2.descriptions ∧
      (recording x c).2.depth = (x c).2.depth := by
  rcases hx : x c with ⟨e | ⟨v, told⟩, d⟩
  · rw [recording_error hx]
    exact ⟨rfl, List.prefix_rfl, rfl⟩
  · rw [recording_ok hx]
    exact ⟨rfl, List.prefix_append _ _, rfl⟩

theorem recording_bind (x : Eval β) (f : β → Eval (α × Option Description)) :
    recording (x >>= f) = x >>= fun v => recording (f v) := by
  funext c
  rw [recording, Computation.bind_apply, Computation.bind_apply]
  rcases x c with ⟨e | v, d⟩ <;> rfl

/-- Nothing to tell. -/
theorem recording_none (x : Eval α) : recording ((fun v => (v, none)) <$> x) = x := by
  funext c
  rw [recording, Computation.map_apply]
  rcases x c with ⟨e | v, d⟩
  · rfl
  · simp [Except.map]

/-- A remark in the trace can be made before what there is to tell is recorded. -/
theorem recording_remark (x : Eval (α × Option Description)) {f : α → Eval β}
    (hf : ∀ v, ∃ (w : β) (g : OpenTrace → OpenTrace), ∀ c : Context,
      f v c = (.ok w, { c with trace := g c.trace })) :
    recording (x >>= fun v => f v.1 >>= fun w => pure (w, v.2)) = recording x >>= f := by
  funext c
  rw [Computation.bind_apply]
  rcases hx : x c with ⟨e | ⟨v, told⟩, d⟩
  · rw [recording_error hx]
    exact recording_error (by rw [Computation.bind_apply, hx])
  · obtain ⟨w, g, hremark⟩ := hf v
    have hrun : (x >>= fun v => f v.1 >>= fun w => pure (w, v.2)) c =
        (.ok (w, told), { d with trace := g d.trace }) := by
      rw [Computation.bind_apply, hx]
      dsimp only
      rw [Computation.bind_apply, hremark]
      rfl
    rw [recording_ok hx, recording_ok hrun]
    dsimp only
    rw [hremark]

/-- Recording and closing can change places. -/
theorem recording_bracket {close : Except Failure (α × Option Description) → Context → Context}
    {close' : Except Failure α → Context → Context}
    (hok : ∀ v (told : Option Description) (d : Context),
      close' (.ok v) { d with descriptions := d.descriptions ++ told.toList } =
        { close (.ok (v, told)) d with
          descriptions := (close (.ok (v, told)) d).descriptions ++ told.toList })
    (herror : ∀ f, close' (.error f) = close (.error f)) (opened c : Context)
    (x : Eval (α × Option Description)) :
    recording (bracket opened close x) c = bracket opened close' (recording x) c := by
  have hbracket : bracket opened close x c = ((x opened).1, close (x opened).1 (x opened).2) := rfl
  have hbracket' : bracket opened close' (recording x) c =
      ((recording x opened).1, close' (recording x opened).1 (recording x opened).2) := rfl
  rw [hbracket']
  rcases hx : x opened with ⟨f | ⟨v, told⟩, d⟩
  · rw [hx] at hbracket
    rw [recording_error hbracket, recording_error hx, herror]
  · rw [hx] at hbracket
    rw [recording_ok hbracket, recording_ok hx, hok]

theorem recording_congr {x y : Eval (α × Option Description)} {c d : Context} (h : x c = y d) :
    recording x c = recording y d := by
  unfold recording
  rw [h]

section

variable (x : Eval (α × Option Description))

theorem recording_descending (limit : Nat) (label : String) :
    recording (descending limit label x) = descending limit label (recording x) := by
  funext c
  have happly := descending_apply limit label x c
  rw [descending_apply]
  split_ifs at happly ⊢
  · exact recording_error happly
  · exact (recording_congr happly).trans
      (recording_bracket (fun _ _ _ => rfl) (fun _ => rfl) _ c x)

theorem recording_inScope (owner : String) (declarations : Option (Assoc String))
    (collectionId : String) :
    recording (inScope owner declarations collectionId x) =
      inScope owner declarations collectionId (recording x) := by
  funext c
  have happly := inScope_apply owner declarations collectionId x c
  rw [inScope_apply]
  revert happly
  rcases c.shared.enter owner (declarations.getD []) collectionId with e | _ | entered <;>
    intro happly
  · exact recording_error happly
  · exact recording_congr happly
  · let close (_ : Except Failure (α × Option Description)) (c : Context) : Context :=
      { c with shared := c.shared.leave }
    refine (recording_congr (y := bracket { c with shared := entered.2 } close x) happly).trans ?_
    exact recording_bracket (fun _ _ _ => rfl) (fun _ => rfl) _ c x

end

theorem recording_traced (step : TraceStep) (f : Option Nat → Eval (α × Option Description)) :
    recording (traced step f) = traced step fun node => recording (f node) := by
  funext c
  rw [traced_apply]
  refine (recording_congr (traced_apply step f c)).trans ?_
  exact recording_bracket (fun _ _ _ => rfl) (fun f => by cases f <;> rfl) _ c _

theorem recording_atLevel (env : Surroundings) (id owner : String) (step : TraceStep)
    (shared : Option (Assoc String)) (collectionId : String)
    (body : Option Nat → Eval (α × Option Description)) :
    recording (atLevel env id owner step shared collectionId body) =
      atLevel env id owner step shared collectionId fun node => recording (body node) := by
  rw [atLevel, recording_descending, recording_traced]
  simp only [recording_inScope]
  rfl

/-! ## Drawn entries -/

section

variable (env : Surroundings)

/-- The outcome of a drawn entry, and what is to be recorded of it. -/
def tellEntry (answer : Answer) (s : Selection) (table : SimpleTable) :
    Eval (Outcome × Option Description) := do
  let (sets, text) ← evalEntry env answer s table
  let pattern := s.entry.description.getD ""
  if pattern.isEmpty then return (entryOutcome s table sets text none, none)
  else
    let description ← answer (.pattern pattern s.collectionId)
    let depth := (← get).depth
    let outcome := entryOutcome s table sets text (some description)
    return (outcome, some (outcome.record table depth))

theorem recording_tellEntry (answer : Answer) (s : Selection) (table : SimpleTable) :
    recording (tellEntry env answer s table) = outcomeOf env answer s table := by
  rw [tellEntry, recording_bind, outcomeOf_eq]
  refine bind_congr fun settled => ?_
  simp only [evalDescription]
  by_cases h : (s.entry.description.getD "").isEmpty = true
  · simp only [if_pos h, pure_bind]
    exact recording_none (pure _)
  · simp only [if_neg h, recording_bind, bind_assoc]
    rfl

theorem quiet_tellEntry (s : Selection) (table : SimpleTable) :
    Quiet fun a => tellEntry env a s table := by
  refine .bind (.of_lockstep (.evalEntry env s table)) fun settled => ?_
  by_cases h : (s.entry.description.getD "").isEmpty = true
  · simp only [if_pos h]
    exact .pure _
  · simp only [if_neg h]
    exact .bind (.call _) fun description => .get_bind fun c => .pure _

variable {env} {a : Answer} {c : Context} {o : Outcome} {told : Option Description}

/-- What is to be recorded of an entry is its description, if it has one. -/
theorem told_of_tellEntry {s : Selection} {table : SimpleTable} (ha : a.Tidy)
    (h : (tellEntry env a s table c).1 = .ok (o, told)) (r : Description) :
    told = some r ↔ s.entry.description.getD "" ≠ "" ∧ r = o.record table c.depth := by
  obtain ⟨⟨sets, text⟩, d, hsettled, hrest⟩ := Computation.bind_eq_ok (Prod.ext h rfl)
  have hdepth : d.depth = c.depth := by
    have hquiet : Quiet fun a => evalEntry env a s table :=
      .of_lockstep (.evalEntry env s table)
    have hkept := (hquiet.tidy ha c).2
    rwa [hsettled] at hkept
  dsimp only at hrest
  split_ifs at hrest with hempty
  · cases hrest
    simp [String.isEmpty_iff.1 hempty]
  · obtain ⟨description, d', hcall, hrest⟩ := Computation.bind_eq_ok hrest
    have hlevel := ha.level (.pattern (s.entry.description.getD "") s.collectionId) d
    rw [hcall] at hlevel
    have hnonempty : s.entry.description.getD "" ≠ "" := fun h =>
      hempty (String.isEmpty_iff.2 h)
    rw [Computation.get_bind_apply, show d'.depth = c.depth from hlevel.trans hdepth] at hrest
    cases hrest
    rw [Option.some_inj]
    exact ⟨fun h => ⟨hnonempty, h.symm⟩, fun h => h.2.symm⟩

/-! ## Rolls -/

variable (env) in
/-- What a roll of a simple table does inside its level, but for the record. -/
def tellSimple (answer : Answer) (t : SimpleTable) (owner : String) (excluded : List String) :
    Eval (Outcome × Option Description) := do
  let table ← resolving (env.registry.inherit env.base t owner)
  let s ← draw (table.draw owner excluded)
  tellEntry env answer s table

variable (env) in
/-- What a roll of a collection of tables does inside its level, but for the record. -/
def tellCollection (answer : Answer) (t : CollectionTable) (owner : String)
    (excluded : List String) : Eval (Outcome × Option Description) := do
  let members ← resolving (env.registry.members env.base t owner t.members)
  note { kind := .collectionMerge, label := "Merge: " ++ String.intercalate ", " t.members
         raw := t.id, value := .int members.length
         metadata := [("members", Json.ofList (members.map fun (m, _) => m.id)),
          ("poolSize", .int (Number.sumOf (fun (m, _) => m.entries.length) members))] }
  let s ← draw (drawPooled members t.id excluded)
  match members.find? fun (m, owner) => m.id = s.tableId && owner = s.collectionId with
  | some (table, _) =>
    let told ← tellEntry env answer s table
    return (Outcome.typed told.1 t.resultType, told.2)
  | none => throw (.selection (.noPooledEntries t.id))

/-- What a roll of a table does inside its level is a quiet evaluation that says what there is to
tell of the drawn entry, and a record of that. -/
structure TellsRoll (env : Surroundings) (t : Table) (owner : String) (excluded : List String)
    (z : Answer → Eval (Outcome × Option Description)) : Prop where
  quiet : Quiet z
  rolls : ∀ a : Answer, rollFrom env a t owner excluded = recording (z a)
  tells : ∀ a : Answer, a.Tidy → ∀ c o told, (z a c).1 = .ok (o, told) → ∀ r, told = some r ↔
    ∃ s table, t.Draws env excluded c.resolved c.source owner s table ∧
      s.entry.description.getD "" ≠ "" ∧ r = o.record table c.depth

namespace TellsRoll

variable (env) (owner : String) (excluded : List String)

theorem simple (t : SimpleTable) :
    TellsRoll env (.simple t) owner excluded fun a => tellSimple env a t owner excluded where
  quiet := by
    refine .bind (.silent (fun _ => rfl) fun _ => rfl) fun table => ?_
    exact .bind (.silent (fun _ => rfl) fun _ => rfl) fun s => quiet_tellEntry env s table
  rolls a := by
    simp only [tellSimple, recording_bind, recording_tellEntry]
    rfl
  tells a ha c o told h r := by
    obtain ⟨table, d, hresolving, hrest⟩ := Computation.bind_eq_ok (Prod.ext h rfl)
    obtain ⟨s, d', hdraw, htell⟩ := Computation.bind_eq_ok hrest
    have hdepth : d'.depth = c.depth :=
      (congrArg (·.2.depth) hdraw).symm.trans (congrArg (·.2.depth) hresolving).symm
    obtain ⟨tables, hinherit, hresolved, hsource⟩ := resolving_eq_ok hresolving
    have hdrawn := (draw_eq_ok hdraw).1
    rw [hsource] at hdrawn
    -- the table was resolved and the entry drawn as they are from the context of the roll
    have hdraws : Table.Draws env excluded c.resolved c.source (.simple t) owner s table :=
      .simple (congrArg Prod.fst hinherit) hdrawn
    rw [told_of_tellEntry ha (congrArg Prod.fst htell) r, hdepth, hdraws.exists_iff]

theorem collection (t : CollectionTable) :
    TellsRoll env (.collection t) owner excluded fun a =>
      tellCollection env a t owner excluded where
  quiet := by
    refine .bind (.silent (fun _ => rfl) fun _ => rfl) fun members => ?_
    refine .bind (.silent (fun _ => rfl) fun _ => rfl) fun _ => ?_
    refine .bind (.silent (fun _ => rfl) fun _ => rfl) fun s => ?_
    dsimp only
    cases members.find? fun (m, owner) => m.id = s.tableId && owner = s.collectionId with
    | some found => exact .bind (quiet_tellEntry env s _) fun _ => .pure _
    | none => exact .throw _
  rolls a := by
    simp only [tellCollection, recording_bind]
    refine bind_congr fun members => bind_congr fun _ => bind_congr fun s => ?_
    cases members.find? fun (m, owner) => m.id = s.tableId && owner = s.collectionId with
    | some found =>
        dsimp only
        rw [← recording_tellEntry]
        exact (recording_remark (f := fun o => pure (Outcome.typed o t.resultType)) _
          fun o => ⟨_, id, fun _ => rfl⟩).symm
    | none => rfl
  tells a ha c o told h r := by
    obtain ⟨members, d, hresolving, hnoting⟩ := Computation.bind_eq_ok (Prod.ext h rfl)
    obtain ⟨_, d₁, hnote, hdrawing⟩ := Computation.bind_eq_ok hnoting
    obtain ⟨s, d₂, hdraw, hrest⟩ := Computation.bind_eq_ok hdrawing
    have hdepth : d₂.depth = c.depth :=
      (congrArg (·.2.depth) hdraw).symm.trans
        ((congrArg (·.2.depth) hnote).symm.trans (congrArg (·.2.depth) hresolving).symm)
    obtain ⟨tables, hmembers, hresolved, hsource⟩ := resolving_eq_ok hresolving
    -- the step that the merge leaves in the trace draws nothing
    have hnoted : d₁.source = d.source := (congrArg (·.2.source) hnote).symm
    have hdrawn := (draw_eq_ok hdraw).1
    rw [hnoted, hsource] at hdrawn
    dsimp only at hrest
    cases hfirst : members.find? fun (m, owner) => m.id = s.tableId && owner = s.collectionId with
    | none =>
        rw [hfirst] at hrest
        cases hrest
    | some found =>
        rw [hfirst] at hrest
        obtain ⟨⟨o', told'⟩, d₃, htell, hlast⟩ := Computation.bind_eq_ok hrest
        cases hlast
        have hdraws : Table.Draws env excluded c.resolved c.source (.collection t) owner s
            found.1 := .collection (congrArg Prod.fst hmembers) hdrawn hfirst
        rw [told_of_tellEntry ha (congrArg Prod.fst htell) r, hdepth, hdraws.exists_iff]
        rfl

/-- The roll of a composite table leaves the telling to the roll of a source. -/
theorem composite (t : CompositeTable) :
    TellsRoll env (.composite t) owner excluded fun a =>
      (fun o => (o, none)) <$> rollFromSources env a t owner excluded where
  quiet := by
    refine .map _ (.bind (.silent (fun _ => rfl) fun _ => rfl) fun drawn => ?_)
    refine .bind (.silent (fun _ => rfl) fun _ => rfl) fun _ => ?_
    exact .bind (.liftResolution _) fun target => .bind (.call _) fun _ => .pure _
  rolls _ := (recording_none _).symm
  tells a ha c o told h r := by
    dsimp only at h
    rw [Computation.map_apply] at h
    obtain ⟨o', -, hnone⟩ := Except.map_eq_ok h
    cases hnone
    simp only [reduceCtorEq, false_iff]
    rintro ⟨s, table, hdraws, -⟩
    cases hdraws

end TellsRoll

theorem exists_tellsRoll (env : Surroundings) (t : Table) (owner : String)
    (excluded : List String) : ∃ z, TellsRoll env t owner excluded z := by
  cases t with
  | simple t => exact ⟨_, .simple env owner excluded t⟩
  | collection t => exact ⟨_, .collection env owner excluded t⟩
  | composite t => exact ⟨_, .composite env owner excluded t⟩

end

end Eval

/-! ## Calls -/

/-- How a call is answered: by a quiet evaluation that says what there is to tell, and a record of
that. -/
structure Call.Telling (env : Surroundings) {α : Type} (call : Call α)
    (z : Answer → Eval (α × Option Description)) : Prop where
  quiet : Quiet z
  answers : ∀ a : Answer, Eval.answerOnce env a call = Eval.recording (z a)
  tells : ∀ a : Answer, a.Tidy → ∀ c v told, (z a c).1 = .ok (v, told) → ∀ r,
    told = some r ↔ call.Tells env c v r
  levels : ∀ a : Answer, a.Tidy → ∀ c q, Asks z a c q → c.depth + call.levels ≤ q.context.depth

namespace Call

variable {env : Surroundings} {α : Type}

/-- A call that records nothing by itself. -/
theorem telling_of_quiet {call : Call α} (hquiet : Quiet fun a => Eval.answerOnce env a call)
    (hnone : ∀ c v r, ¬ call.Tells env c v r)
    (hlevels : ∀ a : Answer, a.Tidy → ∀ c q, Asks (fun a => Eval.answerOnce env a call) a c q →
      c.depth + call.levels ≤ q.context.depth) : ∃ z, call.Telling env z := by
  refine ⟨fun a => (fun v => (v, none)) <$> Eval.answerOnce env a call, hquiet.map _,
    fun a => (Eval.recording_none _).symm, ?_, ?_⟩
  · intro a _ c v told h r
    dsimp only at h
    rw [Computation.map_apply] at h
    obtain ⟨_, -, hnothing⟩ := Except.map_eq_ok h
    cases hnothing
    simp only [reduceCtorEq, false_iff]
    exact hnone c v r
  · intro a ha c q h
    refine hlevels a ha c q fun hsame => h ?_
    dsimp only at hsame ⊢
    rw [Computation.map_apply, Computation.map_apply, hsame]

/-- The expansion of a template records nothing by itself. -/
theorem exists_telling_template (env : Surroundings) (t : Template) (owner : String)
    (excluded : List String) :
    ∃ z, (Call.roll ⟨.template t, owner⟩ excluded).Telling env z := by
  have hinside : ∀ node, Quiet fun a => (do
      let text ← a (.pattern t.pattern owner)
      Eval.setValue node (.str text)
      return { text, tableId := t.id, collectionId := owner, resultType := t.resultType } :
        Eval Outcome) := fun node =>
    .bind (.call _) fun text => .bind (.silent (fun _ => rfl) fun _ => rfl) fun _ => .pure _
  have hquiet : Quiet fun a => Eval.roll env a ⟨.template t, owner⟩ excluded :=
    .atLevel env _ _ _ _ _ hinside
  refine telling_of_quiet hquiet (fun _ _ _ h => h) fun a ha c q h => ?_
  exact Quiet.level_of_atLevel env hinside ha h

section

open Eval

/-- What the roll of a table does, but for the record. -/
def tellRoll (env : Surroundings) (t : Table) (owner : String)
    (z : Answer → Eval (Outcome × Option Description)) (a : Answer) :
    Eval (Outcome × Option Description) :=
  atLevel env t.header.id "table" (rollStep t owner) t.header.shared owner fun node =>
    z a >>= fun v => remark node v.1 >>= fun o => pure (o, v.2)

variable {t : Table} {owner : String} {excluded : List String}
  {z : Answer → Eval (Outcome × Option Description)}

theorem quiet_remarked (hz : TellsRoll env t owner excluded z) (node : Option Nat) :
    Quiet fun a => z a >>= fun v => remark node v.1 >>= fun o => pure (o, v.2) :=
  hz.quiet.bind fun _ => .bind (.silent (fun _ => rfl) fun _ => rfl) fun _ => .pure _

/-- The roll of a table records what there is to tell of the roll inside its level. -/
theorem telling_of_tellsRoll (hz : TellsRoll env t owner excluded z) :
    (Call.roll ⟨.table t, owner⟩ excluded).Telling env (tellRoll env t owner z) where
  quiet := .atLevel env _ _ _ _ _ (quiet_remarked hz)
  answers a := by
    have hremarked : ∀ node, recording (z a >>= fun v => remark node v.1 >>= fun o =>
        pure (o, v.2)) = rollFrom env a t owner excluded >>= remark node := by
      intro node
      rw [hz.rolls]
      exact recording_remark _ fun o => ⟨o, remark_apply node o⟩
    rw [tellRoll, recording_atLevel]
    simp only [hremarked]
    exact roll_table env a t owner excluded
  tells a ha c o told hok r := by
    obtain ⟨node, inner, hinner, hend⟩ := (Admits.of_atLevel hok).atLevel (rollStep t owner)
      fun node => z a >>= fun v => remark node v.1 >>= fun o => pure (o, v.2)
    obtain ⟨v, d, hrolled, hremark⟩ :=
      Computation.bind_eq_ok (Prod.ext (hend.result.symm.trans hok) rfl)
    obtain rfl : v = (o, told) := Except.ok.inj (congrArg Prod.fst hremark)
    rw [hz.tells a ha inner o told (congrArg Prod.fst hrolled) r, hinner.resolved, hinner.source,
      hinner.depth, Call.Tells]
  levels a ha c q hasks := Quiet.level_of_atLevel env (quiet_remarked hz) ha hasks

end

/-- Every call is answered by a quiet evaluation and perhaps a record. -/
theorem exists_telling (env : Surroundings) (call : Call α) : ∃ z, call.Telling env z := by
  cases call with
  | pattern text collectionId =>
      have hquiet : Quiet fun a => Eval.evalPattern env a text collectionId :=
        .of_lockstep (.evalPattern env collectionId text)
      exact telling_of_quiet hquiet (fun _ _ _ h => h) fun a ha c q h => (hquiet.reaches ha h).level
  | shared owner collectionId d =>
      have hquiet : Quiet fun a => Eval.evalShared env a owner collectionId d :=
        .of_lockstep (.evalShared env collectionId owner d)
      exact telling_of_quiet hquiet (fun _ _ _ h => h) fun a ha c q h => (hquiet.reaches ha h).level
  | roll target excluded =>
      obtain ⟨definition, owner⟩ := target
      cases definition with
      | template t => exact exists_telling_template env t owner excluded
      | table t =>
          obtain ⟨z, hz⟩ := Eval.exists_tellsRoll env t owner excluded
          exact ⟨_, telling_of_tellsRoll hz⟩

end Call

/-- Answers only add descriptions, and close the levels that they open. -/
theorem Eval.tidy_answerWithin (env : Surroundings) (fuel : Nat) :
    Answer.Tidy (answerWithin env fuel) := by
  induction fuel with
  | zero =>
      constructor <;> intro α call c <;> cases call
      all_goals first | exact List.prefix_rfl | rfl
  | succ fuel ih =>
      have hanswered : ∀ {α : Type} (call : Call α) (c : Context),
          c.descriptions <+: (answerWithin env (fuel + 1) call c).2.descriptions ∧
            (answerWithin env (fuel + 1) call c).2.depth = c.depth := by
        intro α call c
        obtain ⟨z, hz⟩ := call.exists_telling env
        obtain ⟨hkept, hlevel⟩ := hz.quiet.tidy ih c
        obtain ⟨-, hadded, hsame⟩ := recording_apply (z (answerWithin env fuel)) c
        rw [answerWithin_succ, hz.answers]
        exact ⟨hkept.trans hadded, hsame.trans hlevel⟩
      exact ⟨fun call c => (hanswered call c).1, fun call c => (hanswered call c).2⟩

end RandomTables
