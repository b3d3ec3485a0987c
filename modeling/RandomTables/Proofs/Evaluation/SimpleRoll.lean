-- SUMMARY: A roll of a simple table is a draw from it, and the evaluation of the entry that is drawn.
import RandomTables.Proofs.Evaluation.Balance
import RandomTables.Proofs.Evaluation.Recalling
import RandomTables.Proofs.Selection.Entries

/-!
# Rolls of simple tables

A roll opens a level and the scope of its table, resolves the table, draws from it and evaluates
what it drew. Whether the level and the scope can be opened is a matter of what is open before. So
where a roll succeeded, a later one with as much open ends as its draw does: with the failure of the
draw, or as the evaluation of the drawn entry.
-/
namespace RandomTables

/-- A block can be entered in a store if it can be entered in one with as much open. -/
theorem SharedStore.isOk_enter_of_blank {s s' : SharedStore} (h : s'.blank = s.blank)
    (owner collectionId : String) (block : Assoc String) :
    (s'.enter owner block collectionId).isOk = (s.enter owner block collectionId).isOk := by
  have hstatics := congrArg SharedStore.statics h
  change s'.statics = s.statics at hstatics
  have hdeclarations : s'.scopes.map (·.declarations) = s.scopes.map (·.declarations) := by
    have hscopes := congrArg (fun s : SharedStore => s.scopes.map (·.declarations)) h
    simpa [blank, Function.comp_def, SharedLevel.blank] using hscopes
  rw [enter_congr owner collectionId fun _ _ => sameName_of_declarations hdeclarations hstatics _]
  cases s.enter owner block collectionId <;> rfl

/-- An entry of plain text. -/
structure Entry.Plain (e : Entry) : Prop where
  value : Span.find (e.value.getD "").toList = []
  description : e.description.getD "" = ""
  sets : e.sets = []

namespace Eval

variable {env : Surroundings} {α : Type}

/-- Two ends with the same result, memory of tables and source. -/
structure SameEnd (x y : Except Failure α × Context) : Prop where
  result : x.1 = y.1
  resolved : x.2.resolved = y.2.resolved
  source : x.2.source = y.2.source

theorem SameEnd.trans {x y z : Except Failure α × Context} (h : SameEnd x y) (h' : SameEnd y z) :
    SameEnd x z :=
  ⟨h.result.trans h'.result, h.resolved.trans h'.resolved, h.source.trans h'.source⟩

/-- A state inside one more level, with nothing resolved or drawn since. -/
structure Deeper (c inner : Context) : Prop where
  resolved : inner.resolved = c.resolved
  source : inner.source = c.source
  depth : inner.depth = c.depth + 1

/-- A level that the limit allows is one around the scope. -/
theorem inScope_of_level {name owner collectionId : String} {shared : Option (Assoc String)}
    {c : Context} (h : c.depth + 1 ≤ env.config.maxRecursionDepth) (step : TraceStep)
    (body : Option Nat → Eval α) : ∃ node begun, Deeper c begun ∧ begun.shared = c.shared ∧
      SameEnd (atLevel env name owner step shared collectionId body c)
        (inScope (owner ++ " '" ++ name ++ "'") shared collectionId (body node) begun) := by
  let opened : Context := { c with depth := c.depth + 1, chain := name :: c.chain }
  have hopened : c.enterLevel env.config.maxRecursionDepth name = .ok opened :=
    if_neg (Nat.not_lt.2 h)
  refine ⟨(opened.trace.enter step).1, { opened with trace := (opened.trace.enter step).2 },
    ⟨rfl, rfl, rfl⟩, rfl, ?_⟩
  rw [atLevel, descending, Computation.get_bind_apply, hopened]
  exact ⟨rfl, rfl, rfl⟩

/-- The level and the scope of a table can be opened. -/
structure Admits (env : Surroundings) (name owner : String) (shared : Option (Assoc String))
    (collectionId : String) (c : Context) : Prop where
  level : c.depth + 1 ≤ env.config.maxRecursionDepth
  scope : (c.shared.enter (owner ++ " '" ++ name ++ "'") (shared.getD []) collectionId).isOk = true

namespace Admits

variable {name owner collectionId : String} {shared : Option (Assoc String)} {c c' : Context}

theorem of_nesting (h : Admits env name owner shared collectionId c) (hc : c'.nesting = c.nesting) :
    Admits env name owner shared collectionId c' := by
  have hdepth : c'.depth = c.depth := congrArg (·.depth) hc
  have hshared : c'.shared.blank = c.shared.blank := congrArg (·.shared) hc
  exact ⟨hdepth ▸ h.level, (SharedStore.isOk_enter_of_blank hshared _ _ _).trans h.scope⟩

/-- What is evaluated inside a level ends as it does there. -/
theorem atLevel (h : Admits env name owner shared collectionId c) (step : TraceStep)
    (body : Option Nat → Eval α) : ∃ node inner, Deeper c inner ∧
      SameEnd (Eval.atLevel env name owner step shared collectionId body c) (body node inner) := by
  obtain ⟨node, begun, hbegun, hstore, hrun⟩ := inScope_of_level h.level step body
  have hscope := h.scope
  cases hentered : c.shared.enter (owner ++ " '" ++ name ++ "'") (shared.getD []) collectionId with
  | error e =>
      rw [hentered] at hscope
      cases hscope
  | ok entered =>
      rw [inScope, Computation.get_bind_apply, hstore, hentered] at hrun
      cases entered with
      | none => exact ⟨node, begun, hbegun, hrun⟩
      | some entered =>
          exact ⟨node, { begun with shared := entered.2 },
            ⟨hbegun.resolved, hbegun.source, hbegun.depth⟩, hrun.trans ⟨rfl, rfl, rfl⟩⟩

theorem of_atLevel {step : TraceStep} {body : Option Nat → Eval α} {a : α}
    (h : (Eval.atLevel env name owner step shared collectionId body c).1 = .ok a) :
    Admits env name owner shared collectionId c := by
  by_cases hlevel : c.depth + 1 ≤ env.config.maxRecursionDepth
  · obtain ⟨node, begun, -, hstore, hrun⟩ := inScope_of_level hlevel step body
    rw [hrun.result, inScope, Computation.get_bind_apply, hstore] at h
    refine ⟨hlevel, ?_⟩
    cases hentered : c.shared.enter (owner ++ " '" ++ name ++ "'") (shared.getD [])
      collectionId with
    | error e =>
        rw [hentered] at h
        cases h
    | ok entered => rfl
  · have hrefused : c.enterLevel env.config.maxRecursionDepth name =
        .error ⟨.recursion, env.config.maxRecursionDepth, (name :: c.chain).reverse⟩ :=
      if_pos (Nat.lt_of_not_le hlevel)
    rw [Eval.atLevel, descending, Computation.get_bind_apply, hrefused] at h
    cases h

end Admits

/-! ## Drawing -/

variable {answer : Answer} {t table : SimpleTable} {owner : String} {used : List String}
  {c : Context} {tables : Resolving} {source : Source}

/-- The step of the roll of a table in the trace. -/
def rollStep (t : Table) (owner : String) : TraceStep where
  kind := .tableRoll
  label := "Roll: " ++ shownName t.header.name t.header.id
  raw := t.header.id
  parsed := [("tableType", .str t.sort), ("collectionId", .str owner)]

/-- What the roll of a table tells the trace of its outcome. -/
def remark (node : Option Nat) (o : Outcome) : Eval Outcome := do
  setValue node (.str o.text)
  annotate node [("entryId", Json.ofOption o.entryId), ("resultType", Json.ofOption o.resultType)]
  return o

theorem remark_apply (node : Option Nat) (o : Outcome) : ∃ tell : OpenTrace → OpenTrace, ∀ c,
    remark node o c = (.ok o, { c with trace := tell c.trace }) :=
  ⟨fun trace => (trace.setValue node (.str o.text)).annotate node
      [("entryId", Json.ofOption o.entryId), ("resultType", Json.ofOption o.resultType)],
    fun _ => rfl⟩

/-- The roll of a table is a roll from what it holds, and a remark about it, inside a level. -/
theorem roll_table (env : Surroundings) (answer : Answer) (t : Table) (owner : String)
    (used : List String) :
    roll env answer ⟨.table t, owner⟩ used =
      atLevel env t.header.id "table" (rollStep t owner) t.header.shared owner fun node =>
        rollFrom env answer t owner used >>= remark node := rfl

theorem sameEnd_remark (x : Eval Outcome) (node : Option Nat) (c : Context) :
    SameEnd ((x >>= remark node) c) (x c) := by
  rw [Computation.bind_apply]
  rcases x c with ⟨e | o, c'⟩
  · exact ⟨rfl, rfl, rfl⟩
  · exact ⟨rfl, rfl, rfl⟩

/-- The roll of a table that can be opened ends as a roll from what it holds. -/
theorem sameEnd_roll {t : Table} (answer : Answer) (used : List String)
    (h : Admits env t.header.id "table" t.header.shared owner c) :
    ∃ inner, Deeper c inner ∧
      SameEnd (roll env answer ⟨.table t, owner⟩ used c) (rollFrom env answer t owner used inner) := by
  obtain ⟨node, inner, hinner, hrun⟩ := h.atLevel (rollStep t owner) fun node =>
    rollFrom env answer t owner used >>= remark node
  exact ⟨inner, hinner, hrun.trans (sameEnd_remark _ node inner)⟩

/-- A table that was rolled can be opened. -/
theorem admits_of_roll {t : Table} {o : Outcome}
    (h : (roll env answer ⟨.table t, owner⟩ used c).1 = .ok o) :
    Admits env t.header.id "table" t.header.shared owner c := .of_atLevel h

theorem rollFromEntries_apply
    (hinherit : env.registry.inherit env.base t owner ⟨c.resolved, []⟩ = (.ok table, tables)) :
    rollFromEntries env answer t owner used c =
      (draw (table.draw owner used) >>= fun s => outcomeOf env answer s table)
        { c with resolved := tables.tables, log := tables.log ++ c.log } := by
  rw [rollFromEntries, Computation.bind_apply]
  have hresolving : resolving (env.registry.inherit env.base t owner) c =
      (.ok table, { c with resolved := tables.tables, log := tables.log ++ c.log }) := by
    have hrun : (env.registry.inherit env.base t owner).run ⟨c.resolved, []⟩ = (.ok table, tables) :=
      hinherit
    rw [resolving, hrun]
  rw [hresolving]

/-- A roll whose draw gives an entry ends as the evaluation of the entry. -/
theorem roll_of_draw (answer : Answer) (h : Admits env t.id "table" t.shared owner c)
    (hinherit : env.registry.inherit env.base t owner ⟨c.resolved, []⟩ = (.ok table, tables))
    {s : Selection} (hdraw : table.draw owner used c.source = (.ok s, source)) :
    ∃ drawn, drawn.resolved = tables.tables ∧ drawn.source = source ∧
      SameEnd (roll env answer ⟨.table (.simple t), owner⟩ used c)
        (outcomeOf env answer s table drawn) := by
  obtain ⟨inner, hinner, hrun⟩ := sameEnd_roll (t := .simple t) answer used h
  rw [← hinner.resolved] at hinherit
  rw [← hinner.source] at hdraw
  refine ⟨{ inner with resolved := tables.tables, log := tables.log ++ inner.log, source }, rfl, rfl,
    hrun.trans ?_⟩
  have hdrawn : (table.draw owner used).run inner.source = (.ok s, source) := hdraw
  rw [rollFrom, rollFromEntries_apply hinherit, Computation.bind_apply, draw, hdrawn]
  exact ⟨rfl, rfl, rfl⟩

/-- A roll whose draw fails ends with its failure. -/
theorem roll_of_draw_error (answer : Answer)
    (h : Admits env t.id "table" t.shared owner c)
    (hinherit : env.registry.inherit env.base t owner ⟨c.resolved, []⟩ = (.ok table, tables))
    {f : Failure} (hdraw : table.draw owner used c.source = (.error f, source)) :
    ∃ drawn, drawn.resolved = tables.tables ∧ drawn.source = source ∧
      SameEnd (roll env answer ⟨.table (.simple t), owner⟩ used c) (.error f, drawn) := by
  obtain ⟨inner, hinner, hrun⟩ := sameEnd_roll (t := .simple t) answer used h
  rw [← hinner.resolved] at hinherit
  rw [← hinner.source] at hdraw
  refine ⟨{ inner with resolved := tables.tables, log := tables.log ++ inner.log, source }, rfl, rfl,
    hrun.trans ?_⟩
  have hdrawn : (table.draw owner used).run inner.source = (.error f, source) := hdraw
  rw [rollFrom, rollFromEntries_apply hinherit, Computation.bind_apply, draw, hdrawn]
  exact ⟨rfl, rfl, rfl⟩

/-- The outcome of an entry has its key and its id. -/
theorem key_of_outcomeOf {s : Selection} {o : Outcome}
    (h : (outcomeOf env answer s table c).1 = .ok o) :
    o.key = some s.key ∧ o.entryId = s.entry.id ∧ o.tableId = table.id ∧
      o.collectionId = s.collectionId := by
  obtain ⟨_, c₁, -, h⟩ := Computation.bind_eq_ok (Prod.ext h rfl)
  obtain ⟨⟨sets, text⟩, c₂, -, h⟩ := Computation.bind_eq_ok h
  dsimp only at h
  split at h
  · obtain ⟨_, c₃, -, h⟩ := Computation.bind_eq_ok h
    obtain ⟨description, c₄, -, h⟩ := Computation.bind_eq_ok h
    cases h
    exact ⟨rfl, rfl, rfl, rfl⟩
  · obtain ⟨description, c₄, -, h⟩ := Computation.bind_eq_ok h
    cases h
    exact ⟨rfl, rfl, rfl, rfl⟩

/-- A roll that has an outcome drew one of the entries that are left. -/
theorem drew_of_roll {o : Outcome}
    (h : (roll env answer ⟨.table (.simple t), owner⟩ used c).1 = .ok o) :
    ∃ table s, (env.registry.inherit env.base t owner ⟨c.resolved, []⟩).1 = .ok table ∧
      table.Drew owner used s ∧ o.key = some s.key ∧ o.entryId = s.entry.id := by
  obtain ⟨inner, hinner, hrun⟩ := sameEnd_roll answer used (admits_of_roll h)
  have hrolled : (rollFromEntries env answer t owner used inner).1 = .ok o :=
    hrun.result.symm.trans h
  rcases hinherit : env.registry.inherit env.base t owner ⟨c.resolved, []⟩ with ⟨f | table, tables⟩
  · obtain ⟨table, _, hresolving, -⟩ := Computation.bind_eq_ok (Prod.ext hrolled rfl)
    have hfound : (env.registry.inherit env.base t owner ⟨inner.resolved, []⟩).1 = .ok table :=
      congrArg Prod.fst hresolving
    rw [hinner.resolved, hinherit] at hfound
    cases hfound
  · rw [← hinner.resolved] at hinherit
    rw [rollFromEntries_apply hinherit] at hrolled
    obtain ⟨s, _, hdraw, houtcome⟩ := Computation.bind_eq_ok (Prod.ext hrolled rfl)
    obtain ⟨hkey, hid, -⟩ := key_of_outcomeOf (congrArg Prod.fst houtcome)
    have hdrawn : (table.draw owner used inner.source).1 = .ok s := congrArg Prod.fst hdraw
    exact ⟨table, s, rfl, SimpleTable.drew_of_draw hdrawn, hkey, hid⟩

/-! ## Plain entries -/

/-- A pattern without directives is its own text. -/
theorem evalPattern_of_plain {text : String} (h : Span.find text.toList = []) (answer : Answer)
    (collectionId : String) (c : Context) :
    evalPattern env answer text collectionId c = (.ok text, c) := by
  have hpieces : Piece.ofPattern text.toList = Piece.gap text.toList 0 text.toList.length := by
    rw [Piece.ofPattern, h, Piece.between]
  have hrendered : renderPattern env answer text collectionId c =
      (⟨if 0 < text.toList.length then [.ofLiteral text.toList 0] else [], none⟩, c) := by
    rw [renderPattern, hpieces, Piece.gap]
    split
    · simp [Text.slice]
      rfl
    · rfl
  have htext : Rendering.text
      ⟨if 0 < text.toList.length then [.ofLiteral text.toList 0] else [], none⟩ = .ok text := by
    split
    · simp [Rendering.text, Segment.join, Segment.ofLiteral]
    · rename_i hempty
      obtain rfl : text = "" := by simpa using hempty
      rfl
  change ((do
    let rendering ← renderPattern env answer text collectionId
    lift rendering.text : Eval String)) c = _
  rw [Computation.bind_apply]
  change (lift (renderPattern env answer text collectionId c).1.text : Eval String)
    (renderPattern env answer text collectionId c).2 = _
  rw [hrendered, htext]
  rfl

/-- An evaluation that never fails. -/
def Sure {α : Type} (x : Eval α) : Prop := ∀ c, ∃ a c', x c = (.ok a, c')

namespace Sure

variable {α β : Type} {x : Eval α}

theorem pure (a : α) : Sure (Pure.pure a) := fun c => ⟨a, c, rfl⟩

theorem modify (f : Context → Context) : Sure (modifyThe Context f : Eval Unit) :=
  fun c => ⟨(), f c, rfl⟩

theorem bind {f : α → Eval β} (hx : Sure x) (hf : ∀ a, Sure (f a)) : Sure (x >>= f) := by
  intro c
  obtain ⟨a, c', hrun⟩ := hx c
  rw [Computation.bind_apply, hrun]
  exact hf a c'

theorem withFrame (frame : Frame) (hx : Sure x) : Sure (Eval.withFrame frame x) := by
  intro c
  obtain ⟨a, c', hrun⟩ := hx { c with frames := frame :: c.frames }
  refine ⟨a, { c' with frames := c'.frames.drop 1 }, ?_⟩
  rw [Eval.withFrame, Computation.get_bind_apply, bracket]
  have hrun' : x.run { c with frames := frame :: c.frames } = (.ok a, c') := hrun
  rw [hrun']

end Sure

variable (env) in
/-- The evaluation of an entry of plain text never fails. -/
theorem sure_outcomeOf {s : Selection} (h : s.entry.Plain)
    (hdefaults : table.defaultSets.getD [] = []) (fuel : Nat) :
    Sure (outcomeOf env (answerWithin env (fuel + 1)) s table) := by
  have hsets : Assoc.putAll (table.defaultSets.getD []) s.entry.sets = [] := by
    rw [hdefaults, h.sets]
    rfl
  have htext : Sure (answerWithin env (fuel + 1) (.pattern (s.entry.value.getD "") s.collectionId)) :=
    fun c => ⟨_, c, evalPattern_of_plain h.value _ _ c⟩
  have hdescription : ∀ text, evalDescription (answerWithin env (fuel + 1)) table s text =
      Pure.pure none := by
    intro text
    rw [evalDescription, h.description]
    rfl
  unfold outcomeOf
  rw [hsets]
  refine .bind (.modify _) fun _ => .bind (.withFrame _ ?_) fun p => ?_
  · refine .bind (.pure []) fun sets => ?_
    split
    · exact .bind (.modify _) fun _ => .bind htext fun _ => .pure _
    · exact .bind htext fun _ => .pure _
  · dsimp only
    rw [hdescription]
    split
    · exact .bind (.modify _) fun _ => .pure _
    · exact .pure _

end Eval

end RandomTables
