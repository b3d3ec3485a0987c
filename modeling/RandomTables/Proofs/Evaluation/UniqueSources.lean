-- SUMMARY: Draws of unique entries from a composite table, and the rolls that end them early.
import RandomTables.Proofs.Engine.AtHome
import RandomTables.Proofs.Evaluation.UniqueEntries

/-!
# Unique entries of composite tables

A roll of a composite table passes from source to source until it comes to a simple table, and takes
an entry of that table. Which sources these are is drawn anew each time, whatever is excluded. So a
roll can come to a table that has nothing left while another one has, and this ends the draw as if
nothing was left at all. It is the only thing that does: where no roll goes astray like this, as
many entries are drawn as from a simple table that has all of them.
-/
namespace RandomTables

/-! ## Where a roll comes to -/

namespace CompositeTable

variable {t : CompositeTable} {source : Source}

theorem mem_of_draw {s : TableSource} {weight total : Weight}
    (h : (t.draw source).1 = .ok (s, weight, total)) : s ∈ t.sources := by
  unfold draw at h
  split at h
  · cases h
  · obtain ⟨item, source', hpick, hlast⟩ := Computation.bind_eq_ok (Prod.ext h rfl)
    cases hlast
    obtain ⟨s', hs', heq⟩ := List.mem_map.1 (Measure.mem_of_pick (congrArg Prod.fst hpick))
    obtain ⟨rfl, -⟩ := Prod.mk.inj heq
    exact hs'

/-- Where all weights are positive, a source is drawn. -/
theorem exists_draw (hsome : t.sources ≠ []) (hpositive : ∀ s ∈ t.sources, 0 < s.points.units)
    (source : Source) : ∃ s ∈ t.sources, ∃ weight total left,
      t.draw source = (.ok (s, weight, total), left) := by
  have hitems : ∀ item ∈ t.sources.map fun s => (s, s.points), 0 < item.2.units := by
    intro item hitem
    obtain ⟨s, hs, rfl⟩ := List.mem_map.1 hitem
    exact hpositive s hs
  obtain ⟨first, hfirst⟩ := List.exists_mem_of_ne_nil _ hsome
  have hpos : ∃ item ∈ t.sources.map fun s => (s, s.points), 0 < item.2.units :=
    ⟨_, List.mem_map_of_mem hfirst, hpositive first hfirst⟩
  obtain ⟨⟨s, weight⟩, hitem, -, hpick⟩ := Measure.pick_apply
    (fun item hitem => Int.le_of_lt (hitems item hitem)) hpos source
  obtain ⟨s', hs', heq⟩ := List.mem_map.1 hitem
  obtain ⟨rfl, -⟩ := Prod.mk.inj heq
  have hempty : ¬ t.sources.isEmpty = true := by simpa using hsome
  have hdraw : t.draw source = (.ok (s', weight,
      Measure.total ((t.sources.map fun s => (s, s.points)).map (·.2))), source.fraction.2) := by
    rw [draw, if_neg hempty]
    dsimp only
    rw [Computation.bind_apply, hpick]
    rfl
  exact ⟨s', hs', weight, _, _, hdraw⟩

theorem proper_draw (t : CompositeTable) (h : source.Proper) : (t.draw source).2.Proper := by
  let env : Surroundings := {
    registry := ⟨[]⟩, base := {}, config := {}, collectionId := "", statics := [] }
  have hlawful : (Hosting.alone env fun _ => True).Lawful :=
    Hosting.lawful_alone fun _ _ _ _ => ⟨trivial, fun _ _ => trivial⟩
  exact (Hosting.Draws.composite hlawful t source h).1

end CompositeTable

namespace Registry

/-- A roll of the first target may be passed on to the second one, from source to source. -/
inductive Passes (r : Registry) : Target → Target → Prop where
  | self (target : Target) : Passes r target target
  | source {t : CompositeTable} {id : String} {s : TableSource} {next target : Target}
    (hs : s ∈ t.sources) (hnext : r.resolve s.tableId id = .ok next) (h : Passes r next target) :
    Passes r ⟨.table (.composite t), id⟩ target

/-- The simple table that a roll comes to with a source of draws, its collection, and what is left
of the source. -/
inductive ComesTo (r : Registry) : Target → Source → SimpleTable → String → Source → Prop where
  | table (t : SimpleTable) (id : String) (source : Source) :
    ComesTo r ⟨.table (.simple t), id⟩ source t id source
  | source {t : CompositeTable} {id home : String} {s : TableSource} {weight total : Weight}
    {next : Target} {leaf : SimpleTable} {source drawn left : Source}
    (hdraw : t.draw source = (.ok (s, weight, total), drawn))
    (hnext : r.resolve s.tableId id = .ok next) (h : ComesTo r next drawn leaf home left) :
    ComesTo r ⟨.table (.composite t), id⟩ source leaf home left

variable {r : Registry} {target : Target} {leaf : SimpleTable} {home : String} {source left : Source}

theorem ComesTo.passes (h : r.ComesTo target source leaf home left) :
    r.Passes target ⟨.table (.simple leaf), home⟩ := by
  induction h with
  | table t id _ => exact .self _
  | source hdraw hnext _ ih =>
      exact .source (CompositeTable.mem_of_draw (congrArg Prod.fst hdraw)) hnext ih

theorem ComesTo.proper (h : r.ComesTo target source leaf home left) (hsource : source.Proper) :
    left.Proper := by
  induction h with
  | table _ _ _ => exact hsource
  | @source t _ _ _ _ _ _ _ _ _ _ hdraw _ _ ih =>
      have hdrawn := t.proper_draw hsource
      rw [hdraw] at hdrawn
      exact ih hdrawn

/-- The entries that can be drawn from some tables. -/
abbrev entriesOf (leaves : List (SimpleTable × String)) : List Entry :=
  leaves.flatMap fun p => p.1.selectables

/-- The simple tables to which a roll may be passed on, resolved and each with its collection. All
of them can be drawn from, and no two of their entries have the same id. -/
structure Leaves (r : Registry) (target : Target) (leaves : List (SimpleTable × String)) : Prop where
  sorts : ∀ next, r.Passes target next → (∃ t, next.definition = .table (.simple t)) ∨
    ∃ t, next.definition = .table (.composite t)
  mem_iff : ∀ table home, (table, home) ∈ leaves ↔ ∃ leaf,
    r.Passes target ⟨.table (.simple leaf), home⟩ ∧ r.Inherits home leaf table
  drawable : ∀ p ∈ leaves, p.1.Drawable ∧ p.1.selectables ≠ []
  distinct : ((entriesOf leaves).map (·.idText)).Nodup

theorem Leaves.idText_ne_empty {leaves : List (SimpleTable × String)} (h : r.Leaves target leaves)
    {e : Entry} (he : e ∈ entriesOf leaves) : e.idText ≠ "" := by
  obtain ⟨⟨table, home⟩, hleaf, he⟩ := List.mem_flatMap.1 he
  obtain ⟨leaf, -, hinherits⟩ := (h.mem_iff table home).1 hleaf
  exact hinherits.idText_ne_empty (SimpleTable.mem_selectables.1 he).1

end Registry

namespace Eval

open Registry (entriesOf)

variable {env : Surroundings} {answer : Answer} {fuel : Nat} {target : Target} {owner : String}
  {used : List String} {start c : Context} {o : Outcome}

/-- A roll from sources is one of the source that is drawn, but for the type of its result. -/
theorem rollFromSources_of_draw (answer : Answer) (used : List String) {t : CompositeTable}
    {s : TableSource} {weight total : Weight} {drawn : Source} {next : Target}
    (hdraw : t.draw c.source = (.ok (s, weight, total), drawn))
    (hnext : env.registry.resolve s.tableId owner = .ok next) :
    ∃ passing, passing.resolved = c.resolved ∧ passing.source = drawn ∧ passing.depth = c.depth ∧
      rollFromSources env answer t owner used c =
        ((fun o => Outcome.typed o t.resultType) <$> answer (.roll next used)) passing := by
  have hrun : t.draw.run c.source = (.ok (s, weight, total), drawn) := hdraw
  refine ⟨?_, ?_, ?_, ?_, ?_⟩
  rotate_right
  · rw [rollFromSources, Computation.bind_apply, Eval.draw, hrun]
    dsimp only
    rw [Computation.bind_apply, hnext, map_eq_pure_bind]
    rfl
  all_goals rfl

/-- Where a roll from sources has an outcome, a source was drawn and leads to a target. -/
theorem exists_draw_of_rollFromSources {t : CompositeTable}
    (h : (rollFromSources env answer t owner used c).1 = .ok o) :
    ∃ s weight total drawn next, t.draw c.source = (.ok (s, weight, total), drawn) ∧
      env.registry.resolve s.tableId owner = .ok next := by
  obtain ⟨⟨s, weight, total⟩, c₁, hdraw, h⟩ := Computation.bind_eq_ok (Prod.ext h rfl)
  obtain ⟨_, c₂, -, h⟩ := Computation.bind_eq_ok h
  obtain ⟨next, c₃, hnext, -⟩ := Computation.bind_eq_ok h
  rcases hpick : t.draw c.source with ⟨result, drawn⟩
  have hrun : t.draw.run c.source = (result, drawn) := hpick
  rw [Eval.draw, hrun] at hdraw
  cases hdraw
  cases hresolve : env.registry.resolve s.tableId owner with
  | error e =>
      rw [hresolve] at hnext
      cases hnext
  | ok target => exact ⟨s, weight, total, drawn, target, rfl, hresolve⟩

/-- A roll takes an entry that is left of a simple table to which it may be passed on. -/
theorem taken_of_roll (hr : env.registry.Distinct) {target : Target} {c : Context} {o : Outcome}
    (hsorts : ∀ next, env.registry.Passes target next →
      (∃ t, next.definition = .table (.simple t)) ∨ ∃ t, next.definition = .table (.composite t))
    (hheld : ∀ t, target.definition = .table (.simple t) → env.registry.Holds target.collectionId t)
    (hmemory : env.registry.Remembers c.resolved)
    (h : (answerWithin env fuel (.roll target used) c).1 = .ok o) :
    ∃ leaf home table e, env.registry.Passes target ⟨.table (.simple leaf), home⟩ ∧
      env.registry.Inherits home leaf table ∧ e ∈ table.selectables ∧ e.idText ∉ used ∧
      o.key = some e.idText ∧ o.entryId = e.id := by
  induction fuel generalizing target c o with
  | zero => cases h
  | succ fuel ih =>
      obtain ⟨definition, owner⟩ := target
      rcases hsorts _ (.self _) with ⟨t, rfl⟩ | ⟨t, rfl⟩
      · obtain ⟨table, s, hinherit, hdrew, hkey, hid⟩ := drew_of_roll h
        have hinherits := Registry.inherits_of_inherit hr (hheld t rfl) hmemory hinherit
        exact ⟨t, owner, table, s.entry, .self _, hinherits, hdrew.entry, hdrew.key ▸ hdrew.left,
          hdrew.key ▸ hkey, hid⟩
      · obtain ⟨inner, hinner, hrun⟩ :=
          sameEnd_roll (answerWithin env fuel) used (admits_of_roll h)
        have hrolled := hrun.result.symm.trans h
        obtain ⟨s, weight, total, drawn, next, hdraw, hnext⟩ := exists_draw_of_rollFromSources hrolled
        obtain ⟨passing, hpassing, -, -, hpassed⟩ :=
          rollFromSources_of_draw (answerWithin env fuel) used hdraw hnext
        rw [rollFrom, hpassed, map_eq_pure_bind] at hrolled
        obtain ⟨o', _, hroll, hend⟩ := Computation.bind_eq_ok (Prod.ext hrolled rfl)
        obtain rfl : Outcome.typed o' t.resultType = o := Except.ok.inj (congrArg Prod.fst hend)
        have hs := CompositeTable.mem_of_draw (congrArg Prod.fst hdraw)
        have hnextHeld : ∀ t, next.definition = .table (.simple t) →
            env.registry.Holds next.collectionId t := by
          obtain ⟨definition, home⟩ := next
          rintro t rfl
          exact Registry.holds_of_find (Registry.find_of_resolve hnext)
        rw [← hinner.resolved, ← hpassing] at hmemory
        obtain ⟨leaf, home, table, e, hpasses, htaken⟩ :=
          ih (fun other hother => hsorts other (.source hs hnext hother)) hnextHeld hmemory
            (congrArg Prod.fst hroll)
        exact ⟨leaf, home, table, e, .source hs hnext hpasses, htaken⟩

/-! ## What the rolls of a draw keep -/

/-- A faithful memory, and a source that is fit for draws. -/
structure Ready (env : Surroundings) (c : Context) : Prop where
  memory : env.registry.Remembers c.resolved
  frames : ∀ f ∈ c.frames, env.registry.Known c.resolved f.collectionId f.table
  proper : c.source.Proper

/-- A roll of a composite table keeps both. -/
theorem Ready.roll (hr : env.registry.Distinct) (t : CompositeTable) (owner : String) (fuel : Nat)
    (used : List String) (c : Context) (h : Ready env c) :
    Ready env (answerWithin env fuel (.roll ⟨.table (.composite t), owner⟩ used) c).2 := by
  have hlevelled := Simulation.levelled_faithful hr
  have htargets : (Simulation.faithful env).Targets c.nesting.frames
      ⟨.table (.composite t), owner⟩ ⟨.table (.composite t), owner⟩ :=
    .table (.composite (Simulation.block_anything _))
  have hmatch : (Simulation.faithful env).Match c.nesting c c :=
    hlevelled.contexts rfl rfl (Simulation.open_anything _) h.frames h.memory
  rcases (hlevelled.answers fuel).roll _ _ used ⟨trivial, Simulation.open_anything _⟩ htargets c c
    hmatch with ⟨_, _, hfails⟩ | ⟨-, -, hafter⟩
  · exact hfails.elim
  · obtain ⟨-, hmemory, hframes⟩ := Simulation.eq_of_faithful hr hafter
    exact ⟨hmemory, hframes, Hosting.proper_of_roll env fuel _ used h.proper⟩

/-! ## The rolls of a draw -/

/-- The rolls of a composite table. -/
abbrev passedRolls (env : Surroundings) (fuel : Nat) (t : CompositeTable) (owner : String)
    (used : List String) : Eval Outcome :=
  answerWithin env fuel (.roll ⟨.table (.composite t), owner⟩ used)

/-- Nothing fails in a roll but the draw from the table that it comes to. -/
def FailsByDraw (env : Surroundings) (fuel : Nat) (t : CompositeTable) (owner : String)
    (start : Context) : Prop :=
  ∀ used c f, Comes (passedRolls env fuel t owner) start used c →
    (passedRolls env fuel t owner used c).1 = .error f →
    ∃ leaf home left table,
      env.registry.ComesTo ⟨.table (.composite t), owner⟩ c.source leaf home left ∧
      env.registry.Inherits home leaf table ∧ (table.draw home used left).1 = .error f

/-- A roll that is made while an entry is left comes to a table of which none is. -/
def Strays (env : Surroundings) (fuel : Nat) (t : CompositeTable) (owner : String)
    (leaves : List (SimpleTable × String)) (start : Context) : Prop :=
  ∃ used c leaf home left table, Comes (passedRolls env fuel t owner) start used c ∧
    (∃ e ∈ entriesOf leaves, e.idText ∉ used) ∧
    env.registry.ComesTo ⟨.table (.composite t), owner⟩ c.source leaf home left ∧
    env.registry.Inherits home leaf table ∧ ∀ e ∈ table.selectables, e.idText ∈ used

/-! ## Plain tables -/

/-- A target from which rolls come to tables of plain texts within so many levels, none of which
declares shared variables. -/
def Plainly (r : Registry) : Nat → Target → Prop
  | 0, _ => False
  | _ + 1, ⟨.table (.simple t), _⟩ => t.shared.getD [] = [] ∧ (t.parent.getD "").isEmpty = true ∧
    t.defaultSets.getD [] = [] ∧ ∀ e ∈ t.identified.selectables, e.Plain
  | levels + 1, ⟨.table (.composite t), id⟩ => t.shared.getD [] = [] ∧ t.sources ≠ [] ∧
    ∀ s ∈ t.sources, 0 < s.points.units ∧
      ∃ next, r.resolve s.tableId id = .ok next ∧ Plainly r levels next
  | _ + 1, _ => False

/-- Without declarations a table can be opened wherever the limit allows one more level. -/
theorem admits_of_undeclared {name id : String} {shared : Option (Assoc String)}
    (hshared : shared.getD [] = []) (hlevel : c.depth + 1 ≤ env.config.maxRecursionDepth) :
    Admits env name owner shared id c := by
  refine ⟨hlevel, ?_⟩
  rw [hshared]
  rfl

/-- A table of plain entries that extends no other has nothing but the draw that can fail. -/
theorem draw_fails_of_plain (hr : env.registry.Distinct) {t : SimpleTable} {c : Context}
    {f : Failure} (hparent : (t.parent.getD "").isEmpty = true)
    (hdefaults : t.defaultSets.getD [] = []) (hplain : ∀ e ∈ t.identified.selectables, e.Plain)
    (hheld : env.registry.Holds owner t) (hmemory : env.registry.Remembers c.resolved)
    (hadmits : Admits env t.id "table" t.shared owner c)
    (h : (answerWithin env (fuel + 2) (.roll ⟨.table (.simple t), owner⟩ used) c).1 = .error f) :
    ∃ table, env.registry.Inherits owner t table ∧
      (table.draw owner used c.source).1 = .error f := by
  obtain ⟨table, hinherit⟩ :=
    env.registry.exists_inherit_of_own env.base owner hparent ⟨c.resolved, []⟩
  have hinherits := Registry.inherits_of_inherit hr hheld hmemory hinherit
  obtain rfl := hinherits.unique (.own hparent)
  refine ⟨_, hinherits, ?_⟩
  rcases hdraw : t.identified.draw owner used c.source with ⟨g | s, source⟩
  · obtain ⟨drawn, -, -, hend⟩ := roll_of_draw_error (answerWithin env (fuel + 1)) hadmits
      (Prod.ext hinherit rfl) hdraw
    obtain rfl := Except.error.inj (hend.result.symm.trans h)
    rfl
  · obtain ⟨drawn, -, -, hend⟩ := roll_of_draw (answerWithin env (fuel + 1)) hadmits
      (Prod.ext hinherit rfl) hdraw
    have hentry := hplain _ (SimpleTable.drew_of_draw (congrArg Prod.fst hdraw)).entry
    have hdefaults : t.identified.defaultSets.getD [] = [] := hdefaults
    obtain ⟨o, c', hrun⟩ := sure_outcomeOf env hentry hdefaults fuel drawn
    exact nomatch h.symm.trans (hend.result.trans (congrArg Prod.fst hrun))

/-- A failed roll of a composite table whose sources can all be drawn and found is a failed roll of
the source that is drawn. -/
theorem source_fails_of_composite {t : CompositeTable} {c : Context} {f : Failure}
    (hsome : t.sources ≠ [])
    (hsources : ∀ s ∈ t.sources, 0 < s.points.units ∧
      ∃ next, env.registry.resolve s.tableId owner = .ok next)
    (hadmits : Admits env t.id "table" t.shared owner c)
    (h : (answerWithin env (fuel + 1) (.roll ⟨.table (.composite t), owner⟩ used) c).1 =
      .error f) :
    ∃ s ∈ t.sources, ∃ weight total drawn next passing,
      t.draw c.source = (.ok (s, weight, total), drawn) ∧
      env.registry.resolve s.tableId owner = .ok next ∧ passing.resolved = c.resolved ∧
      passing.source = drawn ∧ passing.depth = c.depth + 1 ∧
      (answerWithin env fuel (.roll next used) passing).1 = .error f := by
  obtain ⟨inner, hinner, hrun⟩ :=
    sameEnd_roll (t := .composite t) (answerWithin env fuel) used hadmits
  obtain ⟨s, hs, weight, total, drawn, hdraw⟩ :=
    t.exists_draw hsome (fun s hs => (hsources s hs).1) inner.source
  obtain ⟨-, next, hnext⟩ := hsources s hs
  obtain ⟨passing, hresolved, hsource, hdepth, hpassed⟩ :=
    rollFromSources_of_draw (answerWithin env fuel) used hdraw hnext
  have hfailed := hrun.result.symm.trans h
  rw [rollFrom, hpassed, Computation.map_apply] at hfailed
  exact ⟨s, hs, weight, total, drawn, next, passing, hinner.source ▸ hdraw, hnext,
    hresolved.trans hinner.resolved, hsource, hdepth.trans hinner.depth,
    Except.map_eq_error hfailed⟩

/-- The rolls of such a target fail in no other way than by the draw from the table that they come
to. -/
theorem fails_of_plainly (hr : env.registry.Distinct) {levels : Nat} {target : Target} {c : Context}
    {f : Failure} (hplain : Plainly env.registry levels target)
    (hheld : ∀ t, target.definition = .table (.simple t) → env.registry.Holds target.collectionId t)
    (hmemory : env.registry.Remembers c.resolved)
    (hlevels : c.depth + levels ≤ env.config.maxRecursionDepth) (hfuel : levels < fuel)
    (h : (answerWithin env fuel (.roll target used) c).1 = .error f) :
    ∃ leaf home left table, env.registry.ComesTo target c.source leaf home left ∧
      env.registry.Inherits home leaf table ∧ (table.draw home used left).1 = .error f := by
  induction levels generalizing fuel target c f with
  | zero => exact hplain.elim
  | succ levels ih =>
      obtain ⟨fuel, rfl⟩ : ∃ n, fuel = n + 2 := ⟨fuel - 2, by omega⟩
      obtain ⟨definition, owner⟩ := target
      rcases definition with (t | t | t) | t
      case table.simple =>
        obtain ⟨hshared, hparent, hdefaults, hplain⟩ := hplain
        obtain ⟨table, hinherits, hdraw⟩ := draw_fails_of_plain hr hparent hdefaults hplain
          (hheld t rfl) hmemory (admits_of_undeclared hshared (by omega)) h
        exact ⟨t, owner, c.source, table, .table t owner _, hinherits, hdraw⟩
      case table.composite =>
        obtain ⟨hshared, hsome, hsources⟩ := hplain
        have hfound : ∀ s ∈ t.sources, 0 < s.points.units ∧
            ∃ next, env.registry.resolve s.tableId owner = .ok next := by
          intro s hs
          obtain ⟨hpoints, next, hnext, -⟩ := hsources s hs
          exact ⟨hpoints, next, hnext⟩
        obtain ⟨s, hs, weight, total, drawn, next, passing, hdraw, hnext, hresolved, hsource,
          hdepth, hroll⟩ := source_fails_of_composite hsome hfound
            (admits_of_undeclared hshared (by omega)) h
        obtain ⟨-, next', hnext', hplain⟩ := hsources s hs
        obtain rfl := Except.ok.inj (hnext'.symm.trans hnext)
        have hnextHeld : ∀ t, next'.definition = .table (.simple t) →
            env.registry.Holds next'.collectionId t := by
          obtain ⟨definition, home⟩ := next'
          rintro t rfl
          exact Registry.holds_of_find (Registry.find_of_resolve hnext)
        rw [← hresolved] at hmemory
        obtain ⟨leaf, home, left, table, hcomes, hend⟩ :=
          ih hplain hnextHeld hmemory (by omega) (by omega) hroll
        rw [hsource] at hcomes
        exact ⟨leaf, home, left, table, .source hdraw hnext hcomes, hend⟩
      case table.collection => exact hplain.elim
      case template => exact hplain.elim

/-- So it is for all rolls of a draw that is made where the limit allows as many levels. -/
theorem failsByDraw_of_plainly (hr : env.registry.Distinct) {t : CompositeTable} {levels : Nat}
    (hplain : Plainly env.registry levels ⟨.table (.composite t), owner⟩) (hstart : Ready env start)
    (hlevels : start.depth + levels ≤ env.config.maxRecursionDepth) (hfuel : levels < fuel) :
    FailsByDraw env fuel t owner start := by
  intro used c f hc hrun
  obtain ⟨fuel, rfl⟩ : ∃ n, fuel = n + 1 := ⟨fuel - 1, by omega⟩
  have hready : Ready env c := hc.keeps (Ready.roll hr t owner (fuel + 1)) hstart
  have hdepth : c.depth = start.depth :=
    hc.keeps (P := fun c => c.depth = start.depth)
      (fun used c h => (congrArg (·.depth) (nesting_roll env fuel _ used c)).trans h) rfl
  exact fails_of_plainly hr hplain (fun _ h => nomatch h) hready.memory (hdepth ▸ hlevels) hfuel hrun

section

variable {t : CompositeTable} {leaves : List (SimpleTable × String)} (hr : env.registry.Distinct)
  (hleaves : env.registry.Leaves ⟨.table (.composite t), owner⟩ leaves) (hstart : Ready env start)
  (hquiet : FailsByDraw env fuel t owner start)
include hr hleaves hstart hquiet

/-- A roll that fails came to a table of which every entry is taken. -/
theorem spent_of_error {f : Failure} (hc : Comes (passedRolls env fuel t owner) start used c)
    (hrun : (passedRolls env fuel t owner used c).1 = .error f) :
    ∃ leaf home left table,
      env.registry.ComesTo ⟨.table (.composite t), owner⟩ c.source leaf home left ∧
      env.registry.Inherits home leaf table ∧ (∀ e ∈ table.selectables, e.idText ∈ used) ∧
      f = .selection (.exhausted table.id) := by
  have hready : Ready env c := hc.keeps (Ready.roll hr t owner fuel) hstart
  obtain ⟨leaf, home, left, table, hcomes, hinherits, hdraw⟩ := hquiet used c f hc hrun
  obtain ⟨hdrawable, hsome⟩ :=
    hleaves.drawable _ ((hleaves.mem_iff table home).2 ⟨leaf, hcomes.passes, hinherits⟩)
  have hall : ∀ e ∈ table.selectables, e.idText ∈ used := by
    intro e he
    by_contra hleft
    obtain ⟨s, hs⟩ := hdrawable.exists_draw (hcomes.proper hready.proper) ⟨e, he, hleft⟩
    exact nomatch hdraw.symm.trans hs
  obtain ⟨first, hfirst⟩ := List.exists_mem_of_ne_nil _ hsome
  have hentries := List.ne_nil_of_mem (SimpleTable.mem_selectables.1 hfirst).1
  have hexhausted : (table.draw home used left).1 = .error (.selection (.exhausted table.id)) :=
    hdrawable.draw_eq_exhausted hentries (List.ne_nil_of_mem (hall first hfirst)) hall
  exact ⟨leaf, home, left, table, hcomes, hinherits, hall,
    Except.error.inj (hdraw.symm.trans hexhausted)⟩

/-- Rolls take an entry that is left, or are exhausted. -/
theorem sound_passedRolls : Sound (passedRolls env fuel t owner) start (keys (entriesOf leaves)) where
  named hempty := by
    obtain ⟨e, he, hid⟩ := List.mem_map.1 hempty
    exact hleaves.idText_ne_empty he hid
  takes used c o c' hc hrun := by
    have hready : Ready env c := hc.keeps (Ready.roll hr t owner fuel) hstart
    obtain ⟨leaf, home, table, e, hpasses, hinherits, he, hleft, hkey, hid⟩ :=
      taken_of_roll hr hleaves.sorts (fun _ h => nomatch h) hready.memory (congrArg Prod.fst hrun)
    have hmem : e ∈ entriesOf leaves := List.mem_flatMap.2
      ⟨_, (hleaves.mem_iff table home).2 ⟨leaf, hpasses, hinherits⟩, he⟩
    refine ⟨e.idText, List.mem_map_of_mem hmem, hleft, hkey, ?_⟩
    rw [hid]
    exact Entry.id_of_idText (hinherits.idText_ne_empty (SimpleTable.mem_selectables.1 he).1)
  fails used c f c' hc hrun := by
    obtain ⟨-, -, -, table, -, -, -, rfl⟩ :=
      spent_of_error hr hleaves hstart hquiet hc (congrArg Prod.fst hrun)
    exact unlessExhausted_of_error hrun rfl

/-- If no roll goes astray, they take an entry as long as one is left. -/
theorem exact_passedRolls (hsome : leaves ≠ []) (hstraight : ¬ Strays env fuel t owner leaves start) :
    Exact (passedRolls env fuel t owner) start (keys (entriesOf leaves)) where
  toSound := sound_passedRolls hr hleaves hstart hquiet
  nodup := hleaves.distinct
  ne_nil := by
    obtain ⟨p, hp⟩ := List.exists_mem_of_ne_nil _ hsome
    obtain ⟨e, he⟩ := List.exists_mem_of_ne_nil _ (hleaves.drawable p hp).2
    exact List.ne_nil_of_mem (List.mem_map_of_mem (List.mem_flatMap.2 ⟨p, hp, he⟩))
  gives used c hc hleft := by
    rcases hrun : passedRolls env fuel t owner used c with ⟨f | o, c'⟩
    · obtain ⟨leaf, home, left, table, hcomes, hinherits, hall, -⟩ :=
        spent_of_error hr hleaves hstart hquiet hc (congrArg Prod.fst hrun)
      obtain ⟨_, hkey, hleft⟩ := hleft
      obtain ⟨e, he, rfl⟩ := List.mem_map.1 hkey
      exact absurd ⟨used, c, leaf, home, left, table, hc, ⟨e, he, hleft⟩, hcomes, hinherits, hall⟩
        hstraight
    · exact ⟨o, rfl⟩

end

end Eval

end RandomTables
