-- SUMMARY: Two evaluations side by side, and how each way of combining evaluations relates them.
import Mathlib.Data.List.Forall2
import RandomTables.Evaluation.Answer
import RandomTables.Proofs.Evaluation.Monad
import RandomTables.Proofs.Evaluation.Nesting
import RandomTables.Proofs.Registry.Inheritance
import RandomTables.Proofs.Selection.Bare
import RandomTables.Proofs.Shared.Measure
import RandomTables.Proofs.Trace.Tracing

/-!
# Simulations

A `Simulation` relates the runs of one evaluation in two settings, which may differ in the answers
to calls, in the registry, in the limit on levels, in the tables that are remembered, in the traces
and in the logs. Both runs give the same result, unless the first one fails in a way that the
simulation tolerates, and whatever a run opens it closes again. Related with itself, an evaluation
is shown to restore what is open and to fail only as admitted.

What an evaluation may do depends on what is open. Where it `descends` it may open a level; where it
is `asking` it may also call for rolls and shared variables; where it has `begun`, for patterns too;
and where a level was just `entered`, it may do all of this in any scope that it opens.
-/
namespace RandomTables

/-- A roll in progress whose table and description are made of the material. -/
def Material.Frame (M : Material) (f : Frame) : Prop :=
  M.Simple f.table ∧ M.pattern (f.description.getD "")

/-- A scope whose patterns are made of the material. -/
def Material.Scope (M : Material) (s : SharedLevel) : Prop :=
  ∀ d ∈ s.declarations, M.pattern d.pattern

/-- Everything open is made of the material. -/
def Material.Open (M : Material) (w : Nesting) : Prop :=
  (∀ f ∈ w.frames, M.Frame f) ∧ ∀ s ∈ w.shared.scopes, M.Scope s

/-- A range of a table, or that of all its rolls. -/
def SimpleTable.Spans (t : SimpleTable) (r : RollRange) : Prop :=
  r ∈ t.ranges ∨ span t.ranges = some r

/-- The parts of a context that may differ between two settings. -/
structure Parts where
  trace : OpenTrace
  resolved : ResolvedTables
  log : List LogRecord
  frames : List Frame

def Context.parts (c : Context) : Parts := ⟨c.trace, c.resolved, c.log, c.frames⟩

/-! ## Failures and handlers -/

/-- A failure that no handler catches. -/
def Failure.Uncaught (f : Failure) : Prop := f = .outOfFuel ∨ ∃ e, f = .error (.depth e)

/-- The failure of a draw that finds everything excluded. -/
def Failure.Exhausts (f : Failure) : Prop :=
  ∃ e : SelectionFailure, f = .error (.selection e) ∧ e.isExhaustion = true

namespace Failure.Uncaught

variable {f : Failure} (h : f.Uncaught)
include h

theorem not_exhausts : ¬ f.Exhausts := by
  rcases h with rfl | ⟨e, rfl⟩ <;> rintro ⟨e', h, -⟩ <;> cases h

theorem not_caught (x : Reading) : ¬ x.Catches f := by
  rcases h with rfl | ⟨e, rfl⟩ <;> cases x <;> rintro ⟨e', h⟩ <;> cases h

end Failure.Uncaught

/-- The failure among the results. -/
def failed? {α : Type} : Except Failure α → Option Failure
  | .ok _ => none
  | .error f => some f

theorem eq_error_of_failed {α : Type} {r : Except Failure α} {f : Failure}
    (h : failed? r = some f) : r = .error f := by
  cases r with
  | ok a => cases h
  | error f' => exact congrArg _ (Option.some.inj h)

/-- Two settings in which evaluations run. -/
structure Simulation where
  env : Surroundings
  /-- The registry of the second setting. -/
  registry : Registry
  /-- The limit on levels in the second setting. -/
  limit : Nat
  /-- The traces that the settings record at the same time. -/
  tracing : Tracing
  /-- Whether both settings log the same records. -/
  logged : Prop
  material : Material
  /-- The simple tables of a collection that the settings have in place of each other. -/
  alike : String → SimpleTable → SimpleTable → Prop
  /-- The tables that the settings remember at the same time. -/
  remembers : ResolvedTables → ResolvedTables → Prop
  /-- The simple tables of a collection that may be rolled, given what the first setting remembers. -/
  recalls : ResolvedTables → String → SimpleTable → Prop
  /-- The failures that both settings may share. -/
  admits : Failure → Prop
  /-- The failures of the first setting that the second one need not share, with the failure that it
  has in their place, if any. -/
  tolerates : Failure → Option Failure → Prop
  /-- Where the second setting need not fail, anything may become of it. -/
  lasting : ∀ f g, tolerates f none → tolerates f g
  /-- The shared variables in whose evaluation nothing is tolerated. -/
  harbours : String → Prop
  descends : Reach → Prop
  asking : Reach → Prop
  begun : Reach → Prop
  entered : Reach → Prop

namespace Simulation

variable (S : Simulation)

/-- The surroundings in the second setting. -/
def second : Surroundings :=
  { S.env with
    registry := S.registry
    config := { S.env.config with maxRecursionDepth := S.limit } }

def Descends (w : Nesting) : Prop := S.descends w.toReach ∧ S.material.Open w

def Asking (w : Nesting) : Prop := S.asking w.toReach ∧ S.material.Open w

def Begun (w : Nesting) : Prop := S.begun w.toReach ∧ S.material.Open w

def Entered (w : Nesting) : Prop := S.entered w.toReach ∧ S.material.Open w

/-! ## Tables and targets -/

/-- Simple tables in place of each other. They may differ in what their entries were given. -/
structure Alike (collectionId : String) (t t' : SimpleTable) : Prop where
  made : S.material.Simple t
  alike : S.alike collectionId t t'
  bare : t'.bare = t.bare

/-- A table that may be rolled during these rolls: it always may be, or it is being rolled. -/
def Recalled (frames : List Frame) (collectionId : String) (t : SimpleTable) : Prop :=
  (∀ tables, S.recalls tables collectionId t) ∨
    ∃ f ∈ frames, f.collectionId = collectionId ∧ f.table = t

/-- Tables of a collection in place of each other during these rolls. -/
inductive Tables (frames : List Frame) (collectionId : String) : Table → Table → Prop where
  | simple {t t' : SimpleTable} (h : S.Alike collectionId t t')
    (hr : S.Recalled frames collectionId t) : Tables frames collectionId (.simple t) (.simple t')
  | composite {t : CompositeTable} (h : S.material.Block (t.shared.getD [])) :
    Tables frames collectionId (.composite t) (.composite t)
  | collection {t : CollectionTable} (h : S.material.Block (t.shared.getD [])) :
    Tables frames collectionId (.collection t) (.collection t)

/-- Targets in place of each other during these rolls. -/
inductive Targets (frames : List Frame) : Target → Target → Prop where
  | table {t t' : Table} {collectionId : String} (h : S.Tables frames collectionId t t') :
    Targets frames ⟨.table t, collectionId⟩ ⟨.table t', collectionId⟩
  | template {t : Template} {collectionId : String} (h : S.material.Template t) :
    Targets frames ⟨.template t, collectionId⟩ ⟨.template t, collectionId⟩

/-- Rolls in progress in place of each other. -/
inductive Framed : Frame → Frame → Prop where
  | intro {t t' : SimpleTable} {collectionId : String} {entryId description : Option String}
    (h : S.Alike collectionId t t') :
    Framed ⟨t, collectionId, entryId, description⟩ ⟨t', collectionId, entryId, description⟩

/-! ## Contexts -/

/-- Parts of contexts that differ as the settings may. -/
structure Twin (u v : Parts) : Prop where
  trace : S.tracing.traces u.trace v.trace
  resolved : S.remembers u.resolved v.resolved
  log : S.logged → v.log = u.log
  frames : List.Forall₂ S.Framed u.frames v.frames
  recalled : ∀ f ∈ u.frames, S.recalls u.resolved f.collectionId f.table

/-- Two contexts that differ in nothing else, with the same things open. -/
structure Match (w : Nesting) (c d : Context) : Prop where
  nesting : c.nesting = w
  twin : ∃ v : Parts, S.Twin c.parts v ∧
    d = { c with trace := v.trace, resolved := v.resolved, log := v.log, frames := v.frames }

/-! ## Results -/

section

variable {α β : Type}

/-- A result that is as stated, or an admitted failure. -/
structure Settled (P : α → Prop) (e : Except Failure α) : Prop where
  value : ∀ a, e = .ok a → P a
  failure : ∀ f, e = .error f → S.admits f

/-- A draw whose values are as stated and whose failures are admitted, whatever the source is. -/
def Draws (P : α → Prop) (x : Draw α) : Prop := ∀ source, S.Settled P (x source).1

/-- What two runs left agrees, unless the first one failed in a tolerated way. -/
def Agrees (w : Nesting) (P : α → Prop) (left right : Except Failure α × Context) : Prop :=
  (∃ f, left.1 = .error f ∧ S.tolerates f (failed? right.1)) ∨
    S.Settled P left.1 ∧ right.1 = left.1 ∧ S.Match w left.2 right.2

/-- Two evaluations agree wherever these things are open, on a result as stated. -/
def Yields (w : Nesting) (P : α → Prop) (x y : Eval α) : Prop :=
  ∀ c d, S.Match w c d → S.Agrees w P (x c) (y d)

/-- The same where what the first setting remembers is as stated. -/
def YieldsFrom (K : ResolvedTables → Prop) (w : Nesting) (P : α → Prop) (x y : Eval α) : Prop :=
  ∀ c d, S.Match w c d → K c.resolved → S.Agrees w P (x c) (y d)

/-- Two evaluations agree wherever these things are open. -/
abbrev Related (w : Nesting) (x y : Eval α) : Prop := S.Yields w (fun _ => True) x y

/-- Values in place of each other, or the same admitted failure. -/
inductive Pair (R : α → β → Prop) : Except Failure α → Except Failure β → Prop where
  | ok {a : α} {b : β} (h : R a b) : Pair R (.ok a) (.ok b)
  | error {f : Failure} (h : S.admits f) : Pair R (.error f) (.error f)

/-- Two evaluations agree wherever these things are open, on values in place of each other. -/
def Joins (w : Nesting) (R : α → β → Prop) (x : Eval α) (y : Eval β) : Prop :=
  ∀ c d, S.Match w c d →
    (∃ f, (x c).1 = .error f ∧ S.tolerates f (failed? (y d).1)) ∨
      S.Pair R (x c).1 (y d).1 ∧ S.Match w (x c).2 (y d).2

/-- What resolving tables left in the two settings. -/
structure Recalls (s s' : Resolving) : Prop where
  tables : S.remembers s.tables s'.tables
  log : S.logged → s'.log = s.log

/-- Whatever may be rolled still may be. -/
def Grows (u v : ResolvedTables) : Prop :=
  ∀ collectionId t, S.recalls u collectionId t → S.recalls v collectionId t

/-- Two computations that resolve tables agree on values in place of each other, given what the
first one finds remembered. -/
def Resolves (K : ResolvedTables → Prop) (R : ResolvedTables → α → β → Prop) (x : Resolve α)
    (y : Resolve β) : Prop :=
  ∀ s s', S.Recalls s s' → K s.tables →
    (∃ f, (x s).1 = .error f ∧ S.tolerates f (failed? (y s').1)) ∨
      S.Pair (R (x s).2.tables) (x s).1 (y s').1 ∧ S.Recalls (x s).2 (y s').2 ∧
        S.Grows s.tables (x s).2.tables

/-- Failures of the second setting in place of others, as far as a handler lets them pass. -/
def Passes (catches : Failure → Prop) : Prop :=
  ∀ f g, S.tolerates f (some g) → S.tolerates f none ∨ ¬ catches g

end

/-- Two lookups find values in place of each other, or fail alike. -/
inductive Looks {α β : Type} (R : α → β → Prop) :
    Except ResolutionFailure α → Except ResolutionFailure β → Prop where
  | ok {a : α} {b : β} (h : R a b) : Looks R (.ok a) (.ok b)
  | error (e : ResolutionFailure) : Looks R (.error e) (.error e)

/-- The same simulation when nothing is tolerated. -/
def strict : Simulation :=
  { S with tolerates := fun _ _ => False, lasting := fun _ _ => id }

/-- What reading names needs of a simulation. -/
structure Grounded : Prop where
  ordinary : ∀ f, f.Ordinary → S.admits f
  aliased : ∀ importAlias name collectionId,
    S.registry.aliasedStatic importAlias name collectionId =
      S.env.registry.aliasedStatic importAlias name collectionId
  static : ∀ name collectionId,
    Eval.staticText? S.second name collectionId = Eval.staticText? S.env name collectionId
  calculation : ∀ k, S.material.calculation k → ∀ f, k.Fails S.env.config.maxExplodingDice f →
    S.admits f

/-- What evaluations need of a simulation. -/
structure Lawful : Prop extends S.Grounded where
  descends_of_asking : ∀ r, S.asking r → S.descends r
  asking_of_begun : ∀ r, S.begun r → S.asking r
  begun_of_entered : ∀ r, S.entered r → S.begun r
  /-- A level that the limit allows is entered. -/
  deeper : ∀ r label, S.descends r → r.depth < S.env.config.maxRecursionDepth →
    S.entered (r.deeper label)
  /-- An entered level stays entered in the scopes of its tables and templates. -/
  scope : ∀ depth chain (before after : SharedStore) level owner declarations collectionId,
    S.entered ⟨depth, chain, before.blank⟩ → S.material.Block declarations →
    before.enter owner declarations collectionId = .ok (some (level, after)) →
    S.entered ⟨depth, chain, after.blank⟩
  /-- A variable may be assigned where no scope but the document's is open. -/
  assigned : ∀ depth chain (before after : SharedStore) level target value,
    S.entered ⟨depth, chain, before.blank⟩ → S.material.name (splitSign target).1 →
    before.scopes = [level] → before.assign target value = .ok after →
    S.entered ⟨depth, chain, after.blank⟩
  limit_le : S.env.config.maxRecursionDepth ≤ S.limit
  /-- A level that the limit of the first setting refuses. -/
  refused : ∀ r label, S.descends r → ¬ r.depth < S.env.config.maxRecursionDepth →
    S.tolerates (.error (.depth
        ⟨.recursion, S.env.config.maxRecursionDepth, (label :: r.chain).reverse⟩)) none ∨
      S.limit = S.env.config.maxRecursionDepth ∧
        S.admits (.error (.depth
          ⟨.recursion, S.env.config.maxRecursionDepth, (label :: r.chain).reverse⟩))
  /-- Nothing catches what is tolerated in the first setting. -/
  tolerated : ∀ f g, S.tolerates f g → f.Uncaught
  exhausted : S.Passes Failure.Exhausts
  /-- An expression whose handler could catch what the second setting has instead reads only
  variables in whose evaluation nothing is tolerated. -/
  reading : ∀ x, S.material.reading x → S.Passes x.Catches ∨ x.Within S.harbours
  /-- References lead to targets in place of each other. -/
  found : ∀ frames ref collectionId,
    Looks (Option.Rel (S.Targets frames)) (S.env.registry.find ref collectionId)
      (S.registry.find ref collectionId)
  /-- Tables in place of each other inherit such tables. -/
  inherits : ∀ collectionId t t', S.Alike collectionId t t' →
    S.Resolves (fun tables => S.recalls tables collectionId t)
      (fun tables resolved resolved' =>
        S.Alike collectionId resolved resolved' ∧ S.recalls tables collectionId resolved)
      (S.env.registry.inherit S.env.base t collectionId)
      (S.registry.inherit S.env.base t' collectionId)
  /-- The directives of a pattern are made of the material. -/
  directive : ∀ text, S.material.pattern text → ∀ span ∈ Span.find text.toList,
    S.Settled S.material.Directive (Directive.parse span.expression)
  /-- The pattern of a variable that a conditional declares. -/
  blank : S.material.pattern ""
  width : ∀ t, S.material.table t → ∀ r, t.Spans r → ∀ f, Weight.ofInt r.size = .error f →
    S.admits f

variable {S} {α β : Type} {w : Nesting} {P : α → Prop} {Q : β → Prop} {c d : Context}

theorem Asking.descends (hS : S.Lawful) (hw : S.Asking w) : S.Descends w :=
  ⟨hS.descends_of_asking _ hw.1, hw.2⟩

theorem Begun.asking (hS : S.Lawful) (hw : S.Begun w) : S.Asking w :=
  ⟨hS.asking_of_begun _ hw.1, hw.2⟩

theorem Entered.begun (hS : S.Lawful) (hw : S.Entered w) : S.Begun w :=
  ⟨hS.begun_of_entered _ hw.1, hw.2⟩

theorem Lawful.strict (hS : S.Lawful) : S.strict.Grounded :=
  ⟨hS.ordinary, hS.aliased, hS.static, hS.calculation⟩

/-! ## Simulations with the same contexts -/

/-- Two simulations that relate the same contexts. -/
structure Same (S T : Simulation) : Prop where
  tracing : T.tracing = S.tracing
  logged : T.logged = S.logged
  material : T.material = S.material
  alike : T.alike = S.alike
  remembers : T.remembers = S.remembers
  recalls : T.recalls = S.recalls

namespace Same

variable {T : Simulation} (h : S.Same T)
include h

theorem symm : T.Same S := ⟨h.1.symm, h.2.symm, h.3.symm, h.4.symm, h.5.symm, h.6.symm⟩

theorem alikes {collectionId : String} {t t' : SimpleTable} (ht : S.Alike collectionId t t') :
    T.Alike collectionId t t' := by
  obtain ⟨hmade, halike, hbare⟩ := ht
  rw [← h.material] at hmade
  rw [← h.alike] at halike
  exact ⟨hmade, halike, hbare⟩

theorem framed {f f' : Frame} (hf : S.Framed f f') : T.Framed f f' := by
  obtain ⟨hf⟩ := hf
  exact .intro (h.alikes hf)

theorem recalled {frames : List Frame} {collectionId : String} {t : SimpleTable}
    (ht : S.Recalled frames collectionId t) : T.Recalled frames collectionId t := by
  rw [Recalled, ← h.recalls] at ht
  exact ht

theorem targets {frames : List Frame} {target target' : Target}
    (ht : S.Targets frames target target') : T.Targets frames target target' := by
  have hmaterial := h.material
  cases ht with
  | template ht => exact .template (hmaterial ▸ ht)
  | table ht =>
      cases ht with
      | simple ht hr => exact .table (.simple (h.alikes ht) (h.recalled hr))
      | composite ht => exact .table (.composite (hmaterial ▸ ht))
      | collection ht => exact .table (.collection (hmaterial ▸ ht))

theorem contexts (hm : S.Match w c d) : T.Match w c d := by
  obtain ⟨hnesting, v, ⟨htrace, hresolved, hlog, hframes, hrecalled⟩, hd⟩ := hm
  rw [← h.tracing] at htrace
  rw [← h.remembers] at hresolved
  rw [← h.logged] at hlog
  rw [← h.recalls] at hrecalled
  exact ⟨hnesting, v, ⟨htrace, hresolved, hlog, hframes.imp fun _ _ => h.framed, hrecalled⟩, hd⟩

end Same

theorem same_strict : S.Same S.strict := ⟨rfl, rfl, rfl, rfl, rfl, rfl⟩

namespace Settled

theorem ok {a : α} (h : P a) : S.Settled P (.ok a) :=
  ⟨fun _ ha => Except.ok.inj ha ▸ h, fun _ hf => nomatch hf⟩

theorem error {f : Failure} (h : S.admits f) : S.Settled P (.error f) :=
  ⟨fun _ ha => (nomatch ha), fun _ hf => Except.error.inj hf ▸ h⟩

theorem of_ordinary (hS : S.Grounded) {e : Except Failure α} (hok : ∀ a, e = .ok a → P a)
    (herror : ∀ f, e = .error f → f.Ordinary) : S.Settled P e :=
  ⟨hok, fun f hf => hS.ordinary f (herror f hf)⟩

theorem of_admitted {e : Except Failure α} (h : ∀ f, e = .error f → S.admits f) :
    S.Settled (fun _ => True) e := ⟨fun _ _ => trivial, h⟩

theorem mono {R : α → Prop} {e : Except Failure α} (h : S.Settled P e) (hPR : ∀ a, P a → R a) :
    S.Settled R e := ⟨fun a ha => hPR a (h.value a ha), h.failure⟩

theorem bind {e : Except Failure α} {f : α → Except Failure β} (he : S.Settled P e)
    (hf : ∀ a, P a → S.Settled Q (f a)) : S.Settled Q (e >>= f) := by
  cases e with
  | ok a => exact hf a (he.value a rfl)
  | error f => exact .error (he.failure f rfl)

theorem map {e : Except Failure α} {h : α → β} (he : S.Settled P e) (hPQ : ∀ a, P a → Q (h a)) :
    S.Settled Q (e.map h) := by
  cases e with
  | ok a => exact .ok (hPQ a (he.value a rfl))
  | error f => exact .error (he.failure f rfl)

end Settled

/-! ## Steps and their order -/

namespace Agrees

variable {x y : Eval α} {f g : α → Eval β}

theorem mono {left right : Except Failure α × Context} {R : α → Prop}
    (h : S.Agrees w P left right) (hPR : ∀ a, P a → R a) : S.Agrees w R left right := by
  rcases h with h | ⟨hleft, hresult, hmatch⟩
  · exact .inl h
  · exact .inr ⟨hleft.mono hPR, hresult, hmatch⟩

end Agrees

/-- What goes on after a tolerated failure fails too, or it was not needed. -/
theorem tolerates_bind {f : Failure} {y : Eval α} (h : S.tolerates f (failed? (y d).1))
    (g : α → Eval β) : S.tolerates f (failed? ((y >>= g) d).1) := by
  rw [Computation.bind_apply]
  rcases hyd : y d with ⟨e | b, d'⟩ <;> simp only [hyd] at h
  · exact h
  · exact S.lasting _ _ h

namespace Agrees

variable {x y : Eval α} {f g : α → Eval β}

theorem bind (hx : S.Agrees w P (x c) (y d)) (hf : ∀ a, P a → S.Yields w Q (f a) (g a)) :
    S.Agrees w Q ((x >>= f) c) ((y >>= g) d) := by
  rcases hx with ⟨e, he, htol⟩ | ⟨hleft, hresult, hmatch⟩
  · exact .inl ⟨e, Computation.bind_of_error he, tolerates_bind htol g⟩
  · rw [Computation.bind_apply, Computation.bind_apply]
    rcases hxc : x c with ⟨e | a, c'⟩ <;> rcases hyd : y d with ⟨r, d'⟩ <;>
      rw [hxc, hyd] at hresult hmatch <;> rw [hxc] at hleft <;> cases hresult
    · exact .inr ⟨.error (hleft.failure e rfl), rfl, hmatch⟩
    · exact hf a (hleft.value a rfl) c' d' hmatch

end Agrees

namespace Yields

variable {x y : Eval α} {f g : α → Eval β}

theorem mono {R : α → Prop} (h : S.Yields w P x y) (hPR : ∀ a, P a → R a) : S.Yields w R x y :=
  fun c d hm => (h c d hm).mono hPR

theorem related (h : S.Yields w P x y) : S.Related w x y := h.mono fun _ _ => trivial

/-- What agrees in a simulation agrees in another one that relates the same contexts and is not
stricter. -/
theorem of_same {T : Simulation} (h : S.Yields w P x y) (hsame : S.Same T)
    (hadmits : ∀ f, S.admits f → T.admits f)
    (htolerates : ∀ f g, S.tolerates f g → T.tolerates f g) : T.Yields w P x y := by
  intro c d hm
  rcases h c d (hsame.symm.contexts hm) with ⟨f, hf, htol⟩ | ⟨hleft, hresult, hmatch⟩
  · exact .inl ⟨f, hf, htolerates _ _ htol⟩
  · exact .inr ⟨⟨hleft.value, fun f hf => hadmits f (hleft.failure f hf)⟩, hresult,
      hsame.contexts hmatch⟩

/-- What agrees when nothing is tolerated agrees all the more when something is. -/
theorem of_strict (h : S.strict.Yields w P x y) : S.Yields w P x y :=
  h.of_same same_strict.symm (fun _ => id) fun _ _ => False.elim

theorem pure {a : α} (h : P a) : S.Yields w P (pure a) (pure a) :=
  fun _ _ hm => .inr ⟨.ok h, rfl, hm⟩

theorem throw {e : Failure} (h : S.admits e) : S.Yields w P (throw e) (throw e) :=
  fun _ _ hm => .inr ⟨.error h, rfl, hm⟩

theorem bind (hx : S.Yields w P x y) (hf : ∀ a, P a → S.Yields w Q (f a) (g a)) :
    S.Yields w Q (x >>= f) (y >>= g) := fun c d hm => (hx c d hm).bind hf

theorem next (hx : S.Related w x y) (hf : ∀ a, S.Yields w Q (f a) (g a)) :
    S.Yields w Q (x >>= f) (y >>= g) := hx.bind fun a _ => hf a

theorem map {h : α → β} (hx : S.Yields w P x y) (hPQ : ∀ a, P a → Q (h a)) :
    S.Yields w Q (h <$> x) (h <$> y) := by
  rw [map_eq_pure_bind, map_eq_pure_bind]
  exact hx.bind fun a ha => .pure (hPQ a ha)

/-- Reading the context at hand. -/
theorem get_bind {f g : Context → Eval α}
    (h : ∀ c (v : Parts), c.nesting = w → S.Twin c.parts v → S.Yields w P (f c)
      (g { c with trace := v.trace, resolved := v.resolved, log := v.log, frames := v.frames })) :
    S.Yields w P (get >>= f) (get >>= g) := by
  rintro c d hm
  obtain ⟨v, hv, rfl⟩ := hm.twin
  exact h c v hm.nesting hv c _ hm

theorem lift {e : Except Failure α} (h : S.Settled P e) :
    S.Yields w P (Eval.lift e) (Eval.lift e) := by
  cases e with
  | ok a => exact .pure (h.value a rfl)
  | error f => exact .throw (h.failure f rfl)

theorem liftResolution (hS : S.Grounded) {e : Except ResolutionFailure α}
    (h : ∀ a, e = .ok a → P a) :
    S.Yields w P (Eval.liftResolution e) (Eval.liftResolution e) := by
  cases e with
  | ok a => exact .pure (h a rfl)
  | error e => exact .throw (hS.ordinary _ (.resolution e))

/-- A change of the context that leaves alone what may differ, and adds records to the log. -/
theorem change {h : Context → Context} (added : Context → List LogRecord)
    (hnesting : ∀ c, (h c).nesting = c.nesting)
    (hparts : ∀ c, (h c).parts = { c.parts with log := added c ++ c.log })
    (hapart : ∀ c (v : Parts),
      h { c with trace := v.trace, resolved := v.resolved, log := v.log, frames := v.frames } =
        { h c with
          trace := v.trace, resolved := v.resolved, log := added c ++ v.log, frames := v.frames }) :
    S.Related w (modify h) (modify h) := by
  rintro c d hm
  obtain ⟨v, ⟨htrace, hresolved, hlog, hframes, hrecalled⟩, rfl⟩ := hm.twin
  refine .inr ⟨.ok trivial, rfl, (hnesting c).trans hm.nesting,
    { v with log := added c ++ v.log }, ?_, hapart c v⟩
  change S.Twin (h c).parts _
  rw [hparts]
  exact ⟨htrace, hresolved, fun hlogged => congrArg (added c ++ ·) (hlog hlogged), hframes,
    hrecalled⟩

theorem log (level : LogLevel) (message : String) :
    S.Related w (Eval.log level message) (Eval.log level message) :=
  .change (fun _ => [⟨level, .evaluator, message⟩]) (fun _ => rfl) (fun _ => rfl) fun _ _ => rfl

theorem draw {draw : Draw α} (h : S.Draws P draw) :
    S.Yields w P (Eval.draw draw) (Eval.draw draw) := by
  rintro c d hm
  obtain ⟨v, hv, rfl⟩ := hm.twin
  exact .inr ⟨h c.source, rfl, hm.nesting, v, hv, rfl⟩

/-- Catching failures, though none that is tolerated. -/
theorem tryCatch {handle handle' : Failure → Eval α} {catches : Failure → Prop}
    (hx : S.Yields w P x y) (hpasses : S.Passes catches)
    (htolerated : ∀ f g, S.tolerates f g → ¬ catches f)
    (hleft : ∀ f, ¬ catches f → ∀ c, handle f c = (.error f, c))
    (hright : ∀ f, ¬ catches f → ∀ c, handle' f c = (.error f, c))
    (hhandle : ∀ f, S.admits f → S.Yields w P (handle f) (handle' f)) :
    S.Yields w P (tryCatch x handle) (tryCatch y handle') := by
  rintro c d hm
  rw [Computation.tryCatch_apply, Computation.tryCatch_apply]
  have hxy := hx c d hm
  rcases hxc : x c with ⟨r, c'⟩
  rcases hyd : y d with ⟨r', d'⟩
  simp only [hxc, hyd, Agrees] at hxy
  rcases hxy with ⟨e, rfl, htol⟩ | ⟨hleft', rfl, hmatch⟩
  · refine .inl ⟨e, congrArg Prod.fst (hleft e (htolerated e _ htol) c'), ?_⟩
    cases r' with
    | ok b => exact htol
    | error g =>
        rcases hpasses e g htol with hnone | hpass
        · exact S.lasting e _ hnone
        · dsimp only
          rw [hright g hpass]
          exact htol
  · cases r' with
    | ok a => exact .inr ⟨hleft', rfl, hmatch⟩
    | error e => exact hhandle e (hleft'.failure e rfl) c' d' hmatch

end Yields

/-! ## Values in place of each other -/

theorem Pair.mono {R R' : α → β → Prop} {r : Except Failure α} {r' : Except Failure β}
    (h : S.Pair R r r') (hR : ∀ a b, R a b → R' a b) : S.Pair R' r r' := by
  cases h with
  | ok h => exact .ok (hR _ _ h)
  | error h => exact .error h

namespace Joins

variable {x : Eval α} {y : Eval β} {R : α → β → Prop}

theorem pure {a : α} {b : β} (h : R a b) :
    S.Joins w R (Pure.pure a : Eval α) (Pure.pure b : Eval β) :=
  fun _ _ hm => .inr ⟨.ok h, hm⟩

theorem mono {R' : α → β → Prop} (h : S.Joins w R x y) (hR : ∀ a b, R a b → R' a b) :
    S.Joins w R' x y := by
  intro c d hm
  rcases h c d hm with htol | ⟨hpair, hmatch⟩
  · exact .inl htol
  · exact .inr ⟨hpair.mono hR, hmatch⟩

theorem of_yields {x y : Eval α} (h : S.Yields w P x y) : S.Joins w (fun a b => b = a ∧ P a) x y := by
  intro c d hm
  rcases h c d hm with htol | ⟨hleft, hresult, hmatch⟩
  · exact .inl htol
  · refine .inr ⟨?_, hmatch⟩
    rw [hresult]
    cases hr : (x c).1 with
    | ok a => exact .ok ⟨rfl, hleft.value a hr⟩
    | error f => exact .error (hleft.failure f hr)

/-- What goes on with values in place of each other. -/
theorem bind {γ : Type} {Q : γ → Prop} {f : α → Eval γ} {g : β → Eval γ} (hx : S.Joins w R x y)
    (hf : ∀ a b, R a b → S.Yields w Q (f a) (g b)) : S.Yields w Q (x >>= f) (y >>= g) := by
  intro c d hm
  rcases hx c d hm with ⟨e, he, htol⟩ | ⟨hpair, hmatch⟩
  · exact .inl ⟨e, Computation.bind_of_error he, tolerates_bind htol g⟩
  · rw [Computation.bind_apply, Computation.bind_apply]
    rcases hxc : x c with ⟨r, c'⟩
    rcases hyd : y d with ⟨r', d'⟩
    rw [hxc, hyd] at hpair hmatch
    cases hpair with
    | ok h => exact hf _ _ h c' d' hmatch
    | error h => exact .inr ⟨.error h, rfl, hmatch⟩

theorem next {γ δ : Type} {R' : γ → δ → Prop} {f : α → Eval γ} {g : β → Eval δ}
    (hx : S.Joins w R x y) (hf : ∀ a b, R a b → S.Joins w R' (f a) (g b)) :
    S.Joins w R' (x >>= f) (y >>= g) := by
  intro c d hm
  rcases hx c d hm with ⟨e, he, htol⟩ | ⟨hpair, hmatch⟩
  · exact .inl ⟨e, Computation.bind_of_error he, tolerates_bind htol g⟩
  · rw [Computation.bind_apply, Computation.bind_apply]
    rcases hxc : x c with ⟨r, c'⟩
    rcases hyd : y d with ⟨r', d'⟩
    rw [hxc, hyd] at hpair hmatch
    cases hpair with
    | ok h => exact hf _ _ h c' d' hmatch
    | error h => exact .inr ⟨.error h, hmatch⟩

theorem liftResolution (hS : S.Grounded) {e : Except ResolutionFailure α}
    {e' : Except ResolutionFailure β} (h : Looks R e e') :
    S.Joins w R (Eval.liftResolution e) (Eval.liftResolution e') := by
  cases h with
  | ok h => exact .pure h
  | error e => exact fun _ _ hm => .inr ⟨.error (hS.ordinary _ (.resolution e)), hm⟩

/-- What goes on after a computation that leaves alone what is remembered. -/
theorem bindFrom {γ : Type} {Q : γ → Prop} {K : ResolvedTables → Prop} {f : α → Eval γ}
    {g : β → Eval γ} (hx : S.Joins w R x y) (hstill : ∀ c, (x c).2.resolved = c.resolved)
    (hf : ∀ a b, R a b → S.YieldsFrom K w Q (f a) (g b)) :
    S.YieldsFrom K w Q (x >>= f) (y >>= g) := by
  intro c d hm hK
  rw [← hstill c] at hK
  rcases hx c d hm with ⟨e, he, htol⟩ | ⟨hpair, hmatch⟩
  · exact .inl ⟨e, Computation.bind_of_error he, tolerates_bind htol g⟩
  · rw [Computation.bind_apply, Computation.bind_apply]
    rcases hxc : x c with ⟨r, c'⟩
    rcases hyd : y d with ⟨r', d'⟩
    rw [hxc, hyd] at hpair hmatch
    rw [hxc] at hK
    cases hpair with
    | ok h => exact hf _ _ h c' d' hmatch hK
    | error h => exact .inr ⟨.error h, rfl, hmatch⟩

/-- Two draws with results in place of each other that take the same random numbers. -/
theorem draw {x : Draw α} {y : Draw β}
    (h : ∀ source, S.Pair R (x source).1 (y source).1 ∧ (y source).2 = (x source).2) :
    S.Joins w R (Eval.draw x) (Eval.draw y) := by
  rintro c d hm
  obtain ⟨v, hv, rfl⟩ := hm.twin
  obtain ⟨hpair, hsource⟩ := h c.source
  refine .inr ⟨hpair, hm.nesting, v, hv, ?_⟩
  let beside (source : Source) : Context :=
    { c with
      trace := v.trace, resolved := v.resolved, log := v.log, frames := v.frames, source }
  exact congrArg beside hsource

end Joins

namespace YieldsFrom

variable {K K' : ResolvedTables → Prop} {x y : Eval α} {f g : α → Eval β}

theorem of_imp (h : S.YieldsFrom K' w P x y) (hK : ∀ tables, K tables → K' tables) :
    S.YieldsFrom K w P x y := fun c d hm hstated => h c d hm (hK _ hstated)

theorem bind (hx : S.YieldsFrom K w P x y) (hf : ∀ a, P a → S.Yields w Q (f a) (g a)) :
    S.YieldsFrom K w Q (x >>= f) (y >>= g) := fun c d hm hstated => (hx c d hm hstated).bind hf

/-- What goes on after an evaluation that leaves alone what is remembered. -/
theorem next (hx : S.Related w x y) (hstill : ∀ c, (x c).2.resolved = c.resolved)
    (hf : ∀ a, S.YieldsFrom K w Q (f a) (g a)) : S.YieldsFrom K w Q (x >>= f) (y >>= g) := by
  refine Joins.bindFrom (.of_yields hx) hstill ?_
  rintro _ a ⟨rfl, -⟩
  exact hf a

end YieldsFrom

/-- What may be rolled wherever these things are open may be rolled now. -/
theorem Match.recalled (hm : S.Match w c d) {collectionId : String} {t : SimpleTable}
    (ht : S.Recalled w.frames collectionId t) : S.recalls c.resolved collectionId t := by
  obtain rfl := hm.nesting
  obtain ⟨v, hv, -⟩ := hm.twin
  rcases ht with hever | ⟨f, hf, rfl, rfl⟩
  · exact hever _
  · exact hv.recalled f hf

/-- What goes on with tables that were resolved, given what is remembered then. -/
theorem Yields.resolving {γ : Type} {K : ResolvedTables → Prop} {R : ResolvedTables → α → β → Prop}
    {Q : γ → Prop} {x : Resolve α} {y : Resolve β} {f : α → Eval γ} {g : β → Eval γ}
    (h : S.Resolves K R x y) (hK : ∀ c d, S.Match w c d → K c.resolved)
    (hf : ∀ a b tables, R tables a b →
      S.YieldsFrom (fun tables => R tables a b) w Q (f a) (g b)) :
    S.Yields w Q (Eval.resolving x >>= f) (Eval.resolving y >>= g) := by
  intro c d hm
  have hknown := hK c d hm
  obtain ⟨v, ⟨htrace, hresolved, hlog, hframes, hrecalled⟩, rfl⟩ := hm.twin
  let beside : Context :=
    { c with trace := v.trace, resolved := v.resolved, log := v.log, frames := v.frames }
  let left := x ⟨c.resolved, []⟩
  let right := y ⟨v.resolved, []⟩
  let c' : Context := { c with resolved := left.2.tables, log := left.2.log ++ c.log }
  let d' : Context :=
    { beside with resolved := right.2.tables, log := right.2.log ++ v.log }
  have hx : Eval.resolving x c = (left.1, c') := rfl
  have hy : Eval.resolving y beside = (right.1, d') := rfl
  rw [Computation.bind_apply, Computation.bind_apply, hx, hy]
  rcases h ⟨c.resolved, []⟩ ⟨v.resolved, []⟩ ⟨hresolved, fun _ => rfl⟩ hknown with
    ⟨e, he, htol⟩ | ⟨hpair, ⟨htables, hrecords⟩, hgrows⟩
  · change left.1 = _ at he
    change S.tolerates e (failed? right.1) at htol
    rw [he]
    refine .inl ⟨e, rfl, ?_⟩
    generalize right.1 = r at htol ⊢
    cases r with
    | ok b => exact S.lasting _ _ htol
    | error _ => exact htol
  · have hmatch : S.Match w c' d' := by
      refine ⟨hm.nesting, ⟨v.trace, right.2.tables, right.2.log ++ v.log, v.frames⟩,
        ⟨htrace, htables, fun hlogged => ?_, hframes, fun f hf => hgrows _ _ (hrecalled f hf)⟩, rfl⟩
      change right.2.log ++ v.log = left.2.log ++ c.log
      rw [hrecords hlogged, hlog hlogged]
      rfl
    change S.Pair (R left.2.tables) left.1 right.1 at hpair
    generalize left.1 = r at hpair ⊢
    generalize right.1 = r' at hpair ⊢
    cases hpair with
    | ok h => exact hf _ _ _ h c' d' hmatch h
    | error h => exact .inr ⟨.error h, rfl, hmatch⟩

/-! ## Brackets -/

theorem Agrees.bracket {v : Nesting} {opened opened' : Context} {x y : Eval α}
    {close : Except Failure α → Context → Context} (hopen : S.Match v opened opened')
    (hxy : S.Yields v P x y)
    (hclose : ∀ r c d, S.Match v c d → S.Match w (close r c) (close r d)) :
    S.Agrees w P (Eval.bracket opened close x c) (Eval.bracket opened' close y d) := by
  rcases hxy opened opened' hopen with ⟨e, he, htol⟩ | ⟨hleft, hresult, hmatch⟩
  · exact .inl ⟨e, he, htol⟩
  · refine .inr ⟨hleft, hresult, ?_⟩
    change S.Match w (close (x opened).1 (x opened).2) (close (y opened').1 (y opened').2)
    rw [hresult]
    exact hclose _ _ _ hmatch

namespace Yields

variable {x y : Eval α}

theorem descending (hS : S.Lawful) {label : String} (hw : S.Descends w)
    (h : S.Entered { w with toReach := w.deeper label } →
      S.Yields { w with toReach := w.deeper label } P x y) :
    S.Yields w P (Eval.descending S.env.config.maxRecursionDepth label x)
      (Eval.descending S.second.config.maxRecursionDepth label y) := by
  rintro c d hm
  obtain rfl := hm.nesting
  obtain ⟨v, hv, rfl⟩ := hm.twin
  simp only [Eval.descending, Computation.get_bind_apply, Context.enterLevel]
  by_cases hdepth : c.depth < S.env.config.maxRecursionDepth
  · have hsecond : c.depth < S.second.config.maxRecursionDepth :=
      Nat.lt_of_lt_of_le hdepth hS.limit_le
    rw [if_neg (Nat.not_lt.2 hdepth), if_neg (Nat.not_lt.2 hsecond)]
    have hbody := h ⟨hS.deeper _ label hw.1 hdepth, hw.2⟩
    refine Agrees.bracket ⟨rfl, v, hv, rfl⟩ hbody ?_
    rintro - c' d' ⟨hnesting, v', hv', rfl⟩
    refine ⟨?_, v', hv', rfl⟩
    exact congrArg (fun v : Nesting => { v with depth := v.depth - 1, chain := v.chain.drop 1 })
      hnesting
  · have hrefuse : S.env.config.maxRecursionDepth < c.depth + 1 := by omega
    rw [if_pos hrefuse]
    rcases hS.refused _ label hw.1 hdepth with htol | ⟨hlimit, hadmits⟩
    · exact .inl ⟨_, rfl, S.lasting _ _ htol⟩
    · have hsame : S.second.config.maxRecursionDepth = S.env.config.maxRecursionDepth := hlimit
      rw [hsame, if_pos hrefuse]
      exact .inr ⟨.error hadmits, rfl, hm⟩

theorem guarding {guard : String} (h : S.Yields { w with guards := guard :: w.guards } P x y) :
    S.Yields w P (Eval.guarding guard x) (Eval.guarding guard y) := by
  rintro c d hm
  obtain rfl := hm.nesting
  obtain ⟨v, hv, rfl⟩ := hm.twin
  simp only [Eval.guarding, Computation.get_bind_apply]
  refine Agrees.bracket (v := { c.nesting with guards := guard :: c.guards })
    ⟨rfl, v, hv, rfl⟩ h ?_
  rintro - c' d' ⟨hnesting, v', hv', rfl⟩
  refine ⟨?_, v', hv', rfl⟩
  exact congrArg (fun v : Nesting => { v with guards := v.guards.drop 1 }) hnesting

/-- The scope of a table or template, if it declares anything. -/
theorem inScope (hS : S.Lawful) {owner : String} {declarations : Option (Assoc String)}
    {collectionId : String} (hw : S.Entered w) (hmade : S.material.Block (declarations.getD []))
    (h : ∀ v, S.Entered v → v.frames = w.frames → S.Yields v P x y) :
    S.Yields w P (Eval.inScope owner declarations collectionId x)
      (Eval.inScope owner declarations collectionId y) := by
  rintro c d hm
  obtain rfl := hm.nesting
  obtain ⟨v, hv, rfl⟩ := hm.twin
  simp only [Eval.inScope, Computation.get_bind_apply]
  cases henter : c.shared.enter owner (declarations.getD []) collectionId with
  | error e => exact .inr ⟨.error (hS.ordinary _ (.declaration e)), rfl, hm⟩
  | ok entered =>
      cases entered with
      | none => exact h _ hw rfl c _ hm
      | some entered =>
          obtain ⟨level, shared⟩ := entered
          obtain ⟨hshared, kept, hkept, hlevel⟩ := SharedStore.enter_eq_some henter
          have hmadeLevel : S.material.Scope level.blank := by
            refine SharedLevel.written_of_declareAll hlevel
              (fun d hd => absurd hd List.not_mem_nil) fun p hp d _ hpattern => ?_
            rw [hpattern]
            exact (hmade p (hkept p hp).1).2
          have hopen : S.material.Open { c.nesting with shared := shared.blank } := by
            rw [hshared]
            exact ⟨hw.2.1, List.forall_mem_cons.2 ⟨hmadeLevel, hw.2.2⟩⟩
          have hentered : S.Entered { c.nesting with shared := shared.blank } :=
            ⟨hS.scope _ _ _ _ _ _ _ _ hw.1 hmade henter, hopen⟩
          let leave (c : Context) : Context := { c with shared := c.shared.leave }
          let beside (c : Context) : Context :=
            { c with trace := v.trace, resolved := v.resolved, log := v.log, frames := v.frames }
          change S.Agrees _ _ (Eval.bracket { c with shared } (fun _ => leave) x c)
            (Eval.bracket (beside { c with shared }) (fun _ => leave) y (beside c))
          refine Agrees.bracket ⟨rfl, v, hv, rfl⟩ (h _ hentered rfl) ?_
          rintro - c' d' ⟨hnesting, v', hv', rfl⟩
          refine ⟨?_, v', hv', rfl⟩
          have hleave : c'.shared.leave.blank = c'.shared.blank.leave := by
            simp only [SharedStore.leave, SharedStore.blank, List.map_drop]
          refine Eq.trans ?_ ((congrArg (fun v : Nesting => { v with shared := v.shared.leave })
            hnesting).trans ?_)
          · simp only [leave, Context.nesting, hleave]
          · simp only [hshared, SharedStore.leave, SharedStore.blank, List.map_cons, List.drop_one,
              List.tail_cons, Context.nesting]

end Yields

/-- Rolling a table that was just resolved. -/
theorem YieldsFrom.withFrame {frame frame' : Frame} {x y : Eval α} (hframe : S.Framed frame frame')
    (h : S.Yields { w with frames := frame :: w.frames } P x y) :
    S.YieldsFrom (fun tables => S.recalls tables frame.collectionId frame.table) w P
      (Eval.withFrame frame x) (Eval.withFrame frame' y) := by
  rintro c d hm hrecalls
  obtain rfl := hm.nesting
  obtain ⟨v, ⟨htrace, hresolved, hlog, hframes, hrecalled⟩, rfl⟩ := hm.twin
  simp only [Eval.withFrame, Computation.get_bind_apply]
  refine Agrees.bracket (v := { c.nesting with frames := frame :: c.frames })
    ⟨rfl, { v with frames := frame' :: v.frames }, ⟨htrace, hresolved, hlog, .cons hframe hframes,
      List.forall_mem_cons.2 ⟨hrecalls, hrecalled⟩⟩, rfl⟩ h ?_
  rintro - c' d' ⟨hnesting, v', ⟨htrace', hresolved', hlog', hframes', hrecalled'⟩, rfl⟩
  refine ⟨?_, { v' with frames := v'.frames.drop 1 },
    ⟨htrace', hresolved', hlog', ?_, fun f hf => hrecalled' f (List.mem_of_mem_drop hf)⟩, rfl⟩
  · exact congrArg (fun v : Nesting => { v with frames := v.frames.drop 1 }) hnesting
  · exact List.forall₂_drop 1 hframes'

/-- Evaluating a variable that was found pending, in the scopes that stay visible. -/
theorem Agrees.settling {name : String} {p : Pending} {x y : Eval Content}
    (hm : S.Match w c d) (hp : c.shared.find name = .pending p)
    (h : S.Related { w with shared := p.store.blank } x y) :
    S.Agrees w (fun _ => True) (Eval.settling p x c) (Eval.settling p y d) := by
  obtain rfl := hm.nesting
  obtain ⟨v, hv, rfl⟩ := hm.twin
  simp only [Eval.settling, Computation.get_bind_apply]
  let resume (r : Except Failure Content) (c : Context) : Context :=
    { c with shared := p.resume r.toOption c.shared }
  let opened : Context := { c with shared := p.store }
  refine Agrees.bind (x := Eval.bracket opened resume x)
    (y := Eval.bracket { opened with
      trace := v.trace, resolved := v.resolved, log := v.log, frames := v.frames } resume y)
    (P := fun _ => True) ?_ fun value _ => ?_
  · refine Agrees.bracket ⟨rfl, v, hv, rfl⟩ h ?_
    rintro r c' d' ⟨hnesting, v', hv', rfl⟩
    refine ⟨?_, v', hv', rfl⟩
    have hstore : c'.shared.blank = p.store.blank :=
      congrArg (fun v : Nesting => v.shared) hnesting
    have hresume : (p.resume r.toOption c'.shared).blank = c.shared.blank :=
      SharedStore.blank_resume hp hstore
    refine Eq.trans ?_ (congrArg (fun v : Nesting => { v with shared := c.shared.blank }) hnesting)
    simp only [resume, Context.nesting, hresume]
  · refine .bind (P := fun _ => True) ?_ fun _ _ => .pure trivial
    exact .change (fun _ => [_]) (fun _ => rfl) (fun _ => rfl) fun _ _ => rfl

/-! ## Steps of the trace -/

namespace Yields

/-- A change of the trace that opens and closes nothing. -/
theorem retrace {h k : OpenTrace → OpenTrace} (hstack : ∀ b, (h b).stack = b.stack)
    (hkeeps : ∀ b b', S.tracing.traces b b' → S.tracing.traces (h b) (k b')) :
    S.Related w (MonadState.modifyGet fun c => ((), { c with trace := h c.trace }) : Eval Unit)
      (MonadState.modifyGet fun c => ((), { c with trace := k c.trace }) : Eval Unit) := by
  rintro c d hm
  obtain rfl := hm.nesting
  obtain ⟨v, ⟨htrace, hresolved, hlog, hframes, hrecalled⟩, rfl⟩ := hm.twin
  refine .inr ⟨.ok trivial, rfl, ?_, { v with trace := k v.trace },
    ⟨hkeeps _ _ htrace, hresolved, hlog, hframes, hrecalled⟩, rfl⟩
  exact congrArg (fun steps => { c.nesting with steps }) (hstack c.trace)

theorem note {step : TraceStep} (hkind : step.kind ≠ .conditional) :
    S.Related w (Eval.note step) (Eval.note step) :=
  .retrace (h := fun b => b.note step) (fun b => b.stack_note step) fun _ _ =>
    S.tracing.note hkind

variable {n m : Option Nat}

theorem annotate (hnode : S.tracing.steps n m) (details : List (String × Json)) :
    S.Related w (Eval.annotate n details) (Eval.annotate m details) :=
  .retrace (h := fun b => b.annotate n details) (k := fun b => b.annotate m details)
    (fun b => b.stack_annotate n details) fun _ _ h => S.tracing.annotate hnode h details

theorem setValue (hnode : S.tracing.steps n m) (value : Json) :
    S.Related w (Eval.setValue n value) (Eval.setValue m value) :=
  .retrace (h := fun b => b.setValue n value) (k := fun b => b.setValue m value)
    (fun b => b.stack_setValue n value) fun _ _ h => S.tracing.setValue hnode h value

theorem setError (hnode : S.tracing.steps n m) (error : String) :
    S.Related w (Eval.setError n error) (Eval.setError m error) :=
  .retrace (h := fun b => b.setError n error) (k := fun b => b.setError m error)
    (fun b => b.stack_setError n error) fun _ _ h => S.tracing.setError hnode h error

end Yields

/-- What a run left, with the step closed in which it ran. -/
def closing (id : Option Nat) (run : Except Failure α × Context) : Except Failure α × Context :=
  (run.1, { run.2 with trace := Eval.closeStep id run.1 run.2.trace })

theorem Match.traces (hm : S.Match w c d) : S.tracing.traces c.trace d.trace := by
  obtain ⟨v, hv, rfl⟩ := hm.twin
  exact hv.trace

/-- Both contexts after a step was closed in them. -/
theorem Match.closing {v : Nesting} {outer outer' : OpenTrace}
    {left right : Except Failure α × Context} (hm : S.Match v left.2 right.2)
    (hresult : right.1 = left.1) (houter : S.tracing.traces outer outer')
    (hstack : v.steps = n.toList ++ outer.stack) (hnode : S.tracing.steps n m) :
    S.Match { v with steps := outer.stack } (closing n left).2 (closing m right).2 := by
  obtain ⟨r', c⟩ := left
  obtain ⟨r, d⟩ := right
  dsimp only at hm hresult
  subst hresult
  obtain ⟨hnesting, u, ⟨htrace, hresolved, hlog, hframes, hrecalled⟩, rfl⟩ := hm
  have hopen : c.trace.stack = n.toList ++ outer.stack :=
    (congrArg Nesting.steps hnesting).trans hstack
  have hleave : (Eval.closeStep n r c.trace).stack = outer.stack := Eval.stack_closeStep _ hopen
  refine ⟨?_, { u with trace := Eval.closeStep m r u.trace },
    ⟨S.tracing.closeStep houter hnode hopen htrace r, hresolved, hlog, hframes, hrecalled⟩, rfl⟩
  refine Eq.trans ?_ (congrArg (fun v => { v with steps := outer.stack }) hnesting)
  simp only [Simulation.closing, Context.nesting, hleave]

/-- Both contexts after a step was begun in them. -/
theorem Match.begin {begun begun' : Option Nat × OpenTrace} (hm : S.Match w c d)
    (htraces : S.tracing.traces begun.2 begun'.2) :
    S.Match { w with steps := begun.2.stack } { c with trace := begun.2 }
      { d with trace := begun'.2 } := by
  obtain ⟨rfl, u, ⟨-, hresolved, hlog, hframes, hrecalled⟩, rfl⟩ := hm
  exact ⟨rfl, { u with trace := begun'.2 }, ⟨htraces, hresolved, hlog, hframes, hrecalled⟩, rfl⟩

/-- Evaluating inside a new step, which is closed again. -/
theorem Yields.traced {body body' : Option Nat → Eval α} {step : TraceStep}
    (hkind : step.kind ≠ .conditional)
    (h : ∀ n m steps, S.tracing.steps n m → S.Yields { w with steps } P (body n) (body' m)) :
    S.Yields w P (Eval.traced step body) (Eval.traced step body') := by
  rintro c d hm
  obtain ⟨hnode, htraces⟩ := S.tracing.enter hkind hm.traces
  obtain rfl := hm.nesting
  change S.Agrees c.nesting P (closing (c.trace.enter step).1 (body _ { c with trace := _ }))
    (closing (d.trace.enter step).1 (body' _ { d with trace := _ }))
  rcases h _ _ _ hnode _ _ (hm.begin htraces) with ⟨e, he, htol⟩ | ⟨hleft, hresult, hmatch⟩
  · exact .inl ⟨e, he, htol⟩
  · exact .inr ⟨hleft, hresult, hmatch.closing hresult hm.traces (c.trace.stack_enter step) hnode⟩

/-! ## Evaluations that assign variables -/

/-- Two evaluations that agree and leave a store as stated. -/
def Leads (S : Simulation) (w : Nesting) (R : SharedStore → Prop) (P : α → Prop)
    (x y : Eval α) : Prop :=
  ∀ c d, S.Match w c d →
    (∃ f, (x c).1 = .error f ∧ S.tolerates f (failed? (y d).1)) ∨
      S.Settled P (x c).1 ∧ (y d).1 = (x c).1 ∧
        ∃ s, R s ∧ S.Match { w with shared := s } (x c).2 (y d).2

theorem Yields.leads {R : SharedStore → Prop} {x y : Eval α} (h : S.Yields w P x y)
    (hR : R w.shared) : S.Leads w R P x y := by
  intro c d hm
  rcases h c d hm with htol | ⟨hleft, hresult, hmatch⟩
  · exact .inl htol
  · exact .inr ⟨hleft, hresult, w.shared, hR, hmatch⟩

namespace Leads

variable {R R' : SharedStore → Prop} {x y : Eval α} {f g : α → Eval β}

theorem mono (hx : S.Leads w R P x y) (hR : ∀ s, R s → R' s) : S.Leads w R' P x y := by
  intro c d hm
  rcases hx c d hm with htol | ⟨hleft, hresult, s, hs, hmatch⟩
  · exact .inl htol
  · exact .inr ⟨hleft, hresult, s, hR s hs, hmatch⟩

theorem bind (hx : S.Leads w R P x y) (hR : ∀ s, R s → R' s)
    (hf : ∀ s a, R s → P a → S.Leads { w with shared := s } R' Q (f a) (g a)) :
    S.Leads w R' Q (x >>= f) (y >>= g) := by
  intro c d hm
  rcases hx c d hm with ⟨e, he, htol⟩ | ⟨hleft, hresult, s, hs, hmatch⟩
  · exact .inl ⟨e, Computation.bind_of_error he, tolerates_bind htol g⟩
  · rw [Computation.bind_apply, Computation.bind_apply]
    rcases hxc : x c with ⟨e | a, c'⟩ <;> rcases hyd : y d with ⟨r, d'⟩ <;>
      rw [hxc, hyd] at hresult hmatch <;> rw [hxc] at hleft <;> cases hresult
    · exact .inr ⟨.error (hleft.failure e rfl), rfl, s, hR s hs, hmatch⟩
    · exact hf s a hs (hleft.value a rfl) c' d' hmatch

/-- Evaluating inside a new step beside the tree, which is closed again. -/
theorem tracedApart {body body' : Option Nat → Eval α} (step : TraceStep)
    (h : ∀ n m steps, S.tracing.steps n m → S.Leads { w with steps } R P (body n) (body' m)) :
    S.Leads w R P (Eval.tracedApart step body) (Eval.tracedApart step body') := by
  rintro c d hm
  obtain ⟨hnode, htraces⟩ := S.tracing.enterApart step hm.traces
  obtain rfl := hm.nesting
  have hstack := c.trace.stack_enterApart step
  rcases h _ _ _ hnode _ _ (hm.begin htraces) with ⟨e, he, htol⟩ | ⟨hleft, hresult, s, hs, hmatch⟩
  · exact .inl ⟨e, he, htol⟩
  · exact .inr ⟨hleft, hresult, s, hs, hmatch.closing hresult hm.traces hstack hnode⟩

end Leads

end Simulation

end RandomTables
