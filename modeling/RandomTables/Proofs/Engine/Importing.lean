-- SUMMARY: A table rolls alike in its collection and through an alias of a neutral collection.
import Mathlib
import RandomTables.Engine.Request
import RandomTables.Proofs.Engine.Caching
import RandomTables.Proofs.Engine.Mirror
import RandomTables.Proofs.Evaluation.HostedPatterns
import RandomTables.Proofs.Registry.Homes
import RandomTables.Proofs.Registry.Local
import RandomTables.Proofs.Registry.Wiring

/-!
# Imports are transparent

What a table refers to is looked up in its own collection, whoever asked for the roll. Only the
shared variables of a document, the static variables that stand in for missing ones and the names
that are refused come from the collection that was asked. So a reference through an alias gives what
the reference gives in the imported collection, as long as the roll comes to nothing that needs
these.

The document of the host is known everywhere in an evaluation: its shared variables stand around all
others, its static variables are read where a collection has none of the name, and no table or
template may declare a name of either. A document that declares nothing can be the host in its place
for whatever makes no use of this. Then each text reads the static variables of its own collection
alone, and declares and reads nothing that the document shares.
-/
namespace RandomTables

/-! ## Names of a document -/

namespace Document

variable (d : Document)

/-- The document with more shared variables. -/
def sharing (extra : Assoc String) : Document := { d with shared := d.shared ++ extra }

/-- A shared variable of the document has the name. -/
def Shares (name : String) : Prop := ∃ p ∈ d.shared, (splitSign p.1).1 = name

/-- No shared or static variable of the document has the name. -/
def Spares (name : String) : Prop := ¬ d.Shares name ∧ name ∉ d.statics.keys

/-- A document that declares and changes nothing for others. -/
structure Neutral : Prop where
  statics : d.statics = []
  shared : d.shared = []
  conditionals : d.conditionals = []

end Document

namespace Registry

variable (r : Registry) (d : Document) (refers : String → String → Prop)

/-- A name that a document does not share. It may be a static variable of the document only where
the collection at hand has a static variable of the name itself. -/
def Unaided (id name : String) : Prop :=
  ¬ d.Shares name ∧ (name ∈ d.statics.keys →
    ∃ c, r.get? id = some c ∧ name ∈ c.document.statics.keys)

/-- What a text of a collection may be made of that makes no use of a document as the host. -/
def unaided (id : String) : Material := .ofUses (refers id) (r.Unaided d id) d.Spares

/-- The simple tables that references lead to. -/
def Referred (id : String) (t : SimpleTable) : Prop :=
  ∃ home ref, refers home ref ∧ r.find ref home = .ok (some ⟨.table (.simple t), id⟩)

/-- Whatever the references lead to makes no use of a document as the host, refers as they do, and
lies in a collection with an id. A simple table brings along the tables that it extends, and what is
remembered of each. -/
def SelfReliant (tables : ResolvedTables) : Prop :=
  ∀ home ref target, refers home ref → r.find ref home = .ok (some target) →
    target.collectionId ≠ "" ∧
      target.definition.Uses (r.unaided d refers target.collectionId) (refers target.collectionId)
        fun t => ∀ owner lent, r.Extends target.collectionId t owner lent →
          (r.unaided d refers target.collectionId).Simple lent ∧
            ∀ resolved, tables.lookup (owner, lent.id) = some resolved →
              (r.unaided d refers target.collectionId).Simple resolved

variable {r d refers} {tables : ResolvedTables}

theorem Referred.holds {id : String} {t : SimpleTable} (h : r.Referred refers id t) :
    r.Holds id t := by
  obtain ⟨home, ref, -, hfind⟩ := h
  exact holds_of_find hfind

namespace SelfReliant

variable (h : r.SelfReliant d refers tables) {id owner : String} {heir lent : SimpleTable}
include h

theorem chain (hheir : r.Referred refers id heir) (hextends : r.Extends id heir owner lent) :
    (r.unaided d refers id).Simple lent ∧
      ∀ resolved, tables.lookup (owner, lent.id) = some resolved →
        (r.unaided d refers id).Simple resolved := by
  obtain ⟨home, ref, hrefers, hfind⟩ := hheir
  exact (h home ref _ hrefers hfind).2 owner lent hextends

theorem lending (hfinished : Finished tables) :
    r.Lending (r.unaided d refers) (r.Referred refers) tables := by
  intro key resolved hlookup
  obtain ⟨hid, hrootless⟩ := hfinished _ (mem_of_lookup hlookup)
  refine ⟨hid, hrootless, fun id hlends => ?_⟩
  obtain ⟨heir, lent, hheir, hextends, hlent⟩ := hlends
  refine (h.chain hheir hextends).2 resolved ?_
  rw [hlent, hid]
  exact hlookup

end SelfReliant

end Registry

/-! ## The two hosts -/

/-- A collection and another one without declarations as hosts of what is found in the first one. -/
def Hosting.importing (env : Surroundings) (d : Document) (collectionId : String)
    (refers : String → String → Prop) : Hosting where
  env
  collectionId
  statics := []
  visited id := id ≠ ""
  refers
  known id := env.registry.Unaided d id
  free := d.Spares
  hidden := d.Shares
  rolls id t :=
    env.registry.Lends (env.registry.Referred refers) id t.id id ∧
      (t.Rootless ∨ env.registry.Holds id t) ∧
        env.registry.Lent (env.registry.unaided d refers) (env.registry.Referred refers) id t
  recalls := env.registry.Lending (env.registry.unaided d refers) (env.registry.Referred refers)
  sound _ := True

namespace Hosting

variable {env : Surroundings} {d : Document} {collectionId : String}
  {refers : String → String → Prop}

theorem staticText_importing (hstatics : env.statics = d.statics) {id name : String}
    (h : env.registry.Unaided d id name) :
    Eval.staticText? (importing env d collectionId refers).second name id =
      Eval.staticText? env name id := by
  unfold Eval.staticText?
  change (Option.bind (env.registry.get? id) _).or none = _
  rw [hstatics, Option.or_none]
  by_cases hname : name ∈ d.statics.keys
  · obtain ⟨c, hc, hown⟩ := h.2 hname
    obtain ⟨text, htext⟩ := Option.isSome_iff_exists.1 (Assoc.isSome_get?_iff.2 hown)
    rw [hc, Option.bind_some, htext]
    rfl
  · rw [Assoc.get?_eq_none_of_not_mem hname, Option.or_none]

/-- The hosts agree on whatever the references lead to. -/
theorem lawful_importing (hr : env.registry.Distinct) (hstatics : env.statics = d.statics)
    {tables : ResolvedTables} (h : env.registry.SelfReliant d refers tables) :
    (importing env d collectionId refers).Lawful where
  fraction _ _ := trivial
  between _ _ _ _ := trivial
  host id hid hempty := absurd (by simpa using hempty) hid
  static _ _ _ hknown := staticText_importing hstatics hknown
  read _ _ hknown := hknown.1
  declared _ hfree := hfree.1
  made id t hrolls := hrolls.2.2 id hrolls.1
  found home ref target _ hrefers hfind := by
    obtain ⟨hid, huses⟩ := h home ref target hrefers hfind
    refine ⟨hid, huses.mono fun t hsimple _ => ?_⟩
    obtain ⟨definition, id⟩ := target
    obtain rfl : definition = .table (.simple t) := hsimple
    have hheld := Registry.holds_of_find hfind
    refine ⟨⟨t, t, ⟨home, ref, hrefers, hfind⟩, .refl, rfl⟩, .inr hheld, ?_⟩
    exact Registry.lent_of_holds hr (fun _ _ => Registry.Referred.holds)
      (fun _ _ _ _ hheir hextends => (h.chain hheir hextends).1) hheld
  inherits id t _ hrolls := by
    intro s hs
    have htracks := Registry.tracks_lent hr (fun _ _ => Registry.Referred.holds)
      fun _ _ _ _ hheir hextends => (h.chain hheir hextends).1
    obtain ⟨hkept, -, hmade⟩ := Registry.inherit_keeps htracks t id s hs hrolls.2
    refine ⟨hkept, fun resolved hresolved => ?_⟩
    dsimp only [importing] at hmade hresolved
    rw [hresolved] at hmade
    obtain ⟨hid, hrootless, hlent⟩ := hmade
    exact ⟨hid ▸ hrolls.1, .inl hrootless, hlent⟩

end Hosting

/-! ## Rolls through an alias -/

section

variable {I : ResolvedTables → Prop}
  {P : ResolvedTables → String → SimpleTable → SimpleTable → Prop}

open Simulation in
theorem Registry.upholds_of_tracks {r : Registry}
    (h : r.Tracks I (fun _ _ => True) (fun _ _ _ => True) P) :
    r.Upholds anything I fun _ _ _ => True where
  made := (registry_anything r).made
  held _ := trivial
  grows _ _ := trivial
  inherit _ collectionId t _ :=
    ((inherit_keeps h t collectionId).of_imp fun _ _ => trivial).mono
      fun _ resolved _ => ⟨simple_anything resolved, trivial⟩

namespace Engine

variable {e : Engine}

/-- Whatever resolving tables keeps holds of all that a reachable engine remembers, if it holds of
nothing. -/
theorem Reachable.remembers (he : e.Reachable) (hnil : I [])
    (h : ∀ r : Registry, r.Tracks I (fun _ _ => True) (fun _ _ _ => True) P) : I e.resolved := by
  have hloads : ∀ {e e' : Engine}, e.Loads e' → I e.resolved → I e'.resolved := by
    intro e e' h he
    cases h with
    | refused => exact he
    | added _ _ => exact hnil
  induction he with
  | initial config => exact hnil
  | load _ id draft sourcePath ih => exact hloads (loads_load _ id sourcePath draft) ih
  | loadDocument _ id d sourcePath ih => exact hloads (loads_loadDocument _ id sourcePath d) ih
  | tryLoad _ id draft sourcePath ih => exact hloads (loads_tryLoad _ id sourcePath draft) ih
  | unload _ id ih =>
      unfold Engine.unload
      split
      · exact hnil
      · exact ih
  | wireImports _ paths ih => exact ih
  | @inherit e _ _ _ owner t _ ih =>
      exact (Registry.inherit_keeps (h e.registry) t owner ⟨e.resolved, []⟩ ih trivial).1
  | @members e _ t collectionId ih =>
      exact (Registry.members_keeps (h e.registry) (Q := fun _ _ => True)
        (fun _ => trivial) t collectionId t.members ⟨e.resolved, []⟩ ih trivial).1
  | @evaluate e _ collectionId request options ih =>
      exact resolved_evaluate (Material.lenient_ofNames _) (fun _ => trivial)
        (Registry.upholds_of_tracks (h e.registry)) ih collectionId request options

end Engine

end

namespace Engine

variable {e : Engine}

/-- Whatever a reachable engine remembers is finished. -/
theorem Reachable.finished (he : e.Reachable) : Registry.Finished e.resolved :=
  he.remembers Registry.finished_nil Registry.tracks_finished

/-- A reachable engine remembers tables under their ids, and all entries of these have ids. -/
theorem Reachable.filed (he : e.Reachable) : Registry.Filed e.resolved :=
  he.remembers (fun _ h => absurd h List.not_mem_nil) Registry.tracks_filed

end Engine

/-! ## Texts that are references -/

namespace Eval

variable {α β : Type}

theorem inside_map (begun : Option Nat × OpenTrace) (g : α → β) (body : Option Nat → Eval α) :
    inside begun (fun node => g <$> body node) = g <$> inside begun body := by
  funext c
  rw [Computation.map_apply]
  simp only [inside, ExceptT.run]
  rw [Computation.map_apply]
  rcases body begun.1 { c with trace := begun.2 } with ⟨(_ | _ | _) | _, _⟩ <;> rfl

theorem traced_map (step : TraceStep) (g : α → β) (body : Option Nat → Eval α) :
    traced step (fun node => g <$> body node) = g <$> traced step body := by
  simp only [traced, inside_map, map_bind]

/-- A text that is a reference to a table or template and nothing else. -/
def RefersTo (text ref : String) : Prop :=
  ∃ span raw, Piece.ofPattern text.toList = [.directive span] ∧
    Directive.parse span.expression = .ok (.act raw (.table ref none))

variable (env : Surroundings) (answer : Answer) (collectionId raw ref : String)

/-- The output of a reference inside its step. -/
def referenceText : Eval String := do
  let d := Directive.act raw (.table ref none)
  log .debug ("Evaluating " ++ d.kind.name ++ " directive '" ++ d.raw ++ "'")
  traced (stepOf d) fun node => do
    let output ← renderTable env answer collectionId node ref
    setValue node (.str output)
    return output

theorem renderDirective_reference (memory : Again) :
    renderDirective env answer collectionId memory (.act raw (.table ref none)) =
      (fun output => (output, Again.ref ref)) <$>
        referenceText env answer collectionId raw ref := by
  rw [renderDirective, performing, referenceText, map_bind]
  dsimp only
  rw [← traced_map]
  simp only [renderAction, map_bind, map_pure, bind_assoc, pure_bind, remembered]

/-- What a text that is a reference is rendered to. -/
theorem renderPattern_reference {text : String} {span : Span}
    (hpieces : Piece.ofPattern text.toList = [.directive span])
    (hparse : Directive.parse span.expression = .ok (.act raw (.table ref none))) (c : Context) :
    renderPattern env answer text collectionId c =
      match referenceText env answer collectionId raw ref c with
      | (.ok output, c) => (⟨[.ofSpan span .table output], none⟩, c)
      | (.error f, c) => (⟨[], some f⟩, c) := by
  rw [renderPattern, hpieces, renderPieces, Computation.run_bind_apply, renderSpan_of_parse hparse,
    renderDirective_reference, Computation.map_apply]
  rcases referenceText env answer collectionId raw ref c with ⟨_ | output, c'⟩ <;> rfl

end Eval

namespace Hosting

variable {H : Hosting} {a b : Answer}

/-- References to the same target give the same text. -/
theorem Agrees.referenceText (hab : H.Answers a b) {ref ref' id id' : String}
    {target : RandomTables.Target} (hfind : H.env.registry.resolve ref id = .ok target)
    (hfind' : H.env.registry.resolve ref' id' = .ok target) (htarget : H.Target target)
    (raw raw' : String) :
    H.Alike (Eval.referenceText H.env a id raw ref)
      (Eval.referenceText H.second b id' raw' ref') := by
  have hroll : H.Alike (Eval.rollReference H.env a id ref)
      (Eval.rollReference H.second b id' ref') := by
    have hsecond : H.second.registry.resolve ref' id' = .ok target := hfind'
    rw [Eval.rollReference, Eval.rollReference, hfind, hsecond]
    exact hab.roll target [] htarget
  refine .next (.relog _ _ _ _) fun _ => .traced fun n m => ?_
  have htable : H.Alike (Eval.renderTable H.env a id n ref)
      (Eval.renderTable H.second b id' m ref') :=
    .next hroll fun _ => .next (.annotate _ _ _) fun _ => .pure trivial
  exact .next htable fun _ => .next (.setValue _ _ _) fun _ => .pure trivial

/-- Two renderings with the same text or the same failure, for contexts beside each other. -/
structure Renders (H : Hosting) (left right : Rendering × Context) : Prop where
  failure : right.1.failure = left.1.failure
  text : Segment.join right.1.segments = Segment.join left.1.segments
  beside : H.Beside left.2 right.2

/-- Texts that are references to the same target are rendered alike. -/
theorem renders_reference (hab : H.Answers a b) {text text' ref ref' id id' : String}
    (htext : Eval.RefersTo text ref) (htext' : Eval.RefersTo text' ref')
    {target : RandomTables.Target} (hfind : H.env.registry.resolve ref id = .ok target)
    (hfind' : H.env.registry.resolve ref' id' = .ok target) (htarget : H.Target target)
    {c d : Context} (hb : H.Beside c d) :
    H.Renders (Eval.renderPattern H.env a text id c)
      (Eval.renderPattern H.second b text' id' d) := by
  obtain ⟨span, raw, hpieces, hparse⟩ := htext
  obtain ⟨span', raw', hpieces', hparse'⟩ := htext'
  rw [Eval.renderPattern_reference _ _ _ _ _ hpieces hparse,
    Eval.renderPattern_reference _ _ _ _ _ hpieces' hparse']
  have hends := Agrees.referenceText hab hfind hfind' htarget raw raw' c d hb
  rcases hleft : Eval.referenceText H.env a id raw ref c with ⟨r, c'⟩
  rcases hright : Eval.referenceText H.second b id' raw' ref' d with ⟨r', d'⟩
  rw [hleft, hright] at hends
  obtain ⟨hresult, -, hbeside⟩ := hends
  obtain rfl : r' = r := hresult
  cases r' with
  | ok output => exact ⟨rfl, rfl, hbeside⟩
  | error f => exact ⟨rfl, rfl, hbeside⟩

end Hosting

/-! ## Requests -/

/-- The scope of a collection with extra shared variables, and the store that it opens. -/
def Collection.opening (c : Collection) (extra : Assoc String) :
    Except DeclarationFailure (SharedLevel × SharedStore) :=
  ({ statics := c.document.statics.keys } : SharedStore).pushDocument c.document.shared extra c.id

/-- A report without what shows how it was come to. -/
def Report.bare (r : Report) : Report := { r with segments := [], trace := none }

/-- The outcome of a rendering where there are no conditionals. -/
def Rendering.finished (collectionId : String) (r : Rendering) (c : Context) :
    (List Segment × Except Failure Outcome) × Context :=
  match r.failure with
  | some f => ((r.segments, .error f), c)
  | none => ((r.segments, .ok { text := Segment.join r.segments, collectionId }),
      c.record .debug .conditionals "Applied 0 of 0 conditionals")

namespace Engine

variable {e : Engine}

/-- What the pattern of a request is rendered to, with the scope of the document open. -/
def rendered (e : Engine) (c : Collection) (text : String) (options : Options)
    (shared : SharedStore) : Rendering × Context :=
  let env := e.surroundings c
  Eval.renderPattern env (env.answer options.shared) text c.id
    { e.freshContext (.pattern text) options c.document.statics.keys with shared }

/-- What a collection without conditionals replies to a pattern, if its scope can be opened. -/
theorem evaluate_pattern {c : Collection} (hloaded : e.registry.loaded c.id = .ok c)
    (hconditionals : c.document.conditionals = []) (options : Options) {level : SharedLevel}
    {shared : SharedStore} (hopens : c.opening options.shared = .ok (level, shared))
    (text : String) :
    let rendered := e.rendered c text options shared
    let finished := rendered.1.finished c.id rendered.2
    e.evaluate c.id (.pattern text) options =
      e.reply c.id (.pattern text) finished.1.1 finished.1.2 finished.2 := by
  intro rendered finished
  let env := e.surroundings c
  let fresh := e.freshContext (.pattern text) options c.document.statics.keys
  have hopened : Request.openDocument env c.document options.shared fresh =
      (.ok (), { fresh with shared }) := by
    rw [Request.openDocument, Computation.get_bind_apply]
    change (Eval.liftDeclaration (c.opening options.shared) >>= _) _ = _
    rw [hopens]
    rfl
  have hrun : e.run c (.pattern text) options = finished := by
    change Request.complete env (env.answer options.shared) (.pattern text) c.document
      options.shared fresh = _
    have hrendered : Eval.renderPattern env (env.answer options.shared) text env.collectionId
        { fresh with shared } = rendered := rfl
    rw [Request.complete_pattern, hopened, hconditionals]
    dsimp only
    rw [hrendered]
    change _ = rendered.1.finished c.id rendered.2
    rcases rendered with ⟨⟨segments, _ | f⟩, c'⟩
    · rfl
    · rfl
  rw [evaluate_of_loaded hloaded, hrun]

/-- Renderings with the same text or failure give the same report, but for what shows how it was
come to. -/
theorem reply_of_renders (e : Engine) {H : Hosting} {left right : Rendering × Context}
    (h : H.Renders left right) (id id' : String) (request request' : Request) :
    let replied (id : String) (request : Request) (rendered : Rendering × Context) :=
      let finished := rendered.1.finished id rendered.2
      e.reply id request finished.1.1 finished.1.2 finished.2
    (replied id' request' right).result.map Report.bare =
        (replied id request left).result.map Report.bare ∧
      (replied id' request' right).engine = (replied id request left).engine := by
  obtain ⟨⟨segments, failure⟩, c⟩ := left
  obtain ⟨⟨segments', failure'⟩, d⟩ := right
  obtain ⟨hfailure, htext, hbeside⟩ := h
  obtain ⟨trace, shared, log, rfl, -⟩ := hbeside.other
  obtain rfl : failure' = failure := hfailure
  cases failure' with
  | none =>
      refine ⟨?_, rfl⟩
      replace htext : Segment.join segments' = Segment.join segments := htext
      change Except.ok (Report.ofOutcome _ _ { text := Segment.join segments', .. }).bare =
        Except.ok (Report.ofOutcome _ _ { text := Segment.join segments, .. }).bare
      rw [htext]
      rfl
  | some f =>
      cases f with
      | error error => exact ⟨rfl, rfl⟩
      | fault fault => exact ⟨rfl, rfl⟩
      | outOfFuel => exact ⟨rfl, rfl⟩

/-- Where the scope of a collection can be opened, it declares what the document and the extra block
share. -/
theorem shares_of_opening {c : Collection} {extra : Assoc String} {level : SharedLevel}
    {shared : SharedStore} (h : c.opening extra = .ok (level, shared)) :
    shared = { statics := c.document.statics.keys, scopes := [level] } ∧
      ∀ v ∈ level.declarations, (c.document.sharing extra).Shares v.name := by
  obtain ⟨hshared, hlevel⟩ := SharedStore.pushDocument_eq_ok h
  refine ⟨hshared, fun v hv => ?_⟩
  have hnames := SharedLevel.names_declareAll hlevel
  have hv' : v.name ∈ level.names := List.mem_map_of_mem hv
  rw [hnames] at hv'
  obtain ⟨p, hp, hname⟩ := List.mem_map.1 hv'
  exact ⟨p, hp, hname⟩

/-- The scope of a neutral collection can be opened where another one can be with the same extra
block. -/
theorem opening_of_neutral {h p : Collection} (hneutral : p.document.Neutral) {extra : Assoc String}
    (hopens : ∃ opened, h.opening extra = .ok opened) :
    ∃ opened, p.opening extra = .ok opened := by
  obtain ⟨⟨level, shared⟩, hopened⟩ := hopens
  have hdeclared := SharedLevel.declareAll_isOk_iff.1
    ⟨level, (SharedStore.pushDocument_eq_ok hopened).2⟩
  obtain ⟨own, hown⟩ : ∃ own, SharedLevel.declareAll { owner := "document", collectionId := p.id }
      extra = .ok own := by
    refine SharedLevel.declareAll_isOk_iff.2 ⟨?_, fun _ _ => rfl⟩
    rw [List.map_append] at hdeclared
    exact hdeclared.1.of_append_right
  have hstatics : SharedStore.staticAmong {} own.names = none :=
    List.find?_eq_none.2 fun _ _ => Bool.false_ne_true
  refine ⟨(own, { scopes := [own] }), ?_⟩
  rw [Collection.opening, hneutral.statics, hneutral.shared, SharedStore.pushDocument,
    List.nil_append, hown]
  dsimp only [bind, Except.bind]
  rw [show SharedStore.staticAmong { statics := Assoc.keys [] } own.names = none from hstatics]
  rfl

/-! ## References through an alias -/

section

variable {h p : Collection} {importAlias id text text' ref ref' : String} {target : Target}
  {refers : String → String → Prop} {options : Options} (he : e.Reachable)
  (hself : e.registry.SelfReliant (h.document.sharing options.shared) refers e.resolved)
include he hself

/-- References to the same target are rendered alike in a collection and in a neutral one. -/
theorem renders_importing (hneutral : p.document.Neutral)
    (hlimits : e.config.within p.document.metadata = e.config.within h.document.metadata)
    {level level' : SharedLevel} {shared shared' : SharedStore}
    (hopens : h.opening options.shared = .ok (level, shared))
    (hopens' : p.opening options.shared = .ok (level', shared')) (htext : Eval.RefersTo text ref)
    (htext' : Eval.RefersTo text' ref') (hid : h.id ≠ "") (hrefers : refers h.id ref)
    (hfind : e.registry.find ref h.id = .ok (some target))
    (hfind' : e.registry.find ref' p.id = .ok (some target)) :
    (Hosting.importing (e.surroundings h) (h.document.sharing options.shared) p.id refers).Renders
      (e.rendered h text options shared) (e.rendered p text' options shared') := by
  let H := Hosting.importing (e.surroundings h) (h.document.sharing options.shared) p.id refers
  have hdistinct : (e.surroundings h).registry.Distinct := he.orderly.distinct
  have hlawful : H.Lawful := Hosting.lawful_importing hdistinct rfl hself
  have hsecond : H.second = e.surroundings p := by
    change Surroundings.mk _ _ _ _ _ = Surroundings.mk _ _ _ _ _
    rw [hneutral.statics, hlimits]
    rfl
  have hanswers : H.Answers ((e.surroundings h).answer options.shared)
      (H.second.answer options.shared) :=
    hlawful.answers ((e.surroundings h).callBound options.shared)
  have hbeside : H.Beside
      { e.freshContext (.pattern text) options h.document.statics.keys with shared }
      { e.freshContext (.pattern text') options p.document.statics.keys with
        shared := shared' } := by
    obtain ⟨rfl, hlevel⟩ := shares_of_opening hopens
    obtain ⟨rfl, hlevel'⟩ := shares_of_opening hopens'
    have hhidden : ∀ v ∈ level'.declarations, H.hidden v.name := by
      intro v hv
      obtain ⟨block, hblock, hname⟩ := hlevel' v hv
      rw [Document.sharing, hneutral.shared] at hblock
      exact ⟨block, List.mem_append_right _ hblock, hname⟩
    refine ⟨fun _ hf => absurd hf List.not_mem_nil, hself.lending he.finished, trivial, _, _, _,
      rfl, .cons (.apart hlevel hhidden) .nil, fun name hfree => ?_⟩
    change p.document.statics.keys.contains name = h.document.statics.keys.contains name
    rw [hneutral.statics]
    exact (Bool.eq_false_iff.2 fun hmem => hfree.2 (List.contains_iff_mem.1 hmem)).symm
  have hrenders := Hosting.renders_reference hanswers htext htext' (Registry.resolve_of_find hfind)
    (Registry.resolve_of_find hfind') (hlawful.found h.id ref target hid hrefers hfind) hbeside
  rw [hsecond] at hrenders
  exact hrenders

/-- A neutral collection that imports another one under an alias gives the same for a reference
through the alias as the other one for the reference itself, be it a text or a failure, as long as
the roll relies on no name of the document as that of the host. -/
theorem evaluate_imported (hh : h ∈ e.registry.collections) (hp : p ∈ e.registry.collections)
    (hneutral : p.document.Neutral) (hconditionals : h.document.conditionals = [])
    (hlimits : e.config.within p.document.metadata = e.config.within h.document.metadata)
    (hwired : p.wired.get? importAlias = some h.id)
    (hdot : importAlias.toList.contains '.' = false) (hfound : h.find? id = some target)
    (hlocal : p.find? (importAlias ++ "." ++ id) = none) (htext : Eval.RefersTo text id)
    (htext' : Eval.RefersTo text' (importAlias ++ "." ++ id))
    (hopens : ∃ opened, h.opening options.shared = .ok opened) (hrefers : refers h.id id) :
    let asked (c : Collection) (text : String) := e.evaluate c.id (.pattern text) options
    (asked p text').result.map Report.bare = (asked h text).result.map Report.bare ∧
      (asked p text').engine = (asked h text).engine := by
  intro asked
  have hdistinct := he.orderly.distinct
  have hfind := Registry.find_of_local hdistinct hh hfound
  have halias : e.registry.aliasedId p importAlias = some h.id := by
    rw [Registry.aliasedId, hwired]
    rfl
  have hfind' := Registry.find_of_alias hdistinct hp hdot halias hlocal hfind
  have hid : h.id ≠ "" := by
    have hhome : target.collectionId = h.id := by
      unfold Collection.find? at hfound
      split at hfound
      · cases hfound
        rfl
      · obtain ⟨_, -, rfl⟩ := Option.map_eq_some_iff.1 hfound
        rfl
    exact hhome ▸ (hself h.id id target hrefers hfind).1
  obtain ⟨⟨level', shared'⟩, hopened'⟩ := opening_of_neutral hneutral hopens
  obtain ⟨⟨level, shared⟩, hopened⟩ := hopens
  have hloaded : ∀ {c : Collection}, c ∈ e.registry.collections → e.registry.loaded c.id = .ok c :=
    fun hc => by rw [Registry.loaded, Registry.get?_of_mem hdistinct hc]
  have hasked := evaluate_pattern (hloaded hh) hconditionals options hopened text
  have hasked' := evaluate_pattern (hloaded hp) hneutral.conditionals options hopened' text'
  have hrenders := renders_importing he hself hneutral hlimits hopened hopened' htext htext' hid
    hrefers hfind hfind'
  dsimp only [asked]
  rw [hasked, hasked']
  exact e.reply_of_renders hrenders h.id p.id (.pattern text) (.pattern text')

end

/-- A table refers to another one and to a static variable, beside a shared variable of the document
that it does not read. -/
theorem evaluate_imported_of_reference_and_static :
    let text (value : String) : Entry := { value := some value }
    let host : Document := {
      metadata := { name := "h", namespaceText := "h" }
      statics := [("k", "v")]
      shared := [("x", "\x7b\x7bw\x7d\x7d")]
      tables := [.simple { id := "t", entries := [text "\x7b\x7bw\x7d\x7d \x7b\x7b$k\x7d\x7d"] },
        .simple { id := "w", entries := [text "0", text "1"] }] }
    let user : Document := {
      metadata := { name := "p", namespaceText := "p" }
      tables := []
      imports := [{ path := "q", importAlias := "a" }] }
    let e : Engine := ({} : Engine).afterAll [.loadDocument "h" host none,
      .loadDocument "p" user none, .wireImports [("q", "h")]]
    let options (draw : Nat) : Options := { source := .ofDraws [0, draw] }
    let here (draw : Nat) := e.evaluate "h" (.pattern "\x7b\x7bt\x7d\x7d") (options draw)
    let there (draw : Nat) := e.evaluate "p" (.pattern "\x7b\x7ba.t\x7d\x7d") (options draw)
    e.Reachable ∧
    (here 0).result.toOption.map (·.text) = some "0 v" ∧
    (here (2 ^ 52)).result.toOption.map (·.text) = some "1 v" ∧
    ∀ draw, (there draw).result.map Report.bare = (here draw).result.map Report.bare ∧
      (there draw).engine = (here draw).engine := by
  intro text host user e options here there
  let h : Collection := { id := "h", document := host }
  let p : Collection := { id := "p", document := user, wired := [("a", "h")] }
  let t : SimpleTable := { id := "t", entries := [text "\x7b\x7bw\x7d\x7d \x7b\x7b$k\x7d\x7d"] }
  let w : SimpleTable := { id := "w", entries := [text "0", text "1"] }
  let refers (home ref : String) : Prop := home = "h" ∧ (ref = "t" ∨ ref = "w")
  have hreachable : e.Reachable :=
    .wireImports (.loadDocument (.loadDocument (.initial {}) "h" host none) "p" user none) _
  have hloaded : e = { registry := ⟨[h, p]⟩ } := by
    have hhost : (({} : Engine).loadDocument "h" host none).engine = { registry := ⟨[h]⟩ } :=
      engine_loadDocument _ _ _ (by decide +kernel) rfl
    have huser := engine_loadDocument { registry := ⟨[h]⟩ } "p" none (d := user)
      (by decide +kernel) (Option.isNone_iff_eq_none.1 (by decide +kernel))
    change (((Engine.loadDocument _ "h" host none).engine.loadDocument
      "p" user none).engine.wireImports _).engine = _
    rw [hhost, huser]
    simp only [Registry.place]
    rw [if_neg (by decide)]
    rfl
  have hregistry : e.registry = ⟨[h, p]⟩ := by rw [hloaded]
  have hresolved : e.resolved = [] := by rw [hloaded]
  let M := e.registry.unaided (host.sharing []) refers "h"
  have hshares : ∀ name, (host.sharing []).Shares name → name = "x" := by
    rintro name ⟨block, hblock, rfl⟩
    obtain rfl := List.mem_singleton.1 hblock
    rfl
  have hplain : ∀ value, Span.find value.toList = [] → M.pattern value := by
    intro value hnone span hspan
    rw [hnone] at hspan
    exact absurd hspan List.not_mem_nil
  have hblank : M.pattern "" := hplain "" (by cbv)
  have hentry : ∀ value, M.pattern value → M.Entry (text value) := fun _ hvalue =>
    ⟨hvalue, hblank, fun _ h => absurd h List.not_mem_nil⟩
  have hreading : M.pattern "\x7b\x7bw\x7d\x7d \x7b\x7b$k\x7d\x7d" := by
    have hspans : Span.find "\x7b\x7bw\x7d\x7d \x7b\x7b$k\x7d\x7d".toList =
        [⟨"\x7b\x7bw\x7d\x7d".toList, "w".toList, 0, 5⟩,
          ⟨"\x7b\x7b$k\x7d\x7d".toList, "$k".toList, 6, 12⟩] := by cbv
    have hreference : Directive.parse "w".toList = .ok (.act "w" (.table "w" none)) := by
      with_unfolding_all rfl
    have hvariable : Directive.parse "$k".toList = .ok (.act "$k" (.variable "k" none)) := by
      with_unfolding_all rfl
    intro span hspan d hd
    rw [hspans, List.mem_pair] at hspan
    rcases hspan with rfl | rfl
    · rw [hreference] at hd
      cases hd
      exact ⟨rfl, .inr rfl⟩
    · rw [hvariable] at hd
      cases hd
      refine ⟨fun hshared => absurd (hshares "k" hshared) (by decide), fun _ => ⟨h, ?_, ?_⟩⟩
      · rw [hregistry]
        rfl
      · exact List.mem_singleton_self _
  have hsimple : ∀ s, s = t ∨ s = w → M.Simple s := by
    have hshared : M.Block [] := fun _ h => absurd h List.not_mem_nil
    have hsets : ∀ set ∈ ([] : Assoc String), M.pattern set.2 :=
      fun _ h => absurd h List.not_mem_nil
    rintro s (rfl | rfl)
    · exact ⟨trivial, hshared, List.forall_mem_singleton.2 (hentry _ hreading), hsets⟩
    · refine ⟨trivial, hshared, List.forall_mem_cons.2 ⟨hentry _ (hplain "0" (by cbv)),
        List.forall_mem_singleton.2 (hentry _ (hplain "1" (by cbv)))⟩, hsets⟩
  have hself : e.registry.SelfReliant (host.sharing []) refers e.resolved := by
    rintro home ref target ⟨rfl, href⟩ hfind
    obtain ⟨s, hs, hrootless, rfl⟩ : ∃ s, (s = t ∨ s = w) ∧ (s.parent.getD "").isEmpty = true ∧
        target = ⟨.table (.simple s), "h"⟩ := by
      rw [hregistry] at hfind
      rcases href with rfl | rfl
      · have ht : Registry.find ⟨[h, p]⟩ "t" "h" = .ok (some ⟨.table (.simple t), "h"⟩) := by cbv
        cases ht.symm.trans hfind
        exact ⟨t, .inl rfl, rfl, rfl⟩
      · have hw : Registry.find ⟨[h, p]⟩ "w" "h" = .ok (some ⟨.table (.simple w), "h"⟩) := by cbv
        cases hw.symm.trans hfind
        exact ⟨w, .inr rfl, rfl, rfl⟩
    refine ⟨(by decide : "h" ≠ ""), fun owner lent hextends => ?_⟩
    cases hextends with
    | refl => exact ⟨hsimple s hs, fun resolved h => by rw [hresolved] at h; cases h⟩
    | next hsome _ _ => exact absurd (hsome.symm.trans hrootless) (by decide)
  have htext : Eval.RefersTo "\x7b\x7bt\x7d\x7d" "t" :=
    ⟨⟨"\x7b\x7bt\x7d\x7d".toList, "t".toList, 0, 5⟩, "t", by cbv, by with_unfolding_all rfl⟩
  have htext' : Eval.RefersTo "\x7b\x7ba.t\x7d\x7d" ("a" ++ "." ++ "t") :=
    ⟨⟨"\x7b\x7ba.t\x7d\x7d".toList, "a.t".toList, 0, 7⟩, "a.t", by cbv, by with_unfolding_all rfl⟩
  have hheld : h ∈ e.registry.collections ∧ p ∈ e.registry.collections := by
    rw [hregistry]
    exact ⟨.head _, .tail _ (.head _)⟩
  have hwired : p.wired.get? "a" = some h.id := rfl
  have hfound : h.find? "t" = some ⟨.table (.simple t), "h"⟩ := rfl
  have hopens (draw : Nat) : ∃ opened, h.opening (options draw).shared = .ok opened := ⟨_, rfl⟩
  have hlimits : e.config.within p.document.metadata = e.config.within h.document.metadata := by
    rw [hloaded]
    rfl
  have hlocal : p.find? ("a" ++ "." ++ "t") = none := rfl
  have hself' (draw : Nat) :
      e.registry.SelfReliant (h.document.sharing (options draw).shared) refers e.resolved := hself
  have himported (draw : Nat) := evaluate_imported hreachable (hself' draw) hheld.1 hheld.2
    ⟨rfl, rfl, rfl⟩ rfl hlimits hwired (by decide) hfound hlocal htext htext' (hopens draw)
    ⟨rfl, .inl rfl⟩
  exact ⟨hreachable, by decide +kernel, by decide +kernel, himported⟩

/-- The host does not let the table declare a name that its document shares. The collection that
imports it knows nothing of the name, and rolls the table. -/
theorem evaluate_imported_misses_shadowing :
    let host : Document := {
      metadata := { name := "h", namespaceText := "h" }
      shared := [("x", "v")]
      tables := [.simple {
        id := "t"
        shared := some [("x", "w")]
        entries := [{ value := some "\x7b\x7b$x\x7d\x7d" }] }] }
    let user : Document := {
      metadata := { name := "p", namespaceText := "p" }
      tables := []
      imports := [{ path := "q", importAlias := "a" }] }
    let e : Engine := ({} : Engine).afterAll [.loadDocument "h" host none,
      .loadDocument "p" user none, .wireImports [("q", "h")]]
    let options : Options := { source := .ofDraws [0] }
    let here := (e.evaluate "h" (.pattern "\x7b\x7bt\x7d\x7d") options).result
    let there := (e.evaluate "p" (.pattern "\x7b\x7ba.t\x7d\x7d") options).result
    e.Reachable ∧ user.Neutral ∧ host.conditionals = [] ∧
    (e.registry.get? "p").map (·.wired) = some [("a", "h")] ∧
    here.toOption.map (fun r => (r.text, r.error)) =
      some ("", some (.declaration (.shadowsDocument "x" "table 't'"))) ∧
    there.toOption.map (fun r => (r.text, r.error)) = some ("w", none) ∧
    there.map Report.bare ≠ here.map Report.bare := by
  intro host user e options here there
  have hreachable : e.Reachable :=
    .wireImports (.loadDocument (.loadDocument (.initial {}) "h" host none) "p" user none) _
  have hhere : here.toOption.map (fun r => (r.text, r.error)) =
      some ("", some (.declaration (.shadowsDocument "x" "table 't'"))) := by decide +kernel
  have hthere : there.toOption.map (fun r => (r.text, r.error)) = some ("w", none) := by
    decide +kernel
  refine ⟨hreachable, ⟨rfl, rfl, rfl⟩, rfl, by decide +kernel, hhere, hthere, fun hsame => ?_⟩
  clear_value here there
  have hbare : ∀ r : Except Failure Report, r.toOption.map (fun r => (r.text, r.error)) =
      (r.map Report.bare).toOption.map fun r => (r.text, r.error) := by
    rintro (_ | _)
    · rfl
    · rfl
  rw [hbare, hsame, ← hbare, hhere] at hthere
  exact absurd hthere (by decide)

end Engine

end RandomTables
