-- SUMMARY: Two collections that an evaluation may be for, and contexts that differ as they do.
import RandomTables.Proofs.Selection.Pool
import RandomTables.Proofs.Evaluation.Portable

/-!
# Hosts of an evaluation

An evaluation is for one collection, its host. The host gives the static variables that are read
where the collection at hand has none of the name, the shared variables around all others, and the
names that no table or template may declare. A `Hosting` is two hosts of the same evaluation, with
what the evaluation comes to: the collections that it visits, the references that it follows, the
variables that it reads, the names that are declared, the tables that are rolled and remembered, and
the states of the source. Where the two hosts agree on all of this, the evaluation does the same for
both, up to its trace and its log.
-/
namespace RandomTables

/-! ## Stores with the same declarations -/

namespace SharedStore

variable {s s' : SharedStore}

/-- A name of a block means the same in both stores. -/
structure SameName (s s' : SharedStore) (name : String) : Prop where
  declares : s'.declares name = s.declares name
  outermost : s'.outermost.any (·.declares name) = s.outermost.any (·.declares name)
  static : s'.statics.contains name = s.statics.contains name

theorem SameName.shadows {name : String} (h : SameName s s' name) (owner : String) :
    s'.shadows? owner name = s.shadows? owner name := by
  rw [SharedStore.shadows?, SharedStore.shadows?, h.outermost, h.static]

/-- Stores with the same declarations and static variables know the same names. -/
theorem sameName_of_declarations
    (h : s'.scopes.map (·.declarations) = s.scopes.map (·.declarations))
    (hstatics : s'.statics = s.statics) (name : String) : SameName s s' name where
  declares := by
    have hany := congrArg (List.any · fun ds : List Declaration =>
      (ds.find? fun d => d.name = name).isSome) h
    rw [List.any_map, List.any_map] at hany
    exact hany
  outermost := by
    have hlast := congrArg (fun all : List (List Declaration) => all.getLast?.any fun ds =>
      (ds.find? fun d => d.name = name).isSome) h
    simp only [List.getLast?_map, Option.any_map] at hlast
    exact hlast
  static := by rw [hstatics]

theorem unclaimed_congr (owner : String) {block : List (String × String)}
    (h : ∀ p ∈ block, SameName s s' (splitSign p.1).1) :
    s'.unclaimed owner block = s.unclaimed owner block := by
  induction block with
  | nil => rfl
  | cons p rest ih =>
      rw [List.forall_mem_cons] at h
      simp only [SharedStore.unclaimed, h.1.shadows, h.1.declares, ih h.2]

/-- A block opens the same scope in both stores, or fails to in both. -/
theorem enter_congr (owner collectionId : String) {block : Assoc String}
    (h : ∀ p ∈ block, SameName s s' (splitSign p.1).1) :
    s'.enter owner block collectionId = (s.enter owner block collectionId).map
      (Option.map fun e => (e.1, { s' with scopes := e.1 :: s'.scopes })) := by
  unfold SharedStore.enter
  rw [unclaimed_congr owner h]
  split
  · rfl
  · cases s.unclaimed owner block with
    | error e => rfl
    | ok kept =>
        change (SharedLevel.declareAll _ kept >>= _) = Except.map _
          (SharedLevel.declareAll _ kept >>= _)
        cases SharedLevel.declareAll { owner, collectionId } kept with
        | error e => rfl
        | ok level => rfl

end SharedStore

/-! ## What is used -/

/-- Patterns that follow references and read variables as stated, and blocks that declare names as
stated. -/
def Material.ofUses (refers known free : String → Prop) : Material where
  pattern text := ∀ span ∈ Span.find text.toList, ∀ d, Directive.parse span.expression = .ok d →
    d.Names refers known
  name := free
  calculation _ := True

/-- A definition made of the material, whose references are as stated. A simple table is as stated
itself. -/
def Definition.Uses (M : Material) (refers : String → Prop) (rolls : SimpleTable → Prop) :
    Definition → Prop
  | .template t => M.Template t
  | .table (.simple t) => rolls t
  | .table (.composite t) =>
    M.Block (t.shared.getD []) ∧ ∀ source ∈ t.sources, refers source.tableId
  | .table (.collection t) => M.Block (t.shared.getD []) ∧ ∀ member ∈ t.members, refers member

theorem Definition.Uses.mono {M : Material} {refers : String → Prop}
    {rolls rolls' : SimpleTable → Prop}
    {d : Definition} (h : d.Uses M refers rolls)
    (hrolls : ∀ t, d = .table (.simple t) → rolls t → rolls' t) : d.Uses M refers rolls' := by
  cases d with
  | template t => exact h
  | table t =>
      cases t with
      | simple t => exact hrolls t rfl h
      | composite t => exact h
      | collection t => exact h

/-- Two hosts of an evaluation, and what it comes to. -/
structure Hosting where
  env : Surroundings
  /-- The second host and its static variables. -/
  collectionId : String
  statics : Assoc String
  /-- The collections that the evaluation comes to. -/
  visited : String → Prop
  /-- The references that it follows in a collection. -/
  refers : String → String → Prop
  /-- The variables that it reads in a collection. -/
  known : String → String → Prop
  /-- The names that tables and templates declare. -/
  free : String → Prop
  /-- The names that only one of the hosts may declare. -/
  hidden : String → Prop
  /-- The simple tables that are rolled in a collection. -/
  rolls : String → SimpleTable → Prop
  /-- The tables that are remembered. -/
  recalls : ResolvedTables → Prop
  /-- The states that the source comes to. -/
  sound : Source → Prop

namespace Hosting

variable (H : Hosting)

/-- The surroundings of the second host. -/
def second : Surroundings := { H.env with collectionId := H.collectionId, statics := H.statics }

/-- What the texts of a collection are made of. -/
def material (id : String) : Material := .ofUses (H.refers id) (H.known id) H.free

/-- A target that the evaluation may come to. -/
def Target (t : RandomTables.Target) : Prop :=
  H.visited t.collectionId ∧
    t.definition.Uses (H.material t.collectionId) (H.refers t.collectionId) (H.rolls t.collectionId)

/-- A roll that is going on. -/
structure Frame (f : RandomTables.Frame) : Prop where
  visited : H.visited f.collectionId
  rolls : H.rolls f.collectionId f.table
  description : (H.material f.collectionId).pattern (f.description.getD "")

section

variable {α : Type}

/-- A draw that leaves a sound source and gives a value as stated, if any. -/
def Draws (P : α → Prop) (x : Draw α) : Prop :=
  ∀ source, H.sound source → H.sound (x source).2 ∧ ∀ a, (x source).1 = .ok a → P a

/-- Resolving tables keeps what is remembered and gives a value as stated, if any. -/
def Resolves (P : α → Prop) (x : Resolve α) : Prop :=
  ∀ s : Resolving, H.recalls s.tables →
    H.recalls (x s).2.tables ∧ ∀ a, (x s).1 = .ok a → P a

end

/-- What two hosts have to agree on. -/
structure Lawful : Prop where
  fraction : ∀ source, H.sound source → H.sound source.fraction.2
  between : ∀ source low high, H.sound source → H.sound (source.between low high).2
  /-- Where no collection is at hand, the host is. -/
  host : ∀ id, H.visited id → id.isEmpty = true →
    H.collectionId = H.env.collectionId ∧ H.visited H.env.collectionId ∧
      ∀ text, (H.material id).pattern text → (H.material H.env.collectionId).pattern text
  static : ∀ id name, H.visited id → H.known id name →
    Eval.staticText? H.second name id = Eval.staticText? H.env name id
  read : ∀ id name, H.known id name → ¬ H.hidden name
  declared : ∀ name, H.free name → ¬ H.hidden name
  found : ∀ id ref target, H.visited id → H.refers id ref →
    H.env.registry.find ref id = .ok (some target) → H.Target target
  made : ∀ id t, H.rolls id t → (H.material id).Simple t
  inherits : ∀ id t, H.visited id → H.rolls id t →
    H.Resolves (H.rolls id) (H.env.registry.inherit H.env.base t id)

/-! ## Contexts -/

/-- A scope in place of another one. Where they differ, both declare hidden names alone. -/
inductive Level : SharedLevel → SharedLevel → Prop where
  | same {s : SharedLevel} (hvisited : H.visited s.collectionId)
    (hmade : (H.material s.collectionId).Scope s) : Level s s
  | apart {s s' : SharedLevel} (h : ∀ d ∈ s.declarations, H.hidden d.name)
    (h' : ∀ d ∈ s'.declarations, H.hidden d.name) : Level s s'

/-- Stores with scopes in place of each other. -/
structure Store (s s' : SharedStore) : Prop where
  scopes : List.Forall₂ H.Level s.scopes s'.scopes
  statics : ∀ name, H.free name → s'.statics.contains name = s.statics.contains name

/-- Two contexts that differ as the hosts do. -/
structure Beside (c d : Context) : Prop where
  frames : ∀ f ∈ c.frames, H.Frame f
  recalled : H.recalls c.resolved
  sound : H.sound c.source
  other : ∃ trace shared log, d = { c with trace, shared, log } ∧ H.Store c.shared shared

section

variable {α β : Type}

/-- Two runs with the same result, which is as stated if it is a value. -/
structure Ends (P : α → Prop) (left right : Except Failure α × Context) : Prop where
  result : right.1 = left.1
  value : ∀ a, left.1 = .ok a → P a
  beside : H.Beside left.2 right.2

/-- Two evaluations that end alike for both hosts. -/
def Agrees (P : α → Prop) (x y : Eval α) : Prop := ∀ c d, H.Beside c d → H.Ends P (x c) (y d)

/-- Two evaluations that end alike, whatever their value is. -/
abbrev Alike (x y : Eval α) : Prop := H.Agrees (fun _ => True) x y

end

/-- Answers to calls that are alike for both hosts. -/
structure Answers (a b : Answer) : Prop where
  pattern : ∀ text id, H.visited id → (H.material id).pattern text →
    H.Alike (a (.pattern text id)) (b (.pattern text id))
  roll : ∀ target excluded, H.Target target →
    H.Alike (a (.roll target excluded)) (b (.roll target excluded))
  shared : ∀ owner id (d : Declaration), H.visited id → (H.material id).pattern d.pattern →
    H.Alike (a (.shared owner id d)) (b (.shared owner id d))

variable {H} {α β : Type} {P : α → Prop} {Q : β → Prop} {x y : Eval α} {f g : α → Eval β}
  {c d : Context}

/-! ## Scopes of shared variables -/

theorem declaration?_of_hidden {s : SharedLevel} (h : ∀ d ∈ s.declarations, H.hidden d.name)
    {name : String} (hname : ¬ H.hidden name) : s.declaration? name = none := by
  refine List.find?_eq_none.2 fun d hd hsame => hname ?_
  rw [← of_decide_eq_true hsame]
  exact h d hd

namespace Level

variable {s s' : SharedLevel} (h : H.Level s s') {name : String} (hname : ¬ H.hidden name)
include h hname

theorem declaration? : s'.declaration? name = s.declaration? name := by
  cases h with
  | same _ _ => rfl
  | apart h h' => rw [declaration?_of_hidden h hname, declaration?_of_hidden h' hname]

theorem declares : s'.declares name = s.declares name := by
  rw [SharedLevel.declares, SharedLevel.declares, h.declaration? hname]

/-- A scope that declares what is not hidden is the same for both hosts. -/
theorem eq_of_declares {d : Declaration} (hd : s.declaration? name = some d) :
    s' = s ∧ H.visited s.collectionId ∧ (H.material s.collectionId).Scope s := by
  cases h with
  | same hvisited hmade => exact ⟨rfl, hvisited, hmade⟩
  | apart h _ =>
      rw [declaration?_of_hidden h hname] at hd
      cases hd

end Level

/-- What a name means in stores beside each other. -/
inductive Finds (H : Hosting) (statics statics' : List String) : Lookup → Lookup → Prop where
  | undeclared : Finds H statics statics' .undeclared .undeclared
  | illegal (e : DeclarationFailure) : Finds H statics statics' (.illegal e) (.illegal e)
  | known (c : Content) : Finds H statics statics' (.known c) (.known c)
  | pending {scope : SharedLevel} {d : Declaration} {hidden hidden' outer outer' : List SharedLevel}
    (hvisited : H.visited scope.collectionId) (hmade : (H.material scope.collectionId).Scope scope)
    (hd : d ∈ scope.declarations) (hhidden : List.Forall₂ H.Level hidden hidden')
    (houter : List.Forall₂ H.Level outer outer') :
    Finds H statics statics' (.pending ⟨scope, d, hidden,
        ⟨statics, { scope with active := d :: scope.active } :: outer⟩⟩)
      (.pending ⟨scope, d, hidden',
        ⟨statics', { scope with active := d :: scope.active } :: outer'⟩⟩)

theorem finds_findIn {statics statics' : List String} {name : String} (hname : ¬ H.hidden name)
    {scopes scopes' hidden hidden' : List SharedLevel} (hscopes : List.Forall₂ H.Level scopes scopes')
    (hhidden : List.Forall₂ H.Level hidden hidden') :
    H.Finds statics statics' (SharedStore.findIn statics hidden name scopes)
      (SharedStore.findIn statics' hidden' name scopes') := by
  induction hscopes generalizing hidden hidden' with
  | nil => exact .undeclared
  | @cons scope scope' outer outer' hscope houter ih =>
      rw [SharedStore.findIn, SharedStore.findIn, hscope.declaration? hname]
      cases hd : scope.declaration? name with
      | none => exact ih (List.rel_append hhidden (.cons hscope .nil))
      | some d =>
          obtain ⟨rfl, hvisited, hmade⟩ := hscope.eq_of_declares hname hd
          dsimp only
          split
          · exact .illegal _
          · split
            · exact .known _
            · exact .pending hvisited hmade (List.mem_of_find?_eq_some hd) hhidden houter

namespace Store

variable {s s' : SharedStore} (h : H.Store s s')
include h

section

variable {name : String} (hname : ¬ H.hidden name)
include hname

theorem finds : H.Finds s.statics s'.statics (s.find name) (s'.find name) :=
  finds_findIn hname h.scopes .nil

/-- The scopes of both stores declare the name in the same places. -/
theorem declared : s'.scopes.map (·.declares name) = s.scopes.map (·.declares name) := by
  have hscopes := h.scopes
  generalize s.scopes = scopes at hscopes ⊢
  generalize s'.scopes = scopes' at hscopes ⊢
  induction hscopes with
  | nil => rfl
  | cons hscope _ ih => rw [List.map_cons, List.map_cons, ih, hscope.declares hname]

theorem declares : s'.declares name = s.declares name := by
  have hany := congrArg (List.any · id) (h.declared hname)
  rw [List.any_map, List.any_map] at hany
  exact hany

end

theorem sameName {name : String} (hname : ¬ H.hidden name) (hfree : H.free name) :
    SharedStore.SameName s s' name where
  declares := h.declares hname
  outermost := by
    have hlast := congrArg (fun all : List Bool => all.getLast?.any id) (h.declared hname)
    simp only [List.getLast?_map, Option.any_map] at hlast
    exact hlast
  static := h.statics name hfree

theorem leave : H.Store s.leave s'.leave := ⟨List.forall₂_drop 1 h.scopes, h.statics⟩

/-- A variable gets its value, or none if its evaluation failed, in a scope of either store. -/
theorem settle (d : Declaration) (value : Option Content) :
    List.Forall₂ H.Level (SharedStore.settle d value s.scopes)
      (SharedStore.settle d value s'.scopes) := by
  have hscopes := h.scopes
  generalize s.scopes = scopes at hscopes ⊢
  generalize s'.scopes = scopes' at hscopes ⊢
  cases hscopes with
  | nil => exact .nil
  | cons hscope houter =>
      refine .cons ?_ houter
      cases hscope with
      | same hvisited hmade => exact .same hvisited hmade
      | apart h h' => exact .apart h h'

end Store

/-- A block of the material opens the same scope in both stores, or fails to in both. -/
theorem Lawful.enter (hH : H.Lawful) {s s' : SharedStore} (h : H.Store s s')
    (owner collectionId : String) {block : Assoc String}
    (hblock : (H.material collectionId).Block block) :
    s'.enter owner block collectionId = (s.enter owner block collectionId).map
      (Option.map fun e => (e.1, { s' with scopes := e.1 :: s'.scopes })) :=
  SharedStore.enter_congr owner collectionId fun p hp =>
    h.sameName (hH.declared _ (hblock p hp).1) (hblock p hp).1

/-! ## Combining evaluations -/

namespace Agrees

theorem pure {a : α} (h : P a) : H.Agrees P (pure a) (pure a) :=
  fun _ _ hb => ⟨rfl, fun _ ha => Except.ok.inj ha ▸ h, hb⟩

theorem throw (e : Failure) : H.Agrees P (throw e) (throw e) := fun _ _ hb => ⟨rfl, nofun, hb⟩

theorem bind (hx : H.Agrees P x y) (hf : ∀ a, P a → H.Agrees Q (f a) (g a)) :
    H.Agrees Q (x >>= f) (y >>= g) := by
  intro c d hb
  rw [Computation.bind_apply, Computation.bind_apply]
  have hxy := hx c d hb
  rcases hxc : x c with ⟨r, c'⟩
  rcases hyd : y d with ⟨r', d'⟩
  rw [hxc, hyd] at hxy
  obtain ⟨hresult, hvalue, hbeside⟩ := hxy
  obtain rfl : r = r' := hresult.symm
  cases r with
  | error e => exact ⟨rfl, nofun, hbeside⟩
  | ok a => exact hf a (hvalue a rfl) c' d' hbeside

theorem next (hx : H.Alike x y) (hf : ∀ a, H.Agrees Q (f a) (g a)) :
    H.Agrees Q (x >>= f) (y >>= g) := hx.bind fun a _ => hf a

theorem map {h : α → β} (hx : H.Agrees P x y) (hPQ : ∀ a, P a → Q (h a)) :
    H.Agrees Q (h <$> x) (h <$> y) := by
  rw [map_eq_pure_bind, map_eq_pure_bind]
  exact hx.bind fun a ha => .pure (hPQ a ha)

theorem get_bind {f g : Context → Eval β} (h : ∀ c d, H.Beside c d → H.Agrees Q (f c) (g d)) :
    H.Agrees Q (get >>= f) (get >>= g) := fun c d hb => h c d hb c d hb

theorem lift {e : Except Failure α} (h : ∀ a, e = .ok a → P a) :
    H.Agrees P (Eval.lift e) (Eval.lift e) := by
  cases e with
  | ok a => exact .pure (h a rfl)
  | error f => exact .throw f

theorem liftResolution {e : Except ResolutionFailure α} (h : ∀ a, e = .ok a → P a) :
    H.Agrees P (Eval.liftResolution e) (Eval.liftResolution e) := by
  cases e with
  | ok a => exact .pure (h a rfl)
  | error e => exact .throw (.resolution e)

theorem tryCatch {handle handle' : Failure → Eval α} (hx : H.Agrees P x y)
    (hhandle : ∀ f, H.Agrees P (handle f) (handle' f)) :
    H.Agrees P (tryCatch x handle) (tryCatch y handle') := by
  intro c d hb
  rw [Computation.tryCatch_apply, Computation.tryCatch_apply]
  have hxy := hx c d hb
  rcases hxc : x c with ⟨r, c'⟩
  rcases hyd : y d with ⟨r', d'⟩
  rw [hxc, hyd] at hxy
  obtain ⟨hresult, hvalue, hbeside⟩ := hxy
  obtain rfl : r = r' := hresult.symm
  cases r with
  | error e => exact hhandle e c' d' hbeside
  | ok a => exact ⟨rfl, hvalue, hbeside⟩

theorem draw {x : Draw α} (h : H.Draws P x) : H.Agrees P (Eval.draw x) (Eval.draw x) := by
  rintro c _ ⟨hframes, hrecalled, hsound, trace, shared, log, rfl, hstore⟩
  obtain ⟨hlater, hvalue⟩ := h c.source hsound
  exact ⟨rfl, hvalue, hframes, hrecalled, hlater, trace, shared, log, rfl, hstore⟩

theorem resolving {x : Resolve α} (h : H.Resolves P x) :
    H.Agrees P (Eval.resolving x) (Eval.resolving x) := by
  rintro c _ ⟨hframes, hrecalled, hsound, trace, shared, log, rfl, hstore⟩
  obtain ⟨hlater, hvalue⟩ := h ⟨c.resolved, []⟩ hrecalled
  exact ⟨rfl, hvalue, hframes, hlater, hsound, trace, shared, _, rfl, hstore⟩

/-! ## Changing contexts -/

/-- Changes of what the hosts have in common. -/
theorem change {h k : Context → Context} (hhk : ∀ c d, H.Beside c d → H.Beside (h c) (k d)) :
    H.Alike (modify h : Eval Unit) (modify k) :=
  fun c d hb => ⟨rfl, fun _ _ => trivial, hhk c d hb⟩

/-- Records of the log, which need not be the same. -/
theorem relog (level level' : LogLevel) (message message' : String) :
    H.Alike (Eval.log level message) (Eval.log level' message') := by
  refine .change ?_
  rintro c _ ⟨hframes, hrecalled, hsound, trace, shared, log, rfl, hstore⟩
  exact ⟨hframes, hrecalled, hsound, trace, shared, _, rfl, hstore⟩

theorem log (level : LogLevel) (message : String) :
    H.Alike (Eval.log level message) (Eval.log level message) := .relog _ _ _ _

/-- Changes of the traces, which need not be the same. -/
theorem retrace (h k : OpenTrace → OpenTrace) :
    H.Alike (modify fun c => { c with trace := h c.trace } : Eval Unit)
      (modify fun c => { c with trace := k c.trace }) := by
  refine .change ?_
  rintro c _ ⟨hframes, hrecalled, hsound, trace, shared, log, rfl, hstore⟩
  exact ⟨hframes, hrecalled, hsound, _, shared, log, rfl, hstore⟩

theorem note (step : TraceStep) : H.Alike (Eval.note step) (Eval.note step) :=
  .retrace (·.note step) (·.note step)

theorem annotate (n m : Option Nat) (details : List (String × Json)) :
    H.Alike (Eval.annotate n details) (Eval.annotate m details) :=
  .retrace (·.annotate n details) (·.annotate m details)

theorem setValue (n m : Option Nat) (value : Json) :
    H.Alike (Eval.setValue n value) (Eval.setValue m value) :=
  .retrace (·.setValue n value) (·.setValue m value)

theorem setError (n m : Option Nat) (error : String) :
    H.Alike (Eval.setError n error) (Eval.setError m error) :=
  .retrace (·.setError n error) (·.setError m error)

theorem publish (name : String) (sets : Assoc Content) :
    H.Alike (modify (Context.publish name sets) : Eval Unit) (modify (Context.publish name sets)) := by
  refine .change ?_
  rintro c _ ⟨hframes, hrecalled, hsound, trace, shared, log, rfl, hstore⟩
  exact ⟨hframes, hrecalled, hsound, trace, shared, log, rfl, hstore⟩

theorem describe (tableName tableId rolledValue description : String) :
    H.Alike (modify (Context.describe tableName tableId rolledValue description) : Eval Unit)
      (modify (Context.describe tableName tableId rolledValue description)) := by
  refine .change ?_
  rintro c _ ⟨hframes, hrecalled, hsound, trace, shared, log, rfl, hstore⟩
  exact ⟨hframes, hrecalled, hsound, trace, shared, log, rfl, hstore⟩

theorem instantiate (name text : String) :
    H.Alike (modify fun c => { c with instances := c.instances.put name text } : Eval Unit)
      (modify fun c => { c with instances := c.instances.put name text }) := by
  refine .change ?_
  rintro c _ ⟨hframes, hrecalled, hsound, trace, shared, log, rfl, hstore⟩
  exact ⟨hframes, hrecalled, hsound, trace, shared, log, rfl, hstore⟩

theorem capture (name : String) (items : Captured) :
    H.Alike (modify (Context.capture name items) : Eval Unit)
      (modify (Context.capture name items)) := by
  refine .change ?_
  rintro c _ ⟨hframes, hrecalled, hsound, trace, shared, log, rfl, hstore⟩
  unfold Context.capture
  split
  · exact ⟨hframes, hrecalled, hsound, trace, shared, _, rfl, hstore⟩
  · exact ⟨hframes, hrecalled, hsound, trace, shared, log, rfl, hstore⟩

/-! ## Brackets -/

/-- What was opened beside each other is closed beside each other. -/
theorem bracket {opened opened' : Context} {close close' : Except Failure α → Context → Context}
    (hopen : H.Beside opened opened')
    (hclose : ∀ r c d, H.Beside c d → H.Beside (close r c) (close' r d)) (hxy : H.Agrees P x y) :
    H.Agrees P (Eval.bracket opened close x) (Eval.bracket opened' close' y) := by
  intro _ _ _
  obtain ⟨hresult, hvalue, hbeside⟩ := hxy opened opened' hopen
  refine ⟨hresult, hvalue, ?_⟩
  change H.Beside (close (x opened).1 (x opened).2) (close' (y opened').1 (y opened').2)
  rw [hresult]
  exact hclose _ _ _ hbeside

theorem inside {begun begun' : Option Nat × OpenTrace} {body body' : Option Nat → Eval α}
    (h : ∀ n m, H.Agrees P (body n) (body' m)) :
    H.Agrees P (Eval.inside begun body) (Eval.inside begun' body') := by
  rintro c _ ⟨hframes, hrecalled, hsound, trace, shared, log, rfl, hstore⟩
  let opened : Context := { c with trace := begun.2 }
  let opened' : Context := { c with trace := begun'.2, shared, log }
  have hopen : H.Beside opened opened' :=
    ⟨hframes, hrecalled, hsound, begun'.2, shared, log, rfl, hstore⟩
  obtain ⟨hresult, hvalue, hframes', hrecalled', hsound', trace', shared', log', hd, hstore'⟩ :=
    h begun.1 begun'.1 opened opened' hopen
  let close := Eval.closeStep begun'.1 (body' begun'.1 opened').1
  refine ⟨hresult, hvalue, hframes', hrecalled', hsound', close trace', shared', log', ?_, hstore'⟩
  exact congrArg (fun d : Context => { d with trace := close d.trace }) hd

theorem traced {step step' : TraceStep} {body body' : Option Nat → Eval α}
    (h : ∀ n m, H.Agrees P (body n) (body' m)) :
    H.Agrees P (Eval.traced step body) (Eval.traced step' body') :=
  .get_bind fun _ _ _ => .inside h

theorem descending (limit : Nat) (label : String) (h : H.Agrees P x y) :
    H.Agrees P (Eval.descending limit label x) (Eval.descending limit label y) := by
  refine .get_bind ?_
  rintro c _ ⟨hframes, hrecalled, hsound, trace, shared, log, rfl, hstore⟩
  unfold Context.enterLevel
  dsimp only
  by_cases hdepth : limit < c.depth + 1
  · rw [if_pos hdepth, if_pos hdepth]
    exact .throw _
  · rw [if_neg hdepth, if_neg hdepth]
    refine .bracket ⟨hframes, hrecalled, hsound, trace, shared, log, rfl, hstore⟩ ?_ h
    rintro - c' _ ⟨hframes', hrecalled', hsound', trace', shared', log', rfl, hstore'⟩
    exact ⟨hframes', hrecalled', hsound', trace', shared', log', rfl, hstore'⟩

theorem withFrame {frame : RandomTables.Frame} (hframe : H.Frame frame)
    (h : H.Agrees P x y) : H.Agrees P (Eval.withFrame frame x) (Eval.withFrame frame y) := by
  refine .get_bind ?_
  rintro c _ ⟨hframes, hrecalled, hsound, trace, shared, log, rfl, hstore⟩
  refine .bracket ⟨List.forall_mem_cons.2 ⟨hframe, hframes⟩, hrecalled, hsound, trace, shared, log,
    rfl, hstore⟩ ?_ h
  rintro - c' _ ⟨hframes', hrecalled', hsound', trace', shared', log', rfl, hstore'⟩
  exact ⟨fun f hf => hframes' f (List.mem_of_mem_drop hf), hrecalled', hsound', trace', shared', log',
    rfl, hstore'⟩

theorem guarding (guard : String) (h : H.Agrees P x y) :
    H.Agrees P (Eval.guarding guard x) (Eval.guarding guard y) := by
  refine .get_bind ?_
  rintro c _ ⟨hframes, hrecalled, hsound, trace, shared, log, rfl, hstore⟩
  refine .bracket ⟨hframes, hrecalled, hsound, trace, shared, log, rfl, hstore⟩ ?_ h
  rintro - c' _ ⟨hframes', hrecalled', hsound', trace', shared', log', rfl, hstore'⟩
  exact ⟨hframes', hrecalled', hsound', trace', shared', log', rfl, hstore'⟩

/-- The scope of a table or template, if it declares anything. -/
theorem inScope (hH : H.Lawful) (owner : String) {declarations : Option (Assoc String)}
    {collectionId : String} (hvisited : H.visited collectionId)
    (hblock : (H.material collectionId).Block (declarations.getD [])) (h : H.Agrees P x y) :
    H.Agrees P (Eval.inScope owner declarations collectionId x)
      (Eval.inScope owner declarations collectionId y) := by
  refine .get_bind ?_
  rintro c _ ⟨hframes, hrecalled, hsound, trace, shared, log, rfl, hstore⟩
  dsimp only
  rw [hH.enter hstore owner collectionId hblock]
  cases henter : c.shared.enter owner (declarations.getD []) collectionId with
  | error e => exact .throw (.declaration e)
  | ok entered =>
      cases entered with
      | none => exact h
      | some entered =>
          obtain ⟨level, opened⟩ := entered
          obtain ⟨rfl, kept, hkept, hlevel⟩ := SharedStore.enter_eq_some henter
          have hmade : (H.material collectionId).Scope level := by
            refine SharedLevel.written_of_declareAll hlevel
              (fun d hd => absurd hd List.not_mem_nil) fun p hp d _ hpattern => ?_
            rw [hpattern]
            exact (hblock p (hkept p hp).1).2
          have hhome : level.collectionId = collectionId := by
            refine SharedLevel.declareAll_induction (P := fun s => s.collectionId = collectionId)
              (fun _ _ _ _ hs hdeclare => ?_) hlevel rfl
            rw [(SharedLevel.declare_eq_ok hdeclare).2]
            exact hs
          have hopen : H.Store { c.shared with scopes := level :: c.shared.scopes }
              { shared with scopes := level :: shared.scopes } :=
            ⟨.cons (.same (hhome ▸ hvisited) (hhome ▸ hmade)) hstore.scopes, hstore.statics⟩
          let leave (c : Context) : Context := { c with shared := c.shared.leave }
          let within : Context :=
            { c with shared := { c.shared with scopes := level :: c.shared.scopes } }
          let within' : Context :=
            { c with trace, log, shared := { shared with scopes := level :: shared.scopes } }
          change H.Agrees P (Eval.bracket within (fun _ => leave) x)
            (Eval.bracket within' (fun _ => leave) y)
          refine .bracket ⟨hframes, hrecalled, hsound, trace, _, log, rfl, hopen⟩ ?_ h
          rintro - c' _ ⟨hframes', hrecalled', hsound', trace', shared', log', rfl, hstore'⟩
          exact ⟨hframes', hrecalled', hsound', trace', _, log', rfl, hstore'.leave⟩

/-- Evaluating a variable that is pending in both stores. -/
theorem settling {statics statics' : List String} {p p' : Pending}
    (hp : H.Finds statics statics' (.pending p) (.pending p'))
    (hstatics : ∀ name, H.free name → statics'.contains name = statics.contains name)
    {x y : Eval Content} (h : H.Alike x y) : H.Alike (Eval.settling p x) (Eval.settling p' y) := by
  refine .get_bind ?_
  rintro c _ ⟨hframes, hrecalled, hsound, trace, shared, log, rfl, hstore⟩
  cases hp with
  | @pending scope d hidden hidden' outer outer' hvisited hmade hd hhidden houter =>
      have hopen : H.Store ⟨statics, { scope with active := d :: scope.active } :: outer⟩
          ⟨statics', { scope with active := d :: scope.active } :: outer'⟩ :=
        ⟨.cons (.same hvisited hmade) houter, hstatics⟩
      refine .next (.bracket ⟨hframes, hrecalled, hsound, trace, _, log, rfl, hopen⟩ ?_ h)
        fun value => .next ?_ fun _ => .pure trivial
      · rintro r c' _ ⟨hframes', hrecalled', hsound', trace', shared', log', rfl, hstore'⟩
        exact ⟨hframes', hrecalled', hsound', trace', _, log', rfl,
          List.rel_append hhidden (hstore'.settle d r.toOption), hstore'.statics⟩
      · refine .change ?_
        rintro c' _ ⟨hframes', hrecalled', hsound', trace', shared', log', rfl, hstore'⟩
        exact ⟨hframes', hrecalled', hsound', trace', shared', _, rfl, hstore'⟩

end Agrees

end Hosting

end RandomTables
