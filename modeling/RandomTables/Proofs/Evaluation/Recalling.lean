-- SUMMARY: Evaluations keep remembered tables, sources that are fit and rolls that are underway.
import RandomTables.Proofs.Evaluation.HostedPatterns
import RandomTables.Proofs.Evaluation.Tracking
import RandomTables.Proofs.Registry.Inheriting
import RandomTables.Random.Source

/-!
# Recalled tables

A table that was resolved is remembered, and whatever is evaluated afterwards leaves it so:
resolving a table does nothing to what is remembered of others, and nothing at all where the table
is remembered itself. A script of draws stays one. Both are what an evaluation comes to beside
itself.
-/
namespace RandomTables

/-- One host beside itself, where what is remembered is as stated. -/
def Hosting.alone (env : Surroundings) (I : ResolvedTables → Prop) : Hosting where
  env
  collectionId := env.collectionId
  statics := env.statics
  visited _ := True
  refers _ _ := True
  known _ _ := True
  free _ := True
  hidden _ := False
  rolls _ _ := True
  recalls := I
  sound := Source.Proper

/-- One host beside itself, with a table that is remembered under a key. -/
abbrev Hosting.recalling (env : Surroundings) (key : String × String) (table : SimpleTable) : Hosting :=
  .alone env fun tables => tables.lookup key = some table

namespace Hosting

variable {env : Surroundings} {I : ResolvedTables → Prop} {key : String × String} {table : SimpleTable}

theorem pattern_alone (id text : String) : ((alone env I).material id).pattern text :=
  fun _ _ d _ => d.names_any (fun _ => trivial) fun _ => trivial

theorem block_alone (id : String) (block : Assoc String) : ((alone env I).material id).Block block :=
  fun _ _ => ⟨trivial, pattern_alone _ _⟩

theorem entry_alone (id : String) (e : Entry) : ((alone env I).material id).Entry e :=
  ⟨pattern_alone _ _, pattern_alone _ _, fun _ _ => pattern_alone _ _⟩

theorem simple_alone (id : String) (t : SimpleTable) : ((alone env I).material id).Simple t where
  made := trivial
  shared := block_alone _ _
  entries e _ := entry_alone _ e
  defaultSets _ _ := pattern_alone _ _

theorem target_alone (t : RandomTables.Target) : (alone env I).Target t := by
  refine ⟨trivial, ?_⟩
  obtain ⟨definition, owner⟩ := t
  cases definition with
  | template t => exact ⟨block_alone _ _, pattern_alone _ _⟩
  | table t =>
      cases t with
      | simple t => trivial
      | composite t => exact ⟨block_alone _ _, fun _ _ => trivial⟩
      | collection t => exact ⟨block_alone _ _, fun _ _ => trivial⟩

/-- A context beside itself. -/
theorem beside_alone {c : Context} (hresolved : I c.resolved) (hsource : c.source.Proper) :
    (alone env I).Beside c c where
  frames _ _ := ⟨trivial, trivial, pattern_alone _ _⟩
  recalled := hresolved
  sound := hsource
  other := ⟨c.trace, c.shared, c.log, rfl,
    List.forall₂_same.2 fun _ _ => .same trivial fun _ _ => pattern_alone _ _, fun _ _ => rfl⟩

/-- One host beside itself agrees with itself, if inheriting keeps what is remembered as stated. -/
theorem lawful_alone (hI : ∀ id t,
    (alone env I).Resolves (fun _ => True) (env.registry.inherit env.base t id)) :
    (alone env I).Lawful where
  fraction _ := Source.proper_fraction
  between _ low high h := Source.proper_between h low high
  host _ _ _ := ⟨rfl, trivial, fun _ _ => pattern_alone _ _⟩
  static _ _ _ _ := rfl
  read _ _ _ := id
  declared _ _ := id
  found _ _ target _ _ _ := target_alone target
  made id t _ := simple_alone id t
  inherits id t _ _ := hI id t

/-- A roll leaves a source that is fit for draws. -/
theorem proper_of_roll (env : Surroundings) (fuel : Nat) (target : RandomTables.Target)
    (used : List String) {c : Context} (hsource : c.source.Proper) :
    (Eval.answerWithin env fuel (.roll target used) c).2.source.Proper := by
  have hlawful : (alone env fun _ => True).Lawful :=
    lawful_alone fun _ _ _ _ => ⟨trivial, fun _ _ => trivial⟩
  exact ((hlawful.answers fuel).roll target used (target_alone target) c c
    (beside_alone trivial hsource)).beside.sound

/-! ## Resolving -/

/-- What is remembered under another key is no concern of a table that is not remembered. -/
theorem Resolves.remember {collectionId : String} {t : SimpleTable} (h : key ≠ (collectionId, t.id)) :
    (recalling env key table).Resolves (fun _ => True) (Resolve.remember collectionId t) := by
  intro s hs
  refine ⟨?_, fun _ _ => trivial⟩
  change List.lookup key (((collectionId, t.id), t) :: s.tables) = some table
  rw [List.lookup_cons]
  split
  · rename_i hsame
    exact absurd (eq_of_beq hsame) h
  · exact hs

theorem Resolves.log (level : LogLevel) (message : String) :
    (recalling env key table).Resolves (fun _ => True) (Resolve.log level message) :=
  fun _ hs => ⟨hs, fun _ _ => trivial⟩

theorem Resolves.inheritFrom (r : Registry) (config : Config) (fuel : Nat) (t : SimpleTable)
    (collectionId : String) (depth : Nat) (chain : List String) :
    (recalling env key table).Resolves (fun _ => True)
      (r.inheritFrom config fuel t collectionId depth chain) := by
  induction fuel generalizing t collectionId depth chain with
  | zero => exact .throw _
  | succ fuel ih =>
      intro s hs
      rw [Registry.inheritFrom, Computation.get_bind_apply]
      cases hlookup : s.tables.lookup (collectionId, t.id) with
      | some found => exact ⟨hs, fun _ _ => trivial⟩
      | none =>
          have hother : key ≠ (collectionId, t.id) := by
            rintro rfl
            cases hlookup.symm.trans hs
          dsimp only
          refine (?_ : (recalling env key table).Resolves (fun _ => True) _) s hs
          split
          · exact .bind (.remember hother) fun _ _ => .pure trivial
          · split
            · exact .bind (P := fun _ => False) (.throw _) fun _ h => h.elim
            · refine .bind (P := fun _ => True) (.lift fun _ _ => trivial) fun found _ => ?_
              split
              · refine .bind (ih _ _ _ _) fun parent _ => ?_
                refine .bind (.remember hother) fun _ _ => .bind (.log _ _) fun _ _ => ?_
                exact .pure trivial
              · exact .throw _
              · exact .throw _

/-- One host beside itself agrees with itself. -/
theorem lawful_recalling (env : Surroundings) (key : String × String) (table : SimpleTable) :
    (recalling env key table).Lawful :=
  lawful_alone fun id t => .inheritFrom env.registry env.base _ t id 0 []

/-- The evaluation of an entry keeps what is remembered, and the kind of the source. -/
theorem outcomeOf_recalling (fuel : Nat) (s : Selection) (t : SimpleTable) {c : Context}
    (hlookup : c.resolved.lookup key = some table) (hsource : c.source.Proper) :
    (Eval.outcomeOf env (Eval.answerWithin env fuel) s t c).2.resolved.lookup key = some table ∧
      (Eval.outcomeOf env (Eval.answerWithin env fuel) s t c).2.source.Proper := by
  have hlawful := lawful_recalling env key table
  have hrolls : (recalling env key table).rolls s.collectionId t := trivial
  have hends := (Agrees.outcomeOf (hlawful.answers fuel) hlawful trivial hrolls (entry_alone _ _))
    c c (beside_alone hlookup hsource)
  exact ⟨hends.beside.recalled, hends.beside.sound⟩

end Hosting

/-! ## Resolved tables -/

namespace Registry

variable {r : Registry} {config : Config} {collectionId : String} {t table : SimpleTable}
  {s s' : Resolving}

/-- A table that is remembered is resolved to what is remembered. -/
theorem inherit_of_lookup (h : s.tables.lookup (collectionId, t.id) = some table) :
    r.inherit config t collectionId s = (.ok table, s) := by
  rw [inherit, inheritFrom, Computation.get_bind_apply, h]
  rfl

/-- A table that extends no other one is resolved, whatever is remembered. -/
theorem exists_inherit_of_own (config : Config) (collectionId : String)
    (hparent : (t.parent.getD "").isEmpty = true) (s : Resolving) :
    ∃ resolved, (r.inherit config t collectionId s).1 = .ok resolved := by
  rw [inherit, inheritFrom, Computation.get_bind_apply]
  cases s.tables.lookup (collectionId, t.id) with
  | some found => exact ⟨found, rfl⟩
  | none =>
      dsimp only
      rw [if_pos hparent]
      exact ⟨t.identified, rfl⟩

/-- A table that was resolved is remembered. -/
theorem lookup_of_inherit (h : r.inherit config t collectionId s = (.ok table, s')) :
    s'.tables.lookup (collectionId, t.id) = some table := by
  have hkept : ∀ {tables : ResolvedTables}, table.id = t.id →
      (remembering collectionId table tables).lookup (collectionId, t.id) = some table := by
    intro tables hid
    rw [remembering, List.lookup_cons, hid, beq_self_eq_true]
  rw [inherit, inheritFrom, Computation.get_bind_apply] at h
  cases hlookup : s.tables.lookup (collectionId, t.id) with
  | some found =>
      rw [hlookup] at h
      cases h
      exact hlookup
  | none =>
      rw [hlookup] at h
      dsimp only at h
      split at h
      · cases h
        exact hkept rfl
      · split at h
        · cases h
        · obtain ⟨found, s₁, hfound, hrest⟩ := Computation.bind_eq_ok h
          split at hrest
          · obtain ⟨parent, s₂, hparent, hlast⟩ := Computation.bind_eq_ok hrest
            cases hlast
            exact hkept rfl
          · cases hrest
          · cases hrest

end Registry

/-! ## Rolls that are underway

While the patterns of an entry are evaluated, the frame of its roll is the innermost one and its
table is remembered. Whatever they come to, other rolls and templates and shared variables, closes
the frames that it opens and leaves what is remembered. So a repetition finds the entry that it
stands in, and its table is resolved to what the entry was drawn from. -/

/-- One host beside itself comes to whatever a repetition repeats. -/
theorem Hosting.repeats_alone {env : Surroundings} {I : ResolvedTables → Prop} (id : String)
    (memory : Again) : (alone env I).Repeats id memory := by
  cases memory <;> trivial

namespace Eval

/-! ## Frames -/

/-- Evaluations close the frames that they open. -/
def framing : Tracking where
  stands _ := True
  leads c c' := c'.frames = c.frames
  ends _ := True

theorem lawful_framing (assigns : String → Prop) : framing.Lawful assigns where
  refl _ := rfl
  trans _ _ _ h h' := h'.trans h
  stands _ _ _ _ := trivial
  ends _ _ _ _ _ := trivial
  change f hf c := by
    cases hf with
    | capture name items =>
        change (c.capture name items).frames = c.frames
        unfold Context.capture
        dsimp only
        split <;> rfl
    | _ => rfl
  draw _ _ := rfl
  resolve _ _ _ := rfl
  assign _ _ _ _ _ _ _ := rfl
  opens _ _ _ _ _ := trivial
  closes c d close e h _ hleads := by
    change (close e).frames = c.frames
    change e.frames = d.frames at hleads
    cases h with
    | frame frame => exact congrArg (List.drop 1) hleads
    | _ => exact hleads
  inside _ _ _ _ _ _ _ _ := trivial

variable {env : Surroundings} {frame : Frame} {c c' : Context} {fuel : Nat}

theorem frames_of_evaluation {α : Type} {x : Answer → Eval α}
    (hx : Evaluation (fun _ => False) x) (fuel : Nat) (c : Context) :
    (x (answerWithin env fuel) c).2.frames = c.frames :=
  (lawful_framing _).leads_evaluation hx fuel trivial

/-! ## The roll of an entry -/

/-- The roll of a frame is underway: it is the innermost one, and its table is remembered. -/
structure Underway (frame : Frame) (c : Context) : Prop where
  current : c.frames.head? = some frame
  recalled : c.resolved.lookup (frame.collectionId, frame.table.id) = some frame.table
  proper : c.source.Proper

namespace Underway

/-- What else may have changed does not matter. -/
theorem of_same (h : Underway frame c) (hframes : c'.frames = c.frames)
    (hresolved : c'.resolved = c.resolved) (hsource : c'.source = c.source) : Underway frame c' :=
  ⟨hframes ▸ h.current, hresolved ▸ h.recalled, hsource ▸ h.proper⟩

/-- The table of the frame is resolved to itself. -/
theorem inherit (h : Underway frame c) :
    env.registry.inherit env.base frame.table frame.collectionId ⟨c.resolved, []⟩ =
      (.ok frame.table, ⟨c.resolved, []⟩) := Registry.inherit_of_lookup h.recalled

/-- What an evaluation keeps beside itself, it keeps of a roll that is underway. -/
theorem after {α : Type} {x : Answer → Eval α} (hx : Evaluation (fun _ => False) x)
    (hself : ∀ key table, ∃ P, (Hosting.recalling env key table).Agrees P
      (x (answerWithin env fuel)) (x (answerWithin env fuel))) (h : Underway frame c) :
    Underway frame (x (answerWithin env fuel) c).2 := by
  obtain ⟨P, hagrees⟩ := hself (frame.collectionId, frame.table.id) frame.table
  have hends := hagrees c c (Hosting.beside_alone h.recalled h.proper)
  exact ⟨frames_of_evaluation hx fuel c ▸ h.current, hends.beside.recalled, hends.beside.sound⟩

section

variable (h : Underway frame c) (env : Surroundings) (fuel : Nat)
include h

theorem renderSets (collectionId tableId : String) (sets : List (String × String)) :
    Underway frame (Eval.renderSets env (answerWithin env fuel) collectionId tableId sets c).2 := by
  let x (answer : Answer) : Eval (Assoc Content) :=
    Eval.renderSets env answer collectionId tableId sets
  have hx : Evaluation (fun _ => False) x := fun _ _ => .renderSets env _ _ _
  refine h.after hx fun key table => ?_
  have hlawful := Hosting.lawful_recalling env key table
  exact ⟨_, .renderSets (hlawful.answers fuel) hlawful trivial tableId fun _ _ =>
    Hosting.pattern_alone _ _⟩

theorem condition (subject : Option String) (collectionId : String) (e : Expr) :
    Underway frame (e.eval
      (expressionScope env (answerWithin env fuel) false subject collectionId) c).2 := by
  let x (answer : Answer) : Eval Value :=
    e.eval (expressionScope env answer false subject collectionId)
  have hx : Evaluation (fun _ => False) x :=
    fun _ _ => (Uniform.eval env false subject collectionId e).composed
  refine h.after hx fun key table => ?_
  have hlawful := Hosting.lawful_recalling env key table
  exact ⟨_, .eval (.ofHosts (hlawful.answers fuel) hlawful trivial false subject) e
    (e.reads_of_forall fun _ => trivial)⟩

theorem renderDirective (collectionId : String) (memory : Again) (d : Directive) :
    Underway frame
      (Eval.renderDirective env (answerWithin env fuel) collectionId memory d c).2 := by
  let x (answer : Answer) : Eval (String × Again) :=
    Eval.renderDirective env answer collectionId memory d
  have hx : Evaluation (fun _ => False) x :=
    fun _ _ => (Uniform.renderDirective env collectionId memory d).composed
  refine h.after hx fun key table => ?_
  have hlawful := Hosting.lawful_recalling env key table
  rw [show x (answerWithin env fuel) = _ from renderDirective_eq env _ collectionId memory d]
  exact ⟨_, .performing d d fun n m => .insideStep (hlawful.answers fuel) hlawful trivial n m
    (Hosting.repeats_alone _ memory) d (d.names_any (fun _ => trivial) fun _ => trivial)⟩

theorem renderSpan (collectionId : String) (memory : Again) (span : Span) :
    Underway frame (Eval.renderSpan env (answerWithin env fuel) collectionId memory span c).2 := by
  let x (answer : Answer) : Eval (Segment × Again) :=
    Eval.renderSpan env answer collectionId memory span
  have hx : Evaluation (fun _ => False) x :=
    fun _ _ => (Uniform.renderSpan env collectionId memory span).composed
  refine h.after hx fun key table => ?_
  have hlawful := Hosting.lawful_recalling env key table
  exact ⟨_, .renderSpan (hlawful.answers fuel) hlawful trivial (Hosting.repeats_alone _ memory)
    fun d _ => d.names_any (fun _ => trivial) fun _ => trivial⟩

theorem roll (target : Target) (excluded : List String) :
    Underway frame (answerWithin env fuel (.roll target excluded) c).2 := by
  let x (answer : Answer) : Eval Outcome := answer (.roll target excluded)
  have hx : Evaluation (fun _ => False) x := fun _ _ => .callRoll target excluded
  refine h.after hx fun key table => ?_
  exact ⟨_, ((Hosting.lawful_recalling env key table).answers fuel).roll target excluded
    (Hosting.target_alone target)⟩

end

end Underway

end Eval

end RandomTables
