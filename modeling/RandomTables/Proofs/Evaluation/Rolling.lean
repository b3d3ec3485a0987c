-- SUMMARY: Rolls of tables, expansions of templates and repeated rolls agree in simulations.
import RandomTables.Proofs.Evaluation.Drawing
import RandomTables.Proofs.Evaluation.Reading

/-!
# Rolling in simulations

A roll opens a level, a step, a scope and a frame, one inside the other, and closes all of them on
every way out. What it evaluates inside belongs to the table, to its entries or to the members that
were found in the registry, all of it made of the material.
-/
namespace RandomTables

namespace Simulation

variable {S : Simulation} {w : Nesting} {a b : Answer}

theorem Settled.onlyDirective (hS : S.Lawful) {pattern : String} (hp : S.material.pattern pattern) :
    S.Settled (fun found => ∀ d, found = some d → S.material.Directive d)
      (Eval.onlyDirective pattern) := by
  unfold Eval.onlyDirective
  split
  · rename_i span hspan
    split
    · have hmem : span ∈ Span.find pattern.toList := by
        rw [hspan]
        exact List.mem_cons_self
      refine (hS.directive pattern hp span hmem).map fun d hd d' h => ?_
      cases h
      exact hd
    · exact .ok fun d h => nomatch h
  · exact .ok fun d h => nomatch h

theorem Joins.onlyTable (hS : S.Lawful) {pattern : String} (hp : S.material.pattern pattern)
    (collectionId : String) :
    S.Joins w (Option.Rel (S.Targets w.frames)) (Eval.onlyTable S.env pattern collectionId)
      (Eval.onlyTable S.second pattern collectionId) := by
  apply Joins.next (.of_yields (.lift (.onlyDirective hS hp)))
  rintro found _ ⟨rfl, -⟩
  split
  · rename_i ref
    apply Joins.next (.liftResolution hS.toGrounded (hS.found _ ref collectionId))
    intro target target' htarget
    cases htarget with
    | none => exact .pure .none
    | some h =>
        cases h with
        | table h => exact .pure (.some (.table h))
        | template _ => exact .pure .none
  · exact .pure .none

/-! ## Tables in place of each other -/

section

variable {frames : List Frame} {collectionId : String} {t t' : Table}
  (h : S.Tables frames collectionId t t')
include h

theorem Tables.header : t'.header = t.header := by
  cases h with
  | simple h _ =>
      rw [SimpleTable.eq_of_bare h.bare]
      rfl
  | composite _ => rfl
  | collection _ => rfl

theorem Tables.sort : t'.sort = t.sort := by
  cases h with
  | simple _ _ => rfl
  | composite _ => rfl
  | collection _ => rfl

theorem Tables.block : S.material.Block (t.header.shared.getD []) := by
  cases h with
  | simple h _ => exact h.made.shared
  | composite h => exact h
  | collection h => exact h

end

/-- A reference that has to lead somewhere. -/
theorem Lawful.resolved (hS : S.Lawful) (frames : List Frame) (ref collectionId : String) :
    Looks (S.Targets frames) (S.env.registry.resolve ref collectionId)
      (S.registry.resolve ref collectionId) := by
  have hfound := hS.found frames ref collectionId
  unfold Registry.resolve
  generalize S.env.registry.find ref collectionId = found at hfound ⊢
  generalize S.registry.find ref collectionId = found' at hfound ⊢
  cases hfound with
  | error e => exact .error e
  | ok h =>
      cases h with
      | none => exact .error _
      | some h => exact .ok h

/-! ## Members of a pool -/

namespace Resolves

variable {α β γ δ : Type} {K : ResolvedTables → Prop} {R : ResolvedTables → α → β → Prop}
  {R' : ResolvedTables → γ → δ → Prop} {x : Resolve α} {y : Resolve β}

theorem pure {a : α} {b : β} (h : ∀ tables, K tables → R tables a b) :
    S.Resolves K R (Pure.pure a : Resolve α) (Pure.pure b : Resolve β) :=
  fun _ _ hs hstated => .inr ⟨.ok (h _ hstated), hs, fun _ _ => id⟩

theorem throw {f : Failure} (h : S.admits f) :
    S.Resolves K R (MonadExcept.throw f : Resolve α) (MonadExcept.throw f : Resolve β) :=
  fun _ _ hs _ => .inr ⟨.error h, hs, fun _ _ => id⟩

theorem bind {f : α → Resolve γ} {g : β → Resolve δ} (hx : S.Resolves K R x y)
    (hf : ∀ a b tables, R tables a b →
      S.Resolves (fun tables => R tables a b) R' (f a) (g b)) :
    S.Resolves K R' (x >>= f) (y >>= g) := by
  intro s s' hs hstated
  rcases hx s s' hs hstated with ⟨e, he, htol⟩ | ⟨hpair, hrecalls, hgrows⟩
  · refine .inl ⟨e, Computation.bind_of_error he, ?_⟩
    rw [Computation.bind_apply]
    rcases hyd : y s' with ⟨e' | b, s''⟩ <;> simp only [hyd] at htol
    · exact htol
    · exact S.lasting _ _ htol
  · rw [Computation.bind_apply, Computation.bind_apply]
    rcases hxs : x s with ⟨r, t⟩
    rcases hys : y s' with ⟨r', t'⟩
    rw [hxs, hys] at hpair hrecalls
    rw [hxs] at hgrows
    cases hpair with
    | error h => exact .inr ⟨.error h, hrecalls, hgrows⟩
    | ok h =>
        rcases hf _ _ _ h t t' hrecalls h with htol | ⟨hresult, hlater, hlaterGrows⟩
        · exact .inl htol
        · exact .inr ⟨hresult, hlater, fun _ _ hknown => hlaterGrows _ _ (hgrows _ _ hknown)⟩

theorem lift (hS : S.Grounded) {e : Except ResolutionFailure α} {e' : Except ResolutionFailure β}
    {R : α → β → Prop} (h : Looks R e e') :
    S.Resolves K (fun _ => R) (Resolve.lift e) (Resolve.lift e') := by
  cases h with
  | ok h => exact .pure fun _ _ => h
  | error e => exact .throw (hS.ordinary _ (.resolution e))

theorem of_imp {K' : ResolvedTables → Prop} (hx : S.Resolves K' R x y)
    (hK : ∀ tables, K tables → K' tables) : S.Resolves K R x y :=
  fun s s' hs hstated => hx s s' hs (hK _ hstated)

theorem mono {Q : ResolvedTables → α → β → Prop} (hx : S.Resolves K R x y)
    (hRQ : ∀ tables a b, R tables a b → Q tables a b) : S.Resolves K Q x y := by
  intro s s' hs hstated
  rcases hx s s' hs hstated with htol | ⟨hpair, hrecalls, hgrows⟩
  · exact .inl htol
  · exact .inr ⟨hpair.mono (hRQ _), hrecalls, hgrows⟩

/-- What may be rolled before may be rolled afterwards. -/
theorem recalling (hx : S.Resolves (fun _ => True) R x y) (collectionId : String)
    (t : SimpleTable) :
    S.Resolves (fun tables => S.recalls tables collectionId t)
      (fun tables a b => S.recalls tables collectionId t ∧ R tables a b) x y := by
  intro s s' hs hknown
  rcases hx s s' hs trivial with htol | ⟨hpair, hrecalls, hgrows⟩
  · exact .inl htol
  · exact .inr ⟨hpair.mono fun _ _ h => ⟨hgrows _ _ hknown, h⟩, hrecalls, hgrows⟩

/-- Members of a pool that were just resolved. -/
def Pooled (S : Simulation) (tables : ResolvedTables) (members members' : List (SimpleTable × String)) :
    Prop :=
  List.Forall₂ S.Members members members' ∧ ∀ m ∈ members, S.recalls tables m.2 m.1

theorem members (hS : S.Lawful) (t : CollectionTable) (collectionId : String)
    (members : List String) :
    S.Resolves (fun _ => True) (Pooled S)
      (S.env.registry.members S.env.base t collectionId members)
      (S.registry.members S.env.base t collectionId members) := by
  induction members with
  | nil => exact .pure fun _ _ => ⟨.nil, fun _ hm => absurd hm List.not_mem_nil⟩
  | cons member rest ih =>
      rw [Registry.members, Registry.members]
      -- nothing is being rolled for which the reference could stand
      apply Resolves.bind (.lift hS.toGrounded (hS.resolved [] member collectionId))
      intro found found' _ hfound
      have hrefused : S.admits (.resolution (.memberNotSimple t.id member)) :=
        hS.ordinary _ (.resolution _)
      cases hfound with
      | template _ => exact .throw hrefused
      | table h =>
          cases h with
          | composite _ => exact .throw hrefused
          | collection _ => exact .throw hrefused
          | simple h hr =>
              obtain hknown | ⟨_, hf, -⟩ := hr
              · apply Resolves.bind ((hS.inherits _ _ _ h).of_imp fun _ _ => hknown _)
                rintro resolved resolved' _ ⟨halike, -⟩
                refine .bind ((ih.recalling _ resolved).of_imp fun _ h => h.2)
                  fun more more' _ _ => .pure ?_
                rintro tables ⟨hresolved, hmore, hall⟩
                exact ⟨.cons (.intro halike) hmore, List.forall_mem_cons.2 ⟨hresolved, hall⟩⟩
              · exact absurd hf List.not_mem_nil

end Resolves

theorem Members.ids {members members' : List (SimpleTable × String)}
    (h : List.Forall₂ S.Members members members') :
    members'.map (fun m => m.1.id) = members.map fun m => m.1.id := by
  induction h with
  | nil => rfl
  | cons hm _ ih =>
      obtain ⟨hm⟩ := hm
      simp only [List.map_cons, ih]
      rw [SimpleTable.eq_of_bare hm.bare]

/-- As many entries are pooled in both settings. -/
theorem Members.poolSize {members members' : List (SimpleTable × String)}
    (h : List.Forall₂ S.Members members members') :
    Number.sumOf (fun m => m.1.entries.length) members' =
      Number.sumOf (fun m => m.1.entries.length) members := by
  induction h with
  | nil => rfl
  | cons hm _ ih =>
      obtain ⟨hm⟩ := hm
      have hlength := congrArg List.length (SimpleTable.entries_of_bare hm.bare)
      rw [List.length_map, List.length_map] at hlength
      simp only [Number.sumOf, ih, hlength]

theorem Members.find {members members' : List (SimpleTable × String)}
    (h : List.Forall₂ S.Members members members') (tableId collectionId : String) :
    Option.Rel S.Members
      (members.find? fun m => m.1.id = tableId && m.2 = collectionId)
      (members'.find? fun m => m.1.id = tableId && m.2 = collectionId) := by
  induction h with
  | nil => exact .none
  | cons hm _ ih =>
      have hmember := hm
      obtain ⟨hm⟩ := hm
      rename_i t t' owner
      have hid : t'.id = t.id := by rw [SimpleTable.eq_of_bare hm.bare]
      simp only [List.find?_cons, hid]
      cases decide (t.id = tableId) && decide (owner = collectionId) with
      | true => exact .some hmember
      | false => exact ih

namespace Yields

theorem publish (name : String) (sets : Assoc Content) :
    S.Related w (modify (Context.publish name sets) : Eval Unit)
      (modify (Context.publish name sets)) :=
  .change (fun _ => []) (fun _ => rfl) (fun _ => rfl) fun _ _ => rfl

theorem describe (tableName tableId rolledValue description : String) :
    S.Related w
      (modify (Context.describe tableName tableId rolledValue description) : Eval Unit)
      (modify (Context.describe tableName tableId rolledValue description)) :=
  .change (fun _ => []) (fun _ => rfl) (fun _ => rfl) fun _ _ => rfl

section

variable (hS : S.Lawful) (hab : S.Answers a b)
include hS hab

/-! ## Entries -/

theorem renderSet (hw : S.Begun w) {pattern : String} (hp : S.material.pattern pattern)
    (collectionId : String) :
    S.Related w (Eval.renderSet S.env a pattern collectionId)
      (Eval.renderSet S.second b pattern collectionId) := by
  apply Joins.bind (.onlyTable hS hp collectionId)
  intro found found' hfound
  cases hfound with
  | some htarget =>
      exact .next (hab.roll _ _ [] (hw.asking hS) htarget) fun _ => .pure trivial
  | none => exact .next (hab.pattern pattern collectionId hw hp) fun _ => .pure trivial

theorem renderSets (hw : S.Begun w) (collectionId tableId : String)
    {sets : List (String × String)} (hsets : ∀ set ∈ sets, S.material.pattern set.2) :
    S.Related w (Eval.renderSets S.env a collectionId tableId sets)
      (Eval.renderSets S.second b collectionId tableId sets) := by
  induction sets with
  | nil => exact .pure trivial
  | cons set rest ih =>
      obtain ⟨key, pattern⟩ := set
      rw [List.forall_mem_cons] at hsets
      have hrest := ih hsets.2
      rw [Eval.renderSets, Eval.renderSets]
      refine .get_bind fun c v _ _ => ?_
      dsimp only
      split
      · exact .next (.pure trivial) fun _ => .next hrest fun _ => .pure trivial
      · split
        · apply Yields.next (.log _ _)
          intro _
          exact .next (.pure trivial) fun _ => .next hrest fun _ => .pure trivial
        · refine .next (.guarding ?_) fun _ => .next hrest fun _ => .pure trivial
          exact .renderSet hS hab (w := { w with guards := _ :: w.guards }) hw hsets.1 collectionId

omit hS in
theorem evalDescription (hw : S.Begun w) (table : SimpleTable) {s : Selection}
    (hs : S.material.Entry s.entry) (text : String) :
    S.Related w (Eval.evalDescription a table s text) (Eval.evalDescription b table s text) := by
  unfold Eval.evalDescription
  dsimp only
  split
  · exact .pure trivial
  · apply Yields.next (hab.pattern _ _ hw hs.description)
    intro description
    exact .next (.describe _ _ _ _) fun _ => .pure trivial

/-- An entry of a table that was just resolved. -/
theorem outcomeOf (hw : S.Begun w) {s s' : Selection} (hs : S.Selected s s')
    {table table' : SimpleTable} (ht : S.Alike s.collectionId table table') :
    S.YieldsFrom (fun tables => S.recalls tables s.collectionId table) w (fun _ => True)
      (Eval.outcomeOf S.env a s table) (Eval.outcomeOf S.second b s' table') := by
  obtain ⟨given, rfl⟩ : ∃ given, s' = { s with entry := { s.entry with given } } :=
    ⟨_, Selection.eq_of_bare hs.bare⟩
  obtain ⟨entries, rfl⟩ : ∃ entries, table' = { table with entries } :=
    ⟨_, SimpleTable.eq_of_bare ht.bare⟩
  have hsets : ∀ set ∈ Assoc.putAll (table.defaultSets.getD []) s.entry.sets,
      S.material.pattern set.2 := forall_mem_putAll ht.made.defaultSets hs.made.sets
  have hframe : S.material.Frame ⟨table, s.collectionId, s.entry.id, s.entry.description⟩ :=
    ⟨ht.made, hs.made.description⟩
  unfold Eval.outcomeOf
  refine .next (.note nofun) (fun _ => rfl) fun _ =>
    YieldsFrom.bind (P := fun _ => True) (.withFrame (.intro ht) ?_) fun drawn _ => ?_
  · have hinside : S.Begun { w with frames := _ :: w.frames } :=
      ⟨hw.1, List.forall_mem_cons.2 ⟨hframe, hw.2.1⟩, hw.2.2⟩
    refine .next (.renderSets hS hab hinside _ _ hsets) fun sets => ?_
    have hvalue := hab.pattern _ s.collectionId hinside hs.made.value
    dsimp only
    split
    · exact .next (.publish _ _) fun _ => .next hvalue fun _ => .pure trivial
    · exact .next hvalue fun _ => .pure trivial
  · obtain ⟨sets, text⟩ := drawn
    have hdescription := evalDescription hab hw table hs.made text
    dsimp only
    split
    · exact .next (.publish _ _) fun _ => .next hdescription fun _ => .pure trivial
    · exact .next hdescription fun _ => .pure trivial

/-! ## Tables -/

theorem rollFromEntries (hw : S.Begun w) {t t' : SimpleTable} {collectionId : String}
    (ht : S.Alike collectionId t t') (hr : S.Recalled w.frames collectionId t)
    (excluded : List String) :
    S.Related w (Eval.rollFromEntries S.env a t collectionId excluded)
      (Eval.rollFromEntries S.second b t' collectionId excluded) := by
  apply Yields.resolving (hS.inherits collectionId t t' ht) fun c d hm => hm.recalled hr
  rintro table table' _ ⟨htable, -⟩
  refine YieldsFrom.of_imp ?_ fun _ (h : _ ∧ S.recalls _ collectionId table) => h.2
  apply Joins.bindFrom (.drawSimple hS htable excluded) fun _ => rfl
  rintro s s' ⟨hs, rfl⟩
  exact outcomeOf hS hab hw hs htable

theorem rollFromSources (hw : S.Begun w) (t : CompositeTable) (collectionId : String)
    (excluded : List String) :
    S.Related w (Eval.rollFromSources S.env a t collectionId excluded)
      (Eval.rollFromSources S.second b t collectionId excluded) := by
  apply Yields.next (.draw (.composite hS t))
  intro drawn
  obtain ⟨source, weight, total⟩ := drawn
  apply Yields.next (.note (by nofun))
  intro _
  apply Joins.bind (.liftResolution hS.toGrounded (hS.resolved _ source.tableId collectionId))
  intro target target' htarget
  exact .next (hab.roll target target' excluded (hw.asking hS) htarget) fun _ => .pure trivial

theorem rollFromMembers (hw : S.Begun w) (t : CollectionTable) (collectionId : String)
    (excluded : List String) :
    S.Related w (Eval.rollFromMembers S.env a t collectionId excluded)
      (Eval.rollFromMembers S.second b t collectionId excluded) := by
  apply Yields.resolving (.members hS t collectionId _) fun _ _ _ => trivial
  rintro members members' _ ⟨hmembers, -⟩
  dsimp only
  rw [Members.ids hmembers, Members.poolSize hmembers, hmembers.length_eq]
  apply YieldsFrom.next (.note (by nofun)) fun _ => rfl
  intro _
  apply Joins.bindFrom (.drawPooled hS hmembers _ _) fun _ => rfl
  intro s s' hs
  have htableId : s'.tableId = s.tableId := congrArg (·.tableId) (Selection.eq_of_bare hs.bare)
  have howner : s'.collectionId = s.collectionId :=
    congrArg (·.collectionId) (Selection.eq_of_bare hs.bare)
  have hfind := Members.find hmembers s.tableId s.collectionId
  rw [htableId, howner]
  generalize hfound : members.find? _ = found at hfind ⊢
  generalize members'.find? _ = found' at hfind ⊢
  cases hfind with
  | none => exact fun c d hm _ => Yields.throw (hS.ordinary _ (.selection _)) c d hm
  | some hm =>
      obtain ⟨htable⟩ := hm
      have hmember := List.mem_of_find?_eq_some hfound
      obtain rfl : _ = s.collectionId := by
        have hmeant := List.find?_some hfound
        simpa using (Bool.and_eq_true_iff.1 hmeant).2
      have houtcome := outcomeOf hS hab hw hs htable
      refine .bind (P := fun _ => True) (houtcome.of_imp fun tables h => ?_) fun _ _ => .pure trivial
      exact h.2 _ hmember

theorem rollFrom (hw : S.Begun w) {t t' : Table} {collectionId : String}
    (ht : S.Tables w.frames collectionId t t') (excluded : List String) :
    S.Related w (Eval.rollFrom S.env a t collectionId excluded)
      (Eval.rollFrom S.second b t' collectionId excluded) := by
  cases ht with
  | simple h hr => exact .rollFromEntries hS hab hw h hr excluded
  | composite _ => exact .rollFromSources hS hab hw _ collectionId excluded
  | collection _ => exact .rollFromMembers hS hab hw _ collectionId excluded

omit hab in
theorem atLevel {α : Type} {P : α → Prop} {body body' : Option Nat → Eval α} (hw : S.Descends w)
    (id owner : String) {step : TraceStep} (hkind : step.kind ≠ .conditional)
    {shared : Option (Assoc String)} (hshared : S.material.Block (shared.getD [])) (collectionId : String)
    (h : ∀ v n m, S.Entered v → v.frames = w.frames → S.tracing.steps n m →
      S.Yields v P (body n) (body' m)) :
    S.Yields w P (Eval.atLevel S.env id owner step shared collectionId body)
      (Eval.atLevel S.second id owner step shared collectionId body') :=
  .descending hS hw fun hentered => .traced hkind fun _ _ _ hnode =>
    .inScope hS hentered hshared fun v hv hframes => h v _ _ hv hframes hnode

theorem roll (hw : S.Descends w) {target target' : Target} (ht : S.Targets w.frames target target')
    (excluded : List String) :
    S.Related w (Eval.roll S.env a target excluded) (Eval.roll S.second b target' excluded) := by
  cases ht with
  | table h =>
      unfold Eval.roll
      dsimp only
      rw [h.header, h.sort]
      refine .atLevel hS hw _ _ (by nofun) h.block _ fun v n m hv hframes hnode => ?_
      rw [← hframes] at h
      apply Yields.next (.rollFrom hS hab (hv.begun hS) h excluded)
      intro outcome
      apply Yields.next (.setValue hnode _)
      intro _
      exact .next (.annotate hnode _) fun _ => .pure trivial
  | template h =>
      refine .atLevel hS hw _ _ (by nofun) h.shared _ fun v n m hv _ hnode => ?_
      apply Yields.next (hab.pattern _ _ (hv.begun hS) h.pattern)
      intro text
      exact .next (.setValue hnode _) fun _ => .pure trivial

/-! ## Repeated rolls -/

omit hab in
theorem unlessExhausted {x y : Eval Outcome} (h : S.Related w x y) :
    S.Related w (Eval.unlessExhausted x) (Eval.unlessExhausted y) := by
  have hthrow : ∀ (e : SelectionFailure), ¬ Failure.Exhausts (.selection e) →
      e.isExhaustion ≠ true := fun e he hex => he ⟨e, rfl, hex⟩
  refine .tryCatch (h.map fun _ _ => trivial) hS.exhausted
    (fun f g htol => (hS.tolerated f g htol).not_exhausts) (fun f hf c => ?_) (fun f hf c => ?_)
    fun f hf => ?_
  · split
    · rw [if_neg (hthrow _ hf)]
      rfl
    · rfl
  · split
    · rw [if_neg (hthrow _ hf)]
      rfl
    · rfl
  · split
    · split
      · exact .pure trivial
      · exact .throw hf
    · exact .throw hf

variable {target target' : Target} (hw : S.Asking w) (ht : S.Targets w.frames target target')
include hw ht

omit hS in
theorem rollTimes (n : Nat) (done : List Outcome) :
    S.Related w (Eval.rollTimes a target n done) (Eval.rollTimes b target' n done) := by
  induction n generalizing done with
  | zero => exact .pure trivial
  | succ n ih => exact .next (hab.roll target target' [] hw ht) fun outcome => ih (outcome :: done)

theorem rollUnique (ref : String) (count n : Nat) (used : List String) (done : List Outcome) :
    S.Related w (Eval.rollUnique S.env a target ref count n used done)
      (Eval.rollUnique S.second b target' ref count n used done) := by
  induction n generalizing used done with
  | zero => exact .pure trivial
  | succ n ih =>
      rw [Eval.rollUnique, Eval.rollUnique]
      apply Yields.next (.unlessExhausted hS (hab.roll target target' used hw ht))
      intro outcome
      split
      · exact ih _ _
      · have hpolicy : S.second.config.uniqueOverflow = S.env.config.uniqueOverflow := rfl
        rw [hpolicy]
        split
        · exact .next (.log _ _) fun _ => .pure trivial
        · exact .throw (hS.ordinary _ (.selection _))
        · split
          · exact .throw (hS.ordinary _ (.selection _))
          · apply Yields.next (.unlessExhausted hS (hab.roll target target' [] hw ht))
            intro outcome
            split
            · exact ih _ _
            · exact .throw (hS.ordinary _ (.selection _))

omit ht in
theorem rollMany (ref : String) (count : Nat) (collectionId : String) (unique : Bool) :
    S.Related w (Eval.rollMany S.env a ref count collectionId unique)
      (Eval.rollMany S.second b ref count collectionId unique) := by
  apply Joins.bind (.liftResolution hS.toGrounded (hS.resolved _ ref collectionId))
  intro target target' ht
  have htimes := rollTimes hab hw ht count []
  have hunique := rollUnique hS hab hw ht ref count count [] []
  cases ht with
  | template _ => exact htimes
  | table _ =>
      cases unique with
      | false => exact htimes
      | true => exact hunique

omit hab hw ht in
theorem castDice {spec : DiceFormula} (hspec : S.material.calculation (.dice spec)) :
    S.Related w (Eval.castDice S.env spec) (Eval.castDice S.second spec) := by
  let cap := S.env.config.maxExplodingDice
  refine .bind (P := fun r => ∃ source, r = (spec.roll cap source).1)
    (.draw fun source => .ok ⟨source, rfl⟩) fun r hr => .lift ?_
  obtain ⟨source, rfl⟩ := hr
  exact .of_admitted fun f hf => hS.calculation _ hspec f ⟨source, hf⟩

omit ht in
theorem evalCount {count : Multiplicity} (hcount : S.material.Calculates count.calculations)
    (collectionId : String) :
    S.Related w (Eval.evalCount S.env a count collectionId)
      (Eval.evalCount S.second b count collectionId) := by
  cases count with
  | literal n => exact .pure trivial
  | dice spec =>
      apply Yields.next (.castDice hS (hcount _ (List.mem_singleton_self _)))
      intro result
      exact .next (.note nofun) fun _ => .pure trivial
  | «variable» name =>
      apply Yields.next (.readVariable hS.toGrounded (hab.shared name hw) collectionId)
      intro value
      dsimp only
      split
      · exact .next (.log _ _) fun _ => .pure trivial
      · rename_i x hx
        split
        · exact .pure trivial
        · exact .next (.log _ _) fun _ => .pure trivial
        · rename_i f hne hf
          have hmade := hcount _ (List.mem_singleton_self _)
          exact .throw (hS.calculation _ hmade f ⟨_, x, hx, hf, hne⟩)

end

end Yields

end Simulation

end RandomTables
