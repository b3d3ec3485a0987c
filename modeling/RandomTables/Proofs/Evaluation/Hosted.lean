-- SUMMARY: Every evaluation is alike for two hosts that agree on what it comes to.
import RandomTables.Proofs.Evaluation.Directing
import RandomTables.Proofs.Evaluation.Hosting

/-!
# Evaluations for two hosts

Where two hosts agree on the variables that are read and the names that are declared, every draw,
roll, directive and pattern ends alike for both, and so do the answers to all calls, by induction on
the calls that are open inside each other.
-/
namespace RandomTables

namespace Hosting

variable {H : Hosting} {α β : Type} {P : α → Prop} {Q : β → Prop} {a b : Answer}

/-! ## Draws -/

namespace Draws

theorem pure {a : α} (h : P a) : H.Draws P (pure a) :=
  fun _ hs => ⟨hs, fun _ ha => Except.ok.inj ha ▸ h⟩

theorem throw (f : Failure) : H.Draws P (throw f : Draw α) := fun _ hs => ⟨hs, nofun⟩

theorem bind {x : Draw α} {f : α → Draw β} (hx : H.Draws P x) (hf : ∀ a, P a → H.Draws Q (f a)) :
    H.Draws Q (x >>= f) := by
  intro source hs
  rw [Computation.bind_apply]
  have h := hx source hs
  rcases hrun : x source with ⟨e | a, source'⟩ <;> rw [hrun] at h
  · exact ⟨h.1, nofun⟩
  · exact hf a (h.2 a rfl) source' h.1

theorem lift {e : Except Failure α} (h : ∀ a, e = .ok a → P a) : H.Draws P (Draw.lift e) := by
  cases e with
  | ok a => exact .pure (h a rfl)
  | error f => exact .throw f

theorem ofSource {f : Source → α × Source} (h : ∀ source, H.sound source → H.sound (f source).2) :
    H.Draws (fun _ => True) (Draw.ofSource f) := fun source hs => ⟨h source hs, fun _ _ => trivial⟩

variable (hH : H.Lawful)
include hH

theorem pick (items : List (α × Weight)) :
    H.Draws (fun item => item ∈ items) (Measure.pick items) := by
  unfold Measure.pick
  split
  · exact .throw _
  · dsimp only
    split
    · refine .bind (.ofSource hH.fraction) fun fraction _ => .pure ?_
      exact Simulation.reach_mem List.mem_cons_self fun _ h => h
    · exact .throw _

theorem candidate {P : Candidate → Prop} {pool : List (Candidate × Weight)}
    (h : ∀ p ∈ pool, P p.1) : H.Draws (fun s => P s.candidate) (Candidate.draw pool) :=
  .bind (.pick hH pool) fun item hitem => .pure (h item hitem)

theorem drawByRoll (t : SimpleTable) (collectionId : String) :
    H.Draws (fun s => s.candidate.From t collectionId) (t.drawByRoll collectionId) := by
  unfold SimpleTable.drawByRoll
  split
  · exact .throw _
  · refine .bind (.ofSource fun source => hH.between source _ _) fun roll _ => ?_
    split
    · exact .throw _
    · rename_i entry hentry
      refine .bind (P := fun _ => True) (.lift fun _ _ => trivial) fun weight _ => ?_
      refine .bind (P := fun _ => True) (.lift fun _ _ => trivial) fun total _ => .pure ?_
      exact ⟨List.mem_of_find?_eq_some hentry, rfl, rfl⟩

theorem simple (t : SimpleTable) (collectionId : String) (excluded : List String) :
    H.Draws (fun s => s.candidate.From t collectionId) (t.draw collectionId excluded) := by
  unfold SimpleTable.draw
  split
  · exact .throw _
  · split
    · exact .drawByRoll hH t collectionId
    · have hcandidate : ∀ c ∈ t.candidates collectionId excluded, c.From t collectionId := by
        intro c hc
        obtain ⟨e, he, rfl⟩ := List.mem_map.1 hc
        exact ⟨(List.mem_filter.1 he).1, rfl, rfl⟩
      refine .bind (.lift fun _ => Candidate.weigh_eq_ok) fun weighed hweighed => ?_
      split
      · exact .throw _
      · refine .candidate (P := fun c => c.From t collectionId) hH fun p hp => hcandidate _ ?_
        rw [← hweighed.1]
        exact List.mem_map_of_mem (List.mem_filter.1 hp).1

theorem pooled (members : List (SimpleTable × String)) (owner : String) (excluded : List String) :
    H.Draws (fun s => ∃ m ∈ members, s.candidate.From m.1 m.2)
      (drawPooled members owner excluded) := by
  by_cases hempty : poolOf members excluded = []
  · rw [drawPooled, hempty]
    exact .throw _
  · rw [drawPooled_of_ne_nil hempty]
    refine .bind (.lift fun _ => Candidate.weigh_eq_ok) fun weighed hweighed => ?_
    refine .candidate (P := fun c => ∃ m ∈ members, c.From m.1 m.2) hH fun p hp => ?_
    have hmem : p.1 ∈ poolOf members excluded := hweighed.1 ▸ List.mem_map_of_mem hp
    exact (exists_member_of_mem_poolOf hmem).2

theorem composite (t : CompositeTable) : H.Draws (fun drawn => drawn.1 ∈ t.sources) t.draw := by
  unfold CompositeTable.draw
  split
  · exact .throw _
  · refine .bind (.pick hH _) fun item hitem => .pure ?_
    obtain ⟨source, hsource, rfl⟩ := List.mem_map.1 hitem
    exact hsource

/-! ### Dice -/

theorem faces (sides count : Nat) {source : Source} (hs : H.sound source) :
    H.sound (DiceFormula.faces (Source.between 1 sides) count source).2 := by
  induction count generalizing source with
  | zero => exact hs
  | succ count ih => exact ih (hH.between source 1 sides hs)

theorem explode (sides cap pending : Nat) {source : Source} (hs : H.sound source) :
    H.sound (DiceFormula.explode (Source.between 1 sides) sides cap pending source).2 := by
  induction cap generalizing pending source with
  | zero => exact hs
  | succ cap ih =>
      cases pending with
      | zero => exact hs
      | succ pending => exact ih _ (hH.between source 1 sides hs)

theorem dice (spec : DiceFormula) (cap : Nat) :
    H.Draws (fun _ => True) (Draw.ofSource (spec.roll cap)) := by
  refine .ofSource fun source hs => ?_
  have hfaces := faces hH spec.sides spec.count hs
  unfold DiceFormula.roll DiceFormula.rollWith
  dsimp only
  split
  · exact explode hH _ _ _ hfaces
  · exact hfaces

end Draws

/-! ## Tables -/

namespace Resolves

theorem pure {a : α} (h : P a) : H.Resolves P (pure a) :=
  fun _ hs => ⟨hs, fun _ ha => Except.ok.inj ha ▸ h⟩

theorem throw (f : Failure) : H.Resolves P (throw f : Resolve α) := fun _ hs => ⟨hs, nofun⟩

theorem bind {x : Resolve α} {f : α → Resolve β} (hx : H.Resolves P x)
    (hf : ∀ a, P a → H.Resolves Q (f a)) : H.Resolves Q (x >>= f) := by
  intro s hs
  rw [Computation.bind_apply]
  have h := hx s hs
  rcases hrun : x s with ⟨e | a, s'⟩ <;> rw [hrun] at h
  · exact ⟨h.1, nofun⟩
  · exact hf a (h.2 a rfl) s' h.1

theorem lift {e : Except ResolutionFailure α} (h : ∀ a, e = .ok a → P a) :
    H.Resolves P (Resolve.lift e) := by
  cases e with
  | ok a => exact .pure (h a rfl)
  | error e => exact .throw (.resolution e)

end Resolves

section

variable (hH : H.Lawful) {id : String} (hid : H.visited id)
include hH hid

/-- A reference that has to lead somewhere leads to a target that the evaluation may come to. -/
theorem Lawful.resolve {ref : String} (href : H.refers id ref) {target : RandomTables.Target}
    (h : H.env.registry.resolve ref id = .ok target) : H.Target target :=
  hH.found id ref target hid href (Registry.find_of_resolve h)

/-- The members of a collection table. -/
theorem Resolves.members (t : CollectionTable) {members : List String}
    (hmembers : ∀ member ∈ members, H.refers id member) :
    H.Resolves (fun found => ∀ m ∈ found, H.visited m.2 ∧ H.rolls m.2 m.1)
      (H.env.registry.members H.env.base t id members) := by
  induction members with
  | nil => exact .pure (List.forall_mem_nil _)
  | cons member rest ih =>
      rw [List.forall_mem_cons] at hmembers
      rw [Registry.members]
      refine .bind (.lift fun _ => hH.resolve hid hmembers.1) fun found hfound => ?_
      split
      · rename_i table hsimple
        have hrolls : H.rolls found.collectionId table := by
          have hdefinition := hfound.2
          rw [hsimple] at hdefinition
          exact hdefinition
        refine .bind (hH.inherits _ _ hfound.1 hrolls) fun resolved hresolved => ?_
        exact .bind (ih hmembers.2) fun more hmore =>
          .pure (List.forall_mem_cons.2 ⟨⟨hfound.1, hresolved⟩, hmore⟩)
      · exact .throw _

end

/-! ## Variables -/

namespace Agrees

section

variable (hab : H.Answers a b)
include hab

theorem readShared {name : String} (hname : ¬ H.hidden name) :
    H.Alike (Eval.readShared a name) (Eval.readShared b name) := by
  intro c d hb
  obtain ⟨trace, shared, log, rfl, hstore⟩ := hb.other
  simp only [Eval.readShared, Computation.get_bind_apply]
  have hfinds := hstore.finds hname
  generalize c.shared.find name = found at hfinds ⊢
  generalize shared.find name = found' at hfinds ⊢
  cases hfinds with
  | undeclared => exact Agrees.pure trivial c _ hb
  | illegal e => exact Agrees.throw (.declaration e) c _ hb
  | known content => exact Agrees.pure trivial c _ hb
  | @pending scope d _ _ _ _ hvisited hmade hd hhidden houter =>
      have hcall := hab.shared scope.owner scope.collectionId d hvisited (hmade d hd)
      have hp : H.Finds c.shared.statics shared.statics _ _ :=
        .pending hvisited hmade hd hhidden houter
      exact Agrees.next (.settling hp hstore.statics hcall) (fun _ => .pure trivial) c _ hb

variable (hH : H.Lawful) {id : String} (hid : H.visited id) {name : String}
include hH hid

theorem readVariable (hname : H.known id name) :
    H.Alike (Eval.readVariable H.env a name id) (Eval.readVariable H.second b name id) := by
  refine .get_bind fun c d hb => ?_
  obtain ⟨trace, shared, log, rfl, hstore⟩ := hb.other
  dsimp only
  split
  · exact .pure trivial
  · refine .next (.readShared hab (hH.read id name hname)) fun found => ?_
    split
    · exact .pure trivial
    · rw [hH.static id name hid hname]
      split
      · exact .pure trivial
      · exact .throw _

theorem readItems (hname : H.known id name) :
    H.Alike (Eval.readItems H.env a name id) (Eval.readItems H.second b name id) := by
  refine .get_bind fun c d hb => ?_
  obtain ⟨trace, shared, log, rfl, hstore⟩ := hb.other
  dsimp only
  split
  · exact .pure trivial
  · refine .next (.readShared hab (hH.read id name hname)) fun found => ?_
    split
    · exact .pure trivial
    · rw [hH.static id name hid hname]
      split
      · exact .pure trivial
      · exact .throw _

omit hab hH hid in
theorem readImported (importAlias name id : String) :
    H.Alike (Eval.readImported H.env importAlias name id)
      (Eval.readImported H.second importAlias name id) := by
  refine .next (.liftResolution fun _ _ => trivial) fun found => ?_
  split
  · exact .pure trivial
  · exact .throw _

omit hab in
/-- Where a variable would be read from only shows in the trace. -/
theorem sortOfVariable (hname : H.known id name) :
    H.Alike (Eval.sortOfVariable H.env name id) (Eval.sortOfVariable H.second name id) := by
  refine .get_bind fun c d hb => ?_
  obtain ⟨trace, shared, log, rfl, hstore⟩ := hb.other
  dsimp only
  rw [hH.static id name hid hname, hstore.declares (hH.read _ _ hname)]
  split
  · exact .pure trivial
  · split
    · exact .pure trivial
    · split
      · exact .pure trivial
      · exact .pure trivial

omit hab hH hid in
theorem nthItem (items : Captured) (index : Int) (name : String) :
    H.Alike (Eval.nthItem items index name) (Eval.nthItem items index name) := by
  unfold Eval.nthItem
  dsimp only
  split
  · exact .pure trivial
  · exact .next (.log _ _) fun _ => .pure trivial

theorem readDotted (hname : H.known id (Expr.rootOf name)) :
    H.Alike (Eval.readDotted H.env a name id) (Eval.readDotted H.second b name id) := by
  unfold Eval.readDotted
  unfold Expr.rootOf at hname
  split
  · rename_i hdot
    rw [if_pos hdot] at hname
    dsimp only
    refine .get_bind fun c d hb => ?_
    obtain ⟨trace, shared, log, rfl, hstore⟩ := hb.other
    dsimp only
    rw [hstore.declares (hH.read _ _ hname)]
    split
    · refine .next (.readItems hab hH hid hname) fun items => ?_
      split
      · exact .pure trivial
      · exact .pure trivial
    · exact .readImported _ _ _
  · rename_i hdot
    rw [if_neg hdot] at hname
    exact .readVariable hab hH hid hname

omit hab hH hid in
theorem orEmpty {x y : Eval String} (h : H.Alike x y) :
    H.Alike (Eval.orEmpty x) (Eval.orEmpty y) := by
  refine .tryCatch h fun f => ?_
  split
  · exact .pure trivial
  · exact .throw _

omit hH hid in
theorem readSelf (property : Option String) :
    H.Alike (Eval.readSelf H.env a property) (Eval.readSelf H.second b property) := by
  refine .get_bind fun c d hb => ?_
  obtain ⟨trace, shared, log, rfl, -⟩ := hb.other
  have hframes := hb.frames
  dsimp only
  generalize c.frames = frames at hframes ⊢
  cases frames with
  | nil => exact .pure trivial
  | cons frame _ =>
      have hframe := hframes frame List.mem_cons_self
      dsimp only [List.head?_cons]
      split
      · exact .descending _ _ (hab.pattern _ _ hframe.visited hframe.description)
      · exact .pure trivial

omit hH hid in
theorem readPlaceholder (name : String) (property : Option String) :
    H.Alike (Eval.readPlaceholder H.env a name property)
      (Eval.readPlaceholder H.second b name property) := by
  unfold Eval.readPlaceholder
  split
  · exact .readSelf hab property
  · refine .get_bind fun c d hb => ?_
    obtain ⟨trace, shared, log, rfl, -⟩ := hb.other
    have hsame : { c with trace, shared, log }.placeholder? name property =
      c.placeholder? name property := rfl
    rw [hsame]
    split
    · exact .pure trivial
    · exact .next (.log _ _) fun _ => .pure trivial

end

/-! ## Expressions -/

theorem lift_expr (e : Except Failure α) : H.Alike (Expr.lift e : Eval α) (Expr.lift e) := by
  cases e with
  | ok a => exact .pure trivial
  | error f => exact .throw f

/-- Scopes of expressions that read the known variables of a collection alike. -/
structure Scopes (H : Hosting) (id : String) (scope scope' : Expr.Scope Eval) : Prop where
  named : ∀ name, H.known id (Expr.rootOf name) →
    H.Alike (scope.resolveVariable name) (scope'.resolveVariable name)
  placeholder : ∀ name property,
    H.Alike (scope.resolvePlaceholder name property) (scope'.resolvePlaceholder name property)
  subject : scope'.subject = scope.subject

section

variable {id : String} {scope scope' : Expr.Scope Eval}

mutual

/-- An expression of known variables has the same value for both hosts. -/
theorem eval (hscope : Scopes H id scope scope') :
    ∀ e : Expr, e.Reads (H.known id) (fun _ => True) → H.Alike (e.eval scope) (e.eval scope')
  | .number _ _, _ => by
      rw [Expr.eval, Expr.eval]
      exact .pure trivial
  | .text _ _, _ => by
      rw [Expr.eval, Expr.eval]
      exact .pure trivial
  | .variable name _, hreads => by
      rw [Expr.eval, Expr.eval, hscope.subject]
      split
      · exact .pure trivial
      · rename_i hname
        exact .next (hscope.named name (hreads (eq_false_of_ne_true hname))) fun _ => .pure trivial
  | .placeholder name property _, _ => by
      rw [Expr.eval, Expr.eval]
      exact .next (hscope.placeholder name property) fun _ => .pure trivial
  | .unary op operand _, hreads => by
      rw [Expr.eval, Expr.eval]
      exact .next (eval hscope operand hreads) fun _ => .lift_expr _
  | .binary op left right, hreads => by
      by_cases hand : op = .and
      · subst hand
        rw [Expr.eval, Expr.eval]
        refine .next (eval hscope left hreads.1) fun _ => ?_
        split
        · exact .next (eval hscope right hreads.2) fun _ => .pure trivial
        · exact .pure trivial
      by_cases hor : op = .or
      · subst hor
        rw [Expr.eval, Expr.eval]
        refine .next (eval hscope left hreads.1) fun _ => ?_
        split
        · exact .pure trivial
        · exact .next (eval hscope right hreads.2) fun _ => .pure trivial
      rw [Expr.eval_binary hand hor, Expr.eval_binary hand hor]
      exact .next (eval hscope left hreads.1) fun _ =>
        .next (eval hscope right hreads.2) fun _ => .lift_expr _
  | .call function arguments _, hreads => by
      rw [Expr.eval, Expr.eval]
      exact .next (evalNumbers hscope arguments hreads) fun _ =>
        .next (.lift_expr _) fun _ => .pure trivial

theorem evalNumbers (hscope : Scopes H id scope scope') :
    ∀ arguments : List Expr, Expr.AllRead (H.known id) (fun _ => True) arguments →
      H.Alike (Expr.evalNumbers scope arguments) (Expr.evalNumbers scope' arguments)
  | [], _ => by
      rw [Expr.evalNumbers, Expr.evalNumbers]
      exact .pure trivial
  | e :: rest, hreads => by
      rw [Expr.evalNumbers, Expr.evalNumbers]
      refine .next (eval hscope e hreads.1) fun _ => .next (.lift_expr _) fun _ => ?_
      exact .next (evalNumbers hscope rest hreads.2) fun _ => .pure trivial

end

end

theorem Scopes.ofHosts (hab : H.Answers a b) (hH : H.Lawful) {id : String} (hid : H.visited id)
    (strict : Bool) (subject : Option String) :
    Scopes H id (Eval.expressionScope H.env a strict subject id)
      (Eval.expressionScope H.second b strict subject id) where
  named name hname := by
    have hread := readDotted hab hH hid hname
    cases strict with
    | true => exact hread
    | false => exact .orEmpty hread
  placeholder name property := .readPlaceholder hab name property
  subject := rfl

/-! ## Entries -/

/-- The only directive of a pattern has its names. -/
theorem names_onlyDirective {id text : String} (h : (H.material id).pattern text) {d : Directive}
    (hd : Eval.onlyDirective text = .ok (some d)) : d.Names (H.refers id) (H.known id) := by
  unfold Eval.onlyDirective at hd
  split at hd
  · rename_i span hspan
    split at hd
    · obtain ⟨d', hparse, hsome⟩ := Except.map_eq_ok hd
      cases hsome
      exact h span (hspan ▸ List.mem_singleton_self _) d hparse
    · cases hd
  · cases hd

section

variable (hab : H.Answers a b) (hH : H.Lawful) {id : String} (hid : H.visited id)
include hab hH hid

omit hab in
/-- The table that a pattern consists of is one that the evaluation may come to. -/
theorem onlyTable {pattern : String} (hpattern : (H.material id).pattern pattern) :
    H.Agrees (fun found => ∀ target, found = some target → H.Target target)
      (Eval.onlyTable H.env pattern id) (Eval.onlyTable H.second pattern id) := by
  refine .bind (.lift fun _ honly => honly) fun only honly => ?_
  split
  · rename_i ref
    have href : H.refers id ref := names_onlyDirective hpattern honly
    refine .bind (.liftResolution fun _ h => h) fun found hfound => ?_
    split
    · refine .pure ?_
      rintro _ ⟨⟩
      exact hH.found id ref _ hid href hfound
    · exact .pure (by rintro _ ⟨⟩)
  · exact .pure (by rintro _ ⟨⟩)

theorem renderSet {pattern : String} (hpattern : (H.material id).pattern pattern) :
    H.Alike (Eval.renderSet H.env a pattern id) (Eval.renderSet H.second b pattern id) := by
  refine .bind (.onlyTable hH hid hpattern) fun found hfound => ?_
  split
  · exact .next (hab.roll _ [] (hfound _ rfl)) fun _ => .pure trivial
  · exact .next (hab.pattern pattern id hid hpattern) fun _ => .pure trivial

theorem renderSets (tableId : String) {sets : List (String × String)}
    (hsets : ∀ set ∈ sets, (H.material id).pattern set.2) :
    H.Alike (Eval.renderSets H.env a id tableId sets)
      (Eval.renderSets H.second b id tableId sets) := by
  induction sets with
  | nil => exact .pure trivial
  | cons set rest ih =>
      obtain ⟨key, pattern⟩ := set
      rw [List.forall_mem_cons] at hsets
      have hrest := ih hsets.2
      rw [Eval.renderSets, Eval.renderSets]
      refine .get_bind fun c d hb => ?_
      obtain ⟨trace, shared, log, rfl, -⟩ := hb.other
      dsimp only
      split
      · exact .next (.pure trivial) fun _ => .next hrest fun _ => .pure trivial
      · split
        · refine .next (.log _ _) fun _ => .next (.pure trivial) fun _ => ?_
          exact .next hrest fun _ => .pure trivial
        · refine .next (.guarding _ (.renderSet hab hH hid hsets.1)) fun _ => ?_
          exact .next hrest fun _ => .pure trivial

omit hH hid in
theorem evalDescription (table : SimpleTable) {s : Selection} (hvisited : H.visited s.collectionId)
    (hentry : (H.material s.collectionId).Entry s.entry) (text : String) :
    H.Alike (Eval.evalDescription a table s text) (Eval.evalDescription b table s text) := by
  unfold Eval.evalDescription
  dsimp only
  split
  · exact .pure trivial
  · refine .next (hab.pattern _ _ hvisited hentry.description) fun _ => ?_
    exact .next (.describe _ _ _ _) fun _ => .pure trivial

omit hid in
theorem outcomeOf {s : Selection} {table : SimpleTable} (hvisited : H.visited s.collectionId)
    (hrolls : H.rolls s.collectionId table) (hmade : (H.material s.collectionId).Entry s.entry) :
    H.Alike (Eval.outcomeOf H.env a s table) (Eval.outcomeOf H.second b s table) := by
  have htable := hH.made _ _ hrolls
  have hsets : ∀ set ∈ Assoc.putAll (table.defaultSets.getD []) s.entry.sets,
      (H.material s.collectionId).pattern set.2 := forall_mem_putAll htable.defaultSets hmade.sets
  have hframe : H.Frame ⟨table, s.collectionId, s.entry.id, s.entry.description⟩ :=
    ⟨hvisited, hrolls, hmade.description⟩
  have hvalue := hab.pattern _ _ hvisited hmade.value
  unfold Eval.outcomeOf
  refine .next (.note _) fun _ => .next (.withFrame hframe ?_) fun drawn => ?_
  · refine .next (.renderSets hab hH hvisited _ hsets) fun sets => ?_
    dsimp only
    split
    · exact .next (.publish _ _) fun _ => .next hvalue fun _ => .pure trivial
    · exact .next hvalue fun _ => .pure trivial
  · obtain ⟨sets, text⟩ := drawn
    have hdescription := evalDescription hab table hvisited hmade text
    dsimp only
    split
    · exact .next (.publish _ _) fun _ => .next hdescription fun _ => .pure trivial
    · exact .next hdescription fun _ => .pure trivial

/-! ## Rolls -/

theorem rollFromEntries {t : SimpleTable} (ht : H.rolls id t) (excluded : List String) :
    H.Alike (Eval.rollFromEntries H.env a t id excluded)
      (Eval.rollFromEntries H.second b t id excluded) := by
  refine .bind (.resolving (hH.inherits id t hid ht)) fun table htable => ?_
  refine .bind (.draw (.simple hH table id excluded)) fun s hs => ?_
  obtain rfl : s.collectionId = id := hs.collectionId
  exact .outcomeOf hab hH hid htable ((hH.made _ _ htable).entries _ hs.entry)

theorem rollFromSources {t : CompositeTable}
    (hsources : ∀ source ∈ t.sources, H.refers id source.tableId) (excluded : List String) :
    H.Alike (Eval.rollFromSources H.env a t id excluded)
      (Eval.rollFromSources H.second b t id excluded) := by
  refine .bind (.draw (.composite hH t)) fun drawn hdrawn => ?_
  obtain ⟨source, weight, total⟩ := drawn
  have href := hsources source hdrawn
  refine .next (.note _) fun _ => ?_
  refine .bind (.liftResolution fun _ => hH.resolve hid href) fun target htarget => ?_
  exact .next (hab.roll target excluded htarget) fun _ => .pure trivial

theorem rollFromMembers {t : CollectionTable} (href : ∀ member ∈ t.members, H.refers id member)
    (excluded : List String) :
    H.Alike (Eval.rollFromMembers H.env a t id excluded)
      (Eval.rollFromMembers H.second b t id excluded) := by
  refine .bind (.resolving (.members hH hid t href)) fun members hmembers => ?_
  refine .next (.note _) fun _ => .bind (.draw (.pooled hH members _ _)) fun s hs => ?_
  split
  · rename_i table owner hfind
    obtain ⟨hvisited, hrolls⟩ := hmembers _ (List.mem_of_find?_eq_some hfind)
    have hsame := List.find?_some hfind
    simp only [Bool.and_eq_true, decide_eq_true_eq] at hsame
    obtain rfl : owner = s.collectionId := hsame.2
    obtain ⟨m, hm, hentry, -, hhome⟩ := hs
    replace hhome : s.collectionId = m.2 := hhome
    have hmade := (hH.made _ _ (hmembers m hm).2).entries _ hentry
    rw [← hhome] at hmade
    exact .next (.outcomeOf hab hH hvisited hrolls hmade) fun _ => .pure trivial
  · exact .throw _

omit hid in
theorem rollFrom {t : Table} (ht : H.Target ⟨.table t, id⟩) (excluded : List String) :
    H.Alike (Eval.rollFrom H.env a t id excluded) (Eval.rollFrom H.second b t id excluded) := by
  cases t with
  | simple t => exact .rollFromEntries hab hH ht.1 ht.2 excluded
  | composite t => exact .rollFromSources hab hH ht.1 ht.2.2 excluded
  | collection t => exact .rollFromMembers hab hH ht.1 ht.2.2 excluded

omit hab in
theorem atLevel (name owner : String) (step : TraceStep) {shared : Option (Assoc String)}
    (hshared : (H.material id).Block (shared.getD [])) {x y : Option Nat → Eval α}
    (h : ∀ n m, H.Agrees P (x n) (y m)) :
    H.Agrees P (Eval.atLevel H.env name owner step shared id x)
      (Eval.atLevel H.second name owner step shared id y) :=
  .descending _ _ (.traced fun n m => .inScope hH _ hid hshared (h n m))

omit hid in
theorem roll {target : RandomTables.Target} (ht : H.Target target) (excluded : List String) :
    H.Alike (Eval.roll H.env a target excluded) (Eval.roll H.second b target excluded) := by
  obtain ⟨definition, id⟩ := target
  have hid := ht.1
  have hmade := ht.2
  cases definition with
  | table t =>
      have hshared : (H.material id).Block (t.header.shared.getD []) := by
        cases t with
        | simple t => exact (hH.made _ _ hmade).shared
        | composite t => exact hmade.1
        | collection t => exact hmade.1
      refine .atLevel hH hid _ _ _ hshared fun n m => ?_
      refine .next (.rollFrom hab hH ht excluded) fun outcome => ?_
      exact .next (.setValue _ _ _) fun _ => .next (.annotate _ _ _) fun _ => .pure trivial
  | template t =>
      refine .atLevel hH hid _ _ _ hmade.shared fun n m => ?_
      refine .next (hab.pattern _ _ hid hmade.pattern) fun text => ?_
      exact .next (.setValue _ _ _) fun _ => .pure trivial

/-! ## Repeated rolls -/

omit hab hH hid in
theorem unlessExhausted {x y : Eval Outcome} (h : H.Alike x y) :
    H.Alike (Eval.unlessExhausted x) (Eval.unlessExhausted y) := by
  refine .tryCatch (h.map fun _ _ => trivial) fun f => ?_
  split
  · split
    · exact .pure trivial
    · exact .throw _
  · exact .throw _

omit hH hid in
theorem rollTimes {target : RandomTables.Target} (ht : H.Target target) (n : Nat) (done : List Outcome) :
    H.Alike (Eval.rollTimes a target n done) (Eval.rollTimes b target n done) := by
  induction n generalizing done with
  | zero => exact .pure trivial
  | succ n ih => exact .next (hab.roll target [] ht) fun outcome => ih (outcome :: done)

omit hH hid in
theorem rollUnique {target : RandomTables.Target} (ht : H.Target target) (ref : String) (count n : Nat)
    (used : List String) (done : List Outcome) :
    H.Alike (Eval.rollUnique H.env a target ref count n used done)
      (Eval.rollUnique H.second b target ref count n used done) := by
  induction n generalizing used done with
  | zero => exact .pure trivial
  | succ n ih =>
      have hpolicy : H.second.config.uniqueOverflow = H.env.config.uniqueOverflow := rfl
      rw [Eval.rollUnique, Eval.rollUnique, hpolicy]
      refine .next (.unlessExhausted (hab.roll target used ht)) fun drawn => ?_
      split
      · exact ih _ _
      · split
        · exact .next (.log _ _) fun _ => .pure trivial
        · exact .throw _
        · split
          · exact .throw _
          · refine .next (.unlessExhausted (hab.roll target [] ht)) fun drawn => ?_
            split
            · exact ih _ _
            · exact .throw _

theorem rollMany {ref : String} (href : H.refers id ref) (count : Nat) (unique : Bool) :
    H.Alike (Eval.rollMany H.env a ref count id unique)
      (Eval.rollMany H.second b ref count id unique) := by
  refine .bind (.liftResolution fun _ => hH.resolve hid href) fun target ht => ?_
  split
  · exact .rollUnique hab ht ref count count [] []
  · exact .rollTimes hab ht count []

omit hab hid in
theorem castDice (spec : DiceFormula) :
    H.Alike (Eval.castDice H.env spec) (Eval.castDice H.second spec) :=
  .next (.draw (.dice hH spec _)) fun _ => .lift fun _ _ => trivial

theorem evalCount {count : Multiplicity} (hcount : count.Names (H.known id)) :
    H.Alike (Eval.evalCount H.env a count id) (Eval.evalCount H.second b count id) := by
  cases count with
  | literal n => exact .pure trivial
  | dice spec => exact .next (.castDice hH spec) fun _ => .next (.note _) fun _ => .pure trivial
  | «variable» name =>
      refine .next (.readVariable hab hH hid hcount) fun text => ?_
      dsimp only
      split
      · exact .next (.log _ _) fun _ => .pure trivial
      · split
        · exact .pure trivial
        · exact .next (.log _ _) fun _ => .pure trivial
        · exact .throw _

end

end Agrees

end Hosting

end RandomTables
