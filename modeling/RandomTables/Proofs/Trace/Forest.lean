-- SUMMARY: In whatever order steps are begun and closed, a trace is a forest of all its steps.
import Mathlib.Data.List.Perm.Basic
import RandomTables.Proofs.Trace.Recording

/-!
# Forests

Steps can be begun and closed in any order, with or without closing what was begun in between.
Whatever the order is, the open steps are stacked on the root with the latest on top, and every step
is listed once: as a step beside the tree, or inside a step that began before it. This decides how
often a walk through a finished trace meets each step, for a walk meets a step as often as the steps
that list it: once.
-/
namespace RandomTables

/-! ## Walks

A walk meets the numbers it starts with and, for every number it meets, those listed under that
number. If only later numbers are listed under a number, no two walks with the same start differ. -/

section

variable {next : Nat → List Nat}

theorem count_flatMap_filter (hnext : ∀ i, ∀ j ∈ next i, i < j) (l : List Nat) (k : Nat) :
    (l.flatMap next).count k = ((l.filter (· < k)).flatMap next).count k := by
  induction l with
  | nil => rfl
  | cons i l ih =>
      rw [List.flatMap_cons, List.count_append, ih]
      by_cases hi : i < k
      · rw [List.filter_cons_of_pos (by simpa using hi), List.flatMap_cons, List.count_append]
      · have hnone : k ∉ next i := fun hk => hi (hnext i k hk)
        rw [List.filter_cons_of_neg (by simpa using hi), List.count_eq_zero_of_not_mem hnone,
          Nat.zero_add]

theorem perm_of_walks (hnext : ∀ i, ∀ j ∈ next i, i < j) {first xs ys : List Nat}
    (hxs : xs.Perm (first ++ xs.flatMap next)) (hys : ys.Perm (first ++ ys.flatMap next)) :
    xs.Perm ys := by
  rw [List.perm_iff_count]
  intro k
  induction k using Nat.strongRecOn with
  | ind k ih =>
      -- what is below the number is met equally often, and nothing else can list it
      have hbelow : (xs.filter (· < k)).Perm (ys.filter (· < k)) := by
        rw [List.perm_iff_count]
        intro j
        by_cases hj : j < k
        · rw [List.count_filter (by simpa using hj), List.count_filter (by simpa using hj), ih j hj]
        · have hnone (l : List Nat) : j ∉ l.filter (· < k) := by simp [hj]
          rw [List.count_eq_zero_of_not_mem (hnone xs), List.count_eq_zero_of_not_mem (hnone ys)]
      rw [hxs.count_eq, hys.count_eq, List.count_append, List.count_append,
        count_flatMap_filter hnext xs, count_flatMap_filter hnext ys,
        (hbelow.flatMap_right next).count_eq]

/-- Walks put together are a walk. -/
theorem perm_flatMap_walk {walk : Nat → List Nat} {l : List Nat}
    (h : ∀ i ∈ l, (walk i).Perm (i :: (walk i).flatMap next)) :
    (l.flatMap walk).Perm (l ++ (l.flatMap walk).flatMap next) := by
  induction l with
  | nil => exact .nil
  | cons i l ih =>
      obtain ⟨hi, hl⟩ := List.forall_mem_cons.1 h
      have hrest := ih hl
      rw [List.perm_iff_count] at hi hrest ⊢
      intro k
      have hi := hi k
      have hrest := hrest k
      simp only [List.flatMap_cons, List.flatMap_append, List.count_append, List.cons_append,
        List.count_cons] at hi hrest ⊢
      omega

end

/-! ## Calls that build a trace -/

/-- What a step is and what was known of it before it was taken. -/
def TraceStep.given (s : TraceStep) : StepKind × String × String × List (String × Json) :=
  (s.kind, s.label, s.raw, s.parsed)

/-- A call that builds a trace. Any step can be closed, at any time and over and over. -/
inductive TraceCall where
  | enter (step : TraceStep)
  | enterApart (step : TraceStep)
  | note (step : TraceStep)
  | close (id : Nat) (value : Json) (details : List (String × Json)) (error : String)

namespace TraceCall

def perform (b : OpenTrace) : TraceCall → OpenTrace
  | .enter step => (b.enter step).2
  | .enterApart step => (b.enterApart step).2
  | .note step => b.note step
  | .close id value details error =>
    (((b.setValue (some id) value).annotate (some id) details).setError (some id) error).leave
      (some id)

/-- The step that a call begins. -/
def step? : TraceCall → Option TraceStep
  | .enter step => some step
  | .enterApart step => some step
  | .note step => some step
  | .close .. => none

end TraceCall

namespace OpenTrace

/-! ## Forests under construction -/

/-- The numbers of the steps listed inside a step. -/
def childrenOf (entries : Array TraceEntry) (id : Nat) : List Nat :=
  (entries[id]?.map (·.children.toList)).getD []

/-- A trace of some steps, the first of them the root: the open steps are stacked on the root, the
latest on top, and every step but the root is listed once, inside an earlier step or beside the
tree. -/
structure Forest (b : OpenTrace) (steps : List TraceStep) : Prop where
  enabled : b.enabled = true
  stacked : (b.stack ++ [0]).Pairwise (· > ·)
  begun : ∀ id ∈ b.stack ++ [0], id < b.entries.size
  given : b.entries.toList.map (·.step.given) = steps.map TraceStep.given
  listed : (0 :: (b.detached.toList ++ b.entries.toList.flatMap (·.children.toList))).Perm
    (List.range b.entries.size)
  later : ∀ i, ∀ j ∈ childrenOf b.entries i, i < j

theorem map_modify {α β : Type} {f : α → α} {g : α → β} (h : ∀ a, g (f a) = g a) (l : List α)
    (i : Nat) : (l.modify i f).map g = l.map g := by
  refine List.ext_getElem? fun j => ?_
  rw [List.getElem?_map, List.getElem?_map, List.getElem?_modify]
  cases l[j]? with
  | none => rfl
  | some a =>
      simp only [Option.map_some]
      split
      · exact congrArg some (h a)
      · rfl

/-- A number that is added under one step is added to all that are listed. -/
theorem perm_flatMap_modify {l : List TraceEntry} {i : Nat} (hi : i < l.length) (id : Nat) :
    ((l.modify i fun entry => { entry with children := entry.children.push id }).flatMap
      (·.children.toList)).Perm (id :: l.flatMap (·.children.toList)) := by
  induction l generalizing i with
  | nil => cases hi
  | cons entry l ih =>
      cases i with
      | zero => simp
      | succ i =>
          have hrest := ih (Nat.lt_of_succ_lt_succ hi)
          rw [List.modify_succ_cons, List.flatMap_cons, List.flatMap_cons]
          exact (hrest.append_left _).trans List.perm_middle

section

variable (xs : Array TraceEntry) (i : Nat)

theorem childrenOf_push (step : TraceStep) :
    childrenOf (xs.push { step }) i = childrenOf xs i := by
  rw [childrenOf, Array.getElem?_push]
  split
  · rename_i hi
    simp [childrenOf, hi]
  · rfl

theorem childrenOf_retold (id : Nat) (f : TraceStep → TraceStep) :
    childrenOf (xs.modify id fun entry => { entry with step := f entry.step }) i =
      childrenOf xs i := by
  rw [childrenOf, Array.getElem?_modify]
  split
  · simp [childrenOf, Function.comp_def]
  · rfl

theorem mem_childrenOf_listed {id j : Nat}
    (hj : j ∈ childrenOf (xs.modify id fun entry =>
      { entry with children := entry.children.push xs.size }) i) :
    j ∈ childrenOf xs i ∨ i = id ∧ j = xs.size := by
  rw [childrenOf, Array.getElem?_modify] at hj
  split at hj
  · rename_i heq
    unfold childrenOf
    cases hentry : xs[i]? with
    | none => simp [hentry] at hj
    | some entry =>
        rw [hentry] at hj
        simpa [heq.symm] using hj
  · exact .inl hj

end

theorem forest_start (label : String) : Forest (start true label) [{ kind := .root, label }] where
  enabled := rfl
  stacked := by simp [start]
  begun := by simp [start]
  given := rfl
  listed := .refl _
  later i j hj := by
    have hj : j ∈ childrenOf (#[].push { step := { kind := .root, label } }) i := hj
    rw [childrenOf_push] at hj
    simp [childrenOf] at hj

namespace Forest

variable {b : OpenTrace} {steps : List TraceStep} (h : b.Forest steps)
include h

theorem innermost_lt : b.innermost < b.entries.size := by
  refine h.begun _ ?_
  unfold innermost
  cases b.stack <;> simp

/-- A step recorded inside the innermost open one. -/
theorem record (step : TraceStep) : (b.record step).Forest (steps ++ [step]) where
  enabled := h.enabled
  stacked := h.stacked
  begun id hid := by
    have hlt := h.begun id hid
    simp only [OpenTrace.record, Array.size_push, Array.size_modify]
    omega
  given := by
    rw [OpenTrace.record, Array.toList_push, Array.toList_modify, List.map_append, map_modify,
      h.given, List.map_append]
    · rfl
    · exact fun _ => rfl
  listed := by
    have hmodify := perm_flatMap_modify (l := b.entries.toList) h.innermost_lt b.entries.size
    have hnew : [({ step } : TraceEntry)].flatMap (·.children.toList) = [] := rfl
    simp only [OpenTrace.record, Array.toList_push, Array.toList_modify, Array.size_push,
      Array.size_modify, List.flatMap_append, List.range_succ, hnew, List.append_nil]
    refine List.Perm.trans ?_ (h.listed.append_right [b.entries.size])
    refine List.Perm.cons 0 ((hmodify.append_left _).trans (List.perm_middle.trans ?_))
    exact (List.perm_append_singleton _ _).symm
  later i j hj := by
    rw [OpenTrace.record, childrenOf_push] at hj
    rcases mem_childrenOf_listed _ _ hj with hj | ⟨rfl, rfl⟩
    · exact h.later i j hj
    · exact h.innermost_lt

/-- A step recorded beside the tree. -/
theorem recordApart (step : TraceStep) :
    Forest { b with
      entries := b.entries.push { step }
      detached := b.detached.push b.entries.size } (steps ++ [step]) where
  enabled := h.enabled
  stacked := h.stacked
  begun id hid := by
    have hlt := h.begun id hid
    simp only [Array.size_push]
    omega
  given := by
    rw [Array.toList_push, List.map_append, h.given, List.map_append]
    rfl
  listed := by
    have hnew : [({ step } : TraceEntry)].flatMap (·.children.toList) = [] := rfl
    simp only [Array.toList_push, Array.size_push, List.flatMap_append, List.range_succ, hnew,
      List.append_nil]
    refine List.Perm.trans ?_ (h.listed.append_right [b.entries.size])
    rw [List.append_assoc]
    refine List.Perm.cons 0 (List.perm_middle.trans ?_)
    exact (List.perm_append_singleton _ _).symm
  later i j hj := by
    rw [childrenOf_push] at hj
    exact h.later i j hj

/-- The stack can be exchanged for another one on the root. -/
theorem restack {stack : List Nat} (hstacked : (stack ++ [0]).Pairwise (· > ·))
    (hbegun : ∀ id ∈ stack, id < b.entries.size) : Forest { b with stack } steps where
  enabled := h.enabled
  stacked := hstacked
  begun id hid := by
    rcases List.mem_append.1 hid with hid | hid
    · exact hbegun id hid
    · exact h.begun id (List.mem_append_right _ hid)
  given := h.given
  listed := h.listed
  later := h.later

theorem modify (id : Nat) {f : TraceStep → TraceStep} (hf : ∀ s, (f s).given = s.given) :
    (b.modify id f).Forest steps where
  enabled := h.enabled
  stacked := h.stacked
  begun := by
    simp only [OpenTrace.modify, Array.size_modify]
    exact h.begun
  given := by
    rw [OpenTrace.modify, Array.toList_modify, map_modify, h.given]
    exact fun entry => hf entry.step
  listed := by
    have hsame := map_modify (f := fun entry : TraceEntry => { entry with step := f entry.step })
      (g := (·.children.toList)) (fun _ => rfl) b.entries.toList id
    simp only [OpenTrace.modify, Array.toList_modify, Array.size_modify, List.flatMap_def, hsame]
    exact h.listed
  later i j hj := by
    rw [OpenTrace.modify, childrenOf_retold] at hj
    exact h.later i j hj

/-- The latest step is on top of the stack. -/
theorem stacked_cons : (b.entries.size :: b.stack ++ [0]).Pairwise (· > ·) :=
  .cons h.begun h.stacked

theorem enter (step : TraceStep) : (b.enter step).2.Forest (steps ++ [step]) := by
  rw [OpenTrace.enter, if_pos h.enabled]
  refine (h.record step).restack h.stacked_cons (List.forall_mem_cons.2 ⟨?_, fun id hid => ?_⟩)
  · simp [OpenTrace.record]
  · exact (h.record step).begun id (List.mem_append_left _ hid)

theorem enterApart (step : TraceStep) : (b.enterApart step).2.Forest (steps ++ [step]) := by
  rw [OpenTrace.enterApart, if_pos h.enabled]
  refine (h.recordApart step).restack h.stacked_cons
    (List.forall_mem_cons.2 ⟨?_, fun id hid => ?_⟩)
  · simp
  · exact (h.recordApart step).begun id (List.mem_append_left _ hid)

theorem note (step : TraceStep) : (b.note step).Forest (steps ++ [step]) := by
  rw [OpenTrace.note, if_pos h.enabled]
  exact h.record step

theorem leave (id : Nat) : (b.leave (some id)).Forest steps := by
  unfold OpenTrace.leave
  dsimp only
  split
  · refine h.restack (h.stacked.sublist ((List.drop_sublist 1 b.stack).append_right [0])) ?_
    exact fun id hid => h.begun id (List.mem_append_left _ (List.mem_of_mem_drop hid))
  · exact h

theorem close (id : Nat) (value : Json) (details : List (String × Json)) (error : String) :
    ((TraceCall.close id value details error).perform b).Forest steps := by
  rw [TraceCall.perform]
  apply Forest.leave
  have hannotated : ((b.setValue (some id) value).annotate (some id) details).Forest steps :=
    (h.modify id (f := fun s => { s with value }) fun _ => rfl).modify id
      (f := fun s => { s with metadata := Assoc.putAll s.metadata details }) fun _ => rfl
  unfold setError
  dsimp only
  split
  · exact hannotated
  · exact hannotated.modify id (f := fun s => { s with error := some error }) fun _ => rfl

theorem perform (call : TraceCall) : (call.perform b).Forest (steps ++ call.step?.toList) := by
  cases call with
  | enter step => exact h.enter step
  | enterApart step => exact h.enterApart step
  | note step => exact h.note step
  | close id value details error =>
      rw [TraceCall.step?, Option.toList_none, List.append_nil]
      exact h.close id value details error

theorem foldl_perform (calls : List TraceCall) :
    (calls.foldl TraceCall.perform b).Forest (steps ++ calls.filterMap TraceCall.step?) := by
  induction calls generalizing b steps with
  | nil =>
      rw [List.filterMap_nil, List.append_nil]
      exact h
  | cons call calls ih =>
      have hcalls := ih (h.perform call)
      rw [List.append_assoc] at hcalls
      cases hstep : call.step? with
      | none => simpa [hstep] using hcalls
      | some step => simpa [hstep] using hcalls

end Forest

/-! ## Walks through a finished trace -/

/-- The numbers of the steps of a tree, each before those inside it. -/
def walk (entries : Array TraceEntry) : Nat → Nat → List Nat
  | 0, _ => []
  | fuel + 1, id => id :: (childrenOf entries id).flatMap (walk entries fuel)

/-- The numbers of the steps that a walk through the tree and then through the steps beside it
meets. -/
def walked (b : OpenTrace) : List Nat :=
  (0 :: b.detached.toList).flatMap (walk b.entries b.entries.size)

/-- The trees of all recorded steps. -/
def trees (b : OpenTrace) : Trace :=
  ⟨tree b.entries b.entries.size 0, b.detached.toList.map (tree b.entries b.entries.size)⟩

theorem map_range_getElem? {α : Type} (l : List α) :
    ((List.range l.length).map fun i => l[i]?) = l.map some :=
  List.ext_getElem (by simp) fun i hi _ => by simp

theorem flatMap_childrenOf (xs : Array TraceEntry) :
    (List.range xs.size).flatMap (childrenOf xs) = xs.toList.flatMap (·.children.toList) := by
  have hmap : (List.range xs.size).map (childrenOf xs) = xs.toList.map (·.children.toList) := by
    refine List.ext_getElem (by simp) fun i hi _ => ?_
    have hlt : i < xs.size := by simpa using hi
    simp [childrenOf, hlt]
  rw [List.flatMap_def, List.flatMap_def, hmap]

namespace Forest

variable {b : OpenTrace} {steps : List TraceStep} (h : b.Forest steps)
include h

theorem childrenOf_lt {i j : Nat} (hj : j ∈ childrenOf b.entries i) : j < b.entries.size := by
  have hi : i < b.entries.size := by
    by_contra hi
    simp [childrenOf, hi] at hj
  have hmem : j ∈ b.entries.toList.flatMap (·.children.toList) := by
    rw [← flatMap_childrenOf]
    exact List.mem_flatMap.2 ⟨i, List.mem_range.2 hi, hj⟩
  exact List.mem_range.1 (h.listed.subset (List.mem_cons_of_mem _ (List.mem_append_right _ hmem)))

/-- A walk with fuel for all later steps meets, for each step, those inside it. -/
theorem perm_walk {fuel i : Nat} (hi : i < b.entries.size) (hfuel : b.entries.size ≤ fuel + i) :
    (walk b.entries fuel i).Perm (i :: (walk b.entries fuel i).flatMap (childrenOf b.entries)) := by
  induction fuel generalizing i with
  | zero => omega
  | succ fuel ih =>
      rw [walk, List.flatMap_cons]
      refine (perm_flatMap_walk fun j hj => ih (h.childrenOf_lt hj) ?_).cons i
      have := h.later i j hj
      omega

theorem size_eq : b.entries.size = (steps.map TraceStep.given).length := by
  rw [← h.given]
  simp

theorem start_lt {i : Nat} (hi : i ∈ 0 :: b.detached.toList) : i < b.entries.size := by
  have hlisted := h.listed
  rw [← List.cons_append] at hlisted
  exact List.mem_range.1 (hlisted.subset (List.mem_append_left _ hi))

theorem perm_walked : b.walked.Perm (List.range b.entries.size) := by
  have hlisted := h.listed
  rw [← flatMap_childrenOf, ← List.cons_append] at hlisted
  exact perm_of_walks h.later (perm_flatMap_walk fun i hi =>
    h.perm_walk (h.start_lt hi) (Nat.le_add_right _ _)) hlisted.symm

/-- The tree of a step has the steps that the walk meets. -/
theorem steps_tree {fuel i : Nat} (hi : i < b.entries.size) (hfuel : b.entries.size ≤ fuel + i) :
    (tree b.entries fuel i).steps.map (fun s => some s.given) =
      (walk b.entries fuel i).map fun id => (steps.map TraceStep.given)[id]? := by
  induction fuel generalizing i with
  | zero => omega
  | succ fuel ih =>
      have hentry := Array.getElem?_eq_getElem hi
      have hgiven : some b.entries[i].step.given = (steps.map TraceStep.given)[i]? := by
        rw [← h.given]
        simp [hi]
      have hchildren : b.entries[i].children.toList = childrenOf b.entries i := by
        rw [childrenOf, hentry]
        rfl
      rw [tree, walk, hentry]
      simp only [TraceTree.steps, TraceTree.stepsAll_eq, hchildren, List.map_cons, hgiven,
        List.map_flatMap, List.flatMap_map]
      congr 1
      refine List.flatMap_congr fun j hj => ih (h.childrenOf_lt hj) ?_
      have := h.later i j hj
      omega

/-- The trees of a forest have the steps that the walk meets. -/
theorem steps_trees : b.trees.steps.map (fun s => some s.given) =
    b.walked.map fun id => (steps.map TraceStep.given)[id]? := by
  have htrees : b.trees.steps =
      (0 :: b.detached.toList).flatMap fun i => (tree b.entries b.entries.size i).steps := by
    rw [Trace.steps, trees, TraceTree.stepsAll_eq, List.flatMap_map, List.flatMap_cons]
  rw [htrees, walked, List.map_flatMap, List.map_flatMap]
  exact List.flatMap_congr fun i hi => h.steps_tree (h.start_lt hi) (Nat.le_add_right _ _)

/-- The trees of a forest have its steps, each once. -/
theorem perm_steps : (b.trees.steps.map TraceStep.given).Perm (steps.map TraceStep.given) := by
  have hsome : b.trees.steps.map (fun s => some s.given) =
      (b.trees.steps.map TraceStep.given).map some := by
    rw [List.map_map]
    rfl
  have hperm := h.perm_walked.map fun id => (steps.map TraceStep.given)[id]?
  rw [← h.steps_trees, hsome, h.size_eq, map_range_getElem?] at hperm
  exact (List.map_perm_map_iff fun _ _ => Option.some.inj).1 hperm

theorem count_trees (name : String) :
    b.trees.count name = (steps.filter fun s => s.kind.name = name).length := by
  have hcount := h.perm_steps.countP_eq fun g => decide (g.1.name = name)
  rw [List.countP_map, List.countP_map] at hcount
  rw [Trace.count, ← List.countP_eq_length_filter, ← List.countP_eq_length_filter]
  exact hcount

/-- A trace is finished by closing all open steps. -/
theorem conclude (value : Json) (error : Option String) :
    ∃ b', b'.Forest steps ∧ b.conclude value error = (b', some b'.trees) := by
  let finish (s : TraceStep) : TraceStep :=
    { s with value, error := error.filter fun text => !text.isEmpty }
  have hfinished : (b.modify 0 finish).Forest steps := h.modify 0 fun _ => rfl
  refine ⟨{ b.modify 0 finish with stack := [] }, hfinished.restack (by simp) (by simp), ?_⟩
  rw [OpenTrace.conclude]
  exact if_pos h.enabled

end Forest

/-- Whatever calls build a trace, its open steps are steps that were begun, stacked on the root with
the latest on top, and a walk through the finished trace meets the root and every step that was
begun, each once. The statistics count them by their kinds. -/
theorem forest_of_calls (label : String) (calls : List TraceCall) (value : Json)
    (error : Option String) :
    let b := calls.foldl TraceCall.perform (start true label)
    let begun := calls.filterMap TraceCall.step?
    let steps : List TraceStep := { kind := .root, label } :: begun
    let count name : Int := (begun.filter fun s => s.kind.name = name).length
    let finished := (b.conclude value error).1
    (b.stack ++ [0]).Pairwise (· > ·) ∧ (∀ id ∈ b.stack, id ≤ begun.length) ∧
      finished.walked.Perm (List.range (begun.length + 1)) ∧
      ∃ t, (b.conclude value error).2 = some t ∧
        t.steps.map (fun s => some s.given) =
          finished.walked.map (fun id => (steps.map TraceStep.given)[id]?) ∧
        t.statistics = .obj [("nodeCount", .int (begun.length + 1)),
          ("maxDepth", .int t.root.depth), ("tableRolls", .int (count "table_roll")),
          ("diceRolls", .int (count "dice_roll")),
          ("variableAccesses", .int (count "variable_access"))] := by
  intro b begun steps count finished
  have hforest : b.Forest steps := (forest_start label).foldl_perform calls
  obtain ⟨b', hforest', hconclude⟩ := hforest.conclude value error
  obtain rfl : finished = b' := congrArg Prod.fst hconclude
  have hlength : finished.trees.steps.length = begun.length + 1 := by
    simpa [steps] using hforest'.perm_steps.length_eq
  have hcount {name : String} (hname : StepKind.name .root ≠ name) :
      (finished.trees.count name : Int) = count name := by
    rw [hforest'.count_trees, List.filter_cons_of_neg (by simpa using hname)]
  refine ⟨hforest.stacked, fun id hid => ?_, ?_, finished.trees, congrArg Prod.snd hconclude,
    hforest'.steps_trees, ?_⟩
  · have hlt := hforest.begun id (List.mem_append_left _ hid)
    rw [hforest.size_eq, List.length_map] at hlt
    exact Nat.le_of_lt_succ hlt
  · have hperm := hforest'.perm_walked
    rwa [hforest'.size_eq, List.length_map] at hperm
  · have htable : StepKind.tableRoll.name = "table_roll" := rfl
    have hdice : StepKind.directiveName .dice = "dice_roll" := rfl
    have hvariable : StepKind.directiveName .variable = "variable_access" := rfl
    rw [Trace.statistics, htable, hdice, hvariable, hlength, hcount (by decide), hcount (by decide),
      hcount (by decide)]
    rfl

end OpenTrace

end RandomTables
