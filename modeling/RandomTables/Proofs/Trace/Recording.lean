-- SUMMARY: What is recorded while a step is open stays inside that step.
import Mathlib.Data.List.Basic
import RandomTables.Proofs.Trace.Tracing

/-!
# Recording

Steps are numbered as they begin, so what is recorded while a step is open has numbers from its own
on. Steps with smaller numbers keep all they have, and every step keeps its kind and what it was
given. Only steps that are begun apart from the tree are conditionals, so none is listed inside
another step.
-/
namespace RandomTables

namespace TraceEntry

/-- A step with a number that may be listed inside another one: it is later, and not a conditional. -/
def Listable (xs : Array TraceEntry) (i j : Nat) : Prop :=
  i < j ∧ ∃ child, xs[j]? = some child ∧ child.step.kind ≠ .conditional

/-- Only steps that may be are listed inside others. -/
def Sound (xs : Array TraceEntry) : Prop :=
  ∀ (i : Nat) (entry : TraceEntry), xs[i]? = some entry → ∀ j ∈ entry.children, Listable xs i j

/-- The second entries come from the first by recording from a number on. -/
structure Follows (k : Nat) (xs ys : Array TraceEntry) : Prop where
  before : ∀ i < k, ys[i]? = xs[i]?
  retold : ∀ (i : Nat) (entry : TraceEntry), xs[i]? = some entry →
    ∃ entry', ys[i]? = some entry' ∧ entry'.step.kind = entry.step.kind ∧
      entry'.step.raw = entry.step.raw
  listed : ∀ (i : Nat) (entry' : TraceEntry), ys[i]? = some entry' → ∀ j ∈ entry'.children,
    (∃ entry, xs[i]? = some entry ∧ j ∈ entry.children) ∨ Listable ys i j

namespace Follows

variable {xs ys zs : Array TraceEntry} {k : Nat}

theorem listable (h : Follows k xs ys) {i j : Nat} (hj : Listable xs i j) : Listable ys i j := by
  obtain ⟨hlater, child, hchild, hkind⟩ := hj
  obtain ⟨child', hchild', hkind', -⟩ := h.retold j child hchild
  exact ⟨hlater, child', hchild', hkind' ▸ hkind⟩

theorem sound (h : Follows k xs ys) (hxs : Sound xs) : Sound ys := by
  intro i entry' hentry' j hj
  rcases h.listed i entry' hentry' j hj with ⟨entry, hentry, hold⟩ | hnew
  · exact h.listable (hxs i entry hentry j hold)
  · exact hnew

theorem refl (k : Nat) (xs : Array TraceEntry) : Follows k xs xs :=
  ⟨fun _ _ => rfl, fun _ entry h => ⟨entry, h, rfl, rfl⟩, fun _ entry h _ hj => .inl ⟨entry, h, hj⟩⟩

theorem trans (h : Follows k xs ys) (h' : Follows k ys zs) : Follows k xs zs where
  before i hi := (h'.before i hi).trans (h.before i hi)
  retold i entry hentry := by
    obtain ⟨entry', hentry', hkind, hraw⟩ := h.retold i entry hentry
    obtain ⟨entry'', hentry'', hkind', hraw'⟩ := h'.retold i entry' hentry'
    exact ⟨entry'', hentry'', hkind'.trans hkind, hraw'.trans hraw⟩
  listed i entry'' hentry'' j hj := by
    rcases h'.listed i entry'' hentry'' j hj with ⟨entry', hentry', hold⟩ | hnew
    · exact (h.listed i entry' hentry' j hold).imp_right h'.listable
    · exact .inr hnew

theorem mono {less : Nat} (h : Follows k xs ys) (hless : less ≤ k) : Follows less xs ys :=
  ⟨fun i hi => h.before i (Nat.lt_of_lt_of_le hi hless), h.retold, h.listed⟩

/-! ## Ways of recording -/

/-- Telling a step differently. -/
theorem modify {id : Nat} {f : TraceStep → TraceStep} (hf : TraceStep.Retells f) (hid : k ≤ id) :
    Follows k xs (xs.modify id fun entry => { entry with step := f entry.step }) where
  before i hi := by rw [Array.getElem?_modify, if_neg (by omega)]
  retold i entry hentry := by
    rw [Array.getElem?_modify, hentry]
    split
    · exact ⟨_, rfl, hf _⟩
    · exact ⟨_, rfl, rfl, rfl⟩
  listed i entry' hentry' j hj := by
    rw [Array.getElem?_modify] at hentry'
    split at hentry'
    · obtain ⟨entry, hentry, rfl⟩ := Option.map_eq_some_iff.1 hentry'
      exact .inl ⟨entry, hentry, hj⟩
    · exact .inl ⟨entry', hentry', hj⟩

/-- A step beside the tree. -/
theorem push {step : TraceStep} (hsize : k ≤ xs.size) : Follows k xs (xs.push { step }) where
  before i hi := by rw [Array.getElem?_push, if_neg (by omega)]
  retold i entry hentry := by
    have hi : i ≠ xs.size := Nat.ne_of_lt (Array.getElem?_eq_some_iff.1 hentry).1
    rw [Array.getElem?_push, if_neg hi]
    exact ⟨entry, hentry, rfl, rfl⟩
  listed i entry' hentry' j hj := by
    rw [Array.getElem?_push] at hentry'
    split at hentry'
    · cases hentry'
      exact absurd hj (Array.not_mem_empty j)
    · exact .inl ⟨entry', hentry', hj⟩

/-- A step listed inside another one. -/
theorem record {id : Nat} {step : TraceStep} (hid : k ≤ id) (hsize : k ≤ xs.size)
    (hkind : step.kind ≠ .conditional) :
    Follows k xs ((xs.modify id fun entry =>
      { entry with children := entry.children.push xs.size }).push { step }) where
  before i hi := by
    rw [Array.getElem?_push, Array.size_modify, if_neg (by omega), Array.getElem?_modify,
      if_neg (by omega)]
  retold i entry hentry := by
    have hi : i ≠ xs.size := Nat.ne_of_lt (Array.getElem?_eq_some_iff.1 hentry).1
    rw [Array.getElem?_push, Array.size_modify, if_neg hi, Array.getElem?_modify, hentry]
    split <;> exact ⟨_, rfl, rfl, rfl⟩
  listed i entry' hentry' j hj := by
    rw [Array.getElem?_push, Array.size_modify] at hentry'
    split at hentry'
    · cases hentry'
      exact absurd hj (Array.not_mem_empty j)
    rw [Array.getElem?_modify] at hentry'
    split at hentry'
    · obtain ⟨entry, hentry, rfl⟩ := Option.map_eq_some_iff.1 hentry'
      rcases Array.mem_push.1 hj with hold | rfl
      · exact .inl ⟨entry, hentry, hold⟩
      · refine .inr ⟨(Array.getElem?_eq_some_iff.1 hentry).1, { step }, ?_, hkind⟩
        rw [Array.getElem?_push, Array.size_modify, if_pos rfl]
    · exact .inl ⟨entry', hentry', hj⟩

end Follows

end TraceEntry

namespace OpenTrace

open TraceEntry

/-- The steps listed directly inside the root. -/
def rootSteps (b : OpenTrace) : List TraceStep :=
  match b.entries[0]? with
  | some root => root.children.toList.filterMap fun id => b.entries[id]?.map (·.step)
  | none => []

theorem entries_leave (b : OpenTrace) (id : Option Nat) : (b.leave id).entries = b.entries := by
  cases id with
  | none => rfl
  | some id =>
      unfold leave
      dsimp only
      split <;> rfl

/-! ## Recording inside a step -/

/-- A trace in which a step is open that was begun with the given trace, and what was recorded since
is inside it. -/
structure Inside (begun : OpenTrace) (k : Nat) (b : OpenTrace) : Prop where
  enabled : b.enabled = true
  started : k < begun.entries.size
  follows : Follows k begun.entries b.entries
  nonempty : b.stack ≠ []
  within : ∀ i ∈ b.stack, k ≤ i

namespace Inside

variable {begun b : OpenTrace} {k : Nat} (h : Inside begun k b)
include h

theorem le_size : k ≤ b.entries.size := by
  have hstarted := h.started
  obtain ⟨entry, hentry, -⟩ :=
    h.follows.retold k begun.entries[k] (Array.getElem?_eq_getElem h.started)
  exact Nat.le_of_lt (Array.getElem?_eq_some_iff.1 hentry).1

theorem le_innermost : k ≤ b.innermost := by
  obtain ⟨id, rest, hstack⟩ := List.exists_cons_of_ne_nil h.nonempty
  have hid := h.within id (hstack ▸ List.mem_cons_self)
  rwa [innermost, hstack]

theorem record {step : TraceStep} (hkind : step.kind ≠ .conditional) :
    Follows k begun.entries (b.record step).entries :=
  h.follows.trans (.record h.le_innermost h.le_size hkind)

theorem note {step : TraceStep} (hkind : step.kind ≠ .conditional) :
    Inside begun k (b.note step) := by
  rw [OpenTrace.note, if_pos h.enabled]
  exact ⟨h.enabled, h.started, h.record hkind, h.nonempty, h.within⟩

theorem change {id : Option Nat} (hid : ∀ i ∈ id, k ≤ i) {f : TraceStep → TraceStep}
    (hf : TraceStep.Retells f) : Inside begun k (b.change id f) := by
  cases id with
  | none => exact h
  | some id =>
      exact ⟨h.enabled, h.started, h.follows.trans (.modify hf (hid id rfl)), h.nonempty, h.within⟩

theorem enter {step : TraceStep} (hkind : step.kind ≠ .conditional) :
    (∀ i ∈ (b.enter step).1, k ≤ i) ∧ Inside begun k (b.enter step).2 := by
  rw [OpenTrace.enter, if_pos h.enabled]
  refine ⟨?_, h.enabled, h.started, h.record hkind, List.cons_ne_nil _ _,
    List.forall_mem_cons.2 ⟨h.le_size, h.within⟩⟩
  rintro _ ⟨⟩
  exact h.le_size

theorem enterApart {step : TraceStep} :
    (∀ i ∈ (b.enterApart step).1, k ≤ i) ∧ Inside begun k (b.enterApart step).2 := by
  rw [OpenTrace.enterApart, if_pos h.enabled]
  refine ⟨?_, h.enabled, h.started, h.follows.trans (.push h.le_size), List.cons_ne_nil _ _,
    List.forall_mem_cons.2 ⟨h.le_size, h.within⟩⟩
  rintro _ ⟨⟩
  exact h.le_size

theorem leave {outer : OpenTrace} (houter : Inside begun k outer) {id : Option Nat}
    (hstack : b.stack = id.toList ++ outer.stack) : Inside begun k (b.leave id) := by
  have hopen := stack_leave hstack
  refine ⟨(enabled_leave b id).trans h.enabled, h.started, b.entries_leave id ▸ h.follows, ?_, ?_⟩
  · rw [hopen]
    exact houter.nonempty
  · rw [hopen]
    exact houter.within

end Inside

end OpenTrace

/-- A trace beside itself while a step is open. -/
def Tracing.inside (begun : OpenTrace) (k : Nat) : Tracing where
  traces b b' := b' = b ∧ OpenTrace.Inside begun k b
  steps n m := m = n ∧ ∀ i ∈ n, k ≤ i
  note hkind h := ⟨by rw [h.1], h.2.note hkind⟩
  change hf hn h := ⟨by rw [h.1, hn.1], h.2.change hn.2 hf⟩
  enter hkind h := by
    obtain ⟨hid, hinside⟩ := h.2.enter hkind
    exact ⟨⟨by rw [h.1], hid⟩, by rw [h.1], hinside⟩
  enterApart _ h := by
    obtain ⟨hid, hinside⟩ := h.2.enterApart
    exact ⟨⟨by rw [h.1], hid⟩, by rw [h.1], hinside⟩
  leave houter hn hstack h := ⟨by rw [h.1, hn.1], h.2.leave houter.2 hstack⟩

namespace OpenTrace

open TraceEntry

/-! ## Recording inside the root -/

/-- A trace in which nothing but the root is open. -/
structure Idle (b : OpenTrace) : Prop where
  enabled : b.enabled = true
  stack : b.stack = []
  sound : Sound b.entries
  root : ∃ root, b.entries[0]? = some root ∧ root.step.kind ≠ .conditional

theorem idle_start (label : String) : (start true label).Idle := by
  refine ⟨rfl, rfl, ?_, _, rfl, nofun⟩
  intro i entry hentry j hj
  obtain ⟨hi, rfl⟩ := Array.getElem?_eq_some_iff.1 hentry
  obtain rfl : i = 0 := Nat.lt_one_iff.1 hi
  exact absurd hj (Array.not_mem_empty j)

namespace Idle

variable {b b' : OpenTrace} (h : b.Idle) {step : TraceStep}
include h

theorem size_pos : 0 < b.entries.size := by
  obtain ⟨root, hroot, -⟩ := h.root
  exact (Array.getElem?_eq_some_iff.1 hroot).1

theorem getElem?_record (i : Nat) :
    (b.record step).entries[i]? =
      if i = b.entries.size then some { step }
      else if i = 0 then b.entries[0]?.map fun root =>
        { root with children := root.children.push b.entries.size }
      else b.entries[i]? := by
  have hinnermost : b.innermost = 0 := by rw [innermost, h.stack]; rfl
  rw [record, hinnermost, Array.getElem?_push, Array.size_modify, Array.getElem?_modify]
  split
  · rfl
  · simp only [eq_comm (a := 0)]
    split
    · rename_i hi
      rw [hi]
    · rfl

/-- The steps inside the root after one more, in which others may have been recorded. -/
theorem rootSteps_record (hfollows : Follows b.entries.size (b.record step).entries b'.entries) :
    ∃ entry, b'.entries[b.entries.size]? = some entry ∧ entry.step.kind = step.kind ∧
      entry.step.raw = step.raw ∧ b'.rootSteps = b.rootSteps ++ [entry.step] := by
  have hpos := h.size_pos
  obtain ⟨root, hroot, -⟩ := h.root
  obtain ⟨entry, hentry, hkind, hraw⟩ := hfollows.retold b.entries.size { step } <| by
    rw [h.getElem?_record, if_pos rfl]
  refine ⟨entry, hentry, hkind, hraw, ?_⟩
  have hroot' : b'.entries[0]? =
      some { root with children := root.children.push b.entries.size } := by
    rw [hfollows.before 0 hpos, h.getElem?_record, if_neg (Nat.ne_of_lt hpos), if_pos rfl, hroot]
    rfl
  have hold : ∀ j ∈ root.children.toList, b'.entries[j]? = b.entries[j]? := by
    intro j hj
    obtain ⟨hj, child, hchild, -⟩ := h.sound 0 root hroot j (Array.mem_toList_iff.1 hj)
    have hlt := (Array.getElem?_eq_some_iff.1 hchild).1
    rw [hfollows.before j hlt, h.getElem?_record, if_neg (Nat.ne_of_lt hlt), if_neg (Nat.ne_of_gt hj)]
  unfold rootSteps
  rw [hroot', hroot]
  simp only [Array.toList_push, List.filterMap_append, List.filterMap_cons, List.filterMap_nil,
    hentry, Option.map_some]
  congr 1
  exact List.filterMap_congr fun j hj => by rw [hold j hj]

/-- What is recorded beside the tree is not inside the root. -/
theorem rootSteps_push (step : TraceStep)
    (hfollows : Follows b.entries.size (b.entries.push { step }) b'.entries) :
    b'.rootSteps = b.rootSteps := by
  have hpos := h.size_pos
  obtain ⟨root, hroot, -⟩ := h.root
  have hsame : ∀ j < b.entries.size, b'.entries[j]? = b.entries[j]? := fun j hj => by
    rw [hfollows.before j hj, Array.getElem?_push, if_neg (Nat.ne_of_lt hj)]
  unfold rootSteps
  rw [hsame 0 hpos, hroot]
  refine List.filterMap_congr fun j hj => ?_
  obtain ⟨-, child, hchild, -⟩ := h.sound 0 root hroot j (Array.mem_toList_iff.1 hj)
  rw [hsame j (Array.getElem?_eq_some_iff.1 hchild).1]

theorem of_follows {k : Nat} (hfollows : Follows k b.entries b'.entries)
    (henabled : b'.enabled = true) (hstack : b'.stack = []) : b'.Idle := by
  obtain ⟨root, hroot, hkind⟩ := h.root
  obtain ⟨root', hroot', hkind', -⟩ := hfollows.retold 0 root hroot
  exact ⟨henabled, hstack, hfollows.sound h.sound, root', hroot', hkind' ▸ hkind⟩

theorem note (step : TraceStep) (hkind : step.kind ≠ .conditional) : (b.note step).Idle ∧
    ∃ s, s.kind = step.kind ∧ s.raw = step.raw ∧ (b.note step).rootSteps = b.rootSteps ++ [s] := by
  rw [OpenTrace.note, if_pos h.enabled]
  obtain ⟨entry, -, hkind', hraw, hsteps⟩ := h.rootSteps_record (.refl _ (b.record step).entries)
  exact ⟨h.of_follows (.record (Nat.zero_le _) (Nat.zero_le _) hkind) h.enabled h.stack,
    entry.step, hkind', hraw, hsteps⟩

end Idle

/-- A step was begun in an idle trace, and it alone is open. -/
structure Begun (b begun : OpenTrace) : Prop where
  idle : b.Idle
  enabled : begun.enabled = true
  stack : begun.stack = [b.entries.size]
  size : begun.entries.size = b.entries.size + 1
  follows : Follows 0 b.entries begun.entries

theorem Idle.enter {b : OpenTrace} (h : b.Idle) {step : TraceStep}
    (hkind : step.kind ≠ .conditional) :
    b.Begun { b.record step with stack := b.entries.size :: b.stack } where
  idle := h
  enabled := h.enabled
  stack := by rw [h.stack]
  size := by rw [record, Array.size_push, Array.size_modify]
  follows := .record (Nat.zero_le _) (Nat.zero_le _) hkind

theorem Idle.enterApart {b : OpenTrace} (h : b.Idle) (step : TraceStep) :
    b.Begun { b with
      entries := b.entries.push { step }
      stack := b.entries.size :: b.stack
      detached := b.detached.push b.entries.size } where
  idle := h
  enabled := h.enabled
  stack := by rw [h.stack]
  size := Array.size_push _
  follows := .push (Nat.zero_le _)

theorem follows_setError (b : OpenTrace) (id : Nat) (error : String) :
    Follows id b.entries (b.setError (some id) error).entries := by
  unfold setError
  dsimp only
  split
  · exact .refl _ _
  · exact .modify (f := fun s => { s with error := some error }) (fun _ => ⟨rfl, rfl⟩)
      (Nat.le_refl _)

theorem follows_closeStep {α : Type} (b : OpenTrace) (id : Nat) (result : Except Failure α) :
    Follows id b.entries (Eval.closeStep (some id) result b).entries := by
  unfold Eval.closeStep
  split <;> rw [entries_leave]
  · exact .refl _ _
  · exact follows_setError b id _
  · exact .refl _ _

theorem enabled_closeStep {α : Type} (b : OpenTrace) (id : Option Nat)
    (result : Except Failure α) : (Eval.closeStep id result b).enabled = b.enabled := by
  unfold Eval.closeStep
  split <;> rw [enabled_leave]
  cases id with
  | none => rfl
  | some id =>
      unfold setError
      dsimp only
      split <;> rfl

namespace Begun

variable {b begun b' : OpenTrace} (h : b.Begun begun)
include h

theorem inside : Inside begun b.entries.size begun where
  enabled := h.enabled
  started := by
    rw [h.size]
    exact Nat.lt_succ_self _
  follows := .refl _ _
  nonempty := by
    rw [h.stack]
    exact List.cons_ne_nil _ _
  within := by
    rw [h.stack]
    exact List.forall_mem_singleton.2 (Nat.le_refl _)

/-- Once the step is closed the trace is idle again. -/
theorem close {α : Type} (hinside : Inside begun b.entries.size b')
    (hstack : b'.stack = begun.stack) (result : Except Failure α) :
    (Eval.closeStep (some b.entries.size) result b').Idle := by
  have hclosed := hinside.follows.trans (follows_closeStep b' b.entries.size result)
  refine h.idle.of_follows (h.follows.trans (hclosed.mono (Nat.zero_le _)))
    ((enabled_closeStep b' _ result).trans hinside.enabled) (Eval.stack_closeStep result ?_)
  rw [hstack, h.stack]
  rfl

end Begun

end OpenTrace

/-! ## Trees -/

namespace TraceTree

/-- The step at the root of a tree. -/
def step : TraceTree → TraceStep
  | .node step _ => step

/-- The trees inside the root of a tree. -/
def children : TraceTree → List TraceTree
  | .node _ children => children

theorem stepsAll_eq (trees : List TraceTree) : stepsAll trees = trees.flatMap steps := by
  induction trees with
  | nil => rfl
  | cons t rest ih => rw [stepsAll, ih, List.flatMap_cons]

theorem mem_stepsAll {trees : List TraceTree} {s : TraceStep} :
    s ∈ stepsAll trees ↔ ∃ t ∈ trees, s ∈ t.steps := by
  rw [stepsAll_eq, List.mem_flatMap]

end TraceTree

namespace OpenTrace

open TraceEntry

variable {xs : Array TraceEntry}

theorem step_tree {fuel id : Nat} {entry : TraceEntry} (h : xs[id]? = some entry) :
    (tree xs (fuel + 1) id).step = entry.step := by
  rw [tree, h]
  rfl

/-- No step of a tree is a conditional, unless it is the first one. -/
theorem kind_of_mem_tree (h : Sound xs) {fuel id : Nat}
    (hid : ∀ entry, xs[id]? = some entry → entry.step.kind ≠ .conditional) {s : TraceStep}
    (hs : s ∈ (tree xs fuel id).steps) : s.kind ≠ .conditional := by
  induction fuel generalizing id with
  | zero =>
      rw [tree, TraceTree.steps, TraceTree.stepsAll, List.mem_singleton] at hs
      exact hs ▸ nofun
  | succ fuel ih =>
      rw [tree] at hs
      split at hs
      · rename_i entry hentry
        rw [TraceTree.steps, List.mem_cons, TraceTree.mem_stepsAll] at hs
        rcases hs with rfl | ⟨t, ht, hs⟩
        · exact hid entry hentry
        obtain ⟨j, hj, rfl⟩ := List.mem_map.1 ht
        obtain ⟨-, child, hchild, hkind⟩ := h id entry hentry j (Array.mem_toList_iff.1 hj)
        refine ih (fun entry hentry => ?_) hs
        cases hchild.symm.trans hentry
        exact hkind
      · rw [TraceTree.steps, TraceTree.stepsAll, List.mem_singleton] at hs
        exact hs ▸ nofun

/-- The tree of a finished trace has the steps inside the root in their order, and holds no
conditional. -/
theorem Idle.conclude {b : OpenTrace} (h : b.Idle) (value : Json) (error : Option String) :
    ∃ t, (b.conclude value error).2 = some t ∧ t.root.children.map TraceTree.step = b.rootSteps ∧
      ∀ s ∈ t.root.steps, s.kind ≠ .conditional := by
  obtain ⟨root, hroot, hkind⟩ := h.root
  let finish (s : TraceStep) : TraceStep :=
    { s with value, error := error.filter fun text => !text.isEmpty }
  let entries := (b.modify 0 finish).entries
  have hfollows : Follows 0 b.entries entries := .modify (fun _ => ⟨rfl, rfl⟩) (Nat.zero_le _)
  have hsound := hfollows.sound h.sound
  have hsize : entries.size = b.entries.size := Array.size_modify ..
  have hroot' : entries[0]? = some { root with step := finish root.step } := by
    change (b.entries.modify 0 _)[0]? = _
    rw [Array.getElem?_modify, if_pos rfl, hroot]
    rfl
  have hconclude : (b.conclude value error).2 = some ⟨tree entries entries.size 0,
      b.detached.toList.map (tree entries entries.size)⟩ := by
    simp only [OpenTrace.conclude, modify, h.enabled, if_true]
    rfl
  refine ⟨_, hconclude, ?_, fun s hs => kind_of_mem_tree hsound (fun entry hentry => ?_) hs⟩
  · have hpos := h.size_pos
    obtain ⟨fuel, hfuel⟩ : ∃ fuel, entries.size = fuel + 1 := ⟨entries.size - 1, by omega⟩
    have hchildren : ∀ j ∈ root.children.toList,
        b.entries[j]?.map (·.step) = some (tree entries fuel j).step := by
      intro j hj
      obtain ⟨hlater, child, hchild, -⟩ := h.sound 0 root hroot j (Array.mem_toList_iff.1 hj)
      have hlt := (Array.getElem?_eq_some_iff.1 hchild).1
      have hsame : entries[j]? = some child := by
        change (b.entries.modify 0 _)[j]? = _
        rw [Array.getElem?_modify, if_neg (Nat.ne_of_lt hlater), hchild]
      obtain ⟨less, rfl⟩ : ∃ less, fuel = less + 1 := ⟨fuel - 1, by omega⟩
      rw [step_tree hsame, hchild]
      rfl
    rw [rootSteps, hroot, hfuel, tree, hroot']
    change ((root.children.toList.map (tree entries fuel)).map TraceTree.step) = _
    rw [List.map_map]
    exact (List.filterMap_eq_map_iff_forall_eq_some.2 hchildren).symm
  · cases hroot'.symm.trans hentry
    exact hkind

end OpenTrace

end RandomTables
