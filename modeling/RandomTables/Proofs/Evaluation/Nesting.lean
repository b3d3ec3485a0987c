-- SUMMARY: What an evaluation has open, as one value, and how each way of opening more changes it.
import RandomTables.Evaluation.Context

/-!
# What is open

Levels, rolls, sets, scopes of shared variables and steps of the trace are opened and closed again
in the course of an evaluation. `Nesting` is all of it at one moment. The values of shared variables
are left out: they come and stay.
-/
namespace RandomTables

/-- A scope without its values. -/
def SharedLevel.blank (s : SharedLevel) : SharedLevel := { s with values := [] }

/-- The visible scopes without their values. -/
def SharedStore.blank (s : SharedStore) : SharedStore :=
  { s with scopes := s.scopes.map SharedLevel.blank }

/-- The open levels and the visible scopes: what decides how much more an evaluation may open. -/
structure Reach where
  depth : Nat
  /-- The labels of the open levels, the innermost first. -/
  chain : List String
  /-- The visible scopes and the variables under evaluation in them, without any values. -/
  shared : SharedStore

/-- All that is open at one moment of an evaluation. -/
structure Nesting extends Reach where
  frames : List Frame
  guards : List String
  /-- The open steps of the trace, the innermost first. -/
  steps : List Nat

def Context.nesting (c : Context) : Nesting :=
  ⟨⟨c.depth, c.chain, c.shared.blank⟩, c.frames, c.guards, c.trace.stack⟩

/-- One level deeper. -/
def Reach.deeper (r : Reach) (label : String) : Reach :=
  { r with depth := r.depth + 1, chain := label :: r.chain }

/-- A variable whose evaluation has begun, in a store without values. -/
def Pending.blank (p : Pending) : Pending :=
  ⟨p.scope.blank, p.declaration, p.hidden.map SharedLevel.blank, p.store.blank⟩

/-! ## Looking a variable up -/

namespace SharedStore

/-- Scopes that do not declare a name are passed over. -/
theorem findIn_append {statics : List String} {name : String} {inner : List SharedLevel}
    (hinner : ∀ scope ∈ inner, scope.declaration? name = none) (hidden rest : List SharedLevel) :
    findIn statics hidden name (inner ++ rest) = findIn statics (hidden ++ inner) name rest := by
  induction inner generalizing hidden with
  | nil => rw [List.nil_append, List.append_nil]
  | cons scope inner ih =>
      rw [List.forall_mem_cons] at hinner
      rw [List.cons_append, findIn, hinner.1]
      simpa only [List.append_assoc, List.cons_append, List.nil_append] using
        ih hinner.2 (hidden ++ [scope])

/-- Where a pending variable was found: in the first scope that declares it, which may read it now
and has no value for it yet. -/
structure FoundIn (name : String) (p : Pending) (statics : List String)
    (inner outer : List SharedLevel) : Prop where
  passed : ∀ scope ∈ inner, scope.declaration? name = none
  declared : p.scope.declaration? name = some p.declaration
  legal : p.scope.illegal? p.declaration = none
  unknown : p.scope.values.get? name = none
  store : p.store =
    ⟨statics, { p.scope with active := p.declaration :: p.scope.active } :: outer⟩

theorem findIn_pending {statics : List String} {hidden scopes : List SharedLevel} {name : String}
    {p : Pending} (h : findIn statics hidden name scopes = .pending p) :
    ∃ inner outer, scopes = inner ++ p.scope :: outer ∧ p.hidden = hidden ++ inner ∧
      FoundIn name p statics inner outer := by
  induction scopes generalizing hidden with
  | nil => cases h
  | cons scope outer ih =>
      rw [findIn] at h
      cases hd : scope.declaration? name with
      | none =>
          simp only [hd] at h
          obtain ⟨inner, outer, rfl, hhidden, hfound⟩ := ih h
          refine ⟨scope :: inner, outer, rfl, ?_, ?_⟩
          · rw [hhidden, List.append_assoc, List.singleton_append]
          · exact { hfound with passed := List.forall_mem_cons.2 ⟨hd, hfound.passed⟩ }
      | some d =>
          simp only [hd] at h
          cases hi : scope.illegal? d with
          | some e =>
              simp only [hi] at h
              cases h
          | none =>
              simp only [hi] at h
              cases hv : scope.values.get? name with
              | some value =>
                  simp only [hv] at h
                  cases h
              | none =>
                  simp only [hv] at h
                  cases h
                  have hnil : ∀ scope ∈ ([] : List SharedLevel), scope.declaration? name = none :=
                    fun _ hs => absurd hs List.not_mem_nil
                  exact ⟨[], outer, rfl, (List.append_nil _).symm, ⟨hnil, hd, hi, hv, rfl⟩⟩

/-- A pending variable hides the scopes inside the one that declares it. -/
theorem find_pending {s : SharedStore} {name : String} {p : Pending}
    (h : s.find name = .pending p) :
    ∃ outer, s.scopes = p.hidden ++ p.scope :: outer ∧ FoundIn name p s.statics p.hidden outer := by
  obtain ⟨inner, outer, hscopes, hhidden, hfound⟩ := findIn_pending h
  rw [List.nil_append] at hhidden
  rw [hhidden]
  exact ⟨outer, hscopes, hfound⟩

/-- A variable that is pending is pending also where no value is known. -/
theorem find_blank {s : SharedStore} {name : String} {p : Pending}
    (h : s.find name = .pending p) : s.blank.find name = .pending p.blank := by
  obtain ⟨outer, hscopes, hfound⟩ := find_pending h
  have hpassed : ∀ scope ∈ p.hidden.map SharedLevel.blank, scope.declaration? name = none := by
    intro scope hscope
    obtain ⟨scope', hmem, rfl⟩ := List.mem_map.1 hscope
    exact hfound.passed scope' hmem
  have hd : p.scope.blank.declaration? name = some p.declaration := hfound.declared
  have hi : p.scope.blank.illegal? p.declaration = none := hfound.legal
  rw [find, blank, hscopes, List.map_append, List.map_cons, findIn_append hpassed, findIn, hd]
  simp only [hi]
  rw [Pending.blank, hfound.store]
  rfl

/-- The store after a variable's evaluation has what the store before it had open. -/
theorem blank_resume {s s' : SharedStore} {name : String} {p : Pending} {value : Option Content}
    (h : s.find name = .pending p) (hs' : s'.blank = p.store.blank) :
    (p.resume value s').blank = s.blank := by
  obtain ⟨outer, hscopes, hfound⟩ := find_pending h
  rw [hfound.store] at hs'
  obtain ⟨statics, scopes⟩ := s'
  simp only [blank, mk.injEq, List.map_cons] at hs'
  obtain ⟨rfl, hmap⟩ := hs'
  cases scopes with
  | nil => cases hmap
  | cons scope outer' =>
      rw [List.map_cons, List.cons.injEq] at hmap
      have hscope : ({ scope with active := scope.active.drop 1 } : SharedLevel).blank =
          p.scope.blank := by
        have hactive : scope.active = p.declaration :: p.scope.active :=
          congrArg SharedLevel.active hmap.1
        simp only [SharedLevel.blank, SharedLevel.mk.injEq] at hmap ⊢
        exact ⟨hmap.1.1, hmap.1.2.1, hmap.1.2.2.1, trivial, by rw [hactive, List.drop_one, List.tail_cons]⟩
      simp only [Pending.resume, settle, blank, List.map_append, List.map_cons, hscopes]
      rw [hmap.2]
      simp only [mk.injEq, List.append_cancel_left_eq, List.cons.injEq, true_and, and_true]
      exact hscope

end SharedStore

end RandomTables
