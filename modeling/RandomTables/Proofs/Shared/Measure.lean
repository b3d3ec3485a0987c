-- SUMMARY: Declaring shared variables, and how many can still be evaluated inside the one at hand.
import Mathlib.Algebra.Ring.Nat
import Mathlib.Data.List.Perm.Subperm
import RandomTables.Proofs.Evaluation.Monad
import RandomTables.Proofs.Evaluation.Nesting
import RandomTables.Shared.Store

/-!
# The measure of shared variables

A variable under evaluation reads only what its scope declares before it, and what the scopes around
declare. So each evaluation inside another one has fewer variables left, and as all visible names
differ there are never more of them than names that can be declared.
-/
namespace RandomTables

/-! ## Declaring shared variables

A scope grows by one declaration at a time. So a property of scopes that a declaration preserves
holds of every scope that is entered; `SharedLevel.declareAll_induction` is that argument. -/

namespace SharedLevel

variable {s s' : SharedLevel}

theorem declare_eq_ok {key pattern : String} (h : s.declare key pattern = .ok s') :
    s.declares (splitSign key).1 = false ∧
      s' = { s with declarations := s.declarations ++
        [⟨(splitSign key).1, pattern, s.declarations.length, (splitSign key).2⟩] } := by
  unfold declare at h
  dsimp only at h
  split at h
  · cases h
  · rename_i hnew
    cases h
    exact ⟨Bool.eq_false_iff.2 hnew, rfl⟩

/-- What every declaration of a block preserves holds after all of them. -/
theorem declareAll_induction {P : SharedLevel → Prop} {block : List (String × String)}
    (hstep : ∀ s s' p, p ∈ block → P s → s.declare p.1 p.2 = .ok s' → P s')
    (h : s.declareAll block = .ok s') (hs : P s) : P s' := by
  induction block generalizing s with
  | nil =>
      cases h
      exact hs
  | cons p rest ih =>
      obtain ⟨next, hnext, hrest⟩ := Except.bind_eq_ok h
      refine ih (fun s s' q hq => hstep s s' q (List.mem_cons_of_mem _ hq)) hrest ?_
      exact hstep s next p List.mem_cons_self hs hnext

/-- Every declaration of a block is written in it. -/
theorem written_of_declareAll {block : List (String × String)} (h : s.declareAll block = .ok s')
    {P : Declaration → Prop} (hs : ∀ d ∈ s.declarations, P d)
    (hblock : ∀ p ∈ block, ∀ d : Declaration, d.name = (splitSign p.1).1 → d.pattern = p.2 → P d) :
    ∀ d ∈ s'.declarations, P d := by
  refine declareAll_induction (P := fun t => ∀ d ∈ t.declarations, P d)
    (fun t t' p hp ht hdeclare => ?_) h hs
  rw [(declare_eq_ok hdeclare).2]
  exact List.forall_mem_append.2 ⟨ht, List.forall_mem_singleton.2 (hblock p hp _ rfl rfl)⟩

/-- A name is declared if it was before, or is the new one. -/
theorem declares_concat (s : SharedLevel) (d : Declaration) (name : String) :
    declares { s with declarations := s.declarations ++ [d] } name =
      (s.declares name || d.name = name) := by
  simp only [declares, declaration?, List.find?_append, Option.isSome_or, List.find?_singleton]
  split <;> simp_all

/-- A block can be declared exactly if its names are distinct and none of them was declared before. -/
theorem declareAll_isOk_iff {block : List (String × String)} :
    (∃ s', s.declareAll block = .ok s') ↔
      (block.map fun p => (splitSign p.1).1).Nodup ∧
        ∀ p ∈ block, s.declares (splitSign p.1).1 = false := by
  induction block generalizing s with
  | nil => exact iff_of_true ⟨s, rfl⟩ ⟨List.nodup_nil, fun _ h => absurd h List.not_mem_nil⟩
  | cons p rest ih =>
      rw [List.map_cons, List.nodup_cons, List.forall_mem_cons]
      cases hnew : s.declares (splitSign p.1).1 with
      | true =>
          refine iff_of_false ?_ fun h => absurd h.2.1 (by decide)
          rintro ⟨s', h⟩
          obtain ⟨next, hnext, -⟩ := Except.bind_eq_ok h
          exact absurd ((declare_eq_ok hnext).1.symm.trans hnew) (by decide)
      | false =>
          have hdeclare : s.declare p.1 p.2 = .ok { s with declarations := s.declarations ++
              [⟨(splitSign p.1).1, p.2, s.declarations.length, (splitSign p.1).2⟩] } := by
            unfold declare
            dsimp only
            rw [if_neg (ne_true_of_eq_false hnew)]
          have hrest : ∀ next, s.declare p.1 p.2 = .ok next →
              s.declareAll (p :: rest) = next.declareAll rest := by
            intro next h
            rw [declareAll, h]
            rfl
          rw [hrest _ hdeclare, ih]
          simp only [declares_concat, Bool.or_eq_false_iff, decide_eq_false_iff_not, List.mem_map,
            true_and]
          constructor
          · rintro ⟨hnodup, hfresh⟩
            refine ⟨⟨?_, hnodup⟩, fun q hq => (hfresh q hq).1⟩
            rintro ⟨q, hq, hsame⟩
            exact (hfresh q hq).2 hsame.symm
          · rintro ⟨⟨hother, hnodup⟩, hfresh⟩
            exact ⟨hnodup, fun q hq => ⟨hfresh q hq, fun hsame => hother ⟨q, hq, hsame.symm⟩⟩⟩

/-- The names of a block are declared in its order. -/
theorem names_declareAll {block : List (String × String)} (h : s.declareAll block = .ok s') :
    s'.names = s.names ++ block.map fun p => (splitSign p.1).1 := by
  induction block generalizing s with
  | nil =>
      cases h
      exact (List.append_nil _).symm
  | cons p rest ih =>
      obtain ⟨next, hnext, hrest⟩ := Except.bind_eq_ok h
      rw [ih hrest, (declare_eq_ok hnext).2, names, names, List.map_append, List.append_assoc]
      rfl

end SharedLevel

namespace SharedStore

variable {s s' : SharedStore}

/-- Entering a scope keeps those declarations whose names are not taken. -/
theorem unclaimed_eq_ok {owner : String} {block kept : List (String × String)}
    (h : s.unclaimed owner block = .ok kept) :
    ∀ p ∈ kept, p ∈ block ∧ s.declares (splitSign p.1).1 = false := by
  induction block generalizing kept with
  | nil =>
      cases h
      exact fun p hp => absurd hp List.not_mem_nil
  | cons p rest ih =>
      rw [unclaimed] at h
      split at h
      · cases h
      · obtain ⟨more, hmore, hlast⟩ := Except.bind_eq_ok h
        cases hlast
        have hrest : ∀ q ∈ more, q ∈ p :: rest ∧ s.declares (splitSign q.1).1 = false :=
          fun q hq => ⟨List.mem_cons_of_mem _ (ih hmore q hq).1, (ih hmore q hq).2⟩
        split
        · exact hrest
        · rename_i hnew
          exact List.forall_mem_cons.2 ⟨⟨List.mem_cons_self, Bool.eq_false_iff.2 hnew⟩, hrest⟩

/-- Entering a scope puts it in front of the others. -/
theorem enter_eq_some {owner collectionId : String} {block : Assoc String} {level : SharedLevel}
    (h : s.enter owner block collectionId = .ok (some (level, s'))) :
    s' = { s with scopes := level :: s.scopes } ∧
      ∃ kept, (∀ p ∈ kept, p ∈ block ∧ s.declares (splitSign p.1).1 = false) ∧
        SharedLevel.declareAll { owner, collectionId } kept = .ok level := by
  unfold enter at h
  split at h
  · cases h
  · obtain ⟨kept, hkept, h⟩ := Except.bind_eq_ok h
    obtain ⟨scope, hscope, h⟩ := Except.bind_eq_ok h
    cases h
    exact ⟨rfl, kept, unclaimed_eq_ok hkept, hscope⟩

/-- The document's scope is put behind all others. -/
theorem pushDocument_eq_ok {collectionId : String} {block extra : Assoc String}
    {level : SharedLevel} (h : s.pushDocument block extra collectionId = .ok (level, s')) :
    s' = { s with scopes := s.scopes ++ [level] } ∧
      SharedLevel.declareAll { owner := "document", collectionId } (block ++ extra) =
        .ok level := by
  obtain ⟨scope, hscope, h⟩ := Except.bind_eq_ok h
  split at h
  · cases h
  · cases h
    exact ⟨rfl, hscope⟩

/-- Assigning a variable changes the outermost scope, and declares the variable there if need be. -/
theorem assign_eq_ok {name : String} {c : Content} (inner : List SharedLevel) {level : SharedLevel}
    (hscopes : s.scopes = inner ++ [level]) (h : s.assign name c = .ok s') :
    ∃ level', (level' = level ∨ level.declare name "" = .ok level') ∧
      s' = { s with scopes :=
        inner ++ [{ level' with values := level'.values.put name c }] } := by
  obtain ⟨scope, hscope, h⟩ := Except.bind_eq_ok h
  cases h
  have hdocument : s.outermost.getD { owner := "document" } = level := by
    rw [outermost, hscopes, List.getLast?_concat, Option.getD_some]
  rw [hdocument] at hscope
  rw [hscopes, List.dropLast_concat]
  unfold assignIn at hscope
  split at hscope
  · cases hscope
    exact ⟨level, .inl rfl, rfl⟩
  · obtain ⟨level', hdeclare, h⟩ := Except.bind_eq_ok hscope
    cases h
    exact ⟨level', .inr hdeclare, rfl⟩

end SharedStore

/-! ## Variables that are left -/

namespace SharedLevel

/-- How many variables of a scope may be read. -/
def remaining (s : SharedLevel) : Nat :=
  match s.active with
  | [] => s.declarations.length
  | reader :: _ => reader.position

/-- The declarations have distinct names, which pass a test, and are numbered in order. Only
declared variables are under evaluation. -/
structure Ordered (P : String → Prop) (s : SharedLevel) : Prop where
  position : ∀ i (d : Declaration), s.declarations[i]? = some d → d.position = i
  active : ∀ d ∈ s.active, d ∈ s.declarations
  distinct : s.names.Nodup
  passes : ∀ name ∈ s.names, P name

variable {s s' : SharedLevel} {P Q : String → Prop}

theorem declares_iff {name : String} : s.declares name = true ↔ name ∈ s.names := by
  simp only [declares, declaration?, names, List.find?_isSome, decide_eq_true_eq, List.mem_map]

namespace Ordered

theorem mono (h : s.Ordered P) (hPQ : ∀ name, P name → Q name) : s.Ordered Q :=
  { h with passes := fun name hname => hPQ name (h.passes name hname) }

theorem position_lt (h : s.Ordered P) {d : Declaration} (hd : d ∈ s.declarations) :
    d.position < s.declarations.length := by
  obtain ⟨i, hi⟩ := List.mem_iff_getElem?.1 hd
  rw [h.position i d hi]
  exact (List.getElem?_eq_some_iff.1 hi).1

/-- The position tells a declaration. -/
theorem eq_of_position (h : s.Ordered P) {d e : Declaration} (hd : d ∈ s.declarations)
    (he : e ∈ s.declarations) (hposition : d.position = e.position) : d = e := by
  obtain ⟨i, hi⟩ := List.mem_iff_getElem?.1 hd
  obtain ⟨j, hj⟩ := List.mem_iff_getElem?.1 he
  rw [h.position i d hi, h.position j e hj] at hposition
  rw [hposition, hj] at hi
  exact (Option.some.inj hi).symm

theorem remaining_le (h : s.Ordered P) : s.remaining ≤ s.declarations.length := by
  unfold remaining
  split
  · exact Nat.le_refl _
  · rename_i reader rest hactive
    exact Nat.le_of_lt (h.position_lt (h.active reader (hactive ▸ List.mem_cons_self)))

/-- A variable that may be read comes before the one that reads it. -/
theorem position_lt_remaining (h : s.Ordered P) {d : Declaration} (hd : d ∈ s.declarations)
    (hlegal : s.illegal? d = none) : d.position < s.remaining := by
  cases hactive : s.active with
  | nil =>
      simp only [remaining, hactive]
      exact h.position_lt hd
  | cons reader rest =>
      simp only [illegal?, hactive] at hlegal
      simp only [remaining, hactive]
      have hreader : reader ∈ s.declarations := h.active reader (hactive ▸ List.mem_cons_self)
      split at hlegal
      · cases hlegal
      · rename_i hname
        split at hlegal
        · cases hlegal
        · rename_i hforward
          refine Nat.lt_of_le_of_ne (Nat.not_lt.1 hforward) fun hposition => hname ?_
          rw [h.eq_of_position hreader hd hposition.symm]

/-- Values do not count. -/
theorem of_blank (h : s.blank.Ordered P) : s.Ordered P :=
  ⟨h.position, h.active, h.distinct, h.passes⟩

theorem blank (h : s.Ordered P) : s.blank.Ordered P := ⟨h.position, h.active, h.distinct, h.passes⟩

/-! ## Declaring -/

theorem fresh (owner collectionId : String) :
    Ordered P { owner, collectionId } where
  position _ _ h := nomatch h
  active _ h := absurd h List.not_mem_nil
  distinct := List.nodup_nil
  passes _ h := absurd h List.not_mem_nil

theorem declare (h : s.Ordered P) {key pattern : String} (hkey : P (splitSign key).1)
    (hs' : s.declare key pattern = .ok s') : s'.Ordered P := by
  obtain ⟨hnew, rfl⟩ := declare_eq_ok hs'
  have hfresh : (splitSign key).1 ∉ s.names := fun hmem =>
    absurd (declares_iff.2 hmem) (Bool.eq_false_iff.1 hnew)
  have hnames : ∀ d : Declaration, names { s with declarations := s.declarations ++ [d] } =
      s.names ++ [d.name] := fun d => List.map_append
  refine ⟨fun i d hi => ?_, fun d hd => List.mem_append_left _ (h.active d hd), ?_, ?_⟩
  · rw [List.getElem?_append] at hi
    split at hi
    · exact h.position i d hi
    · rename_i hlength
      obtain ⟨hzero, rfl⟩ := List.getElem?_eq_some_iff.1 hi
      simp only [List.length_singleton] at hzero
      simp only [List.getElem_singleton]
      omega
  · rw [hnames]
    refine List.nodup_append.2 ⟨h.distinct, List.pairwise_singleton _ _, ?_⟩
    intro name hname other hother heq
    have hname' : name = (splitSign key).1 := heq.trans (List.mem_singleton.1 hother)
    exact hfresh (hname' ▸ hname)
  · rw [hnames]
    exact List.forall_mem_append.2 ⟨h.passes, List.forall_mem_singleton.2 hkey⟩

theorem declareAll (h : s.Ordered P) {block : List (String × String)}
    (hblock : ∀ p ∈ block, P (splitSign p.1).1) (hs' : s.declareAll block = .ok s') :
    s'.Ordered P :=
  declareAll_induction (fun _ _ p hp ht hstep => ht.declare (hblock p hp) hstep) hs' h

end Ordered

end SharedLevel

namespace SharedStore

/-- How many variables may be read in the scopes that are visible. -/
def remaining (s : SharedStore) : Nat := (s.scopes.map SharedLevel.remaining).sum

/-- The visible names. -/
def names (s : SharedStore) : List String := s.scopes.flatMap SharedLevel.names

/-- The visible names are distinct and pass a test, and each scope numbers its own. -/
structure Ordered (P : String → Prop) (s : SharedStore) : Prop where
  levels : ∀ level ∈ s.scopes, level.Ordered P
  distinct : s.names.Nodup

variable {s s' : SharedStore} {P : String → Prop}

theorem declares_iff {name : String} : s.declares name = true ↔ name ∈ s.names := by
  simp only [declares, names, List.any_eq_true, List.mem_flatMap, SharedLevel.declares_iff]

theorem names_blank : s.blank.names = s.names := by
  simp only [names, blank, List.flatMap_map]
  rfl

namespace Ordered

theorem of_blank (h : s.blank.Ordered P) : s.Ordered P := by
  refine ⟨fun level hlevel => ?_, names_blank (s := s) ▸ h.distinct⟩
  exact (h.levels level.blank (List.mem_map_of_mem hlevel)).of_blank

theorem blank (h : s.Ordered P) : s.blank.Ordered P := by
  refine ⟨fun level hlevel => ?_, ?_⟩
  · obtain ⟨level, hmem, rfl⟩ := List.mem_map.1 hlevel
    exact (h.levels level hmem).blank
  · rw [names_blank]
    exact h.distinct

theorem remaining_le {known : List String} (h : s.Ordered (· ∈ known)) :
    s.remaining ≤ known.length := by
  have hscopes : ∀ scopes : List SharedLevel, (∀ level ∈ scopes, level.Ordered (· ∈ known)) →
      (scopes.map SharedLevel.remaining).sum ≤ (scopes.flatMap SharedLevel.names).length := by
    intro scopes
    induction scopes with
    | nil => exact fun _ => Nat.le_refl _
    | cons level outer ih =>
        intro hlevels
        rw [List.forall_mem_cons] at hlevels
        have hlevel := hlevels.1.remaining_le
        have houter := ih hlevels.2
        simp only [List.map_cons, List.sum_cons, List.flatMap_cons, List.length_append,
          SharedLevel.names, List.length_map] at houter ⊢
        omega
  have hknown : ∀ name ∈ s.names, name ∈ known := by
    intro name hname
    obtain ⟨level, hlevel, hmem⟩ := List.mem_flatMap.1 hname
    exact (h.levels level hlevel).passes name hmem
  exact Nat.le_trans (hscopes s.scopes h.levels) (h.distinct.subperm hknown).length_le

/-- The variables left inside a pending one are fewer, and still in order. -/
theorem pending (h : s.Ordered P) {name : String} {p : Pending} (hp : s.find name = .pending p) :
    p.store.Ordered P ∧ p.store.remaining < s.remaining := by
  obtain ⟨outer, hscopes, hfound⟩ := find_pending hp
  have hdeclared : p.declaration ∈ p.scope.declarations :=
    List.mem_of_find?_eq_some hfound.declared
  have hlevels := h.levels
  rw [hscopes, List.forall_mem_append, List.forall_mem_cons] at hlevels
  obtain ⟨-, hscope, houter⟩ := hlevels
  have hnames : s.names = p.hidden.flatMap SharedLevel.names ++ p.store.names := by
    rw [hfound.store]
    simp only [names, hscopes, List.flatMap_append, List.flatMap_cons]
    rfl
  refine ⟨⟨?_, ?_⟩, ?_⟩
  · rw [hfound.store]
    refine List.forall_mem_cons.2 ⟨{ hscope with active := ?_ }, houter⟩
    exact List.forall_mem_cons.2 ⟨hdeclared, hscope.active⟩
  · have hdistinct := h.distinct
    rw [hnames] at hdistinct
    exact (List.nodup_append.1 hdistinct).2.1
  · have hbefore := hscope.position_lt_remaining hdeclared hfound.legal
    rw [hfound.store]
    simp only [remaining, hscopes, List.map_append, List.map_cons, List.sum_append, List.sum_cons]
    change p.declaration.position + _ < _
    omega

/-! ## Opening scopes -/

theorem empty (hscopes : s.scopes = []) : s.Ordered P := by
  refine ⟨?_, ?_⟩
  · rw [hscopes]
    exact fun level hlevel => absurd hlevel List.not_mem_nil
  · rw [names, hscopes]
    exact List.nodup_nil

/-- A new scope in front keeps the order. -/
theorem cons (h : s.Ordered P) {level : SharedLevel}
    (hlevel : level.Ordered fun name => P name ∧ name ∉ s.names) :
    Ordered P { s with scopes := level :: s.scopes } := by
  refine ⟨List.forall_mem_cons.2 ⟨hlevel.mono fun _ h => h.1, h.levels⟩, ?_⟩
  refine List.nodup_append.2 ⟨hlevel.distinct, h.distinct, fun name hname other hother heq => ?_⟩
  exact (hlevel.passes name hname).2 (heq ▸ hother)

theorem enter (h : s.Ordered P) {owner collectionId : String} {block : Assoc String}
    {level : SharedLevel} (hblock : ∀ p ∈ block, P (splitSign p.1).1)
    (henter : s.enter owner block collectionId = .ok (some (level, s'))) : s'.Ordered P := by
  obtain ⟨rfl, kept, hkept, hdeclare⟩ := enter_eq_some henter
  refine h.cons ((SharedLevel.Ordered.fresh owner collectionId).declareAll (fun p hp => ?_) hdeclare)
  obtain ⟨hmem, hnew⟩ := hkept p hp
  exact ⟨hblock p hmem, fun hs => Bool.eq_false_iff.1 hnew (declares_iff.2 hs)⟩

/-- A scope around which there is no other. -/
theorem singleton {level : SharedLevel} (hlevel : level.Ordered P) (statics : List String) :
    Ordered P ⟨statics, [level]⟩ :=
  (Ordered.empty (s := ⟨statics, []⟩) rfl).cons
    (hlevel.mono fun _ hname => ⟨hname, List.not_mem_nil⟩)

theorem pushDocument (hscopes : s.scopes = []) {collectionId : String} {block extra : Assoc String}
    {level : SharedLevel} (hblock : ∀ p ∈ block ++ extra, P (splitSign p.1).1)
    (hpush : s.pushDocument block extra collectionId = .ok (level, s')) : s'.Ordered P := by
  obtain ⟨rfl, hdeclare⟩ := pushDocument_eq_ok hpush
  rw [hscopes]
  exact .singleton ((SharedLevel.Ordered.fresh _ _).declareAll hblock hdeclare) _

theorem assign (h : s.Ordered P) {level : SharedLevel} (hscopes : s.scopes = [level])
    {name : String} {value : Content} (hname : P (splitSign name).1)
    (hassign : s.assign name value = .ok s') : s'.Ordered P := by
  obtain ⟨level', hlevel', rfl⟩ := assign_eq_ok [] hscopes hassign
  have hlevel : level.Ordered P := h.levels level (hscopes ▸ List.mem_singleton_self _)
  have hafter : level'.Ordered P := by
    rcases hlevel' with rfl | hdeclare
    · exact hlevel
    · exact hlevel.declare hname hdeclare
  have hvalue : SharedLevel.Ordered P { level' with values := level'.values.put name value } :=
    ⟨hafter.position, hafter.active, hafter.distinct, hafter.passes⟩
  exact .singleton hvalue _

end Ordered

end SharedStore

end RandomTables
