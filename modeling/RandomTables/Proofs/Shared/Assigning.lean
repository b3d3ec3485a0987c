-- SUMMARY: Assigned variables are read back, and which targets the assignment is lost under.
import RandomTables.Proofs.Shared.Frozen

/-!
# Assigning variables

A conditional assigns a variable of the document, which is declared first if it is not yet. The
declaration goes by the name without the sign, while the value is kept under the target as it is
written. So what was assigned is read back under every target without the sign, however often it is
assigned and whatever is evaluated in between. Under a target with the sign it is lost: its name is
declared and has no value, and the next assignment declares the name once more and fails.
-/
namespace RandomTables

namespace SharedLevel

/-- A scope after assigning a target. -/
def assigned (s : SharedLevel) (target : String) (value : Content) : SharedLevel :=
  { s with
    declarations :=
      if s.declares target then s.declarations
      else s.declarations ++
        [⟨(splitSign target).1, "", s.declarations.length, (splitSign target).2⟩]
    values := s.values.put target value }

variable {s : SharedLevel} {target name : String}

theorem assignIn_of_declares (h : s.declares target = true) (value : Content) :
    SharedStore.assignIn s target value = .ok (s.assigned target value) := by
  simp only [SharedStore.assignIn, assigned, if_pos h]
  rfl

theorem assignIn_of_new (h : s.declares target = false)
    (hname : s.declares (splitSign target).1 = false) (value : Content) :
    SharedStore.assignIn s target value = .ok (s.assigned target value) := by
  simp only [SharedStore.assignIn, assigned, declare, h, hname]
  rfl

theorem assignIn_of_taken (h : s.declares target = false)
    (hname : s.declares (splitSign target).1 = true) (value : Content) :
    SharedStore.assignIn s target value =
      .error (.declaredTwice (splitSign target).1 s.owner) := by
  simp only [SharedStore.assignIn, declare, h, hname]
  rfl

/-- A target that is declared as it is written, or has no sign. -/
def Plain (s : SharedLevel) (target : String) : Prop :=
  (splitSign target).1 = target ∨ s.declares target = true

theorem Plain.name_of_new (h : s.Plain target) (hnew : s.declares target = false) :
    (splitSign target).1 = target :=
  h.resolve_right (Bool.eq_false_iff.1 hnew)

theorem assignIn_of_plain (h : s.Plain target) (value : Content) :
    SharedStore.assignIn s target value = .ok (s.assigned target value) := by
  cases hdeclared : s.declares target with
  | true => exact assignIn_of_declares hdeclared value
  | false =>
      have hname := congrArg s.declares (h.name_of_new hdeclared)
      exact assignIn_of_new hdeclared (hname.trans hdeclared) value

theorem declaration?_concat (s : SharedLevel) (d : Declaration) (values : Assoc Content) :
    declaration? { s with declarations := s.declarations ++ [d], values } name =
      (s.declaration? name).or (if d.name = name then some d else none) := by
  simp only [declaration?, List.find?_append, List.find?_singleton, decide_eq_true_eq]

/-- The name of a target is declared once the target is assigned. -/
theorem declares_assigned (s : SharedLevel) (target : String) (value : Content) :
    (s.assigned target value).declares name =
      (s.declares name || (!s.declares target && decide ((splitSign target).1 = name))) := by
  unfold assigned
  cases hdeclared : s.declares target with
  | true => simp only [if_pos, declares, declaration?, Bool.not_true, Bool.false_and, Bool.or_false]
  | false =>
      simp only [Bool.false_eq_true, if_false, declares, declaration?_concat, Option.isSome_or,
        Bool.not_false, Bool.true_and]
      split <;> simp_all

theorem Plain.assigned (h : s.Plain name) (target : String) (value : Content) :
    (s.assigned target value).Plain name := by
  refine h.imp_right fun h => ?_
  rw [declares_assigned, h, Bool.true_or]

/-- A plain target is declared once it is assigned. -/
theorem Plain.declares_assigned (h : s.Plain target) (value : Content) :
    (s.assigned target value).declares target = true := by
  rw [SharedLevel.declares_assigned]
  cases hdeclared : s.declares target with
  | true => rfl
  | false =>
      simp only [h.name_of_new hdeclared, decide_true, Bool.not_false, Bool.and_self, Bool.or_true]

/-- Other variables are declared as before. -/
theorem Plain.declaration?_assigned (h : s.Plain target) (value : Content)
    (hother : name ≠ target) :
    (s.assigned target value).declaration? name = s.declaration? name := by
  unfold SharedLevel.assigned
  cases hdeclared : s.declares target with
  | true => rfl
  | false =>
      simp only [Bool.false_eq_true, if_false, declaration?_concat, h.name_of_new hdeclared,
        if_neg (Ne.symm hother), Option.or_none]

/-! ## Sequences of assignments -/

/-- A scope after assigning targets in order. -/
def assignedAll (s : SharedLevel) (assignments : Assoc Content) : SharedLevel :=
  assignments.foldl (fun s (target, value) => s.assigned target value) s

section

variable {assignments : Assoc Content}

theorem values_assignedAll (s : SharedLevel) (assignments : Assoc Content) :
    (s.assignedAll assignments).values = s.values.putAll assignments := by
  unfold assignedAll Assoc.putAll
  induction assignments generalizing s with
  | nil => rfl
  | cons p rest ih => exact ih (s.assigned p.1 p.2)

theorem get?_assignedAll_of_not_mem (s : SharedLevel) (hname : name ∉ assignments.keys) :
    (s.assignedAll assignments).values.get? name = s.values.get? name := by
  have hnone : Assoc.get? assignments.reverse name = none := by
    refine Assoc.get?_eq_none_of_not_mem ?_
    rw [Assoc.keys, List.map_reverse, List.mem_reverse]
    exact hname
  rw [values_assignedAll, Assoc.get?_putAll, hnone, Option.none_or]

theorem active_assignedAll (s : SharedLevel) (assignments : Assoc Content) :
    (s.assignedAll assignments).active = s.active := by
  unfold assignedAll
  induction assignments generalizing s with
  | nil => rfl
  | cons p rest ih => exact ih (s.assigned p.1 p.2)

theorem declares_assignedAll_of_declares (h : s.declares name = true)
    (assignments : Assoc Content) :
    (s.assignedAll assignments).declares name = true := by
  unfold assignedAll
  induction assignments generalizing s with
  | nil => exact h
  | cons p rest ih =>
      refine ih (s := s.assigned p.1 p.2) ?_
      rw [declares_assigned, h, Bool.true_or]

/-- Every target of the sequence is declared after it. -/
theorem declares_assignedAll (h : ∀ p ∈ assignments, s.Plain p.1) :
    ∀ name ∈ assignments.keys, (s.assignedAll assignments).declares name = true := by
  induction assignments generalizing s with
  | nil => exact fun name hname => absurd hname List.not_mem_nil
  | cons p rest ih =>
      rw [List.forall_mem_cons] at h
      rw [Assoc.keys_cons, List.forall_mem_cons]
      refine ⟨declares_assignedAll_of_declares (h.1.declares_assigned p.2) rest, ?_⟩
      exact ih (s := s.assigned p.1 p.2) fun q hq => (h.2 q hq).assigned p.1 p.2

/-- A variable that is not among the targets is declared as before. -/
theorem declaration?_assignedAll (h : ∀ p ∈ assignments, s.Plain p.1)
    (hname : name ∉ assignments.keys) :
    (s.assignedAll assignments).declaration? name = s.declaration? name := by
  induction assignments generalizing s with
  | nil => rfl
  | cons p rest ih =>
      rw [List.forall_mem_cons] at h
      rw [Assoc.keys_cons, List.mem_cons, not_or] at hname
      have hrest : ∀ q ∈ rest, (s.assigned p.1 p.2).Plain q.1 :=
        fun q hq => (h.2 q hq).assigned p.1 p.2
      exact (ih hrest hname.2).trans (h.1.declaration?_assigned p.2 hname.1)

end

end SharedLevel

namespace SharedStore

/-- The scope of the document, to which assignments go. -/
def document (s : SharedStore) : SharedLevel := s.outermost.getD { owner := "document" }

/-- The store with another scope of the document. -/
def withDocument (s : SharedStore) (document : SharedLevel) : SharedStore :=
  { s with scopes := s.scopes.dropLast ++ [document] }

/-- Assigns targets in order. -/
def assignAll (s : SharedStore) : Assoc Content → Except DeclarationFailure SharedStore
  | [] => .ok s
  | (target, value) :: rest => do (← s.assign target value).assignAll rest

variable {s : SharedStore}

theorem document_withDocument (s : SharedStore) (document : SharedLevel) :
    (s.withDocument document).document = document := by
  rw [SharedStore.document, outermost, withDocument, List.getLast?_concat, Option.getD_some]

theorem withDocument_withDocument (s : SharedStore) (first second : SharedLevel) :
    (s.withDocument first).withDocument second = s.withDocument second := by
  simp only [withDocument, List.dropLast_concat]

theorem assign_eq (s : SharedStore) (target : String) (value : Content) :
    s.assign target value = (assignIn s.document target value).map s.withDocument := by
  unfold assign
  change (assignIn s.document target value >>= fun scope => pure (s.withDocument scope)) = _
  cases assignIn s.document target value <;> rfl

/-- Assigning fails exactly if the name of a target is declared and the target itself is not. -/
theorem assign_eq_ite (s : SharedStore) (target : String) (value : Content) :
    s.assign target value =
      if s.document.declares target || !s.document.declares (splitSign target).1 then
        .ok (s.withDocument (s.document.assigned target value))
      else .error (.declaredTwice (splitSign target).1 s.document.owner) := by
  rw [assign_eq]
  cases hdeclared : s.document.declares target with
  | true =>
      rw [SharedLevel.assignIn_of_declares hdeclared]
      rfl
  | false =>
      cases hname : s.document.declares (splitSign target).1 with
      | true =>
          rw [SharedLevel.assignIn_of_taken hdeclared hname]
          rfl
      | false =>
          rw [SharedLevel.assignIn_of_new hdeclared hname]
          rfl

theorem assign_of_plain {target : String} (h : s.document.Plain target) (value : Content) :
    s.assign target value = .ok (s.withDocument (s.document.assigned target value)) := by
  rw [assign_eq, SharedLevel.assignIn_of_plain h]
  rfl

/-- A sequence of plain targets is assigned without failing. -/
theorem assignAll_of_plain {assignments : Assoc Content} (hne : assignments ≠ [])
    (h : ∀ p ∈ assignments, s.document.Plain p.1) :
    s.assignAll assignments = .ok (s.withDocument (s.document.assignedAll assignments)) := by
  induction assignments generalizing s with
  | nil => exact absurd rfl hne
  | cons p rest ih =>
      rw [List.forall_mem_cons] at h
      rw [assignAll, assign_of_plain h.1]
      cases rest with
      | nil => rfl
      | cons q more =>
          change assignAll _ (q :: more) = _
          rw [ih (List.cons_ne_nil _ _), withDocument_withDocument, document_withDocument]
          · rfl
          · rw [document_withDocument]
            exact fun q hq => (h.2 q hq).assigned p.1 p.2

/-- The document's scope is reached by the names that no scope inside declares. -/
theorem reaches_document {name : String} (hscopes : s.scopes ≠ [])
    (hinner : ∀ scope ∈ s.scopes.dropLast, scope.declaration? name = none)
    (hdeclares : s.document.declares name = true) : ∃ d, s.Reaches name s.document d [] := by
  obtain ⟨d, hd⟩ := Option.isSome_iff_exists.1 hdeclares
  refine ⟨d, s.scopes.dropLast, ?_, hinner, hd⟩
  rw [document, outermost, List.getLast?_eq_some_getLast hscopes, Option.getD_some,
    List.dropLast_concat_getLast]

/-- Another scope of the document with the same value of a variable leaves the variable known. -/
theorem find_withDocument_of_known {name : String} {value : Content} {document : SharedLevel}
    (h : s.find name = .known value)
    (hdeclared : document.declaration? name = s.document.declaration? name)
    (hvalue : document.values.get? name = s.document.values.get? name)
    (hactive : document.active = s.document.active) :
    (s.withDocument document).find name = .known value := by
  obtain ⟨level, d, outer, hreaches, hknown⟩ := find_known h
  obtain ⟨_, hfind⟩ := hreaches.find_eq
  have hlegal : level.illegal? d = none := by
    rw [hfind] at h
    split at h
    · cases h
    · assumption
  obtain ⟨inner, hscopes, hinner, hd⟩ := hreaches
  have hafter : ∃ level' outer', (s.withDocument document).Reaches name level' d outer' ∧
      level'.illegal? d = none ∧ level'.values.get? name = some value := by
    rcases List.eq_nil_or_concat' outer with rfl | ⟨around, last, rfl⟩
    · have hdocument : s.document = level := by
        rw [SharedStore.document, outermost, hscopes, List.getLast?_concat, Option.getD_some]
      rw [hdocument] at hdeclared hvalue hactive
      refine ⟨document, [], ⟨inner, ?_, hinner, hdeclared.trans hd⟩, ?_, hvalue.trans hknown⟩
      · rw [withDocument, hscopes, List.dropLast_concat]
      · unfold SharedLevel.illegal? at hlegal ⊢
        rw [hactive]
        exact hlegal
    · refine ⟨level, around ++ [document], ⟨inner, ?_, hinner, hd⟩, hlegal, hknown⟩
      rw [withDocument, hscopes, ← List.cons_append, ← List.append_assoc, List.dropLast_concat,
        List.append_assoc, List.cons_append]
  obtain ⟨level', outer', hreaches', hlegal', hknown'⟩ := hafter
  obtain ⟨_, hfind'⟩ := hreaches'.find_eq
  rw [hfind', hlegal', hknown']

/-- What evaluations do to the document's scope. -/
theorem Grown.document {assigns : String → Prop} {t : SharedStore} (h : s.Grown assigns t) :
    s.document.Grown assigns t.document := by
  have hscopes := List.rel_reverse h.scopes
  rw [SharedStore.document, SharedStore.document, outermost, outermost, ← List.head?_reverse,
    ← List.head?_reverse]
  generalize s.scopes.reverse = before at hscopes ⊢
  generalize t.scopes.reverse = after at hscopes ⊢
  cases hscopes with
  | nil => exact .refl _
  | cons hfirst hrest => exact hfirst

end SharedStore

namespace Eval

open SharedStore

/-- Reading a variable whose value is not known gives what it is evaluated to. -/
theorem readShared_of_pending {name : String} {p : Pending} {c : Context} (answer : Answer)
    (h : c.shared.find name = .pending p) :
    (readShared answer name c).1 =
      ((answer (.shared p.scope.owner p.scope.collectionId p.declaration)
        { c with shared := p.store }).1).map some := by
  rw [readShared_apply, h]
  dsimp only
  rw [Computation.bind_apply]
  unfold bracket ExceptT.run
  rcases answer (.shared p.scope.owner p.scope.collectionId p.declaration)
    { c with shared := p.store } with ⟨_ | _, _⟩ <;> rfl

/-! ## A declaration without a pattern -/

section

variable (env : Surroundings) (fuel : Nat) (collectionId : String) (c : Context)

theorem renderPattern_empty (answer : Answer) :
    renderPattern env answer "" collectionId c = (⟨[], none⟩, c) := by
  have hpieces : Piece.ofPattern "".toList = [] := by cbv
  rw [renderPattern, hpieces]
  rfl

theorem evalKeeping_empty :
    evalKeeping env (answerWithin env (fuel + 1)) "" collectionId c = (.ok { value := "" }, c) := by
  have hnone : onlyDirective "" = .ok none := by
    have hspans : Span.find "".toList = [] := by cbv
    rw [onlyDirective, hspans]
  have htext : (answerWithin env (fuel + 1) (.pattern "" collectionId) : Eval String) c =
      (.ok "", c) := by
    change lift (renderPattern env (answerWithin env fuel) "" collectionId c).1.text
      (renderPattern env (answerWithin env fuel) "" collectionId c).2 = _
    rw [renderPattern_empty]
    rfl
  unfold evalKeeping onlyTable
  rw [hnone]
  change (answerWithin env (fuel + 1) (.pattern "" collectionId) >>=
    fun value => pure { value } : Eval Item) c = _
  rw [Computation.bind_apply, htext]
  rfl

/-- A variable that keeps items and has no pattern is an empty item. -/
theorem answer_shared_empty {d : Declaration} (hpattern : d.pattern = "") (hkeeps : d.keepsItem)
    (owner : String) :
    ((answerWithin env (fuel + 2) (.shared owner collectionId d) : Eval Content) c).1 =
      .ok (.item "" [] none) := by
  have hvalue : ∀ collectionId c,
      evalDeclaration env (answerWithin env (fuel + 1)) d collectionId c =
        (.ok (.item "" [] none), c) := by
    intro collectionId c
    rw [evalDeclaration, if_pos hkeeps, hpattern, Computation.bind_apply, evalKeeping_empty]
    rfl
  change (evalShared env (answerWithin env (fuel + 1)) owner collectionId d c).1 = _
  rw [evalShared, traced, Computation.get_bind_apply]
  unfold inside
  dsimp only
  rw [ExceptT.run, Computation.bind_apply, hvalue]
  rfl

end

/-! ## Reading what was assigned -/

/-- A variable of the document is read as a value, unless the order of declarations refuses it. -/
def ReadsAs (answer : Answer) (name : String) (value : Content) (c : Context) : Prop :=
  ∃ d, c.shared.Reaches name c.shared.document d [] ∧
    readShared answer name c = (c.shared.document.reading d value, c)

theorem readsAs {c : Context} {name : String} {value : Content} (answer : Answer)
    (hscopes : c.shared.scopes ≠ [])
    (hinner : ∀ scope ∈ c.shared.scopes.dropLast, scope.declaration? name = none)
    (hdeclares : c.shared.document.declares name = true)
    (hvalue : c.shared.document.values.get? name = some value) : ReadsAs answer name value c := by
  obtain ⟨d, hreaches⟩ := reaches_document hscopes hinner hdeclares
  exact ⟨d, hreaches, readShared_of_reaches answer hreaches hvalue⟩

theorem changeOf_setVariable {conditional : Conditional} {target : String}
    (haction : conditional.action = .setVariable) (htarget : conditional.target = some target)
    (hne : target ≠ "") (value text : String) (c : Context) :
    changeOf conditional value text c =
      match c.shared.assign target (.text value) with
      | .error e => (.error (.declaration e), c)
      | .ok shared => (.ok .keep, { c with shared }) := by
  have hsome : (!target.isEmpty) = true := by simp [hne]
  unfold changeOf
  rw [htarget]
  dsimp only [Option.getD_some]
  rw [haction]
  dsimp only
  rw [if_pos hsome]
  change (get >>= fun context : Context => _ : Eval Change) c = _
  rw [Computation.get_bind_apply]
  cases c.shared.assign target (.text value) <;> rfl

/-- The last value of a sequence of assignments is read. -/
theorem readsAs_of_assigned {c : Context} {assignments : Assoc Content} {name : String}
    {value : Content} (answer : Answer) (hplain : ∀ p ∈ assignments, c.shared.document.Plain p.1)
    (h : Assoc.get? assignments.reverse name = some value)
    (hinner : ∀ scope ∈ c.shared.scopes.dropLast, scope.declaration? name = none) :
    ReadsAs answer name value { c with
      shared := c.shared.withDocument (c.shared.document.assignedAll assignments) } := by
  have hmem : name ∈ assignments.keys := by
    rw [← Assoc.isSome_get?_iff]
    exact (Assoc.has_eq_reverse assignments name).trans (h ▸ rfl)
  refine readsAs answer (List.append_ne_nil_of_right_ne_nil _ (List.cons_ne_nil _ _)) ?_ ?_ ?_
  · dsimp only
    rw [withDocument, List.dropLast_concat]
    exact hinner
  · rw [document_withDocument]
    exact SharedLevel.declares_assignedAll hplain name hmem
  · rw [document_withDocument, SharedLevel.values_assignedAll, Assoc.get?_putAll, h, Option.some_or]

/-- What was assigned to a variable stays its value in all evaluations that do not assign it. -/
theorem readsAs_of_evaluation {env : Surroundings} {assigns : String → Prop} {α : Type}
    {x : Answer → Eval α} {c : Context} {target : String} {value : Content}
    (hx : Evaluation assigns x) (htarget : ¬ assigns target) (hc : c.shared.Sound)
    (hdeclares : c.shared.document.declares target = true)
    (hvalue : c.shared.document.values.get? target = some value) (fuel : Nat) (answer : Answer)
    (hinner : ∀ scope ∈ (x (answerWithin env fuel) c).2.shared.scopes.dropLast,
      scope.declaration? target = none) :
    ReadsAs answer target value (x (answerWithin env fuel) c).2 := by
  have hgrown : c.shared.Grown assigns (x (answerWithin env fuel) c).2.shared :=
    grown_of_evaluation hc hx fuel
  obtain ⟨d, hd⟩ := Option.isSome_iff_exists.1 hdeclares
  have hdocument := hgrown.document
  refine readsAs answer (hgrown.sound hc).scopes hinner ?_ ?_
  · rw [SharedLevel.declares, SharedLevel.declaration?_of_prefix hdocument.declarations hd]
    rfl
  · exact hdocument.values target value htarget hvalue

/-- The name under a sign is another one than the target. -/
theorem ne_of_splitSign {target name : String} (h : splitSign target = (name, true)) :
    name ≠ target := by
  unfold splitSign at h
  split at h
  · rename_i rest htarget
    cases h
    intro hsame
    have hlist := congrArg String.toList hsame
    rw [htarget, String.toList_ofList] at hlist
    have hlength := congrArg List.length hlist
    rw [List.length_cons] at hlength
    omega
  · cases h

/-- After a target with the sign, its name is declared without a pattern and without a value. -/
theorem readShared_of_sign {c : Context} {target name : String} (env : Surroundings) (fuel : Nat)
    (hsplit : splitSign target = (name, true)) (hidle : c.shared.document.active = [])
    (hinner : ∀ scope ∈ c.shared.scopes.dropLast, scope.declaration? name = none)
    (hname : c.shared.document.declares name = false)
    (hunknown : c.shared.document.values.get? name = none)
    (htarget : c.shared.document.declares target = false) (value : Content) :
    (readShared (answerWithin env (fuel + 2)) name
      { c with shared := c.shared.withDocument (c.shared.document.assigned target value) }).1 =
      .ok (some (.item "" [] none)) := by
  let d : Declaration := ⟨name, "", c.shared.document.declarations.length, true⟩
  let level := c.shared.document.assigned target value
  have hlevel : level.declaration? name = some d := by
    change (c.shared.document.assigned target value).declaration? name = _
    unfold SharedLevel.assigned
    rw [htarget, hsplit]
    have hnone : c.shared.document.declaration? name = none :=
      Option.isNone_iff_eq_none.1 (Option.isSome_eq_false_iff.1 hname)
    simp only [Bool.false_eq_true, if_false, SharedLevel.declaration?_concat, hnone,
      Option.none_or, if_true]
    rfl
  have hreaches : (c.shared.withDocument level).Reaches name level d [] :=
    ⟨c.shared.scopes.dropLast, rfl, hinner, hlevel⟩
  have hvalue : level.values.get? name = none :=
    (Assoc.get?_put _ _ _ _).trans ((if_neg (ne_of_splitSign hsplit)).trans hunknown)
  have hlegal : level.illegal? d = none := by
    have hactive : level.active = [] := hidle
    rw [SharedLevel.illegal?, hactive]
  obtain ⟨_, hfind⟩ := hreaches.find_eq
  rw [hlegal, hvalue] at hfind
  rw [readShared_of_pending _ hfind, answer_shared_empty env fuel _ _ rfl rfl]
  rfl

/-- A variable of the document that is assigned is read back: assigning it never fails, and then it
is the last assigned value, whatever else is assigned or evaluated; other variables are as before.
That is so under targets without the sign. Under one with the sign the value is lost, and only the
first assignment does not fail. -/
theorem assignments_read_back (env : Surroundings) (fuel : Nat) :
    (∀ (conditional : Conditional) (target value text : String) (c : Context),
      conditional.action = .setVariable → conditional.target = some target → target ≠ "" →
      changeOf conditional value text c =
        match c.shared.assign target (.text value) with
        | .error e => (.error (.declaration e), c)
        | .ok shared => (.ok .keep, { c with shared })) ∧
    (∀ (s : SharedStore) (target : String) (value : Content),
      s.assign target value =
        if s.document.declares target || !s.document.declares (splitSign target).1 then
          .ok (s.withDocument (s.document.assigned target value))
        else .error (.declaredTwice (splitSign target).1 s.document.owner)) ∧
    (∀ (answer : Answer) (assignments : Assoc Content) (c : Context),
      (∀ p ∈ assignments, c.shared.document.Plain p.1) →
      ∃ shared, c.shared.assignAll assignments = .ok shared ∧
        (∀ name value, Assoc.get? assignments.reverse name = some value →
          (∀ scope ∈ c.shared.scopes.dropLast, scope.declaration? name = none) →
          ReadsAs answer name value { c with shared }) ∧
        ∀ name, name ∉ assignments.keys →
          shared.document.declaration? name = c.shared.document.declaration? name ∧
          shared.document.values.get? name = c.shared.document.values.get? name ∧
          ∀ value, c.shared.find name = .known value →
            readShared answer name { c with shared } = (.ok (some value), { c with shared })) ∧
    (∀ {α : Type} (x : Answer → Eval α) (assigns : String → Prop) (answer : Answer)
      (target : String) (value : Content) (c : Context), Evaluation assigns x → ¬ assigns target →
      c.shared.Sound → c.shared.document.Plain target →
      ∃ shared, c.shared.assign target value = .ok shared ∧
        let ended := (x (answerWithin env fuel) { c with shared }).2
        (∀ scope ∈ ended.shared.scopes.dropLast, scope.declaration? target = none) →
        ReadsAs answer target value ended) ∧
    (∀ (answer : Answer) (name : String) (value : Content) (c : Context),
      ReadsAs answer name value c → c.shared.document.active = [] →
      readShared answer name c = (.ok (some value), c)) ∧
    ∀ (target name : String) (value again : Content) (c : Context),
      splitSign target = (name, true) → c.shared.document.active = [] →
      (∀ scope ∈ c.shared.scopes.dropLast, scope.declaration? name = none) →
      c.shared.document.declares name = false → c.shared.document.values.get? name = none →
      c.shared.document.declares target = false →
      ∃ shared, c.shared.assign target value = .ok shared ∧
        (readShared (answerWithin env (fuel + 2)) name { c with shared }).1 =
          .ok (some (.item "" [] none)) ∧
        shared.assign target again = .error (.declaredTwice name shared.document.owner) := by
  refine ⟨fun conditional target value text c haction htarget hne =>
    changeOf_setVariable haction htarget hne value text c, assign_eq_ite,
    fun answer assignments c hplain => ?_,
    fun x assigns answer target value c hx htarget hc hplain => ?_,
    fun answer name value c hread hidle => ?_,
    fun target name value again c hsplit hidle hinner hname hunknown htarget => ?_⟩
  · cases assignments with
    | nil =>
        refine ⟨c.shared, rfl, fun name value h => ?_, fun name _ => ⟨rfl, rfl, fun value h => ?_⟩⟩
        · cases h
        · rw [readShared_apply, h]
    | cons p rest =>
        refine ⟨_, assignAll_of_plain (List.cons_ne_nil p rest) hplain,
          fun name value h hinner => readsAs_of_assigned answer hplain h hinner,
          fun name hname => ?_⟩
        have hdeclared := SharedLevel.declaration?_assignedAll hplain hname
        have hvalue := SharedLevel.get?_assignedAll_of_not_mem c.shared.document hname
        rw [document_withDocument]
        refine ⟨hdeclared, hvalue, fun value h => ?_⟩
        rw [readShared_apply, find_withDocument_of_known h hdeclared hvalue
          (SharedLevel.active_assignedAll _ _)]
  · refine ⟨_, assign_of_plain hplain value, fun hinner => ?_⟩
    have hgrown : c.shared.Grown (· = target) _ := .assign hc rfl (assign_of_plain hplain value)
    refine readsAs_of_evaluation hx htarget (hgrown.sound hc) ?_ ?_ fuel answer hinner
    · rw [document_withDocument]
      exact hplain.declares_assigned value
    · rw [document_withDocument]
      exact Assoc.get?_put_self _ _ _
  · obtain ⟨d, -, hresult⟩ := hread
    rw [hresult, SharedLevel.reading_of_idle hidle]
  · have hfirst : c.shared.assign target value =
        .ok (c.shared.withDocument (c.shared.document.assigned target value)) := by
      rw [assign_eq_ite, hsplit, htarget, hname]
      rfl
    refine ⟨_, hfirst,
      readShared_of_sign env fuel hsplit hidle hinner hname hunknown htarget value, ?_⟩
    have hagain : (c.shared.document.assigned target value).declares target = false := by
      rw [SharedLevel.declares_assigned, htarget, hsplit]
      simpa using ne_of_splitSign hsplit
    have htaken : (c.shared.document.assigned target value).declares name = true := by
      rw [SharedLevel.declares_assigned, htarget, hsplit]
      simp
    rw [assign_eq_ite, document_withDocument, hsplit, hagain, htaken]
    rfl

/-- A mood that is assigned twice is the second one, also after more was evaluated. -/
theorem assignments_read_back_of_moods :
    let env : Surroundings := {
      registry := ⟨[]⟩, base := {}, config := {}, collectionId := "c", statics := [] }
    let c : Context := { shared := ⟨[], [{ owner := "document", collectionId := "c" }]⟩ }
    let mood (text : String) : Conditional := {
      condition := "1", action := .setVariable, target := some "mood", value := text }
    let assignments : Assoc Content := [("mood", .text "calm"), ("mood", .text "wild")]
    let answer : Answer := fun {_} _ => throw .outOfFuel
    (∃ shared, changeOf (mood "calm") "calm" "only" c = (.ok .keep, { c with shared })) ∧
    (∃ shared, c.shared.assignAll assignments = .ok shared ∧
      readShared answer "mood" { c with shared } = (.ok (some (.text "wild")), { c with shared })) ∧
    (∃ shared, c.shared.assign "mood" (.text "calm") = .ok shared ∧
      let ended := (readShared (answerWithin env 9) "$mood" { c with shared }).2
      readShared answer "mood" ended = (.ok (some (.text "calm")), ended)) ∧
    ∃ shared, c.shared.assign "$mood" (.text "calm") = .ok shared ∧
      (readShared (answerWithin env 11) "mood" { c with shared }).1 =
        .ok (some (.item "" [] none)) := by
  intro env c mood assignments answer
  obtain ⟨hchange, -, hsequence, hlater, hidle, hsigned⟩ := assignments_read_back env 9
  have hinner : ∀ scope ∈ c.shared.scopes.dropLast, scope.declaration? "mood" = none :=
    List.forall_mem_nil _
  have hplain : c.shared.document.Plain "mood" := .inl (by decide)
  have hsound : c.shared.Sound := by
    refine ⟨List.cons_ne_nil _ _, List.forall_mem_singleton.2 ⟨.fresh _ _, List.Pairwise.nil⟩⟩
  refine ⟨?_, ?_, ?_, ?_⟩
  · rw [hchange (mood "calm") "mood" "calm" "only" c rfl rfl (by decide)]
    exact ⟨_, rfl⟩
  · obtain ⟨shared, hassigned, hread, -⟩ := hsequence answer assignments c
      (List.forall_mem_cons.2 ⟨hplain, List.forall_mem_singleton.2 hplain⟩)
    have hlast := hread "mood" (.text "wild") rfl hinner
    refine ⟨shared, hassigned, hidle _ _ _ _ hlast ?_⟩
    cases hassigned
    rfl
  · obtain ⟨shared, hassigned, hread⟩ := hlater (fun a => readShared a "$mood") (fun _ => False)
      answer "mood" (.text "calm") c (fun _ _ => .readShared "$mood") id hsound hplain
    cases hassigned
    exact ⟨_, rfl, hidle _ _ _ _ (hread (List.forall_mem_nil _)) rfl⟩
  · obtain ⟨shared, hassigned, hread, -⟩ := hsigned "$mood" "mood" (.text "calm") (.text "wild") c
      rfl rfl hinner rfl rfl rfl
    exact ⟨shared, hassigned, hread⟩

/-- A mood that one conditional assigns under the sign is missing in the text that the next one
appends, and cannot be assigned once more. -/
theorem mood_lost_under_sign :
    let env : Surroundings := {
      registry := ⟨[]⟩, base := {}, config := {}, collectionId := "c", statics := [] }
    let c : Context := { shared := ⟨[], [{ owner := "document", collectionId := "c" }]⟩ }
    let mood (text : String) : Conditional := {
      condition := "!$sad", action := .setVariable, target := some "$mood", value := text }
    let shown : Conditional := {
      condition := "!$sad", action := .append, value := " (\x7b\x7b$mood\x7d\x7d)" }
    let amended (conditionals : List Conditional) :=
      (amend env (answerWithin env 9) "c" conditionals { text := "only" }).run c
    (amended [mood "calm", shown]).1.1.text = "only ()" ∧
    (amended [mood "calm", mood "wild"]).1.2 =
      some (.declaration (.declaredTwice "mood" "document")) := by
  intro env c mood shown amended
  have hparse : Expr.parse "!$sad".toList = .ok (.unary .not (.variable "sad" 1) 0) := by cbv
  dsimp only [amended, StateT.run]
  simp only [amend, amendFrom, evalConditional, Expr.holdsIn, mood, shown, hparse]
  exact ⟨by decide +kernel, by decide +kernel⟩

end Eval

end RandomTables
