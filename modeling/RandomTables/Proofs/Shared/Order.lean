-- SUMMARY: The order of shared variables: who may read whom, kept by all opening and closing.
import RandomTables.Proofs.Evaluation.Tracking
import RandomTables.Proofs.Shared.Measure

/-!
# The order of shared variables

A variable under evaluation reads only variables that its scope declares before it. So the variables
of a scope that are under evaluation inside each other were declared one before the other, and a
reference that comes back to one of them, or to a later one, is refused.
-/
namespace RandomTables

namespace SharedLevel

/-- A scope whose variables under evaluation, the latest first, were declared in the order in which
they are listed. -/
structure InOrder (s : SharedLevel) : Prop where
  ordered : s.Ordered fun _ => True
  descending : s.active.Pairwise fun inner outer => inner.position < outer.position

/-- What reading a variable gives where its scope knows the value. -/
def reading (s : SharedLevel) (d : Declaration) (value : Content) :
    Except Failure (Option Content) :=
  match s.illegal? d with
  | some e => .error (.declaration e)
  | none => .ok (some value)

variable {s s' : SharedLevel}

/-- Where nothing is under evaluation every variable may be read. -/
theorem reading_of_idle (h : s.active = []) (d : Declaration) (value : Content) :
    s.reading d value = .ok (some value) := by
  simp only [reading, illegal?, h]

namespace InOrder

theorem of_blank (h : s'.blank = s.blank) (hs : s.InOrder) : s'.InOrder := by
  have hactive : s'.blank.active = s.blank.active := congrArg active h
  refine ⟨.of_blank (h ▸ hs.ordered.blank), ?_⟩
  change s'.blank.active.Pairwise _
  rw [hactive]
  exact hs.descending

/-- A variable that may be read comes before all those under evaluation. -/
theorem before_active (hs : s.InOrder) {d : Declaration} (hd : d ∈ s.declarations)
    (hlegal : s.illegal? d = none) : ∀ v ∈ s.active, d.position < v.position := by
  have hbefore := hs.ordered.position_lt_remaining hd hlegal
  have hdescending := hs.descending
  unfold remaining at hbefore
  split at hbefore
  · rename_i hnone
    rw [hnone]
    exact List.forall_mem_nil _
  · rename_i reader rest hactive
    rw [hactive] at hdescending ⊢
    refine List.forall_mem_cons.2 ⟨hbefore, fun v hv => ?_⟩
    exact Nat.lt_trans hbefore (List.rel_of_pairwise_cons hdescending hv)

/-- A variable cannot be read while it, or one declared before it, is under evaluation. -/
theorem illegal (hs : s.InOrder) {d v : Declaration} (hd : d ∈ s.declarations) (hv : v ∈ s.active)
    (hle : v.position ≤ d.position) : ∃ e, s.illegal? d = some e := by
  cases hlegal : s.illegal? d with
  | some e => exact ⟨e, rfl⟩
  | none => exact absurd (hs.before_active hd hlegal v hv) (Nat.not_lt.2 hle)

theorem «begin» (hs : s.InOrder) {d : Declaration} (hd : d ∈ s.declarations)
    (hlegal : s.illegal? d = none) : InOrder { s with active := d :: s.active } where
  ordered := { hs.ordered with active := List.forall_mem_cons.2 ⟨hd, hs.ordered.active⟩ }
  descending := List.pairwise_cons.2 ⟨hs.before_active hd hlegal, hs.descending⟩

end InOrder

/-- Nothing is under evaluation in a scope that was just declared. -/
theorem InOrder.declareAll {owner collectionId : String} {block : List (String × String)}
    (h : SharedLevel.declareAll { owner, collectionId } block = .ok s') : s'.InOrder := by
  have hactive : s'.active = [] := by
    refine declareAll_induction (P := fun t => t.active = []) (fun t t' p _ ht hdeclare => ?_) h rfl
    rw [(declare_eq_ok hdeclare).2]
    exact ht
  refine ⟨(Ordered.fresh owner collectionId).declareAll (fun _ _ => trivial) h, ?_⟩
  rw [hactive]
  exact List.Pairwise.nil

end SharedLevel

namespace SharedStore

/-- Reading a variable reaches a scope and its declaration there: no scope inside declares the
variable. -/
def Reaches (s : SharedStore) (name : String) (level : SharedLevel) (d : Declaration)
    (outer : List SharedLevel) : Prop :=
  ∃ inner, s.scopes = inner ++ level :: outer ∧
    (∀ scope ∈ inner, scope.declaration? name = none) ∧ level.declaration? name = some d

/-- The visible names are distinct, none of them is static, and every scope is in order. -/
structure InOrder (s : SharedStore) : Prop where
  ordered : s.Ordered (· ∉ s.statics)
  levels : ∀ level ∈ s.scopes, level.InOrder

variable {s s' : SharedStore}

/-- No name of a block that was entered is static. -/
theorem statics_of_unclaimed {owner : String} {block kept : List (String × String)}
    (h : s.unclaimed owner block = .ok kept) : ∀ p ∈ block, (splitSign p.1).1 ∉ s.statics := by
  induction block generalizing kept with
  | nil => exact List.forall_mem_nil _
  | cons p rest ih =>
      rw [unclaimed] at h
      split at h
      · cases h
      · rename_i hfree
        obtain ⟨more, hmore, -⟩ := Except.bind_eq_ok h
        refine List.forall_mem_cons.2 ⟨fun hstatic => ?_, ih hmore⟩
        have hcontains : s.statics.contains (splitSign p.1).1 = true :=
          List.contains_iff_mem.2 hstatic
        unfold shadows? at hfree
        rw [if_pos hcontains] at hfree
        split at hfree <;> cases hfree

theorem statics_of_enter {owner collectionId : String} {block : Assoc String} {level : SharedLevel}
    (h : s.enter owner block collectionId = .ok (some (level, s'))) :
    ∀ p ∈ block, (splitSign p.1).1 ∉ s.statics := by
  unfold enter at h
  split at h
  · cases h
  · obtain ⟨kept, hkept, -⟩ := Except.bind_eq_ok h
    exact statics_of_unclaimed hkept

theorem blank_leave (s : SharedStore) : s.leave.blank = s.blank.leave := by
  simp only [blank, leave, List.map_drop]

/-- Whatever is opened, scopes stay in order. -/
theorem Opens.levels {close : SharedStore → SharedStore} (h : s.Opens s' close)
    (hs : ∀ level ∈ s.scopes, level.InOrder) : ∀ level ∈ s'.scopes, level.InOrder := by
  cases h with
  | scope henter =>
      obtain ⟨rfl, kept, -, hdeclare⟩ := enter_eq_some henter
      exact List.forall_mem_cons.2 ⟨.declareAll hdeclare, hs⟩
  | «variable» hfind value =>
      obtain ⟨outer, hscopes, hfound⟩ := find_pending hfind
      rw [hscopes, List.forall_mem_append, List.forall_mem_cons] at hs
      obtain ⟨-, hscope, houter⟩ := hs
      rw [hfound.store]
      refine List.forall_mem_cons.2 ⟨?_, houter⟩
      exact hscope.begin (List.mem_of_find?_eq_some hfound.declared) hfound.legal

namespace InOrder

theorem of_blank (h : s'.blank = s.blank) (hs : s.InOrder) : s'.InOrder := by
  refine ⟨?_, fun level hlevel => ?_⟩
  · have hordered := hs.ordered.blank
    change s.blank.Ordered (· ∉ s.blank.statics) at hordered
    rw [← h] at hordered
    exact .of_blank hordered
  · have hmem : level.blank ∈ s'.blank.scopes := List.mem_map_of_mem hlevel
    rw [h] at hmem
    obtain ⟨level', hlevel', heq⟩ := List.mem_map.1 hmem
    exact (hs.levels level' hlevel').of_blank heq.symm

theorem opens (hs : s.InOrder) {close : SharedStore → SharedStore} (h : s.Opens s' close) :
    s'.InOrder := by
  refine ⟨?_, h.levels hs.levels⟩
  cases h with
  | scope henter =>
      have hordered := hs.ordered.enter (statics_of_enter henter) henter
      obtain ⟨rfl, -⟩ := enter_eq_some henter
      exact hordered
  | «variable» hfind value =>
      obtain ⟨outer, -, hfound⟩ := find_pending hfind
      have hordered := (hs.ordered.pending hfind).1
      rw [hfound.store] at hordered ⊢
      exact hordered

theorem pushDocument (hscopes : s.scopes = []) {collectionId : String} {block extra : Assoc String}
    {level : SharedLevel} (h : s.pushDocument block extra collectionId = .ok (level, s')) :
    s'.InOrder := by
  have hordered : s'.Ordered fun _ => True := .pushDocument hscopes (fun _ _ => trivial) h
  obtain ⟨scope, hscope, h⟩ := Except.bind_eq_ok h
  split at h
  · cases h
  · rename_i hstatic
    cases h
    rw [hscopes] at hordered ⊢
    have hlevel := hordered.levels level List.mem_cons_self
    have hfree : ∀ name ∈ level.names, name ∉ s.statics := fun name hname hmem =>
      List.find?_eq_none.1 hstatic name hname (List.contains_iff_mem.2 hmem)
    exact ⟨.singleton { hlevel with passes := hfree } s.statics,
      List.forall_mem_singleton.2 (.declareAll hscope)⟩

/-- The store's order is kept by every evaluation before variables are assigned. -/
def tracking : StoreTracking where
  stands := InOrder
  leads s s' := s'.blank = s.blank
  ends _ := True

theorem lawful_tracking : tracking.Lawful fun _ => False where
  refl _ := rfl
  trans _ _ _ h h' := h'.trans h
  stands _ _ hs h := hs.of_blank h
  ends _ _ _ _ _ := trivial
  assign _ _ _ _ _ h := h.elim
  opens _ _ _ h hs := hs.opens h
  closes s s' close e h hs he := by
    cases h with
    | scope henter =>
        obtain ⟨rfl, -⟩ := enter_eq_some henter
        change e.leave.blank = s.blank
        rw [blank_leave, he]
        rfl
    | «variable» hfind value => exact blank_resume hfind he
  inside _ _ _ _ _ _ _ _ := trivial

end InOrder

namespace Reaches

variable {name : String} {level : SharedLevel} {d : Declaration} {outer : List SharedLevel}
  (h : s.Reaches name level d outer)
include h

theorem level_mem : level ∈ s.scopes := by
  obtain ⟨inner, hscopes, -, -⟩ := h
  exact hscopes ▸ List.mem_append_right _ List.mem_cons_self

theorem declared : d ∈ level.declarations := by
  obtain ⟨inner, -, -, hd⟩ := h
  exact List.mem_of_find?_eq_some hd

/-- What reading the variable means is decided in that scope. -/
theorem find_eq : ∃ inner, s.find name =
    match level.illegal? d with
    | some e => .illegal e
    | none =>
      match level.values.get? name with
      | some c => .known c
      | none => .pending ⟨level, d, inner,
          ⟨s.statics, { level with active := d :: level.active } :: outer⟩⟩ := by
  obtain ⟨inner, hscopes, hinner, hd⟩ := h
  refine ⟨inner, ?_⟩
  have hfind : s.find name = findIn s.statics inner name (level :: outer) := by
    rw [find, hscopes, findIn_append hinner, List.nil_append]
  refine hfind.trans ?_
  unfold findIn
  cases hd' : level.declaration? name with
  | none => cases hd'.symm.trans hd
  | some e =>
      obtain rfl : e = d := Option.some.inj (hd'.symm.trans hd)
      rfl

end Reaches

/-- A variable is undeclared, or reading it reaches a scope. -/
theorem undeclared_or_reaches (s : SharedStore) (name : String) :
    s.find name = .undeclared ∨ ∃ level d outer, s.Reaches name level d outer := by
  obtain ⟨statics, scopes⟩ := s
  rcases hfound : scopes.findSome? (·.declaration? name) with _ | d
  · left
    have hnone := List.findSome?_eq_none_iff.1 hfound
    have hfind := (findIn_append hnone [] [] : findIn statics [] name _ = _)
    rw [List.append_nil] at hfind
    rw [find, hfind, findIn]
  · right
    obtain ⟨inner, level, outer, hscopes, hd, hinner⟩ := List.findSome?_eq_some_iff.1 hfound
    exact ⟨level, d, outer, inner, hscopes, hinner, hd⟩

/-- A known value is one of the scope that is reached. -/
theorem find_known {s : SharedStore} {name : String} {value : Content}
    (h : s.find name = .known value) :
    ∃ level d outer, s.Reaches name level d outer ∧ level.values.get? name = some value := by
  rcases s.undeclared_or_reaches name with hnone | ⟨level, d, outer, hreaches⟩
  · rw [hnone] at h
    cases h
  · obtain ⟨inner, hfind⟩ := hreaches.find_eq
    rw [hfind] at h
    split at h
    · cases h
    · split at h
      · cases h
        exact ⟨level, d, outer, hreaches, by assumption⟩
      · cases h

end SharedStore

/-- Opening a document puts its scope around all others. -/
theorem Request.openDocument_eq_ok {env : Surroundings} {d : Document} {extra : Assoc String}
    {c c' : Context} (h : openDocument env d extra c = (.ok (), c')) :
    ∃ level shared, c.shared.pushDocument d.shared extra env.collectionId = .ok (level, shared) ∧
      c' = { c with shared } := by
  rw [openDocument, Computation.get_bind_apply] at h
  cases hpush : c.shared.pushDocument d.shared extra env.collectionId with
  | error e =>
      rw [hpush] at h
      cases h
  | ok pushed =>
      rw [hpush] at h
      cases h
      exact ⟨pushed.1, pushed.2, rfl, rfl⟩

namespace Eval

/-- Reading a variable whose value is known. -/
theorem readShared_of_reaches {name : String} {value : Content} {level : SharedLevel}
    {d : Declaration} {outer : List SharedLevel} {c : Context} (answer : Answer)
    (hreaches : c.shared.Reaches name level d outer)
    (hknown : level.values.get? name = some value) :
    readShared answer name c = (level.reading d value, c) := by
  obtain ⟨_, hfind⟩ := hreaches.find_eq
  rw [readShared_apply, hfind, hknown, SharedLevel.reading]
  cases level.illegal? d <;> rfl

/-- Before conditionals are applied, shared variables are in order wherever a call is made or ends,
whatever is opened and closed and whatever fails in between. So a variable under evaluation that is
read again, or read by one that comes before it, is refused without any effect, also if its value is
known. -/
theorem reads_in_order (env : Surroundings) (astray : Answer) (fuel : Nat) :
    let inOrder (c c' : Context) : Prop := c.shared.InOrder ∧ c'.shared.InOrder
    (∀ (request : Request) (d : Document) (extra : Assoc String) (c c' : Context),
      c.shared.scopes = [] → Request.openDocument env d extra c = (.ok (), c') →
      inOrder c' (request.perform env (answerWithin env fuel) c').2 ∧
      request.perform env (answerWhere env inOrder astray fuel) c' =
        request.perform env (answerWithin env fuel) c') ∧
    (∀ {α : Type} (x : Answer → Eval α) (c : Context), Evaluation (fun _ => False) x →
      c.shared.InOrder → (x (answerWithin env fuel) c).2.shared.InOrder ∧
      x (answerWhere env inOrder astray fuel) c = x (answerWithin env fuel) c) ∧
    (∀ (s s' : SharedStore) (close : SharedStore → SharedStore), s.InOrder → s.Opens s' close →
      s'.InOrder ∧ ∀ e : SharedStore, e.blank = s'.blank → (close e).InOrder) ∧
    ∀ (answer : Answer) (name : String) (c : Context) (level : SharedLevel) (d v : Declaration)
      (outer : List SharedLevel), c.shared.InOrder → c.shared.Reaches name level d outer →
      v ∈ level.active → v.position ≤ d.position →
      ∃ e, readShared answer name c = (.error (.declaration e), c) := by
  intro inOrder
  have hT := SharedStore.InOrder.lawful_tracking
  have hevaluation : ∀ {α : Type} (x : Answer → Eval α) (c : Context),
      Evaluation (fun _ => False) x → c.shared.InOrder →
      (x (answerWithin env fuel) c).2.shared.InOrder ∧
      x (answerWhere env inOrder astray fuel) c = x (answerWithin env fuel) c := by
    intro α x c hx hc
    have hkept : ∀ c c', c.shared.InOrder → c'.shared.blank = c.shared.blank → True →
        inOrder c c' := fun _ _ hc hblank _ => ⟨hc, hc.of_blank hblank⟩
    obtain ⟨hblank, hsame⟩ := hT.toTracking.evaluation hkept astray hx fuel c hc
    exact ⟨hc.of_blank hblank, hsame trivial⟩
  refine ⟨fun request d extra c c' hscopes hopen => ?_, hevaluation,
    fun s s' close hs h => ⟨hs.opens h, fun e he => ?_⟩,
    fun answer name c level d v outer hc hreaches hv hle => ?_⟩
  · obtain ⟨level, shared, hpush, rfl⟩ := Request.openDocument_eq_ok hopen
    have hc' : shared.InOrder := .pushDocument hscopes hpush
    obtain ⟨hend, hsame⟩ := hevaluation (fun answer => surely (request.perform env answer))
      { c with shared } (fun _ _ => .perform env request) hc'
    exact ⟨⟨hc', hend⟩, surely_inj hsame⟩
  · exact hs.of_blank (hT.closes s s' close e h hs he)
  · have hlevel := hc.levels level hreaches.level_mem
    obtain ⟨e, he⟩ := hlevel.illegal hreaches.declared hv hle
    obtain ⟨inner, hfind⟩ := hreaches.find_eq
    refine ⟨e, ?_⟩
    rw [readShared_apply, hfind, he]

/-- A variable that refers to a later one is refused it, though the later one was read before. -/
theorem reads_in_order_of_known_variable :
    let x : Declaration := ⟨"x", "\x7b\x7b$y\x7d\x7d", 0, false⟩
    let y : Declaration := ⟨"y", "v", 1, false⟩
    let document : Document := {
      metadata := { name := "", namespaceText := "c" }, tables := []
      shared := [(x.name, x.pattern), (y.name, y.pattern)] }
    let env : Surroundings := {
      registry := ⟨[{ id := "c", document }]⟩, base := {}, config := {}, collectionId := "c"
      statics := [] }
    let request : Request := .pattern "\x7b\x7b$y\x7d\x7d\x7b\x7b$x\x7d\x7d"
    let opened := (Request.openDocument env document [] {}).2
    let level : SharedLevel := {
      owner := "document", collectionId := "c", declarations := [x, y]
      values := [("y", .text "v")], active := [x] }
    let reading : Context := { shared := ⟨[], [level]⟩ }
    let astray : Answer := fun {_} _ => throw .outOfFuel
    let inOrder (c c' : Context) : Prop := c.shared.InOrder ∧ c'.shared.InOrder
    (inOrder opened (request.perform env (answerWithin env 9) opened).2 ∧
      request.perform env (answerWhere env inOrder astray 9) opened =
        request.perform env (answerWithin env 9) opened ∧
      failed? (request.perform env (answerWithin env 9) opened).1.2 =
        some (.declaration (.forwardReference "x" "y"))) ∧
    (∃ p, opened.shared.find "x" = .pending p ∧ p.store.InOrder) ∧
    (reading.shared.InOrder ∧
      readShared (answerWhere env inOrder astray 9) "y" reading =
        readShared (answerWithin env 9) "y" reading) ∧
    ∃ e, readShared astray "y" reading = (.error (.declaration e), reading) := by
  intro x y document env request opened level reading astray inOrder
  obtain ⟨hrequest, hevaluation, hopens, hrefused⟩ := reads_in_order env astray 9
  have hopen : Request.openDocument env document [] {} = (.ok (), opened) := by
    have hok : failed? (Request.openDocument env document [] {}).1 = none := by decide +kernel
    refine Prod.ext ?_ rfl
    generalize (Request.openDocument env document [] {}).1 = result at hok ⊢
    cases result with
    | ok _ => rfl
    | error f => cases hok
  obtain ⟨hends, hsame⟩ := hrequest request document [] {} opened rfl hopen
  have hpending : ∃ p, opened.shared.find "x" = .pending p := by
    have hfind : (match opened.shared.find "x" with | .pending _ => true | _ => false) = true := by
      decide +kernel
    split at hfind
    · exact ⟨_, ‹_›⟩
    · cases hfind
  obtain ⟨p, hp⟩ := hpending
  have hlevel : level.InOrder := by
    refine ⟨⟨?_, List.forall_mem_singleton.2 List.mem_cons_self, by decide, fun _ _ => trivial⟩,
      List.pairwise_singleton _ _⟩
    rintro (_ | _ | i) d hd <;> cases hd <;> rfl
  have hreading : reading.shared.InOrder :=
    ⟨.singleton { hlevel.ordered with passes := fun _ _ => List.not_mem_nil } [],
      List.forall_mem_singleton.2 hlevel⟩
  refine ⟨⟨hends, hsame, by decide +kernel⟩,
    ⟨p, hp, (hopens _ _ _ hends.1 (.variable hp none)).1⟩, ⟨hreading, ?_⟩, ?_⟩
  · exact (hevaluation (fun answer => readShared answer "y") reading
      (fun _ _ => .readShared "y") hreading).2
  · exact hrefused astray "y" reading level y x [] hreading
      ⟨[], rfl, List.forall_mem_nil _, by decide⟩ (List.mem_singleton_self _) (by decide)

end Eval

end RandomTables
