-- SUMMARY: Values of shared variables stay what they were when they were first read.
import RandomTables.Proofs.Assoc
import RandomTables.Proofs.Shared.Order

/-!
# Frozen values

Once a shared variable has a value it keeps it for as long as its scope lasts, unless a conditional
assigns it. What makes this more than looking at one step is that scopes come and go in between, and
that all scopes inside are hidden while a variable is evaluated. A scope is the same one as before
if as many scopes lie around it and the same variables are under evaluation in those.
-/
namespace RandomTables

namespace SharedLevel

/-- A scope in which more may be declared and known than before. -/
structure Later (assigns : String → Prop) (s s' : SharedLevel) : Prop where
  owner : s'.owner = s.owner
  collectionId : s'.collectionId = s.collectionId
  declarations : s.declarations <+: s'.declarations
  values : ∀ name value, ¬ assigns name → s.values.get? name = some value →
    s'.values.get? name = some value

/-- What evaluations do to a scope until they end. The variables under evaluation remain as unknown
as they were. -/
structure Grown (assigns : String → Prop) (s s' : SharedLevel) : Prop
    extends Later assigns s s' where
  active : s'.active = s.active
  waiting : ∀ d ∈ s.active, ¬ assigns d.name → s'.values.get? d.name = s.values.get? d.name
  inOrder : s.InOrder → s'.InOrder

/-- A scope after a variable in it was evaluated. -/
abbrev settled (s : SharedLevel) (d : Declaration) (value : Option Content) : SharedLevel :=
  { s with
    active := s.active.drop 1
    values := match value with
      | some c => s.values.put d.name c
      | none => s.values }

variable {assigns : String → Prop} {s s' s'' : SharedLevel}

theorem Later.refl (s : SharedLevel) : s.Later assigns s where
  owner := rfl
  collectionId := rfl
  declarations := List.prefix_rfl
  values _ _ _ h := h

theorem Later.trans (h : s.Later assigns s') (h' : s'.Later assigns s'') :
    s.Later assigns s'' where
  owner := h'.owner.trans h.owner
  collectionId := h'.collectionId.trans h.collectionId
  declarations := h.declarations.trans h'.declarations
  values name value hname hvalue := h'.values name value hname (h.values name value hname hvalue)

namespace Grown

theorem refl (s : SharedLevel) : s.Grown assigns s where
  toLater := .refl s
  active := rfl
  waiting _ _ _ := rfl
  inOrder h := h

theorem trans (h : s.Grown assigns s') (h' : s'.Grown assigns s'') : s.Grown assigns s'' where
  toLater := h.toLater.trans h'.toLater
  active := h'.active.trans h.active
  waiting d hd hname := (h'.waiting d (h.active ▸ hd) hname).trans (h.waiting d hd hname)
  inOrder hs := h'.inOrder (h.inOrder hs)

theorem all_trans {l m n : List SharedLevel} (h : List.Forall₂ (Grown assigns) l m)
    (h' : List.Forall₂ (Grown assigns) m n) : List.Forall₂ (Grown assigns) l n := by
  induction h generalizing n with
  | nil => exact h'
  | cons hfirst _ ih =>
      cases h' with
      | cons hfirst' hrest' => exact .cons (hfirst.trans hfirst') (ih hrest')

theorem all_inOrder {l m : List SharedLevel} (h : List.Forall₂ (Grown assigns) l m)
    (hl : ∀ level ∈ l, level.InOrder) : ∀ level ∈ m, level.InOrder := by
  induction h with
  | nil => exact hl
  | cons hfirst _ ih =>
      rw [List.forall_mem_cons] at hl
      exact List.forall_mem_cons.2 ⟨hfirst.inOrder hl.1, ih hl.2⟩

/-- A declaration and a value that evaluations in between may add. -/
theorem declare {key pattern : String} (h : s.declare key pattern = .ok s') :
    s.Grown assigns s' := by
  have hordered : s.InOrder → s'.Ordered fun _ => True := fun hs => hs.ordered.declare trivial h
  obtain ⟨-, rfl⟩ := declare_eq_ok h
  exact ⟨⟨rfl, rfl, List.prefix_append _ _, fun _ _ _ h => h⟩, rfl, fun _ _ _ => rfl,
    fun hs => ⟨hordered hs, hs.descending⟩⟩

theorem put {name : String} (hname : assigns name) (value : Content) :
    s.Grown assigns { s with values := s.values.put name value } := by
  have hother : ∀ other, ¬ assigns other →
      (s.values.put name value).get? other = s.values.get? other :=
    fun other hother => (Assoc.get?_put _ _ _ _).trans <| if_neg fun heq : other = name =>
      hother (heq.symm ▸ hname)
  refine ⟨⟨rfl, rfl, List.prefix_rfl, fun other v hassigns h => ?_⟩, rfl, fun d _ hd => hother _ hd,
    fun hs => ⟨⟨hs.ordered.position, hs.ordered.active, hs.ordered.distinct, hs.ordered.passes⟩,
      hs.descending⟩⟩
  rw [hother other hassigns]
  exact h

section

variable {d : Declaration} (hs : s.InOrder) (hd : d ∈ s.declarations)
  (hlegal : s.illegal? d = none) (hunknown : s.values.get? d.name = none)
  (h : Grown assigns { s with active := d :: s.active } s') (value : Option Content)

omit h in
theorem get?_settled {name : String} (hname : name ≠ d.name) :
    (s'.settled d value).values.get? name = s'.values.get? name := by
  cases value with
  | none => rfl
  | some c => exact (Assoc.get?_put _ _ _ _).trans (if_neg hname)

include hs hd hlegal hunknown h

/-- The value of a variable is new to the scope in which it was begun. -/
theorem settle : s.Grown assigns (s'.settled d value) := by
  have hactive : s'.active.drop 1 = s.active := by rw [h.active]; rfl
  refine ⟨⟨h.owner, h.collectionId, h.declarations, fun name v hassigns hv => ?_⟩, hactive,
    fun v hv hassigns => ?_, fun _ => ?_⟩
  · have hname : name ≠ d.name := by
      rintro rfl
      rw [hunknown] at hv
      cases hv
    rw [get?_settled value hname]
    exact h.values name v hassigns hv
  · have hname : v.name ≠ d.name := by
      intro heq
      have hsame : v = d :=
        List.inj_on_of_nodup_map hs.ordered.distinct (hs.ordered.active v hv) hd heq
      exact Nat.lt_irrefl _ (hsame ▸ hs.before_active hd hlegal v hv)
    rw [get?_settled value hname]
    exact h.waiting v (List.mem_cons_of_mem _ hv) hassigns
  · obtain ⟨hordered, hdescending⟩ := h.inOrder (hs.begin hd hlegal)
    refine ⟨⟨hordered.position, fun v hv => ?_, hordered.distinct, hordered.passes⟩, ?_⟩
    · exact hordered.active v (List.mem_of_mem_drop hv)
    · exact hdescending.sublist (List.drop_sublist 1 _)

omit hs hd hlegal in
/-- While a variable is evaluated it has no value yet, so settling it replaces none. -/
theorem later_settled : s'.Later assigns (s'.settled d value) := by
  refine ⟨rfl, rfl, List.prefix_rfl, fun name v hassigns hv => ?_⟩
  have hname : name ≠ d.name := by
    rintro rfl
    have hwaiting : s'.values.get? d.name = s.values.get? d.name :=
      h.waiting d List.mem_cons_self hassigns
    rw [hwaiting, hunknown] at hv
    cases hv
  rw [get?_settled value hname]
  exact hv

end

end Grown

/-! ## The same scopes, seen from inside -/

/-- Scopes, from the outermost on, as they are seen from inside others: up to one of them in which a
variable was begun since, which hides what lies further inside. -/
def Inside (R : SharedLevel → SharedLevel → Prop) : List SharedLevel → List SharedLevel → Prop
  | [], _ => True
  | _ :: _, [] => False
  | s :: inner, t :: inner' =>
    R s t ∧ (t.active = s.active ∧ Inside R inner inner' ∨
      s.active <:+ t.active ∧ t.active ≠ s.active)

namespace Inside

variable {R : SharedLevel → SharedLevel → Prop} {l m n : List SharedLevel} {t t' : SharedLevel}

theorem refl (hR : ∀ s, R s s) (l : List SharedLevel) : Inside R l l := by
  induction l with
  | nil => trivial
  | cons s inner ih => exact ⟨hR s, .inl ⟨rfl, ih⟩⟩

/-- More scopes further inside change nothing. -/
theorem append (h : Inside R l m) (n : List SharedLevel) : Inside R l (m ++ n) := by
  induction l generalizing m with
  | nil => trivial
  | cons s inner ih =>
      cases m with
      | nil => exact h.elim
      | cons t inner' => exact ⟨h.1, h.2.imp_left fun hrest => ⟨hrest.1, ih hrest.2⟩⟩

theorem mono (h : Inside R l m)
    (hm : List.Forall₂ (fun t t' => t'.active = t.active ∧ ∀ s, R s t → R s t') m n) :
    Inside R l n := by
  induction l generalizing m n with
  | nil => trivial
  | cons s inner ih =>
      cases hm with
      | nil => exact h.elim
      | cons hfirst hrest =>
          rw [Inside, hfirst.1]
          exact ⟨hfirst.2 s h.1, h.2.imp_left fun hinner => ⟨hinner.1, ih hinner.2 hrest⟩⟩

/-- Beginning a variable hides the scopes inside. -/
theorem «begin» {d : Declaration} (hR : ∀ s, R s t → R s t') (hactive : t'.active = d :: t.active)
    (h : Inside R l (m ++ t :: n)) : Inside R l (m ++ [t']) := by
  induction l generalizing m with
  | nil => trivial
  | cons s inner ih =>
      cases m with
      | nil =>
          obtain ⟨hst, hrest⟩ := h
          have hsuffix : s.active <:+ t.active :=
            hrest.elim (fun hsame => hsame.1 ▸ List.suffix_rfl) And.left
          refine ⟨hR s hst, .inr ?_⟩
          rw [hactive]
          refine ⟨hsuffix.trans (List.suffix_cons _ _), fun heq => ?_⟩
          have hlength := hsuffix.length_le
          rw [← heq, List.length_cons] at hlength
          exact Nat.not_succ_le_self _ hlength
      | cons first rest =>
          exact ⟨h.1, h.2.imp_left fun hinner => ⟨hinner.1, ih hinner.2⟩⟩

/-- Where the same variables are under evaluation further out, the same scope is seen. -/
theorem related {outer outer' : List SharedLevel} {s : SharedLevel}
    (h : Inside R (outer ++ s :: l) (outer' ++ t :: m))
    (hsame : outer'.map (·.active) = outer.map (·.active)) : R s t := by
  induction outer generalizing outer' with
  | nil =>
      obtain rfl : outer' = [] := List.map_eq_nil_iff.1 hsame
      exact h.1
  | cons first rest ih =>
      cases outer' with
      | nil => cases hsame
      | cons first' rest' =>
          obtain ⟨hfirst, hrest⟩ := List.cons.inj hsame
          exact ih (h.2.elim And.right fun hhidden => absurd hfirst hhidden.2) hrest

end Inside

/-- A declaration is found as before where more were added. -/
theorem declaration?_of_prefix {name : String} {d : Declaration}
    (h : s.declarations <+: s'.declarations) (hd : s.declaration? name = some d) :
    s'.declaration? name = some d := by
  obtain ⟨more, hmore⟩ := h
  unfold declaration? at hd ⊢
  rw [← hmore, List.find?_append, hd, Option.some_or]

/-- A declaration is found under its own name. -/
theorem name_of_declaration? {name : String} {d : Declaration}
    (h : s.declaration? name = some d) : d.name = name := by
  unfold declaration? at h
  simpa using List.find?_some h

end SharedLevel

namespace SharedStore

/-- What evaluations do to a store until they end. -/
structure Grown (assigns : String → Prop) (s s' : SharedStore) : Prop where
  statics : s'.statics = s.statics
  scopes : List.Forall₂ (SharedLevel.Grown assigns) s.scopes s'.scopes

/-- Some scope is visible, and all of them are in order. -/
structure Sound (s : SharedStore) : Prop where
  scopes : s.scopes ≠ []
  levels : ∀ level ∈ s.scopes, level.InOrder

/-- What one store knows of a scope, another one knows of the same scope: of the one with the same
number of scopes around it, in which the same variables are under evaluation. -/
def Keeps (assigns : String → Prop) (s t : SharedStore) : Prop :=
  ∀ inner level outer inner' level' outer', s.scopes = inner ++ level :: outer →
    t.scopes = inner' ++ level' :: outer' → outer'.map (·.active) = outer.map (·.active) →
    level.Later assigns level'

variable {assigns : String → Prop} {s s' s'' t : SharedStore}

/-- A pending variable has no value under the name it was declared with. -/
theorem FoundIn.unknown_own {name : String} {p : Pending} {statics : List String}
    {inner outer : List SharedLevel} (h : FoundIn name p statics inner outer) :
    p.scope.values.get? p.declaration.name = none := by
  rw [SharedLevel.name_of_declaration? h.declared]
  exact h.unknown

namespace Grown

theorem refl (s : SharedStore) : s.Grown assigns s :=
  ⟨rfl, List.forall₂_same.2 fun level _ => .refl level⟩

theorem trans (h : s.Grown assigns s') (h' : s'.Grown assigns s'') : s.Grown assigns s'' :=
  ⟨h'.statics.trans h.statics, SharedLevel.Grown.all_trans h.scopes h'.scopes⟩

theorem sound (h : s.Grown assigns s') (hs : s.Sound) : s'.Sound := by
  refine ⟨fun hnil => hs.scopes ?_, SharedLevel.Grown.all_inOrder h.scopes hs.levels⟩
  have hscopes := h.scopes
  rw [hnil] at hscopes
  exact List.forall₂_nil_right_iff.1 hscopes

/-- Assigning a variable that may be assigned. -/
theorem assign (hs : s.Sound) {target : String} {value : Content} (htarget : assigns target)
    (h : s.assign target value = .ok s') : s.Grown assigns s' := by
  obtain ⟨inner, level, hscopes⟩ : ∃ inner level, s.scopes = inner ++ [level] :=
    ⟨_, _, (List.dropLast_concat_getLast hs.scopes).symm⟩
  obtain ⟨level', hlevel', rfl⟩ := assign_eq_ok inner hscopes h
  refine ⟨rfl, ?_⟩
  have hinner : List.Forall₂ (SharedLevel.Grown assigns) inner inner :=
    List.forall₂_same.2 fun level _ => .refl level
  rw [hscopes]
  refine List.rel_append hinner (.cons ?_ .nil)
  rcases hlevel' with rfl | hdeclare
  · exact .put htarget value
  · exact (SharedLevel.Grown.declare hdeclare).trans (.put htarget value)

/-- What is left of a variable's evaluation: its scope grew, and those around it. -/
theorem of_pending {name : String} {p : Pending} {outer : List SharedLevel}
    (hfound : FoundIn name p s.statics p.hidden outer) (h : p.store.Grown assigns t) :
    ∃ level' outer', t.scopes = level' :: outer' ∧ t.statics = s.statics ∧
      SharedLevel.Grown assigns
        { p.scope with active := p.declaration :: p.scope.active } level' ∧
      List.Forall₂ (SharedLevel.Grown assigns) outer outer' := by
  obtain ⟨hstatics, hscopes⟩ := h
  rw [hfound.store] at hstatics hscopes
  generalize t.scopes = scopes at hscopes ⊢
  cases hscopes with
  | cons hfirst hrest => exact ⟨_, _, rfl, hstatics, hfirst, hrest⟩

/-- A variable whose evaluation gave a value is known, whatever else the evaluation did. -/
theorem find_resume {name : String} {value : Content} {p : Pending}
    (hfind : s.find name = .pending p) (h : p.store.Grown assigns t) :
    (p.resume (some value) t).find name = .known value := by
  obtain ⟨outer, -, hfound⟩ := find_pending hfind
  obtain ⟨level, outer', hafter, -, hlevel, -⟩ := of_pending hfound h
  let settled := level.settled p.declaration (some value)
  have hreaches : (p.resume (some value) t).Reaches name settled p.declaration outer' := by
    refine ⟨p.hidden, ?_, hfound.passed, ?_⟩
    · change p.hidden ++ settle _ _ _ = _
      rw [hafter]
      rfl
    · exact SharedLevel.declaration?_of_prefix hlevel.declarations hfound.declared
  have hactive : settled.active = p.scope.active :=
    (congrArg (List.drop 1) hlevel.active).trans rfl
  have hlegal : settled.illegal? p.declaration = none := by
    rw [SharedLevel.illegal?, hactive]
    exact hfound.legal
  have hknown : settled.values.get? name = some value := by
    refine (Assoc.get?_put _ _ _ _).trans (if_pos ?_)
    exact (SharedLevel.name_of_declaration? hfound.declared).symm
  obtain ⟨_, hafterwards⟩ := hreaches.find_eq
  rw [hafterwards, hlegal, hknown]

end Grown

/-! ## Tracking -/

/-- The values that are known at the start stay, and those known in between are left at the end. -/
def freezing (assigns : String → Prop) (start final : SharedStore) : StoreTracking where
  stands s := s.Sound ∧
    SharedLevel.Inside (SharedLevel.Later assigns) start.scopes.reverse s.scopes.reverse
  leads := Grown assigns
  ends s := SharedLevel.Inside (fun f s => s.Later assigns f) final.scopes.reverse s.scopes.reverse

section

variable {start final : SharedStore} {close : SharedStore → SharedStore}

theorem Sound.opens (hs : s.Sound) (h : s.Opens s' close) : s'.Sound := by
  refine ⟨?_, h.levels hs.levels⟩
  cases h with
  | scope henter =>
      obtain ⟨rfl, -⟩ := enter_eq_some henter
      exact List.cons_ne_nil _ _
  | «variable» hfind value =>
      obtain ⟨outer, -, hfound⟩ := find_pending hfind
      rw [hfound.store]
      exact List.cons_ne_nil _ _

theorem freezing_opens (h : s.Opens s' close) (hs : (freezing assigns start final).stands s) :
    (freezing assigns start final).stands s' := by
  obtain ⟨hsound, hinside⟩ := hs
  refine ⟨hsound.opens h, ?_⟩
  cases h with
  | scope henter =>
      obtain ⟨rfl, -⟩ := enter_eq_some henter
      rw [List.reverse_cons]
      exact hinside.append _
  | «variable» hfind value =>
      obtain ⟨outer, hscopes, hfound⟩ := find_pending hfind
      rw [hscopes, List.reverse_append, List.reverse_cons, List.append_assoc] at hinside
      rw [hfound.store, List.reverse_cons]
      refine SharedLevel.Inside.begin (fun s hs => ?_) rfl hinside
      exact ⟨hs.owner, hs.collectionId, hs.declarations, hs.values⟩

theorem freezing_closes (h : s.Opens s' close) (hs : s.Sound) (ht : s'.Grown assigns t) :
    s.Grown assigns (close t) := by
  cases h with
  | scope henter =>
      obtain ⟨rfl, -⟩ := enter_eq_some henter
      obtain ⟨hstatics, hscopes⟩ := ht
      refine ⟨hstatics, ?_⟩
      rw [leave]
      generalize t.scopes = scopes at hscopes ⊢
      cases hscopes with
      | cons hfirst hrest => exact hrest
  | «variable» hfind value =>
      rename_i name p
      obtain ⟨outer, hscopes, hfound⟩ := find_pending hfind
      obtain ⟨level, outer', hafter, hstatics, hlevel, houter⟩ := Grown.of_pending hfound ht
      have hscope : p.scope.InOrder :=
        hs.levels p.scope (hscopes ▸ List.mem_append_right _ List.mem_cons_self)
      have hdeclared := List.mem_of_find?_eq_some hfound.declared
      have hhidden : List.Forall₂ (SharedLevel.Grown assigns) p.hidden p.hidden :=
        List.forall₂_same.2 fun level _ => .refl level
      refine ⟨hstatics, ?_⟩
      rw [Pending.resume, hafter, hscopes]
      exact List.rel_append hhidden
        (.cons (.settle hscope hdeclared hfound.legal hfound.unknown_own hlevel value) houter)

theorem freezing_inside (h : s.Opens s' close) (ht : s'.Grown assigns t)
    (hends : (freezing assigns start final).ends (close t)) :
    (freezing assigns start final).ends t := by
  cases h with
  | scope henter =>
      obtain ⟨rfl, -⟩ := enter_eq_some henter
      have hscopes := ht.scopes
      change SharedLevel.Inside _ final.scopes.reverse (t.scopes.drop 1).reverse at hends
      change SharedLevel.Inside _ final.scopes.reverse t.scopes.reverse
      generalize t.scopes = scopes at hscopes hends ⊢
      cases hscopes with
      | cons hfirst hrest =>
          rw [List.reverse_cons]
          exact hends.append _
  | «variable» hfind value =>
      rename_i name p
      obtain ⟨outer, hscopes, hfound⟩ := find_pending hfind
      obtain ⟨level, outer', hafter, -, hlevel, -⟩ := Grown.of_pending hfound ht
      have hlater := SharedLevel.Grown.later_settled hfound.unknown_own hlevel value
      have hactive : level.active = p.declaration :: level.active.drop 1 := by
        rw [hlevel.active]
        rfl
      change SharedLevel.Inside _ final.scopes.reverse
        (p.hidden ++ settle p.declaration value t.scopes).reverse at hends
      change SharedLevel.Inside _ final.scopes.reverse t.scopes.reverse
      rw [hafter] at hends ⊢
      change SharedLevel.Inside _ final.scopes.reverse
        (p.hidden ++ level.settled p.declaration value :: outer').reverse at hends
      rw [List.reverse_append, List.reverse_cons, List.append_assoc] at hends
      rw [List.reverse_cons]
      exact SharedLevel.Inside.begin (fun s hs => hlater.trans hs) hactive hends

theorem lawful_freezing : (freezing assigns start final).Lawful assigns where
  refl _ := .refl _
  trans _ _ _ := .trans
  stands s s' hs h := by
    refine ⟨h.sound hs.1, hs.2.mono ?_⟩
    refine List.rel_reverse (h.scopes.imp fun level level' hgrown => ⟨hgrown.active, ?_⟩)
    exact fun s hs => hs.trans hgrown.toLater
  ends s s' _ h hends := by
    refine SharedLevel.Inside.mono hends (List.rel_reverse (.flip (h.scopes.imp ?_)))
    exact fun level level' hgrown => ⟨hgrown.active.symm, fun s hs => hgrown.toLater.trans hs⟩
  assign _ _ _ _ hs htarget h := .assign hs.1 htarget h
  opens _ _ _ h hs := freezing_opens h hs
  closes _ _ _ _ h hs ht := freezing_closes h hs.1 ht
  inside _ _ _ _ h _ ht hends := freezing_inside h ht hends

end

/-! ## What is kept -/

namespace Keeps

theorem of_inside (h : SharedLevel.Inside (SharedLevel.Later assigns) s.scopes.reverse
    t.scopes.reverse) : s.Keeps assigns t := by
  intro inner level outer inner' level' outer' hs ht hsame
  rw [hs, ht] at h
  simp only [List.reverse_append, List.reverse_cons, List.append_assoc, List.singleton_append] at h
  refine h.related ?_
  rw [List.map_reverse, List.map_reverse, hsame]

theorem of_outside (h : SharedLevel.Inside (fun f s => s.Later assigns f) t.scopes.reverse
    s.scopes.reverse) : s.Keeps assigns t := by
  intro inner level outer inner' level' outer' hs ht hsame
  rw [hs, ht] at h
  simp only [List.reverse_append, List.reverse_cons, List.append_assoc, List.singleton_append] at h
  refine h.related ?_
  rw [List.map_reverse, List.map_reverse, hsame]

/-- What an evaluation does to a store keeps what is known. -/
theorem of_grown (h : s.Grown assigns t) : s.Keeps assigns t := by
  have hself : SharedLevel.Inside (SharedLevel.Later assigns) s.scopes.reverse s.scopes.reverse :=
    .refl (fun _ => .refl _) _
  refine .of_inside (hself.mono (List.rel_reverse (h.scopes.imp fun level level' hgrown => ?_)))
  exact ⟨hgrown.active, fun s hs => hs.trans hgrown.toLater⟩

end Keeps

end SharedStore

namespace Eval

open SharedStore

variable {env : Surroundings} {assigns : String → Prop}

section

variable {c : Context} (hc : c.shared.Sound)
include hc

/-- The store at the start and whatever follows from it. -/
theorem freezing_start (final : SharedStore) :
    (freezing assigns c.shared final).toTracking.stands c :=
  ⟨hc, .refl (fun _ => .refl _) _⟩

theorem grown_of_answer {α : Type} (call : Call α) (fuel : Nat) :
    c.shared.Grown assigns (answerWithin env fuel call c).2.shared := by
  have hT : (freezing assigns c.shared c.shared).toTracking.Lawful assigns :=
    lawful_freezing.toTracking
  exact hT.leads_answer fuel call (freezing_start hc _)

theorem grown_of_evaluation {α : Type} {x : Answer → Eval α} (hx : Evaluation assigns x)
    (fuel : Nat) : c.shared.Grown assigns (x (answerWithin env fuel) c).2.shared := by
  have hT : (freezing assigns c.shared c.shared).toTracking.Lawful assigns :=
    lawful_freezing.toTracking
  exact hT.leads_evaluation hx fuel (freezing_start hc _)

/-- Reading a variable that gives a value leaves it known, and to be read there again. -/
theorem find_of_readShared {c' : Context} {fuel : Nat} {name : String} {value : Content}
    (h : readShared (answerWithin env fuel) name c = (.ok (some value), c')) :
    c'.shared.find name = .known value := by
  rw [readShared_apply] at h
  cases hfind : c.shared.find name with
  | undeclared =>
      rw [hfind] at h
      cases h
  | illegal e =>
      rw [hfind] at h
      cases h
  | known content =>
      rw [hfind] at h
      cases h
      exact hfind
  | pending p =>
      rw [hfind] at h
      let call : Call Content := .shared p.scope.owner p.scope.collectionId p.declaration
      let begun : Context := { c with shared := p.store }
      have hgrown : p.store.Grown (fun _ => False) (answerWithin env fuel call begun).2.shared :=
        grown_of_answer (c := begun) (hc.opens (.variable hfind none)) call fuel
      obtain ⟨v, c₁, hbracket, hrest⟩ := Computation.bind_eq_ok h
      obtain ⟨hresult, rfl⟩ := Prod.mk.inj hbracket
      cases hrest
      change (p.resume (answerWithin env fuel call begun).1.toOption
        (answerWithin env fuel call begun).2.shared).find name = .known value
      rw [hresult]
      exact hgrown.find_resume hfind

/-- Reading a variable that gives a value leaves it known in the scope that was reached. -/
theorem known_of_readShared {c' : Context} {fuel : Nat} {name : String} {value : Content}
    (h : readShared (answerWithin env fuel) name c = (.ok (some value), c')) :
    ∃ level d outer, c'.shared.Reaches name level d outer ∧
      level.values.get? name = some value := find_known (find_of_readShared hc h)

end

/-- What a variable was read to be it stays, unless a conditional assigns it: whatever is evaluated
later, inside or outside, keeps the value in its scope, and reading it there again gives that value
and does nothing, or is refused for the order of declarations. -/
theorem reads_stay (env : Surroundings) (assigns : String → Prop) (astray : Answer) (fuel : Nat) :
    (∀ {α : Type} (op : Operation α), Evaluation assigns fun answer => op.run env answer) ∧
    (∀ (request : Request) (d : Document) (extra : Assoc String) (c c' : Context),
      (∀ c ∈ d.conditionals, c.action = .setVariable → assigns (c.target.getD "")) →
      c.shared.scopes = [] → Request.openDocument env d extra c = (.ok (), c') →
      c'.shared.Sound ∧ Evaluation assigns fun answer => surely (request.completeIn env answer d)) ∧
    (∀ {α : Type} (x : Answer → Eval α) (c : Context), Evaluation assigns x → c.shared.Sound →
      let ended := (x (answerWithin env fuel) c).2.shared
      ended.Sound ∧ c.shared.Keeps assigns ended ∧
      x (answerWhere env (fun now later => now.shared.Sound ∧
          c.shared.Keeps assigns now.shared ∧ now.shared.Keeps assigns later.shared ∧
          later.shared.Keeps assigns ended) astray fuel) c = x (answerWithin env fuel) c) ∧
    (∀ (s s' t : SharedStore) (close : SharedStore → SharedStore), s.Sound → s.Opens s' close →
      s'.Grown assigns t →
      s.Keeps assigns s' ∧ t.Keeps assigns (close t) ∧ s.Keeps assigns (close t)) ∧
    (∀ (name : String) (value : Content) (c c' : Context), c.shared.Sound →
      readShared (answerWithin env fuel) name c = (.ok (some value), c') →
      ∃ level d outer, c'.shared.Reaches name level d outer ∧
        level.values.get? name = some value) ∧
    ∀ (answer : Answer) (name : String) (value : Content) (c c' : Context)
      (level level' : SharedLevel) (d d' : Declaration) (outer outer' : List SharedLevel),
      ¬ assigns name → c.shared.Reaches name level d outer →
      level.values.get? name = some value → c.shared.Keeps assigns c'.shared →
      c'.shared.Reaches name level' d' outer' →
      outer'.map (·.active) = outer.map (·.active) →
      readShared answer name c' =
        match level'.illegal? d' with
        | some e => (.error (.declaration e), c')
        | none => (.ok (some value), c') := by
  have hself : ∀ s : SharedStore,
      SharedLevel.Inside (SharedLevel.Later assigns) s.scopes.reverse s.scopes.reverse :=
    fun s => .refl (fun _ => .refl _) _
  refine ⟨fun op a b => .operation env op, fun request d extra c c' hd hscopes hopen => ⟨?_, ?_⟩,
    fun x c hx hc => ?_, fun s s' t close hs hopens ht => ⟨?_, ?_, ?_⟩,
    fun name value c c' hc h => known_of_readShared hc h,
    fun answer name value c c' level level' d d' outer outer' hname hreaches hvalue hkeeps
      hreaches' hsame => ?_⟩
  · obtain ⟨level, shared, hpush, rfl⟩ := Request.openDocument_eq_ok hopen
    refine ⟨?_, (InOrder.pushDocument hscopes hpush).levels⟩
    rw [(pushDocument_eq_ok hpush).1]
    exact List.append_ne_nil_of_right_ne_nil _ (List.cons_ne_nil _ _)
  · exact fun _ _ => .completeIn env request hd
  · intro ended
    have hT : (freezing assigns c.shared ended).toTracking.Lawful assigns :=
      lawful_freezing.toTracking
    have hkept : ∀ now later, (freezing assigns c.shared ended).toTracking.stands now →
        now.shared.Grown assigns later.shared →
        (freezing assigns c.shared ended).toTracking.ends later →
        now.shared.Sound ∧ c.shared.Keeps assigns now.shared ∧
          now.shared.Keeps assigns later.shared ∧ later.shared.Keeps assigns ended :=
      fun now later hnow hgrown hlater =>
        ⟨hnow.1, .of_inside hnow.2, .of_grown hgrown, .of_outside hlater⟩
    obtain ⟨hgrown, hrun⟩ := hT.evaluation hkept astray hx fuel c (freezing_start hc ended)
    exact ⟨hgrown.sound hc, .of_grown hgrown, hrun (.refl (fun _ => .refl _) _)⟩
  · have hstands : (freezing assigns s s).stands s' := freezing_opens hopens ⟨hs, hself s⟩
    exact .of_inside hstands.2
  · have hends : (freezing assigns s (close t)).ends t :=
      freezing_inside hopens ht (.refl (fun _ => .refl _) _)
    exact .of_outside hends
  · exact .of_grown (freezing_closes hopens hs ht)
  · obtain ⟨inner, hscopes, -, -⟩ := hreaches
    have ⟨inner', hscopes', _, _⟩ := hreaches'
    have hlater := hkeeps _ _ _ _ _ _ hscopes hscopes' hsame
    rw [readShared_of_reaches answer hreaches' (hlater.values name value hname hvalue),
      SharedLevel.reading]
    cases level'.illegal? d' <;> rfl

/-- A variable made by dice, read again after more dice and after itself, is what it was first. -/
theorem reads_stay_of_dice :
    let document : Document := {
      metadata := { name := "", namespaceText := "c" }, tables := []
      shared := [("x", "\x7b\x7bdice:1d6\x7d\x7d")] }
    let env : Surroundings := {
      registry := ⟨[{ id := "c", document }]⟩, base := {}, config := {}, collectionId := "c"
      statics := [] }
    let answer : Answer := answerWithin env 9
    let opened := (Request.openDocument env document [] { source := .ofDraws [0, 500000] }).2
    let read := readShared answer "x" opened
    let op : Operation String := .pattern "\x7b\x7bdice:1d6\x7d\x7d\x7b\x7b$x\x7d\x7d" "c"
    let later := (op.run env answer read.2).2
    ∃ value, read.1 = .ok (some value) ∧
      ∀ astray : Answer, readShared astray "x" later = (.ok (some value), later) := by
  intro document env answer opened read op later
  obtain ⟨hoperation, hrequest, hevaluation, -, hfirst, hagain⟩ :=
    reads_stay env (fun _ => False) answer 9
  have hopen : Request.openDocument env document [] { source := .ofDraws [0, 500000] } =
      (.ok (), opened) := by
    have hok : failed? (Request.openDocument env document [] {
        source := .ofDraws [0, 500000] }).1 = none := by decide +kernel
    refine Prod.ext ?_ rfl
    generalize (Request.openDocument env document [] { source := .ofDraws [0, 500000] }).1 = result
      at hok ⊢
    cases result with
    | ok _ => rfl
    | error f => cases hok
  have hopened := (hrequest (.pattern "") document [] { source := .ofDraws [0, 500000] } opened
    (List.forall_mem_nil _) rfl hopen).1
  have hvalue : (read.1.toOption.bind id).isSome := by decide +kernel
  obtain ⟨value, hvalue⟩ := Option.isSome_iff_exists.1 hvalue
  have hread : read = (.ok (some value), read.2) := by
    refine Prod.ext ?_ rfl
    generalize read.1 = result at hvalue ⊢
    cases result with
    | ok found => exact congrArg Except.ok hvalue
    | error f => cases hvalue
  obtain ⟨level, d, outer, hreaches, hknown⟩ := hfirst "x" value opened read.2 hopened hread
  have hsound := (hevaluation (fun a => readShared a "x") opened
    (fun _ _ => .readShared "x") hopened).1
  have hkeeps := (hevaluation (fun a => op.run env a) read.2 (hoperation op) hsound).2.1
  have hagainKnown : ∃ content, later.shared.find "x" = .known content := by
    have hfind : (match later.shared.find "x" with | .known _ => true | _ => false) = true := by
      decide +kernel
    split at hfind
    · exact ⟨_, ‹_›⟩
    · cases hfind
  have hone : read.2.shared.scopes.length = 1 ∧ later.shared.scopes.length = 1 := by decide +kernel
  have hnone : ∀ {s : SharedStore} {level d outer}, s.Reaches "x" level d outer →
      s.scopes.length = 1 → outer = [] := by
    rintro s level d outer ⟨inner, hscopes, -⟩ hlength
    rw [hscopes, List.length_append, List.length_cons] at hlength
    exact List.eq_nil_of_length_eq_zero (by omega)
  obtain ⟨content, hcontent⟩ := hagainKnown
  obtain ⟨level', d', outer', hreaches', -⟩ := find_known hcontent
  have hsame : outer'.map (·.active) = outer.map (·.active) := by
    rw [hnone hreaches hone.1, hnone hreaches' hone.2]
  refine ⟨value, congrArg Prod.fst hread, fun astray => ?_⟩
  have hresult := hagain astray "x" value read.2 later level level' d d' outer outer' id hreaches
    hknown hkeeps hreaches' hsame
  rw [readShared_apply, hcontent] at hresult ⊢
  cases hlegal : level'.illegal? d' with
  | none =>
      rw [hlegal] at hresult
      exact hresult
  | some e =>
      rw [hlegal] at hresult
      cases hresult

end Eval

end RandomTables
