-- SUMMARY: Resolving tables ends, fails only with errors of the language and keeps what tables are.
import RandomTables.Proofs.Registry.Material

/-!
# Resolving tables

Every table that a chain of inheritance comes to is one level further from the table it began with,
and no collection allows more levels than the greatest limit. So the fuel of `Registry.inherit` is
never used up, whatever extends what, be it a table that extends itself. What is known of tables and
of those that are remembered is carried along the chain: a registry `Tracks` it if each step does.
-/
namespace RandomTables

/-- An error of the language, though not the refusal to open another level. -/
def Failure.Ordinary (f : Failure) : Prop :=
  ∃ e, f = .error e ∧ ∀ d, e = .depth d → d.what = .inheritance

namespace Failure.Ordinary

theorem resolution (e : ResolutionFailure) : (Failure.resolution e).Ordinary :=
  ⟨_, rfl, fun _ h => nomatch h⟩

theorem selection (e : SelectionFailure) : (Failure.selection e).Ordinary :=
  ⟨_, rfl, fun _ h => nomatch h⟩

theorem declaration (e : DeclarationFailure) : (Failure.declaration e).Ordinary :=
  ⟨_, rfl, fun _ h => nomatch h⟩

theorem parse (e : ParseFailure) : (Failure.error (.parse e)).Ordinary :=
  ⟨_, rfl, fun _ h => nomatch h⟩

end Failure.Ordinary

theorem Resolve.lift_ok_bind {α β : Type} (a : α) (f : α → Resolve β) :
    Resolve.lift (.ok a) >>= f = f a := rfl

/-- What is remembered with one more table. -/
abbrev remembering (collectionId : String) (t : SimpleTable) (tables : ResolvedTables) :
    ResolvedTables :=
  ((collectionId, t.id), t) :: tables

/-- A computation that resolves tables. What is remembered grows and stays as stated by `I`; where it
was as stated by `K`, the value is as stated by `P`; and failures are ordinary. -/
def Resolve.Keeps (I K : ResolvedTables → Prop) {α : Type} (P : ResolvedTables → α → Prop)
    (x : Resolve α) : Prop :=
  ∀ s : Resolving, I s.tables → K s.tables →
    I (x s).2.tables ∧ s.tables <:+ (x s).2.tables ∧
      match (x s).1 with
      | .ok a => P (x s).2.tables a
      | .error f => f.Ordinary

namespace Resolve.Keeps

variable {I K : ResolvedTables → Prop} {α β : Type} {P : ResolvedTables → α → Prop}
  {R : ResolvedTables → β → Prop} {x : Resolve α} {f : α → Resolve β}

theorem pure {a : α} (h : ∀ tables, I tables → K tables → P tables a) : Keeps I K P (pure a) :=
  fun _ hs hk => ⟨hs, List.suffix_refl _, h _ hs hk⟩

theorem throw {f : Failure} (h : f.Ordinary) : Keeps I K P (throw f : Resolve α) :=
  fun _ hs _ => ⟨hs, List.suffix_refl _, h⟩

theorem bind (hx : Keeps I K P x) (hf : ∀ a, Keeps I (P · a) R (f a)) :
    Keeps I K R (x >>= f) := by
  intro s hs hk
  rw [Computation.bind_apply]
  have hxs := hx s hs hk
  rcases hrun : x s with ⟨e | a, s'⟩ <;> simp only [hrun] at hxs
  · exact hxs
  · have hrest := hf a s' hxs.1 hxs.2.2
    exact ⟨hrest.1, hxs.2.1.trans hrest.2.1, hrest.2.2⟩

theorem of_imp {K' : ResolvedTables → Prop} (hx : Keeps I K' P x)
    (hK : ∀ tables, K tables → K' tables) : Keeps I K P x :=
  fun s hs hk => hx s hs (hK _ hk)

theorem mono {Q : ResolvedTables → α → Prop} (hx : Keeps I K P x)
    (hPQ : ∀ tables a, P tables a → Q tables a) : Keeps I K Q x := by
  intro s hs hk
  have hxs := hx s hs hk
  rcases hrun : x s with ⟨e | a, s'⟩ <;> simp only [hrun] at hxs ⊢
  · exact hxs
  · exact ⟨hxs.1, hxs.2.1, hPQ _ _ hxs.2.2⟩

/-- What is known of what was remembered may be taken for granted. -/
theorem assuming {p : Prop} (hK : ∀ tables, K tables → p) (hx : p → Keeps I K P x) :
    Keeps I K P x := fun s hs hk => hx (hK _ hk) s hs hk

theorem get_bind {f : Resolving → Resolve β}
    (h : ∀ s, I s.tables → K s.tables → Keeps I (· = s.tables) R (f s)) :
    Keeps I K R (get >>= f) := by
  intro s hs hk
  rw [Computation.get_bind_apply]
  exact h s hs hk s hs rfl

theorem lift_bind {e : Except ResolutionFailure α}
    (h : ∀ a, e = .ok a → Keeps I K R (f a)) : Keeps I K R (Resolve.lift e >>= f) := by
  cases e with
  | ok a => exact h a rfl
  | error e => exact .throw (.resolution e)

theorem remember {collectionId : String} {t : SimpleTable} {P : ResolvedTables → Prop}
    (h : ∀ tables, I tables → K tables →
      I (remembering collectionId t tables) ∧ P (remembering collectionId t tables)) :
    Keeps I K (fun tables _ => P tables) (Resolve.remember collectionId t) :=
  fun _ hs hk => ⟨(h _ hs hk).1, List.suffix_cons _ _, (h _ hs hk).2⟩

theorem log (level : LogLevel) (message : String) :
    Keeps I K (fun tables _ => K tables) (Resolve.log level message) :=
  fun _ hs hk => ⟨hs, List.suffix_refl _, hk⟩

end Resolve.Keeps

/-- What a registry keeps while it resolves tables: a statement `I` on what is remembered, and `P` on
what becomes of the tables of a collection. Those that it finds are as stated by `A`. Those that it
begins with are as stated by `K`, and so as stated by `A` if they are not remembered. -/
structure Registry.Tracks (r : Registry) (I : ResolvedTables → Prop)
    (A : String → SimpleTable → Prop) (K : ResolvedTables → String → SimpleTable → Prop)
    (P : ResolvedTables → String → SimpleTable → SimpleTable → Prop) : Prop where
  found : ∀ {ref collectionId owner t},
    r.find ref collectionId = .ok (some ⟨.table (.simple t), owner⟩) → A owner t
  start : ∀ {tables collectionId t}, A collectionId t → K tables collectionId t
  known : ∀ {tables collectionId t resolved}, I tables → K tables collectionId t →
    tables.lookup (collectionId, t.id) = some resolved → P tables collectionId t resolved
  anew : ∀ {tables collectionId t}, K tables collectionId t →
    tables.lookup (collectionId, t.id) = none → A collectionId t
  own : ∀ {tables collectionId t}, I tables → A collectionId t →
    (t.parent.getD "").isEmpty = true →
    I (remembering collectionId t.identified tables) ∧
      P (remembering collectionId t.identified tables) collectionId t t.identified
  laid : ∀ {tables collectionId t owner parent inherited}, I tables → A collectionId t →
    (t.parent.getD "").isEmpty = false →
    r.find (t.parent.getD "") collectionId = .ok (some ⟨.table (.simple parent), owner⟩) →
    P tables owner parent inherited →
    I (remembering collectionId (t.laidOver inherited) tables) ∧
      P (remembering collectionId (t.laidOver inherited) tables) collectionId t
        (t.laidOver inherited)

namespace Registry

variable {M : Material} {r : Registry} {config : Config}

/-! ## Limits -/

theorem le_foldl_max {limits : List Nat} {start n : Nat} (h : n ≤ start ∨ n ∈ limits) :
    n ≤ limits.foldl max start := by
  induction limits generalizing start with
  | nil => exact h.resolve_right List.not_mem_nil
  | cons limit rest ih =>
      rw [List.foldl_cons]
      refine ih ?_
      rcases h with h | h
      · exact .inl (Nat.le_trans h (Nat.le_max_left _ _))
      · rcases List.mem_cons.1 h with rfl | h
        · exact .inl (Nat.le_max_right _ _)
        · exact .inr h

theorem extensionLimit_le (r : Registry) (config : Config) (collectionId : String) :
    r.extensionLimit config collectionId ≤ r.greatestLimit config := by
  unfold greatestLimit
  refine le_foldl_max ?_
  cases hc : r.get? collectionId with
  | none =>
      left
      simp only [extensionLimit, hc, Nat.le_refl]
  | some c =>
      right
      have hid : c.id = collectionId := by simpa using List.find?_some hc
      exact List.mem_map.2 ⟨c, List.mem_of_find?_eq_some hc, by rw [hid]⟩

/-! ## Inheritance -/

section

variable {I : ResolvedTables → Prop} {A : String → SimpleTable → Prop}
  {K : ResolvedTables → String → SimpleTable → Prop}
  {P : ResolvedTables → String → SimpleTable → SimpleTable → Prop} (hr : r.Tracks I A K P)
include hr

/-- A table that `depth` others extend is resolved with fuel for as many levels as are left. -/
theorem inheritFrom_keeps {fuel depth : Nat} {t : SimpleTable} {collectionId : String}
    {chain : List String} (hdepth : depth ≤ r.greatestLimit config)
    (hfuel : r.greatestLimit config < fuel + depth) :
    Resolve.Keeps I (K · collectionId t) (P · collectionId t)
      (r.inheritFrom config fuel t collectionId depth chain) := by
  induction fuel generalizing t collectionId depth chain with
  | zero => omega
  | succ fuel ih =>
      rw [inheritFrom]
      refine .get_bind fun s hs hk => ?_
      split
      · rename_i resolved hlookup
        refine .pure ?_
        rintro _ - rfl
        exact hr.known hs hk hlookup
      · rename_i hlookup
        have ht := hr.anew hk hlookup
        dsimp only
        split
        · rename_i hnone
          exact .bind (.remember fun _ htables _ => hr.own htables ht hnone) fun _ =>
            .pure fun _ _ h => h
        · rename_i hsome
          split
          · refine .throw ⟨_, rfl, ?_⟩
            rintro d ⟨⟩
            rfl
          · rename_i hlimit
            have hnext : depth + 1 ≤ r.greatestLimit config :=
              Nat.lt_of_not_le fun h => hlimit (Nat.le_trans (r.extensionLimit_le config _) h)
            refine .lift_bind fun found hfound => ?_
            split
            · have hparent := hr.found hfound
              refine .bind ((ih hnext (by omega)).of_imp fun _ _ => hr.start hparent)
                fun resolved => ?_
              refine .bind (.remember (P := fun tables => P tables collectionId t _)
                fun _ htables hresolved => hr.laid htables ht (eq_false_of_ne_true hsome) hfound
                  hresolved) fun _ => ?_
              exact .bind (.log _ _) fun _ => .pure fun _ _ h => h
            · exact .throw (.resolution _)
            · exact .throw (.resolution _)

theorem inherit_keeps (t : SimpleTable) (collectionId : String) :
    Resolve.Keeps I (K · collectionId t) (P · collectionId t) (r.inherit config t collectionId) :=
  inheritFrom_keeps hr (Nat.zero_le _) (by omega)

/-- So do the members of a collection table, which are as stated by `Q`. -/
theorem members_keeps {Q : String → SimpleTable → Prop}
    (hQ : ∀ {tables collectionId t resolved}, P tables collectionId t resolved →
      Q collectionId resolved)
    (t : CollectionTable) (collectionId : String) (members : List String) :
    Resolve.Keeps I (fun _ => True) (fun _ resolved => ∀ m ∈ resolved, Q m.2 m.1)
      (r.members config t collectionId members) := by
  induction members with
  | nil => exact .pure fun _ _ _ _ hm => absurd hm List.not_mem_nil
  | cons member rest ih =>
      rw [Registry.members]
      refine .lift_bind fun found hfound => ?_
      have htarget := r.find_of_resolve hfound
      obtain ⟨definition, owner⟩ := found
      dsimp only
      split
      · rename_i table
        have htable := hr.found htarget
        refine .bind ((inherit_keeps hr table owner).of_imp fun _ _ => hr.start htable)
          fun resolved => .assuming (fun _ => hQ) fun hmade => ?_
        refine .bind (ih.of_imp fun _ _ => trivial) fun more => .pure fun _ _ hmore => ?_
        exact List.forall_mem_cons.2 ⟨hmade, hmore⟩
      · exact .throw (.resolution _)

end

/-! ## Tables of a material -/

theorem tracks_material (hr : M.Registry r) :
    r.Tracks M.Resolved (fun _ t => M.Simple t) (fun _ _ t => M.Simple t)
      fun _ _ _ resolved => M.Simple resolved where
  found h := hr.target_of_find h
  start h := h
  known hs _ hlookup := hs _ (mem_of_lookup hlookup)
  anew h _ := h
  own hs ht _ := ⟨List.forall_mem_cons.2 ⟨ht.identified, hs⟩, ht.identified⟩
  laid hs ht _ _ hparent :=
    ⟨List.forall_mem_cons.2 ⟨ht.laidOver hparent, hs⟩, ht.laidOver hparent⟩

/-- What a registry upholds: it is made of the material; the tables it holds are as stated by `K`,
and so is what inheritance makes of such tables, as long as what is remembered is as stated
by `I`. -/
structure Upholds (r : Registry) (M : Material) (I : ResolvedTables → Prop)
    (K : ResolvedTables → String → SimpleTable → Prop) : Prop where
  made : M.Registry r
  held : ∀ {tables collectionId t}, r.Holds collectionId t → K tables collectionId t
  grows : ∀ {tables later collectionId t}, tables <:+ later → K tables collectionId t →
    K later collectionId t
  inherit : ∀ config collectionId t, M.Simple t →
    Resolve.Keeps I (K · collectionId t)
      (fun tables resolved => M.Simple resolved ∧ K tables collectionId resolved)
      (r.inherit config t collectionId)

theorem upholds_material (hr : M.Registry r) : r.Upholds M M.Resolved fun _ _ _ => True where
  made := hr
  held _ := trivial
  grows _ _ := trivial
  inherit _ collectionId t ht :=
    ((inherit_keeps (tracks_material hr) t collectionId).of_imp fun _ _ => ht).mono
      fun _ _ h => ⟨h, trivial⟩

end Registry

end RandomTables
