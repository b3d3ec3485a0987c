-- SUMMARY: Draws give what their tables list, and fail only as a simulation admits.
import RandomTables.Proofs.Evaluation.Simulation

/-!
# Draws in simulations

Whatever the source of random numbers is, a draw takes one of the listed entries or sources. Beside
the errors of the language it can fail on a range that is too wide for its size to be a weight. From
tables in place of each other the same entry is drawn.
-/
namespace RandomTables

/-- What was drawn, without the numbers behind the draw. -/
def Selection.candidate (s : Selection) : Candidate :=
  ⟨s.entry, s.key, s.tableId, s.collectionId⟩

/-- A candidate is an entry of a table of a collection. -/
structure Candidate.From (c : Candidate) (t : SimpleTable) (collectionId : String) : Prop where
  entry : c.entry ∈ t.entries
  tableId : c.tableId = t.id
  collectionId : c.collectionId = collectionId

namespace Simulation

variable {S : Simulation} {α β : Type} {P : α → Prop} {Q : β → Prop}

namespace Draws

theorem pure {a : α} (h : P a) : S.Draws P (pure a) := fun _ => .ok h

theorem throw {f : Failure} (h : S.admits f) : S.Draws P (throw f : Draw α) :=
  fun _ => .error h

theorem bind {x : Draw α} {f : α → Draw β} (hx : S.Draws P x) (hf : ∀ a, P a → S.Draws Q (f a)) :
    S.Draws Q (x >>= f) := by
  intro source
  rw [Computation.bind_apply]
  have h := hx source
  rcases hrun : x source with ⟨e | a, source'⟩ <;> simp only [hrun] at h
  · exact .error (h.failure e rfl)
  · exact hf a (h.value a rfl) source'

theorem lift {e : Except Failure α} (h : S.Settled P e) : S.Draws P (Draw.lift e) := by
  cases e with
  | ok a => exact .pure (h.value a rfl)
  | error f => exact .throw (h.failure f rfl)

theorem ofSource (f : Source → α × Source) : S.Draws (fun _ => True) (Draw.ofSource f) :=
  fun _ => .ok trivial

end Draws

/-! ## Weighted items -/

theorem reach_mem {W : Type} [Measure W] {mark sum : W} {last : α × W} {items all : List (α × W)}
    (hlast : last ∈ all) (hitems : ∀ item ∈ items, item ∈ all) :
    Measure.reach mark last sum items ∈ all := by
  induction items generalizing last sum with
  | nil => exact hlast
  | cons item rest ih =>
      obtain ⟨a, w⟩ := item
      rw [List.forall_mem_cons] at hitems
      rw [Measure.reach]
      split
      · split
        · exact hitems.1
        · exact ih hitems.1 hitems.2
      · exact ih hlast hitems.2

namespace Draws

theorem pick (hS : S.Lawful) (items : List (α × Weight)) :
    S.Draws (fun item => item ∈ items) (Measure.pick items) := by
  unfold Measure.pick
  split
  · exact .throw (hS.ordinary _ (.selection _))
  · dsimp only
    split
    · refine .bind (.ofSource Source.fraction) fun fraction _ => .pure ?_
      exact reach_mem List.mem_cons_self fun _ h => h
    · exact .throw (hS.ordinary _ (.selection _))

end Draws

/-! ## Entries -/

/-- The points of an entry of a material table are a weight or an admitted failure. -/
theorem settled_points (hS : S.Lawful) {t : SimpleTable} (ht : S.material.Simple t) {e : Entry}
    (he : e ∈ t.entries) : S.Settled (fun _ => True) e.points := by
  refine .of_admitted fun f hf => ?_
  unfold Entry.points at hf
  split at hf
  · rename_i r hr
    have hspans : t.Spans r := .inl (List.mem_filterMap.2 ⟨e, he, hr⟩)
    exact hS.width t ht.made r hspans f hf
  · split at hf
    · cases hf
    · cases hf

theorem Settled.weigh {candidates : List Candidate}
    (h : ∀ c ∈ candidates, S.Settled (fun _ => True) c.entry.points) :
    S.Settled (fun weighed => ∀ p ∈ weighed, p.1 ∈ candidates) (Candidate.weigh candidates) := by
  induction candidates with
  | nil => exact .ok fun p hp => absurd hp List.not_mem_nil
  | cons c rest ih =>
      rw [List.forall_mem_cons] at h
      apply Settled.bind h.1
      intro w _
      apply Settled.bind (ih h.2)
      intro more hmore
      refine .ok (List.forall_mem_cons.2 ⟨List.mem_cons_self, fun p hp => ?_⟩)
      exact List.mem_cons_of_mem _ (hmore p hp)

namespace Draws

theorem candidate (hS : S.Lawful) {P : Candidate → Prop} {pool : List (Candidate × Weight)}
    (h : ∀ p ∈ pool, P p.1) : S.Draws (fun s => P s.candidate) (Candidate.draw pool) :=
  .bind (.pick hS pool) fun item hitem => .pure (h item hitem)

theorem drawByRoll (hS : S.Lawful) {t : SimpleTable} (ht : S.material.Simple t)
    (collectionId : String) :
    S.Draws (fun s => s.candidate.From t collectionId) (t.drawByRoll collectionId) := by
  unfold SimpleTable.drawByRoll
  split
  · exact .throw (hS.ordinary _ (.selection _))
  · rename_i all hall
    apply Draws.bind (.ofSource _)
    intro roll _
    split
    · exact .throw (hS.ordinary _ (.selection _))
    · rename_i entry hentry
      have hmem : entry ∈ t.entries := List.mem_of_find?_eq_some hentry
      apply Draws.bind (.lift (settled_points hS ht hmem))
      intro weight _
      have htotal := hS.width t ht.made all (.inr hall)
      exact .bind (.lift (.of_admitted htotal)) fun total _ => .pure ⟨hmem, rfl, rfl⟩

theorem simple (hS : S.Lawful) {t : SimpleTable} (ht : S.material.Simple t)
    (collectionId : String) (excluded : List String) :
    S.Draws (fun s => s.candidate.From t collectionId) (t.draw collectionId excluded) := by
  unfold SimpleTable.draw
  split
  · exact .throw (hS.ordinary _ (.selection _))
  · split
    · exact .drawByRoll hS ht collectionId
    · have hcandidate : ∀ c ∈ t.candidates collectionId excluded, c.From t collectionId := by
        intro c hc
        obtain ⟨e, he, rfl⟩ := List.mem_map.1 hc
        exact ⟨(List.mem_filter.1 he).1, rfl, rfl⟩
      apply Draws.bind (.lift (.weigh fun c hc => settled_points hS ht (hcandidate c hc).entry))
      intro weighed hweighed
      split
      · exact .throw (hS.ordinary _ (.selection _))
      · refine .candidate (P := fun c => c.From t collectionId) hS fun p hp => ?_
        exact hcandidate _ (hweighed p (List.mem_filter.1 hp).1)

theorem pooled (hS : S.Lawful) {members : List (SimpleTable × String)}
    (hmembers : ∀ m ∈ members, S.material.Simple m.1) (owner : String) (excluded : List String) :
    S.Draws (fun s => ∃ m ∈ members, s.candidate.From m.1 m.2)
      (drawPooled members owner excluded) := by
  unfold drawPooled
  split
  · exact .throw (hS.ordinary _ (.selection _))
  · have hcandidate : ∀ c ∈ poolOf members excluded, ∃ m ∈ members, c.From m.1 m.2 := by
      intro c hc
      obtain ⟨entries, hentries, hc⟩ := List.mem_flatten.1 (List.mem_filter.1 hc).1
      obtain ⟨m, hm, rfl⟩ := List.mem_map.1 hentries
      obtain ⟨e, he, rfl⟩ := List.mem_map.1 hc
      exact ⟨m, hm, he, rfl, rfl⟩
    refine .bind (.lift (.weigh fun c hc => ?_)) fun weighed hweighed => ?_
    · obtain ⟨m, hm, hfrom⟩ := hcandidate c hc
      exact settled_points hS (hmembers m hm) hfrom.entry
    · refine .candidate (P := fun c => ∃ m ∈ members, c.From m.1 m.2) hS fun p hp => ?_
      exact hcandidate _ (hweighed p hp)

theorem composite (hS : S.Lawful) (t : CompositeTable) : S.Draws (fun _ => True) t.draw := by
  unfold CompositeTable.draw
  split
  · exact .throw (hS.ordinary _ (.selection _))
  · exact .bind (.pick hS _) fun item _ => .pure trivial

end Draws

/-! ## Tables in place of each other -/

/-- Members of a pool in place of each other. -/
inductive Members (S : Simulation) : SimpleTable × String → SimpleTable × String → Prop where
  | intro {t t' : SimpleTable} {collectionId : String} (h : S.Alike collectionId t t') :
    Members S (t, collectionId) (t', collectionId)

/-- Selections of the same entry. -/
structure Selected (S : Simulation) (s s' : Selection) : Prop where
  made : S.material.Entry s.entry
  bare : s'.bare = s.bare

namespace Joins

variable {w : Nesting}

theorem selection {P : Selection → Prop} {x y : Draw Selection} (hx : S.Draws P x)
    (hbare : Selection.bare <$> y = Selection.bare <$> x) :
    S.Joins w (fun s s' => P s ∧ s'.bare = s.bare) (Eval.draw x) (Eval.draw y) := by
  refine .draw fun source => ?_
  have hsame := congrFun hbare source
  rw [Computation.map_apply, Computation.map_apply, Prod.mk.injEq] at hsame
  obtain ⟨hresult, hsource⟩ := hsame
  refine ⟨?_, hsource⟩
  have hsettled := hx source
  generalize (x source).1 = r at hresult hsettled
  generalize (y source).1 = r' at hresult
  cases r with
  | error f =>
      cases r' with
      | error f' =>
          cases hresult
          exact .error (hsettled.failure f rfl)
      | ok s' => cases hresult
  | ok s =>
      cases r' with
      | error f' => cases hresult
      | ok s' => exact .ok ⟨hsettled.value s rfl, Except.ok.inj hresult⟩

theorem drawSimple (hS : S.Lawful) {collectionId : String} {t t' : SimpleTable}
    (ht : S.Alike collectionId t t') (excluded : List String) :
    S.Joins w (fun s s' => S.Selected s s' ∧ s.collectionId = collectionId)
      (Eval.draw (t.draw collectionId excluded)) (Eval.draw (t'.draw collectionId excluded)) := by
  have hbare : Selection.bare <$> t'.draw collectionId excluded =
      Selection.bare <$> t.draw collectionId excluded := by
    rw [← SimpleTable.draw_bare, ← SimpleTable.draw_bare, ht.bare]
  refine (Joins.selection (.simple hS ht.made collectionId excluded) hbare).mono ?_
  rintro s s' ⟨hfrom, hsame⟩
  exact ⟨⟨ht.made.entries _ hfrom.entry, hsame⟩, hfrom.collectionId⟩

theorem drawPooled (hS : S.Lawful) {members members' : List (SimpleTable × String)}
    (hmembers : List.Forall₂ S.Members members members') (owner : String)
    (excluded : List String) :
    S.Joins w S.Selected (Eval.draw (RandomTables.drawPooled members owner excluded))
      (Eval.draw (RandomTables.drawPooled members' owner excluded)) := by
  have hmade : ∀ m ∈ members, S.material.Simple m.1 := by
    induction hmembers with
    | nil => exact fun m hm => absurd hm List.not_mem_nil
    | cons hm _ ih =>
        cases hm with
        | intro h => exact List.forall_mem_cons.2 ⟨h.made, ih⟩
  have hsame : bareMembers members' = bareMembers members := by
    clear hmade
    induction hmembers with
    | nil => rfl
    | cons hm _ ih =>
        cases hm with
        | intro h =>
            simp only [bareMembers, List.map_cons, Prod.map_apply, h.bare] at ih ⊢
            rw [ih]
  have hbare : Selection.bare <$> RandomTables.drawPooled members' owner excluded =
      Selection.bare <$> RandomTables.drawPooled members owner excluded := by
    rw [← drawPooled_bare, ← drawPooled_bare, hsame]
  refine (Joins.selection (.pooled hS hmade owner excluded) hbare).mono ?_
  rintro s s' ⟨⟨m, hm, hfrom⟩, hsame⟩
  exact ⟨(hmade m hm).entries _ hfrom.entry, hsame⟩

end Joins

end Simulation

end RandomTables
