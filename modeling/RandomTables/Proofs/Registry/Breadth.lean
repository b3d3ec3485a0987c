-- SUMMARY: A search in breadth is one pass over a queue, in which what lies nearer comes earlier.
import RandomTables.Proofs.Registry.Reaching

/-!
# Searching in breadth

In a search in breadth new imports wait behind those that remain, so that it comes to one pass over
the queue of all imports that are ever met. The imports in the queue are no farther apart than one
step, the nearer ones first. So what is reached is reached by a shortest trail, and what is reached
before something else is not farther away.
-/
namespace RandomTables

namespace Link

/-- The id of what an import leads to. -/
def targetId? (leads : Leading) (l : Link) : Option String := (leads l.owner l.item).map (·.id)

theorem length_fullPath (l : Link) : l.fullPath.length = l.path.length + 1 := by
  rw [fullPath, List.length_append, List.length_singleton]

theorem path_of_mem {l : Link} {path : List String} {c : Collection}
    (h : l ∈ ofCollection path c) : l.path = path := by
  obtain ⟨_, -, rfl⟩ := List.mem_map.1 h
  rfl

end Link

namespace Registry

/-- The order of a search in breadth. -/
abbrev behind (new rest : List Link) : List Link := rest ++ new

/-- The order of a single pass, in which nothing new is followed. -/
abbrev leftAside (_ rest : List Link) : List Link := rest

variable {leads : Leading} {c d : Collection} {visited : List String} {links : List Link}
  {found : List (List String × Collection)}

theorem behind_perm (new rest : List Link) : (behind new rest).Perm (new ++ rest) :=
  List.perm_append_comm

/-! ## One pass over the queue -/

namespace Follows

/-- The imports that a search in breadth ever meets can be laid out in advance. -/
theorem onePass (h : Follows leads behind visited links found) :
    Follows leads leftAside visited (links ++ found.flatMap fun p => Link.ofCollection p.1 p.2)
      found := by
  induction h with
  | done => exact .done
  | passed hold _ ih => exact .passed hold ih
  | reached hleads hnew _ ih =>
      refine .reached hleads hnew ?_
      rw [behind, List.append_assoc] at ih
      exact ih

/-- A pass reaches every target that was not visited, each where it is met first. -/
theorem ids_of_pass (h : Follows leads leftAside visited links found) :
    found.map (·.2.id) =
      ((links.filterMap (Link.targetId? leads)).filter fun id => id ∉ visited).eraseDups := by
  induction h with
  | done => rfl
  | @passed visited link rest found hold _ ih =>
      rw [ih, List.filterMap_cons, Link.targetId?]
      cases hleads : leads link.owner link.item with
      | none => rfl
      | some d =>
          have hd : d.id ∈ visited := hold d hleads
          simp [hd]
  | @reached visited link rest found d hleads hnew _ ih =>
      have htarget : Link.targetId? leads link = some d.id := by rw [Link.targetId?, hleads]; rfl
      have hfilter : (fun id => decide (id ∉ d.id :: visited)) =
          fun id => !(id == d.id) && decide (id ∉ visited) := by
        funext id
        by_cases hid : id = d.id <;> simp [hid]
      rw [List.filterMap_cons, htarget]
      dsimp only
      rw [List.filter_cons, if_pos (decide_eq_true hnew), List.eraseDups_cons, List.filter_filter,
        List.map_cons, ih, hfilter]

/-- A pass in which nearer imports come first reaches what they lead to without a detour. -/
theorem near_of_pass (h : Follows leads leftAside visited links found)
    (hsorted : links.Pairwise fun a b => a.path.length ≤ b.path.length) {l : Link} (hl : l ∈ links)
    (hleads : leads l.owner l.item = some d) :
    d.id ∈ visited ∨ ∃ p ∈ found, p.2.id = d.id ∧ p.1.length ≤ l.path.length + 1 := by
  induction h with
  | done => cases hl
  | passed hold _ ih =>
      rcases List.mem_cons.1 hl with rfl | hrest
      · exact .inl (hold d hleads)
      · exact ih hsorted.of_cons hrest
  | @reached visited link rest found e hlink _ _ ih =>
      have hlength := link.length_fullPath
      rcases List.mem_cons.1 hl with rfl | hrest
      · obtain rfl := Option.some.inj (hlink.symm.trans hleads)
        exact .inr ⟨_, List.mem_cons_self, rfl, Nat.le_of_eq hlength⟩
      · rcases ih hsorted.of_cons hrest with hvisited | ⟨p, hp, hnear⟩
        · rcases List.mem_cons.1 hvisited with hid | hbefore
          · have hfirst := List.rel_of_pairwise_cons hsorted hrest
            exact .inr ⟨_, List.mem_cons_self, hid.symm, by dsimp only; omega⟩
          · exact .inl hbefore
        · exact .inr ⟨p, List.mem_cons_of_mem _ hp, hnear⟩

end Follows

/-! ## The order of the queue -/

/-- Imports that wait in order: none is nearer than those before it, or more than a step farther. -/
def Queued (links : List Link) : Prop :=
  links.Pairwise fun a b => a.path.length ≤ b.path.length ∧ b.path.length ≤ a.path.length + 1

theorem queued_ofCollection (path : List String) (c : Collection) :
    Queued (Link.ofCollection path c) := by
  refine List.pairwise_of_forall_mem_list fun a ha b hb => ?_
  rw [Link.path_of_mem ha, Link.path_of_mem hb]
  exact ⟨Nat.le_refl _, Nat.le_succ _⟩

/-- The imports of what the first import leads to wait behind the others. -/
theorem Queued.behind {link : Link} {rest : List Link} (h : Queued (link :: rest)) :
    Queued (behind (Link.ofCollection link.fullPath c) rest) := by
  refine List.pairwise_append.2 ⟨List.Pairwise.of_cons h, queued_ofCollection _ _, ?_⟩
  intro a ha b hb
  have hfirst := List.rel_of_pairwise_cons h ha
  rw [Link.path_of_mem hb, Link.length_fullPath]
  omega

namespace Follows

/-- Nothing is reached in fewer steps than the nearest import is away. -/
theorem farther (h : Follows leads Registry.behind visited links found) {n : Nat}
    (hlinks : ∀ l ∈ links, n ≤ l.path.length) : ∀ p ∈ found, n < p.1.length := by
  induction h with
  | done => exact fun _ h => absurd h List.not_mem_nil
  | passed _ _ ih => exact ih (List.forall_mem_cons.1 hlinks).2
  | @reached visited link rest found d _ _ _ ih =>
      obtain ⟨hlink, hrest⟩ := List.forall_mem_cons.1 hlinks
      have hlength := link.length_fullPath
      refine List.forall_mem_cons.2 ⟨by dsimp only; omega, ih fun l hl => ?_⟩
      rcases List.mem_append.1 hl with hold | hnew
      · exact hrest l hold
      · rw [Link.path_of_mem hnew]
        omega

/-- What is reached earlier is reached in no more steps. -/
theorem sorted (h : Follows leads Registry.behind visited links found) (hlinks : Queued links) :
    found.Pairwise fun p q => p.1.length ≤ q.1.length := by
  induction h with
  | done => exact .nil
  | passed _ _ ih => exact ih (List.Pairwise.of_cons hlinks)
  | @reached visited link rest found d _ _ h ih =>
      have hqueued : Queued (Registry.behind (Link.ofCollection link.fullPath d) rest) :=
        hlinks.behind
      have hlength := link.length_fullPath
      have hfarther : ∀ p ∈ found, link.path.length < p.1.length := by
        refine h.farther fun l hl => ?_
        rcases List.mem_append.1 hl with hold | hnew
        · exact (List.rel_of_pairwise_cons hlinks hold).1
        · rw [Link.path_of_mem hnew]
          omega
      exact List.pairwise_cons.2
        ⟨fun p hp => by have := hfarther p hp; dsimp only; omega, ih hqueued⟩

end Follows

/-! ## What a collection reaches in breadth -/

section

variable {r : Registry} (hloaded : ∀ c i d, leads c i = some d → d ∈ r.collections)
include hloaded

/-- What a collection reaches in breadth comes from one pass over its own imports and those of what it
reaches. -/
theorem pass_reachedFrom (c : Collection) :
    Follows leads leftAside [c.id]
      ((([], c) :: r.reachedFrom (fun l => leads l.owner l.item) behind c).flatMap
        fun p => Link.ofCollection p.1 p.2)
      (r.reachedFrom (fun l => leads l.owner l.item) behind c) := by
  rw [List.flatMap_cons]
  exact (follows_reachedFrom hloaded behind_perm c).onePass

/-- The ids of a collection and of what it reaches: each where an import of the earlier ones first
leads there. -/
theorem ids_reachedFrom (c : Collection) :
    c.id :: (r.reachedFrom (fun l => leads l.owner l.item) behind c).map (·.2.id) =
      (c.id :: (([], c) :: r.reachedFrom (fun l => leads l.owner l.item) behind c).flatMap
        fun p => (Link.ofCollection p.1 p.2).filterMap (Link.targetId? leads)).eraseDups := by
  have hpass := (pass_reachedFrom hloaded c).ids_of_pass
  have hfilter : (fun id => decide (id ∉ [c.id])) = fun id => !(id == c.id) := by
    funext id
    by_cases hid : id = c.id <;> simp [hid]
  rw [List.eraseDups_cons, hpass, hfilter, List.filterMap_flatMap]

/-- What is reached earlier is reached in no more steps. -/
theorem sorted_reachedFrom (c : Collection) :
    (r.reachedFrom (fun l => leads l.owner l.item) behind c).Pairwise
      fun p q => p.1.length ≤ q.1.length :=
  (follows_reachedFrom hloaded behind_perm c).sorted (queued_ofCollection _ _)

variable (hr : r.Distinct) (hc : c ∈ r.collections)
include hr hc

/-- Whatever a trail leads to is reached in no more steps. -/
theorem nearest_of_trail {path : List String}
    (h : Trail leads c path d) :
    ∃ p ∈ ([], c) :: r.reachedFrom (fun l => leads l.owner l.item) behind c,
      p.2 = d ∧ p.1.length ≤ path.length := by
  have hwhole : (([], c) :: r.reachedFrom (fun l => leads l.owner l.item) behind c).Pairwise
      fun p q => p.1.length ≤ q.1.length :=
    List.pairwise_cons.2 ⟨fun _ _ => Nat.zero_le _, sorted_reachedFrom hloaded c⟩
  have hsorted : ((([], c) :: r.reachedFrom (fun l => leads l.owner l.item) behind c).flatMap
      fun p => Link.ofCollection p.1 p.2).Pairwise fun a b => a.path.length ≤ b.path.length := by
    refine List.pairwise_flatMap.2 ⟨fun p _ => ?_, hwhole.imp fun hle a ha b hb => ?_⟩
    · exact (queued_ofCollection p.1 p.2).imp And.left
    · rwa [Link.path_of_mem ha, Link.path_of_mem hb]
  rw [← Nat.zero_add path.length]
  refine h.carry (n := 0) (P := fun n e =>
    ∃ p ∈ ([], c) :: r.reachedFrom (fun l => leads l.owner l.item) behind c,
      p.2 = e ∧ p.1.length ≤ n) ?_ ⟨_, List.mem_cons_self, rfl, Nat.le_refl _⟩
  rintro n _ i next ⟨p, hp, rfl, hn⟩ hi hleads
  have hnext := hloaded _ _ _ hleads
  have hlink : ⟨p.2, p.1, i⟩ ∈ Link.ofCollection p.1 p.2 := List.mem_map_of_mem hi
  rcases (pass_reachedFrom hloaded c).near_of_pass hsorted (l := ⟨p.2, p.1, i⟩)
    (List.mem_flatMap.2 ⟨p, hp, hlink⟩) hleads with hstart | ⟨q, hq, hid, hnear⟩
  · exact ⟨_, List.mem_cons_self,
      (List.inj_on_of_nodup_map hr hnext hc (List.mem_singleton.1 hstart)).symm, Nat.zero_le _⟩
  · have hreached := (trail_of_reachedFrom hloaded behind_perm hq).mem hloaded hc
    exact ⟨q, List.mem_cons_of_mem _ hq, List.inj_on_of_nodup_map hr hreached hnext hid,
      Nat.le_trans hnear (Nat.succ_le_succ hn)⟩

/-- No trail to what is reached is shorter than the one that is given with it. -/
theorem length_le_of_trail {p : List String × Collection}
    (hp : p ∈ r.reachedFrom (fun l => leads l.owner l.item) behind c) {path : List String}
    (h : Trail leads c path p.2) : p.1.length ≤ path.length := by
  obtain ⟨q, hq, hsame, hlength⟩ := nearest_of_trail hloaded hr hc h
  have hnodup : ((([], c) :: r.reachedFrom (fun l => leads l.owner l.item) behind c).map
      (·.2.id)).Nodup := nodup_reachedFrom hloaded behind_perm c
  obtain rfl := List.inj_on_of_nodup_map hnodup hq (List.mem_cons_of_mem _ hp)
    (congrArg Collection.id hsame)
  exact hlength

end

end Registry

end RandomTables
