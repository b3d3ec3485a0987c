-- SUMMARY: Following imports reaches each collection that they lead to once, in whatever order they are followed.
import Mathlib.Data.List.Nodup
import RandomTables.Proofs.Registry.Inheriting
import RandomTables.Registry.Reach

/-!
# What imports reach

Imports lead from collection to collection, and a trail is a chain of them with the aliases that it
passes. Following imports keeps a list of those that remain and the ids of what was visited. However
new imports join those that remain, what is reached lies at the ends of trails, nothing is reached
twice, and every import of what was reached leads to something that was visited.
-/
namespace RandomTables

/-- Where the imports of collections lead. -/
abbrev Leading := Collection → Import → Option Collection

variable {leads : Leading} {c d : Collection}

/-- The aliases of imports that lead from one collection to another. -/
inductive Trail (leads : Leading) : Collection → List String → Collection → Prop where
  | nil {c : Collection} : Trail leads c [] c
  | cons {c next d : Collection} {i : Import} {path : List String} (hi : i ∈ c.document.imports)
    (hleads : leads c i = some next) (h : Trail leads next path d) :
    Trail leads c (i.importAlias :: path) d

namespace Trail

variable {path : List String}

/-- A trail goes on by an import of the collection at its end. -/
theorem snoc {e : Collection} (h : Trail leads c path d) {i : Import} (hi : i ∈ d.document.imports)
    (hleads : leads d i = some e) : Trail leads c (path ++ [i.importAlias]) e := by
  induction h with
  | nil => exact .cons hi hleads .nil
  | cons hfirst hnext _ ih => exact .cons hfirst hnext (ih hi hleads)

/-- What every import carries on with one more step, a trail carries to its end. -/
theorem carry {P : Nat → Collection → Prop}
    (hstep : ∀ n e i next, P n e → i ∈ e.document.imports → leads e i = some next →
      P (n + 1) next) (h : Trail leads c path d) {n : Nat} (hc : P n c) :
    P (n + path.length) d := by
  induction h generalizing n with
  | nil => exact hc
  | cons hi hleads _ ih =>
      rw [List.length_cons, Nat.add_comm _ 1, ← Nat.add_assoc]
      exact ih (hstep _ _ _ _ hc hi hleads)

section

/-! Where imports with the same alias lead to the same collection, aliases decide where a trail goes. -/

variable (halias : ∀ c i j, i.importAlias = j.importAlias → leads c i = leads c j)
include halias

theorem of_cons {next : Collection} {i : Import} (hleads : leads c i = some next)
    (h : Trail leads c (i.importAlias :: path) d) : Trail leads next path d := by
  generalize hpath : i.importAlias :: path = whole at h
  cases h with
  | nil => cases hpath
  | cons _ hleads' h' =>
      obtain ⟨hsame, rfl⟩ := List.cons.inj hpath
      rw [halias c _ _ hsame, hleads'] at hleads
      cases hleads
      exact h'

theorem unique {e : Collection} (h : Trail leads c path d) (h' : Trail leads c path e) : d = e := by
  induction h generalizing e with
  | nil =>
      cases h'
      rfl
  | cons _ hleads _ ih => exact ih (h'.of_cons halias hleads)

end

/-- A trail from a loaded collection ends in one. -/
theorem mem {r : Registry} (hloaded : ∀ c i d, leads c i = some d → d ∈ r.collections)
    (h : Trail leads c path d) (hc : c ∈ r.collections) : d ∈ r.collections := by
  exact h.carry (n := 0) (P := fun _ e => e ∈ r.collections)
    (fun _ _ _ _ _ _ hleads => hloaded _ _ _ hleads) hc

end Trail

/-- An import that belongs to the collection to which its path leads. -/
def Link.Begins (leads : Leading) (c : Collection) (l : Link) : Prop :=
  Trail leads c l.path l.owner ∧ l.item ∈ l.owner.document.imports

theorem Trail.begins {path : List String} (h : Trail leads c path d) {l : Link}
    (hl : l ∈ Link.ofCollection path d) : l.Begins leads c := by
  obtain ⟨i, hi, rfl⟩ := List.mem_map.1 hl
  exact ⟨h, hi⟩

namespace Registry

/-! ## Following imports -/

/-- How imports are followed, given how new ones join those that remain: an import that leads nowhere
or to something visited is passed by, and any other one reaches a collection. -/
inductive Follows (leads : Leading) (join : List Link → List Link → List Link) :
    List String → List Link → List (List String × Collection) → Prop where
  | done {visited : List String} : Follows leads join visited [] []
  | passed {visited : List String} {link : Link} {rest : List Link}
    {found : List (List String × Collection)}
    (hold : ∀ c, leads link.owner link.item = some c → c.id ∈ visited)
    (h : Follows leads join visited rest found) : Follows leads join visited (link :: rest) found
  | reached {visited : List String} {link : Link} {rest : List Link}
    {found : List (List String × Collection)} {c : Collection}
    (hleads : leads link.owner link.item = some c) (hnew : c.id ∉ visited)
    (h : Follows leads join (c.id :: visited) (join (Link.ofCollection link.fullPath c) rest)
      found) :
    Follows leads join visited (link :: rest) ((link.fullPath, c) :: found)

theorem sumOf_le_sumOf {α : Type} {f g : α → Nat} (h : ∀ a, f a ≤ g a) (l : List α) :
    Number.sumOf f l ≤ Number.sumOf g l := by
  induction l with
  | nil => exact Nat.le_refl _
  | cons a rest ih => exact Nat.add_le_add (h a) ih

/-- How many imports the collections have that were not visited. -/
def importsBeyond (r : Registry) (visited : List String) : Nat :=
  Number.sumOf (fun c => if c.id ∈ visited then 0 else c.document.imports.length) r.collections

/-- Visiting a collection leaves its own imports no longer beyond. -/
theorem importsBeyond_cons {r : Registry} {visited : List String} (hc : c ∈ r.collections)
    (hnew : c.id ∉ visited) :
    r.importsBeyond (c.id :: visited) + c.document.imports.length ≤ r.importsBeyond visited := by
  rw [importsBeyond, importsBeyond]
  generalize r.collections = collections at hc
  let beyond (visited : List String) (d : Collection) : Nat :=
    if d.id ∈ visited then 0 else d.document.imports.length
  have hless : ∀ d, beyond (c.id :: visited) d ≤ beyond visited d := by
    intro d
    by_cases hd : d.id ∈ visited
    · simp [beyond, hd]
    · simp only [beyond, if_neg hd]
      split <;> omega
  have hfirst : beyond (c.id :: visited) c + c.document.imports.length = beyond visited c := by
    simp [beyond, hnew]
  change Number.sumOf (beyond (c.id :: visited)) collections + _ ≤
    Number.sumOf (beyond visited) collections
  induction collections with
  | nil => cases hc
  | cons d rest ih =>
      simp only [Number.sumOf]
      rcases List.mem_cons.1 hc with rfl | hrest
      · have hrest := sumOf_le_sumOf hless rest
        omega
      · have hrest := ih hrest
        have hd := hless d
        omega

theorem importsBeyond_le (r : Registry) (visited : List String) :
    r.importsBeyond visited ≤ r.importCount := by
  rw [importsBeyond, importCount]
  induction r.collections with
  | nil => exact Nat.le_refl _
  | cons c rest ih =>
      simp only [Number.sumOf]
      split <;> omega

section

variable {r : Registry} {join : List Link → List Link → List Link}
  (hloaded : ∀ c i d, leads c i = some d → d ∈ r.collections)
  (hjoin : ∀ new rest, (join new rest).Perm (new ++ rest))
include hloaded hjoin

/-- The fuel is enough for all imports that remain or lie beyond. -/
theorem follows_follow {fuel : Nat} {visited : List String} {links : List Link}
    (hfuel : r.importsBeyond visited + links.length < fuel) :
    Follows leads join visited links
      (follow (fun l => leads l.owner l.item) join fuel visited links) := by
  induction fuel generalizing visited links with
  | zero => omega
  | succ fuel ih =>
      cases links with
      | nil => exact .done
      | cons link rest =>
          rw [List.length_cons] at hfuel
          rw [follow]
          cases htarget : (leads link.owner link.item).filter fun c => !visited.contains c.id with
          | none =>
              refine .passed (fun c hleads => ?_) (ih (by omega))
              rw [hleads, Option.filter_eq_none_iff] at htarget
              simpa using htarget c rfl
          | some c =>
              obtain ⟨hleads, hnew⟩ := Option.filter_eq_some_iff.1 htarget
              have hnew : c.id ∉ visited := by simpa using hnew
              have hbeyond := importsBeyond_cons (hloaded _ _ _ hleads) hnew
              have hlength := (hjoin (Link.ofCollection link.fullPath c) rest).length_eq
              rw [List.length_append, Link.ofCollection, List.length_map] at hlength
              refine .reached hleads hnew (ih ?_)
              rw [Link.ofCollection, hlength]
              omega

/-- What a collection reaches is found by following its imports to the end. -/
theorem follows_reachedFrom (c : Collection) :
    Follows leads join [c.id] (Link.ofCollection [] c)
      (r.reachedFrom (fun l => leads l.owner l.item) join c) := by
  refine follows_follow hloaded hjoin ?_
  have hbeyond := r.importsBeyond_le [c.id]
  omega

end

/-! ## What was reached -/

namespace Follows

variable {join : List Link → List Link → List Link} {visited : List String} {links : List Link}
  {found : List (List String × Collection)}

/-- Nothing is reached twice, and nothing that was visited before. -/
theorem nodup (h : Follows leads join visited links found) :
    (found.map (·.2.id)).Nodup ∧ ∀ p ∈ found, p.2.id ∉ visited := by
  induction h with
  | done => exact ⟨List.nodup_nil, fun _ h => absurd h List.not_mem_nil⟩
  | passed _ _ ih => exact ih
  | reached _ hnew _ ih =>
      obtain ⟨hnodup, hfresh⟩ := ih
      refine ⟨List.nodup_cons.2 ⟨fun hmem => ?_, hnodup⟩, List.forall_mem_cons.2 ⟨hnew, ?_⟩⟩
      · obtain ⟨p, hp, hid⟩ := List.mem_map.1 hmem
        exact hfresh p hp (hid ▸ List.mem_cons_self)
      · exact fun p hp hvisited => hfresh p hp (List.mem_cons_of_mem _ hvisited)

/-- An import that remains or belongs to what was reached. -/
def Met (links : List Link) (found : List (List String × Collection)) (link : Link) : Prop :=
  link ∈ links ∨ ∃ p ∈ found, link ∈ Link.ofCollection p.1 p.2

variable (hjoin : ∀ new rest, (join new rest).Perm (new ++ rest))
include hjoin

/-- What is reached lies at the end of the trail that is given with it. -/
theorem trail (h : Follows leads join visited links found)
    (hlinks : ∀ l ∈ links, l.Begins leads c) : ∀ p ∈ found, Trail leads c p.1 p.2 := by
  induction h with
  | done => exact fun _ h => absurd h List.not_mem_nil
  | passed _ _ ih => exact ih (List.forall_mem_cons.1 hlinks).2
  | @reached visited link rest found d hleads _ _ ih =>
      obtain ⟨⟨htrail, hitem⟩, hrest⟩ := List.forall_mem_cons.1 hlinks
      have hreached : Trail leads c link.fullPath d := htrail.snoc hitem hleads
      refine List.forall_mem_cons.2 ⟨hreached, ih fun l hl => ?_⟩
      rcases List.mem_append.1 ((hjoin _ _).mem_iff.1 hl) with hnew | hold
      · exact hreached.begins hnew
      · exact hrest l hold

/-- The trail that is given with what is reached does not pass it on the way. -/
theorem apart (halias : ∀ c i j, i.importAlias = j.importAlias → leads c i = leads c j)
    (h : Follows leads join visited links found) (hlinks : ∀ l ∈ links, l.Begins leads c ∧
      ∀ before after k, l.path = before ++ after → Trail leads c before k → k.id ∈ visited) :
    ∀ p ∈ found, ∀ before after k, p.1 = before ++ after → after ≠ [] → Trail leads c before k →
      k.id ≠ p.2.id := by
  induction h with
  | done => exact fun _ h => absurd h List.not_mem_nil
  | passed _ _ ih => exact ih (List.forall_mem_cons.1 hlinks).2
  | @reached visited link rest found d hleads hnew _ ih =>
      obtain ⟨⟨⟨htrail, hitem⟩, hbefore⟩, hrest⟩ := List.forall_mem_cons.1 hlinks
      have hreached : Trail leads c link.fullPath d := htrail.snoc hitem hleads
      have hpassed : ∀ before after k, link.fullPath = before ++ after → after ≠ [] →
          Trail leads c before k → k.id ∈ visited := by
        intro before after k hpath hafter
        refine hbefore before after.dropLast k ?_
        rw [← List.dropLast_append_of_ne_nil hafter, ← hpath, Link.fullPath,
          List.dropLast_concat]
      refine List.forall_mem_cons.2 ⟨fun before after k hpath hafter hk hid => ?_,
        ih fun l hl => ?_⟩
      · exact hnew (hid ▸ hpassed before after k hpath hafter hk)
      · rcases List.mem_append.1 ((hjoin _ _).mem_iff.1 hl) with hlink | hold
        · refine ⟨hreached.begins hlink, fun before after k hpath hk => ?_⟩
          obtain ⟨_, -, rfl⟩ := List.mem_map.1 hlink
          by_cases hafter : after = []
          · rw [hafter, List.append_nil] at hpath
            obtain rfl := hreached.unique halias (hpath ▸ hk)
            exact List.mem_cons_self
          · exact List.mem_cons_of_mem _ (hpassed before after k hpath hafter hk)
        · obtain ⟨hbegins, hvisited⟩ := hrest l hold
          exact ⟨hbegins, fun before after k hpath hk =>
            List.mem_cons_of_mem _ (hvisited before after k hpath hk)⟩

/-- Whatever an import that was met leads to was visited or is reached. -/
theorem closed (h : Follows leads join visited links found) {l : Link} (hl : Met links found l)
    (hleads : leads l.owner l.item = some d) : d.id ∈ visited ∨ ∃ p ∈ found, p.2.id = d.id := by
  induction h with
  | done => rcases hl with hl | ⟨_, hp, -⟩ <;> contradiction
  | passed hold _ ih =>
      rcases hl with hl | hl
      · rcases List.mem_cons.1 hl with rfl | hrest
        · exact .inl (hold d hleads)
        · exact ih (.inl hrest)
      · exact ih (.inr hl)
  | @reached visited link rest found e hlink _ _ ih =>
      have hmet : l = link ∨ Met (join (Link.ofCollection link.fullPath e) rest) found l := by
        rcases hl with hl | ⟨p, hp, hl⟩
        · rcases List.mem_cons.1 hl with rfl | hrest
          · exact .inl rfl
          · exact .inr (.inl ((hjoin _ _).mem_iff.2 (List.mem_append_right _ hrest)))
        · rcases List.mem_cons.1 hp with rfl | hfound
          · exact .inr (.inl ((hjoin _ _).mem_iff.2 (List.mem_append_left _ hl)))
          · exact .inr (.inr ⟨p, hfound, hl⟩)
      rcases hmet with rfl | hmet
      · obtain rfl := Option.some.inj (hlink.symm.trans hleads)
        exact .inr ⟨_, List.mem_cons_self, rfl⟩
      · rcases ih hmet with hvisited | ⟨p, hp, hid⟩
        · rcases List.mem_cons.1 hvisited with hid | hbefore
          · exact .inr ⟨_, List.mem_cons_self, hid.symm⟩
          · exact .inl hbefore
        · exact .inr ⟨p, List.mem_cons_of_mem _ hp, hid⟩

end Follows

/-! ## What a collection reaches -/

section

variable {r : Registry} {join : List Link → List Link → List Link}
  (hloaded : ∀ c i d, leads c i = some d → d ∈ r.collections)
  (hjoin : ∀ new rest, (join new rest).Perm (new ++ rest)) (hr : r.Distinct)
include hloaded hjoin

/-- What a collection reaches lies at the end of the trail that is given with it. -/
theorem trail_of_reachedFrom {p : List String × Collection}
    (hp : p ∈ r.reachedFrom (fun l => leads l.owner l.item) join c) : Trail leads c p.1 p.2 := by
  exact (follows_reachedFrom hloaded hjoin c).trail hjoin (fun l hl => Trail.nil.begins hl) p hp

/-- That trail does not pass it on the way. -/
theorem apart_reachedFrom
    (halias : ∀ c i j, i.importAlias = j.importAlias → leads c i = leads c j)
    {p : List String × Collection}
    (hp : p ∈ r.reachedFrom (fun l => leads l.owner l.item) join c) {before after : List String}
    {k : Collection} (hpath : p.1 = before ++ after) (hafter : after ≠ [])
    (hk : Trail leads c before k) : k.id ≠ p.2.id := by
  refine (follows_reachedFrom hloaded hjoin c).apart hjoin halias (fun l hl => ?_) p hp before after
    k hpath hafter hk
  refine ⟨Trail.nil.begins hl, fun before after k hpath hk => ?_⟩
  obtain ⟨_, -, rfl⟩ := List.mem_map.1 hl
  obtain ⟨rfl, -⟩ := List.append_eq_nil_iff.1 hpath.symm
  cases hk
  exact List.mem_singleton_self _

/-- Neither the collection itself nor anything else is reached twice. -/
theorem nodup_reachedFrom (c : Collection) :
    (c.id :: (r.reachedFrom (fun l => leads l.owner l.item) join c).map (·.2.id)).Nodup := by
  obtain ⟨hnodup, hfresh⟩ := (follows_reachedFrom hloaded hjoin c).nodup
  refine List.nodup_cons.2 ⟨fun hmem => ?_, hnodup⟩
  obtain ⟨p, hp, hid⟩ := List.mem_map.1 hmem
  exact hfresh p hp (hid ▸ List.mem_singleton_self _)

include hr

/-- Whatever the imports of the collection and of what it reaches lead to is among these again. -/
theorem exists_next (hc : c ∈ r.collections) {p : List String × Collection}
    (hp : p ∈ ([], c) :: r.reachedFrom (fun l => leads l.owner l.item) join c) {i : Import}
    (hi : i ∈ p.2.document.imports) (hleads : leads p.2 i = some d) :
    ∃ q ∈ ([], c) :: r.reachedFrom (fun l => leads l.owner l.item) join c, q.2 = d := by
  have hd := hloaded _ _ _ hleads
  have hmet : Follows.Met (Link.ofCollection [] c)
      (r.reachedFrom (fun l => leads l.owner l.item) join c) ⟨p.2, p.1, i⟩ := by
    rcases List.mem_cons.1 hp with rfl | hp
    · exact .inl (List.mem_map_of_mem hi)
    · exact .inr ⟨p, hp, List.mem_map_of_mem hi⟩
  rcases (follows_reachedFrom hloaded hjoin c).closed hjoin hmet hleads with hstart | ⟨q, hq, hid⟩
  · exact ⟨_, List.mem_cons_self,
      (List.inj_on_of_nodup_map hr hd hc (List.mem_singleton.1 hstart)).symm⟩
  · have hreached := (trail_of_reachedFrom hloaded hjoin hq).mem hloaded hc
    exact ⟨q, List.mem_cons_of_mem _ hq, List.inj_on_of_nodup_map hr hreached hd hid⟩

/-- Whatever a trail leads to is the collection itself or is reached. -/
theorem mem_of_trail (hc : c ∈ r.collections) {path : List String} (h : Trail leads c path d) :
    ∃ p ∈ ([], c) :: r.reachedFrom (fun l => leads l.owner l.item) join c, p.2 = d := by
  refine h.carry (n := 0) (P := fun _ e =>
    ∃ p ∈ ([], c) :: r.reachedFrom (fun l => leads l.owner l.item) join c, p.2 = e) ?_
    ⟨_, List.mem_cons_self, rfl⟩
  rintro - _ i next ⟨p, hp, rfl⟩ hi hleads
  exact exists_next hloaded hjoin hr hc hp hi hleads

/-- What a collection reaches is what trails lead to, but for the collection itself. -/
theorem mem_reachedFrom_iff (hc : c ∈ r.collections) :
    d ∈ (r.reachedFrom (fun l => leads l.owner l.item) join c).map (·.2) ↔
      d.id ≠ c.id ∧ ∃ path, Trail leads c path d := by
  constructor
  · intro hd
    obtain ⟨p, hp, rfl⟩ := List.mem_map.1 hd
    refine ⟨fun hid => ?_, p.1, trail_of_reachedFrom hloaded hjoin hp⟩
    have hnodup := nodup_reachedFrom hloaded hjoin c
    exact (List.nodup_cons.1 hnodup).1 (hid ▸ List.mem_map_of_mem hp)
  · rintro ⟨hother, path, htrail⟩
    obtain ⟨p, hp, rfl⟩ := mem_of_trail hloaded hjoin hr hc htrail
    rcases List.mem_cons.1 hp with rfl | hp
    · exact absurd rfl hother
    · exact List.mem_map_of_mem hp

end

end Registry

end RandomTables
