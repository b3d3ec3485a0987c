-- SUMMARY: Where an alias leads before its import is wired and afterwards, and where exports follow it.
import RandomTables.Proofs.Registry.Links
import RandomTables.Proofs.Registry.Wiring
import RandomTables.Registry.Reach

/-!
# What aliases mean

An import is looked up in three ways. Wiring takes the collection with the namespace that its path
names, or else the one with that id, but never the collection itself. Exports look in the same order
and may come back to the collection. An alias that is not wired means the first other collection
with that namespace or id. The three agree exactly if the path does not lead back to the collection,
and if, where the namespace and the id belong to different collections, the one with the namespace
comes first.
-/
namespace RandomTables

/-- A collection without wires. -/
def Collection.unwired (c : Collection) : Collection := { c with wired := [] }

namespace Registry

section

variable (r : Registry)

/-- A collection comes before another one. -/
def Precedes (a b : Collection) : Prop :=
  ∃ before after, r.collections = before ++ a :: after ∧ b ∈ after

/-- An import path of a collection does not lead back to it, and of two collections that the path
names, the one with the namespace comes first. -/
structure Clear (owner path : String) : Prop where
  elsewhere : ∀ target, r.atPath [] path = some target → target.id ≠ owner
  ordered : ∀ named held, r.withNamespace? path = some named → r.get? path = some held →
    held.id ≠ named.id → held.id ≠ owner → r.Precedes named held

/-- Whether another collection has the namespace or id that a path names. -/
def names (owner path : String) (other : Collection) : Bool :=
  other.id != owner && (other.namespaceText = path || other.id = path)

/-- The first other collection that a path names. -/
def firstNamed (owner path : String) : Option Collection :=
  r.collections.find? (names owner path)

end

variable {r : Registry} {owner path : String}

theorem Precedes.lt (hr : r.Distinct) {a b : Collection} (h : r.Precedes a b) :
    r.ids.idxOf a.id < r.ids.idxOf b.id := by
  obtain ⟨before, after, hsplit, hb⟩ := h
  have hids : r.ids = before.map (·.id) ++ a.id :: after.map (·.id) := by
    rw [ids, hsplit, List.map_append, List.map_cons]
  have hlater : b.id ∈ after.map (·.id) := List.mem_map.2 ⟨b, hb, rfl⟩
  rw [Distinct, hids] at hr
  obtain ⟨-, hrest, hapart⟩ := List.nodup_append'.1 hr
  have ha : a.id ∉ before.map (·.id) := fun h => hapart h List.mem_cons_self
  have hb : b.id ∉ before.map (·.id) := fun h => hapart h (List.mem_cons_of_mem _ hlater)
  have hne : a.id ≠ b.id := fun h => (List.nodup_cons.1 hrest).1 (h ▸ hlater)
  rw [hids, List.idxOf_append_of_notMem ha, List.idxOf_append_of_notMem hb, List.idxOf_cons_self,
    List.idxOf_cons_ne _ hne]
  omega

/-- What is found first precedes whatever else could have been found. -/
theorem precedes_of_find? {p : Collection → Bool} {a b : Collection}
    (h : r.collections.find? p = some a) (hb : b ∈ r.collections) (hp : p b = true)
    (hne : b.id ≠ a.id) : r.Precedes a b := by
  obtain ⟨-, before, after, hsplit, hbefore⟩ := List.find?_eq_some_iff_append.1 h
  refine ⟨before, after, hsplit, ?_⟩
  rw [hsplit] at hb
  rcases List.mem_append.1 hb with hearlier | hlater
  · have hnot := hbefore b hearlier
    rw [hp] at hnot
    cases hnot
  · rcases List.mem_cons.1 hlater with rfl | hafter
    · exact absurd rfl hne
    · exact hafter

theorem withNamespace?_of_mem (hr : r.Linked) {c : Collection} (hc : c ∈ r.collections) :
    r.withNamespace? c.namespaceText = some c := Assoc.find?_key_of_mem hr.namespaces hc

theorem atPath_nil (r : Registry) (path : String) :
    r.atPath [] path = (r.withNamespace? path).or (r.get? path) := by
  rw [atPath, Assoc.get?_nil, Option.bind_none, Option.none_or]

theorem names_iff {other : Collection} : names owner path other = true ↔
    other.id ≠ owner ∧ (other.namespaceText = path ∨ other.id = path) := by
  rw [names, Bool.and_eq_true, bne_iff_ne, Bool.or_eq_true, decide_eq_true_iff, decide_eq_true_iff]

/-- A path names the collection that it leads to. -/
theorem names_of_atPath {target : Collection} (h : r.atPath [] path = some target)
    (hother : target.id ≠ owner) : names owner path target = true := by
  rw [atPath_nil] at h
  refine names_iff.2 ⟨hother, ?_⟩
  rcases Option.or_eq_some_iff.1 h with hnamespace | ⟨-, hid⟩
  · exact .inl (by simpa using List.find?_some hnamespace)
  · exact .inr (by simpa using List.find?_some hid)

/-- The first collection that a path names is the one that it leads to exactly if the path is
clear. -/
theorem firstNamed_eq_iff (hr : r.Distinct) (hlinked : r.Linked) :
    (r.firstNamed owner path).map (·.id) = (r.atPath [] path).map (·.id) ↔ r.Clear owner path := by
  constructor
  · intro h
    refine ⟨fun target htarget hback => ?_, fun named held hnamed hheld hne hother => ?_⟩
    · rw [htarget] at h
      obtain ⟨first, hfirst, hid⟩ := Option.map_eq_some_iff.1 h
      have hnames := names_iff.1 (List.find?_some hfirst)
      exact hnames.1 (hid.trans hback)
    · rw [atPath_nil, hnamed, Option.some_or] at h
      obtain ⟨first, hfirst, hid⟩ := Option.map_eq_some_iff.1 h
      obtain rfl := List.inj_on_of_nodup_map hr (List.mem_of_find?_eq_some hfirst)
        (List.mem_of_find?_eq_some hnamed) hid
      have hpath : held.id = path := by simpa using List.find?_some hheld
      exact precedes_of_find? hfirst (List.mem_of_find?_eq_some hheld)
        (names_iff.2 ⟨hother, .inr hpath⟩) hne
  · intro hclear
    cases hfirst : r.firstNamed owner path with
    | none =>
        cases htarget : r.atPath [] path with
        | none => rfl
        | some target =>
            have hnot := List.find?_eq_none.1 hfirst target (mem_of_atPath htarget)
            exact absurd (names_of_atPath htarget (hclear.elsewhere target htarget)) hnot
    | some first =>
        have hmem := List.mem_of_find?_eq_some hfirst
        obtain ⟨hother, hnames⟩ := names_iff.1 (List.find?_some hfirst)
        cases hnamed : r.withNamespace? path with
        | none =>
            rw [atPath_nil, hnamed, Option.none_or]
            rcases hnames with rfl | rfl
            · cases hnamed.symm.trans (withNamespace?_of_mem hlinked hmem)
            · rw [get?_of_mem hr hmem]
        | some named =>
            have hpath : r.atPath [] path = some named := by rw [atPath_nil, hnamed, Option.some_or]
            rw [hpath]
            by_contra hne
            have hdifferent : first.id ≠ named.id := fun h => hne (congrArg some h)
            have hfirstPrecedes : r.Precedes first named := by
              refine precedes_of_find? hfirst (mem_of_atPath hpath) ?_ hdifferent.symm
              exact names_of_atPath hpath (hclear.elsewhere named hpath)
            have hnamedPrecedes : r.Precedes named first := by
              rcases hnames with rfl | rfl
              · cases hnamed.symm.trans (withNamespace?_of_mem hlinked hmem)
                exact absurd rfl hdifferent
              · exact hclear.ordered named first hnamed (get?_of_mem hr hmem) hdifferent hother
            exact Nat.lt_asymm (hfirstPrecedes.lt hr) (hnamedPrecedes.lt hr)

/-! ## The look-ups -/

theorem filter_of_nodup_map {α : Type} {f : α → String} {items : List α} (h : (items.map f).Nodup)
    {a : α} (ha : a ∈ items) : (items.filter fun b => f b = f a) = [a] := by
  induction items with
  | nil => cases ha
  | cons b rest ih =>
      obtain ⟨hnew, hrest⟩ := List.nodup_cons.1 h
      rw [List.filter_cons]
      rcases List.mem_cons.1 ha with rfl | ha
      · rw [if_pos (decide_eq_true rfl), List.filter_eq_nil_iff.2 fun b hb => ?_]
        exact fun hsame => hnew (List.mem_map.2 ⟨b, hb, of_decide_eq_true hsame⟩)
      · have hne : f b ≠ f a := fun hsame => hnew (hsame ▸ List.mem_map.2 ⟨a, ha, rfl⟩)
        rw [if_neg fun hsame => hne (of_decide_eq_true hsame), ih hrest ha]

variable {c : Collection} {i : Import}

/-- An alias means what it is wired to, or else the first collection that the path of its import names. -/
theorem aliasedId_eq (haliases : (c.document.imports.map Import.importAlias).Nodup)
    (hi : i ∈ c.document.imports) : r.aliasedId c i.importAlias =
      (c.wired.get? i.importAlias).or ((r.firstNamed c.id i.path).map (·.id)) := by
  rw [aliasedId, filter_of_nodup_map haliases hi]
  exact congrArg _ List.findSome?_singleton

theorem firstNamed_wireAll (paths : Assoc String) :
    ((r.wireAll paths).firstNamed owner path).map (·.id) =
      (r.firstNamed owner path).map (·.id) := by
  have hfind : (r.wireAll paths).firstNamed owner path =
      (r.firstNamed owner path).map (r.rewired paths) := List.find?_map
  rw [hfind, Option.map_map]
  rfl

theorem wireTarget_of_clear (h : r.Clear owner i.path) :
    r.wireTarget [] owner i = r.atPath [] i.path := by
  rw [wireTarget]
  cases htarget : r.atPath [] i.path with
  | none => rfl
  | some target => rw [Option.filter_some, if_pos (bne_iff_ne.2 (h.elsewhere target htarget))]

/-- What the alias of an import means and what exports follow for it, before the imports are wired and
afterwards, and whether wiring reports it, all come to the same collection. -/
structure Agree (r : Registry) (c : Collection) (i : Import) (target : Option String) : Prop where
  unwired : r.aliasedId c.unwired i.importAlias = target
  wired : (r.wireAll []).aliasedId (r.rewired [] c) i.importAlias = target
  followed : ∀ path, (r.exportTarget ⟨c.unwired, path, i⟩).map (·.id) = target
  followedWired : ∀ path,
    ((r.wireAll []).exportTarget ⟨r.rewired [] c, path, i⟩).map (·.id) = target
  reported : i.path ∈ ((r.unresolved []).get? c.id).getD [] ↔ target = none

/-- The look-ups of an import agree exactly if its path is clear. -/
theorem agree_iff (hr : r.Orderly) (hlinked : r.Linked) (hc : c ∈ r.collections)
    (hi : i ∈ c.document.imports) : (∃ target, r.Agree c i target) ↔ r.Clear c.id i.path := by
  have haliases := Document.nodup_aliases (hr.sound c hc)
  have hunwired : r.aliasedId c.unwired i.importAlias = (r.firstNamed c.id i.path).map (·.id) :=
    aliasedId_eq haliases hi
  have hfollowed : ∀ path, (r.exportTarget ⟨c.unwired, path, i⟩) = r.atPath [] i.path :=
    fun _ => Option.none_or
  constructor
  · rintro ⟨target, hagree⟩
    refine (firstNamed_eq_iff hr.distinct hlinked).1 ?_
    rw [← hunwired, hagree.unwired, ← hagree.followed [], hfollowed]
  · intro hclear
    have hfirst := (firstNamed_eq_iff hr.distinct hlinked).2 hclear
    have htarget := wireTarget_of_clear hclear
    have hwire : (r.rewired [] c).wired.get? i.importAlias =
        (r.atPath [] i.path).map (·.id) := (get?_wire haliases hi).trans (by rw [htarget])
    refine ⟨(r.atPath [] i.path).map (·.id), hunwired.trans hfirst, ?_, fun path => ?_,
      fun path => ?_, ?_⟩
    · have hwired := aliasedId_eq (r := r.wireAll []) (c := r.rewired [] c) haliases hi
      rw [hwired, hwire, firstNamed_wireAll]
      exact (congrArg _ hfirst).trans Option.or_self
    · rw [hfollowed]
    · rw [exportTarget, hwire, atPath_wireAll]
      cases hpath : r.atPath [] i.path with
      | none => rfl
      | some target =>
          rw [Option.map_some, Option.bind_some, get?_wireAll,
            get?_of_mem hr.distinct (mem_of_atPath hpath)]
          rfl
    · rw [reported_iff hr.distinct hc hi, htarget, Option.map_eq_none_iff]

end Registry

end RandomTables
