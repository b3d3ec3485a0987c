-- SUMMARY: Chains of tables that extend each other, what wiring does to them and what they lend.
import RandomTables.Proofs.Registry.Inheriting

/-!
# Wiring and inheritance

Wiring the imports changes nothing of a registry but where references lead that begin with an alias.
What a table inherits stays the same if the references of its chain lead where they led before; in
particular if the imports are wired once more in the same way.
-/
namespace RandomTables

namespace Registry

/-- The tables of a chain in which each table extends the next one. -/
inductive Extends (r : Registry) : String → SimpleTable → String → SimpleTable → Prop where
  | refl {collectionId : String} {t : SimpleTable} : Extends r collectionId t collectionId t
  | next {collectionId owner last : String} {t parent root : SimpleTable}
    (hsome : (t.parent.getD "").isEmpty = false)
    (hfind : r.find (t.parent.getD "") collectionId =
      .ok (some ⟨.table (.simple parent), owner⟩))
    (h : Extends r owner parent last root) : Extends r collectionId t last root

/-- What inheritance makes of a table depends on the references of its chain alone. -/
theorem Inherits.of_chain {r r' : Registry} {collectionId : String} {t resolved : SimpleTable}
    (h : r.Inherits collectionId t resolved)
    (hfind : ∀ owner parent, r.Extends collectionId t owner parent →
      (parent.parent.getD "").isEmpty = false →
      r'.find (parent.parent.getD "") owner = r.find (parent.parent.getD "") owner) :
    r'.Inherits collectionId t resolved := by
  induction h with
  | own hnone => exact .own hnone
  | laid hsome hparent _ ih =>
      refine .laid hsome ((hfind _ _ .refl hsome).trans hparent) (ih fun owner parent hchain => ?_)
      exact hfind owner parent (.next hsome hparent hchain)

theorem holds_wireAll {r : Registry} {paths : Assoc String} {collectionId : String}
    {t : SimpleTable} (h : (r.wireAll paths).Holds collectionId t) : r.Holds collectionId t := by
  obtain ⟨c, hc, hid, htable⟩ := h
  obtain ⟨other, hother, rfl⟩ := List.mem_map.1 hc
  exact ⟨other, hother, hid, htable⟩

/-! ## Wiring again -/

section

variable (r : Registry) (paths : Assoc String)

/-- A collection with its imports wired anew. -/
def rewired (c : Collection) : Collection := { c with wired := (r.wire paths c).1 }

theorem get?_wireAll (id : String) :
    (r.wireAll paths).get? id = (r.get? id).map (r.rewired paths) := List.find?_map

theorem withNamespace?_wireAll (name : String) :
    (r.wireAll paths).withNamespace? name = (r.withNamespace? name).map (r.rewired paths) :=
  List.find?_map

theorem atPath_wireAll (path : String) :
    (r.wireAll paths).atPath paths path = (r.atPath paths path).map (r.rewired paths) := by
  have hget : (r.wireAll paths).get? = Option.map (r.rewired paths) ∘ r.get? :=
    funext fun id => r.get?_wireAll paths id
  simp only [atPath, hget, withNamespace?_wireAll, Option.map_or, Option.map_bind,
    Function.comp_apply]

theorem wireTarget_wireAll (owner : String) (i : Import) :
    (r.wireAll paths).wireTarget paths owner i =
      (r.wireTarget paths owner i).map (r.rewired paths) := by
  rw [wireTarget, wireTarget, atPath_wireAll]
  cases r.atPath paths i.path with
  | none => rfl
  | some target =>
      rw [Option.map_some, Option.filter_some, Option.filter_some]
      change (if target.id != owner then _ else _) = _
      split <;> rfl

/-- Wiring the imports once more in the same way changes nothing. -/
theorem wireAll_wireAll : (r.wireAll paths).wireAll paths = r.wireAll paths := by
  have hwire : ∀ c, (r.wireAll paths).wire paths (r.rewired paths c) = r.wire paths c := by
    intro c
    rw [wire, wire]
    congr 1
    funext found i
    rw [show (r.rewired paths c).id = c.id from rfl, wireTarget_wireAll]
    cases r.wireTarget paths c.id i with
    | none => rfl
    | some target => rfl
  have hagain : ∀ c, (r.wireAll paths).rewired paths (r.rewired paths c) = r.rewired paths c := by
    intro c
    rw [rewired, hwire]
    rfl
  change Registry.mk ((r.collections.map (r.rewired paths)).map _) = _
  rw [List.map_map]
  exact congrArg Registry.mk (List.map_congr_left fun c _ => hagain c)

end

end Registry

/-! ## Heirs

A table takes over the entries of the tables that it extends, and evaluates them in its own
collection. So what is remembered of one table may be read in several collections: in its own if the
table itself is rolled, and in those of its heirs. Resolving tables keeps it fit for each of them. -/

/-- A table that extends no other one, or none any more. -/
def SimpleTable.Rootless (t : SimpleTable) : Prop := (t.parent.getD "").isEmpty = true

namespace Registry

variable {r : Registry} {collectionId owner last : String} {t parent root : SimpleTable}

/-! ## Chains -/

theorem Extends.snoc (h : r.Extends collectionId t owner parent)
    (hsome : (parent.parent.getD "").isEmpty = false)
    (hfind : r.find (parent.parent.getD "") owner = .ok (some ⟨.table (.simple root), last⟩)) :
    r.Extends collectionId t last root := by
  induction h with
  | refl => exact .next hsome hfind .refl
  | next hsome' hfind' _ ih => exact .next hsome' hfind' (ih hsome hfind)

/-- Every table of a chain is held if the first one is. -/
theorem Extends.holds (h : r.Extends collectionId t owner parent) (ht : r.Holds collectionId t) :
    r.Holds owner parent := by
  induction h with
  | refl => exact ht
  | next _ hfind _ ih => exact ih (holds_of_find hfind)

/-! ## Finished tables -/

/-- Tables are remembered under their ids, with nothing left to inherit. -/
def Finished (tables : ResolvedTables) : Prop := ∀ p ∈ tables, p.2.id = p.1.2 ∧ p.2.Rootless

theorem finished_nil : Finished [] := fun _ h => absurd h List.not_mem_nil

/-- Resolving tables remembers finished ones only. -/
theorem tracks_finished (r : Registry) :
    r.Tracks Finished (fun _ _ => True) (fun _ _ _ => True)
      fun _ _ t resolved => resolved.id = t.id ∧ resolved.Rootless where
  found _ := trivial
  start _ := trivial
  known hs _ hlookup := hs _ (mem_of_lookup hlookup)
  anew _ _ := trivial
  own hs _ hnone := ⟨List.forall_mem_cons.2 ⟨⟨rfl, hnone⟩, hs⟩, rfl, hnone⟩
  laid hs _ _ _ _ := ⟨List.forall_mem_cons.2 ⟨⟨rfl, rfl⟩, hs⟩, rfl, rfl⟩

/-! ## Lending -/

/-- A table lends what it has to a collection: one of the heirs there extends it or is the table. -/
def Lends (r : Registry) (heirs : String → SimpleTable → Prop) (owner tableId id : String) : Prop :=
  ∃ heir lent, heirs id heir ∧ r.Extends id heir owner lent ∧ lent.id = tableId

/-- A table that is made of the material of every collection which it lends to. -/
def Lent (r : Registry) (M : String → Material) (heirs : String → SimpleTable → Prop)
    (owner : String) (t : SimpleTable) : Prop :=
  ∀ id, r.Lends heirs owner t.id id → (M id).Simple t

/-- Finished tables that are made of the material of every collection which they lend to. -/
def Lending (r : Registry) (M : String → Material) (heirs : String → SimpleTable → Prop)
    (tables : ResolvedTables) : Prop :=
  ∀ key resolved, tables.lookup key = some resolved →
    resolved.id = key.2 ∧ resolved.Rootless ∧ r.Lent M heirs key.1 resolved

section

variable {M : String → Material} {heirs : String → SimpleTable → Prop}

theorem Lending.remember {tables : ResolvedTables} (h : r.Lending M heirs tables)
    {resolved : SimpleTable} (hrootless : resolved.Rootless)
    (hlent : r.Lent M heirs owner resolved) :
    r.Lending M heirs (remembering owner resolved tables) := by
  intro key found hlookup
  rw [List.lookup_cons] at hlookup
  split at hlookup
  · rename_i hsame
    obtain rfl := eq_of_beq hsame
    cases hlookup
    exact ⟨rfl, hrootless, hlent⟩
  · exact h key found hlookup

variable (hr : r.Distinct) (hheirs : ∀ id heir, heirs id heir → r.Holds id heir)
include hr hheirs

/-- A held table that lends is the one in the chain of the heir. -/
theorem Lends.chain {id : String} (h : r.Lends heirs owner t.id id) (ht : r.Holds owner t) :
    ∃ heir, heirs id heir ∧ r.Extends id heir owner t := by
  obtain ⟨heir, lent, hheir, hextends, hid⟩ := h
  obtain rfl := (hextends.holds (hheirs id heir hheir)).unique hr ht hid.symm
  exact ⟨heir, hheir, hextends⟩

variable (hmade : ∀ id heir owner lent, heirs id heir → r.Extends id heir owner lent →
  (M id).Simple lent)
include hmade

theorem lent_of_holds (ht : r.Holds owner t) : r.Lent M heirs owner t := by
  intro id hlends
  obtain ⟨heir, hheir, hextends⟩ := hlends.chain hr hheirs ht
  exact hmade id heir owner t hheir hextends

/-- Resolving tables keeps what they lend fit for the heirs. -/
theorem tracks_lent :
    r.Tracks (r.Lending M heirs)
      (fun owner t => (t.Rootless ∨ r.Holds owner t) ∧ r.Lent M heirs owner t)
      (fun _ owner t => (t.Rootless ∨ r.Holds owner t) ∧ r.Lent M heirs owner t)
      fun _ owner t resolved =>
        resolved.id = t.id ∧ resolved.Rootless ∧ r.Lent M heirs owner resolved where
  found hfind := ⟨.inr (holds_of_find hfind), lent_of_holds hr hheirs hmade (holds_of_find hfind)⟩
  start h := h
  known hs _ hlookup := hs _ _ hlookup
  anew h _ := h
  own := by
    intro tables owner t hs ht hnone
    have hlent : r.Lent M heirs owner t.identified := fun id hlends => (ht.2 id hlends).identified
    exact ⟨hs.remember hnone hlent, rfl, hnone, hlent⟩
  laid := by
    rintro tables collectionId t owner parent inherited hs ⟨hheld, ht⟩ hsome hfind ⟨hid, -, hparent⟩
    have hlent : r.Lent M heirs collectionId (t.laidOver inherited) := by
      intro id hlends
      change r.Lends heirs collectionId t.id id at hlends
      refine (ht id hlends).laidOver (hparent id ?_)
      have hholds := hheld.resolve_left fun hnone => absurd (hnone.symm.trans hsome) (by decide)
      obtain ⟨heir, hheir, hextends⟩ := hlends.chain hr hheirs hholds
      exact ⟨heir, parent, hheir, hextends.snoc hsome hfind, hid.symm⟩
    exact ⟨hs.remember rfl hlent, rfl, rfl, hlent⟩

end

end Registry

end RandomTables
