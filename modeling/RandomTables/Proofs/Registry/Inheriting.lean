-- SUMMARY: What inheritance makes of a table, and remembered tables that are what it makes of them.
import RandomTables.Proofs.Assoc
import RandomTables.Proofs.Registry.Inheritance

/-!
# What tables inherit

What a table inherits is a matter of the registry alone: it follows from where the references to the
tables that are extended lead. Limits and remembered tables only decide whether and how soon an
answer is come to. Tables are remembered faithfully if each is what the registry makes of the table
that it holds.
-/
namespace RandomTables

/-- The failure of a chain in which too many tables extend each other. -/
def Failure.Overextends (f : Failure) : Prop := ∃ d, f = .error (.depth d) ∧ d.what = .inheritance

namespace Registry

/-! ## Inheritance -/

/-- What inheritance makes of a table of a collection, however many tables are extended in a row. -/
inductive Inherits (r : Registry) : String → SimpleTable → SimpleTable → Prop where
  | own {collectionId : String} {t : SimpleTable} (hnone : (t.parent.getD "").isEmpty = true) :
    Inherits r collectionId t t.identified
  | laid {collectionId owner : String} {t parent resolved : SimpleTable}
    (hsome : (t.parent.getD "").isEmpty = false)
    (hfind : r.find (t.parent.getD "") collectionId =
      .ok (some ⟨.table (.simple parent), owner⟩))
    (hparent : Inherits r owner parent resolved) :
    Inherits r collectionId t (t.laidOver resolved)

namespace Inherits

variable {r : Registry} {collectionId : String} {t resolved : SimpleTable}

theorem unique {other : SimpleTable} (h : r.Inherits collectionId t resolved)
    (h' : r.Inherits collectionId t other) : resolved = other := by
  induction h generalizing other with
  | own hnone =>
      cases h' with
      | own _ => rfl
      | laid hsome _ _ => exact absurd (hnone.symm.trans hsome) (by decide)
  | laid hsome hfind _ ih =>
      cases h' with
      | own hnone => exact absurd (hnone.symm.trans hsome) (by decide)
      | laid _ hfind' hparent =>
          cases hfind.symm.trans hfind'
          rw [ih hparent]

theorem id_eq (h : r.Inherits collectionId t resolved) : resolved.id = t.id := by
  cases h with
  | own _ => rfl
  | laid _ _ _ => rfl

end Inherits

/-! ## Collections with ids of their own -/

/-- Every collection has an id of its own. -/
def Distinct (r : Registry) : Prop := r.ids.Nodup

variable {r : Registry} {collectionId : String}

theorem get?_of_mem (hr : r.Distinct) {c : Collection} (hc : c ∈ r.collections) :
    r.get? c.id = some c := Assoc.find?_key_of_mem hr hc

theorem Holds.unique (hr : r.Distinct) {t t' : SimpleTable} (h : r.Holds collectionId t)
    (h' : r.Holds collectionId t') (hid : t'.id = t.id) : t' = t := by
  obtain ⟨c, hc, hcollection, htable⟩ := h
  obtain ⟨c', hc', rfl, htable'⟩ := h'
  obtain rfl : c = c' := List.inj_on_of_nodup_map hr hc hc' hcollection
  rw [hid, htable] at htable'
  cases htable'
  rfl

/-! ## Memory -/

theorem isSome_lookup_cons {tables : ResolvedTables} {key : String × String}
    (h : (tables.lookup key).isSome) (p : (String × String) × SimpleTable) :
    ((p :: tables).lookup key).isSome := by
  rw [List.lookup_cons]
  split
  · rfl
  · exact h

theorem isSome_lookup_remembering (collectionId : String) (t : SimpleTable)
    (tables : ResolvedTables) :
    ((remembering collectionId t tables).lookup (collectionId, t.id)).isSome := by
  rw [remembering, List.lookup_cons, beq_self_eq_true]
  rfl

theorem isSome_lookup_of_suffix {tables later : ResolvedTables} (hlater : tables <:+ later)
    {key : String × String} (h : (tables.lookup key).isSome) : (later.lookup key).isSome := by
  obtain ⟨more, rfl⟩ := hlater
  induction more with
  | nil => exact h
  | cons p more ih => exact isSome_lookup_cons ih p

/-- Whatever is remembered of a table that is held is what inheritance makes of it, and the table that
it extends is remembered as well. -/
structure Remembers (r : Registry) (tables : ResolvedTables) : Prop where
  inherits : ∀ {collectionId t resolved}, r.Holds collectionId t →
    tables.lookup (collectionId, t.id) = some resolved → r.Inherits collectionId t resolved
  closed : ∀ {collectionId t owner parent}, r.Holds collectionId t →
    (tables.lookup (collectionId, t.id)).isSome → (t.parent.getD "").isEmpty = false →
    r.find (t.parent.getD "") collectionId = .ok (some ⟨.table (.simple parent), owner⟩) →
    (tables.lookup (owner, parent.id)).isSome

theorem remembers_nil : r.Remembers [] := ⟨fun _ h => (nomatch h), fun _ h => nomatch h⟩

theorem Remembers.cons (hr : r.Distinct) {tables : ResolvedTables} (h : r.Remembers tables)
    {t resolved : SimpleTable} (ht : r.Holds collectionId t)
    (hinherits : r.Inherits collectionId t resolved)
    (hparent : ∀ owner parent, (t.parent.getD "").isEmpty = false →
      r.find (t.parent.getD "") collectionId = .ok (some ⟨.table (.simple parent), owner⟩) →
      (tables.lookup (owner, parent.id)).isSome) :
    r.Remembers (remembering collectionId resolved tables) := by
  constructor
  · intro otherId other found hother hlookup
    rw [remembering, List.lookup_cons] at hlookup
    split at hlookup
    · rename_i hkey
      obtain ⟨rfl, hid⟩ := Prod.mk.inj (eq_of_beq hkey)
      cases hlookup
      obtain rfl := ht.unique hr hother (hid.trans hinherits.id_eq)
      exact hinherits
    · exact h.inherits hother hlookup
  · intro otherId other owner parent hother hsome hextends hfind
    rw [remembering, List.lookup_cons] at hsome
    refine isSome_lookup_cons ?_ _
    split at hsome
    · rename_i hkey
      obtain ⟨rfl, hid⟩ := Prod.mk.inj (eq_of_beq hkey)
      obtain rfl := ht.unique hr hother (hid.trans hinherits.id_eq)
      exact hparent owner parent hextends hfind
    · exact h.closed hother hsome hextends hfind

/-- What inheritance makes of a table that is held, where that is remembered. -/
structure Recollects (r : Registry) (tables : ResolvedTables) (collectionId : String)
    (held t : SimpleTable) : Prop where
  holds : r.Holds collectionId held
  inherits : r.Inherits collectionId held t
  remembered : (tables.lookup (collectionId, held.id)).isSome

/-- A table that can come to be rolled: a collection holds it, or it was made and is remembered. -/
def Known (r : Registry) (tables : ResolvedTables) (collectionId : String) (t : SimpleTable) :
    Prop :=
  r.Holds collectionId t ∨ ∃ held, r.Recollects tables collectionId held t

theorem Known.grows {tables later : ResolvedTables} (hlater : tables <:+ later) {t : SimpleTable}
    (h : r.Known tables collectionId t) : r.Known later collectionId t := by
  rcases h with hheld | ⟨held, hheld, hinherits, hremembered⟩
  · exact .inl hheld
  · exact .inr ⟨held, hheld, hinherits, isSome_lookup_of_suffix hlater hremembered⟩

/-- What is remembered of a known table is what inheritance makes of the table with its id. -/
theorem Known.recollects {tables : ResolvedTables} (hs : r.Remembers tables)
    {t resolved : SimpleTable} (ht : r.Known tables collectionId t)
    (hlookup : tables.lookup (collectionId, t.id) = some resolved) :
    ∃ held, held.id = t.id ∧ r.Recollects tables collectionId held resolved := by
  rcases ht with hheld | ⟨held, hheld, hinherits, hremembered⟩
  · exact ⟨t, rfl, hheld, hs.inherits hheld hlookup, Option.isSome_of_eq_some hlookup⟩
  · rw [hinherits.id_eq] at hlookup
    exact ⟨held, hinherits.id_eq.symm, hheld, hs.inherits hheld hlookup, hremembered⟩

/-- A known table that is not remembered is held. -/
theorem Known.holds {tables : ResolvedTables} {t : SimpleTable}
    (h : r.Known tables collectionId t) (hlookup : tables.lookup (collectionId, t.id) = none) :
    r.Holds collectionId t := by
  rcases h with hheld | ⟨held, -, hinherits, hremembered⟩
  · exact hheld
  · rw [hinherits.id_eq] at hlookup
    rw [hlookup] at hremembered
    cases hremembered

/-- Resolving tables keeps a faithful memory, and gives what inheritance makes of a table that is
held. -/
theorem tracks_inherits (hr : r.Distinct) :
    r.Tracks r.Remembers r.Holds r.Known fun tables collectionId t resolved =>
      ∃ held, held.id = t.id ∧ r.Recollects tables collectionId held resolved where
  found := holds_of_find
  start := .inl
  known hs ht hlookup := ht.recollects hs hlookup
  anew ht hlookup := ht.holds hlookup
  own := by
    intro tables collectionId t hs ht hnone
    have hinherits : r.Inherits collectionId t t.identified := .own hnone
    refine ⟨hs.cons hr ht hinherits fun _ _ hsome _ => ?_, t, rfl, ht, hinherits, ?_⟩
    · exact absurd (hnone.symm.trans hsome) (by decide)
    · exact isSome_lookup_remembering collectionId t.identified tables
  laid := by
    rintro tables collectionId t owner parent inherited hs ht hsome hfind ⟨root, hid, hroot⟩
    obtain rfl := (holds_of_find hfind).unique hr hroot.holds hid
    have hinherits : r.Inherits collectionId t (t.laidOver inherited) :=
      .laid hsome hfind hroot.inherits
    refine ⟨hs.cons hr ht hinherits fun _ _ _ hfound => ?_, t, rfl, ht, hinherits, ?_⟩
    · cases hfind.symm.trans hfound
      exact hroot.remembered
    · exact isSome_lookup_remembering collectionId (t.laidOver inherited) tables

/-- What inheriting gives is what inheritance makes of the table, whatever was remembered. -/
theorem inherits_of_inherit (hr : r.Distinct) {config : Config} {t resolved : SimpleTable}
    (ht : r.Holds collectionId t) {s : Resolving} (hs : r.Remembers s.tables)
    (h : (r.inherit config t collectionId s).1 = .ok resolved) :
    r.Inherits collectionId t resolved := by
  have hinherit : Resolve.Keeps _ _ _ (r.inherit config t collectionId) :=
    inherit_keeps (tracks_inherits hr) t collectionId
  have hkeeps := (hinherit s hs (.inl ht)).2.2
  rw [h] at hkeeps
  obtain ⟨held, hid, hmade⟩ := hkeeps
  obtain rfl := ht.unique hr hmade.holds hid
  exact hmade.inherits

/-! ## A memory beside another one -/

/-- Two memories of the same registry, the second of which holds all that the first one does. -/
structure Beside (r : Registry) (tables tables' : ResolvedTables) : Prop where
  left : r.Remembers tables
  right : r.Remembers tables'
  covers : ∀ key, (tables.lookup key).isSome → (tables'.lookup key).isSome

theorem covers_remembering {tables tables' : ResolvedTables} {t : SimpleTable}
    (h : ∀ key, (tables.lookup key).isSome → (tables'.lookup key).isSome)
    (ht : (tables'.lookup (collectionId, t.id)).isSome) (key : String × String)
    (hkey : ((remembering collectionId t tables).lookup key).isSome) :
    (tables'.lookup key).isSome := by
  rw [remembering, List.lookup_cons] at hkey
  split at hkey
  · rename_i hsame
    rw [eq_of_beq hsame]
    exact ht
  · exact h key hkey

theorem Beside.remembering {tables tables' : ResolvedTables} (h : r.Beside tables tables')
    {t : SimpleTable} (hleft : r.Remembers (remembering collectionId t tables))
    (hright : r.Remembers (remembering collectionId t tables')) :
    r.Beside (remembering collectionId t tables) (remembering collectionId t tables') :=
  ⟨hleft, hright, covers_remembering (fun key hkey => isSome_lookup_cons (h.covers key hkey) _)
    (isSome_lookup_remembering collectionId t tables')⟩

/-- A run that gives a table and remembers nothing that is not remembered elsewhere, unless it came to
a chain that is too long. -/
def Arrives (tables' : ResolvedTables) (resolved : SimpleTable)
    (run : Except Failure SimpleTable × Resolving) : Prop :=
  (∃ f, run.1 = .error f ∧ f.Overextends) ∨
    run.1 = .ok resolved ∧
      ∀ key, (run.2.tables.lookup key).isSome → (tables'.lookup key).isSome

/-- Resolving a table that is remembered elsewhere gives what inheritance makes of it. -/
theorem inheritFrom_of_inherits {config : Config} {t resolved : SimpleTable}
    (h : r.Inherits collectionId t resolved) (ht : r.Holds collectionId t)
    {tables' : ResolvedTables} (hremembered : (tables'.lookup (collectionId, t.id)).isSome)
    {fuel depth : Nat} {chain : List String} (hdepth : depth ≤ r.greatestLimit config)
    (hfuel : r.greatestLimit config < fuel + depth) {s : Resolving}
    (hs : r.Beside s.tables tables') :
    Arrives tables' resolved (r.inheritFrom config fuel t collectionId depth chain s) := by
  induction h generalizing fuel depth chain s with
  | own hnone =>
      rename_i collectionId t
      cases fuel with
      | zero => omega
      | succ fuel =>
          rw [inheritFrom, Computation.get_bind_apply]
          cases hlookup : s.tables.lookup (collectionId, t.id) with
          | some found =>
              have hfound := hs.left.inherits ht hlookup
              obtain rfl := hfound.unique (.own hnone)
              exact .inr ⟨rfl, hs.covers⟩
          | none =>
              dsimp only
              rw [if_pos hnone]
              exact .inr ⟨rfl, covers_remembering hs.covers hremembered⟩
  | laid hsome hfind hparent ih =>
      rename_i collectionId owner t parent inherited
      cases fuel with
      | zero => omega
      | succ fuel =>
          rw [inheritFrom, Computation.get_bind_apply]
          cases hlookup : s.tables.lookup (collectionId, t.id) with
          | some found =>
              have hfound := hs.left.inherits ht hlookup
              obtain rfl := hfound.unique (.laid hsome hfind hparent)
              exact .inr ⟨rfl, hs.covers⟩
          | none =>
              dsimp only
              rw [if_neg (ne_true_of_eq_false hsome)]
              by_cases hlimit : r.extensionLimit config collectionId ≤ depth
              · rw [if_pos hlimit]
                exact .inl ⟨_, rfl, _, rfl, rfl⟩
              · have hnext : depth + 1 ≤ r.greatestLimit config :=
                  Nat.lt_of_not_le fun h => hlimit (Nat.le_trans (r.extensionLimit_le config _) h)
                have hknown := hs.right.closed ht hremembered hsome hfind
                rw [if_neg hlimit, hfind, Resolve.lift_ok_bind]
                dsimp only
                rw [Computation.bind_apply]
                have hleft : r.greatestLimit config < fuel + (depth + 1) := by omega
                have hrest : Arrives tables' inherited
                    (r.inheritFrom config fuel parent owner (depth + 1) (chain ++ [t.id]) s) :=
                  ih (holds_of_find hfind) hknown hnext hleft hs
                rcases hrun : r.inheritFrom config fuel parent owner (depth + 1)
                  (chain ++ [t.id]) s with ⟨result, later⟩
                rw [hrun] at hrest
                rcases hrest with ⟨f, rfl, hf⟩ | ⟨rfl, hcovers⟩
                · exact .inl ⟨f, rfl, hf⟩
                · exact .inr ⟨rfl, covers_remembering hcovers hremembered⟩

/-- So does resolving any known table that is remembered elsewhere. -/
theorem inheritFrom_of_known {config : Config} {t found : SimpleTable}
    {tables' : ResolvedTables} (hfound : tables'.lookup (collectionId, t.id) = some found)
    {fuel depth : Nat} {chain : List String} (hdepth : depth ≤ r.greatestLimit config)
    (hfuel : r.greatestLimit config < fuel + depth) {s : Resolving}
    (hs : r.Beside s.tables tables') (ht : r.Known s.tables collectionId t) :
    Arrives tables' found (r.inheritFrom config fuel t collectionId depth chain s) := by
  cases hlookup : s.tables.lookup (collectionId, t.id) with
  | none =>
      have hheld := ht.holds hlookup
      exact inheritFrom_of_inherits (hs.right.inherits hheld hfound) hheld
        (Option.isSome_of_eq_some hfound) hdepth hfuel hs
  | some resolved =>
      cases fuel with
      | zero => omega
      | succ fuel =>
          rw [inheritFrom, Computation.get_bind_apply, hlookup]
          obtain ⟨held, hid, hmade⟩ := ht.recollects hs.left hlookup
          rw [← hid] at hfound
          have hsame := hmade.inherits.unique (hs.right.inherits hmade.holds hfound)
          exact .inr ⟨congrArg Except.ok hsame, hs.covers⟩

end Registry

end RandomTables
