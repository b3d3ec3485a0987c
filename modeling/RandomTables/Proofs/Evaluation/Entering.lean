-- SUMMARY: The entry of a resolved table that a roll comes to, and what holds where it stands.
import RandomTables.Proofs.Evaluation.Occurring
import RandomTables.Proofs.Evaluation.Publishing
import RandomTables.Proofs.Evaluation.SimpleRoll
import RandomTables.Proofs.Registry.Homes
import RandomTables.Proofs.Selection.Pool

/-!
# Entering entries

A roll of a simple table resolves the table and draws from it, one of a composite table rolls a
source, and one of a collection table resolves all members and draws from them together. Where it
comes to the evaluation of an entry, the entry is one of a table that is remembered as it was
resolved. So a later roll of that table is resolved to the same one.
-/
namespace RandomTables

/-- Looking a reference up remembers nothing. -/
theorem Resolve.eq_of_lift {α : Type} {x : Except ResolutionFailure α} {s s' : Resolving} {a : α}
    (h : Resolve.lift x s = (.ok a, s')) : s' = s := by
  cases x with
  | ok b =>
      cases h
      rfl
  | error e => cases h

namespace Registry

variable {env : Surroundings} {collectionId : String} {s s' : Resolving}

/-- Resolving a table keeps all tables under their ids, and gives one with the same id. -/
theorem inherit_filed (env : Surroundings) (t : SimpleTable) (collectionId : String) :
    Resolve.Keeps Filed (fun _ => True) (fun _ resolved => resolved.id = t.id ∧ resolved.Named)
      (env.registry.inherit env.base t collectionId) :=
  inherit_keeps (tracks_filed env.registry) t collectionId

/-- A table that was resolved is remembered under its id, and all tables still are. -/
theorem filed_of_inherit {t table : SimpleTable} (hs : Filed s.tables)
    (h : env.registry.inherit env.base t collectionId s = (.ok table, s')) :
    Filed s'.tables ∧ table.Named ∧ s'.tables.lookup (collectionId, table.id) = some table := by
  have hkeeps := inherit_filed env t collectionId s hs trivial
  rw [h] at hkeeps
  obtain ⟨hfiled, -, hid, hnamed⟩ := hkeeps
  exact ⟨hfiled, hnamed, hid ▸ lookup_of_inherit h⟩

/-- Resolving more members leaves what is remembered of a table. -/
theorem lookup_members (env : Surroundings) (t : CollectionTable) (collectionId : String)
    (members : List String) {key : String × String} {table : SimpleTable} (hs : s.tables.lookup key = some table) :
    (env.registry.members env.base t collectionId members s).2.tables.lookup key = some table :=
  (Hosting.Resolves.members (Hosting.lawful_recalling env key table) trivial t (fun _ _ => trivial)
    s hs).1

/-- All members of a collection table are remembered as they were resolved. -/
theorem recalled_members {t : CollectionTable} {members : List String}
    {found : List (SimpleTable × String)} (hs : Filed s.tables)
    (h : env.registry.members env.base t collectionId members s = (.ok found, s')) :
    ∀ m ∈ found, m.1.Named ∧ s'.tables.lookup (m.2, m.1.id) = some m.1 := by
  induction members generalizing s found with
  | nil =>
      cases h
      exact fun _ hm => absurd hm List.not_mem_nil
  | cons member rest ih =>
      rw [Registry.members] at h
      obtain ⟨target, s₁, htarget, hfound⟩ := Computation.bind_eq_ok h
      obtain rfl := Resolve.eq_of_lift htarget
      obtain ⟨definition, owner⟩ := target
      cases definition with
      | template _ => cases hfound
      | table definition =>
          cases definition with
          | composite _ => cases hfound
          | collection _ => cases hfound
          | simple member =>
              obtain ⟨table, s₂, hinherit, hrest⟩ := Computation.bind_eq_ok hfound
              obtain ⟨more, s₃, hmore, hlast⟩ := Computation.bind_eq_ok hrest
              cases hlast
              obtain ⟨hfiled, hnamed, hlookup⟩ := filed_of_inherit hs hinherit
              have hkept := lookup_members env t collectionId rest hlookup
              rw [hmore] at hkept
              exact List.forall_mem_cons.2 ⟨⟨hnamed, hkept⟩, ih hfiled hmore⟩

end Registry

namespace Eval

/-- A roll comes to the evaluation of an entry of a resolved table, in a context. -/
inductive Enters (env : Surroundings) (excluded : List String) :
    Target → Context → Selection → SimpleTable → Context → Prop where
  | entry {t table : SimpleTable} {owner : String} {s : Selection}
    {c inner resolved drawn : Context}
    (deeper : Deeper c inner)
    (inherits : resolving (env.registry.inherit env.base t owner) inner = (.ok table, resolved))
    (draws : draw (table.draw owner excluded) resolved = (.ok s, drawn)) :
    Enters env excluded ⟨.table (.simple t), owner⟩ c s table drawn
  | source {t : CompositeTable} {owner : String} {chosen : TableSource × Weight × Weight}
    {step : TraceStep} {target : Target} {s : Selection} {table : SimpleTable}
    {c inner drawn noted d : Context} (deeper : Deeper c inner)
    (draws : draw t.draw inner = (.ok chosen, drawn)) (notes : note step drawn = (.ok (), noted))
    (resolves : env.registry.resolve chosen.1.tableId owner = .ok target)
    (enters : Enters env excluded target noted s table d) :
    Enters env excluded ⟨.table (.composite t), owner⟩ c s table d
  | member {t : CollectionTable} {owner : String} {members : List (SimpleTable × String)}
    {step : TraceStep} {m : SimpleTable × String} {s : Selection}
    {c inner resolved noted drawn : Context} (deeper : Deeper c inner)
    (inherits : resolving (env.registry.members env.base t owner t.members) inner =
      (.ok members, resolved))
    (notes : note step resolved = (.ok (), noted))
    (draws : draw (drawPooled members t.id excluded) noted = (.ok s, drawn))
    (first : (members.find? fun m => m.1.id = s.tableId && m.2 = s.collectionId) = some m) :
    Enters env excluded ⟨.table (.collection t), owner⟩ c s m.1 drawn

/-- Where an entry is evaluated: it is one of a table that is remembered, all whose entries have
ids, and the source is fit for draws. -/
structure Entered (s : Selection) (table : SimpleTable) (c : Context) : Prop where
  entry : s.entry ∈ table.entries
  named : table.Named
  recalled : c.resolved.lookup (s.collectionId, table.id) = some table
  proper : c.source.Proper

variable {env : Surroundings} {α : Type}

/-- Resolving ends as it does by itself. -/
theorem resolving_eq_ok {x : Resolve α} {c c' : Context} {a : α}
    (h : resolving x c = (.ok a, c')) :
    ∃ s, x ⟨c.resolved, []⟩ = (.ok a, s) ∧ c'.resolved = s.tables ∧ c'.source = c.source := by
  obtain ⟨hresult, rfl⟩ := Prod.mk.inj h
  exact ⟨_, Prod.ext hresult rfl, rfl, rfl⟩

/-- A draw does nothing but to the source. -/
theorem draw_eq_ok {d : Draw α} {c c' : Context} {a : α} (h : draw d c = (.ok a, c')) :
    (d c.source).1 = .ok a ∧ c'.resolved = c.resolved ∧ c'.source = (d c.source).2 := by
  obtain ⟨hresult, rfl⟩ := Prod.mk.inj h
  exact ⟨hresult, rfl, rfl⟩

/-- A draw that keeps sources fit leaves a fit one. -/
theorem proper_of_draw {P : α → Prop} {x : Draw α} {c c' : Context} {a : α}
    (hx : (Hosting.alone env fun _ => True).Draws P x) (h : draw x c = (.ok a, c'))
    (hc : c.source.Proper) : c'.source.Proper := by
  rw [(draw_eq_ok h).2.2]
  exact (hx c.source hc).1

/-- What a roll comes to is an entry of a table that is remembered. -/
theorem Enters.entered {excluded : List String} {target : Target} {c d : Context} {s : Selection}
    {table : SimpleTable} (h : Enters env excluded target c s table d)
    (hfiled : Registry.Filed c.resolved) (hsource : c.source.Proper) : Entered s table d := by
  have hlawful : (Hosting.alone env fun _ => True).Lawful :=
    Hosting.lawful_alone fun _ _ _ _ => ⟨trivial, fun _ _ => trivial⟩
  induction h with
  | @entry t table owner s c inner resolved drawn deeper inherits draws =>
      rw [← deeper.resolved] at hfiled
      rw [← deeper.source] at hsource
      obtain ⟨tables, hinherit, hresolved, hsame⟩ := resolving_eq_ok inherits
      obtain ⟨-, hnamed, hlookup⟩ := Registry.filed_of_inherit hfiled hinherit
      obtain ⟨hdrawn, hkept, -⟩ := draw_eq_ok draws
      have hdrew := SimpleTable.drew_of_draw hdrawn
      refine ⟨(SimpleTable.mem_selectables.1 hdrew.entry).1, hnamed, ?_, ?_⟩
      · rw [hkept, hresolved, hdrew.collectionId]
        exact hlookup
      · exact proper_of_draw (.simple hlawful table owner excluded) draws (hsame ▸ hsource)
  | source deeper draws notes _ _ ih =>
      cases notes
      have hfit := proper_of_draw (.composite hlawful _) draws (deeper.source ▸ hsource)
      refine ih ?_ hfit
      rw [(draw_eq_ok draws).2.1, deeper.resolved]
      exact hfiled
  | @member t owner members step m s c inner resolved noted drawn deeper inherits notes draws
      first =>
      rw [← deeper.resolved] at hfiled
      rw [← deeper.source] at hsource
      cases notes
      obtain ⟨tables, hmembers, hresolved, hsame⟩ := resolving_eq_ok inherits
      have hrecalled := Registry.recalled_members hfiled hmembers
      obtain ⟨hdrawn, hkept, -⟩ := draw_eq_ok draws
      obtain ⟨-, home, hhome, hfrom⟩ :=
        exists_member_of_mem_poolOf (mem_poolOf_of_drawPooled hdrawn)
      have hfirst := List.find?_some first
      simp only [Bool.and_eq_true, decide_eq_true_eq] at hfirst
      have hm := hrecalled m (List.mem_of_find?_eq_some first)
      -- the member that is found has the id and the collection of the one that the entry is from
      have hsame' : m.1 = home.1 := by
        have hlookup := hm.2
        rw [hfirst.1, hfirst.2, show s.tableId = home.1.id from hfrom.tableId,
          show s.collectionId = home.2 from hfrom.collectionId, (hrecalled home hhome).2] at hlookup
        exact (Option.some.inj hlookup).symm
      refine ⟨hsame' ▸ hfrom.entry, hm.1, ?_, ?_⟩
      · rw [hkept, ← hfirst.2]
        exact hresolved ▸ hm.2
      · have hresolved : resolved.source.Proper := hsame ▸ hsource
        exact proper_of_draw (.pooled hlawful members _ _) draws hresolved

theorem not_expands_simple {env : Surroundings} {t : SimpleTable} {owner : String} :
    ¬ Expands env ⟨.table (.simple t), owner⟩ := nofun

/-- A roll of a simple table comes to what is drawn from the resolved one. -/
theorem Enters.of_simple {env : Surroundings} {excluded : List String} {t table : SimpleTable}
    {owner : String} {c d : Context} {s : Selection}
    (h : Enters env excluded ⟨.table (.simple t), owner⟩ c s table d) :
    (env.registry.inherit env.base t owner ⟨c.resolved, []⟩).1 = .ok table ∧
      (table.draw owner excluded c.source).1 = .ok s := by
  cases h with
  | entry deeper inherits draws =>
      obtain ⟨_, hinherit, -, hsource⟩ := resolving_eq_ok inherits
      rw [deeper.resolved] at hinherit
      have hdraw := (draw_eq_ok draws).1
      rw [hsource, deeper.source] at hdraw
      exact ⟨congrArg Prod.fst hinherit, hdraw⟩

/-- Whatever is called for, tables stay remembered under their ids, and the source fit. -/
theorem filed_of_call (env : Surroundings) (fuel : Nat) (call : Call α) {c : Context}
    (hfiled : Registry.Filed c.resolved) (hsource : c.source.Proper) :
    Registry.Filed (answerWithin env fuel call c).2.resolved ∧
      (answerWithin env fuel call c).2.source.Proper := by
  have hlawful : (Hosting.alone env Registry.Filed).Lawful := by
    refine Hosting.lawful_alone fun id t s hs => ?_
    have hkeeps := Registry.inherit_filed env t id s hs trivial
    exact ⟨hkeeps.1, fun _ _ => trivial⟩
  have hbeside : (Hosting.alone env Registry.Filed).Beside c c :=
    Hosting.beside_alone hfiled hsource
  have hanswers := hlawful.answers fuel
  cases call with
  | pattern text collectionId =>
      have hends := hanswers.pattern text collectionId trivial (Hosting.pattern_alone _ _) c c
        hbeside
      exact ⟨hends.beside.recalled, hends.beside.sound⟩
  | roll target excluded =>
      have hends := hanswers.roll target excluded (Hosting.target_alone target) c c hbeside
      exact ⟨hends.beside.recalled, hends.beside.sound⟩
  | shared owner collectionId d =>
      have hends := hanswers.shared owner collectionId d trivial (Hosting.pattern_alone _ _) c c
        hbeside
      exact ⟨hends.beside.recalled, hends.beside.sound⟩

/-! ## Every roll enters an entry -/

/-- An entry is evaluated with at least one more call to its value. -/
theorem fuel_of_outcomeOf {fuel : Nat} {s : Selection} {table : SimpleTable} {c c' : Context}
    {o : Outcome} (h : outcomeOf env (answerWithin env fuel) s table c = (.ok o, c')) :
    ∃ n, fuel = n + 1 := by
  cases fuel with
  | succ n => exact ⟨n, rfl⟩
  | zero =>
      obtain ⟨_, _, _, _, -, hvalue⟩ := value_of_outcomeOf h
      cases hvalue

/-- A roll that has an outcome expands a template, or comes to an entry and succeeds in evaluating
it. -/
theorem expands_or_enters {fuel : Nat} {excluded : List String} {target : Target} {c : Context}
    {o : Outcome} (h : (answerWithin env fuel (.roll target excluded) c).1 = .ok o) :
    Expands env target ∨ ∃ n s table d o' d', Enters env excluded target c s table d ∧
      outcomeOf env (answerWithin env (n + 1)) s table d = (.ok o', d') ∧ o'.text = o.text := by
  induction fuel generalizing target c o with
  | zero => cases h
  | succ fuel ih =>
      obtain ⟨definition, owner⟩ := target
      cases definition with
      | template t => exact .inl .template
      | table t =>
          obtain ⟨inner, hinner, hend⟩ := sameEnd_roll (answerWithin env fuel) excluded
            (admits_of_roll h)
          have hrolled := hend.result.symm.trans h
          cases t with
          | simple t =>
              obtain ⟨table, resolved, hinherits, hrest⟩ :=
                Computation.bind_eq_ok (Prod.ext hrolled rfl)
              obtain ⟨s, drawn, hdraws, houtcome⟩ := Computation.bind_eq_ok hrest
              obtain ⟨n, rfl⟩ := fuel_of_outcomeOf houtcome
              exact .inr ⟨n, s, table, drawn, o, _, .entry hinner hinherits hdraws, houtcome, rfl⟩
          | composite t =>
              obtain ⟨chosen, drawn, hdraws, hrest⟩ := Computation.bind_eq_ok (Prod.ext hrolled rfl)
              obtain ⟨_, noted, hnotes, hrest⟩ := Computation.bind_eq_ok hrest
              obtain ⟨target, _, hresolve, hrest⟩ := Computation.bind_eq_ok hrest
              obtain ⟨o', _, hcall, htyped⟩ := Computation.bind_eq_ok hrest
              obtain ⟨hresolves, rfl⟩ := liftResolution_eq_ok hresolve
              cases htyped
              refine (ih (congrArg Prod.fst hcall)).imp ?_ ?_
              · intro hexpands
                have hmem := CompositeTable.mem_of_draw (congrArg Prod.fst hdraws)
                exact .source hmem hresolves hexpands
              · rintro ⟨n, s, table, d, o'', d', henters, houtcome, htext⟩
                exact ⟨n, s, table, d, o'', d',
                  .source hinner hdraws hnotes hresolves henters, houtcome, htext⟩
          | collection t =>
              obtain ⟨members, resolved, hinherits, hrest⟩ :=
                Computation.bind_eq_ok (Prod.ext hrolled rfl)
              obtain ⟨_, noted, hnotes, hrest⟩ := Computation.bind_eq_ok hrest
              obtain ⟨s, drawn, hdraws, hrest⟩ := Computation.bind_eq_ok hrest
              dsimp only at hrest
              generalize hfirst : members.find? _ = found at hrest
              cases found with
              | none => cases hrest
              | some found =>
                  obtain ⟨o', _, houtcome, htyped⟩ := Computation.bind_eq_ok hrest
                  cases htyped
                  obtain ⟨n, rfl⟩ := fuel_of_outcomeOf houtcome
                  exact .inr ⟨n, s, found.1, drawn, o', _,
                    .member hinner hinherits hnotes hdraws hfirst, houtcome, rfl⟩

end Eval

end RandomTables
