-- SUMMARY: Draws of unique entries from a simple table give each entry once before any is repeated.
import Mathlib
import RandomTables.Proofs.Evaluation.SimpleRoll
import RandomTables.Proofs.Evaluation.Unique
import RandomTables.Proofs.Registry.Homes
import RandomTables.Proofs.Selection.Entries

/-!
# Unique entries of a simple table

A roll of a simple table takes an entry that is left as long as there is one, and then finds the
table exhausted. What is open, what the table is resolved to and the kind of the source are the same
at every roll of a draw of unique entries, so this holds of each. How many outcomes there are, and
of which entries, is then as the policy says.
-/
namespace RandomTables

namespace Eval

variable {env : Surroundings} {fuel : Nat} {t table : SimpleTable} {owner : String}
  {used : List String} {start c : Context}

/-- A roll closes what it opens. -/
theorem nesting_roll (env : Surroundings) (fuel : Nat) (target : Target) (used : List String)
    (c : Context) : (roll env (answerWithin env fuel) target used c).2.nesting = c.nesting := by
  have hself := (Simulation.levelled_anywhere env .same).answers fuel
  have hknown : ∀ (_ : ResolvedTables) (_ : String) (_ : SimpleTable), True := fun _ _ _ => trivial
  rcases (Simulation.levelled_anywhere env .same).operation rfl hknown hself trivial
    (.roll target used) c c (Simulation.match_self c) with ⟨_, _, h⟩ | ⟨-, -, hmatch⟩
  · exact h.elim
  · exact hmatch.nesting

/-- A state in which a table can be rolled and is resolved as stated. -/
structure Steady (env : Surroundings) (t table : SimpleTable) (owner : String) (c : Context) :
    Prop where
  admits : Admits env t.id "table" t.shared owner c
  resolves : (env.registry.inherit env.base t owner ⟨c.resolved, []⟩).1 = .ok table
  proper : c.source.Proper

theorem Steady.roll (h : Steady env t table owner c) (fuel : Nat) (used : List String) :
    Steady env t table owner
      (Eval.roll env (answerWithin env fuel) ⟨.table (.simple t), owner⟩ used c).2 := by
  rcases hinherit : env.registry.inherit env.base t owner ⟨c.resolved, []⟩ with ⟨result, tables⟩
  obtain rfl : result = .ok table := (congrArg Prod.fst hinherit).symm.trans h.resolves
  have hlookup := Registry.lookup_of_inherit hinherit
  have hlawful := Hosting.lawful_recalling env (owner, t.id) table
  have hproper := (Hosting.Draws.simple hlawful table owner used c.source h.proper).1
  have hkept : ∀ x : Except Failure Outcome × Context,
      SameEnd (Eval.roll env (answerWithin env fuel) ⟨.table (.simple t), owner⟩ used c) x →
      x.2.resolved.lookup (owner, t.id) = some table → x.2.source.Proper →
      Steady env t table owner
        (Eval.roll env (answerWithin env fuel) ⟨.table (.simple t), owner⟩ used c).2 := by
    intro x hend hrecalled hsound
    refine ⟨h.admits.of_nesting (nesting_roll env fuel _ used c), ?_, hend.source ▸ hsound⟩
    rw [hend.resolved]
    exact congrArg Prod.fst (Registry.inherit_of_lookup hrecalled)
  rcases hdraw : table.draw owner used c.source with ⟨f | s, source⟩
  · obtain ⟨drawn, hresolved, hsource, hend⟩ :=
      roll_of_draw_error (answerWithin env fuel) h.admits hinherit hdraw
    rw [hdraw, ← hsource] at hproper
    exact hkept _ hend (hresolved ▸ hlookup) hproper
  · obtain ⟨drawn, hresolved, hsource, hend⟩ :=
      roll_of_draw (answerWithin env fuel) h.admits hinherit hdraw
    rw [hdraw, ← hsource] at hproper
    obtain ⟨hrecalled, hsound⟩ :=
      Hosting.outcomeOf_recalling fuel s table (hresolved ▸ hlookup) hproper
    exact hkept _ hend hrecalled hsound

/-! ## The rolls of a draw -/

/-- The rolls of a simple table. -/
abbrev rollsOf (env : Surroundings) (fuel : Nat) (t : SimpleTable) (owner : String)
    (used : List String) : Eval Outcome :=
  answerWithin env fuel (.roll ⟨.table (.simple t), owner⟩ used)

/-- No error is raised but by a draw: where an entry is drawn, the roll has an outcome. -/
def Undisturbed (env : Surroundings) (fuel : Nat) (t table : SimpleTable) (owner : String)
    (start : Context) : Prop :=
  ∀ used c, Comes (rollsOf env fuel t owner) start used c →
    (∃ s, (table.draw owner used c.source).1 = .ok s) →
    ∃ o, (rollsOf env fuel t owner used c).1 = .ok o

theorem Steady.rolls (used : List String) (c : Context) (h : Steady env t table owner c) :
    Steady env t table owner (rollsOf env fuel t owner used c).2 := by
  cases fuel with
  | zero => exact h
  | succ fuel => exact h.roll fuel used

/-- The keys of some entries. -/
abbrev keys (entries : List Entry) : List String := entries.map (·.idText)

/-- Rolls of a table in which nothing else fails take each of its entries once. -/
theorem exact_rollsOf
    (hids : (table.entries.map (·.idText)).Nodup) (hnamed : ∀ e ∈ table.entries, e.idText ≠ "")
    (hdrawable : table.Drawable) (hsome : table.selectables ≠ [])
    (hresolves : (env.registry.inherit env.base t owner ⟨start.resolved, []⟩).1 = .ok table)
    (hsource : start.source.Proper) (hquiet : Undisturbed env fuel t table owner start) :
    Exact (rollsOf env fuel t owner) start (keys table.selectables) := by
  have hdraws : ∀ {used : List String} {source : Source}, source.Proper →
      (∃ key ∈ keys table.selectables, key ∉ used) →
      ∃ s, (table.draw owner used source).1 = .ok s := by
    rintro used source hproper ⟨_, hkey, hleft⟩
    obtain ⟨e, he, rfl⟩ := List.mem_map.1 hkey
    exact hdrawable.exists_draw hproper ⟨e, he, hleft⟩
  obtain ⟨first, hfirst⟩ := List.exists_mem_of_ne_nil _ hsome
  have hkey : first.idText ∈ keys table.selectables := List.mem_map_of_mem hfirst
  -- the first roll has an outcome, so the table can be rolled wherever as much is open
  obtain ⟨o, ho⟩ := hquiet [] start .start (hdraws hsource ⟨_, hkey, List.not_mem_nil⟩)
  obtain ⟨fuel, rfl⟩ : ∃ n, fuel = n + 1 := by
    cases fuel with
    | zero => cases ho
    | succ fuel => exact ⟨fuel, rfl⟩
  have hstart : Steady env t table owner start := ⟨admits_of_roll ho, hresolves, hsource⟩
  have hsteady : ∀ {used c}, Comes (rollsOf env (fuel + 1) t owner) start used c →
      Steady env t table owner c := fun hc => hc.keeps Steady.rolls hstart
  have hgives : ∀ used c, Comes (rollsOf env (fuel + 1) t owner) start used c →
      (∃ key ∈ keys table.selectables, key ∉ used) →
      ∃ o, (rollsOf env (fuel + 1) t owner used c).1 = .ok o :=
    fun used c hc hleft => hquiet used c hc (hdraws (hsteady hc).proper hleft)
  refine { named := ?_, takes := ?_, fails := ?_, ne_nil := List.ne_nil_of_mem hkey
           nodup := (List.filter_sublist.map _).nodup hids, gives := hgives }
  · intro hempty
    obtain ⟨e, he, hid⟩ := List.mem_map.1 hempty
    exact hnamed e (SimpleTable.mem_selectables.1 he).1 hid
  · intro used c o c' hc hrun
    obtain ⟨_, s, hinherit, hdrew, hexcluding, hnaming⟩ := drew_of_roll (congrArg Prod.fst hrun)
    obtain rfl := Except.ok.inj (hinherit.symm.trans (hsteady hc).resolves)
    refine ⟨s.key, ?_, hdrew.left, hexcluding, ?_⟩
    · rw [hdrew.key]
      exact List.mem_map_of_mem hdrew.entry
    · rw [hnaming, hdrew.key]
      exact Entry.id_of_idText (hnamed _ (SimpleTable.mem_selectables.1 hdrew.entry).1)
  · intro used c f c' hc hrun
    have hc' := hsteady hc
    have hall : ∀ e ∈ table.selectables, e.idText ∈ used := by
      intro e he
      by_contra hleft
      obtain ⟨o, ho⟩ := hgives used c hc ⟨_, List.mem_map_of_mem he, hleft⟩
      exact nomatch (congrArg Prod.fst hrun).symm.trans ho
    have hentries : table.entries ≠ [] :=
      List.ne_nil_of_mem (SimpleTable.mem_selectables.1 hfirst).1
    have hexhausted : (table.draw owner used c.source).1 =
        .error (.selection (.exhausted table.id)) :=
      hdrawable.draw_eq_exhausted hentries (List.ne_nil_of_mem (hall first hfirst)) hall
    obtain ⟨drawn, -, -, hend⟩ := roll_of_draw_error (answerWithin env fuel) hc'.admits
      (Prod.ext hc'.resolves rfl) (Prod.ext hexhausted rfl)
    have hfailed := hend.result.symm.trans (congrArg Prod.fst hrun)
    obtain rfl := Except.error.inj hfailed
    exact unlessExhausted_of_error hrun rfl

/-! ## How many, and which -/

/-- Outcomes of some of these entries, each of another one. -/
structure Different (entries : List Entry) (outcomes : List Outcome) : Prop where
  once : (outcomes.map (·.entryId)).Nodup
  among : ∀ o ∈ outcomes, ∃ e ∈ entries, o.entryId = e.id

/-- What is drawn without replacement from these entries is as many outcomes of different entries as
were asked for, if there are as many. If there are fewer, it is as the policy says: all there are,
an error, or laps in which no entry is drawn twice, and in each complete one every entry. -/
structure DrawnUnique (env : Surroundings) (entries : List Entry) (ref : String) (count : Nat)
    (drawn : Except Failure (List Outcome)) : Prop where
  stop : env.config.uniqueOverflow = .stop → ∃ outcomes, drawn = .ok outcomes ∧
    outcomes.length = min count entries.length ∧ Different entries outcomes
  error : env.config.uniqueOverflow = .error →
    (count ≤ entries.length → ∃ outcomes, drawn = .ok outcomes ∧
      outcomes.length = count ∧ Different entries outcomes) ∧
    (entries.length < count →
      drawn = .error (.selection (.tooFewUnique count ref entries.length)))
  cycle : env.config.uniqueOverflow = .cycle → ∃ outcomes, drawn = .ok outcomes ∧
    outcomes.length = count ∧ ∀ lap,
      Different entries ((outcomes.drop (lap * entries.length)).take entries.length) ∧
      ((lap + 1) * entries.length ≤ count →
        (((outcomes.drop (lap * entries.length)).take entries.length).map (·.entryId)).Perm
          (entries.map (·.id)))

section

variable {entries : List Entry} (hnamed : ∀ e ∈ entries, e.idText ≠ "")
include hnamed

theorem Keyed.different {outcomes : List Outcome} {ks : List String} (hkeyed : Keyed outcomes ks)
    (htaken : TakenFrom (keys entries) ks) : Different entries outcomes where
  once := by
    rw [hkeyed.entryIds]
    exact htaken.once.map fun _ _ h => Option.some.inj h
  among o ho := by
    have hmem := List.mem_map_of_mem (f := (·.entryId)) ho
    rw [hkeyed.entryIds] at hmem
    obtain ⟨key, hkey, hid⟩ := List.mem_map.1 hmem
    obtain ⟨e, he, rfl⟩ := List.mem_map.1 (htaken.among key hkey)
    exact ⟨e, he, hid.symm.trans (Entry.id_of_idText (hnamed e he)).symm⟩

theorem map_some_keys : (keys entries).map some = entries.map (·.id) := by
  rw [keys, List.map_map]
  exact List.map_congr_left fun e he => (Entry.id_of_idText (hnamed e he)).symm

/-- Where each roll takes an entry that is left, there are as many outcomes, and of those entries,
as the policy says. -/
theorem Exact.drawnUnique {target : Target}
    (h : Exact (fun used => answerWithin env fuel (.roll target used)) start (keys entries))
    (ref : String) (count : Nat) :
    DrawnUnique env entries ref count
      (rollUnique env (answerWithin env fuel) target ref count count [] [] start).1 := by
  have hlength : (keys entries).length = entries.length := List.length_map _
  constructor
  · intro hpolicy
    obtain ⟨outcomes, ks, hrun, hkeyed, htaken, hcount⟩ := h.takes_min ref count hpolicy
    refine ⟨outcomes, hrun, ?_, hkeyed.different hnamed htaken⟩
    rw [hkeyed.length_eq, hcount, hlength]
  · intro hpolicy
    obtain ⟨henough, hfew⟩ := h.takes_all ref count hpolicy
    rw [hlength] at henough hfew
    refine ⟨fun hle => ?_, hfew⟩
    obtain ⟨outcomes, ks, hrun, hkeyed, htaken, hcount⟩ := henough hle
    exact ⟨outcomes, hrun, hkeyed.length_eq.trans hcount, hkeyed.different hnamed htaken⟩
  · intro hpolicy
    obtain ⟨outcomes, ks, c', hrun, hkeyed, hcount, hlaps⟩ :=
      h.cycles ref count hpolicy .start (.nil _) count []
    refine ⟨outcomes, congrArg Prod.fst hrun, hkeyed.length_eq.trans hcount, fun lap => ?_⟩
    rw [← hlength]
    have hround : Keyed ((outcomes.drop (lap * (keys entries).length)).take (keys entries).length)
        ((ks.drop (lap * (keys entries).length)).take (keys entries).length) :=
      List.forall₂_take _ (List.forall₂_drop _ hkeyed)
    refine ⟨hround.different hnamed (hlaps.lap h.nodup lap), fun hlap => ?_⟩
    rw [hround.entryIds, ← map_some_keys hnamed]
    exact (hlaps.perm h.nodup lap (hcount.symm ▸ hlap)).map some

end

/-- Nothing but a draw fails in the rolls of a table of plain texts that can be opened. -/
theorem undisturbed_of_plain (hadmits : Admits env t.id "table" t.shared owner start)
    (hresolves : (env.registry.inherit env.base t owner ⟨start.resolved, []⟩).1 = .ok table)
    (hsource : start.source.Proper) (hplain : ∀ e ∈ table.selectables, e.Plain)
    (hdefaults : table.defaultSets.getD [] = []) (fuel : Nat) :
    Undisturbed env (fuel + 2) t table owner start := by
  rintro used c hc ⟨s, hs⟩
  have hsteady : Steady env t table owner c :=
    hc.keeps Steady.rolls ⟨hadmits, hresolves, hsource⟩
  obtain ⟨drawn, -, -, hend⟩ := roll_of_draw (answerWithin env (fuel + 1)) hsteady.admits
    (Prod.ext hsteady.resolves rfl) (Prod.ext hs rfl)
  have hentry := hplain _ (SimpleTable.drew_of_draw hs).entry
  obtain ⟨o, c', hrun⟩ := sure_outcomeOf env hentry hdefaults fuel drawn
  exact ⟨o, hend.result.trans (congrArg Prod.fst hrun)⟩

/-- Draws without replacement from a resolved table are exact where its ids are distinct, an entry
can be drawn, the ranges pass their check and neither of them, nor their span, is wider than every
double, and nothing but a draw fails. -/
theorem rollMany_unique {ref id : String} (count : Nat)
    (htarget : env.registry.resolve ref id = .ok ⟨.table (.simple t), owner⟩)
    (hinherits : env.registry.Inherits owner t table)
    (hresolves : (env.registry.inherit env.base t owner ⟨start.resolved, []⟩).1 = .ok table)
    (hids : (table.entries.map (·.id)).Nodup) (hdrawable : table.Drawable)
    (hsome : table.selectables ≠ []) (hsource : start.source.Proper)
    (hquiet : Undisturbed env fuel t table owner start) :
    DrawnUnique env table.selectables ref count
      (rollMany env (answerWithin env fuel) ref count id true start).1 := by
  have hnamed : ∀ e ∈ table.entries, e.idText ≠ "" := fun e he => hinherits.idText_ne_empty he
  have hnamed' : ∀ e ∈ table.selectables, e.idText ≠ "" :=
    fun e he => hnamed e (SimpleTable.mem_selectables.1 he).1
  have htexts : (table.entries.map (·.idText)).Nodup := by
    have hmap : (table.entries.map (·.id)) = (table.entries.map (·.idText)).map some := by
      rw [List.map_map]
      exact List.map_congr_left fun e he => Entry.id_of_idText (hnamed e he)
    rw [hmap] at hids
    exact hids.of_map _
  have hexact := exact_rollsOf htexts hnamed hdrawable hsome hresolves hsource hquiet
  have hrun : rollMany env (answerWithin env fuel) ref count id true start =
      rollUnique env (answerWithin env fuel) ⟨.table (.simple t), owner⟩ ref count count [] []
        start := by
    rw [rollMany, htarget]
    rfl
  rw [hrun]
  exact hexact.drawnUnique hnamed' ref count

/-- A table with two ranges goes round in laps of two. -/
theorem rollMany_unique_of_two_ranges :
    let t : SimpleTable := { id := "t", entries := [
      { id := some "low", range := some ⟨1, 3⟩, value := some "small" },
      { id := some "high", range := some ⟨4, 6⟩, value := some "large" }] }
    let document : Document := {
      metadata := { name := "n", namespaceText := "c" }, tables := [.simple t] }
    let env : Surroundings := {
      registry := ⟨[{ id := "c", document }]⟩, base := {}
      config := { uniqueOverflow := .cycle }, collectionId := "c", statics := [] }
    t.selectables.map (·.id) = [some "low", some "high"] ∧
    DrawnUnique env t.selectables "t" 4 (rollMany env (answerWithin env 2) "t" 4 "c" true {}).1 := by
  intro t document env
  have hselectables : t.selectables.map (·.id) = [some "low", some "high"] := by decide +kernel
  have hpoints : ∀ e ∈ t.entries, e.points = .ok ⟨3 * Weight.unitsOfOne⟩ := by decide +kernel
  have hforward : ∀ r ∈ t.ranges, r.Forward := by
    intro r hr
    rcases List.mem_pair.1 (hr : r ∈ [⟨1, 3⟩, ⟨4, 6⟩]) with rfl | rfl <;> simp [RollRange.Forward]
  have hdrawable : t.Drawable := by
    refine ⟨fun e he => ⟨_, hpoints e he⟩, ?_, fun _ => hforward, fun _ => ?_⟩
    · rintro all hall
      obtain rfl : ⟨1, 6⟩ = all := Option.some.inj hall
      exact ⟨⟨6 * Weight.unitsOfOne⟩, by decide +kernel⟩
    · exact (SimpleTable.partitioned_iff hforward "").2 (by cbv)
  have hplain : ∀ e ∈ t.selectables, e.Plain := by
    intro e he
    rcases List.mem_pair.1 (SimpleTable.mem_selectables.1 he).1 with rfl | rfl
    · exact ⟨by cbv, rfl, rfl⟩
    · exact ⟨by cbv, rfl, rfl⟩
  have hsome : t.selectables ≠ [] := fun hnone => by simp [hnone] at hselectables
  have hsource : ({} : Context).source.Proper := by simp [Source.ofDraws, Source.Proper]
  have hquiet : Undisturbed env 2 t t "c" {} :=
    undisturbed_of_plain ⟨by decide, rfl⟩ rfl hsource hplain rfl 0
  exact ⟨hselectables,
    rollMany_unique 4 (by cbv) (.own rfl) rfl (by decide) hdrawable hsome hsource hquiet⟩

/-- A table whose only range is wider than every double passes all checks, but its entry is not
drawn once. -/
theorem rollMany_overflows_of_wide_range :
    let entry : Entry := {
      id := some "e", range := some ⟨1, Number.twoTo 1024⟩, value := some "v"
      given := [.id, .range, .value] }
    let t : SimpleTable := { id := "t", entries := [entry] }
    let document : Document := {
      metadata := { name := "n", namespaceText := "c" }, tables := [.simple t] }
    let env (policy : Overflow) : Surroundings := {
      registry := ⟨[{ id := "c", document }]⟩, base := {}
      config := { uniqueOverflow := policy }, collectionId := "c", statics := [] }
    (document.errors = [] ∧ t.Partitioned ∧ entry.Plain ∧ entry.range.any (0 < ·.size)) ∧
    ∀ policy, (rollMany (env policy) (answerWithin (env policy) 2) "t" 1 "c" true {}).1 =
      .error (.fault .overflow) := by
  intro entry t document env
  have hforward : ∀ r ∈ t.ranges, r.Forward := by
    have hone : (1 : Int) ≤ Number.twoTo 1024 := by decide +kernel
    exact List.forall_mem_singleton.2 hone
  have hchecked : (Integrity.rangesFindings "" t.entries).isEmpty = true := by decide +kernel
  have hsound : document.errors.isEmpty = true := by decide +kernel
  refine ⟨⟨List.isEmpty_iff.1 hsound, ?_, ⟨by cbv, rfl, rfl⟩, by decide +kernel⟩, fun policy => ?_⟩
  · exact (SimpleTable.partitioned_iff hforward "").2 (List.isEmpty_iff.1 hchecked)
  have hfault : ((rollMany (env policy) (answerWithin (env policy) 2) "t" 1 "c" true {}).1.map
      fun _ => ()) = .error (.fault .overflow) := by
    cases policy <;> decide +kernel
  exact Except.map_eq_error hfault

end Eval

end RandomTables
