-- SUMMARY: When excluding the keys of drawn entries removes exactly these from a pool.
import RandomTables.Proofs.Selection.Weights

/-!
# Draws from a pool without replacement

An entry of a pool comes from a table of a collection, and has an id there. The key that excludes it
joins the ids of its table and of itself by a slash, without the collection. So the keys of drawn
entries remove exactly these if no other entry of the pool has such a key, as is the case where ids
of tables have no slash and tables of the same id are of the same collection.
-/
namespace RandomTables

/-- What tells the entries of a pool apart. -/
structure Origin where
  collectionId : String
  tableId : String
  entryId : String
  deriving DecidableEq, Repr

/-- The key of the entry from an origin. -/
def Origin.key (o : Origin) : String := o.tableId ++ "/" ++ o.entryId

def Candidate.origin (c : Candidate) : Origin := ⟨c.collectionId, c.tableId, c.entry.idText⟩

def Selection.origin (s : Selection) : Origin := ⟨s.collectionId, s.tableId, s.entry.idText⟩

/-- A selection that a draw from a pool gave, whatever was excluded from it. -/
def Selection.DrawnFrom (members : List (SimpleTable × String)) (s : Selection) : Prop :=
  ∃ owner excluded source, (drawPooled members owner excluded source).1 = .ok s

variable {members : List (SimpleTable × String)} {excluded : List String} {c : Candidate}

/-! ## Candidates -/

theorem poolOf_eq_filter (members : List (SimpleTable × String)) (excluded : List String) :
    poolOf members excluded =
      (poolOf members []).filter fun c => !excluded.contains c.key := by
  have hall : (fun c : Candidate => !([] : List String).contains c.key) = fun _ => true := rfl
  rw [poolOf, poolOf, hall, List.filter_true]

theorem mem_poolOf : c ∈ poolOf members excluded ↔
    c ∈ poolOf members [] ∧ c.key ∉ excluded := by
  rw [poolOf_eq_filter members excluded]
  simp

/-- The candidates of a pool are the entries of its members, under the keys of their origins. -/
theorem exists_member_of_mem_poolOf (h : c ∈ poolOf members excluded) :
    c.key = c.origin.key ∧ ∃ m ∈ members, c.From m.1 m.2 := by
  obtain ⟨entries, hentries, hc⟩ := List.mem_flatten.1 (List.mem_filter.1 h).1
  obtain ⟨m, hm, rfl⟩ := List.mem_map.1 hentries
  obtain ⟨e, he, rfl⟩ := List.mem_map.1 hc
  exact ⟨rfl, m, hm, he, rfl, rfl⟩

/-- What a draw from a pool with an entry left does. -/
theorem drawPooled_of_ne_nil {owner : String} (h : poolOf members excluded ≠ []) :
    drawPooled members owner excluded =
      Draw.lift (Candidate.weigh (poolOf members excluded)) >>= Candidate.draw := by
  unfold drawPooled
  generalize poolOf members excluded = pool at h
  cases pool with
  | nil => exact absurd rfl h
  | cons first rest => rfl

/-- A draw from a pool gives an entry that was not excluded. -/
theorem mem_poolOf_of_drawPooled {owner : String} {source : Source} {s : Selection}
    (h : (drawPooled members owner excluded source).1 = .ok s) :
    s.candidate ∈ poolOf members excluded := by
  by_cases hempty : poolOf members excluded = []
  · rw [drawPooled, hempty] at h
    cases h
  · rw [drawPooled_of_ne_nil hempty] at h
    obtain ⟨weighed, source', hlift, hdraw⟩ := Computation.bind_eq_ok (Prod.ext h rfl)
    have hmem := Candidate.mem_of_draw (congrArg Prod.fst hdraw)
    rw [(Candidate.weigh_eq_ok (Draw.eq_of_lift hlift)).1] at hmem
    exact hmem

namespace Selection.DrawnFrom

variable {s : Selection} (h : s.DrawnFrom members)
include h

theorem mem_poolOf : s.candidate ∈ poolOf members [] := by
  obtain ⟨owner, excluded, source, hdraw⟩ := h
  exact (RandomTables.mem_poolOf.1 (mem_poolOf_of_drawPooled hdraw)).1

theorem key_eq : s.key = s.origin.key := (exists_member_of_mem_poolOf h.mem_poolOf).1

end Selection.DrawnFrom

/-- A pool of entries of positive weight can be drawn from. -/
theorem exists_drawnFrom (hne : poolOf members [] ≠ [])
    (hpoints : ∀ m ∈ members, ∀ e ∈ m.1.entries, ∃ w, e.points = .ok w ∧ 0 < w.units) :
    ∃ s : Selection, s.DrawnFrom members := by
  have hcandidate : ∀ c ∈ poolOf members [], ∃ w, c.entry.points = .ok w ∧ 0 < w.units := by
    intro c hc
    obtain ⟨-, m, hm, hfrom⟩ := exists_member_of_mem_poolOf hc
    exact hpoints m hm c.entry hfrom.entry
  obtain ⟨weighed, hweighed⟩ := Candidate.exists_weigh fun c hc =>
    (hcandidate c hc).imp fun _ h => h.1
  obtain ⟨hcandidates, hpointsOf⟩ := Candidate.weigh_eq_ok hweighed
  have hpositive : ∀ p ∈ weighed, 0 < p.2.units := by
    intro p hp
    obtain ⟨w, hw, hpos⟩ := hcandidate p.1 (hcandidates ▸ List.mem_map_of_mem hp)
    obtain rfl : w = p.2 := Except.ok.inj (hw.symm.trans (hpointsOf p hp))
    exact hpos
  have hsome : weighed ≠ [] := by
    rintro rfl
    exact hne hcandidates.symm
  obtain ⟨p, hp⟩ := List.exists_mem_of_ne_nil weighed hsome
  obtain ⟨s, -, -, -, -, hdraw⟩ := Candidate.draw_apply
    (fun p hp => Int.le_of_lt (hpositive p hp)) ⟨p, hp, hpositive p hp⟩ (.ofDraws [])
  refine ⟨s, "", [], .ofDraws [], ?_⟩
  rw [drawPooled_of_ne_nil hne, hweighed]
  exact congrArg Prod.fst hdraw

/-! ## Keys -/

/-- An id without a slash is read off a key. -/
theorem Origin.parts_of_key {o o' : Origin} (ho : '/' ∉ o.tableId.toList)
    (ho' : '/' ∉ o'.tableId.toList) (h : o.key = o'.key) :
    o.tableId = o'.tableId ∧ o.entryId = o'.entryId := by
  have htext : o.tableId.toList ++ '/' :: o.entryId.toList =
      o'.tableId.toList ++ '/' :: o'.entryId.toList := by
    have hlist := congrArg String.toList h
    simpa [key, String.toList_append, List.append_assoc] using hlist
  have hbefore : ∀ first rest : List Char, '/' ∉ first →
      (first ++ '/' :: rest).takeWhile (· != '/') = first := by
    intro first rest hnone
    have hall : ∀ c ∈ first, (c != '/') = true := fun c hc => bne_iff_ne.2 fun h => hnone (h ▸ hc)
    rw [List.takeWhile_append_of_pos hall, List.takeWhile_cons_of_neg (by simp), List.append_nil]
  have htable : o.tableId.toList = o'.tableId.toList := by
    rw [← hbefore _ _ ho, htext, hbefore _ _ ho']
  rw [htable] at htext
  have hentry := List.tail_eq_of_cons_eq (List.append_cancel_left htext)
  exact ⟨String.toList_inj.1 htable, String.toList_inj.1 hentry⟩

/-- Entries of a pool are told apart by their keys if the ids of tables have no slash and tables of
the same id are of the same collection. -/
theorem origin_eq_of_key {c c' : Candidate} (hslash : ∀ m ∈ members, '/' ∉ m.1.id.toList)
    (hone : ∀ m ∈ members, ∀ m' ∈ members, m.1.id = m'.1.id → m.2 = m'.2)
    (hc : c ∈ poolOf members []) (hc' : c' ∈ poolOf members []) (h : c.key = c'.key) :
    c.origin = c'.origin := by
  obtain ⟨hkey, m, hm, -, htable, hcollection⟩ := exists_member_of_mem_poolOf hc
  obtain ⟨hkey', m', hm', -, htable', hcollection'⟩ := exists_member_of_mem_poolOf hc'
  have hnone : '/' ∉ c.tableId.toList := htable ▸ hslash m hm
  have hnone' : '/' ∉ c'.tableId.toList := htable' ▸ hslash m' hm'
  rw [hkey, hkey'] at h
  obtain ⟨hsame, hentry⟩ := Origin.parts_of_key hnone hnone' h
  have hid : m.1.id = m'.1.id := htable.symm.trans (hsame.trans htable')
  have hhome : c.collectionId = c'.collectionId :=
    hcollection.trans ((hone m hm m' hm' hid).trans hcollection'.symm)
  exact Origin.mk.injEq .. |>.mpr ⟨hhome, hsame, hentry⟩

/-! ## Exclusion -/

/-- The keys of drawn entries leave just the other entries in the pool exactly if no entry that was
not drawn has the key of a drawn one. So it is where ids of tables have no slash and tables of the
same id are of the same collection. -/
theorem poolOf_drawn {drawn : List Selection} (hdrawn : ∀ s ∈ drawn, s.DrawnFrom members) :
    (poolOf members (drawn.map (·.key)) =
        (poolOf members []).filter (fun c => c.origin ∉ drawn.map (·.origin)) ↔
      ∀ c ∈ poolOf members [], c.key ∈ drawn.map (·.key) → c.origin ∈ drawn.map (·.origin)) ∧
    ((∀ m ∈ members, '/' ∉ m.1.id.toList) →
      (∀ m ∈ members, ∀ m' ∈ members, m.1.id = m'.1.id → m.2 = m'.2) →
      poolOf members (drawn.map (·.key)) =
        (poolOf members []).filter fun c => c.origin ∉ drawn.map (·.origin)) := by
  have hkeys : ∀ c ∈ poolOf members [], c.origin ∈ drawn.map (·.origin) →
      c.key ∈ drawn.map (·.key) := by
    intro c hc hin
    obtain ⟨s, hs, horigin⟩ := List.mem_map.1 hin
    refine List.mem_map.2 ⟨s, hs, ?_⟩
    rw [(hdrawn s hs).key_eq, horigin, (exists_member_of_mem_poolOf hc).1]
  have hexact : poolOf members (drawn.map (·.key)) =
        (poolOf members []).filter (fun c => c.origin ∉ drawn.map (·.origin)) ↔
      ∀ c ∈ poolOf members [], c.key ∈ drawn.map (·.key) → c.origin ∈ drawn.map (·.origin) := by
    constructor
    · intro hsame c hc hkey
      by_contra hother
      have hleft : c ∈ (poolOf members []).filter fun c => c.origin ∉ drawn.map (·.origin) :=
        List.mem_filter.2 ⟨hc, decide_eq_true hother⟩
      rw [← hsame] at hleft
      exact (mem_poolOf.1 hleft).2 hkey
    · intro honly
      rw [poolOf_eq_filter members (drawn.map (·.key))]
      refine List.filter_congr fun c hc => ?_
      have hgone : c.key ∈ drawn.map (·.key) ↔ c.origin ∈ drawn.map (·.origin) :=
        ⟨honly c hc, hkeys c hc⟩
      simp only [List.contains_eq_mem, hgone, decide_not]
  refine ⟨hexact, fun hslash hone => hexact.2 fun c hc hkey => ?_⟩
  obtain ⟨s, hs, hsame⟩ := List.mem_map.1 hkey
  have horigin := origin_eq_of_key hslash hone (hdrawn s hs).mem_poolOf hc hsame
  exact List.mem_map.2 ⟨s, hs, horigin⟩

/-- Tables of two collections have an entry of the same id, and one entry of the pool is drawn. -/
theorem poolOf_drawn_of_two_tables :
    let entry (id : String) : Entry := { id := some id, value := some id }
    let members : List (SimpleTable × String) :=
      [({ id := "colours", entries := [entry "red", entry "blue"] }, "a"),
        ({ id := "wines", entries := [entry "red"] }, "b")]
    ∃ s : Selection, s.DrawnFrom members ∧
      poolOf members [s.key] = (poolOf members []).filter fun c => c.origin ∉ [s.origin] := by
  intro entry members
  have hpoints : ∀ m ∈ members, ∀ e ∈ m.1.entries, ∃ w, e.points = .ok w ∧ 0 < w.units := by
    have hentry : ∀ id, ∃ w, (entry id).points = .ok w ∧ 0 < w.units :=
      fun id => ⟨.one, rfl, Weight.one_pos⟩
    simp [members, hentry]
  have hne : poolOf members [] ≠ [] := List.cons_ne_nil _ _
  obtain ⟨s, hs⟩ := exists_drawnFrom hne hpoints
  refine ⟨s, hs, (poolOf_drawn (List.forall_mem_singleton.2 hs)).2 ?_ ?_⟩
  · simp [members]
  · simp [members]

/-- Tables of the same id in two collections have an entry of the same id, and the draw of one of
them removes both. An id with a slash does the same to tables of one collection. -/
theorem poolOf_forgets_origin :
    let table (id entryId : String) : SimpleTable :=
      { id, entries := [{ id := some entryId, value := some entryId }] }
    ∀ members ∈ [[(table "t" "e", "a"), (table "t" "e", "b")],
      [(table "t" "u/e", "a"), (table "t/u" "e", "a")]],
      ((poolOf members []).map (·.origin)).Nodup ∧ (poolOf members []).length = 2 ∧
      ∃ s : Selection, s.DrawnFrom members ∧ poolOf members [s.key] = [] := by
  intro table members hmembers
  have hpoints : ∀ m ∈ members, ∀ e ∈ m.1.entries, ∃ w, e.points = .ok w ∧ 0 < w.units := by
    have hentry : ∀ id, ∃ w, ({ id := some id, value := some id } : Entry).points = .ok w ∧
        0 < w.units := fun id => ⟨.one, rfl, Weight.one_pos⟩
    rcases List.mem_pair.1 hmembers with rfl | rfl <;> simp [table, hentry]
  have hkeys : ∃ key, ∀ c ∈ poolOf members [], c.key = key := by
    rcases List.mem_pair.1 hmembers with rfl | rfl
    · exact ⟨"t/e", by decide⟩
    · exact ⟨"t/u/e", by decide⟩
  have horigins : ((poolOf members []).map (·.origin)).Nodup ∧ (poolOf members []).length = 2 := by
    rcases List.mem_pair.1 hmembers with rfl | rfl <;> decide
  obtain ⟨key, hkey⟩ := hkeys
  obtain ⟨s, hs⟩ := exists_drawnFrom (List.ne_nil_of_length_pos (by omega)) hpoints
  refine ⟨horigins.1, horigins.2, s, hs, List.eq_nil_iff_forall_not_mem.2 fun c hc => ?_⟩
  obtain ⟨hc, hout⟩ := mem_poolOf.1 hc
  have hsame : c.key = s.key := (hkey c hc).trans (hkey s.candidate hs.mem_poolOf).symm
  exact hout (hsame ▸ List.mem_singleton_self _)

end RandomTables
