-- SUMMARY: What rolls publish, and what placeholders read after a roll.
import RandomTables.Proofs.Evaluation.SimpleRoll
import RandomTables.Proofs.Evaluation.Tracking
import RandomTables.Proofs.Evaluation.UniqueSources
import RandomTables.Proofs.Selection.Pool

/-!
# Published sets

A roll publishes the sets of its entry before it evaluates the value, and the value after that,
over what was published for the table before. Nothing is ever unpublished. So a placeholder reads
what the last roll published for it if that roll published it at all and nothing it evaluated in
between did; any other property still reads what an earlier roll left.
-/
namespace RandomTables

namespace Context

/-- What is published for a property of a table. -/
def published (c : Context) (id property : String) : Option Content :=
  (c.placeholders.get? id).bind fun sets => sets.get? property

theorem published_congr {c c' : Context} (h : c'.placeholders = c.placeholders)
    (id property : String) : c'.published id property = c.published id property := by
  rw [published, published, h]

/-- Sets are published over what was published before. -/
theorem published_publish (c : Context) (id : String) (sets : Assoc Content)
    (other property : String) :
    (c.publish id sets).published other property =
      if other = id then (Assoc.get? sets.reverse property).or (c.published id property)
      else c.published other property := by
  unfold published publish
  dsimp only
  rw [Assoc.get?_put]
  split
  · rw [Option.bind_some, Assoc.get?_putAll]
    cases c.placeholders.get? id <;> rfl
  · rfl

/-- Everything that was published still is, with the same text or another one. -/
def Published (c c' : Context) : Prop :=
  ∀ id property, (c.published id property).isSome → (c'.published id property).isSome

theorem Published.of_same {c c' : Context} (h : c'.placeholders = c.placeholders) :
    c.Published c' := fun id property hsome => by rwa [published_congr h]

theorem Published.publish (c : Context) (id : String) (sets : Assoc Content) :
    c.Published (c.publish id sets) := by
  intro other property h
  rw [published_publish]
  split
  · rename_i hsame
    rw [Option.isSome_or, ← hsame, h, Bool.or_true]
  · exact h

end Context

/-- What a roll publishes for a property: its set, and for the value its text unless a set goes by
that name. -/
def Outcome.publishes (o : Outcome) (property : String) : Option Content :=
  (Assoc.get? o.sets.reverse property).or
    (if property = "value" then some (.text o.text) else none)

namespace Eval

/-! ## Along evaluations -/

/-- Evaluations publish and never unpublish. -/
def publishing : Tracking where
  stands _ := True
  leads := Context.Published
  ends _ := True

theorem lawful_publishing (assigns : String → Prop) : publishing.Lawful assigns where
  refl _ _ _ h := h
  trans _ _ _ h h' id property hsome := h' id property (h id property hsome)
  stands _ _ _ _ := trivial
  ends _ _ _ _ _ := trivial
  change f hf c := by
    cases hf with
    | publish name sets => exact .publish c name sets
    | capture name items =>
        refine .of_same ?_
        unfold Context.capture
        dsimp only
        split <;> rfl
    | _ => exact .of_same rfl
  draw _ _ := .of_same rfl
  resolve _ _ _ := .of_same rfl
  assign _ _ _ _ _ _ _ := .of_same rfl
  opens _ _ _ _ _ := trivial
  closes c d close e h _ hleads := by
    cases h <;> exact hleads
  inside _ _ _ _ _ _ _ _ := trivial

variable {env : Surroundings} {α : Type}

theorem published_of_evaluation {assigns : String → Prop} {x : Answer → Eval α}
    (hx : Evaluation assigns x) (fuel : Nat) (c : Context) :
    c.Published (x (answerWithin env fuel) c).2 :=
  (lawful_publishing assigns).leads_evaluation hx fuel trivial

/-! ## What a roll draws -/

/-- A roll may draw an entry, and evaluates it as one of a resolved table. A composite table rolls
one of its sources. A collection table takes the first of its members with the id and the collection
of the entry that was drawn. -/
inductive Selects (env : Surroundings) (excluded : List String) :
    Target → Selection → SimpleTable → Prop where
  | entry {t table : SimpleTable} {owner : String} {s : Selection} {resolved : Resolving}
      {source : Source}
      (inherits : (env.registry.inherit env.base t owner resolved).1 = .ok table)
      (drawn : (table.draw owner excluded source).1 = .ok s) :
      Selects env excluded ⟨.table (.simple t), owner⟩ s table
  | source {t : CompositeTable} {owner : String} {chosen : TableSource} {target : Target}
      {s : Selection} {table : SimpleTable}
      (mem : chosen ∈ t.sources) (resolves : env.registry.resolve chosen.tableId owner = .ok target)
      (selects : Selects env excluded target s table) :
      Selects env excluded ⟨.table (.composite t), owner⟩ s table
  | member {t : CollectionTable} {owner : String} {members : List (SimpleTable × String)}
      {m : SimpleTable × String} {s : Selection} {resolved : Resolving} {source : Source}
      (inherits : (env.registry.members env.base t owner t.members resolved).1 = .ok members)
      (drawn : (drawPooled members t.id excluded source).1 = .ok s)
      (first : (members.find? fun m => m.1.id = s.tableId && m.2 = s.collectionId) = some m) :
      Selects env excluded ⟨.table (.collection t), owner⟩ s m.1

/-- A roll may expand a template, if a composite table has it for a source. -/
inductive Expands (env : Surroundings) : Target → Prop where
  | template {t : Template} {owner : String} : Expands env ⟨.template t, owner⟩
  | source {t : CompositeTable} {owner : String} {chosen : TableSource} {target : Target}
      (mem : chosen ∈ t.sources) (resolves : env.registry.resolve chosen.tableId owner = .ok target)
      (expands : Expands env target) : Expands env ⟨.table (.composite t), owner⟩

/-- The entry is one of a table with the id of the one that it is evaluated for. -/
theorem Selects.exists_entry {env : Surroundings} {excluded : List String} {target : Target}
    {s : Selection} {table : SimpleTable} (h : Selects env excluded target s table) :
    ∃ home : SimpleTable, s.entry ∈ home.entries ∧ home.id = table.id := by
  induction h with
  | @entry t table owner s resolved source inherits drawn =>
      have hdrew := SimpleTable.drew_of_draw drawn
      exact ⟨table, (SimpleTable.mem_selectables.1 hdrew.entry).1, rfl⟩
  | source mem resolves selects ih => exact ih
  | member inherits drawn first =>
      obtain ⟨-, home, -, hfrom⟩ := exists_member_of_mem_poolOf (mem_poolOf_of_drawPooled drawn)
      have hfirst := List.find?_some first
      have hid := of_decide_eq_true (Bool.and_eq_true_iff.1 hfirst).1
      exact ⟨home.1, hfrom.entry, hfrom.tableId.symm.trans hid.symm⟩

/-! ## The course of a roll -/

/-- What a roll publishes before it evaluates its value. -/
def withSets (o : Outcome) (c : Context) : Context :=
  if !o.sets.isEmpty then c.publish o.tableId o.sets else c

/-- What a roll publishes once its value is evaluated. -/
def withValue (o : Outcome) (c : Context) : Context :=
  if !o.sets.has "value" then c.publish o.tableId [("value", .text o.text)] else c

/-- The course of a roll that drew an entry: its sets are evaluated and published, then its value,
and then its description is evaluated. -/
structure Realization (env : Surroundings) (excluded : List String) (target : Target) (c : Context)
    (o : Outcome) (c' : Context) where
  fuel : Nat
  selection : Selection
  table : SimpleTable
  began : Context
  settled : Context
  valued : Context
  told : Context
  ended : Context
  selects : Selects env excluded target selection table
  key : o.key = some selection.key
  entryId : o.entryId = selection.entry.id
  tableId : o.tableId = table.id
  collectionId : o.collectionId = selection.collectionId
  starts : began.placeholders = c.placeholders
  sets : renderSets env (answerWithin env fuel) o.collectionId o.tableId
    (Assoc.putAll (table.defaultSets.getD []) selection.entry.sets) began = (.ok o.sets, settled)
  value : answerWithin env fuel (.pattern (selection.entry.value.getD "") o.collectionId)
    (withSets o settled) = (.ok o.text, valued)
  tells : told.placeholders = (withValue o valued).placeholders
  description : evalDescription (answerWithin env fuel) table selection o.text told =
    (.ok o.description, ended)
  ends : c'.placeholders = ended.placeholders

section

variable {excluded : List String} {target : Target} {c c' d d' : Context} {o : Outcome}

/-- The course of a roll is seen from around it. -/
def Realization.around (r : Realization env excluded target d o d')
    (hstart : d.placeholders = c.placeholders) (hend : c'.placeholders = d'.placeholders) :
    Realization env excluded target c o c' :=
  { r with starts := r.starts.trans hstart, ends := hend.trans r.ends }

/-- Another result type leaves the course of a roll as it is. -/
def Realization.typed (r : Realization env excluded target c o c') (resultType : Option String) :
    Realization env excluded target c (Outcome.typed o resultType) c' :=
  { r with }

/-- A roll draws an entry and takes the course of that one, or expands a template in place of a
table. -/
def Realized (env : Surroundings) (excluded : List String) (target : Target) (c : Context)
    (o : Outcome) (c' : Context) : Prop :=
  (o.key = none ∧ Expands env target) ∨ Nonempty (Realization env excluded target c o c')

theorem Realized.around (h : Realized env excluded target d o d')
    (hstart : d.placeholders = c.placeholders) (hend : c'.placeholders = d'.placeholders) :
    Realized env excluded target c o c' := h.imp_right fun ⟨r⟩ => ⟨r.around hstart hend⟩

theorem Realized.typed (h : Realized env excluded target c o c') (resultType : Option String) :
    Realized env excluded target c (Outcome.typed o resultType) c' :=
  h.imp_right fun ⟨r⟩ => ⟨r.typed resultType⟩

/-- What a source of a composite table gives is what that table gives. -/
theorem Realized.source (h : Realized env excluded target c o c') {t : CompositeTable}
    {owner : String} {chosen : TableSource} (hmem : chosen ∈ t.sources)
    (hresolves : env.registry.resolve chosen.tableId owner = .ok target) :
    Realized env excluded ⟨.table (.composite t), owner⟩ c o c' :=
  h.imp (fun h => ⟨h.1, .source hmem hresolves h.2⟩)
    fun ⟨r⟩ => ⟨{ r with selects := .source hmem hresolves r.selects }⟩

end

/-- What is evaluated between opening and closing. -/
theorem bracket_eq_ok {opened c c' : Context} {close : Except Failure α → Context → Context}
    {x : Eval α} {a : α} (h : bracket opened close x c = (.ok a, c')) :
    ∃ ended, x opened = (.ok a, ended) ∧ c' = close (.ok a) ended := by
  obtain ⟨hresult, rfl⟩ := Prod.mk.inj h
  refine ⟨(x opened).2, Prod.ext hresult rfl, ?_⟩
  rw [show (x opened).1 = .ok a from hresult]

/-- What is evaluated inside a step of the trace. -/
theorem inside_eq_ok {begun : Option Nat × OpenTrace} {f : Option Nat → Eval α} {c c' : Context}
    {a : α} (h : inside begun f c = (.ok a, c')) :
    ∃ ended, f begun.1 { c with trace := begun.2 } = (.ok a, ended) ∧
      c'.placeholders = ended.placeholders := by
  obtain ⟨hresult, rfl⟩ := Prod.mk.inj h
  exact ⟨_, Prod.ext hresult rfl, rfl⟩

theorem liftResolution_eq_ok {x : Except ResolutionFailure α} {c c' : Context} {a : α}
    (h : liftResolution x c = (.ok a, c')) : x = .ok a ∧ c' = c := by
  cases x with
  | ok b =>
      cases h
      exact ⟨rfl, rfl⟩
  | error e => cases h

/-- A change that is made in one case only. -/
theorem modify_if_apply (p : Prop) [Decidable p] (f : Context → Context) (k : Unit → Eval α)
    (c : Context) :
    (if p then modify f >>= k else k () : Eval α) c = k () (if p then f c else c) := by
  split <;> rfl

/-- The outcome of an entry is that of its course. -/
theorem realization_outcomeOf {fuel : Nat} {excluded : List String} {target : Target}
    {s : Selection} {table : SimpleTable} {c c' : Context} {o : Outcome}
    (hs : Selects env excluded target s table)
    (h : outcomeOf env (answerWithin env fuel) s table c = (.ok o, c')) :
    Nonempty (Realization env excluded target c o c') := by
  obtain ⟨_, c₁, hnote, h⟩ := Computation.bind_eq_ok h
  obtain ⟨⟨sets, text⟩, c₂, hframe, h⟩ := Computation.bind_eq_ok h
  cases hnote
  rw [withFrame, Computation.get_bind_apply] at hframe
  obtain ⟨valued, hbody, rfl⟩ := bracket_eq_ok hframe
  obtain ⟨sets', settled, hsets, hbody⟩ := Computation.bind_eq_ok hbody
  dsimp only at hbody h
  rw [modify_if_apply] at hbody h
  obtain ⟨text', valued', hvalue, hbody⟩ := Computation.bind_eq_ok hbody
  cases hbody
  obtain ⟨description, ended, hdescription, h⟩ := Computation.bind_eq_ok h
  cases h
  refine ⟨{
    fuel, selection := s, table, settled, valued, began := _, told := _, ended := _
    selects := hs, key := rfl, entryId := rfl, tableId := rfl, collectionId := rfl
    starts := ?_, sets := hsets, value := hvalue, tells := ?_, description := hdescription
    ends := rfl }⟩
  · rfl
  · unfold withValue
    split <;> rfl

/-- Opening a level around an evaluation publishes nothing. -/
theorem atLevel_eq_ok {id owner collectionId : String} {step : TraceStep}
    {shared : Option (Assoc String)} {body : Option Nat → Eval α} {c c' : Context} {a : α}
    (h : atLevel env id owner step shared collectionId body c = (.ok a, c')) :
    ∃ node began ended, began.placeholders = c.placeholders ∧
      body node began = (.ok a, ended) ∧ c'.placeholders = ended.placeholders := by
  rw [atLevel, descending_apply] at h
  split at h
  · cases h
  · obtain ⟨c₁, htraced, rfl⟩ := bracket_eq_ok h
    rw [traced, Computation.get_bind_apply] at htraced
    obtain ⟨c₂, hscope, htrace⟩ := inside_eq_ok htraced
    rw [inScope_apply] at hscope
    rw [Context.ascend, htrace]
    split at hscope
    · cases hscope
    · refine ⟨_, _, _, ?_, hscope, rfl⟩
      rfl
    · obtain ⟨c₃, hbody, rfl⟩ := bracket_eq_ok hscope
      refine ⟨_, _, _, ?_, hbody, rfl⟩
      rfl

/-- Where a step publishes nothing, it ends with what it began with. -/
theorem placeholders_of_eq {x : Eval α} {c c' : Context} {r : Except Failure α} (h : x c = (r, c'))
    (hx : (x c).2.placeholders = c.placeholders) : c'.placeholders = c.placeholders := by
  rwa [h] at hx

section

variable {fuel : Nat} {excluded : List String} {c c' : Context} {o : Outcome}

theorem realized_rollFrom
    (hcalls : ∀ target c c' o, answerWithin env fuel (.roll target excluded) c = (.ok o, c') →
      Realized env excluded target c o c')
    {t : Table} {owner : String}
    (h : rollFrom env (answerWithin env fuel) t owner excluded c = (.ok o, c')) :
    Realized env excluded ⟨.table t, owner⟩ c o c' := by
  cases t with
  | simple t =>
      obtain ⟨table, c₁, hresolving, h⟩ := Computation.bind_eq_ok h
      obtain ⟨s, c₂, hdraw, h⟩ := Computation.bind_eq_ok h
      have hfirst := placeholders_of_eq hresolving rfl
      have hsecond := (placeholders_of_eq hdraw rfl).trans hfirst
      have hselects : Selects env excluded ⟨.table (.simple t), owner⟩ s table :=
        .entry (congrArg Prod.fst hresolving) (congrArg Prod.fst hdraw)
      have hrealized : Realized env excluded ⟨.table (.simple t), owner⟩ c₂ o c' :=
        .inr (realization_outcomeOf hselects h)
      exact hrealized.around hsecond rfl
  | composite t =>
      obtain ⟨drawn, c₁, hdraw, h⟩ := Computation.bind_eq_ok h
      obtain ⟨_, c₂, hnote, h⟩ := Computation.bind_eq_ok h
      obtain ⟨target, c₃, hresolve, h⟩ := Computation.bind_eq_ok h
      obtain ⟨o', c₄, hroll, h⟩ := Computation.bind_eq_ok h
      cases h
      have hfirst := placeholders_of_eq hdraw rfl
      have hsecond := (placeholders_of_eq hnote rfl).trans hfirst
      have hmem : drawn.1 ∈ t.sources := CompositeTable.mem_of_draw (congrArg Prod.fst hdraw)
      obtain ⟨hresolves, rfl⟩ := liftResolution_eq_ok hresolve
      have hrealized := (hcalls target _ _ _ hroll).source hmem hresolves
      exact (hrealized.typed t.resultType).around hsecond rfl
  | collection t =>
      obtain ⟨members, c₁, hresolving, h⟩ := Computation.bind_eq_ok h
      obtain ⟨_, c₂, hnote, h⟩ := Computation.bind_eq_ok h
      obtain ⟨s, c₃, hdraw, h⟩ := Computation.bind_eq_ok h
      have hfirst := placeholders_of_eq hresolving rfl
      have hsecond := (placeholders_of_eq hnote rfl).trans hfirst
      have hthird := (placeholders_of_eq hdraw rfl).trans hsecond
      dsimp only at h
      generalize hfirst : members.find? _ = found at h
      cases found with
      | none => cases h
      | some found =>
          obtain ⟨o', c₄, houtcome, h⟩ := Computation.bind_eq_ok h
          have hselects : Selects env excluded ⟨.table (.collection t), owner⟩ s found.1 :=
            .member (congrArg Prod.fst hresolving) (congrArg Prod.fst hdraw) hfirst
          have hrealized : Realized env excluded ⟨.table (.collection t), owner⟩ c₃ o' c₄ :=
            .inr (realization_outcomeOf hselects houtcome)
          cases h
          exact (hrealized.typed t.resultType).around hthird rfl

theorem realized_answer {target : Target}
    (h : answerWithin env fuel (.roll target excluded) c = (.ok o, c')) :
    Realized env excluded target c o c' := by
  induction fuel generalizing target excluded c c' o with
  | zero => cases h
  | succ fuel ih =>
      obtain ⟨definition, owner⟩ := target
      cases definition with
      | table t =>
          obtain ⟨node, began, ended, hbegan, hbody, hended⟩ := atLevel_eq_ok h
          obtain ⟨o', c₁, hroll, htold⟩ := Computation.bind_eq_ok hbody
          have hrolled := realized_rollFrom (fun _ _ _ _ h => ih h) hroll
          cases htold
          exact hrolled.around hbegan hended
      | template t =>
          obtain ⟨node, began, ended, hbegan, hbody, hended⟩ := atLevel_eq_ok h
          obtain ⟨text, c₁, -, htold⟩ := Computation.bind_eq_ok hbody
          cases htold
          exact .inl ⟨rfl, .template⟩

end

/-! ## What is read after a roll -/

/-- A placeholder reads what is published, or nothing. -/
theorem readPlaceholder_fst {id : String} (hid : id ≠ "self") (answer : Answer)
    (property : Option String) (c : Context) :
    (readPlaceholder env answer id property c).1 =
      .ok (((c.published id ((property.filter fun p => !p.isEmpty).getD "value")).map
        Content.value).getD "") := by
  have hread : c.placeholder? id property =
      (c.published id ((property.filter fun p => !p.isEmpty).getD "value")).map Content.value := rfl
  unfold readPlaceholder
  rw [if_neg hid, Computation.get_bind_apply, hread]
  cases c.published id ((property.filter fun p => !p.isEmpty).getD "value") <;> rfl

/-- Before the value is evaluated, a table's own sets count first. -/
theorem published_withSets (o : Outcome) (c : Context) (id property : String) :
    (withSets o c).published id property =
      if id = o.tableId then (Assoc.get? o.sets.reverse property).or (c.published id property)
      else c.published id property := by
  unfold withSets
  split
  · rw [Context.published_publish]
    split
    · rename_i hsame
      rw [hsame]
    · rfl
  · rename_i hempty
    have hnil : o.sets = [] := by simpa using hempty
    rw [hnil]
    simp only [List.reverse_nil, Assoc.get?_nil, Option.none_or, ite_self]

/-- Once the value is evaluated, only the property of that name may change. -/
theorem published_withValue (o : Outcome) (c : Context) (id property : String) :
    (withValue o c).published id property =
      if id = o.tableId ∧ property = "value" ∧ o.sets.has "value" = false then some (.text o.text)
      else c.published id property := by
  unfold withValue
  cases hvalue : o.sets.has "value" with
  | true => simp
  | false =>
      simp only [Bool.not_false, if_true, Context.published_publish, List.reverse_singleton,
        Assoc.get?_cons, Assoc.get?_nil, and_true]
      by_cases hid : id = o.tableId
      · by_cases hproperty : property = "value" <;> simp [hid, hproperty]
      · simp [hid]

/-- The names of the sets that are evaluated. -/
theorem keys_of_renderSets {answer : Answer} {collectionId tableId : String}
    {sets : List (String × String)} {c c' : Context} {contents : Assoc Content}
    (h : renderSets env answer collectionId tableId sets c = (.ok contents, c')) :
    contents.keys = Assoc.keys sets := by
  induction sets generalizing c c' contents with
  | nil =>
      cases h
      rfl
  | cons set rest ih =>
      obtain ⟨key, pattern⟩ := set
      have hrest : ∀ (content : Content) (c₁ : Context), (do
          let more ← renderSets env answer collectionId tableId rest
          return (key, content) :: more : Eval (Assoc Content)) c₁ = (.ok contents, c') →
          contents.keys = Assoc.keys ((key, pattern) :: rest) := by
        intro content c₁ h
        obtain ⟨more, c₂, hmore, h⟩ := Computation.bind_eq_ok h
        cases h
        exact congrArg (key :: ·) (ih hmore)
      rw [renderSets, Computation.get_bind_apply] at h
      dsimp only at h
      split at h
      · exact hrest _ _ h
      · split at h
        · exact hrest _ _ h
        · obtain ⟨content, c₁, -, h⟩ := Computation.bind_eq_ok h
          exact hrest _ _ h

namespace Realization

variable {excluded : List String} {target : Target} {c c' : Context} {o : Outcome}
  (r : Realization env excluded target c o c')

/-- Nothing else is published for a property of the table while the value and the description are
evaluated. For the value itself only the description matters, as it is published in between. -/
structure LeavesAlone (property : String) : Prop where
  value : property ≠ "value" ∨ o.sets.has "value" = true →
    r.valued.published o.tableId property = (withSets o r.settled).published o.tableId property
  description : r.ended.published o.tableId property = r.told.published o.tableId property

theorem exists_entry :
    ∃ home : SimpleTable, r.selection.entry ∈ home.entries ∧ home.id = o.tableId :=
  r.selects.exists_entry.imp fun _ h => ⟨h.1, h.2.trans r.tableId.symm⟩

/-- The sets of a roll have the names of those that the entry or the table has. -/
theorem isSome_sets (property : String) :
    (Assoc.get? o.sets.reverse property).isSome ↔
      property ∈ Assoc.keys (r.table.defaultSets.getD []) ∨
        property ∈ Assoc.keys r.selection.entry.sets := by
  have hkeys := keys_of_renderSets r.sets
  have hown : (Assoc.get? o.sets.reverse property).isSome ↔ property ∈ o.sets.keys := by
    rw [← Assoc.has_eq_reverse, Assoc.has, Assoc.isSome_get?_iff]
  have hlast : (Assoc.get? r.selection.entry.sets.reverse property).isSome ↔
      property ∈ Assoc.keys r.selection.entry.sets := by
    rw [← Assoc.has_eq_reverse, Assoc.has, Assoc.isSome_get?_iff]
  rw [hown, hkeys, ← Assoc.isSome_get?_iff, Assoc.get?_putAll, Option.isSome_or, Bool.or_eq_true,
    hlast, Assoc.isSome_get?_iff, or_comm]

/-- What is published before the sets of a roll still is when they are. -/
theorem published_settled : c.Published r.settled := by
  let x (answer : Answer) : Eval (Assoc Content) :=
    renderSets env answer o.collectionId o.tableId
      (Assoc.putAll (r.table.defaultSets.getD []) r.selection.entry.sets)
  have hx : Evaluation (fun _ => False) x := fun _ _ => .renderSets env _ _ _
  have hsets : r.began.Published (x (answerWithin env r.fuel) r.began).2 :=
    published_of_evaluation hx r.fuel r.began
  rw [show x (answerWithin env r.fuel) r.began = _ from r.sets] at hsets
  intro id property hsome
  exact hsets id property ((Context.published_congr r.starts id property).symm ▸ hsome)

theorem published_told (property : String) : r.told.published o.tableId property =
    if property = "value" ∧ o.sets.has "value" = false then some (.text o.text)
    else r.valued.published o.tableId property := by
  rw [Context.published_congr r.tells, published_withValue]
  simp only [true_and]

theorem published_end (id property : String) :
    c'.published id property = r.ended.published id property :=
  Context.published_congr r.ends id property

/-- A property is read as the roll published it, and else as it was when its sets were. -/
theorem published_of_leavesAlone {property : String} (h : r.LeavesAlone property) :
    c'.published o.tableId property =
      (o.publishes property).or (r.settled.published o.tableId property) := by
  rw [r.published_end, h.description, r.published_told, Outcome.publishes]
  cases hvalue : o.sets.has "value" with
  | false =>
      by_cases hproperty : property = "value"
      · subst hproperty
        have hnone : Assoc.get? o.sets.reverse "value" = none := by
          rw [← Option.not_isSome_iff_eq_none, ← Assoc.has_eq_reverse, hvalue]
          exact Bool.false_ne_true
        simp [hnone]
      · rw [if_neg fun h => hproperty h.1, if_neg hproperty, h.value (.inl hproperty),
          published_withSets, if_pos rfl, Option.or_none]
  | true =>
      rw [if_neg fun h => absurd h.2 (by decide), h.value (.inr hvalue), published_withSets,
        if_pos rfl]
      by_cases hproperty : property = "value"
      · subst hproperty
        have hsome : (Assoc.get? o.sets.reverse "value").isSome := by
          rw [← Assoc.has_eq_reverse]
          exact hvalue
        obtain ⟨content, hcontent⟩ := Option.isSome_iff_exists.1 hsome
        simp [hcontent]
      · rw [if_neg hproperty, Option.or_none]

end Realization

/-- A roll that does not come to a template draws an entry of a table and evaluates the sets that
the entry or the table has. After it, a property of that table is read as the roll published it, if
nothing else was published for it while the value and the description were evaluated. But what was
published before stays: a property that the roll does not publish reads what an earlier roll left.
So placeholders show exactly the last roll if and only if nothing more was published before it, and
where the table is rolled once more inside the value, its sets are those of the inner roll. -/
theorem placeholders_after_roll (env : Surroundings) (fuel : Nat) (t : Table) (owner : String)
    (excluded : List String) (c c' : Context) (o : Outcome)
    (h : roll env (answerWithin env fuel) ⟨.table t, owner⟩ excluded c = (.ok o, c')) :
    c.Published c' ∧
    (∀ (answer : Answer) (id : String) (property : Option String), id ≠ "self" →
      (readPlaceholder env answer id property c').1 =
        .ok (((c'.published id ((property.filter fun p => !p.isEmpty).getD "value")).map
          Content.value).getD "")) ∧
    ((o.key = none ∧ Expands env ⟨.table t, owner⟩) ∨
      ∃ r : Realization env excluded ⟨.table t, owner⟩ c o c',
        (∃ home : SimpleTable, r.selection.entry ∈ home.entries ∧ home.id = o.tableId) ∧
        (∀ property, (Assoc.get? o.sets.reverse property).isSome ↔
          property ∈ Assoc.keys (r.table.defaultSets.getD []) ∨
            property ∈ Assoc.keys r.selection.entry.sets) ∧
        c.Published r.settled ∧
        (∀ property, r.LeavesAlone property → c'.published o.tableId property =
          (o.publishes property).or (r.settled.published o.tableId property)) ∧
        ((∀ property, r.LeavesAlone property) →
          ((∀ property, c'.published o.tableId property = o.publishes property) ↔
            ∀ property, (r.settled.published o.tableId property).isSome →
              (o.publishes property).isSome)) ∧
        ∀ property, property ≠ "value" →
          r.ended.published o.tableId property = r.told.published o.tableId property →
          c'.published o.tableId property = r.valued.published o.tableId property) := by
  let x (answer : Answer) : Eval Outcome := roll env answer ⟨.table t, owner⟩ excluded
  have hx : Evaluation (fun _ => False) x := fun _ _ => .roll env _ _
  have hpublished : c.Published (x (answerWithin env fuel) c).2 := published_of_evaluation hx fuel c
  rw [show x (answerWithin env fuel) c = _ from h] at hpublished
  refine ⟨hpublished, fun answer id property hid => readPlaceholder_fst hid answer property c', ?_⟩
  have hcall : answerWithin env (fuel + 1) (.roll ⟨.table t, owner⟩ excluded) c = (.ok o, c') := h
  have hrealized := realized_answer hcall
  refine hrealized.imp_right fun ⟨r⟩ => ⟨r, r.exists_entry, r.isSome_sets, r.published_settled,
    fun _ => r.published_of_leavesAlone, fun halone => ⟨fun hexact property hsome => ?_,
      fun hcovered property => ?_⟩, fun property hproperty halone => ?_⟩
  · rw [← hexact property, r.published_of_leavesAlone (halone property), Option.isSome_or, hsome,
      Bool.or_true]
  · rw [r.published_of_leavesAlone (halone property)]
    have hcover := hcovered property
    cases hown : o.publishes property with
    | some content => rfl
    | none =>
        rw [hown] at hcover
        rw [Option.none_or, ← Option.not_isSome_iff_eq_none]
        exact fun hsome => absurd (hcover hsome) Bool.false_ne_true
  · rw [r.published_end, halone, r.published_told, if_neg fun h => hproperty h.1]

/-- What an earlier roll published is still read after a roll of an entry without sets. -/
theorem placeholders_after_roll_of_plain_entry :
    let t : SimpleTable := { id := "t", entries := [{ id := some "b", value := some "B" }] }
    let document : Document := {
      metadata := { name := "n", namespaceText := "c" }, tables := [.simple t] }
    let env : Surroundings := {
      registry := ⟨[{ id := "c", document }]⟩, base := {}, config := {}, collectionId := "c"
      statics := [] }
    let c : Context := { placeholders := [("t", [("p", .text "x")])] }
    let rolled := roll env (answerWithin env 9) ⟨.table (.simple t), "c"⟩ [] c
    ∃ o, rolled.1 = .ok o ∧ o.publishes "p" = none ∧ (rolled.2.published "t" "p").isSome ∧
      ∃ r : Realization env [] ⟨.table (.simple t), "c"⟩ c o rolled.2, c.Published r.settled := by
  intro t document env c rolled
  have hok : (rolled.1.toOption.map fun o => (o.publishes "p").isNone && o.key.isSome) =
      some true := by decide +kernel
  have hrolled : ∃ o, rolled = (.ok o, rolled.2) ∧ o.publishes "p" = none ∧ o.key.isSome := by
    generalize rolled = rolled at hok ⊢
    obtain ⟨result, c'⟩ := rolled
    cases result with
    | ok o =>
        obtain ⟨hnone, hkey⟩ := Bool.and_eq_true_iff.1 (Option.some.inj hok)
        exact ⟨o, rfl, Option.isNone_iff_eq_none.1 hnone, hkey⟩
    | error f => cases hok
  obtain ⟨o, ho, hnone, hkey⟩ := hrolled
  obtain ⟨hpublished, -, hrealized⟩ :=
    placeholders_after_roll env 9 (.simple t) "c" [] c rolled.2 o ho
  refine ⟨o, congrArg Prod.fst ho, hnone, hpublished "t" "p" rfl, ?_⟩
  rcases hrealized with ⟨hkeyless, -⟩ | ⟨r, -, -, hsettled, -⟩
  · rw [hkeyless] at hkey
    cases hkey
  · exact ⟨r, hsettled⟩

/-- After an entry with a set and then one without it, the placeholder still reads the set of the
first. After an entry that rolls its own table once more, it reads the value of the outer roll and
the set of the inner one. -/
theorem placeholder_left_by_other_rolls :
    let a : Entry := { value := some "A", sets := [("p", "x")], range := some ⟨1, 1⟩ }
    let b : Entry := { value := some "B", range := some ⟨2, 2⟩ }
    let t : SimpleTable := { id := "t", entries := [a, b] }
    let u : SimpleTable := { id := "u", entries := [
      { a with value := some "A\x7b\x7bu\x7d\x7d" }, { b with sets := [("p", "y")] }] }
    let document : Document := {
      metadata := { name := "n", namespaceText := "c" }, tables := [.simple t, .simple u] }
    let env : Surroundings := {
      registry := ⟨[{ id := "c", document }]⟩, base := {}, config := {}, collectionId := "c"
      statics := [] }
    let shown (text : String) : Option String :=
      (evalPattern env (answerWithin env 9) text "c"
        { source := .ofDraws [0, 999999] }).1.toOption
    shown "\x7b\x7bt\x7d\x7d\x7b\x7bt\x7d\x7d\x7b\x7b@t.p\x7d\x7d" = some "ABx" ∧
    shown "\x7b\x7bu\x7d\x7d \x7b\x7b@u.value\x7d\x7d \x7b\x7b@u.p\x7d\x7d" =
      some "AB AB y" := by
  intro a b t u document env shown
  exact ⟨by decide +kernel, by decide +kernel⟩

end Eval

end RandomTables
