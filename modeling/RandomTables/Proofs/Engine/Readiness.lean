-- SUMMARY: What the rules of a document promise to its evaluations.
import RandomTables.Proofs.Assoc
import RandomTables.Proofs.Engine.Caching
import RandomTables.Proofs.Registry.Local
import RandomTables.Proofs.Registry.Material

/-!
# Documents that are ready to be evaluated

The rules are checked when a document is loaded, and references are looked up when a table is rolled.
A reference without points that passed leads to a table of the document, unless a template hides the
table; and if the shared variables have distinct names, an evaluation can begin.
-/
namespace RandomTables

/-- No reference of a document to the parent or a member of a table has points, and no template hides
a table. -/
structure Document.SelfContained (d : Document) : Prop where
  free : ∀ template ∈ d.templates, ∀ t ∈ d.tables, template.id ≠ t.id
  parents : ∀ t, .simple t ∈ d.tables → (t.parent.getD "").toList.contains '.' = false
  members : ∀ t, .collection t ∈ d.tables → ∀ member ∈ t.members,
    member.toList.contains '.' = false

/-- No template hides the table that a reference is to. -/
theorem Document.SelfContained.free_of_localTable {d : Document} (h : d.SelfContained)
    {ref : String} {t : Table} (ht : Integrity.localTable d ref = some t) :
    ∀ template ∈ d.templates, template.id ≠ ref := by
  have hid : t.id = ref := by simpa using List.find?_some ht
  exact fun template htemplate => hid ▸ h.free template htemplate t (List.mem_of_find?_eq_some ht)

namespace Engine

variable {e : Engine} {c : Collection}

/-! ## Shared variables -/

/-- The scope of a document without errors can be entered if its shared variables have distinct
names. -/
theorem openDocument_of_sound (he : e.registry.Orderly) (hc : c ∈ e.registry.collections)
    (hnames : (declaredNames c.document.shared).Nodup) (request : Request) (options : Options) :
    ∃ context, Request.openDocument (e.surroundings c) c.document []
      (e.freshContext request options c.document.statics.keys) = (.ok (), context) := by
  obtain ⟨scope, hscope⟩ : ∃ scope, SharedLevel.declareAll
      { owner := "document", collectionId := c.id } c.document.shared = .ok scope :=
    SharedLevel.declareAll_isOk_iff.2 ⟨hnames, fun _ _ => rfl⟩
  have hstatics : SharedStore.staticAmong { statics := c.document.statics.keys } scope.names =
      none := by
    refine List.find?_eq_none.2 fun name hname hstatic => ?_
    rw [SharedLevel.names_declareAll hscope] at hname
    obtain ⟨p, hp, rfl⟩ := List.mem_map.1 hname
    have hfree := Document.statics_of_sound (he.sound c hc) (List.mem_map.2 ⟨p, hp, rfl⟩)
    have hhas := Assoc.isSome_get?_iff.2 (List.contains_iff_mem.1 hstatic)
    exact absurd (hhas.symm.trans hfree) (by decide)
  have hpush : SharedStore.pushDocument { statics := c.document.statics.keys } c.document.shared []
      c.id = .ok (scope, ⟨c.document.statics.keys, [scope]⟩) := by
    rw [SharedStore.pushDocument, List.append_nil, hscope]
    dsimp only [bind, Except.bind]
    rw [hstatics]
    rfl
  rw [Request.openDocument, Computation.get_bind_apply]
  change ∃ context, (Eval.liftDeclaration (SharedStore.pushDocument
    { statics := c.document.statics.keys } c.document.shared [] c.id) >>= _) _ = (.ok (), context)
  rw [hpush]
  exact ⟨_, rfl⟩

/-! ## References -/

section

variable (he : e.registry.Orderly) (hc : c ∈ e.registry.collections)
include he hc

/-- A table that extends another one without points leads to it. -/
theorem parent_leads {t : SimpleTable} (ht : .simple t ∈ c.document.tables)
    (hsome : (t.parent.getD "").isEmpty = false)
    (hdot : (t.parent.getD "").toList.contains '.' = false) :
    e.registry.Leads c (t.parent.getD "") true := by
  obtain ⟨-, parent, hparent⟩ := Document.parent_of_sound (he.sound c hc) ht hsome hdot
  exact Registry.leads_of_localTable he.distinct hc hdot hparent fun _ => rfl

theorem source_leads {t : CompositeTable} (ht : .composite t ∈ c.document.tables)
    {source : TableSource} (hsource : source ∈ t.sources)
    (hdot : source.tableId.toList.contains '.' = false) :
    e.registry.Leads c source.tableId false := by
  obtain ⟨table, htable⟩ := Document.source_of_sound (he.sound c hc) ht hsource hdot
  exact Registry.leads_of_localTable he.distinct hc hdot htable fun h => absurd h Bool.false_ne_true

theorem member_leads {t : CollectionTable} (ht : .collection t ∈ c.document.tables)
    {member : String} (hmember : member ∈ t.members)
    (hdot : member.toList.contains '.' = false) : e.registry.Leads c member true := by
  obtain ⟨table, htable⟩ := Document.member_of_sound (he.sound c hc) ht hmember hdot
  exact Registry.leads_of_localTable he.distinct hc hdot htable fun _ => rfl

end

/-- What leads to a simple table does so if no template hides a table. -/
theorem simple_of_leads {ref : String} (h : e.registry.Leads c ref true)
    (hfree : ∀ template ∈ c.document.templates, template.id ≠ ref) :
    ∃ t, .simple t ∈ c.document.tables ∧
      e.registry.find ref c.id = .ok (some ⟨.table (.simple t), c.id⟩) := by
  obtain ⟨t, ht, hsimple, hfind⟩ := h.exists_table hfree
  cases t with
  | simple t => exact ⟨t, ht, hfind⟩
  | composite _ => cases hsimple rfl
  | collection _ => cases hsimple rfl

end Engine

end RandomTables
