-- SUMMARY: What changes in a registry when a collection is rewritten, and what does not.
import RandomTables.Evaluation.Answer
import RandomTables.Proofs.Document.Overriding
import RandomTables.Proofs.Registry.Inheriting

/-!
# Rewritten collections

A collection is rewritten when its entries give what is written of them. References lead to the same
definitions, though simple tables of the collection are rewritten themselves. What tables inherit is
the same, but for what their entries gave, if the tables of the collection are kept over those that
they extend.
-/
namespace RandomTables

/-- A table of a collection, rewritten if this is the one with the id. -/
def SimpleTable.rewrittenIn (id collectionId : String) (t : SimpleTable) : SimpleTable :=
  if collectionId = id then t.rewritten else t

def Table.rewrittenIn (id collectionId : String) : Table → Table
  | .simple t => .simple (t.rewrittenIn id collectionId)
  | t => t

/-- A target, rewritten if it is a table of the collection with the id. -/
def Target.rewrittenIn (id : String) (t : Target) : Target :=
  match t.definition with
  | .table table => ⟨.table (table.rewrittenIn id t.collectionId), t.collectionId⟩
  | .template _ => t

/-- A collection, rewritten if it is the one with the id. -/
def Collection.rewrittenIn (id : String) (c : Collection) : Collection :=
  if c.id = id then { c with document := c.document.rewritten } else c

/-- A registry whose collection with an id is rewritten. -/
def Registry.rewriting (r : Registry) (id : String) : Registry :=
  { r with collections := r.collections.map (Collection.rewrittenIn id) }

/-- A collection with another document, if it is the one with the id. -/
def Collection.replaced (id : String) (d : Document) (c : Collection) : Collection :=
  if c.id = id then { c with document := d } else c

/-- A registry whose collection with an id has another document. -/
def Registry.replacing (r : Registry) (id : String) (d : Document) : Registry :=
  { r with collections := r.collections.map (Collection.replaced id d) }

namespace SimpleTable

variable (id collectionId : String) (t : SimpleTable)

@[simp] theorem id_rewrittenIn : (t.rewrittenIn id collectionId).id = t.id := by
  unfold rewrittenIn
  split <;> rfl

@[simp] theorem bare_rewrittenIn : (t.rewrittenIn id collectionId).bare = t.bare := by
  unfold rewrittenIn
  split
  · exact t.bare_rewritten
  · rfl

end SimpleTable

namespace Collection

variable (id : String) (c : Collection)

/-- Nothing changes in a document but its tables. -/
theorem document_rewrittenIn : (c.rewrittenIn id).document =
    { c.document with tables := c.document.tables.map (Table.rewrittenIn id c.id) } := by
  unfold rewrittenIn
  by_cases hid : c.id = id
  · have htables : Table.rewrittenIn id c.id = Table.rewritten := by
      funext t
      cases t with
      | simple t => exact congrArg Table.simple (if_pos hid)
      | _ => rfl
    rw [if_pos hid, htables]
    rfl
  · have htables : Table.rewrittenIn id c.id = fun t => t := by
      funext t
      cases t with
      | simple t => exact congrArg Table.simple (if_neg hid)
      | _ => rfl
    rw [if_neg hid, htables, List.map_id']

@[simp] theorem id_rewrittenIn : (c.rewrittenIn id).id = c.id := by
  unfold rewrittenIn
  split <;> rfl

@[simp] theorem wired_rewrittenIn : (c.rewrittenIn id).wired = c.wired := by
  unfold rewrittenIn
  split <;> rfl

@[simp] theorem namespaceText_rewrittenIn :
    (c.rewrittenIn id).namespaceText = c.namespaceText := by
  rw [namespaceText, document_rewrittenIn]
  rfl

theorem table?_rewrittenIn (name : String) :
    (c.rewrittenIn id).table? name = (c.table? name).map (Table.rewrittenIn id c.id) := by
  have hname : (fun t : Table => decide (t.id = name)) ∘ Table.rewrittenIn id c.id =
      fun t => decide (t.id = name) := by
    funext t
    cases t with
    | simple t =>
        have hid := t.id_rewrittenIn id c.id
        change decide ((t.rewrittenIn id c.id).id = name) = decide (t.id = name)
        rw [hid]
    | composite t => rfl
    | collection t => rfl
  rw [table?, document_rewrittenIn]
  dsimp only
  rw [List.find?_map, hname]
  rfl

theorem find?_rewrittenIn (name : String) :
    (c.rewrittenIn id).find? name = (c.find? name).map (Target.rewrittenIn id) := by
  have htemplate : (c.rewrittenIn id).template? name = c.template? name := by
    rw [template?, document_rewrittenIn]
    rfl
  rw [find?, find?, htemplate, table?_rewrittenIn, id_rewrittenIn]
  cases c.template? name with
  | some template => rfl
  | none => cases c.table? name <;> rfl

end Collection

namespace Registry

/-! ## References -/

section

variable (r : Registry) (id : String)

theorem get?_rewriting (collectionId : String) :
    (r.rewriting id).get? collectionId =
      (r.get? collectionId).map (Collection.rewrittenIn id) := by
  have hid : (fun c : Collection => decide (c.id = collectionId)) ∘ Collection.rewrittenIn id =
      fun c => decide (c.id = collectionId) := by
    funext c
    simp
  rw [get?, rewriting, List.find?_map, hid]
  rfl

theorem withNamespace?_rewriting (name : String) :
    (r.rewriting id).withNamespace? name =
      (r.withNamespace? name).map (Collection.rewrittenIn id) := by
  have hname : (fun c : Collection => decide (c.namespaceText = name)) ∘ Collection.rewrittenIn id =
      fun c => decide (c.namespaceText = name) := by
    funext c
    simp
  rw [withNamespace?, rewriting, List.find?_map, hname]
  rfl

theorem loaded_rewriting (collectionId : String) :
    (r.rewriting id).loaded collectionId =
      (r.loaded collectionId).map (Collection.rewrittenIn id) := by
  rw [loaded, loaded, get?_rewriting]
  cases r.get? collectionId <;> rfl

theorem aliasedId_rewriting (c : Collection) (importAlias : String) :
    (r.rewriting id).aliasedId (c.rewrittenIn id) importAlias = r.aliasedId c importAlias := by
  have himports : (c.rewrittenIn id).document.imports = c.document.imports := by
    rw [Collection.document_rewrittenIn]
  have hother : ∀ i : Import, (((r.rewriting id).collections.find? fun other =>
        other.id != c.id && (other.namespaceText = i.path || other.id = i.path)).map (·.id)) =
      (r.collections.find? fun other =>
        other.id != c.id && (other.namespaceText = i.path || other.id = i.path)).map (·.id) := by
    intro i
    have hsame : (fun other : Collection => other.id != c.id &&
          (other.namespaceText = i.path || other.id = i.path)) ∘ Collection.rewrittenIn id =
        fun other => other.id != c.id && (other.namespaceText = i.path || other.id = i.path) := by
      funext other
      simp
    rw [rewriting, List.find?_map, hsame, Option.map_map]
    congr 1
    funext other
    exact other.id_rewrittenIn id
  simp only [aliasedId, Collection.wired_rewrittenIn, Collection.id_rewrittenIn, himports, hother]

theorem findQualified_rewriting (parts : List String) (size : Nat) :
    (r.rewriting id).findQualified parts size =
      (r.findQualified parts size).map (Target.rewrittenIn id) := by
  induction size with
  | zero => rfl
  | succ size ih =>
      have hfirst : ((r.rewriting id).withNamespace? (joinParts (parts.take (size + 1)))).bind
            (fun c => c.find? (joinParts (parts.drop (size + 1)))) =
          ((r.withNamespace? (joinParts (parts.take (size + 1)))).bind fun c =>
            c.find? (joinParts (parts.drop (size + 1)))).map (Target.rewrittenIn id) := by
        rw [withNamespace?_rewriting, Option.bind_map, Option.map_bind]
        congr 1
        funext c
        exact c.find?_rewrittenIn id _
      rw [findQualified, findQualified, hfirst, ih]
      cases (r.withNamespace? (joinParts (parts.take (size + 1)))).bind fun c =>
        c.find? (joinParts (parts.drop (size + 1))) <;> rfl

theorem findParts_rewriting (parts : List String) (collectionId : String) :
    (r.rewriting id).findParts parts collectionId =
      (r.findParts parts collectionId).map (Option.map (Target.rewrittenIn id)) := by
  induction parts generalizing collectionId with
  | nil =>
      rw [findParts, findParts, loaded_rewriting]
      cases r.loaded collectionId with
      | error e => rfl
      | ok c => exact congrArg Except.ok (c.find?_rewrittenIn id "")
  | cons importAlias parts ih =>
      cases parts with
      | nil =>
          rw [findParts, findParts, loaded_rewriting]
          cases r.loaded collectionId with
          | error e => rfl
          | ok c => exact congrArg Except.ok (c.find?_rewrittenIn id importAlias)
      | cons part rest =>
          rw [findParts, findParts, loaded_rewriting]
          cases r.loaded collectionId with
          | error e => rfl
          | ok c =>
              simp only [Except.map, bind, Except.bind, Collection.find?_rewrittenIn,
                aliasedId_rewriting, findQualified_rewriting, ih]
              cases c.find? (joinParts (importAlias :: part :: rest)) with
              | some found => rfl
              | none =>
                  dsimp only [Option.map_none]
                  cases r.aliasedId c importAlias with
                  | none => rfl
                  | some target =>
                      dsimp only
                      rcases r.findParts (part :: rest) target with e | (_ | found) <;> rfl

/-- References lead to the same definitions, which may be rewritten. -/
theorem find_rewriting (ref collectionId : String) :
    (r.rewriting id).find ref collectionId =
      (r.find ref collectionId).map (Option.map (Target.rewrittenIn id)) :=
  r.findParts_rewriting id (refParts ref) collectionId

theorem resolve_rewriting (ref collectionId : String) :
    (r.rewriting id).resolve ref collectionId =
      (r.resolve ref collectionId).map (Target.rewrittenIn id) := by
  rw [resolve, resolve, find_rewriting]
  rcases r.find ref collectionId with e | (_ | found) <;> rfl

/-- So do the static variables that aliases lead to. -/
theorem aliasedStatic_rewriting (importAlias name collectionId : String) :
    (r.rewriting id).aliasedStatic importAlias name collectionId =
      r.aliasedStatic importAlias name collectionId := by
  rw [aliasedStatic, aliasedStatic, loaded_rewriting]
  cases r.loaded collectionId with
  | error e => rfl
  | ok c =>
      refine congrArg Except.ok ?_
      have hget : (r.rewriting id).get? = Option.map (Collection.rewrittenIn id) ∘ r.get? :=
        funext fun collectionId => r.get?_rewriting id collectionId
      rw [aliased, aliased, aliasedId_rewriting, hget]
      cases (r.aliasedId c importAlias).filter fun id => !id.isEmpty with
      | none => rfl
      | some target =>
          cases htarget : r.get? target with
          | none => simp [htarget]
          | some other => simp [htarget, Collection.document_rewrittenIn]

/-- Collections hold the tables as they are rewritten. -/
theorem holds_rewriting {collectionId : String} {t : SimpleTable} (ht : r.Holds collectionId t) :
    (r.rewriting id).Holds collectionId (t.rewrittenIn id collectionId) := by
  obtain ⟨c, hc, rfl, htable⟩ := ht
  refine ⟨c.rewrittenIn id, List.mem_map_of_mem hc, c.id_rewrittenIn id, ?_⟩
  rw [Collection.table?_rewrittenIn, SimpleTable.id_rewrittenIn, htable]
  rfl

/-! ## Replaced documents -/

/-- A collection is rewritten by replacing its document. -/
theorem replacing_rewritten {r : Registry} (hr : r.Distinct) {c : Collection}
    (hc : c ∈ r.collections) :
    r.replacing c.id c.document.rewritten = r.rewriting c.id := by
  refine congrArg Registry.mk (List.map_congr_left fun other hother => ?_)
  unfold Collection.replaced Collection.rewrittenIn
  by_cases hid : other.id = c.id
  · rw [List.inj_on_of_nodup_map hr hother hc hid]
  · rw [if_neg hid, if_neg hid]

/-- Loading another document under an id replaces the one that was loaded. -/
theorem place_replaced {c : Collection} {collections : List Collection}
    (hids : (collections.map (·.id)).Nodup) (d : Document) :
    place { c with document := d } collections =
      (place c collections).map (Collection.replaced c.id d) := by
  have hsame : Collection.replaced c.id d c = { c with document := d } := if_pos rfl
  induction collections with
  | nil => exact congrArg ([·]) hsame.symm
  | cons first rest ih =>
      obtain ⟨hfirst, hrest⟩ := List.nodup_cons.1 hids
      rw [place, place]
      split
      · rename_i hid
        have hothers : rest.map (Collection.replaced c.id d) = rest := by
          refine (List.map_congr_left fun other hother => if_neg fun heq => ?_).trans rest.map_id'
          exact hfirst (List.mem_map.2 ⟨other, hother, heq.trans hid.symm⟩)
        rw [List.map_cons, hsame, hothers]
      · rename_i hne
        rw [List.map_cons, ih hrest, Collection.replaced, if_neg hne]

/-! ## Limits -/

theorem extensionLimit_rewriting (config : Config) (collectionId : String) :
    (r.rewriting id).extensionLimit config collectionId = r.extensionLimit config collectionId := by
  rw [extensionLimit, extensionLimit, get?_rewriting]
  cases r.get? collectionId with
  | none => rfl
  | some c => simp [Collection.document_rewrittenIn]

theorem greatestLimit_rewriting (config : Config) :
    (r.rewriting id).greatestLimit config = r.greatestLimit config := by
  have hlimits : (r.rewriting id).collections.map (fun c =>
        (r.rewriting id).extensionLimit config c.id) =
      r.collections.map fun c => r.extensionLimit config c.id := by
    rw [rewriting, List.map_map]
    refine List.map_congr_left fun c _ => ?_
    rw [Function.comp_apply, Collection.id_rewrittenIn]
    exact r.extensionLimit_rewriting id config c.id
  rw [greatestLimit, greatestLimit, hlimits]

/-- As many shared variables are declared. -/
theorem sumOf_sharedCount_rewriting :
    Number.sumOf (fun c => c.document.sharedCount) (r.rewriting id).collections =
      Number.sumOf (fun c => c.document.sharedCount) r.collections := by
  have hsum : ∀ {α : Type} {f g : α → Nat} {h : α → α}, (∀ a, g (h a) = f a) →
      ∀ items, Number.sumOf g (items.map h) = Number.sumOf f items := by
    intro α f g h hsame items
    induction items with
    | nil => rfl
    | cons a rest ih => rw [List.map_cons, Number.sumOf, Number.sumOf, hsame, ih]
  refine hsum (fun c => ?_) r.collections
  have htables : Number.sumOf (fun t => countShared t.header.shared)
        (c.document.tables.map (Table.rewrittenIn id c.id)) =
      Number.sumOf (fun t => countShared t.header.shared) c.document.tables := by
    refine hsum (fun t => ?_) _
    cases t with
    | simple t =>
        rw [Table.rewrittenIn, SimpleTable.eq_of_bare (t.bare_rewrittenIn id c.id)]
        rfl
    | _ => rfl
  rw [Document.sharedCount, Collection.document_rewrittenIn]
  dsimp only
  rw [htables]
  rfl

end

/-! ## Inheritance -/

/-- Every table of a collection is kept over what the table that it extends inherits. -/
def Keeps (r : Registry) (id : String) : Prop :=
  ∀ t, r.Holds id t → (t.parent.getD "").isEmpty = false → ∀ owner parent resolved,
    r.find (t.parent.getD "") id = .ok (some ⟨.table (.simple parent), owner⟩) →
    r.Inherits owner parent resolved → t.KeptOver resolved

/-- A collection whose tables are kept and whose entries were read. -/
structure Rewritable (r : Registry) (id : String) : Prop where
  keeps : r.Keeps id
  authored : ∀ t, r.Holds id t → ∀ e ∈ t.entries, e.Authored

variable {r : Registry} {id : String}

/-- A table that may be rewritten inherits the same from what may have been given other fields. -/
theorem Rewritable.bare_laidOver (hr : r.Rewritable id) {collectionId owner : String}
    {t parent resolved resolved' : SimpleTable} (ht : r.Holds collectionId t)
    (hextends : (t.parent.getD "").isEmpty = false)
    (hfind : r.find (t.parent.getD "") collectionId =
      .ok (some ⟨.table (.simple parent), owner⟩))
    (hparent : r.Inherits owner parent resolved) (hbare : resolved'.bare = resolved.bare) :
    ((t.rewrittenIn id collectionId).laidOver resolved').bare = (t.laidOver resolved).bare := by
  unfold SimpleTable.rewrittenIn
  split
  · rename_i hid
    subst hid
    exact SimpleTable.bare_laidOver_rewritten (hr.authored t ht)
      (hr.keeps t ht hextends owner parent resolved hfind hparent) hbare
  · exact t.bare_laidOver hbare

end Registry

end RandomTables
