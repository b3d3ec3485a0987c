-- SUMMARY: The spans and pieces of a pattern cover it from end to end, without gaps or overlaps.
import Mathlib.Data.List.DropRight
import Mathlib.Data.List.Forall2
import RandomTables.Pattern.Span

/-!
# Pieces tile a pattern

`Abut` says that stretches follow each other without gaps. The spans of a pattern are stretches of
it in order, so the pieces between and at the spans abut from its start to its end, and each piece
holds exactly the characters at its place.
-/
namespace RandomTables

/-! ## Stretches that abut -/

/-- Each stretch starts where the one before it stops; the first starts at one position, and the
last stops at another. -/
def Abut {α : Type} (bounds : α → Nat × Nat) : Nat → Nat → List α → Prop
  | first, last, [] => first = last
  | first, last, a :: rest =>
    (bounds a).1 = first ∧ (bounds a).1 ≤ (bounds a).2 ∧ Abut bounds (bounds a).2 last rest

namespace Abut

variable {α β : Type} {bounds : α → Nat × Nat} {first last : Nat}

theorem append {middle : Nat} {l₁ l₂ : List α} (h₁ : Abut bounds first middle l₁)
    (h₂ : Abut bounds middle last l₂) : Abut bounds first last (l₁ ++ l₂) := by
  induction l₁ generalizing first with
  | nil =>
      cases h₁
      exact h₂
  | cons a rest ih => exact ⟨h₁.1, h₁.2.1, ih h₁.2.2⟩

/-- Where a row of stretches is cut, its parts abut too. -/
theorem split {l₁ l₂ : List α} (h : Abut bounds first last (l₁ ++ l₂)) :
    ∃ middle, Abut bounds first middle l₁ ∧ Abut bounds middle last l₂ := by
  induction l₁ generalizing first with
  | nil => exact ⟨first, rfl, h⟩
  | cons a rest ih =>
      obtain ⟨hstart, hle, hrest⟩ := h
      obtain ⟨middle, h₁, h₂⟩ := ih hrest
      exact ⟨middle, ⟨hstart, hle, h₁⟩, h₂⟩

/-- Stretches with the same bounds abut alike. -/
theorem congr {bounds' : β → Nat × Nat} {l : List α} {l' : List β}
    (hb : List.Forall₂ (fun a b => bounds a = bounds' b) l l')
    (h : Abut bounds first last l) : Abut bounds' first last l' := by
  induction hb generalizing first with
  | nil => exact h
  | cons hab _ ih =>
      simp only [Abut, hab] at h
      exact ⟨h.1, h.2.1, ih h.2.2⟩

/-- The last stretch stops where the row does. -/
theorem getLast? {l : List α} (h : Abut bounds first last l) :
    (l.getLast?.map fun a => (bounds a).2).getD first = last := by
  induction l generalizing first with
  | nil => exact h
  | cons a rest ih =>
      have hlast := ih h.2.2
      cases rest with
      | nil => exact hlast
      | cons b rest =>
          rw [List.getLast?_cons_cons]
          obtain ⟨z, hz⟩ : ∃ z, (b :: rest).getLast? = some z :=
            ⟨_, List.getLast?_eq_some_getLast (List.cons_ne_nil b rest)⟩
          rw [hz] at hlast ⊢
          exact hlast

theorem le {l : List α} (h : Abut bounds first last l) : first ≤ last := by
  induction l generalizing first with
  | nil => exact Nat.le_of_eq h
  | cons a rest ih =>
      obtain ⟨rfl, hle, hrest⟩ := h
      exact Nat.le_trans hle (ih hrest)

theorem within {l : List α} (h : Abut bounds first last l) :
    ∀ a ∈ l, first ≤ (bounds a).1 ∧ (bounds a).2 ≤ last := by
  induction l generalizing first with
  | nil => simp
  | cons a rest ih =>
      obtain ⟨rfl, hle, hrest⟩ := h
      refine List.forall_mem_cons.2 ⟨⟨Nat.le_refl _, hrest.le⟩, fun b hb => ?_⟩
      exact ⟨Nat.le_trans hle (ih hrest b hb).1, (ih hrest b hb).2⟩

/-- Stretches that abut do not overlap. -/
theorem pairwise {l : List α} (h : Abut bounds first last l) :
    l.Pairwise fun a b => (bounds a).2 ≤ (bounds b).1 := by
  induction l generalizing first with
  | nil => exact .nil
  | cons a rest ih => exact .cons (fun b hb => (h.2.2.within b hb).1) (ih h.2.2)

theorem disjoint {l : List α} (h : Abut bounds first last l) {a b : α} (ha : a ∈ l) (hb : b ∈ l)
    (hab : a ≠ b) : (bounds a).2 ≤ (bounds b).1 ∨ (bounds b).2 ≤ (bounds a).1 := by
  induction l generalizing first with
  | nil => cases ha
  | cons c rest ih =>
      rw [List.mem_cons] at ha hb
      rcases ha with rfl | ha
      · exact .inl (h.2.2.within b (hb.resolve_left hab.symm)).1
      · rcases hb with rfl | hb
        · exact .inr (h.2.2.within a ha).1
        · exact ih h.2.2 ha hb

end Abut

/-! ## Parts of a text -/

namespace Text

theorem length_slice {cs : List Char} {start stop : Nat} (h : stop ≤ cs.length) :
    (slice cs start stop).length = stop - start := by
  rw [slice, List.length_take, List.length_drop]
  omega

theorem slice_of_append {cs before part rest : List Char} {position : Nat}
    (h : cs.drop position = before ++ part ++ rest) :
    slice cs (position + before.length) (position + before.length + part.length) = part := by
  rw [slice, ← List.drop_drop, h, List.append_assoc, List.drop_left, Nat.add_sub_cancel_left,
    List.take_left]

theorem drop_of_append {cs before part rest : List Char} {position : Nat}
    (h : cs.drop position = before ++ part ++ rest) :
    cs.drop (position + before.length + part.length) = rest ∧
      (position ≤ cs.length → position + before.length + part.length ≤ cs.length) := by
  constructor
  · rw [Nat.add_assoc, ← List.length_append, ← List.drop_drop, h, List.drop_left]
  · intro hp
    have hlen := congrArg List.length h
    simp only [List.length_drop, List.length_append] at hlen
    omega

theorem slice_append {cs : List Char} {start middle stop : Nat} (h₁ : start ≤ middle)
    (h₂ : middle ≤ stop) : slice cs start middle ++ slice cs middle stop = slice cs start stop := by
  obtain ⟨n, rfl⟩ := Nat.exists_eq_add_of_le h₁
  obtain ⟨m, rfl⟩ := Nat.exists_eq_add_of_le h₂
  have hlength : start + n + m - start = n + m := by omega
  simp only [slice, Nat.add_sub_cancel_left, hlength, ← List.drop_drop, List.take_add]

/-- A stretch of a stretch of a text is a stretch of the text. -/
theorem slice_slice {cs : List Char} {start stop first last : Nat} (h : last ≤ stop - start) :
    slice (slice cs start stop) first last = slice cs (start + first) (start + last) := by
  rw [slice, slice, slice, List.drop_take, List.take_take, List.drop_drop]
  congr 1
  omega

/-- A text without the blanks at its ends has none there. -/
theorem trim_trim (cs : List Char) : trim (trim cs) = trim cs := by
  have hstart : trimStart (trim cs) = trim cs := by
    refine List.dropWhile_eq_self_iff.2 fun hpos => ?_
    have hprefix : trim cs <+: trimStart cs := List.rdropWhile_prefix isBlank (l := trimStart cs)
    have hlt : 0 < (trimStart cs).length := Nat.lt_of_lt_of_le hpos hprefix.length_le
    rw [show (trim cs)[0] = (trimStart cs)[0] from hprefix.getElem hpos]
    exact List.dropWhile_get_zero_not isBlank cs hlt
  calc trim (trim cs) = trimEnd (trim cs) := congrArg trimEnd hstart
    _ = trim cs := List.rdropWhile_idempotent isBlank (trimStart cs)

end Text

/-! ## Spans -/

namespace Span

/-- Spans that are stretches of a pattern, in order from a position on. -/
def InOrder (pattern : List Char) : Nat → List Span → Prop
  | position, [] => position ≤ pattern.length
  | position, span :: rest =>
    position ≤ span.start ∧ span.start ≤ span.stop ∧
      span.raw = Text.slice pattern span.start span.stop ∧ InOrder pattern span.stop rest

theorem InOrder.mono {pattern : List Char} {p q : Nat} {spans : List Span} (hpq : p ≤ q)
    (h : InOrder pattern q spans) : InOrder pattern p spans := by
  cases spans with
  | nil => exact Nat.le_trans hpq h
  | cons span rest => exact ⟨Nat.le_trans hpq h.1, h.2⟩

theorem InOrder.le_length {pattern : List Char} {p : Nat} {spans : List Span}
    (h : InOrder pattern p spans) : p ≤ pattern.length := by
  induction spans generalizing p with
  | nil => exact h
  | cons span rest ih => exact Nat.le_trans (Nat.le_trans h.1 h.2.1) (ih h.2.2.2)

/-- A span cut out of a text: what stands before it, the span itself, and what stands after. -/
theorem append_of_cuts {cs before after inner rest : List Char}
    (hopen : Text.cutAt opening cs = some (before, after))
    (hclose : Text.cutAt closing after = some (inner, rest)) :
    before ++ (opening ++ inner ++ closing) ++ rest = cs := by
  rw [← Text.append_of_cutAt hopen, ← Text.append_of_cutAt hclose]
  simp only [List.append_assoc]

theorem length_raw (inner : List Char) :
    (opening ++ inner ++ closing).length = inner.length + 4 := by
  simp only [opening, closing, List.length_append, List.length_cons, List.length_nil]
  omega

theorem findFrom_inOrder {pattern : List Char} {position : Nat} {cs : List Char}
    (hcs : pattern.drop position = cs) (hp : position ≤ pattern.length) :
    InOrder pattern position (findFrom position cs) := by
  -- the invariant: what is still to be searched is the pattern from the position on
  fun_induction findFrom position cs with
  | case1 => exact hp
  | case2 => exact hp
  | case3 position cs before after hopen inner rest hclose start stop more hblank ih =>
      have hdrop := Text.drop_of_append (append_of_cuts hopen hclose ▸ hcs)
      rw [length_raw] at hdrop
      exact (ih hdrop.1 (hdrop.2 hp)).mono (by omega)
  | case4 position cs before after hopen inner rest hclose start stop more hblank ih =>
      have happend := append_of_cuts hopen hclose ▸ hcs
      have hdrop := Text.drop_of_append happend
      have hraw := Text.slice_of_append happend
      rw [length_raw] at hdrop hraw
      exact ⟨Nat.le_add_right _ _, Nat.le_add_right _ _, hraw.symm, ih hdrop.1 (hdrop.2 hp)⟩

/-- The spans of a pattern are stretches of it, in order. -/
theorem find_inOrder (pattern : List Char) : InOrder pattern 0 (find pattern) :=
  findFrom_inOrder List.drop_zero (Nat.zero_le _)

/-- What stands between the braces of a span has no blanks around it. -/
theorem trim_expression {pattern : List Char} {span : Span} (h : span ∈ find pattern) :
    Text.trim span.expression = span.expression := by
  unfold find at h
  generalize 0 = position at h
  fun_induction findFrom position pattern with
  | case1 => exact absurd h List.not_mem_nil
  | case2 => exact absurd h List.not_mem_nil
  | case3 position cs before after hopen inner rest hclose start stop more hblank ih => exact ih h
  | case4 position cs before after hopen inner rest hclose start stop more hblank ih =>
      rcases List.mem_cons.1 h with rfl | h
      · exact Text.trim_trim inner
      · exact ih h

end Span

/-! ## Pieces -/

namespace Piece

/-- Where a piece starts and stops. -/
def bounds : Piece → Nat × Nat
  | .literal text start => (start, start + text.length)
  | .directive span => (span.start, span.stop)

/-- The characters of a piece. -/
def chars : Piece → List Char
  | .literal text _ => text
  | .directive span => span.raw

/-- A piece holds the characters at its place. -/
def Fits (pattern : List Char) (p : Piece) : Prop :=
  p.chars = Text.slice pattern p.bounds.1 p.bounds.2

theorem gap_abut {pattern : List Char} {start stop : Nat} (h : start ≤ stop)
    (hstop : stop ≤ pattern.length) : Abut bounds start stop (gap pattern start stop) := by
  unfold gap
  split
  · refine ⟨rfl, Nat.le_add_right _ _, ?_⟩
    change start + (Text.slice pattern start stop).length = stop
    rw [Text.length_slice hstop, Nat.add_sub_cancel' h]
  · simp only [Abut]
    omega

theorem gap_fits {pattern : List Char} {start stop : Nat} (hstop : stop ≤ pattern.length) :
    ∀ p ∈ gap pattern start stop, p.Fits pattern := by
  intro p hp
  unfold gap at hp
  split at hp
  · rename_i hlt
    obtain rfl := List.mem_singleton.1 hp
    change Text.slice pattern start stop =
      Text.slice pattern start (start + (Text.slice pattern start stop).length)
    rw [Text.length_slice hstop, Nat.add_sub_cancel' (Nat.le_of_lt hlt)]
  · exact absurd hp List.not_mem_nil

theorem between_abut {pattern : List Char} {position : Nat} {spans : List Span}
    (h : Span.InOrder pattern position spans) :
    Abut bounds position pattern.length (between pattern position spans) := by
  induction spans generalizing position with
  | nil => exact gap_abut h (Nat.le_refl _)
  | cons span rest ih =>
      obtain ⟨hstart, hstop, -, hrest⟩ := h
      have hgap := gap_abut hstart (Nat.le_trans hstop hrest.le_length)
      have hspan : Abut bounds span.start span.stop [Piece.directive span] := ⟨rfl, hstop, rfl⟩
      rw [between, List.append_cons]
      exact (hgap.append hspan).append (ih hrest)

theorem between_fits {pattern : List Char} {position : Nat} {spans : List Span}
    (h : Span.InOrder pattern position spans) :
    ∀ p ∈ between pattern position spans, p.Fits pattern := by
  induction spans generalizing position with
  | nil => exact gap_fits (Nat.le_refl _)
  | cons span rest ih =>
      obtain ⟨-, hstop, hraw, hrest⟩ := h
      intro p hp
      rw [between, List.append_cons, List.mem_append, List.mem_append, List.mem_singleton] at hp
      rcases hp with (hp | rfl) | hp
      · exact gap_fits (Nat.le_trans hstop hrest.le_length) p hp
      · exact hraw
      · exact ih hrest p hp

/-- The span of a piece that is a directive. -/
def span? : Piece → Option Span
  | .literal .. => none
  | .directive span => some span

/-- The directives among the pieces of a pattern are its spans. -/
theorem spans_ofPattern (pattern : List Char) :
    (ofPattern pattern).filterMap span? = Span.find pattern := by
  have hgap : ∀ start stop, (gap pattern start stop).filterMap span? = [] := by
    intro start stop
    unfold gap
    split <;> rfl
  suffices hbetween : ∀ (spans : List Span) (last : Nat),
      (between pattern last spans).filterMap span? = spans from hbetween _ 0
  intro spans
  induction spans with
  | nil => exact fun last => hgap last _
  | cons span rest ih =>
      intro last
      rw [between, List.filterMap_append, hgap, List.nil_append]
      exact congrArg (span :: ·) (ih span.stop)

theorem mem_find_of_mem_ofPattern {pattern : List Char} {span : Span}
    (h : .directive span ∈ ofPattern pattern) : span ∈ Span.find pattern := by
  rw [← spans_ofPattern]
  exact List.mem_filterMap.2 ⟨_, h, rfl⟩

theorem mem_ofPattern_of_mem_find {pattern : List Char} {span : Span}
    (h : span ∈ Span.find pattern) : .directive span ∈ ofPattern pattern := by
  rw [← spans_ofPattern] at h
  obtain ⟨p, hp, hspan⟩ := List.mem_filterMap.1 h
  cases p with
  | literal => cases hspan
  | directive => exact Option.some.inj hspan ▸ hp

/-- The pieces of a pattern cover it from its start to its end. -/
theorem ofPattern_abut (pattern : List Char) :
    Abut bounds 0 pattern.length (ofPattern pattern) :=
  between_abut (Span.find_inOrder pattern)

theorem ofPattern_fits (pattern : List Char) : ∀ p ∈ ofPattern pattern, p.Fits pattern :=
  between_fits (Span.find_inOrder pattern)

/-- The characters of pieces that abut are those of the stretch that they cover. -/
theorem chars_of_abut {pattern : List Char} {pieces : List Piece} {first last : Nat}
    (h : Abut bounds first last pieces) (hfits : ∀ p ∈ pieces, p.Fits pattern) :
    pieces.flatMap chars = Text.slice pattern first last := by
  induction pieces generalizing first with
  | nil =>
      cases h
      simp [Text.slice]
  | cons p rest ih =>
      obtain ⟨rfl, hle, hrest⟩ := h
      obtain ⟨hp, hfits⟩ := List.forall_mem_cons.1 hfits
      rw [List.flatMap_cons, ih hrest hfits, hp, Text.slice_append hle hrest.le]

/-- The pieces of a pattern put together are the pattern. -/
theorem chars_ofPattern (pattern : List Char) : (ofPattern pattern).flatMap chars = pattern := by
  rw [chars_of_abut (ofPattern_abut pattern) (ofPattern_fits pattern)]
  simp [Text.slice]

end Piece

end RandomTables
