-- SUMMARY: The spans of a pattern are its leftmost directives, and the text around them holds none.
import RandomTables.Proofs.Pattern.Tiling
import RandomTables.Proofs.Text.Cutting

/-!
# Leftmost spans

`Reads` says what a directive in a pattern is, wherever it stands: an opening pair, something that
is not blank, and the first closing pair behind it. The spans of a pattern are directives, and every
directive begins inside one of them, so the spans are the leftmost directives that do not overlap.
What is a directive in the text between two spans is one in the pattern too, and there is none.
-/
namespace RandomTables

namespace Span

/-! ## Directives -/

/-- A span that is a directive of a pattern: an opening pair, something between that is not blank,
and a closing pair that is the first one behind the opening pair. -/
structure Reads (pattern : List Char) (s : Span) (inner : List Char) : Prop where
  stop_le : s.stop ≤ pattern.length
  raw_eq_slice : s.raw = Text.slice pattern s.start s.stop
  raw_eq : s.raw = opening ++ inner ++ closing
  first_closing : ∀ i < inner.length, ¬ closing <+: (inner ++ closing).drop i
  expression_eq : s.expression = Text.trim inner
  expression_ne_nil : s.expression ≠ []

namespace Reads

variable {pattern inner : List Char} {s : Span} (h : s.Reads pattern inner)
include h

theorem stop_eq : s.stop = s.start + (inner.length + 4) := by
  have hlength := congrArg List.length (h.raw_eq_slice.symm.trans h.raw_eq)
  rw [Text.length_slice h.stop_le, length_raw] at hlength
  omega

theorem drop_start :
    pattern.drop s.start = opening ++ (inner ++ closing) ++ pattern.drop s.stop := by
  have hraw : opening ++ (inner ++ closing) = (pattern.drop s.start).take (s.stop - s.start) := by
    rw [← List.append_assoc, ← h.raw_eq, h.raw_eq_slice]
    rfl
  have hrest : pattern.drop s.stop = (pattern.drop s.start).drop (s.stop - s.start) := by
    rw [List.drop_drop, h.stop_eq, Nat.add_sub_cancel_left]
  rw [hraw, hrest, List.take_append_drop]

theorem drop_inner : pattern.drop (s.start + 2) = inner ++ closing ++ pattern.drop s.stop := by
  rw [← List.drop_drop, h.drop_start]
  rfl

/-- The first opening pair is not behind the start of a directive. -/
theorem start_ge {position : Nat} {cs before after : List Char} (hcs : pattern.drop position = cs)
    (hle : position ≤ s.start) (hopen : Text.cutAt opening cs = some (before, after)) :
    position + before.length ≤ s.start := by
  by_contra hlt
  refine Text.first_of_cutAt hopen (i := s.start - position) (by omega) ?_
  rw [← hcs, List.drop_drop, Nat.add_sub_cancel' hle, h.drop_start, List.append_assoc]
  exact List.prefix_append _ _

/-- A closing pair stands behind the start of a directive. -/
theorem closed {position : Nat} (hle : position ≤ s.start + 2) :
    Text.cutAt closing (pattern.drop position) ≠ none := by
  intro hnone
  refine Text.absent_of_cutAt hnone (s.start + 2 + inner.length - position) ?_
  rw [List.drop_drop, show position + (s.start + 2 + inner.length - position) =
    s.start + 2 + inner.length by omega, ← List.drop_drop, h.drop_inner, List.append_assoc,
    List.drop_left]
  exact List.prefix_append _ _

/-- A directive reaches to the first closing pair. -/
theorem inner_eq {inner' rest : List Char}
    (hclose : Text.cutAt closing (pattern.drop (s.start + 2)) = some (inner', rest)) :
    inner' = inner := by
  have hfirst : inner'.length ≤ inner.length := by
    by_contra hlt
    refine Text.first_of_cutAt hclose (Nat.lt_of_not_le hlt) ?_
    rw [h.drop_inner, List.append_assoc, List.drop_left]
    exact List.prefix_append _ _
  have hcut := Text.append_of_cutAt hclose
  rw [h.drop_inner, List.append_assoc, List.append_assoc] at hcut
  have hlast : inner.length ≤ inner'.length := by
    by_contra hlt
    have hlt := Nat.lt_of_not_le hlt
    have hrest : closing <+: closing ++ rest := List.prefix_append _ _
    refine h.first_closing _ hlt (List.prefix_of_prefix_length_le hrest ?_ ?_)
    · have hdrop := congrArg (List.drop inner'.length) hcut
      rw [List.drop_left, ← List.append_assoc, List.drop_append_of_le_length] at hdrop
      · exact hdrop ▸ List.prefix_append _ _
      · rw [List.length_append]
        omega
    · rw [List.length_drop, List.length_append]
      omega
  exact (List.append_inj hcut (Nat.le_antisymm hfirst hlast)).1

/-- No directive begins between the braces of a blank span. -/
theorem start_notMem_blank {position : Nat} {blank rest : List Char}
    (hdrop : pattern.drop position = blank ++ closing ++ rest) (hblank : Text.trim blank = [])
    (hafter : position ≤ s.start + 1) : position + blank.length + 2 ≤ s.start := by
  by_contra hlt
  -- the first brace of the directive behind the opening pair, in front of which it may begin
  have hbrace : pattern[max s.start position]? = some '\x7b' := by
    have hfirst : (pattern.drop s.start)[0]? = some '\x7b' := by rw [h.drop_start]; rfl
    have hsecond : (pattern.drop s.start)[1]? = some '\x7b' := by rw [h.drop_start]; rfl
    rw [List.getElem?_drop] at hfirst hsecond
    rcases Nat.le_total position s.start with hle | hle
    · rwa [Nat.max_eq_left hle]
    · rcases Nat.eq_or_lt_of_le hle with rfl | hlt
      · rwa [Nat.max_self]
      · rwa [Nat.max_eq_right hle, Nat.le_antisymm hafter hlt]
  obtain ⟨k, hk⟩ := Nat.exists_eq_add_of_le (Nat.le_max_right s.start position)
  have hless : k < (blank ++ closing).length := by
    rw [List.length_append, show closing.length = 2 from rfl]
    omega
  rw [hk, ← List.getElem?_drop, hdrop, List.getElem?_append_left hless] at hbrace
  rcases List.mem_append.1 (List.mem_of_getElem? hbrace) with hmem | hmem
  · exact absurd (Text.isBlank_of_trim_eq_nil hblank _ hmem) (by decide)
  · exact absurd hmem (by decide)

end Reads

/-! ## Finding directives -/

/-- What is found is a directive. -/
theorem findFrom_reads {pattern : List Char} {position : Nat} {cs : List Char}
    (hcs : pattern.drop position = cs) (hp : position ≤ pattern.length) :
    ∀ s ∈ findFrom position cs, ∃ inner, s.Reads pattern inner := by
  -- the invariant: what is still to be searched is the pattern from the position on
  fun_induction findFrom position cs with
  | case1 => simp
  | case2 => simp
  | case3 position cs before after hopen inner rest hclose start stop more hblank ih =>
      have hdrop := Text.drop_of_append (append_of_cuts hopen hclose ▸ hcs)
      rw [length_raw] at hdrop
      exact ih hdrop.1 (hdrop.2 hp)
  | case4 position cs before after hopen inner rest hclose start stop more hblank ih =>
      have happend := append_of_cuts hopen hclose ▸ hcs
      have hdrop := Text.drop_of_append happend
      have hraw := Text.slice_of_append happend
      rw [length_raw] at hdrop hraw
      intro s hs
      rcases List.mem_cons.1 hs with rfl | hs
      · refine ⟨inner, hdrop.2 hp, hraw.symm, rfl, fun i hi hmark => ?_, rfl, by simpa using hblank⟩
        refine Text.first_of_cutAt hclose hi ?_
        rw [← Text.append_of_cutAt hclose, List.drop_append_of_le_length
          (Nat.le_trans (Nat.le_of_lt hi) (by simp))]
        exact hmark.trans (List.prefix_append _ _)
      · exact ih hdrop.1 (hdrop.2 hp) s hs

/-- Every directive begins inside one that is found, and not before it. -/
theorem exists_findFrom {pattern inner' : List Char} {s : Span} (h : s.Reads pattern inner')
    {position : Nat} {cs : List Char} (hcs : pattern.drop position = cs)
    (hle : position ≤ s.start) :
    ∃ t ∈ findFrom position cs, t.start ≤ s.start ∧ s.start < t.stop := by
  fun_induction findFrom position cs with
  | case1 position cs hopen =>
      -- the directive has an opening pair
      refine absurd ?_ (Text.absent_of_cutAt hopen (s.start - position))
      rw [← hcs, List.drop_drop, Nat.add_sub_cancel' hle, h.drop_start, List.append_assoc]
      simp
  | case2 position cs before after hopen hclose =>
      have hafter : pattern.drop (position + before.length + 2) = after :=
        (Text.drop_of_append (hcs.trans (Text.append_of_cutAt hopen).symm)).1
      have hstart := h.start_ge hcs hle hopen
      exact absurd (hafter ▸ hclose) (h.closed (by omega))
  | case3 position cs before after hopen inner rest hclose start stop more hblank ih =>
      have hafter : pattern.drop (position + before.length + 2) = after :=
        (Text.drop_of_append (hcs.trans (Text.append_of_cutAt hopen).symm)).1
      have hblank : Text.trim inner = [] := by simpa using hblank
      rcases Nat.eq_or_lt_of_le (h.start_ge hcs hle hopen) with heq | hlt
      · -- the directive would be the blank span itself
        have hinner := h.inner_eq (heq ▸ hafter ▸ hclose)
        exact absurd (h.expression_eq.trans (hinner ▸ hblank)) h.expression_ne_nil
      · have hdrop := Text.drop_of_append (append_of_cuts hopen hclose ▸ hcs)
        rw [length_raw] at hdrop
        have hstart := h.start_notMem_blank (hafter.trans (Text.append_of_cutAt hclose).symm) hblank
          (by omega)
        exact ih hdrop.1 (by omega)
  | case4 position cs before after hopen inner rest hclose start stop more hblank ih =>
      have hdrop := Text.drop_of_append (append_of_cuts hopen hclose ▸ hcs)
      rw [length_raw] at hdrop
      have hstart := h.start_ge hcs hle hopen
      rcases Nat.lt_or_ge s.start stop with hlt | hge
      · exact ⟨_, List.mem_cons_self, hstart, hlt⟩
      · obtain ⟨t, ht, hbounds⟩ := ih hdrop.1 hge
        exact ⟨t, List.mem_cons_of_mem _ ht, hbounds⟩

/-- A directive of a stretch of a pattern is one of the pattern. -/
theorem Reads.shift {pattern inner : List Char} {s : Span} {start stop : Nat}
    (h : s.Reads (Text.slice pattern start stop) inner) (hstop : stop ≤ pattern.length) :
    Reads pattern { s with start := start + s.start, stop := start + s.stop } inner := by
  have hle := h.stop_le
  rw [Text.length_slice hstop] at hle
  refine ⟨?_, ?_, h.raw_eq, h.first_closing, h.expression_eq, h.expression_ne_nil⟩
  · have := h.stop_eq
    simp only
    omega
  · rw [h.raw_eq_slice, Text.slice_slice hle]

end Span

/-! ## Pieces -/

namespace Piece

/-- The text between two spans has no directive of its own. -/
theorem find_literal {pattern text : List Char} {start : Nat}
    (h : .literal text start ∈ ofPattern pattern) : Span.find text = [] := by
  have habut := ofPattern_abut pattern
  have hstop : start + text.length ≤ pattern.length := (habut.within _ h).2
  have htext : text = Text.slice pattern start (start + text.length) := ofPattern_fits pattern _ h
  refine List.eq_nil_iff_forall_not_mem.2 fun s hs => ?_
  obtain ⟨inner, hreads⟩ := Span.findFrom_reads List.drop_zero (Nat.zero_le _) s hs
  have hle := hreads.stop_le
  have hlt := hreads.stop_eq
  -- the directive is one of the pattern, where it begins inside a span that the text keeps off
  obtain ⟨t, ht, hbegin, hend⟩ := Span.exists_findFrom ((htext ▸ hreads).shift hstop)
    List.drop_zero (Nat.zero_le _)
  rcases habut.disjoint h (mem_ofPattern_of_mem_find ht) Piece.noConfusion with hoff | hoff
  · simp only [bounds] at hoff hbegin
    omega
  · simp only [bounds] at hoff hend
    omega

end Piece

namespace Span

/-- The spans of a pattern do not overlap and are directives, and every directive begins inside one
of them. The text around them has no directive of its own, and put together with the text around
them they are the pattern again. -/
theorem find_leftmost (pattern : List Char) :
    (find pattern).Pairwise (fun s t => s.stop ≤ t.start) ∧
      (∀ s ∈ find pattern, ∃ inner, s.Reads pattern inner) ∧
      (∀ (s : Span) (inner : List Char), s.Reads pattern inner →
        ∃ t ∈ find pattern, t.start ≤ s.start ∧ s.start < t.stop) ∧
      (∀ text start, .literal text start ∈ Piece.ofPattern pattern → find text = []) ∧
      (Piece.ofPattern pattern).filterMap Piece.span? = find pattern ∧
      (Piece.ofPattern pattern).flatMap Piece.chars = pattern ∧
      find ((Piece.ofPattern pattern).flatMap Piece.chars) = find pattern := by
  have hspans := Piece.spans_ofPattern pattern
  have hchars := Piece.chars_ofPattern pattern
  refine ⟨?_, findFrom_reads List.drop_zero (Nat.zero_le _), fun s inner h => ?_,
    fun text start => Piece.find_literal, hspans, hchars, congrArg find hchars⟩
  · rw [← hspans]
    refine (Piece.ofPattern_abut pattern).pairwise.filterMap _ fun p q hpq s hs t ht => ?_
    cases p <;> cases hs
    cases q <;> cases ht
    exact hpq
  · exact exists_findFrom h List.drop_zero (Nat.zero_le _)

/-- Three braces, a blank span and an opening pair that nothing closes. -/
theorem find_leftmost_of_braces :
    .literal "\x7d\x7b\x7b \x7d\x7db\x7b\x7bc".toList 6 ∈
        Piece.ofPattern "\x7b\x7b\x7ba\x7d\x7d\x7d\x7b\x7b \x7d\x7db\x7b\x7bc".toList ∧
      find "\x7d\x7b\x7b \x7d\x7db\x7b\x7bc".toList = [] := by
  have hpieces : Piece.ofPattern
      "\x7b\x7b\x7ba\x7d\x7d\x7d\x7b\x7b \x7d\x7db\x7b\x7bc".toList =
        [.directive ⟨"\x7b\x7b\x7ba\x7d\x7d".toList, "\x7ba".toList, 0, 6⟩,
          .literal "\x7d\x7b\x7b \x7d\x7db\x7b\x7bc".toList 6] := by cbv
  have hmem : .literal "\x7d\x7b\x7b \x7d\x7db\x7b\x7bc".toList 6 ∈ Piece.ofPattern
      "\x7b\x7b\x7ba\x7d\x7d\x7d\x7b\x7b \x7d\x7db\x7b\x7bc".toList :=
    hpieces ▸ List.mem_cons_of_mem _ List.mem_cons_self
  exact ⟨hmem, (find_leftmost _).2.2.2.1 _ 6 hmem⟩

end Span

end RandomTables
