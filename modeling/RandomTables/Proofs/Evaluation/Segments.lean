-- SUMMARY: The segments of a result tile the pattern and join to the text, also after conditionals.
import RandomTables.Engine.Request
import RandomTables.Proofs.Evaluation.Monad
import RandomTables.Proofs.Pattern.Tiling

/-!
# Segments of a pattern

A rendering makes one segment of each piece of the pattern, in order, until a directive fails. Since
the pieces tile the pattern, so do the segments; and since a conditional changes the segments along
with the text, both stay in step. The segments of a report follow from these two facts.
-/
namespace RandomTables

/-! ## Segments that tile a pattern -/

namespace Segment

/-- Where a segment starts and stops. -/
def bounds (s : Segment) : Nat × Nat := (s.start, s.stop)

/-- A literal holds the text of its stretch of the pattern, and a directive is written there. -/
def Fits (pattern : List Char) (s : Segment) : Prop :=
  match s.origin with
  | .literal => s.text = String.ofList (Text.slice pattern s.start s.stop)
  | .directive .. => s.raw = String.ofList (Text.slice pattern s.start s.stop)
  | .conditional .. => True

/-- Segments that cover a pattern up to a position, each standing for what is written there. -/
structure Tile (pattern : List Char) (last : Nat) (segments : List Segment) : Prop where
  abut : Abut bounds 0 last segments
  fits : ∀ s ∈ segments, s.Fits pattern

/-- A segment that stands for a piece: a literal shows the piece itself, a directive any output. -/
inductive OfPiece : Piece → Segment → Prop
  | literal (text : List Char) (start : Nat) :
    OfPiece (.literal text start) (.ofLiteral text start)
  | directive (span : Span) (kind : Directive.Kind) (output : String) :
    OfPiece (.directive span) (.ofSpan span kind output)

theorem OfPiece.bounds_eq {p : Piece} {s : Segment} (h : OfPiece p s) : p.bounds = s.bounds := by
  cases h <;> rfl

theorem OfPiece.fits {pattern : List Char} {p : Piece} {s : Segment} (h : OfPiece p s)
    (hp : p.Fits pattern) : s.Fits pattern := by
  cases h <;> exact congrArg String.ofList hp

theorem tile_of_pieces {pattern : List Char} {last : Nat} {pieces : List Piece}
    {segments : List Segment} (hs : List.Forall₂ OfPiece pieces segments)
    (habut : Abut Piece.bounds 0 last pieces) (hfits : ∀ p ∈ pieces, p.Fits pattern) :
    Tile pattern last segments := by
  refine ⟨habut.congr (hs.imp fun _ _ h => h.bounds_eq), ?_⟩
  clear habut
  induction hs with
  | nil => exact fun s hs => absurd hs List.not_mem_nil
  | cons h _ ih =>
      rw [List.forall_mem_cons] at hfits ⊢
      exact ⟨h.fits hfits.1, ih hfits.2⟩

end Segment

/-! ## Rendering -/

namespace Eval

section

variable {env : Surroundings} {answer : Answer} {collectionId : String}

theorem renderPieces_literal (memory : Again) (text : List Char) (start : Nat) (rest : List Piece)
    (c : Context) :
    renderPieces env answer collectionId memory (.literal text start :: rest) c =
      (renderPieces env answer collectionId memory rest c).map (·.cons (.ofLiteral text start))
        id := rfl

theorem renderPieces_directive (memory : Again) (span : Span) (rest : List Piece) (c : Context) :
    renderPieces env answer collectionId memory (.directive span :: rest) c =
      match renderSpan env answer collectionId memory span c with
      | (.error f, c) => (⟨[], some f⟩, c)
      | (.ok (segment, memory), c) =>
        (renderPieces env answer collectionId memory rest c).map (·.cons segment) id := by
  rw [renderPieces, Computation.run_bind_apply]
  rcases renderSpan env answer collectionId memory span c with ⟨_ | _, _⟩ <;> rfl

theorem ofPiece_of_renderSpan {memory memory' : Again} {span : Span} {c c' : Context} {s : Segment}
    (h : renderSpan env answer collectionId memory span c = (.ok (s, memory'), c')) :
    Segment.OfPiece (.directive span) s := by
  obtain ⟨d, _, -, h⟩ := Computation.bind_eq_ok h
  obtain ⟨⟨output, _⟩, _, -, h⟩ := Computation.bind_eq_ok h
  cases h
  exact .directive span d.kind output

/-- A rendering that reaches the end has a segment for each piece. -/
theorem ofPiece_of_renderPieces {memory : Again} {pieces : List Piece} {c c' : Context}
    {segments : List Segment}
    (h : renderPieces env answer collectionId memory pieces c = (⟨segments, none⟩, c')) :
    List.Forall₂ Segment.OfPiece pieces segments := by
  induction pieces generalizing memory c segments with
  | nil =>
      cases h
      exact .nil
  | cons p rest ih =>
      cases p with
      | literal text start =>
          rw [renderPieces_literal] at h
          rcases hr : renderPieces env answer collectionId memory rest c with ⟨⟨more, failure⟩, c₁⟩
          rw [hr] at h
          cases h
          exact .cons (.literal text start) (ih hr)
      | directive span =>
          rw [renderPieces_directive] at h
          rcases hs : renderSpan env answer collectionId memory span c with ⟨f | ⟨s, memory'⟩, c₁⟩
          · simp only [hs] at h
            cases h
          · simp only [hs] at h
            rcases hr : renderPieces env answer collectionId memory' rest c₁ with
              ⟨⟨more, failure⟩, c₂⟩
            rw [hr] at h
            cases h
            exact .cons (ofPiece_of_renderSpan hs) (ih hr)

/-- A rendering that stops has rendered all pieces before one directive, and there it failed. -/
theorem stops_of_renderPieces {memory : Again} {pieces : List Piece} {c c' : Context}
    {segments : List Segment} {f : Failure}
    (h : renderPieces env answer collectionId memory pieces c = (⟨segments, some f⟩, c')) :
    ∃ before span after memory' c₁, pieces = before ++ .directive span :: after ∧
      renderPieces env answer collectionId memory before c = (⟨segments, none⟩, c₁) ∧
      renderSpan env answer collectionId memory' span c₁ = (.error f, c') := by
  induction pieces generalizing memory c segments with
  | nil => cases h
  | cons p rest ih =>
      cases p with
      | literal text start =>
          rw [renderPieces_literal] at h
          rcases hr : renderPieces env answer collectionId memory rest c with ⟨⟨more, failure⟩, c₁⟩
          rw [hr] at h
          cases h
          obtain ⟨before, span, after, memory', c₁, rfl, hbefore, hspan⟩ := ih hr
          refine ⟨.literal text start :: before, span, after, memory', c₁, rfl, ?_, hspan⟩
          rw [renderPieces_literal, hbefore]
          rfl
      | directive span =>
          rw [renderPieces_directive] at h
          rcases hs : renderSpan env answer collectionId memory span c with ⟨f' | ⟨s, memory'⟩, c₁⟩
          · simp only [hs] at h
            cases h
            exact ⟨[], span, rest, memory, c, rfl, rfl, hs⟩
          · simp only [hs] at h
            rcases hr : renderPieces env answer collectionId memory' rest c₁ with
              ⟨⟨more, failure⟩, c₂⟩
            rw [hr] at h
            cases h
            obtain ⟨before, failing, after, memory'', c₃, rfl, hbefore, hspan⟩ := ih hr
            refine ⟨.directive span :: before, failing, after, memory'', c₃, rfl, ?_, hspan⟩
            simp only [renderPieces_directive, hs, hbefore]
            rfl

/-- The rendering of some pieces stopped at a directive: all pieces before it were rendered, into
the given segments, and from what they left the directive failed. -/
def StopsAt (env : Surroundings) (answer : Answer) (collectionId : String) (memory : Again)
    (pieces : List Piece) (c : Context) (segments : List Segment) (f : Failure) (span : Span) :
    Prop :=
  ∃ before after memory' c₁ c₂, pieces = before ++ .directive span :: after ∧
    renderPieces env answer collectionId memory before c = (⟨segments, none⟩, c₁) ∧
    renderSpan env answer collectionId memory' span c₁ = (.error f, c₂)

theorem stopsAt_of_renderPieces {memory : Again} {pieces : List Piece} {c c' : Context}
    {segments : List Segment} {f : Failure}
    (h : renderPieces env answer collectionId memory pieces c = (⟨segments, some f⟩, c')) :
    ∃ span, StopsAt env answer collectionId memory pieces c segments f span := by
  obtain ⟨before, span, after, memory', c₁, hpieces, hbefore, hspan⟩ := stops_of_renderPieces h
  exact ⟨span, before, after, memory', c₁, c', hpieces, hbefore, hspan⟩

/-! ## Segments of a rendering -/

theorem tile_of_renderPattern {pattern : String} {c c' : Context} {segments : List Segment}
    (h : renderPattern env answer pattern collectionId c = (⟨segments, none⟩, c')) :
    Segment.Tile pattern.toList pattern.length segments :=
  Segment.tile_of_pieces (ofPiece_of_renderPieces h) (Piece.ofPattern_abut _)
    (Piece.ofPattern_fits _)

/-- The segments before a directive that failed cover the pattern up to that directive. -/
theorem StopsAt.tile {pattern : List Char} {memory : Again} {c : Context} {segments : List Segment}
    {f : Failure} {span : Span}
    (h : StopsAt env answer collectionId memory (Piece.ofPattern pattern) c segments f span) :
    Segment.Tile pattern span.start segments := by
  obtain ⟨before, after, _, c₁, _, hpieces, hbefore, -⟩ := h
  obtain ⟨middle, hab, hrest⟩ := Abut.split (hpieces ▸ Piece.ofPattern_abut pattern)
  obtain rfl : span.start = middle := hrest.1
  refine Segment.tile_of_pieces (ofPiece_of_renderPieces hbefore) hab fun p hp => ?_
  exact Piece.ofPattern_fits pattern p (hpieces ▸ List.mem_append_left _ hp)

end

end Eval

/-! ## Conditionals -/

namespace Segment

@[simp]
theorem join_append (l₁ l₂ : List Segment) : join (l₁ ++ l₂) = join l₁ ++ join l₂ := by
  simp only [join, List.map_append, String.join_append]

@[simp]
theorem join_cons (s : Segment) (l : List Segment) : join (s :: l) = s.text ++ join l := by
  simp only [join, List.map_cons, String.join_cons]

@[simp]
theorem join_nil : join [] = "" := rfl

end Segment

/-- A text in step with its segments: they join to it and cover the pattern. -/
structure Rendered.InStep (pattern : String) (r : Rendered) : Prop where
  joins : Segment.join r.segments = r.text
  tile : Segment.Tile pattern.toList pattern.length r.segments

namespace Change

variable {pattern condition : String} {segments : List Segment}

theorem stopOf_eq {last : Nat} (h : Abut Segment.bounds 0 last segments) :
    stopOf segments = last := h.getLast?

theorem join_segmentsAfter (change : Change) :
    Segment.join (change.segmentsAfter condition segments) =
      change.textAfter (Segment.join segments) := by
  cases change <;> simp [segmentsAfter, textAfter, addedSegment]

/-- Added text is a segment of no width at either end; a replacement is one of full width. -/
theorem tile_segmentsAfter {pattern : List Char} {last : Nat} (change : Change)
    (h : Segment.Tile pattern last segments) :
    Segment.Tile pattern last (change.segmentsAfter condition segments) := by
  have hstop := stopOf_eq h.abut
  cases change with
  | keep => exact h
  | append added =>
      refine ⟨h.abut.append ⟨hstop, Nat.le_refl _, hstop⟩, ?_⟩
      rw [segmentsAfter, List.forall_mem_append, List.forall_mem_singleton]
      exact ⟨h.fits, trivial⟩
  | prepend added =>
      refine ⟨⟨rfl, Nat.le_refl _, h.abut⟩, ?_⟩
      rw [segmentsAfter, List.forall_mem_cons]
      exact ⟨trivial, h.fits⟩
  | become text =>
      refine ⟨⟨rfl, Nat.zero_le _, hstop⟩, ?_⟩
      rw [segmentsAfter, List.forall_mem_singleton]
      trivial

theorem apply_inStep {r : Rendered} (change : Change) (h : r.InStep pattern) :
    (change.apply condition r).InStep pattern := by
  by_cases hsame : change.textAfter r.text = r.text
  · simpa only [apply, if_pos hsame] using h
  · simp only [apply, if_neg hsame]
    exact ⟨by rw [join_segmentsAfter, h.joins], tile_segmentsAfter change h.tile⟩

end Change

namespace Eval

variable (env : Surroundings) (answer : Answer) (collectionId : String)

theorem amendFrom_inStep {pattern : String} (conditionals : List Conditional) {r : Rendered}
    (matched : Nat) (c : Context) (h : r.InStep pattern) :
    (amendFrom env answer collectionId conditionals r matched c).1.1.InStep pattern := by
  induction conditionals generalizing r matched c with
  | nil => exact h
  | cons conditional rest ih =>
      rw [amendFrom, Computation.run_bind_apply]
      rcases evalConditional env answer collectionId conditional r.text c with ⟨_ | _ | change, c₁⟩
      · exact h
      · exact ih matched c₁ h
      · exact ih (matched + 1) c₁ (change.apply_inStep h)

/-- However many conditionals hold, and whether or not one fails, text and segments stay in step. -/
theorem amend_inStep {pattern : String} {r : Rendered} (conditionals : List Conditional)
    (c : Context) (h : r.InStep pattern) :
    (amend env answer collectionId conditionals r c).1.1.InStep pattern := by
  have hfrom := amendFrom_inStep env answer collectionId conditionals 0 c h
  rw [amend, StateM.bind_apply]
  rcases hr : amendFrom env answer collectionId conditionals r 0 c with ⟨⟨r', _ | _⟩, c₁⟩ <;>
    rw [hr] at hfrom <;> exact hfrom

end Eval

/-! ## Reports -/

namespace Request

open Eval

variable {env : Surroundings} {answer : Answer}

/-- What a request for a pattern comes to: a failure of the document's scope, of the rendering or of
a conditional, or the amended text. -/
theorem complete_pattern (pattern : String) (d : Document) (extra : Assoc String) (c : Context) :
    complete env answer (.pattern pattern) d extra c =
      match openDocument env d extra c with
      | (.error f, c) => (([], .error f), c)
      | (.ok (), c) =>
        match renderPattern env answer pattern env.collectionId c with
        | (⟨segments, some f⟩, c) => ((segments, .error f), c)
        | (⟨segments, none⟩, c) =>
          match amend env answer env.collectionId d.conditionals
              ⟨Segment.join segments, segments⟩ c with
          | ((r, some f), c) => ((r.segments, .error f), c)
          | ((r, none), c) =>
            ((r.segments, .ok { text := r.text, collectionId := env.collectionId }), c) := by
  rw [complete, Computation.run_bind_apply]
  rcases openDocument env d extra c with ⟨_ | ⟨⟨⟩⟩, c₀⟩
  · rfl
  · dsimp only
    rw [StateM.bind_apply, perform, StateM.bind_apply]
    rcases renderPattern env answer pattern env.collectionId c₀ with ⟨⟨segments, _ | f⟩, c₁⟩
    · change (amend env answer env.collectionId d.conditionals ⟨Segment.join segments, segments⟩
        >>= _) c₁ = _
      rw [StateM.bind_apply]
      dsimp only
      rcases amend env answer env.collectionId d.conditionals ⟨Segment.join segments, segments⟩ c₁
        with ⟨⟨r, _ | f⟩, c₂⟩ <;> rfl
    · rfl

/-- A pattern that is answered with a text has segments in step with it. -/
theorem inStep_of_complete {pattern : String} {d : Document} {extra : Assoc String} {c c' : Context}
    {segments : List Segment} {o : Outcome}
    (h : complete env answer (.pattern pattern) d extra c = ((segments, .ok o), c')) :
    Rendered.InStep pattern ⟨o.text, segments⟩ := by
  rw [complete_pattern] at h
  rcases hopen : openDocument env d extra c with ⟨_ | ⟨⟨⟩⟩, c₀⟩
  · simp only [hopen] at h
    cases h
  · simp only [hopen] at h
    rcases hr : renderPattern env answer pattern env.collectionId c₀ with ⟨⟨rendered, _ | f⟩, c₁⟩
    · have hstart : Rendered.InStep pattern ⟨Segment.join rendered, rendered⟩ :=
        ⟨rfl, tile_of_renderPattern hr⟩
      have hstep := amend_inStep env answer env.collectionId d.conditionals c₁ hstart
      simp only [hr] at h
      rcases ha : amend env answer env.collectionId d.conditionals
          ⟨Segment.join rendered, rendered⟩ c₁ with ⟨⟨r, _ | f⟩, c₂⟩
      · simp only [ha] at h hstep
        cases h
        exact hstep
      · simp only [ha] at h
        cases h
    · simp only [hr] at h
      cases h

/-- A pattern whose rendering fails is answered with that failure, and with the segments of the
pieces before the directive that failed. -/
theorem stopsAt_of_complete {pattern : String} {d : Document} {extra : Assoc String}
    {c c₀ c₁ c' : Context} {rendering : Rendering} {f : Failure} {segments : List Segment}
    {result : Except Failure Outcome} (hopen : openDocument env d extra c = (.ok (), c₀))
    (hrender : renderPattern env answer pattern env.collectionId c₀ = (rendering, c₁))
    (hfailure : rendering.failure = some f)
    (h : complete env answer (.pattern pattern) d extra c = ((segments, result), c')) :
    result = .error f ∧ ∃ span, StopsAt env answer env.collectionId .nothing
      (Piece.ofPattern pattern.toList) c₀ segments f span := by
  obtain ⟨rendered, failure⟩ := rendering
  cases hfailure
  obtain ⟨span, hspan⟩ := stopsAt_of_renderPieces hrender
  rw [complete_pattern, hopen] at h
  simp only [hrender] at h
  cases h
  exact ⟨rfl, span, hspan⟩

end Request

namespace Engine

theorem report_of_reply_ok {e : Engine} {id pattern : String} {segments : List Segment}
    {result : Except Failure Outcome} {c : Context} {report : Report}
    (h : (e.reply id (.pattern pattern) segments result c).result = .ok report) :
    report.segments = segments ∧
      match result with
      | .ok o => report.error = none ∧ report.text = o.text
      | .error f => ∃ error, f = .error error ∧ report.error = some error := by
  unfold reply at h
  split at h
  · cases h
    exact ⟨rfl, rfl, rfl⟩
  · cases h
    exact ⟨rfl, _, rfl, rfl⟩
  · cases h

theorem id_of_loaded {r : Registry} {id : String} {c : Collection} (h : r.loaded id = .ok c) :
    c.id = id := by
  unfold Registry.loaded Registry.get? at h
  split at h
  · cases h
    rename_i hc
    simpa using List.find?_some hc
  · cases h

/-- The segments of an evaluated pattern join to the text of the report and tile the pattern. If a
directive failed, they tile the pattern up to that directive: they are what the pieces before it
were rendered into. -/
theorem segments_of_evaluate {e : Engine} {id pattern : String} {options : Options}
    {report : Report} (h : (e.evaluate id (.pattern pattern) options).result = .ok report) :
    (report.error = none →
      Segment.join report.segments = report.text ∧
        Segment.Tile pattern.toList pattern.length report.segments) ∧
    ∀ c c₀ c₁ rendering f, e.registry.loaded id = .ok c →
      Request.openDocument (e.surroundings c) c.document options.shared
        (e.freshContext (.pattern pattern) options c.document.statics.keys) = (.ok (), c₀) →
      Eval.renderPattern (e.surroundings c) ((e.surroundings c).answer options.shared) pattern id
        c₀ = (rendering, c₁) →
      rendering.failure = some f →
      ∃ error span, f = .error error ∧ report.error = some error ∧
        Eval.StopsAt (e.surroundings c) ((e.surroundings c).answer options.shared) id .nothing
          (Piece.ofPattern pattern.toList) c₀ report.segments f span ∧
        Segment.Tile pattern.toList span.start report.segments := by
  unfold evaluate at h
  cases hloaded : e.registry.loaded id with
  | error failure =>
      rw [hloaded] at h
      obtain ⟨-, error, hf, herror⟩ := report_of_reply_ok h
      refine ⟨fun hnone => ?_, fun c c₀ c₁ rendering f hc => nomatch hc⟩
      rw [hnone] at herror
      cases herror
  | ok c =>
      obtain rfl := id_of_loaded hloaded
      rw [hloaded] at h
      dsimp only at h
      rcases hrun : e.run c (.pattern pattern) options with ⟨⟨segments, result⟩, context⟩
      rw [hrun] at h
      obtain ⟨hsegments, hresult⟩ := report_of_reply_ok h
      refine ⟨fun hnone => ?_, fun c' c₀ c₁ rendering f hc hopen hrender hfailure => ?_⟩
      · cases result with
        | error f =>
            obtain ⟨error, -, herror⟩ := hresult
            rw [hnone] at herror
            cases herror
        | ok o =>
            have hstep := Request.inStep_of_complete hrun
            rw [hsegments, hresult.2]
            exact ⟨hstep.joins, hstep.tile⟩
      · cases hc
        obtain ⟨rfl, span, hspan⟩ := Request.stopsAt_of_complete hopen hrender hfailure hrun
        obtain ⟨error, hf, herror⟩ := hresult
        rw [hsegments]
        exact ⟨error, span, hf, herror, hspan, hspan.tile⟩

/-- A greeting in three pieces, and one that stops at an unknown name after its first piece. -/
theorem segments_of_greeting :
    let document : Document :=
      { metadata := { name := "n", namespaceText := "c" }, tables := [], statics := [("name", "Ann")] }
    let e : Engine := { registry := ⟨[{ id := "c", document }]⟩ }
    let options : Options := { source := .ofDraws [] }
    let known := "Hi \x7b\x7b$name\x7d\x7d!"
    let unknown := "Hi \x7b\x7b$nobody\x7d\x7d!"
    (∃ report, (e.evaluate "c" (.pattern known) options).result = .ok report ∧
      report.text = "Hi Ann!" ∧ report.segments.length = 3 ∧
      Segment.join report.segments = report.text ∧
      Segment.Tile known.toList known.length report.segments) ∧
    ∃ report, (e.evaluate "c" (.pattern unknown) options).result = .ok report ∧
      report.segments.length = 1 ∧ Segment.Tile unknown.toList 3 report.segments := by
  intro document e options known unknown
  have hview : ∀ (result : Except Failure Report) (text : String) (length : Nat),
      result.toOption.map (fun r => (r.text, r.segments.length)) = some (text, length) →
      ∃ report, result = .ok report ∧ report.text = text ∧ report.segments.length = length := by
    intro result text length h
    cases result with
    | ok report =>
        cases h
        exact ⟨report, rfl, rfl, rfl⟩
    | error f => cases h
  refine ⟨?_, ?_⟩
  · obtain ⟨report, hreport, htext, hlength⟩ :=
      hview (e.evaluate "c" (.pattern known) options).result "Hi Ann!" 3 (by decide +kernel)
    have herror : ((e.evaluate "c" (.pattern known) options).result.toOption.bind (·.error)).isNone :=
      by decide +kernel
    rw [hreport] at herror
    have htile := (segments_of_evaluate hreport).1 (Option.isNone_iff_eq_none.1 herror)
    exact ⟨report, hreport, htext, hlength, htile⟩
  · obtain ⟨report, hreport, -, hlength⟩ :=
      hview (e.evaluate "c" (.pattern unknown) options).result "" 1 (by decide +kernel)
    let c : Collection := { id := "c", document }
    let fresh := e.freshContext (.pattern unknown) options ["name"]
    let opened := Request.openDocument (e.surroundings c) document [] fresh
    let run := Eval.renderPattern (e.surroundings c) ((e.surroundings c).answer []) unknown "c"
      opened.2
    have hfails : run.1.failure.isSome := by decide +kernel
    obtain ⟨f, hf⟩ := Option.isSome_iff_exists.1 hfails
    obtain ⟨error, span, -, -, hstops, htile⟩ :=
      (segments_of_evaluate hreport).2 c opened.2 run.2 run.1 f rfl rfl rfl hf
    have hstart : (Piece.ofPattern unknown.toList).all fun
        | .directive span => decide (span.start = 3)
        | .literal _ _ => true := by decide +kernel
    obtain ⟨before, after, -, -, -, hpieces, -⟩ := hstops
    rw [hpieces] at hstart
    have hspan := List.all_eq_true.1 hstart (.directive span)
      (List.mem_append_right _ List.mem_cons_self)
    exact ⟨report, hreport, hlength, of_decide_eq_true hspan ▸ htile⟩

end Engine

end RandomTables
