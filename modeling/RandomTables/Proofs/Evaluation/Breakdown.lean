-- SUMMARY: Requests are answered by reports, unless arithmetic breaks down in what is written.
import RandomTables.Proofs.Directive.Naming
import RandomTables.Proofs.Evaluation.Budget
import RandomTables.Proofs.Evaluation.Segments

/-!
# Breakdowns

A reply is a report of a text or of an error, with one exception: a breakdown of arithmetic is
caught nowhere. It can only come from a directive or a condition that cannot be read or calculated,
from a range too wide, or from a bound of a text to replace.
-/
namespace RandomTables

/-! ## Unreadable directives -/

namespace Expr

variable {source : String} {t : Token} {ts : List Token}

theorem parseLevel_of_unreadable (hkind : t.kind = .number)
    (hvalue : Number.readFloat t.value = none) (level : Nat) :
    parseLevel source level (t :: ts) = .error (.fault .invalidValue) := by
  induction level with
  | zero =>
      simp only [parseLevel, parseAtom.eq_def, hkind, numberOf, hvalue]
      rfl
  | succ level ih =>
      rw [parseLevel, ih]
      rfl

/-- An expression cannot be read if it begins with a numeral that has no value. -/
theorem parse_of_unreadable {cs : List Char} (hscan : Token.scan cs = .ok (t :: ts))
    (hkind : t.kind = .number) (hvalue : Number.readFloat t.value = none) :
    parse cs = .error (.fault .invalidValue) := by
  have heof : t.kind ≠ .eof := by rw [hkind]; exact nofun
  rw [parse, hscan]
  dsimp only
  rw [ofTokens, if_neg heof, parseLevel_of_unreadable hkind hvalue]
  rfl

end Expr

/-- A superscript is read as a numeral, and then has no value. -/
theorem Directive.parse_superscript :
    parse "math:²".toList = .error (.fault .invalidValue) := by
  have hscan : Token.scan ['²'] = .ok [⟨.number, ['²'], 0, 1⟩, ⟨.eof, [], 1, 0⟩] := by cbv
  have hvalue : (Number.readFloat ['²']).isNone := by decide +kernel
  have hexpression : Expr.parse ['²'] = .error (.fault .invalidValue) :=
    Expr.parse_of_unreadable hscan rfl (Option.isNone_iff_eq_none.1 hvalue)
  have htrim : Text.trim "math:²".toList = "math:²".toList := by cbv
  have hkind : kindOfTrimmed "math:²".toList = .math := by decide +kernel
  have hbody : Text.trim ("math:²".toList.drop 5) = ['²'] := by cbv
  rw [parse_of_action (by rw [htrim]; decide) (by rw [htrim]; cbv), htrim, hkind]
  dsimp only [readAction, readMath]
  rw [hbody, hexpression]
  rfl

theorem Span.find_superscript :
    Span.find "\x7b\x7bmath:²\x7d\x7d".toList =
      [⟨"\x7b\x7bmath:²\x7d\x7d".toList, "math:²".toList, 0, 10⟩] := by cbv

namespace Eval

variable {env : Surroundings} {answer : Answer} {collectionId : String}

/-- A rendering stops at the first directive, if that one cannot be read. -/
theorem failure_of_unreadable {text : String} {span : Span} {rest : List Span} {fault : Fault}
    (hspan : Span.find text.toList = span :: rest)
    (hparse : Directive.parse span.expression = .error (.fault fault)) (c : Context) :
    (renderPattern env answer text collectionId c).1.failure = some (.fault fault) := by
  have hdirective : ∀ (memory : Again) (pieces : List Piece),
      renderPieces env answer collectionId memory (.directive span :: pieces) c =
        (⟨[], some (.fault fault)⟩, c) := by
    intro memory pieces
    have hrender :
        renderSpan env answer collectionId memory span c = (.error (.fault fault), c) := by
      rw [renderSpan, parseSpan, hparse]
      rfl
    rw [renderPieces_directive, hrender]
  rw [renderPattern, Piece.ofPattern, hspan, Piece.between, Piece.gap]
  split
  · rw [List.singleton_append, renderPieces_literal, hdirective]
    rfl
  · rw [List.nil_append, hdirective]

end Eval

namespace Engine

/-- A pattern whose first directive cannot be read for a breakdown is answered by none but that. -/
theorem result_of_unreadable {e : Engine} {collectionId text : String} {options : Options}
    {c : Collection} (hc : e.registry.loaded collectionId = .ok c) {c₀ : Context}
    (hopen : Request.openDocument (e.surroundings c) c.document options.shared
      (e.freshContext (.pattern text) options c.document.statics.keys) = (.ok (), c₀))
    {span : Span} {rest : List Span} {fault : Fault}
    (hspan : Span.find text.toList = span :: rest)
    (hparse : Directive.parse span.expression = .error (.fault fault)) :
    (e.evaluate collectionId (.pattern text) options).result = .error (.fault fault) := by
  have hfailure : (Eval.renderPattern (e.surroundings c) ((e.surroundings c).answer options.shared)
      text (e.surroundings c).collectionId c₀).1.failure = some (.fault fault) :=
    Eval.failure_of_unreadable hspan hparse c₀
  have hresult : (e.run c (.pattern text) options).1.2 = .error (.fault fault) := by
    change (Request.complete _ _ _ _ _ _).1.2 = _
    rw [Request.complete_pattern, hopen]
    dsimp only
    rcases hrender : Eval.renderPattern (e.surroundings c)
      ((e.surroundings c).answer options.shared) text (e.surroundings c).collectionId c₀ with
      ⟨⟨segments, failure⟩, c₁⟩
    rw [hrender] at hfailure
    cases hfailure
    rfl
  rw [evaluate_of_loaded hc, hresult]
  rfl

end Engine

end RandomTables
