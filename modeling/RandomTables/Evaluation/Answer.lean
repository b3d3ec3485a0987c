-- SUMMARY: Answering the calls of evaluations, and how many of them can be open at once.
import RandomTables.Evaluation.Pattern

/-!
# Answering calls

An evaluation calls for patterns, rolls and shared variables, and these are evaluated in turn. The
fuel bounds the number of open calls. It is computed from the limit on levels and the number of
shared variables: between two levels, each shared variable is under evaluation at most once.
-/
namespace RandomTables

namespace Eval

/-- The answers to calls that have at most `fuel` calls open inside each other. -/
def answerWithin (env : Surroundings) : Nat → {α : Type} → Call α → Eval α
  | 0, _, _ => throw .outOfFuel
  | fuel + 1, _, .pattern text collectionId =>
    evalPattern env (answerWithin env fuel) text collectionId
  | fuel + 1, _, .roll target excluded => roll env (answerWithin env fuel) target excluded
  | fuel + 1, _, .shared owner collectionId d =>
    evalShared env (answerWithin env fuel) owner collectionId d

end Eval

/-- How many shared variables an optional block declares. -/
def countShared (block : Option (Assoc String)) : Nat := (block.getD []).length

/-- How many shared variables a document, its tables and its templates declare or set. -/
def Document.sharedCount (d : Document) : Nat :=
  d.shared.length + Number.sumOf (fun t => countShared t.header.shared) d.tables +
    Number.sumOf (fun t => countShared t.shared) d.templates + d.conditionals.length

/-- A bound on the shared variables that an evaluation can meet. -/
def Surroundings.sharedBound (env : Surroundings) (extra : Assoc String) : Nat :=
  Number.sumOf (fun c => c.document.sharedCount) env.registry.collections + extra.length

/-- A bound on the calls that an evaluation can have open at once. -/
def Surroundings.callBound (env : Surroundings) (extra : Assoc String) : Nat :=
  2 * (env.config.maxRecursionDepth + 2) * (env.sharedBound extra + 1) + 4

/-- The answers to the calls of an evaluation with extra shared variables. -/
def Surroundings.answer (env : Surroundings) (extra : Assoc String) : Answer :=
  Eval.answerWithin env (env.callBound extra)

end RandomTables
