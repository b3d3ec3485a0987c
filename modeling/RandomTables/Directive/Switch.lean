-- SUMMARY: The written form of a switch: subject, branches and else, cut out of the text.
import RandomTables.Text.Split
import RandomTables.Error

/-!
# The text of a switch

    switch := (subject '.')? 'switch' '[' branch ']' ('.switch'? '[' branch ']')* otherwise?
    otherwise := '.else' '[' result ']'

The text is cut into parts before any of them is read. A part that does not fit is kept as the error
to raise when the reader comes to it, after all parts before it have been read.
-/
namespace RandomTables.Switch

open Text

/-- A part of the text of a switch. -/
inductive Part where
  /-- A branch, and whether `.switch` stands before its bracket. -/
  | branch (named : Bool) (body : List Char)
  | otherwise (body : List Char)
  | broken (cause : ParseCause)
  deriving DecidableEq, Repr

def elseMark : List Char := ['.', 'e', 'l', 's', 'e', '[']

def startMark : List Char := ['s', 'w', 'i', 't', 'c', 'h', '[']

def switchMark : List Char := '.' :: startMark

/-- What follows a mark at the start of a text. -/
def afterMark (mark cs : List Char) : Option (List Char) := mark.isPrefixOf? cs

theorem length_afterMark {mark cs rest : List Char} (h : afterMark mark cs = some rest) :
    rest.length + mark.length = cs.length := by
  rw [← append_of_isPrefixOf? h]
  simp
  omega

/-- The text after the opening bracket of the next branch, and whether `.switch` stood before. -/
def branchStart (cs : List Char) : Option (Bool × List Char) :=
  match afterMark switchMark cs with
  | some rest => some (true, rest)
  | none =>
    match cs with
    | '[' :: rest => some (false, rest)
    | _ => none

theorem length_branchStart {cs rest : List Char} {named : Bool}
    (h : branchStart cs = some (named, rest)) : rest.length < cs.length := by
  unfold branchStart at h
  split at h
  · rename_i r hr
    have := length_afterMark hr
    simp only [Option.some.injEq, Prod.mk.injEq] at h
    obtain ⟨-, rfl⟩ := h
    simp only [switchMark, startMark, List.length_cons] at this
    omega
  · split at h
    · simp only [Option.some.injEq, Prod.mk.injEq] at h
      obtain ⟨-, rfl⟩ := h
      simp
    · simp at h

/-- The parts of a text that begins at a bracket of a branch, or behind one. -/
def partsOf (cs : List Char) : List Part :=
  if cs.isEmpty then []
  else
    match afterMark elseMark cs with
    | some rest =>
      match cutBracket rest with
      | none => [.broken .unbalancedElse]
      | some (body, []) => [.otherwise body]
      | some (body, _ :: _) => [.otherwise body, .broken .textAfterElse]
    | none =>
      match _hstart : branchStart cs with
      | none => [.broken .expectedBracket]
      | some (named, rest) =>
        match _hcut : cutBracket rest with
        | none => [.broken .unbalancedBracket]
        | some (body, rest') => .branch named body :: partsOf rest'
  termination_by cs.length
  decreasing_by
    have h1 := length_branchStart _hstart
    have h2 := length_of_cutBracket _hcut
    omega

/-- The text inside a part's brackets. -/
def Part.body : Part → List Char
  | .branch _ body => body
  | .otherwise body => body
  | .broken _ => []

theorem length_body_lt {cs : List Char} {p : Part} (h : p ∈ partsOf cs) :
    p.body.length < cs.length := by
  fun_induction partsOf cs with
  | case1 => simp at h
  | case2 cs hne rest _ _ =>
    have := List.length_pos_iff.2 (mt List.isEmpty_iff.2 hne)
    simp at h
    simpa [h, Part.body]
  | case3 cs hne rest hmark body hcut =>
    have h1 := length_afterMark hmark
    have h2 := length_of_cutBracket hcut
    simp only [List.mem_singleton] at h
    subst h
    simp only [Part.body]
    simp only [List.length_nil] at h2
    omega
  | case4 cs hne rest hmark body c more hcut =>
    have h1 := length_afterMark hmark
    have h2 := length_of_cutBracket hcut
    simp only [List.mem_cons, List.not_mem_nil, or_false] at h
    rcases h with rfl | rfl <;>
      simp only [Part.body, List.length_cons, List.length_nil] at * <;> omega
  | case5 cs hne _ _ =>
    have := List.length_pos_iff.2 (mt List.isEmpty_iff.2 hne)
    simp at h
    simpa [h, Part.body]
  | case6 cs hne _ named rest _ _ =>
    have := List.length_pos_iff.2 (mt List.isEmpty_iff.2 hne)
    simp at h
    simpa [h, Part.body]
  | case7 cs hne _ named rest hstart body rest' hcut ih =>
    have h1 := length_branchStart hstart
    have h2 := length_of_cutBracket hcut
    simp only [List.mem_cons] at h
    rcases h with rfl | h
    · simp only [Part.body]
      omega
    · have := ih h
      omega

/-- The text of a switch: what stands before its first mark, and its parts. -/
structure Form where
  before : List Char
  parts : List Part

/-- The form of a text that holds a switch. -/
def form? (cs : List Char) : Option Form :=
  (cutAt startMark cs).map fun (before, after) => ⟨before, partsOf ('[' :: after)⟩

theorem length_form {cs : List Char} {f : Form} (h : form? cs = some f) :
    f.before.length < cs.length ∧ ∀ p ∈ f.parts, p.body.length < cs.length := by
  obtain ⟨⟨before, after⟩, hcut, rfl⟩ := Option.map_eq_some_iff.1 h
  have hlen : cs.length = before.length + startMark.length + after.length := by
    rw [← append_of_cutAt hcut]
    simp only [List.length_append]
  have h7 : startMark.length = 7 := rfl
  refine ⟨by simp only; omega, fun p hp => ?_⟩
  have := length_body_lt hp
  simp only [List.length_cons] at this
  omega

end RandomTables.Switch
