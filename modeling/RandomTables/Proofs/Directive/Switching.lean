-- SUMMARY: A text is read as a switch exactly if it is laid out as one and its parts can be read.
import RandomTables.Directive.Parser
import RandomTables.Proofs.Directive.Kinds
import RandomTables.Proofs.Directive.Naming
import RandomTables.Proofs.Directive.Refusals
import RandomTables.Proofs.Expr.Parsing
import RandomTables.Proofs.Expr.Reading
import RandomTables.Proofs.Text.Brackets

/-!
# The layout of switches

A switch is put together from what stands in front of its mark, the bodies of its branches and of
its else, and the words and brackets around them. Its text is taken apart into just these, and every
body is read: the branches in their order, each split at its first colon. Where that fails there is
a parse error, unless a part of the text that is read breaks down over a numeral.
-/
namespace RandomTables

open Text

namespace Switch

/-! ## Layouts -/

/-- A branch as it is written, with or without the word for switches. -/
def branchText : Bool × List Char → List Char
  | (named, body) => (if named then ".switch".toList else []) ++ '[' :: (body ++ [']'])

def branchesText (branches : List (Bool × List Char)) : List Char := branches.flatMap branchText

def elseText : Option (List Char) → List Char
  | none => []
  | some body => ".else[".toList ++ (body ++ [']'])

/-- What stands in front of the word for switches. -/
def subjectMark : Option (List Char) → List Char
  | none => []
  | some subject => subject ++ ['.']

/-- How a switch begins: with a text in which no switch begins yet, and with some branches, of which
the first stands behind the word. -/
structure Opening where
  before : List Char
  first : List Char
  more : List (Bool × List Char)
  first_mark : holds startMark before = false
  balanced_first : Balanced first
  balanced_more : ∀ branch ∈ more, Balanced branch.2

def Opening.branches (o : Opening) : List (Bool × List Char) := (false, o.first) :: o.more

def Opening.text (o : Opening) : List Char :=
  o.before ++ ("switch".toList ++ branchesText o.branches)

/-- The layout of a whole switch. -/
structure Layout extends Opening where
  subject : Option (List Char)
  otherwise : Option (List Char)
  before_eq : before = subjectMark subject
  balanced_else : ∀ body ∈ otherwise, Balanced body

def Layout.text (l : Layout) : List Char := l.toOpening.text ++ elseText l.otherwise

/-! ## Taking a text apart -/

/-- What is left of a text behind the last branch that is complete, and its parts. -/
inductive Ending : List Char → List Part → Prop where
  | done : Ending [] []
  | otherwise {body : List Char} (h : Balanced body) :
      Ending (elseText (some body)) [.otherwise body]
  | behind {body rest : List Char} (h : Balanced body) (hne : rest ≠ []) :
      Ending (elseText (some body) ++ rest) [.otherwise body, .broken .textAfterElse]
  | broken {rest : List Char} {cause : ParseCause} : Ending rest [.broken cause]

theorem Ending.branch_notMem {rest body : List Char} {tail : List Part} {named : Bool}
    (h : Ending rest tail) : Part.branch named body ∉ tail := by
  cases h <;> simp

theorem Ending.of_otherwise_mem {rest body : List Char} {tail : List Part} (h : Ending rest tail)
    (hbody : Part.otherwise body ∈ tail) :
    Balanced body ∧ ∃ more, rest = elseText (some body) ++ more := by
  cases h with
  | done => cases hbody
  | otherwise h =>
      obtain rfl := Part.otherwise.inj (List.mem_singleton.1 hbody)
      exact ⟨h, [], (List.append_nil _).symm⟩
  | behind h hne =>
      rcases List.mem_cons.1 hbody with hbody | hbody
      · obtain rfl := Part.otherwise.inj hbody
        exact ⟨h, _, rfl⟩
      · cases List.mem_singleton.1 hbody
  | broken => cases List.mem_singleton.1 hbody

section

variable {cs body rest : List Char} {named : Bool}

theorem append_of_afterMark {mark : List Char} (h : afterMark mark cs = some rest) :
    cs = mark ++ rest := (append_of_isPrefixOf? h).symm

theorem branchStart_eq_some (h : branchStart cs = some (named, rest)) :
    cs = (if named then ".switch".toList else []) ++ '[' :: rest := by
  unfold branchStart at h
  split at h
  · rename_i hmark
    cases h
    exact (append_of_afterMark hmark).trans (by simp [switchMark, startMark])
  · split at h
    · cases h
      rfl
    · cases h

theorem branchText_append (named : Bool) (body rest : List Char) :
    branchText (named, body) ++ rest =
      (if named then ".switch".toList else []) ++ '[' :: (body ++ ']' :: rest) := by
  simp only [branchText, List.append_assoc, List.cons_append, List.nil_append]

theorem elseText_append (body rest : List Char) :
    elseText (some body) ++ rest = elseMark ++ (body ++ ']' :: rest) := by
  simp [elseText, elseMark]

theorem partsOf_branch (h : Balanced body) (rest : List Char) :
    partsOf (branchText (named, body) ++ rest) = .branch named body :: partsOf rest := by
  have hcut : cutBracket (body ++ ']' :: rest) = some (body, rest) :=
    cutBracket_eq_some_iff.2 ⟨h, rfl⟩
  have hstart : afterMark elseMark (branchText (named, body) ++ rest) = none ∧
      branchStart (branchText (named, body) ++ rest) = some (named, body ++ ']' :: rest) := by
    rw [branchText_append]
    cases named
    · exact ⟨rfl, rfl⟩
    · exact ⟨rfl, rfl⟩
  have hne : (branchText (named, body) ++ rest).isEmpty = false := by
    rw [branchText_append]
    cases named <;> rfl
  rw [partsOf, hne, if_neg Bool.false_ne_true, hstart.1]
  dsimp only
  split
  · rename_i hnone
    rw [hstart.2] at hnone
    cases hnone
  · rename_i hsome
    rw [hstart.2] at hsome
    obtain ⟨rfl, rfl⟩ := Prod.mk.inj (Option.some.inj hsome)
    split
    · rename_i hnone
      rw [hcut] at hnone
      cases hnone
    · rename_i hsome
      rw [hcut] at hsome
      obtain ⟨rfl, rfl⟩ := Prod.mk.inj (Option.some.inj hsome)
      rfl

theorem partsOf_else (otherwise : Option (List Char)) (h : ∀ body ∈ otherwise, Balanced body) :
    partsOf (elseText otherwise) = (otherwise.map Part.otherwise).toList := by
  cases otherwise with
  | none => rw [elseText, partsOf]; rfl
  | some body =>
      have hcut : cutBracket (body ++ [']']) = some (body, []) :=
        cutBracket_eq_some_iff.2 ⟨h body rfl, rfl⟩
      have hmark : afterMark elseMark (elseText (some body)) = some (body ++ [']']) := rfl
      have hne : (elseText (some body)).isEmpty = false := rfl
      rw [partsOf, hne, if_neg Bool.false_ne_true, hmark]
      dsimp only
      rw [hcut]
      rfl

end

theorem branchesText_cons (branch : Bool × List Char) (branches : List (Bool × List Char))
    (rest : List Char) :
    branchesText (branch :: branches) ++ rest =
      branchText branch ++ (branchesText branches ++ rest) := by
  rw [branchesText, List.flatMap_cons, List.append_assoc]
  rfl

/-- The parts of some branches. -/
def branchParts (branches : List (Bool × List Char)) : List Part :=
  branches.map fun branch => .branch branch.1 branch.2

theorem partsOf_branches {branches : List (Bool × List Char)}
    (h : ∀ branch ∈ branches, Balanced branch.2) (rest : List Char) :
    partsOf (branchesText branches ++ rest) = branchParts branches ++ partsOf rest := by
  induction branches with
  | nil => rfl
  | cons branch branches ih =>
      rw [List.forall_mem_cons] at h
      rw [branchesText_cons, partsOf_branch h.1, ih h.2]
      rfl

/-- Every text begins with some branches, behind which it ends in one of the ways that there are. -/
theorem exists_branches (cs : List Char) :
    ∃ branches rest tail, cs = branchesText branches ++ rest ∧
      (∀ branch ∈ branches, Balanced branch.2) ∧ partsOf cs = branchParts branches ++ tail ∧
      Ending rest tail := by
  fun_induction partsOf cs with
  | case1 cs hempty =>
      obtain rfl := List.isEmpty_iff.1 hempty
      exact ⟨[], [], [], rfl, fun _ h => absurd h List.not_mem_nil, rfl, .done⟩
  | case2 cs hne rest hmark hcut =>
      exact ⟨[], cs, _, rfl, fun _ h => absurd h List.not_mem_nil, rfl, .broken⟩
  | case3 cs hne rest hmark body hcut =>
      obtain ⟨hbody, rfl⟩ := cutBracket_eq_some_iff.1 hcut
      obtain rfl := append_of_afterMark hmark
      refine ⟨[], _, _, rfl, fun _ h => absurd h List.not_mem_nil, rfl, ?_⟩
      have hending := Ending.otherwise hbody
      rwa [← List.append_nil (elseText (some body)), elseText_append] at hending
  | case4 cs hne rest hmark body c more hcut =>
      obtain ⟨hbody, rfl⟩ := cutBracket_eq_some_iff.1 hcut
      obtain rfl := append_of_afterMark hmark
      refine ⟨[], _, _, rfl, fun _ h => absurd h List.not_mem_nil, rfl, ?_⟩
      have hending := Ending.behind hbody (List.cons_ne_nil c more)
      rwa [elseText_append] at hending
  | case5 cs hne hmark hstart =>
      exact ⟨[], cs, _, rfl, fun _ h => absurd h List.not_mem_nil, rfl, .broken⟩
  | case6 cs hne hmark named rest hstart hcut =>
      exact ⟨[], cs, _, rfl, fun _ h => absurd h List.not_mem_nil, rfl, .broken⟩
  | case7 cs hne hmark named rest hstart body rest' hcut ih =>
      obtain ⟨branches, rest, tail, rfl, hbranches, hparts, hending⟩ := ih
      obtain ⟨hbody, rfl⟩ := cutBracket_eq_some_iff.1 hcut
      refine ⟨(named, body) :: branches, rest, tail, ?_,
        List.forall_mem_cons.2 ⟨hbody, hbranches⟩, ?_, hending⟩
      · rw [branchStart_eq_some hstart, branchesText_cons, branchText_append]
      · rw [hparts]
        rfl

/-! ## Forms -/

theorem startMark_eq : startMark = "switch".toList ++ ['['] := rfl

/-- A text that begins with an opening has its branches as its first parts. -/
theorem form_of_opening (o : Opening) (rest : List Char) :
    form? (o.text ++ rest) = some ⟨o.before, branchParts o.branches ++ partsOf rest⟩ := by
  have hbalanced : ∀ branch ∈ o.branches, Balanced branch.2 :=
    List.forall_mem_cons.2 ⟨o.balanced_first, o.balanced_more⟩
  have hbehind : '[' :: (o.first ++ ']' :: (branchesText o.more ++ rest)) =
      branchesText o.branches ++ rest := by
    simp [Opening.branches, branchesText, branchText]
  have htext : o.text ++ rest =
      o.before ++ (startMark ++ (o.first ++ ']' :: (branchesText o.more ++ rest))) := by
    rw [Opening.text, List.append_assoc, List.append_assoc, ← hbehind, startMark_eq]
    simp
  have hcut : ∀ after, cutAt ("switch".toList ++ ['['])
      (o.before ++ ("switch".toList ++ ['['] ++ after)) = some (o.before, after) :=
    cutAt_prepend (by decide) o.first_mark
  rw [form?, htext, startMark_eq, hcut, Option.map_some]
  dsimp only
  rw [hbehind, partsOf_branches hbalanced]

/-- A text with a switch in it begins with an opening, or its first bracket is never closed. -/
theorem opening_of_form {cs : List Char} {form : Form} (h : form? cs = some form) :
    (∃ rest, cs = form.before ++ (startMark ++ rest) ∧ holds startMark form.before = false) ∧
      ((∃ (o : Opening) (rest : List Char) (tail : List Part), o.before = form.before ∧
          cs = o.text ++ rest ∧ form.parts = branchParts o.branches ++ tail ∧ Ending rest tail) ∨
        ∃ cause, form.parts = [.broken cause]) := by
  obtain ⟨⟨before, after⟩, hcut, rfl⟩ := Option.map_eq_some_iff.1 h
  have hcs := append_of_cutAt hcut
  have hmark : holds startMark before = false := holds_of_cutAt (List.cons_ne_nil _ _) hcut
  refine ⟨⟨after, by rw [← hcs, List.append_assoc], hmark⟩, ?_⟩
  dsimp only
  obtain ⟨branches, rest, tail, hbehind, hbranches, hparts, hending⟩ :=
    exists_branches ('[' :: after)
  rw [hparts]
  cases branches with
  | nil =>
      -- an else begins with no bracket, so what is left is broken
      obtain rfl : '[' :: after = rest := hbehind
      generalize hrest : '[' :: after = rest at hending
      cases hending with
      | done => cases hrest
      | otherwise hbody => cases hrest
      | behind hbody hne => cases hrest
      | broken => exact .inr ⟨_, rfl⟩
  | cons branch branches =>
      obtain ⟨named, body⟩ := branch
      rw [List.forall_mem_cons] at hbranches
      cases named with
      | true => cases hbehind
      | false =>
          refine .inl ⟨⟨before, body, branches, hmark, hbranches.1, hbranches.2⟩, rest, tail, rfl,
            ?_, rfl, hending⟩
          simp only [← hcs, Opening.text, Opening.branches, List.append_assoc, ← hbehind,
            startMark_eq]
          rfl

section

variable {cs body : List Char} {form : Form}

theorem opening_of_branch_mem {named : Bool} (h : form? cs = some form)
    (hpart : Part.branch named body ∈ form.parts) :
    ∃ (o : Opening) (rest : List Char), cs = o.text ++ rest ∧ (named, body) ∈ o.branches := by
  obtain ⟨-, ⟨o, rest, tail, -, hcs, hparts, hending⟩ | ⟨cause, hparts⟩⟩ := opening_of_form h
  · refine ⟨o, rest, hcs, ?_⟩
    rw [hparts, List.mem_append] at hpart
    rcases hpart with hpart | hpart
    · simpa [branchParts] using hpart
    · exact absurd hpart hending.branch_notMem
  · rw [hparts] at hpart
    cases List.mem_singleton.1 hpart

/-- An else stands behind all branches, however the text goes on. -/
theorem opening_of_otherwise_mem (h : form? cs = some form)
    (hpart : Part.otherwise body ∈ form.parts) :
    ∃ (o : Opening) (rest : List Char), Balanced body ∧
      cs = o.text ++ (elseText (some body) ++ rest) := by
  obtain ⟨-, ⟨o, rest, tail, -, rfl, hparts, hending⟩ | ⟨cause, hparts⟩⟩ := opening_of_form h
  · have htail : Part.otherwise body ∈ tail := by
      rw [hparts, List.mem_append] at hpart
      exact hpart.resolve_left (by simp [branchParts])
    obtain ⟨hbalanced, more, rfl⟩ := hending.of_otherwise_mem htail
    exact ⟨o, more, hbalanced, rfl⟩
  · rw [hparts] at hpart
    cases List.mem_singleton.1 hpart

end

end Switch

namespace Directive

/-! ## What the parts give -/

theorem branchSides_iff {body condition result : List Char} :
    branchSides body = some (condition, result) ↔
      body = condition ++ ':' :: result ∧ Unsplit ':' 0 condition := by
  rw [← split_eq_pair_iff (by decide), branchSides]
  split
  · rename_i hsplit
    simp [hsplit]
  · rename_i hsplit
    simp only [reduceCtorEq, false_iff]
    exact hsplit condition result

/-- What the result of a branch gives: nothing, a quoted text or a directive. -/
def resultOf (body : List Char) : Except Failure Consequence :=
  if (trim body).isEmpty then .ok (.literal "")
  else if inQuotes body then .ok (.literal (String.ofList (unquoted body)))
  else (parse body).map .directive

theorem resultOf_quoted {body : List Char} {text : String} (hne : (trim body).isEmpty = false)
    (hquotes : inQuotes body = true) (htext : String.ofList (unquoted body) = text) :
    resultOf body = .ok (.literal text) := by
  rw [resultOf, hne, if_neg Bool.false_ne_true, if_pos hquotes, htext]

theorem resultOf_plain {body rest : List Char} {c : Char} (htrim : trim body = c :: rest)
    (hc : isQuote c = false) : resultOf body = (parse body).map .directive := by
  have hquotes : inQuotes body = false := by
    rw [inQuotes, htrim]
    cases rest with
    | nil => rfl
    | cons d rest => exact Bool.and_eq_false_imp.2 fun h => absurd h (Bool.eq_false_iff.1 hc)
  rw [resultOf, htrim, hquotes]
  rfl

/-- The body of a branch gives the branch: its condition is what stands in front of the first colon
outside quotes and brackets, and its result what stands behind. -/
inductive BranchReads : List Char → Branch → Prop where
  | sides {condition result : List Char} {e : Expr} {r : Consequence}
      (hfirst : Unsplit ':' 0 condition) (hcondition : Expr.parse (trim condition) = .ok e)
      (hresult : resultOf result = .ok r) : BranchReads (condition ++ ':' :: result) (.mk e r)

theorem BranchReads.of_sides {body condition result : List Char} {e : Expr} {r : Consequence}
    (hsides : branchSides body = some (condition, result))
    (hcondition : Expr.parse (trim condition) = .ok e) (hresult : resultOf result = .ok r) :
    BranchReads body (.mk e r) := by
  obtain ⟨rfl, hfirst⟩ := branchSides_iff.1 hsides
  exact .sides hfirst hcondition hresult

/-- A layout gives a directive: its subject, its branches in order and its else are those of the
directive. -/
inductive LayoutReads (l : Switch.Layout) (raw : String) :
    Directive → Prop where
  | parts {subject : Option Directive} {branches : List Branch} {otherwise : Option Consequence}
      (hsubject : Option.Rel (fun text d => parse text = .ok d) l.subject subject)
      (hbranches : List.Forall₂ (fun branch b => BranchReads branch.2 b) l.branches branches)
      (hotherwise : Option.Rel (fun body r => resultOf body = .ok r) l.otherwise otherwise) :
      LayoutReads l raw (.switch raw subject branches otherwise)

section

variable {cs : List Char}

/-- The parser of what stands in a switch. -/
abbrev inner (cs : List Char) : ShorterParser cs := fun sub _ => readTrimmed sub

theorem readBranch_of_sides {body condition result : List Char} (h : body.length < cs.length)
    (hsides : branchSides body = some (condition, result)) :
    readBranch cs (inner cs) body h = (do
      let e ← Expr.parse (trim condition)
      let r ← resultOf result
      return .mk e r) := by
  unfold readBranch
  split
  · rename_i hnone
    cases hsides.symm.trans hnone
  · rename_i hsome
    obtain ⟨rfl, rfl⟩ := Prod.mk.inj (Option.some.inj (hsides.symm.trans hsome))
    rfl

theorem readBranch_ok_iff {body : List Char} (h : body.length < cs.length) {b : Branch} :
    readBranch cs (inner cs) body h = .ok b ↔ BranchReads body b := by
  constructor
  · intro hread
    rcases hsides : branchSides body with _ | ⟨condition, result⟩
    · unfold readBranch at hread
      split at hread
      · cases hread
      · rename_i hsome
        cases hsides.symm.trans hsome
    · rw [readBranch_of_sides h hsides] at hread
      obtain ⟨e, hcondition, hread⟩ := Except.bind_eq_ok hread
      obtain ⟨r, hresult, hread⟩ := Except.bind_eq_ok hread
      cases hread
      exact .of_sides hsides hcondition hresult
  · rintro ⟨hfirst, hcondition, hresult⟩
    rw [readBranch_of_sides h (branchSides_iff.2 ⟨rfl, hfirst⟩), hcondition, hresult]
    rfl

theorem readParts_of_error {named : Bool} {body : List Char} {rest : List Switch.Part} {f : Failure}
    (hbranch : ∀ h, readBranch cs (inner cs) body h = .error f)
    (h : ∀ p ∈ Switch.Part.branch named body :: rest, p.body.length < cs.length) :
    readParts cs (inner cs) (.branch named body :: rest) h = .error f := by
  have hlength : body.length < cs.length := h (.branch named body) List.mem_cons_self
  change (readBranch cs (inner cs) body hlength >>= _) = _
  rw [hbranch]
  rfl

/-- Parts that begin with branches are read if each of these is and the rest of them are. -/
theorem readParts_branches {branches : List (Bool × List Char)} {tail : List Switch.Part}
    (h : ∀ p ∈ Switch.branchParts branches ++ tail, p.body.length < cs.length)
    {read : List Branch} {otherwise : Option Consequence} :
    readParts cs (inner cs) (Switch.branchParts branches ++ tail) h = .ok (read, otherwise) ↔
      ∃ bs more, read = bs ++ more ∧
        List.Forall₂ (fun branch b => BranchReads branch.2 b) branches bs ∧
        readParts cs (inner cs) tail (fun p hp => h p (List.mem_append_right _ hp)) =
          .ok (more, otherwise) := by
  induction branches generalizing read with
  | nil =>
      constructor
      · exact fun hread => ⟨[], read, rfl, .nil, hread⟩
      · rintro ⟨bs, more, rfl, hbs, hread⟩
        cases hbs
        exact hread
  | cons branch branches ih =>
      obtain ⟨named, body⟩ := branch
      have hbody : body.length < cs.length := h (.branch named body) (by simp [Switch.branchParts])
      have hrest : ∀ p ∈ Switch.branchParts branches ++ tail, p.body.length < cs.length :=
        fun p hp => h p (List.mem_cons_of_mem _ hp)
      have hstep :
          readParts cs (inner cs) (Switch.branchParts ((named, body) :: branches) ++ tail) h = (do
            let b ← readBranch cs (inner cs) body hbody
            let read ← readParts cs (inner cs) (Switch.branchParts branches ++ tail) hrest
            return (b :: read.1, read.2)) := rfl
      rw [hstep]
      constructor
      · intro hread
        obtain ⟨b, hb, hread⟩ := Except.bind_eq_ok hread
        obtain ⟨⟨bs, o⟩, hbs, hread⟩ := Except.bind_eq_ok hread
        cases hread
        obtain ⟨bs, more, rfl, hall, htail⟩ := (ih hrest).1 hbs
        exact ⟨b :: bs, more, rfl, .cons ((readBranch_ok_iff hbody).1 hb) hall, htail⟩
      · rintro ⟨bs, more, rfl, hall, htail⟩
        cases hall with
        | cons hb hall =>
            rw [(readBranch_ok_iff hbody).2 hb, (ih hrest).2 ⟨_, more, rfl, hall, htail⟩]
            rfl

theorem readParts_else {body : List Char}
    (h : ∀ p ∈ [Switch.Part.otherwise body], p.body.length < cs.length)
    {read : List Branch} {otherwise : Option Consequence} :
    readParts cs (inner cs) [.otherwise body] h = .ok (read, otherwise) ↔
      read = [] ∧ ∃ r, otherwise = some r ∧ resultOf body = .ok r := by
  have hstep : readParts cs (inner cs) [.otherwise body] h =
      (do
        let r ← resultOf body
        return ([], some r)) := rfl
  rw [hstep]
  constructor
  · intro hread
    obtain ⟨r, hr, hread⟩ := Except.bind_eq_ok hread
    cases hread
    exact ⟨rfl, r, rfl, hr⟩
  · rintro ⟨rfl, r, rfl, hr⟩
    rw [hr]
    rfl

/-- What the subject in front of the mark gives. -/
def subjectOf (raw before : List Char) : Except Failure (Option Directive) :=
  match subjectText raw before with
  | .error e => .error e
  | .ok none => .ok none
  | .ok (some subject) => (readTrimmed subject).map some

theorem subjectOf_of_text {raw before subject : List Char}
    (h : subjectText raw before = .ok (some subject)) :
    subjectOf raw before = (readTrimmed subject).map some := by
  rw [subjectOf, h]

theorem readSwitch_eq (form : Switch.Form)
    (h : form.before.length < cs.length ∧ ∀ p ∈ form.parts, p.body.length < cs.length) :
    readSwitch cs (inner cs) form h = (do
      let subject ← subjectOf cs form.before
      let (branches, otherwise) ← readParts cs (inner cs) form.parts h.2
      return .switch (String.ofList cs) subject branches otherwise) := by
  unfold readSwitch
  split
  · rename_i hsubject
    rw [subjectOf, hsubject]
    rfl
  · rename_i hsubject
    rw [subjectOf, hsubject]
    rfl
  · rename_i subject hsubject
    have hinner : ∀ h, inner cs subject h = readTrimmed subject := fun _ => rfl
    rw [subjectOf_of_text hsubject, hinner]
    cases readTrimmed subject <;> rfl

theorem readTrimmed_of_form {form : Switch.Form} (h : Switch.form? cs = some form) :
    readTrimmed cs = readSwitch cs (inner cs) form (Switch.length_form h) := by
  have hne : cs.isEmpty = false := by
    cases cs with
    | nil => cases h
    | cons c cs => rfl
  rw [readTrimmed, hne, if_neg Bool.false_ne_true]
  split
  · rename_i form' hform
    obtain rfl := Option.some.inj (h.symm.trans hform)
    rfl
  · rename_i hform
    cases h.symm.trans hform

theorem readTrimmed_nil : readTrimmed [] = .error (.parse .emptyDirective "" none) := by
  rw [readTrimmed]
  rfl

theorem subjectOf_dot (raw text : List Char) :
    subjectOf raw (text ++ ['.']) =
      if (trim text).isEmpty then fail raw .emptySubject else (parse text).map some := by
  have hne : (text ++ ['.']).isEmpty = false := by cases text <;> rfl
  have htext : subjectText raw (text ++ ['.']) =
      if (trim text).isEmpty then fail raw .emptySubject else .ok (some (trim text)) := by
    rw [subjectText, hne, if_neg Bool.false_ne_true, if_neg (not_not.2 List.getLast?_concat),
      List.dropLast_concat]
  split
  · rename_i hempty
    rw [subjectOf, htext, if_pos hempty]
    rfl
  · rename_i hempty
    exact subjectOf_of_text (htext.trans (if_neg hempty))

theorem subjectOf_ok_iff {raw before : List Char} {subject : Option Directive} :
    subjectOf raw before = .ok subject ↔
      ∃ text, before = Switch.subjectMark text ∧
        Option.Rel (fun text d => parse text = .ok d) text subject := by
  constructor
  · intro h
    rcases List.eq_nil_or_concat' before with rfl | ⟨text, c, rfl⟩
    · cases h
      exact ⟨none, rfl, .none⟩
    by_cases hdot : c = '.'
    · subst hdot
      rw [subjectOf_dot] at h
      split at h
      · cases h
      · obtain ⟨d, hd, rfl⟩ := Except.map_eq_ok h
        exact ⟨some text, rfl, .some hd⟩
    · have hne : (text ++ [c]).isEmpty = false := by cases text <;> rfl
      rw [subjectOf, subjectText, hne, if_neg Bool.false_ne_true,
        if_pos (by simpa using hdot)] at h
      cases h
  · rintro ⟨text, rfl, hsubject⟩
    cases hsubject with
    | none => rfl
    | some hd =>
        rename_i text d
        rw [Switch.subjectMark, subjectOf_dot]
        split
        · rename_i hempty
          rw [parse, List.isEmpty_iff.1 hempty, readTrimmed_nil] at hd
          cases hd
        · rw [hd]
          rfl

theorem readTrimmed_of_layout {l : Switch.Layout} {d : Directive}
    (h : LayoutReads l (String.ofList l.text) d) : readTrimmed l.text = .ok d := by
  have hform : Switch.form? l.text =
      some ⟨l.before,
        Switch.branchParts l.branches ++ (l.otherwise.map Switch.Part.otherwise).toList⟩ := by
    rw [Switch.Layout.text, Switch.form_of_opening, Switch.partsOf_else l.otherwise l.balanced_else]
  cases h with
  | parts hsubject hbranches hotherwise =>
      rename_i subject branches otherwise
      rw [readTrimmed_of_form hform, readSwitch_eq,
        subjectOf_ok_iff.2 ⟨l.subject, l.before_eq, hsubject⟩]
      have htail : ∀ h, readParts l.text (inner l.text)
          (l.otherwise.map Switch.Part.otherwise).toList h = .ok ([], otherwise) := by
        intro h
        generalize l.otherwise = body at *
        cases hotherwise with
        | none => rfl
        | some hr => exact (readParts_else h).2 ⟨rfl, _, rfl, hr⟩
      have hparts := (readParts_branches (Switch.length_form hform).2).2
        ⟨branches, [], rfl, hbranches, htail _⟩
      change (readParts l.text _ (_ ++ _) _ >>= _) = _
      rw [hparts, List.append_nil]
      rfl

/-- What is read as a switch has a layout. -/
theorem exists_layout {form : Switch.Form} (hform : Switch.form? cs = some form) {d : Directive}
    (h : readTrimmed cs = .ok d) :
    ∃ l : Switch.Layout, cs = l.text ∧ LayoutReads l (String.ofList cs) d := by
  rw [readTrimmed_of_form hform, readSwitch_eq] at h
  obtain ⟨subject, hsubject, h⟩ := Except.bind_eq_ok h
  obtain ⟨⟨branches, otherwise⟩, hparts, h⟩ := Except.bind_eq_ok h
  cases h
  obtain ⟨text, hbefore, hgives⟩ := subjectOf_ok_iff.1 hsubject
  obtain ⟨-, hopening⟩ := Switch.opening_of_form hform
  have hlength := (Switch.length_form hform).2
  obtain ⟨before, parts⟩ := form
  change readParts cs (inner cs) parts hlength = _ at hparts
  dsimp only at *
  rcases hopening with ⟨o, rest, tail, rfl, hcs, rfl, hending⟩ | ⟨cause, rfl⟩
  · obtain ⟨bs, more, rfl, hbs, htail⟩ := (readParts_branches hlength).1 hparts
    cases hending with
    | done =>
        cases htail
        refine ⟨⟨o, text, none, hbefore, fun _ h => (nomatch h)⟩, hcs, ?_⟩
        rw [List.append_nil]
        exact .parts hgives hbs .none
    | @otherwise body hbody =>
        obtain ⟨rfl, r, rfl, hr⟩ := (readParts_else _).1 htail
        refine ⟨⟨o, text, some body, hbefore, ?_⟩, hcs, ?_⟩
        · rintro _ ⟨⟩
          exact hbody
        · rw [List.append_nil]
          exact .parts hgives hbs (.some hr)
    | behind hbody hne =>
        obtain ⟨r, -, htail⟩ := Except.bind_eq_ok htail
        obtain ⟨p, hp, -⟩ := Except.bind_eq_ok htail
        cases hp
    | broken => cases htail
  · cases hparts

end

/-! ## Why a text is not read -/

/-- What a directive is read from where no switch is left: an expression or an action. -/
inductive Leaf where
  | expression (cs : List Char)
  | action (cs : List Char)

/-- A leaf stands in a text without surrounding blanks. In a switch that is the subject, in the
branches that are complete, in their conditions and results, and in an else behind them. -/
inductive Holds : List Char → Leaf → Prop where
  | math {cs : List Char} (hkind : kindOfTrimmed cs = .math) :
      Holds cs (.expression (trim (cs.drop 5)))
  | action {cs : List Char} (hplain : holds Switch.startMark cs = false)
      (hkind : kindOfTrimmed cs ≠ .math) : Holds cs (.action cs)
  | subject {subject rest : List Char} {leaf : Leaf}
      (hfirst : holds Switch.startMark (subject ++ ['.']) = false) (h : Holds (trim subject) leaf) :
      Holds (subject ++ '.' :: (Switch.startMark ++ rest)) leaf
  | condition {o : Switch.Opening} {rest condition result : List Char} {named : Bool}
      (hbranch : (named, condition ++ ':' :: result) ∈ o.branches)
      (hfirst : Unsplit ':' 0 condition) : Holds (o.text ++ rest) (.expression (trim condition))
  | result {o : Switch.Opening} {rest condition result : List Char} {named : Bool} {leaf : Leaf}
      (hbranch : (named, condition ++ ':' :: result) ∈ o.branches)
      (hfirst : Unsplit ':' 0 condition) (hquotes : inQuotes result = false)
      (h : Holds (trim result) leaf) : Holds (o.text ++ rest) leaf
  | otherwise {o : Switch.Opening} {body rest : List Char} {leaf : Leaf} (hbody : Balanced body)
      (hquotes : inQuotes body = false) (h : Holds (trim body) leaf) :
      Holds (o.text ++ (Switch.elseText (some body) ++ rest)) leaf

/-- Reading a leaf can break down: a number of the expression has no value, or a numeral of the
action has too many digits. -/
def Leaf.Breaks : Leaf → Prop
  | .expression cs => ∃ ts, Token.scan cs = .ok ts ∧
      ∃ t ∈ ts, t.kind = .number ∧ Number.readFloat t.value = none
  | .action cs => Overlong cs

/-- A failure for which a directive is refused: a parse error, or a breakdown over some leaf. -/
def RefusedFor (leaves : Leaf → Prop) (f : Failure) : Prop :=
  (∃ e, f = .error (.parse e)) ∨ f.Breaks ∧ ∃ leaf, leaves leaf ∧ leaf.Breaks

section

variable {leaves leaves' : Leaf → Prop} {cs : List Char}

theorem RefusedFor.mono (h : ∀ leaf, leaves leaf → leaves' leaf) {f : Failure}
    (hf : RefusedFor leaves f) : RefusedFor leaves' f := by
  rcases hf with hf | ⟨hbreaks, leaf, hleaf, hf⟩
  · exact .inl hf
  · exact .inr ⟨hbreaks, leaf, h leaf hleaf, hf⟩

theorem refusedFor_fail {α : Type} {raw : List Char} {cause : ParseCause} :
    FailsOnly (RefusedFor leaves) (fail raw cause : Except Failure α) := .error (.inl ⟨_, rfl⟩)

theorem refusedFor_expression (h : leaves (.expression cs)) :
    FailsOnly (RefusedFor leaves) (Expr.parse cs) := by
  have hends := Expr.ends_parse cs
  unfold Expr.parse at hends ⊢
  split
  · exact .error (.inl ⟨_, rfl⟩)
  · rename_i ts hscan
    obtain ⟨⟨last, hlast, hts⟩, -⟩ := Token.exists_sentence hscan
    rw [hscan] at hends
    refine ⟨fun f hf => ?_⟩
    have hreading := hends.failure f hf
    rw [hts] at hf
    rcases Expr.ofTokens_cases (fun _ => Token.kind_of_mem_sentence) hlast (String.ofList cs) with
      ⟨e, d, he, -⟩ | ⟨f', hf', hrefused⟩
    · cases he.symm.trans hf
    · obtain rfl := Except.error.inj (hf'.symm.trans hf)
      rcases hrefused with ⟨cause, position, rfl⟩ | ⟨t, ht, hnumber, hvalue⟩
      · exact .inl ⟨_, rfl⟩
      · cases f' with
        | error e =>
            cases e with
            | parse e => exact .inl ⟨e, rfl⟩
            | _ => exact absurd hreading id
        | fault fault =>
            exact .inr ⟨⟨fault, rfl⟩, _, h, ts, hscan, t, hts ▸ ht, hnumber, hvalue⟩
        | outOfFuel => exact absurd hreading id

theorem refusedFor_readAction (h : holds Switch.startMark cs = false) :
    FailsOnly (RefusedFor (Holds cs)) (readAction (kindOfTrimmed cs) cs) := by
  by_cases hmath : kindOfTrimmed cs = .math
  · rw [hmath]
    exact .map (refusedFor_expression (.math hmath))
  · refine FailsOnly.mono (refuses_readAction hmath cs) fun f hf => ?_
    rcases hf with hf | ⟨rfl, hlong⟩
    · exact .inl hf
    · exact .inr ⟨⟨_, rfl⟩, _, .action h hmath, hlong⟩

theorem refusedFor_resultOf {body : List Char}
    (h : inQuotes body = false → FailsOnly (RefusedFor leaves) (parse body)) :
    FailsOnly (RefusedFor leaves) (resultOf body) := by
  unfold resultOf
  split
  · exact .ok
  · split
    · exact .ok
    · rename_i hquotes
      exact .map (h (Bool.eq_false_iff.2 hquotes))

theorem refusedFor_readBranch {body : List Char} (hlength : body.length < cs.length)
    (hcondition : ∀ condition result, body = condition ++ ':' :: result →
      Unsplit ':' 0 condition → leaves (.expression (trim condition)))
    (hresult : ∀ condition result, body = condition ++ ':' :: result →
      Unsplit ':' 0 condition → FailsOnly (RefusedFor leaves) (resultOf result)) :
    FailsOnly (RefusedFor leaves) (readBranch cs (inner cs) body hlength) := by
  unfold readBranch
  split
  · exact refusedFor_fail
  · rename_i condition result hsides
    obtain ⟨hbody, hfirst⟩ := branchSides_iff.1 hsides
    apply FailsOnly.bind (refusedFor_expression (hcondition condition result hbody hfirst))
    intro e
    exact .bind (hresult condition result hbody hfirst) fun _ => .ok

theorem refusedFor_readParts :
    ∀ (parts : List Switch.Part) (h : ∀ p ∈ parts, p.body.length < cs.length),
      (∀ named body hlength, Switch.Part.branch named body ∈ parts →
        FailsOnly (RefusedFor leaves) (readBranch cs (inner cs) body hlength)) →
      (∀ body, Switch.Part.otherwise body ∈ parts →
        FailsOnly (RefusedFor leaves) (resultOf body)) →
      FailsOnly (RefusedFor leaves) (readParts cs (inner cs) parts h)
  | [], _, _, _ => .ok
  | .branch named body :: rest, h, hbranches, helse => by
      apply FailsOnly.bind (hbranches named body _ List.mem_cons_self)
      intro b
      refine .bind (refusedFor_readParts rest _ ?_ ?_) fun _ => .ok
      · exact fun named body hlength hp => hbranches named body hlength (List.mem_cons_of_mem _ hp)
      · exact fun body hp => helse body (List.mem_cons_of_mem _ hp)
  | .otherwise body :: rest, h, hbranches, helse => by
      apply FailsOnly.bind (helse body List.mem_cons_self)
      intro r
      refine .bind (refusedFor_readParts rest _ ?_ ?_) fun _ => .ok
      · exact fun named body hlength hp => hbranches named body hlength (List.mem_cons_of_mem _ hp)
      · exact fun body hp => helse body (List.mem_cons_of_mem _ hp)
  | .broken _ :: _, _, _, _ => refusedFor_fail

theorem refusedFor_subjectOf {raw before : List Char}
    (h : ∀ text, before = text ++ ['.'] → FailsOnly (RefusedFor leaves) (parse text)) :
    FailsOnly (RefusedFor leaves) (subjectOf raw before) := by
  rcases List.eq_nil_or_concat' before with rfl | ⟨text, c, rfl⟩
  · exact .ok
  by_cases hdot : c = '.'
  · subst hdot
    rw [subjectOf_dot]
    exact .ite refusedFor_fail (.map (h text rfl))
  · have hne : (text ++ [c]).isEmpty = false := by cases text <;> rfl
    rw [subjectOf, subjectText, hne, if_neg Bool.false_ne_true, if_pos (by simpa using hdot)]
    exact refusedFor_fail

/-- A text is refused by a parse error, or over a leaf of it. -/
theorem refusedFor_readTrimmed (cs : List Char) :
    FailsOnly (RefusedFor (Holds cs)) (readTrimmed cs) := by
  induction hn : cs.length using Nat.strong_induction_on generalizing cs with
  | h n ih =>
  subst hn
  have hinner : ∀ text wanted, text.length < cs.length →
      (∀ leaf, Holds (trim text) leaf → wanted leaf) → FailsOnly (RefusedFor wanted) (parse text) :=
    fun text wanted hlength hmono =>
      (ih _ ((length_trim_le text).trans_lt hlength) (trim text) rfl).mono fun _ =>
        RefusedFor.mono hmono
  rcases hform : Switch.form? cs with _ | form
  · have hplain := Switch.form?_eq_none.1 hform
    rw [readTrimmed]
    split
    · exact .error (.inl ⟨_, rfl⟩)
    · split
      · rename_i hsome
        cases hform.symm.trans hsome
      · exact .map (refusedFor_readAction hplain)
  obtain ⟨⟨behind, hcs, hfirst⟩, -⟩ := Switch.opening_of_form hform
  have hlength := Switch.length_form hform
  rw [readTrimmed_of_form hform, readSwitch_eq]
  apply FailsOnly.bind
  · refine refusedFor_subjectOf fun text hbefore => ?_
    rw [hbefore] at hcs hfirst
    refine hinner text _ ?_ fun leaf hleaf => ?_
    · have := hlength.1
      rw [hbefore, List.length_append] at this
      omega
    · rw [hcs, List.append_assoc]
      exact .subject hfirst hleaf
  intro subject
  refine .bind (refusedFor_readParts _ _ ?_ ?_) fun _ => .ok
  · intro named body hbody hpart
    obtain ⟨o, rest, rfl, hbranch⟩ := Switch.opening_of_branch_mem hform hpart
    refine refusedFor_readBranch hbody ?_ ?_
    · rintro condition result rfl hcondition
      exact .condition hbranch hcondition
    · rintro condition result rfl hcondition
      refine refusedFor_resultOf fun hquotes => hinner result _ ?_ fun leaf hleaf => ?_
      · rw [List.length_append, List.length_cons] at hbody
        omega
      · exact .result hbranch hcondition hquotes hleaf
  · intro body hpart
    have hbody := hlength.2 _ hpart
    obtain ⟨o, rest, hbalanced, rfl⟩ := Switch.opening_of_otherwise_mem hform hpart
    refine refusedFor_resultOf fun hquotes => hinner body _ hbody fun leaf hleaf => ?_
    exact .otherwise hbalanced hquotes hleaf

end

/-! ## Numerals that are too long -/

section

variable {digits : List Char} (hdigits : ∀ c ∈ digits, isDecimal c = true)
  (hlong : Number.mostDigits < digits.length)
include hdigits hlong

theorem dice_overlong : DiceFormula.parse ('d' :: digits) = .error (.fault .invalidValue) := by
  have hne : digits ≠ [] := by
    rintro rfl
    exact absurd hlong (Nat.not_lt_zero _)
  have hletter : trimStart ('d' :: digits) = 'd' :: digits := List.dropWhile_cons_of_neg (by decide)
  have hcount : DiceFormula.decimalsOf ('d' :: digits) = ([], 'd' :: digits) := by
    have hd : ¬ isDecimal 'd' = true := by decide +kernel
    exact Prod.ext (List.takeWhile_cons_of_neg (l := digits) hd) (List.dropWhile_cons_of_neg hd)
  have hblank : trimStart digits = digits := by
    obtain ⟨c, cs, rfl⟩ := List.exists_cons_of_ne_nil hne
    have hc := isBlank_of_isWord (isWord_of_isDecimal (hdigits c List.mem_cons_self))
    exact List.dropWhile_cons_of_neg (Bool.eq_false_iff.1 hc)
  have hsides : DiceFormula.decimalsOf digits = (digits, []) :=
    Prod.ext (List.takeWhile_eq_self_iff.2 hdigits) (List.dropWhile_eq_nil_iff.2 hdigits)
  have hform : DiceFormula.form? ('d' :: digits) = some ⟨[], digits, false, none, none⟩ := by
    unfold DiceFormula.form?
    simp only [hletter, hcount, hblank, hsides, List.isEmpty_eq_false_iff.2 hne]
    rfl
  have hread : Number.readDigits digits = .error (.fault .invalidValue) := if_pos hlong
  unfold DiceFormula.parse
  simp only [hform, hread]
  rfl

theorem trim_overlong : trim ("dice:d".toList ++ digits) = "dice:d".toList ++ digits := by
  have hne : digits ≠ [] := by
    rintro rfl
    exact absurd hlong (Nat.not_lt_zero _)
  refine trim_of_ends (show isBlank 'd' = false by decide) ?_
  rw [List.getLast?_append_of_ne_nil _ hne, List.getLast?_eq_some_getLast hne]
  exact isBlank_of_isWord (isWord_of_isDecimal (hdigits _ (List.getLast_mem hne)))

/-- A die with too many digits in its number of sides cannot be read. -/
theorem parse_overlong : parse ("dice:d".toList ++ digits) = .error (.fault .invalidValue) := by
  have hne : digits ≠ [] := by
    rintro rfl
    exact absurd hlong (Nat.not_lt_zero _)
  have hlast : digits.getLast?.any isBlank = false := by
    rw [List.getLast?_eq_some_getLast hne]
    exact isBlank_of_isWord (isWord_of_isDecimal (hdigits _ (List.getLast_mem hne)))
  have hdie : trim ('d' :: digits) = 'd' :: digits :=
    trim_of_ends (show isBlank 'd' = false by decide) (by rwa [List.getLast?_cons_of_ne_nil hne])
  have hbracket : '[' ∉ "dice:d".toList ++ digits := by
    rw [List.mem_append, not_or]
    refine ⟨by decide, fun hmem => ?_⟩
    exact absurd (isWord_of_isDecimal (hdigits _ hmem)) (by decide +kernel)
  have hkind : kindOfTrimmed ("dice:d".toList ++ digits) = .dice := by
    have hplain : holds "switch[".toList ("dice:d".toList ++ digits) = false := by
      rw [holds, cutAt_eq_none (c := '[') (by decide) hbracket]
      rfl
    rw [kindOfTrimmed, if_neg (by rw [hplain]; exact Bool.false_ne_true)]
    rfl
  have hdice : readDice ("dice:d".toList ++ digits) = .error (.fault .invalidValue) := by
    have hdrop : ("dice:d".toList ++ digits).drop 5 = 'd' :: digits := rfl
    rw [readDice, hdrop, hdie, dice_overlong hdigits hlong]
    rfl
  rw [parse_of_trimmed (by simp) (trim_overlong hdigits hlong) hbracket, hkind, readAction, hdice]
  rfl

end

/-- A switch fails as the result of its only branch does if the condition can be read. -/
theorem parse_of_broken_result {condition result : List Char} {e : Expr} {f : Failure}
    (hfirst : Unsplit ':' 0 condition) (hbalanced : Balanced (condition ++ ':' :: result))
    (hcondition : Expr.parse (trim condition) = .ok e) (hresult : resultOf result = .error f) :
    parse ("switch[".toList ++ (condition ++ ':' :: result ++ [']'])) = .error f := by
  let o : Switch.Opening :=
    ⟨[], condition ++ ':' :: result, [], rfl, hbalanced, fun _ h => (nomatch h)⟩
  have hends : ∀ cs, trim ('s' :: (cs ++ [']'])) = 's' :: (cs ++ [']']) := by
    intro cs
    refine trim_of_ends (show isBlank 's' = false by decide) ?_
    rw [← List.cons_append, List.getLast?_concat]
    rfl
  have htext : "switch[".toList ++ (condition ++ ':' :: result ++ [']']) = o.text := by
    simp [o, Switch.Opening.text, Switch.Opening.branches, Switch.branchesText, Switch.branchText]
  have htrim : trim ("switch[".toList ++ (condition ++ ':' :: result ++ [']'])) = o.text := by
    rw [← htext, ← List.append_assoc]
    exact hends ("witch[".toList ++ (condition ++ ':' :: result))
  have hform := Switch.form_of_opening o []
  rw [List.append_nil] at hform
  have hbranch : ∀ h,
      readBranch o.text (inner o.text) (condition ++ ':' :: result) h = .error f := by
    intro h
    rw [readBranch_of_sides h (branchSides_iff.2 ⟨rfl, hfirst⟩), hcondition, hresult]
    rfl
  have hparts : ∀ h, readParts o.text (inner o.text)
      (Switch.branchParts o.branches ++ Switch.partsOf []) h = .error f :=
    fun h => readParts_of_error hbranch h
  rw [parse, htrim, readTrimmed_of_form hform, readSwitch_eq]
  change (readParts o.text (inner o.text) (Switch.branchParts o.branches ++ Switch.partsOf []) _ >>=
    _) = _
  rw [hparts]
  rfl

/-! ## Every text with a switch -/

/-- A text in which a switch begins is read as a directive exactly if it is laid out as a switch of
which the directive has the parts: a subject if there is one, all branches in order and an else if
there is one, each body with paired brackets, each branch cut at its first colon outside quotes and
brackets. Otherwise it is refused by a parse error, unless reading breaks down over a number of an
expression that has no value or over a numeral of an action that has too many digits. -/
theorem parse_iff_layout {cs : List Char} (h : holds "switch[".toList (trim cs) = true) :
    (∀ d, parse cs = .ok d ↔
      ∃ l : Switch.Layout, trim cs = l.text ∧ LayoutReads l (String.ofList (trim cs)) d) ∧
    (∀ f, parse cs = .error f →
      (∃ e, f = .error (.parse e)) ∨
        f.Breaks ∧ ∃ leaf, Holds (trim cs) leaf ∧ leaf.Breaks) := by
  obtain ⟨form, hform⟩ : ∃ form, Switch.form? (trim cs) = some form := by
    rw [← Option.ne_none_iff_exists', ne_eq, Switch.form?_eq_none]
    exact ne_true_of_eq_false.mt (not_not.2 h)
  refine ⟨fun d => ⟨exists_layout hform, ?_⟩, (refusedFor_readTrimmed (trim cs)).failure⟩
  rintro ⟨l, htext, hreads⟩
  rw [parse, htext]
  exact readTrimmed_of_layout (htext ▸ hreads)

/-- Brackets and colons between quotes, a switch inside another one, a result that is left out. -/
theorem parse_iff_layout_of_nested :
    let text := "$x.switch[$==\"]:\":\"a:]\"].switch[\"b\":switch[\"c\":]].else['[']"
    let subject : Directive := .act "$x" (.variable "x" none)
    let nested : Directive := .switch "switch[\"c\":]" none [.mk (.text "c" 0) (.literal "")] none
    holds "switch[".toList (trim text.toList) = true ∧
    parse text.toList = .ok (.switch text (some subject)
      [.mk (.binary .equal (.variable "" 0) (.text "]:" 3)) (.literal "a:]"),
        .mk (.text "b" 0) (.directive nested)]
      (some (.literal "["))) := by
  intro text subject nested
  have hbalanced : ∀ body, cutBracket (body ++ [']']) = some (body, []) → Balanced body :=
    fun _ h => (cutBracket_eq_some_iff.1 h).1
  have hsubject : parse "$x".toList = .ok subject :=
    parse_variable (by decide +kernel : isName ['x'] = true)
  have hempty : BranchReads "\"c\":".toList (.mk (.text "c" 0) (.literal "")) :=
    .of_sides (show _ = some ("\"c\"".toList, []) by decide +kernel) (by cbv) rfl
  have hnested : parse "switch[\"c\":]".toList = .ok nested := by
    let l : Switch.Layout := ⟨⟨[], "\"c\":".toList, [], by decide, hbalanced _ (by decide +kernel),
      fun _ h => absurd h List.not_mem_nil⟩, none, none, rfl, fun _ h => absurd h (by simp)⟩
    have htext : trim "switch[\"c\":]".toList = l.text :=
      show _ = [] ++ ("switch".toList ++ Switch.branchesText [(false, "\"c\":".toList)]) ++
        Switch.elseText none by decide +kernel
    have hraw : String.ofList (trim "switch[\"c\":]".toList) = "switch[\"c\":]" := by decide +kernel
    refine ((parse_iff_layout (by decide +kernel)).1 _).2 ⟨l, htext, ?_⟩
    rw [hraw]
    exact .parts .none (.cons hempty .nil) .none
  have hfirst : BranchReads "$==\"]:\":\"a:]\"".toList
      (.mk (.binary .equal (.variable "" 0) (.text "]:" 3)) (.literal "a:]")) :=
    .of_sides (show _ = some ("$==\"]:\"".toList, "\"a:]\"".toList) by decide +kernel) (by cbv)
      (resultOf_quoted (by decide +kernel) (by decide +kernel) (by decide +kernel))
  have hresult : resultOf "switch[\"c\":]".toList = .ok (.directive nested) := by
    rw [resultOf_plain (show _ = 's' :: "witch[\"c\":]".toList by decide +kernel) (by decide),
      hnested]
    rfl
  have hsecond : BranchReads "\"b\":switch[\"c\":]".toList
      (.mk (.text "b" 0) (.directive nested)) :=
    .of_sides (show _ = some ("\"b\"".toList, "switch[\"c\":]".toList) by decide +kernel) (by cbv)
      hresult
  have helse : resultOf "'['".toList = .ok (.literal "[") :=
    resultOf_quoted (by decide +kernel) (by decide +kernel) (by decide +kernel)
  have hswitch : holds "switch[".toList (trim text.toList) = true := by decide +kernel
  let l : Switch.Layout := ⟨⟨"$x.".toList, "$==\"]:\":\"a:]\"".toList,
    [(true, "\"b\":switch[\"c\":]".toList)], by decide, hbalanced _ (by decide +kernel), by
      rintro _ (_ | ⟨_, ⟨⟩⟩)
      exact hbalanced _ (by decide +kernel)⟩, some "$x".toList, some "'['".toList, rfl, by
      rintro _ ⟨⟩
      exact hbalanced _ (by decide +kernel)⟩
  have htext : trim text.toList = l.text :=
    show _ = "$x.".toList ++ ("switch".toList ++ Switch.branchesText
        [(false, "$==\"]:\":\"a:]\"".toList), (true, "\"b\":switch[\"c\":]".toList)]) ++
      Switch.elseText (some "'['".toList) by decide +kernel
  have hraw : String.ofList (trim text.toList) = text := by decide +kernel
  refine ⟨hswitch, ((parse_iff_layout hswitch).1 _).2 ⟨l, htext, ?_⟩⟩
  rw [hraw]
  exact .parts (.some hsubject) (.cons hfirst (.cons hsecond .nil)) (.some helse)

/-- A switch whose only expression is a text, and which still breaks down over a numeral. -/
theorem switch_broken_by_numeral :
    let result := "dice:d".toList ++ List.replicate 4301 '9'
    let body := ['"', 'a', '"'] ++ ':' :: result
    branchSides body = some (['"', 'a', '"'], result) ∧
    Expr.parse (trim ['"', 'a', '"']) = .ok (.text "a" 0) ∧
    parse ("switch[".toList ++ (body ++ [']'])) = .error (.fault .invalidValue) := by
  intro result body
  have hdigits : ∀ c ∈ List.replicate 4301 '9', isDecimal c = true := by
    intro c hc
    rw [List.eq_of_mem_replicate hc]
    decide +kernel
  have hlong : Number.mostDigits < (List.replicate 4301 '9').length := by
    rw [List.length_replicate]
    decide
  have hresult : parse result = .error (.fault .invalidValue) := parse_overlong hdigits hlong
  have hplain : ∀ c ∈ ':' :: result, isSplitMark c = false := by
    intro c hc
    rcases List.mem_cons.1 hc with rfl | hc
    · decide
    rcases List.mem_append.1 hc with hc | hc
    · have hname : ("dice:d".toList.all fun c => !isSplitMark c) = true := by decide
      simpa using List.all_eq_true.1 hname c hc
    · rw [List.eq_of_mem_replicate hc]
      decide
  have hquoted : Quoted '"' ['a', '"'] := .other (by decide) (by decide) .close
  have hfirst : Unsplit ':' 0 ('"' :: (['a', '"'] ++ [])) := .quoted (by decide) hquoted .nil
  have hbody : Balanced ('"' :: (['a', '"'] ++ ':' :: result)) :=
    .quoted (by decide) hquoted (balanced_of_plain hplain)
  have hcondition : Expr.parse (trim ['"', 'a', '"']) = .ok (.text "a" 0) := by cbv
  have hresultOf : resultOf result = .error (.fault .invalidValue) := by
    rw [resultOf_plain (trim_overlong hdigits hlong) (by decide), hresult]
    rfl
  exact ⟨branchSides_iff.2 ⟨rfl, hfirst⟩, hcondition,
    parse_of_broken_result hfirst hbody hcondition hresultOf⟩

end Directive

end RandomTables
