-- SUMMARY: The parser of expressions reads what the grammar derives, and refuses all other tokens.
import RandomTables.Proofs.Expr.Grammar
import RandomTables.Proofs.Expr.Scanning

/-!
# Parsing by the grammar

What a parser reads is derived by the grammar, and it gives the tree of the derivation; what it does
not read it refuses by a parse error. The other way round, a derivation is found wherever the tokens
behind it end it. So a text is read exactly if it is derived with calls of known functions.
-/
namespace RandomTables.Expr

/-! ## Operators -/

theorem operatorAt_iff {level : Nat} {kind : TokenKind} {op : BinaryOp} :
    operatorAt level kind = some op ↔ (kind, op) ∈ joiners level := by
  constructor
  · intro h
    unfold operatorAt at h
    split at h
    all_goals first
      | cases h; decide
      | cases h
  · intro h
    have hall : ∀ n < 7, ∀ p ∈ joiners n, operatorAt n p.1 = some p.2 := by decide
    exact hall level (Nat.lt_succ_of_le (le_of_mem_joiners h)) _ h

theorem operatorAt_eq_none {level : Nat} {t : Token} {rest : List Token}
    (h : Stops level (t :: rest)) : operatorAt level t.kind = none := by
  rw [Option.eq_none_iff_forall_not_mem]
  exact fun op hop => (h t rfl).2 level (Nat.le_refl _) op (operatorAt_iff.1 hop)

theorem unaryOf_iff {kind : TokenKind} {op : UnaryOp} :
    unaryOf kind = some op ↔ (kind, op) ∈ signs := by
  constructor
  · intro h
    unfold unaryOf at h
    split at h
    all_goals first
      | cases h; decide
      | cases h
  · intro h
    have hall : ∀ p ∈ signs, unaryOf p.1 = some p.2 := by decide
    exact hall _ h

theorem unaryOf_eq_none {kind : TokenKind} (h : kind ∈ .leftParen :: leaves) :
    unaryOf kind = none := by
  have hall : ∀ kind ∈ TokenKind.leftParen :: leaves, unaryOf kind = none := by decide
  exact hall kind h

/-! ## What the parsers do -/

section

variable (source : String)

/-- What the parser of a level reads, and the tokens that it leaves. -/
def readLevel (level : Nat) (ts : List Token) : Except Failure (Expr × List Token) :=
  (parseLevel source level ts).map fun p => (p.value, p.rest)

def readChain (level : Nat) (left : Expr) (ts : List Token) : Except Failure (Expr × List Token) :=
  (parseChain source level left ts).map fun p => (p.value, p.rest)

def readAtom (t : Token) (rest : List Token) : Except Failure (Expr × List Token) :=
  (parseAtom source t rest).map fun p => (p.value, p.rest)

def readArguments (ts : List Token) : Except Failure (List Expr × List Token) :=
  (parseArguments source ts).map fun p => (p.value, p.rest)

def readMoreArguments (ts : List Token) : Except Failure (List Expr × List Token) :=
  (parseMoreArguments source ts).map fun p => (p.value, p.rest)

variable {level : Nat} {left : Expr} {t u : Token} {rest ts : List Token}

theorem readLevel_nil : readLevel source 0 [] = failAt source [] .expectedExpression := by
  rw [readLevel, parseLevel]
  rfl

theorem readLevel_signed {op : UnaryOp} (h : unaryOf t.kind = some op) :
    readLevel source 0 (t :: rest) =
      (readLevel source 0 rest).map fun r => (.unary op r.1 t.position, r.2) := by
  rw [readLevel, parseLevel]
  simp only [h]
  unfold readLevel
  rcases parseLevel source 0 rest with f | p <;> rfl

theorem readLevel_atom (h : unaryOf t.kind = none) :
    readLevel source 0 (t :: rest) = readAtom source t rest := by
  rw [readLevel, parseLevel]
  simp only [h]
  rfl

theorem readLevel_succ :
    readLevel source (level + 1) ts =
      readLevel source level ts >>= fun r => readChain source level r.1 r.2 := by
  rw [readLevel, parseLevel]
  unfold readLevel readChain
  rcases parseLevel source level ts with f | ⟨left, rest, h⟩
  · rfl
  · change Except.map _ (parseChain source level left rest >>= _) = Except.map _ _
    rcases parseChain source level left rest with f | p <;> rfl

theorem readChain_nil : readChain source level left [] = .ok (left, []) := by
  rw [readChain, parseChain]
  rfl

theorem readChain_stop (h : operatorAt (level + 1) t.kind = none) :
    readChain source level left (t :: rest) = .ok (left, t :: rest) := by
  rw [readChain, parseChain]
  split
  · rfl
  · rename_i hop
    rw [h] at hop
    cases hop

theorem readChain_more {op : BinaryOp} (h : operatorAt (level + 1) t.kind = some op) :
    readChain source level left (t :: rest) =
      readLevel source level rest >>= fun r => readChain source level (.binary op left r.1) r.2 := by
  rw [readChain, parseChain]
  split
  · rename_i hop
    rw [h] at hop
    cases hop
  · rename_i op' hop
    obtain rfl := Option.some.inj (h.symm.trans hop)
    unfold readLevel readChain
    rcases parseLevel source level rest with f | ⟨right, rest', h⟩
    · rfl
    · change Except.map _ (parseChain source level (.binary op left right) rest' >>= _) =
        Except.map _ _
      rcases parseChain source level (.binary op left right) rest' with f | p <;> rfl

theorem readAtom_number (h : t.kind = .number) :
    readAtom source t rest = (numberOf t).map fun e => (e, rest) := by
  rw [readAtom, parseAtom.eq_def]
  simp only [h]
  rcases numberOf t with f | e <;> rfl

theorem readAtom_call (h : t.kind = .identifier) (hu : u.kind = .leftParen) :
    readAtom source t (u :: rest) =
      readArguments source rest >>= fun r => (callOf source t r.1).map fun e => (e, r.2) := by
  rw [readAtom, parseAtom.eq_def]
  simp only [h, hu, if_true]
  unfold readArguments
  rcases parseArguments source rest with f | ⟨es, rest', h⟩
  · rfl
  · change Except.map _ (callOf source t es >>= _) = Except.map _ _
    rcases callOf source t es with f | e <;> rfl

/-- A leaf other than a numeral is read as its tree, and a name only if no parenthesis is opened. -/
theorem readAtom_leaf {e : Expr} (h : t.kind ∈ leaves) (hnumber : t.kind ≠ .number)
    (hnext : t.kind = .identifier → ∀ u ∈ rest.head?, u.kind ≠ .leftParen)
    (htree : leafTree t = some e) : readAtom source t rest = .ok (e, rest) := by
  rw [readAtom, parseAtom.eq_def]
  unfold leafTree at htree
  simp only [leaves, List.mem_cons, List.not_mem_nil, or_false] at h
  rcases h with h | h | h | h | h
  · exact absurd h hnumber
  · simp only [h, Option.some.injEq] at htree ⊢
    subst htree
    rfl
  · simp only [h, Option.some.injEq] at htree ⊢
    subst htree
    rfl
  · simp only [h, Option.some.injEq] at htree ⊢
    subst htree
    rfl
  · simp only [h, Option.some.injEq] at htree ⊢
    subst htree
    split
    · rfl
    · rename_i u rest'
      rw [if_neg (hnext h u rfl)]
      rfl

theorem readAtom_group (h : t.kind = .leftParen) :
    readAtom source t rest = readLevel source 6 rest >>= fun r =>
      match r.2 with
      | [] => failAt source [] .unclosedGroup
      | u :: after =>
        if u.kind = .rightParen then .ok (r.1, after)
        else failAt source (u :: after) .unclosedGroup := by
  rw [readAtom, parseAtom.eq_def]
  simp only [h]
  unfold readLevel
  rcases parseLevel source 6 rest with f | ⟨e, after, hafter⟩
  · rfl
  · cases after with
    | nil => rfl
    | cons u after =>
        change Except.map _ (if u.kind = .rightParen then _ else _) = ite _ _ _
        split <;> rfl

theorem readAtom_other (h : t.kind ∉ .leftParen :: leaves) :
    readAtom source t rest = failAt source (t :: rest) .expectedExpression := by
  rw [readAtom, parseAtom.eq_def]
  dsimp only
  split
  all_goals first
    | (rename_i hkind; rw [hkind] at h; exact absurd (by decide) h)
    | rfl

theorem readArguments_nil : readArguments source [] = failAt source [] .expectedExpression := by
  rw [readArguments, parseArguments]
  rfl

theorem readArguments_close (h : t.kind = .rightParen) :
    readArguments source (t :: rest) = .ok ([], rest) := by
  rw [readArguments, parseArguments, if_pos h]
  rfl

theorem readArguments_open (h : t.kind ≠ .rightParen) :
    readArguments source (t :: rest) = readLevel source 6 (t :: rest) >>= fun r =>
      (readMoreArguments source r.2).map fun more => (r.1 :: more.1, more.2) := by
  rw [readArguments, parseArguments, if_neg h]
  unfold readLevel readMoreArguments
  rcases parseLevel source 6 (t :: rest) with f | ⟨e, after, hafter⟩
  · rfl
  · change Except.map _ (parseMoreArguments source after >>= _) = Except.map _ (Except.map _ _)
    rcases parseMoreArguments source after with f | p <;> rfl

theorem readMoreArguments_nil :
    readMoreArguments source [] = failAt source [] .unclosedArguments := by
  rw [readMoreArguments, parseMoreArguments]
  rfl

theorem readMoreArguments_close (h : t.kind = .rightParen) :
    readMoreArguments source (t :: rest) = .ok ([], rest) := by
  rw [readMoreArguments, parseMoreArguments, if_pos h]
  rfl

theorem readMoreArguments_comma (h : t.kind = .comma) :
    readMoreArguments source (t :: rest) = readLevel source 6 rest >>= fun r =>
      (readMoreArguments source r.2).map fun more => (r.1 :: more.1, more.2) := by
  have hparen : t.kind ≠ .rightParen := by
    rw [h]
    decide
  rw [readMoreArguments, parseMoreArguments, if_neg hparen, if_pos h]
  unfold readLevel readMoreArguments
  rcases parseLevel source 6 rest with f | ⟨e, after, hafter⟩
  · rfl
  · change Except.map _ (parseMoreArguments source after >>= _) = Except.map _ (Except.map _ _)
    rcases parseMoreArguments source after with f | p <;> rfl

theorem readMoreArguments_other (hparen : t.kind ≠ .rightParen) (hcomma : t.kind ≠ .comma) :
    readMoreArguments source (t :: rest) = failAt source (t :: rest) .unclosedArguments := by
  rw [readMoreArguments, parseMoreArguments, if_neg hparen, if_neg hcomma]
  rfl

end

/-! ## Only derivations are read -/

/-- A parse error of the text, or a numeral without a value among its tokens. -/
def Refused (source : String) (ts : List Token) (f : Failure) : Prop :=
  (∃ cause position, f = .parse cause source position) ∨
    ∃ t ∈ ts, t.kind = .number ∧ Number.readFloat t.value = none

/-- What a parser gives is as stated, and it fails only if it refuses the tokens. -/
inductive Parses {α : Type} (source : String) (ts : List Token) (Derived : α → List Token → Prop) :
    Except Failure (α × List Token) → Prop where
  | read {a : α} {rest : List Token} (h : Derived a rest) : Parses source ts Derived (.ok (a, rest))
  | refused {f : Failure} (h : Refused source ts f) : Parses source ts Derived (.error f)

section

variable {source : String} {ts ts' : List Token}

theorem Refused.mono {f : Failure} (h : Refused source ts f) (hts : ∀ t ∈ ts, t ∈ ts') :
    Refused source ts' f := by
  rcases h with h | ⟨t, ht, hnumber⟩
  · exact .inl h
  · exact .inr ⟨t, hts t ht, hnumber⟩

theorem Parses.result {α : Type} {Derived : α → List Token → Prop}
    {x : Except Failure (α × List Token)} (h : Parses source ts Derived x) :
    (∃ a rest, x = .ok (a, rest) ∧ Derived a rest) ∨ ∃ f, x = .error f ∧ Refused source ts f := by
  cases h with
  | read h => exact .inl ⟨_, _, rfl, h⟩
  | refused h => exact .inr ⟨_, rfl, h⟩

namespace Parses

variable {α β : Type} {Derived : α → List Token → Prop} {Derived' : β → List Token → Prop}
  {x : Except Failure (α × List Token)}

theorem failAt {cause : ParseCause} {given : List Token} :
    Parses source ts Derived (failAt source given cause) := .refused (.inl ⟨cause, _, rfl⟩)

/-- One parser after another, of which the second reads among the tokens of the first. -/
theorem bind (hx : Parses source ts Derived x) (hts : ∀ t ∈ ts, t ∈ ts')
    {g : α × List Token → Except Failure (β × List Token)}
    (hg : ∀ a rest, Derived a rest → Parses source ts' Derived' (g (a, rest))) :
    Parses source ts' Derived' (x >>= g) := by
  cases hx with
  | read h => exact hg _ _ h
  | refused h => exact .refused (h.mono hts)

theorem map (hx : Parses source ts Derived x) (hts : ∀ t ∈ ts, t ∈ ts') {g : α → β}
    (hg : ∀ a rest, Derived a rest → Derived' (g a) rest) :
    Parses source ts' Derived' (x.map fun r => (g r.1, r.2)) := by
  cases hx with
  | read h => exact .read (hg _ _ h)
  | refused h => exact .refused (h.mono hts)

theorem mono (hx : Parses source ts Derived x) (hts : ∀ t ∈ ts, t ∈ ts')
    {Derived' : α → List Token → Prop} (hg : ∀ a rest, Derived a rest → Derived' a rest) :
    Parses source ts' Derived' x := by
  cases hx with
  | read h => exact .read (hg _ _ h)
  | refused h => exact .refused (h.mono hts)

end Parses

end

/-- A phrase of a level in front of the tokens that are left, with its tree. -/
def Derives (level : Nat) (ts : List Token) (e : Expr) (rest : List Token) : Prop :=
  ∃ d : Phrase level, ts = d.tokens ++ rest ∧ d.Callable ∧ d.tree = some e

/-- Phrases joined to what stands before them. -/
def DerivesJoined (level : Nat) (left : Expr) (ts : List Token) (e : Expr) (rest : List Token) :
    Prop :=
  ∃ d : Joined level, ts = d.tokens ++ rest ∧ d.Callable ∧ d.tree left = some e

/-- The arguments of a call with the parenthesis that closes it. -/
def DerivesArguments (ts : List Token) (es : List Expr) (rest : List Token) : Prop :=
  ∃ (d : Arguments) (closing : Token), closing.kind = .rightParen ∧
    ts = d.tokens ++ closing :: rest ∧ d.Callable ∧ d.trees = some es

def DerivesMoreArguments (ts : List Token) (es : List Expr) (rest : List Token) : Prop :=
  ∃ (d : MoreArguments) (closing : Token), closing.kind = .rightParen ∧
    ts = d.tokens ++ closing :: rest ∧ d.Callable ∧ d.trees = some es

section

variable {level : Nat} {t : Token} {ts rest : List Token} {e : Expr}

/-- A phrase takes at least one token. -/
theorem Derives.length_lt (h : Derives level ts e rest) : rest.length < ts.length := by
  obtain ⟨d, rfl, -, -⟩ := h
  have := List.length_pos_iff.2 d.tokens_ne_nil
  rw [List.length_append]
  omega

theorem Derives.mem_of_rest (h : Derives level ts e rest) : ∀ t ∈ rest, t ∈ ts := by
  obtain ⟨d, rfl, -, -⟩ := h
  exact fun t => List.mem_append_right _

/-- There are as many trees as arguments. -/
theorem MoreArguments.length_trees : ∀ (d : MoreArguments) {es : List Expr},
    d.trees = some es → es.length = d.count
  | .done, es, h => by
      obtain rfl : [] = es := Option.some.inj h
      rfl
  | .more _ _ argument rest, es, h => by
      simp only [trees, Option.bind_eq_some_iff, Option.map_eq_some_iff] at h
      obtain ⟨e, -, more, hmore, rfl⟩ := h
      rw [List.length_cons, rest.length_trees hmore, count]

theorem Arguments.length_trees (d : Arguments) {es : List Expr} (h : d.trees = some es) :
    es.length = d.count := by
  cases d with
  | empty =>
      obtain rfl : [] = es := Option.some.inj h
      rfl
  | listed first rest =>
      simp only [trees, Option.bind_eq_some_iff, Option.map_eq_some_iff] at h
      obtain ⟨e, -, more, hmore, rfl⟩ := h
      rw [List.length_cons, rest.length_trees hmore, count]

/-- A call of a function that is not known, or not with that many arguments, is refused. -/
theorem parses_callOf {source : String} (hname : t.kind = .identifier) {u : Token}
    (hopening : u.kind = .leftParen) {es : List Expr} (h : DerivesArguments ts es rest) :
    Parses source (t :: u :: ts) (Derives 0 (t :: u :: ts))
      ((callOf source t es).map fun e => (e, rest)) := by
  obtain ⟨d, closing, hclosing, hts, hcallable, htrees⟩ := h
  have hlength := d.length_trees htrees
  unfold callOf
  split
  · exact .refused (.inl ⟨_, _, rfl⟩)
  · rename_i f hf
    split
    · rename_i htakes
      refine .read ⟨.call t hname u hopening d closing hclosing, ?_, ⟨⟨f, hf, hlength ▸ htakes⟩,
        hcallable⟩, ?_⟩
      · simp only [Phrase.tokens, List.cons_append, List.append_assoc, List.nil_append, hts]
      · rw [Phrase.tree, htrees, Option.bind_some, callTree, hf]
        exact if_pos htakes
    · exact .refused (.inl ⟨_, _, rfl⟩)

theorem parses_numberOf {source : String} (h : t.kind = .number) :
    Parses source (t :: rest) (Derives 0 (t :: rest))
      ((numberOf t).map fun e => (e, rest)) := by
  unfold numberOf
  split
  · rename_i value hvalue
    have hleaf : t.kind ∈ leaves := by
      rw [h]
      decide
    refine .read ⟨.leaf t hleaf, rfl, trivial, ?_⟩
    simp only [Phrase.tree, leafTree, h, hvalue, Option.map_some]
  · rename_i hvalue
    exact .refused (.inr ⟨t, List.mem_cons_self, h, hvalue⟩)

end

section

variable (source : String)

mutual

theorem parses_level : ∀ (level : Nat) (ts : List Token),
    Parses source ts (Derives level ts) (readLevel source level ts)
  | 0, [] => by
      rw [readLevel_nil]
      exact .failAt
  | 0, t :: rest => by
      cases hop : unaryOf t.kind with
      | some op =>
          rw [readLevel_signed source hop]
          have hsigned : ∀ e rest', Derives 0 rest e rest' →
              Derives 0 (t :: rest) (unary op e t.position) rest' := by
            rintro e rest' ⟨d, rfl, hcallable, htree⟩
            refine ⟨.signed t op (unaryOf_iff.1 hop) d, rfl, hcallable, ?_⟩
            rw [Phrase.tree, htree, Option.map_some]
          exact (parses_level 0 rest).map (fun _ => List.mem_cons_of_mem t) hsigned
      | none =>
          rw [readLevel_atom source hop]
          exact parses_atom t rest
  | level + 1, ts => by
      rw [readLevel_succ]
      refine (parses_level level ts).bind (fun _ => id) fun left rest hleft => ?_
      have := hleft.length_lt
      refine (parses_chain level left rest).mono hleft.mem_of_rest fun e rest' hjoined => ?_
      obtain ⟨d, rfl, hcallable, htree⟩ := hleft
      obtain ⟨joined, rfl, hcallable', htree'⟩ := hjoined
      refine ⟨.joined d joined, ?_, ⟨hcallable, hcallable'⟩, ?_⟩
      · rw [Phrase.tokens, List.append_assoc]
      · rw [Phrase.tree, htree, Option.bind_some, htree']
  termination_by level ts => (ts.length, level + 2)

theorem parses_chain : ∀ (level : Nat) (left : Expr) (ts : List Token),
    Parses source ts (DerivesJoined level left ts) (readChain source level left ts)
  | _, left, [] => by
      rw [readChain_nil]
      exact .read ⟨.done, rfl, trivial, rfl⟩
  | level, left, t :: rest => by
      cases hop : operatorAt (level + 1) t.kind with
      | none =>
          rw [readChain_stop source hop]
          exact .read ⟨.done, rfl, trivial, rfl⟩
      | some op =>
          rw [readChain_more source hop]
          refine (parses_level level rest).bind (fun _ => List.mem_cons_of_mem t)
            fun right rest' hright => ?_
          have hlt : rest'.length < (t :: rest).length := Nat.lt_succ_of_lt hright.length_lt
          have hmem : ∀ u ∈ rest', u ∈ t :: rest := fun u hu =>
            List.mem_cons_of_mem t (hright.mem_of_rest u hu)
          refine (parses_chain level (.binary op left right) rest').mono hmem fun e _ hjoined => ?_
          obtain ⟨d, rfl, hcallable, htree⟩ := hright
          obtain ⟨joined, rfl, hcallable', htree'⟩ := hjoined
          refine ⟨.more t op (operatorAt_iff.1 hop) d joined, ?_, ⟨hcallable, hcallable'⟩, ?_⟩
          · rw [Joined.tokens, List.cons_append, List.append_assoc]
          · rw [Joined.tree, htree, Option.bind_some, htree']
  termination_by level _ ts => (ts.length, level + 2)

theorem parses_atom (t : Token) (rest : List Token) :
    Parses source (t :: rest) (Derives 0 (t :: rest)) (readAtom source t rest) := by
  by_cases hother : t.kind ∈ .leftParen :: leaves
  · rcases List.mem_cons.1 hother with hparen | hleaf
    · rw [readAtom_group source hparen]
      refine (parses_level 6 rest).bind (fun _ => List.mem_cons_of_mem t) fun e after hinner => ?_
      obtain ⟨d, rfl, hcallable, htree⟩ := hinner
      cases after with
      | nil => exact .failAt
      | cons u after =>
          dsimp only
          split
          · rename_i hclosing
            refine .read ⟨.group t hparen d u hclosing, ?_, hcallable, htree⟩
            simp only [Phrase.tokens, List.cons_append, List.append_assoc, List.nil_append]
          · exact .failAt
    by_cases hnumber : t.kind = .number
    · rw [readAtom_number source hnumber]
      exact parses_numberOf hnumber
    have hread : ∀ rest : List Token, (t.kind = .identifier → ∀ u ∈ rest.head?, u.kind ≠ .leftParen) →
        Parses source (t :: rest) (Derives 0 (t :: rest)) (readAtom source t rest) := by
      intro rest hnext
      obtain ⟨e, htree⟩ : ∃ e, leafTree t = some e := by
        unfold leafTree
        split
        · rename_i h
          exact absurd h hnumber
        · exact ⟨_, rfl⟩
        · exact ⟨_, rfl⟩
        · exact ⟨_, rfl⟩
      rw [readAtom_leaf source hleaf hnumber hnext htree]
      exact .read ⟨.leaf t hleaf, rfl, trivial, htree⟩
    match rest with
    | [] => exact hread [] fun _ u hu => nomatch hu
    | u :: rest =>
      by_cases hcall : t.kind = .identifier ∧ u.kind = .leftParen
      · rw [readAtom_call source hcall.1 hcall.2]
        have hmem : ∀ v ∈ rest, v ∈ t :: u :: rest := fun v hv =>
          List.mem_cons_of_mem t (List.mem_cons_of_mem u hv)
        exact (parses_arguments rest).bind hmem fun es after => parses_callOf hcall.1 hcall.2
      · refine hread (u :: rest) fun hname v hv hparen => hcall ⟨hname, ?_⟩
        obtain rfl : u = v := Option.some.inj hv
        exact hparen
  · rw [readAtom_other source hother]
    exact .failAt
  termination_by (rest.length + 1, 1)

theorem parses_arguments : ∀ ts : List Token,
    Parses source ts (DerivesArguments ts) (readArguments source ts)
  | [] => by
      rw [readArguments_nil]
      exact .failAt
  | t :: rest => by
      by_cases hclose : t.kind = .rightParen
      · rw [readArguments_close source hclose]
        exact .read ⟨.empty, t, hclose, rfl, trivial, rfl⟩
      · rw [readArguments_open source hclose]
        refine (parses_level 6 (t :: rest)).bind (fun _ => id) fun e after hfirst => ?_
        have hlt : after.length < (t :: rest).length := hfirst.length_lt
        refine (parses_moreArguments after).map hfirst.mem_of_rest fun es _ hmore => ?_
        obtain ⟨d, htokens, hcallable, htree⟩ := hfirst
        obtain ⟨more, closing, hclosing, rfl, hcallable', htrees⟩ := hmore
        refine ⟨.listed d more, closing, hclosing, ?_, ⟨hcallable, hcallable'⟩, ?_⟩
        · rw [htokens, Arguments.tokens, List.append_assoc]
        · rw [Arguments.trees, htree, Option.bind_some, htrees, Option.map_some]
  termination_by ts => (ts.length, 9)

theorem parses_moreArguments : ∀ ts : List Token,
    Parses source ts (DerivesMoreArguments ts) (readMoreArguments source ts)
  | [] => by
      rw [readMoreArguments_nil]
      exact .failAt
  | t :: rest => by
      by_cases hclose : t.kind = .rightParen
      · rw [readMoreArguments_close source hclose]
        exact .read ⟨.done, t, hclose, rfl, trivial, rfl⟩
      by_cases hcomma : t.kind = .comma
      · rw [readMoreArguments_comma source hcomma]
        refine (parses_level 6 rest).bind (fun _ => List.mem_cons_of_mem t) fun e after hnext => ?_
        have hlt : after.length < (t :: rest).length := Nat.lt_succ_of_lt hnext.length_lt
        have hmem : ∀ u ∈ after, u ∈ t :: rest := fun u hu =>
          List.mem_cons_of_mem t (hnext.mem_of_rest u hu)
        refine (parses_moreArguments after).map hmem fun es _ hmore => ?_
        obtain ⟨d, rfl, hcallable, htree⟩ := hnext
        obtain ⟨more, closing, hclosing, rfl, hcallable', htrees⟩ := hmore
        refine ⟨.more t hcomma d more, closing, hclosing, ?_, ⟨hcallable, hcallable'⟩, ?_⟩
        · rw [MoreArguments.tokens, List.cons_append, List.append_assoc]
        · rw [MoreArguments.trees, htree, Option.bind_some, htrees, Option.map_some]
      · rw [readMoreArguments_other source hclose hcomma]
        exact .failAt
  termination_by ts => (ts.length, 9)

end

/-! ## Every derivation is read -/

mutual

/-- A phrase is read with its tree, up to the tokens that end it. -/
theorem readLevel_tokens : ∀ {level : Nat} (d : Phrase level) {e : Expr} {rest : List Token},
    Stops level rest → d.tree = some e →
      readLevel source level (d.tokens ++ rest) = .ok (e, rest)
  | _, .signed mark op hmark operand, e, rest, hstop, htree => by
      obtain ⟨e', htree', rfl⟩ := Option.map_eq_some_iff.1 htree
      rw [Phrase.tokens, List.cons_append, readLevel_signed source (unaryOf_iff.2 hmark),
        readLevel_tokens operand hstop htree']
      rfl
  | _, .leaf token htoken, e, rest, hstop, htree => by
      rw [Phrase.tokens, List.cons_append, List.nil_append,
        readLevel_atom source (unaryOf_eq_none (List.mem_cons_of_mem _ htoken))]
      by_cases hnumber : token.kind = .number
      · rw [readAtom_number source hnumber]
        simp only [Phrase.tree, leafTree, hnumber, Option.map_eq_some_iff] at htree
        obtain ⟨value, hvalue, rfl⟩ := htree
        rw [numberOf, hvalue]
        rfl
      · exact readAtom_leaf source htoken hnumber (fun _ u hu => (hstop u hu).1) htree
  | _, .call name hname opening hopening arguments closing hclosing, e, rest, hstop, htree => by
      obtain ⟨es, htrees, hcall⟩ := Option.bind_eq_some_iff.1 htree
      rw [Phrase.tokens, List.cons_append, List.cons_append, List.append_assoc,
        readLevel_atom source (unaryOf_eq_none (hname ▸ by decide)),
        readAtom_call source hname hopening]
      change readArguments source (arguments.tokens ++ closing :: rest) >>= _ = _
      rw [readArguments_tokens arguments hclosing htrees]
      unfold callTree at hcall
      split at hcall
      · rename_i f hf
        split at hcall
        · rename_i htakes
          obtain rfl := Option.some.inj hcall
          change Except.map _ (callOf source name es) = _
          rw [callOf, hf]
          dsimp only
          rw [if_pos htakes]
          rfl
        · cases hcall
      · cases hcall
  | _, .group opening hopening inner closing hclosing, e, rest, hstop, htree => by
      rw [Phrase.tokens, List.cons_append, List.append_assoc,
        readLevel_atom source (unaryOf_eq_none (List.mem_cons.2 (.inl hopening))),
        readAtom_group source hopening]
      change readLevel source 6 (inner.tokens ++ closing :: rest) >>= _ = _
      rw [readLevel_tokens inner (.rightParen hclosing) htree]
      exact if_pos hclosing
  | _, .joined first joined, e, rest, hstop, htree => by
      obtain ⟨left, hleft, hjoined⟩ := Option.bind_eq_some_iff.1 htree
      rw [Phrase.tokens, List.append_assoc, readLevel_succ,
        readLevel_tokens first (joined.stops hstop) hleft]
      exact readChain_tokens joined hstop hjoined
  termination_by structural _ d => d

theorem readChain_tokens : ∀ {level : Nat} (d : Joined level) {left e : Expr} {rest : List Token},
    Stops (level + 1) rest → d.tree left = some e →
      readChain source level left (d.tokens ++ rest) = .ok (e, rest)
  | _, .done, left, e, rest, hstop, htree => by
      obtain rfl : left = e := Option.some.inj htree
      cases rest with
      | nil => exact readChain_nil source
      | cons t rest => exact readChain_stop source (operatorAt_eq_none hstop)
  | _, .more mark op hmark operand joined, left, e, rest, hstop, htree => by
      obtain ⟨right, hright, hjoined⟩ := Option.bind_eq_some_iff.1 htree
      rw [Joined.tokens, List.cons_append, List.append_assoc,
        readChain_more source (operatorAt_iff.2 hmark),
        readLevel_tokens operand (joined.stops hstop) hright]
      exact readChain_tokens joined hstop hjoined
  termination_by structural _ d => d

theorem readArguments_tokens : ∀ (d : Arguments) {es : List Expr} {closing : Token}
    {rest : List Token}, closing.kind = .rightParen → d.trees = some es →
      readArguments source (d.tokens ++ closing :: rest) = .ok (es, rest)
  | .empty, es, closing, rest, hclosing, htrees => by
      obtain rfl : [] = es := Option.some.inj htrees
      exact readArguments_close source hclosing
  | .listed first more, es, closing, rest, hclosing, htrees => by
      obtain ⟨e, hfirst, hmap⟩ := Option.bind_eq_some_iff.1 htrees
      obtain ⟨es', hmore, rfl⟩ := Option.map_eq_some_iff.1 hmap
      obtain ⟨t, ts, htokens⟩ := List.exists_cons_of_ne_nil first.tokens_ne_nil
      have hempty : first.tokens ++ [] = t :: ts := (List.append_nil _).trans htokens
      have hopen : t.kind ≠ .rightParen := first.head_ne_rightParen hempty
      have hstops : Stops 6 (more.tokens ++ closing :: rest) := more.stops hclosing
      have hlevel := readLevel_tokens first hstops hfirst
      rw [htokens] at hlevel
      rw [Arguments.tokens, List.append_assoc, htokens, List.cons_append,
        readArguments_open source hopen]
      rw [List.cons_append] at hlevel
      rw [hlevel]
      change Except.map _ (readMoreArguments source (more.tokens ++ closing :: rest)) = _
      rw [readMoreArguments_tokens more hclosing hmore]
      rfl
  termination_by structural d => d

theorem readMoreArguments_tokens : ∀ (d : MoreArguments) {es : List Expr} {closing : Token}
    {rest : List Token}, closing.kind = .rightParen → d.trees = some es →
      readMoreArguments source (d.tokens ++ closing :: rest) = .ok (es, rest)
  | .done, es, closing, rest, hclosing, htrees => by
      obtain rfl : [] = es := Option.some.inj htrees
      exact readMoreArguments_close source hclosing
  | .more comma hcomma argument more, es, closing, rest, hclosing, htrees => by
      obtain ⟨e, hargument, hmap⟩ := Option.bind_eq_some_iff.1 htrees
      obtain ⟨es', hmore, rfl⟩ := Option.map_eq_some_iff.1 hmap
      rw [MoreArguments.tokens, List.cons_append, List.append_assoc,
        readMoreArguments_comma source hcomma,
        readLevel_tokens argument (more.stops hclosing) hargument]
      change Except.map _ (readMoreArguments source (more.tokens ++ closing :: rest)) = _
      rw [readMoreArguments_tokens more hclosing hmore]
      rfl
  termination_by structural d => d

end

end

/-! ## Whole texts -/

/-- A phrase with nothing joined to it at the next levels. -/
def Phrase.raised {level : Nat} (d : Phrase level) : (levels : Nat) → Phrase (level + levels)
  | 0 => d
  | levels + 1 => .joined (d.raised levels) .done

mutual

/-- A derivation with calls of known functions has a tree, if its numerals have values. -/
theorem Phrase.exists_tree : ∀ {level : Nat} (d : Phrase level),
    (∀ t ∈ d.tokens, t.kind = .number → (Number.readFloat t.value).isSome = true) → d.Callable →
      ∃ e, d.tree = some e
  | _, .signed mark op _ operand, hvalues, hcallable => by
      obtain ⟨e, he⟩ := operand.exists_tree
        (fun t ht => hvalues t (List.mem_cons_of_mem mark ht)) hcallable
      exact ⟨_, Option.map_eq_some_iff.2 ⟨e, he, rfl⟩⟩
  | _, .leaf token _, hvalues, _ => by
      rw [Phrase.tree, leafTree]
      split
      · rename_i hnumber
        obtain ⟨value, hvalue⟩ := Option.isSome_iff_exists.1
          (hvalues token List.mem_cons_self hnumber)
        exact ⟨_, Option.map_eq_some_iff.2 ⟨value, hvalue, rfl⟩⟩
      · exact ⟨_, rfl⟩
      · exact ⟨_, rfl⟩
      · exact ⟨_, rfl⟩
  | _, .call name _ opening _ arguments closing _, hvalues, h => by
      obtain ⟨⟨f, hf, htakes⟩, hcallable⟩ := h
      obtain ⟨es, hes⟩ := arguments.exists_trees (fun t ht => hvalues t
        (List.mem_cons_of_mem name (List.mem_cons_of_mem opening (List.mem_append_left _ ht))))
        hcallable
      refine ⟨.call f es name.position, Option.bind_eq_some_iff.2 ⟨es, hes, ?_⟩⟩
      rw [callTree, hf]
      exact if_pos (arguments.length_trees hes ▸ htakes)
  | _, .group opening _ inner closing _, hvalues, hcallable =>
      inner.exists_tree
        (fun t ht => hvalues t (List.mem_cons_of_mem opening (List.mem_append_left _ ht))) hcallable
  | _, .joined first joined, hvalues, hcallable => by
      obtain ⟨left, hleft⟩ := first.exists_tree
        (fun t ht => hvalues t (List.mem_append_left _ ht)) hcallable.1
      obtain ⟨e, he⟩ := joined.exists_tree left
        (fun t ht => hvalues t (List.mem_append_right _ ht)) hcallable.2
      exact ⟨e, Option.bind_eq_some_iff.2 ⟨left, hleft, he⟩⟩
  termination_by structural _ d => d

theorem Joined.exists_tree : ∀ {level : Nat} (d : Joined level) (left : Expr),
    (∀ t ∈ d.tokens, t.kind = .number → (Number.readFloat t.value).isSome = true) → d.Callable →
      ∃ e, d.tree left = some e
  | _, .done, left, _, _ => ⟨left, rfl⟩
  | _, .more mark op _ operand joined, left, hvalues, hcallable => by
      obtain ⟨right, hright⟩ := operand.exists_tree (fun t ht => hvalues t
        (List.mem_cons_of_mem mark (List.mem_append_left _ ht))) hcallable.1
      obtain ⟨e, he⟩ := joined.exists_tree (.binary op left right) (fun t ht => hvalues t
        (List.mem_cons_of_mem mark (List.mem_append_right _ ht))) hcallable.2
      exact ⟨e, Option.bind_eq_some_iff.2 ⟨right, hright, he⟩⟩
  termination_by structural _ d => d

theorem Arguments.exists_trees : ∀ d : Arguments,
    (∀ t ∈ d.tokens, t.kind = .number → (Number.readFloat t.value).isSome = true) → d.Callable →
      ∃ es, d.trees = some es
  | .empty, _, _ => ⟨[], rfl⟩
  | .listed first more, hvalues, hcallable => by
      obtain ⟨e, he⟩ := first.exists_tree
        (fun t ht => hvalues t (List.mem_append_left _ ht)) hcallable.1
      obtain ⟨es, hes⟩ := more.exists_trees
        (fun t ht => hvalues t (List.mem_append_right _ ht)) hcallable.2
      exact ⟨e :: es, Option.bind_eq_some_iff.2 ⟨e, he, Option.map_eq_some_iff.2 ⟨es, hes, rfl⟩⟩⟩

theorem MoreArguments.exists_trees : ∀ d : MoreArguments,
    (∀ t ∈ d.tokens, t.kind = .number → (Number.readFloat t.value).isSome = true) → d.Callable →
      ∃ es, d.trees = some es
  | .done, _, _ => ⟨[], rfl⟩
  | .more comma _ argument more, hvalues, hcallable => by
      obtain ⟨e, he⟩ := argument.exists_tree (fun t ht => hvalues t
        (List.mem_cons_of_mem comma (List.mem_append_left _ ht))) hcallable.1
      obtain ⟨es, hes⟩ := more.exists_trees (fun t ht => hvalues t
        (List.mem_cons_of_mem comma (List.mem_append_right _ ht))) hcallable.2
      exact ⟨e :: es, Option.bind_eq_some_iff.2 ⟨e, he, Option.map_eq_some_iff.2 ⟨es, hes, rfl⟩⟩⟩
  termination_by structural d => d

end

mutual

/-- No phrase has the end of the text among its tokens. -/
theorem Phrase.ne_eof : ∀ {level : Nat} (d : Phrase level), ∀ t ∈ d.tokens, t.kind ≠ .eof
  | _, .signed mark op hmark operand => by
      have hall : ∀ p ∈ signs, p.1 ≠ .eof := by decide
      exact List.forall_mem_cons.2 ⟨hall _ hmark, operand.ne_eof⟩
  | _, .leaf token htoken => by
      have hall : ∀ kind ∈ leaves, kind ≠ .eof := by decide
      exact List.forall_mem_cons.2 ⟨hall _ htoken, fun _ h => nomatch h⟩
  | _, .call name hname opening hopening arguments closing hclosing => by
      refine List.forall_mem_cons.2 ⟨?_, List.forall_mem_cons.2 ⟨?_, ?_⟩⟩
      · rw [hname]
        decide
      · rw [hopening]
        decide
      · refine List.forall_mem_append.2 ⟨arguments.ne_eof, List.forall_mem_singleton.2 ?_⟩
        rw [hclosing]
        decide
  | _, .group opening hopening inner closing hclosing => by
      refine List.forall_mem_cons.2 ⟨?_, List.forall_mem_append.2
        ⟨inner.ne_eof, List.forall_mem_singleton.2 ?_⟩⟩
      · rw [hopening]
        decide
      · rw [hclosing]
        decide
  | _, .joined first joined => List.forall_mem_append.2 ⟨first.ne_eof, joined.ne_eof⟩
  termination_by structural _ d => d

theorem Joined.ne_eof : ∀ {level : Nat} (d : Joined level), ∀ t ∈ d.tokens, t.kind ≠ .eof
  | _, .done => fun _ h => nomatch h
  | _, .more mark op hmark operand joined => by
      have hall : ∀ n < 7, ∀ p ∈ joiners n, p.1 ≠ .eof := by decide
      exact List.forall_mem_cons.2 ⟨hall _ (Nat.lt_succ_of_le (le_of_mem_joiners hmark)) _ hmark,
        List.forall_mem_append.2 ⟨operand.ne_eof, joined.ne_eof⟩⟩
  termination_by structural _ d => d

theorem Arguments.ne_eof : ∀ d : Arguments, ∀ t ∈ d.tokens, t.kind ≠ .eof
  | .empty => fun _ h => nomatch h
  | .listed first more => List.forall_mem_append.2 ⟨first.ne_eof, more.ne_eof⟩

theorem MoreArguments.ne_eof : ∀ d : MoreArguments, ∀ t ∈ d.tokens, t.kind ≠ .eof
  | .done => fun _ h => nomatch h
  | .more comma hcomma argument more => by
      refine List.forall_mem_cons.2 ⟨?_, List.forall_mem_append.2 ⟨argument.ne_eof, more.ne_eof⟩⟩
      rw [hcomma]
      decide
  termination_by structural d => d

end

section

/-- A text is read up to the token for its end. -/
theorem ofTokens_eq {source : String} {t : Token} (ht : t.kind ≠ .eof) (rest : List Token) :
    ofTokens source (t :: rest) = readLevel source 6 (t :: rest) >>= fun r =>
      match r.2 with
      | [] => .ok r.1
      | u :: after =>
        if u.kind = .eof then .ok r.1
        else failAt source (u :: after) (.unexpectedToken u.text) := by
  rw [ofTokens, if_neg ht]
  unfold readLevel
  rcases parseLevel source 6 (t :: rest) with f | ⟨e, _ | ⟨u, after⟩, h⟩
  · rfl
  · rfl
  · rfl

variable {source : String} {last : Token} {sentence : List Token}
  (hsentence : ∀ t ∈ sentence, t.kind ≠ .eof) (hlast : last.kind = .eof)
include hsentence hlast

/-- What is read in front of a token for the end of the text is the expression of the text. -/
theorem ofTokens_eq_ok {e : Expr} (hne : sentence ≠ [])
    (h : readLevel source 6 (sentence ++ [last]) = .ok (e, [last])) :
    ofTokens source (sentence ++ [last]) = .ok e := by
  obtain ⟨t, rest, rfl⟩ := List.exists_cons_of_ne_nil hne
  rw [List.cons_append] at h ⊢
  rw [ofTokens_eq (hsentence t List.mem_cons_self), h]
  exact if_pos hlast

/-- The tokens of a text are derived and give the tree of the derivation, or they are refused. -/
theorem ofTokens_cases (source : String) :
    (∃ (e : Expr) (d : Phrase 6), ofTokens source (sentence ++ [last]) = .ok e ∧
        d.tokens = sentence ∧ d.Callable ∧ d.tree = some e) ∨
      ∃ f, ofTokens source (sentence ++ [last]) = .error f ∧
        Refused source (sentence ++ [last]) f := by
  cases sentence with
  | nil => exact .inr ⟨_, if_pos hlast, .inl ⟨_, _, rfl⟩⟩
  | cons t rest =>
      rw [List.cons_append, ofTokens_eq (hsentence t List.mem_cons_self)]
      rcases (parses_level source 6 (t :: (rest ++ [last]))).result with
        ⟨e, rest', hread, d, htokens, hcallable, htree⟩ | ⟨f, hread, hrefused⟩
      · rw [hread]
        -- the end of the text is no token of the phrase, so it is among those that are left
        rcases List.eq_nil_or_concat rest' with rfl | ⟨more, u, rfl⟩
        · rw [List.append_nil] at htokens
          exact absurd hlast (d.ne_eof last (htokens ▸ by simp))
        obtain ⟨hphrase, hu⟩ : t :: rest = d.tokens ++ more ∧ [last] = [u] :=
          List.append_inj' (by simpa using htokens) rfl
        obtain rfl := List.singleton_inj.1 hu
        cases more with
        | nil =>
            refine .inl ⟨e, d, if_pos hlast, ?_, hcallable, htree⟩
            rw [hphrase, List.append_nil]
        | cons v more =>
            have hv : ¬ v.kind = .eof := hsentence v (hphrase ▸ by simp)
            exact .inr ⟨_, if_neg hv, .inl ⟨_, _, rfl⟩⟩
      · rw [hread]
        exact .inr ⟨f, rfl, hrefused⟩

end

/-- A text whose tokens are derived is read as the tree of the derivation. -/
theorem parse_of_phrase {cs : List Char} {last : Token} {e : Expr} (d : Phrase 6)
    (hscan : Token.scan cs = .ok (d.tokens ++ [last])) (hlast : last.kind = .eof)
    (htree : d.tree = some e) : parse cs = .ok e := by
  have hstop : Stops 6 [last] := .of_kind (by simp [hlast])
  rw [parse, hscan]
  exact ofTokens_eq_ok d.ne_eof hlast d.tokens_ne_nil (readLevel_tokens _ d hstop htree)

/-- The expressions that are read are those that the grammar derives, with calls of known functions
that take as many arguments: there is one derivation, and its tree is what is read. Any other text
that can be scanned is refused by a parse error. -/
theorem parse_iff_derivable {cs : List Char} {ts : List Token} (hscan : Token.scan cs = .ok ts)
    (hvalues : ∀ t ∈ ts, t.kind = .number → (Number.readFloat t.value).isSome = true) :
    ((∃ e, parse cs = .ok e) ↔ ∃ d : Phrase 6, d.tokens = Token.sentence ts ∧ d.Callable) ∧
    (∀ d : Phrase 6, d.tokens = Token.sentence ts →
      (∀ d' : Phrase 6, d'.tokens = Token.sentence ts → d' = d) ∧
      (d.Callable → ∃ e, d.tree = some e ∧ parse cs = .ok e)) ∧
    ((¬ ∃ d : Phrase 6, d.tokens = Token.sentence ts ∧ d.Callable) →
      ∃ cause position, parse cs = .error (.parse cause (String.ofList cs) position)) := by
  obtain ⟨⟨last, hlast, hts⟩, -⟩ := Token.exists_sentence hscan
  have hkinds : ∀ t ∈ Token.sentence ts, t.kind ≠ .eof := fun _ => Token.kind_of_mem_sentence
  have hparse : parse cs = ofTokens (String.ofList cs) (Token.sentence ts ++ [last]) := by
    rw [parse, hscan, ← hts]
  have hread : ∀ d : Phrase 6, d.tokens = Token.sentence ts → d.Callable →
      ∃ e, d.tree = some e ∧ parse cs = .ok e := by
    intro d htokens hcallable
    obtain ⟨e, htree⟩ := d.exists_tree (fun t ht => hvalues t
      (hts ▸ List.mem_append_left _ (htokens ▸ ht))) hcallable
    refine ⟨e, htree, parse_of_phrase d ?_ hlast htree⟩
    rw [htokens, ← hts, hscan]
  have hcases := ofTokens_cases hkinds hlast (String.ofList cs)
  rw [← hparse] at hcases
  refine ⟨⟨?_, ?_⟩, ?_, ?_⟩
  · rintro ⟨e, he⟩
    rcases hcases with ⟨-, d, -, htokens, hcallable, -⟩ | ⟨f, hf, -⟩
    · exact ⟨d, htokens, hcallable⟩
    · cases he.symm.trans hf
  · rintro ⟨d, htokens, hcallable⟩
    obtain ⟨e, -, he⟩ := hread d htokens hcallable
    exact ⟨e, he⟩
  · exact fun d htokens =>
      ⟨fun d' htokens' => Phrase.tokens_injective (htokens'.trans htokens.symm), hread d htokens⟩
  · intro hnone
    rcases hcases with ⟨-, d, -, htokens, hcallable, -⟩ | ⟨f, hf, hrefused⟩
    · exact absurd ⟨d, htokens, hcallable⟩ hnone
    · rcases hrefused with ⟨cause, position, rfl⟩ | ⟨t, ht, hnumber, hvalue⟩
      · exact ⟨cause, position, hf⟩
      · have hsome := hvalues t (hts ▸ ht) hnumber
        rw [hvalue] at hsome
        cases hsome

/-- Subtractions are done from the left. -/
theorem parse_of_two_subtractions :
    parse "$x-2-floor(a)".toList =
      .ok (.binary .subtract
        (.binary .subtract (.variable "x" 0) (.number (Number.ofDecimal false 2 0) 3))
        (.call .floor [.text "a" 11] 5)) := by
  let x : Token := ⟨.variable, ['x'], 0, 2⟩
  let minus : Token := ⟨.minus, ['-'], 2, 1⟩
  let two : Token := ⟨.number, ['2'], 3, 1⟩
  let minus' : Token := ⟨.minus, ['-'], 4, 1⟩
  let floor : Token := ⟨.identifier, "floor".toList, 5, 5⟩
  let opening : Token := ⟨.leftParen, ['('], 10, 1⟩
  let a : Token := ⟨.identifier, ['a'], 11, 1⟩
  let closing : Token := ⟨.rightParen, [')'], 12, 1⟩
  have hscan : Token.scan "$x-2-floor(a)".toList =
      .ok [x, minus, two, minus', floor, opening, a, closing, ⟨.eof, [], 13, 0⟩] := by
    rfl
  have hvalues : ∀ t ∈ [x, minus, two, minus', floor, opening, a, closing, ⟨.eof, [], 13, 0⟩],
      t.kind = .number → (Number.readFloat t.value).isSome = true := by
    decide +kernel
  let argument : Phrase 6 := Phrase.raised (.leaf a (by decide)) 6
  let call : Phrase 0 := .call floor rfl opening rfl (.listed argument .done) closing rfl
  let d : Phrase 6 := Phrase.raised (.joined (Phrase.raised (.leaf x (by decide)) 1)
    (.more minus .subtract (by decide) (Phrase.raised (.leaf two (by decide)) 1)
      (.more minus' .subtract (by decide) (call.raised 1) .done))) 4
  have hcallable : d.Callable :=
    ⟨⟨⟨⟨⟨⟨trivial, trivial⟩, ⟨trivial, trivial⟩, ⟨⟨⟨.floor, rfl, rfl⟩,
      ⟨⟨⟨⟨⟨⟨trivial, trivial⟩, trivial⟩, trivial⟩, trivial⟩, trivial⟩, trivial⟩, trivial⟩, trivial⟩,
      trivial⟩, trivial⟩, trivial⟩, trivial⟩, trivial⟩
  have htokens : d.tokens = Token.sentence
      [x, minus, two, minus', floor, opening, a, closing, ⟨.eof, [], 13, 0⟩] := by cbv
  have hgiven : d.tree = some (.binary .subtract
      (.binary .subtract (.variable "x" 0) (.number (Number.ofDecimal false 2 0) 3))
      (.call .floor [.text "a" 11] 5)) := rfl
  obtain ⟨e, htree, he⟩ := ((parse_iff_derivable hscan hvalues).2.1 d htokens).2 hcallable
  obtain rfl := Option.some.inj (htree.symm.trans hgiven)
  exact he

end RandomTables.Expr
