-- SUMMARY: The text of a parsed expression is parsed to the expression again, up to positions.
import RandomTables.Proofs.Expr.Lexemes
import RandomTables.Proofs.Expr.Parsing
import RandomTables.Proofs.Number.Integers

/-!
# Printed expressions

`render` puts parentheses around every operator, so the text of an expression is a phrase of level
0: it is scanned to the tokens of a derivation whose tree is the expression, whatever of its kind
follows. Where the tokens stand is another matter, so trees are compared without positions. Names
need no condition, as those of a parsed expression were tokens once.
-/
namespace RandomTables.Expr

/-! ## Expressions without positions -/

mutual

/-- An expression with all positions forgotten. -/
def unplaced : Expr → Expr
  | .number value _ => .number value 0
  | .text value _ => .text value 0
  | .variable name _ => .variable name 0
  | .placeholder name property _ => .placeholder name property 0
  | .unary op operand _ => .unary op operand.unplaced 0
  | .binary op left right => .binary op left.unplaced right.unplaced
  | .call f arguments _ => .call f (unplacedAll arguments) 0

def unplacedAll : List Expr → List Expr
  | [] => []
  | e :: rest => e.unplaced :: unplacedAll rest

end

mutual

/-- A condition holds of an expression and of all expressions in it. -/
def Everywhere (P : Expr → Prop) : Expr → Prop
  | .number value p => P (.number value p)
  | .text value p => P (.text value p)
  | .variable name p => P (.variable name p)
  | .placeholder name property p => P (.placeholder name property p)
  | .unary op operand p => P (.unary op operand p) ∧ operand.Everywhere P
  | .binary op left right => P (.binary op left right) ∧ left.Everywhere P ∧ right.Everywhere P
  | .call f arguments p => P (.call f arguments p) ∧ EverywhereAll P arguments

def EverywhereAll (P : Expr → Prop) : List Expr → Prop
  | [] => True
  | e :: rest => e.Everywhere P ∧ EverywhereAll P rest

end

/-- If it is a literal, it is written as it is: a text without double quotes and backslashes, or a
natural number. -/
def Plain : Expr → Prop
  | .number value _ => ∃ n : Nat, (Number.Double.ofFloat value).integer? = some (n : Int)
  | .text value _ => '"' ∉ value.toList ∧ '\\' ∉ value.toList
  | _ => True

/-- What tokens make of it: numbers have no sign, names are dotted names, and calls have as many
arguments as the function takes. -/
def Formed : Expr → Prop
  | .number value _ => (Number.Double.ofFloat value).isNegative = false
  | .variable name _ => Token.dottedName name.toList = name.toList
  | .placeholder name property p => ∃ path, Token.dottedName path = path ∧ path ≠ [] ∧
      .placeholder name property p = placeholderOf path p
  | .call f arguments _ => f.takes arguments.length = true
  | _ => True

/-! ## Parsed expressions -/

theorem formed_leafTree {t : Token} {e : Expr} (ht : Token.Spelled t.kind t.value)
    (h : leafTree t = some e) : e.Everywhere Formed := by
  unfold leafTree at h
  split at h
  · rename_i hkind
    obtain ⟨value, hvalue, rfl⟩ := Option.map_eq_some_iff.1 h
    rw [hkind] at ht
    exact Number.isNegative_readFloat ht hvalue
  · rename_i hkind
    obtain rfl := Option.some.inj h
    rw [hkind] at ht
    rw [Everywhere, Formed, Token.text, String.toList_ofList]
    exact ht
  · rename_i hkind
    obtain rfl := Option.some.inj h
    rw [hkind] at ht
    exact ⟨t.value, ht.1, ht.2, rfl⟩
  · obtain rfl := Option.some.inj h
    trivial

mutual

theorem Phrase.formed : ∀ {level : Nat} (d : Phrase level) {e : Expr},
    (∀ t ∈ d.tokens, Token.Spelled t.kind t.value) → d.tree = some e → e.Everywhere Formed
  | _, .signed mark op _ operand, e, hspelled, h => by
      obtain ⟨e', he', rfl⟩ := Option.map_eq_some_iff.1 h
      exact ⟨trivial, operand.formed (fun t ht => hspelled t (List.mem_cons_of_mem _ ht)) he'⟩
  | _, .leaf token _, e, hspelled, h => formed_leafTree (hspelled token List.mem_cons_self) h
  | _, .call name _ opening _ arguments closing _, e, hspelled, h => by
      obtain ⟨es, hes, hcall⟩ := Option.bind_eq_some_iff.1 h
      have harguments := arguments.formed (fun t ht => hspelled t (List.mem_cons_of_mem _
        (List.mem_cons_of_mem _ (List.mem_append_left _ ht)))) hes
      unfold callTree at hcall
      split at hcall
      · split at hcall
        · rename_i htakes
          obtain rfl := Option.some.inj hcall
          exact ⟨htakes, harguments⟩
        · cases hcall
      · cases hcall
  | _, .group _ _ inner _ _, e, hspelled, h =>
      inner.formed (fun t ht => hspelled t (List.mem_cons_of_mem _ (List.mem_append_left _ ht))) h
  | _, .joined first rest, e, hspelled, h => by
      obtain ⟨left, hleft, hrest⟩ := Option.bind_eq_some_iff.1 h
      exact rest.formed (fun t ht => hspelled t (List.mem_append_right _ ht))
        (first.formed (fun t ht => hspelled t (List.mem_append_left _ ht)) hleft) hrest
  termination_by structural _ d => d

theorem Joined.formed : ∀ {level : Nat} (d : Joined level) {left e : Expr},
    (∀ t ∈ d.tokens, Token.Spelled t.kind t.value) → left.Everywhere Formed →
      d.tree left = some e → e.Everywhere Formed
  | _, .done, left, e, _, hleft, h => by
      obtain rfl := Option.some.inj h
      exact hleft
  | _, .more mark op _ operand rest, left, e, hspelled, hleft, h => by
      obtain ⟨right, hright, hrest⟩ := Option.bind_eq_some_iff.1 h
      have hoperand := operand.formed (fun t ht => hspelled t
        (List.mem_cons_of_mem _ (List.mem_append_left _ ht))) hright
      have hbinary : (Expr.binary op left right).Everywhere Formed := ⟨trivial, hleft, hoperand⟩
      exact rest.formed (fun t ht => hspelled t (List.mem_cons_of_mem _ (List.mem_append_right _ ht)))
        hbinary hrest
  termination_by structural _ d => d

theorem Arguments.formed : ∀ (d : Arguments) {es : List Expr},
    (∀ t ∈ d.tokens, Token.Spelled t.kind t.value) → d.trees = some es → EverywhereAll Formed es
  | .empty, es, _, h => by
      obtain rfl := Option.some.inj h
      trivial
  | .listed first rest, es, hspelled, h => by
      obtain ⟨e, he, hmore⟩ := Option.bind_eq_some_iff.1 h
      obtain ⟨more, hes, rfl⟩ := Option.map_eq_some_iff.1 hmore
      exact ⟨first.formed (fun t ht => hspelled t (List.mem_append_left _ ht)) he,
        rest.formed (fun t ht => hspelled t (List.mem_append_right _ ht)) hes⟩
  termination_by structural d => d

theorem MoreArguments.formed : ∀ (d : MoreArguments) {es : List Expr},
    (∀ t ∈ d.tokens, Token.Spelled t.kind t.value) → d.trees = some es → EverywhereAll Formed es
  | .done, es, _, h => by
      obtain rfl := Option.some.inj h
      trivial
  | .more _ _ argument rest, es, hspelled, h => by
      obtain ⟨e, he, hmore⟩ := Option.bind_eq_some_iff.1 h
      obtain ⟨more, hes, rfl⟩ := Option.map_eq_some_iff.1 hmore
      exact ⟨argument.formed (fun t ht => hspelled t
          (List.mem_cons_of_mem _ (List.mem_append_left _ ht))) he,
        rest.formed (fun t ht => hspelled t (List.mem_cons_of_mem _ (List.mem_append_right _ ht))) hes⟩
  termination_by structural d => d

end

/-- Every parsed expression is formed from tokens. -/
theorem formed_parse {cs : List Char} {e : Expr} (h : parse cs = .ok e) : e.Everywhere Formed := by
  rw [parse] at h
  split at h
  · cases h
  · rename_i ts hscan
    obtain ⟨⟨last, hlast, hts⟩, hspelled⟩ := Token.exists_sentence hscan
    rw [hts] at h
    have hkinds : ∀ t ∈ Token.sentence ts, t.kind ≠ .eof := fun _ => Token.kind_of_mem_sentence
    rcases ofTokens_cases hkinds hlast (String.ofList cs) with
      ⟨e', d, he', htokens, -, htree⟩ | ⟨f, hf, -⟩
    · obtain rfl : e' = e := Except.ok.inj (he'.symm.trans h)
      exact d.formed (htokens ▸ hspelled) htree
    · cases hf.symm.trans h

/-! ## Texts of expressions -/

/-- A dotted name does not end with a point. -/
theorem getLast?_dottedName (cs : List Char) : (Token.dottedName cs).getLast? ≠ some '.' := by
  fun_induction Token.dottedName cs with
  | case1 => exact Option.some_ne_none _ |>.symm
  | case2 c rest hword ih =>
      cases hrest : Token.dottedName rest with
      | nil =>
          rintro hpoint
          obtain rfl := Option.some.inj hpoint
          exact absurd hword (by decide +kernel)
      | cons d name =>
          rw [hrest] at ih
          rwa [List.getLast?_cons_cons]
  | case3 c hword hpoint d rest hnext ih =>
      have hhead : Token.dottedName (d :: rest) = d :: Token.dottedName rest := by
        rw [Token.dottedName.eq_def]
        exact if_pos hnext
      rw [hhead] at ih ⊢
      rwa [List.getLast?_cons_cons]
  | case4 => exact Option.some_ne_none _ |>.symm
  | case5 => exact Option.some_ne_none _ |>.symm
  | case6 => exact Option.some_ne_none _ |>.symm

/-- A placeholder is written by the name that it was read from. -/
theorem toList_placeholder {path : List Char} (hpath : Token.dottedName path = path)
    {name : String} {property : Option String} {p q : Nat}
    (h : Expr.placeholder name property p = placeholderOf path q) :
    (placeholderText name property).toList = '@' :: path := by
  have hcut : path.takeWhile (· != '.') ++ path.dropWhile (· != '.') = path :=
    List.takeWhile_append_dropWhile
  simp only [placeholderOf, Text.cutAtChar, placeholder.injEq] at h
  obtain ⟨rfl, rfl, -⟩ := h
  obtain ⟨rest, hrest⟩ : ∃ rest, path.dropWhile (· != '.') = rest := ⟨_, rfl⟩
  simp only [hrest] at hcut ⊢
  cases rest with
  | nil =>
      rw [List.append_nil] at hcut
      simp [placeholderText, hcut]
  | cons c property =>
      have hpoint : c = '.' := by
        have hhead := List.head_dropWhile_not (p := (· != '.')) (l := path) (by simp [hrest])
        simpa [hrest] using hhead
      have hproperty : property ≠ [] := by
        rintro rfl
        have hlast := getLast?_dottedName path
        rw [hpath, ← hcut, hpoint] at hlast
        exact hlast List.getLast?_concat
      rw [hpoint] at hcut
      simp [placeholderText, hproperty, hcut]

section

variable {p : Nat}

theorem toList_render_text (value : String) :
    (Expr.text value p).render.toList = '"' :: (value.toList ++ ['"']) := by
  simp [render]

theorem toList_render_variable (name : String) :
    (Expr.variable name p).render.toList = '$' :: name.toList := by
  simp [render]

theorem toList_render_unary (op : UnaryOp) (operand : Expr) :
    (Expr.unary op operand p).render.toList =
      '(' :: (op.symbol.toList ++ operand.render.toList ++ [')']) := by
  simp [render]

theorem toList_render_binary (op : BinaryOp) (left right : Expr) :
    (Expr.binary op left right).render.toList =
      '(' :: (left.render.toList ++ ' ' :: (op.symbol.toList ++ [' ']) ++ right.render.toList ++
        [')']) := by
  simp [render]

theorem toList_render_call (f : Function) (e : Expr) (es : List Expr) :
    (Expr.call f (e :: es) p).render.toList =
      f.name.toList ++ '(' :: (e.render.toList ++
        (es.flatMap (fun e => ',' :: ' ' :: e.render.toList) ++ [')'])) := by
  have harguments : ∀ (e : Expr) (es : List Expr),
      [',', ' '].intercalate ((renderAll (e :: es)).map String.toList) =
        e.render.toList ++ es.flatMap (fun e => ',' :: ' ' :: e.render.toList) := by
    intro e es
    induction es generalizing e with
    | nil => simp [renderAll]
    | cons e' es ih =>
        rw [renderAll, renderAll, List.map_cons, List.map_cons, List.intercalate_cons_cons,
          ← List.map_cons, ← renderAll, ih]
        simp
  simp [render, String.toList_intercalate, harguments]

end

/-! ## Phrases of an expression -/

/-- A phrase that is read as the expression, up to positions. -/
def Phrase.Means {level : Nat} (d : Phrase level) (e : Expr) : Prop :=
  d.Callable ∧ ∃ e', d.tree = some e' ∧ e'.unplaced = e.unplaced

/-- A text at a position in front of another is scanned to a phrase of the expression. -/
def Written (level : Nat) (cs : List Char) (e : Expr) (position : Nat) (rest : List Char) : Prop :=
  ∃ d : Phrase level, d.Means e ∧ Token.Scans cs d.tokens position rest

/-- A text at a position in front of another is scanned to expressions behind commas. -/
def WrittenMore (cs : List Char) (es : List Expr) (position : Nat) (rest : List Char) : Prop :=
  ∃ d : MoreArguments, d.Callable ∧ (∃ es', d.trees = some es' ∧ unplacedAll es' = unplacedAll es) ∧
    Token.Scans cs d.tokens position rest

theorem Phrase.raised_eq {level : Nat} (d : Phrase level) (levels : Nat) :
    (d.raised levels).tokens = d.tokens ∧ (d.raised levels).tree = d.tree ∧
      (d.Callable → (d.raised levels).Callable) := by
  induction levels with
  | zero => exact ⟨rfl, rfl, id⟩
  | succ levels ih =>
      obtain ⟨htokens, htree, hcallable⟩ := ih
      refine ⟨?_, ?_, fun h => ⟨hcallable h, trivial⟩⟩
      · rw [raised, tokens, htokens, Joined.tokens, List.append_nil]
      · rw [raised, tree, htree]
        exact Option.bind_fun_some _

section

variable {level : Nat} {cs rest : List Char} {e : Expr} {position : Nat}

/-- A phrase of a level is one of each higher level. -/
theorem Written.mono {level' : Nat} (h : Written level cs e position rest) (hle : level ≤ level') :
    Written level' cs e position rest := by
  obtain ⟨levels, rfl⟩ := Nat.exists_eq_add_of_le hle
  obtain ⟨d, ⟨hcallable, hmeans⟩, hscans⟩ := h
  obtain ⟨htokens, htree, hraised⟩ := d.raised_eq levels
  exact ⟨d.raised levels, ⟨hraised hcallable, htree ▸ hmeans⟩, htokens ▸ hscans⟩

theorem scans_opening (position : Nat) (rest : List Char) :
    ∃ t : Token, t.kind = .leftParen ∧ Token.Scans ['('] [t] position rest :=
  ⟨⟨.leftParen, ['('], position, 1⟩, rfl, .lexeme (by decide) rfl⟩

theorem scans_closing (position : Nat) (rest : List Char) :
    ∃ t : Token, t.kind = .rightParen ∧ Token.Scans [')'] [t] position rest :=
  ⟨⟨.rightParen, [')'], position, 1⟩, rfl, .lexeme (by decide) rfl⟩

theorem Written.group (h : Written 6 cs e (position + 1) (')' :: rest)) :
    Written 0 ('(' :: (cs ++ [')'])) e position rest := by
  obtain ⟨d, ⟨hcallable, hmeans⟩, hscans⟩ := h
  obtain ⟨opening, hopening, hopens⟩ := scans_opening position (cs ++ [')'] ++ rest)
  obtain ⟨closing, hclosing, hcloses⟩ := scans_closing (position + 1 + cs.length) rest
  exact ⟨.group opening hopening d closing hclosing, ⟨hcallable, hmeans⟩,
    hopens.append (hscans.append hcloses)⟩

/-- A sign is a lexeme unless an equals sign follows. -/
theorem scans_sign (op : UnaryOp) (hcs : cs.head? ≠ some '=') (position : Nat) :
    ∃ mark : Token, (mark.kind, op) ∈ signs ∧ Token.Scans op.symbol.toList [mark] position cs := by
  cases op with
  | not => exact ⟨⟨.not, ['!'], position, 1⟩, .head _, Token.scans_not hcs⟩
  | negate =>
      exact ⟨⟨.minus, ['-'], position, 1⟩, .tail _ (.head _), .lexeme (by decide) rfl⟩
  | plus =>
      exact ⟨⟨.plus, ['+'], position, 1⟩, .tail _ (.tail _ (.head _)), .lexeme (by decide) rfl⟩

theorem Written.signed {op : UnaryOp}
    (h : Written 0 cs e (position + op.symbol.toList.length) rest)
    (hcs : (cs ++ rest).head? ≠ some '=') (p : Nat) :
    Written 0 (op.symbol.toList ++ cs) (.unary op e p) position rest := by
  obtain ⟨d, ⟨hcallable, e', htree, he'⟩, hscans⟩ := h
  obtain ⟨mark, hmark, hsign⟩ := scans_sign op hcs position
  refine ⟨.signed mark op hmark d, ⟨hcallable, .unary op e' mark.position, ?_, ?_⟩,
    hsign.append hscans⟩
  · rw [Phrase.tree, htree, Option.map_some]
  · rw [unplaced, unplaced, he']

/-- An operator between blanks is a lexeme that joins phrases. -/
theorem scans_operator (op : BinaryOp) (position : Nat) (rest : List Char) :
    ∃ level ≤ 5, ∃ mark : Token, (mark.kind, op) ∈ joiners (level + 1) ∧
      Token.Scans (' ' :: (op.symbol.toList ++ [' '])) [mark] position rest := by
  have hpiece : ∀ (c : Char) (used : List Char) (kind : TokenKind), Text.isBlank c = false →
      Token.lexeme c (used ++ ' ' :: rest) = .ok ⟨kind, c :: used, used.length + 1⟩ →
        Token.Scans (' ' :: (c :: used ++ [' ']))
          [⟨kind, c :: used, position + 1, used.length + 1⟩] position rest := by
    intro c used kind hc hlexeme
    have hmark : Token.Scans (c :: used) [⟨kind, c :: used, position + 1, used.length + 1⟩]
        (position + 1) ([' '] ++ rest) := .lexeme hc hlexeme
    have hfirst : Token.Scans [' '] [] position (c :: used ++ [' '] ++ rest) := .blank
    exact hfirst.append (hmark.append .blank)
  cases op with
  | or => exact ⟨5, by decide, _, .head _, hpiece '|' ['|'] .or (by decide) rfl⟩
  | and => exact ⟨4, by decide, _, .head _, hpiece '&' ['&'] .and (by decide) rfl⟩
  | equal => exact ⟨3, by decide, _, .head _, hpiece '=' ['='] .equal (by decide) rfl⟩
  | notEqual =>
      exact ⟨3, by decide, _, .tail _ (.head _), hpiece '!' ['='] .notEqual (by decide) rfl⟩
  | contains =>
      exact ⟨3, by decide, _, .tail _ (.tail _ (.head _)),
        hpiece 'c' "ontains".toList .contains (by decide) rfl⟩
  | matching =>
      exact ⟨3, by decide, _, .tail _ (.tail _ (.tail _ (.head _))),
        hpiece 'm' "atches".toList .matching (by decide) rfl⟩
  | less => exact ⟨2, by decide, _, .head _, hpiece '<' [] .less (by decide) rfl⟩
  | lessEqual =>
      exact ⟨2, by decide, _, .tail _ (.head _), hpiece '<' ['='] .lessEqual (by decide) rfl⟩
  | greater =>
      exact ⟨2, by decide, _, .tail _ (.tail _ (.head _)), hpiece '>' [] .greater (by decide) rfl⟩
  | greaterEqual =>
      exact ⟨2, by decide, _, .tail _ (.tail _ (.tail _ (.head _))),
        hpiece '>' ['='] .greaterEqual (by decide) rfl⟩
  | add => exact ⟨1, by decide, _, .head _, hpiece '+' [] .plus (by decide) rfl⟩
  | subtract => exact ⟨1, by decide, _, .tail _ (.head _), hpiece '-' [] .minus (by decide) rfl⟩
  | multiply => exact ⟨0, by decide, _, .head _, hpiece '*' [] .multiply (by decide) rfl⟩
  | divide => exact ⟨0, by decide, _, .tail _ (.head _), hpiece '/' [] .divide (by decide) rfl⟩
  | modulo =>
      exact ⟨0, by decide, _, .tail _ (.tail _ (.head _)), hpiece '%' [] .modulo (by decide) rfl⟩

theorem Written.joined {op : BinaryOp} {left right : Expr} {before after : List Char}
    (hleft : Written 0 before left position (' ' :: (op.symbol.toList ++ [' ']) ++ after ++ rest))
    (hright : Written 0 after right
      (position + before.length + (' ' :: (op.symbol.toList ++ [' '])).length) rest) :
    Written 6 (before ++ ' ' :: (op.symbol.toList ++ [' ']) ++ after) (.binary op left right)
      position rest := by
  obtain ⟨level, hlevel, mark, hmark, hoperator⟩ :=
    scans_operator op (position + before.length) (after ++ rest)
  obtain ⟨d, ⟨hd, left', hleft', hsame⟩, hbefore⟩ := hleft.mono (Nat.zero_le level)
  obtain ⟨d', ⟨hd', right', hright', hsame'⟩, hafter⟩ := hright.mono (Nat.zero_le level)
  have hjoined : Written (level + 1) (before ++ ' ' :: (op.symbol.toList ++ [' ']) ++ after)
      (.binary op left right) position rest := by
    refine ⟨.joined d (.more mark op hmark d' .done), ⟨⟨hd, hd', trivial⟩,
      .binary op left' right', ?_, ?_⟩, ?_⟩
    · rw [Phrase.tree, hleft', Option.bind_some, Joined.tree, hright', Option.bind_some, Joined.tree]
    · rw [unplaced, unplaced, hsame, hsame']
    · rw [Phrase.tokens, Joined.tokens, Joined.tokens, List.append_nil, List.append_assoc]
      exact hbefore.append (hoperator.append hafter)
  exact hjoined.mono (by omega)

theorem WrittenMore.nil : WrittenMore [] [] position rest :=
  ⟨.done, trivial, ⟨[], rfl, rfl⟩, .nil⟩

theorem WrittenMore.cons {es : List Expr} {more : List Char}
    (h : Written 0 cs e (position + 2) (more ++ rest))
    (hmore : WrittenMore more es (position + 2 + cs.length) rest) :
    WrittenMore (',' :: ' ' :: (cs ++ more)) (e :: es) position rest := by
  obtain ⟨d, ⟨hd, e', he', hsame⟩, hscans⟩ := h.mono (Nat.zero_le 6)
  obtain ⟨ds, hds, ⟨es', hes', hsames⟩, hscansMore⟩ := hmore
  have hcomma : Token.Scans [','] [⟨.comma, [','], position, 1⟩] position
      ([' '] ++ (cs ++ more) ++ rest) := .lexeme (by decide) rfl
  have hblank : Token.Scans [' '] [] (position + 1) (cs ++ more ++ rest) := .blank
  refine ⟨.more ⟨.comma, [','], position, 1⟩ rfl d ds, ⟨hd, hds⟩, ⟨e' :: es', ?_, ?_⟩, ?_⟩
  · rw [MoreArguments.trees, he', Option.bind_some, hes', Option.map_some]
  · rw [unplacedAll, unplacedAll, hsame, hsames]
  · exact hcomma.append (hblank.append (hscans.append hscansMore))

theorem scans_function (f : Function) (position : Nat) (rest : List Char) :
    ∃ t : Token, t.kind = .identifier ∧ Function.ofName? t.value = some f ∧
      Token.Scans f.name.toList [t] position ('(' :: rest) := by
  cases f with
  | floor => exact ⟨⟨.identifier, "floor".toList, position, 5⟩, rfl, rfl, .lexeme (by decide) rfl⟩
  | ceil => exact ⟨⟨.identifier, "ceil".toList, position, 4⟩, rfl, rfl, .lexeme (by decide) rfl⟩
  | round => exact ⟨⟨.identifier, "round".toList, position, 5⟩, rfl, rfl, .lexeme (by decide) rfl⟩
  | abs => exact ⟨⟨.identifier, "abs".toList, position, 3⟩, rfl, rfl, .lexeme (by decide) rfl⟩
  | min => exact ⟨⟨.identifier, "min".toList, position, 3⟩, rfl, rfl, .lexeme (by decide) rfl⟩
  | max => exact ⟨⟨.identifier, "max".toList, position, 3⟩, rfl, rfl, .lexeme (by decide) rfl⟩

/-- Every function takes an argument. -/
theorem takes_zero (f : Function) : f.takes 0 = false := by cases f <;> rfl

theorem length_unplacedAll (es : List Expr) : (unplacedAll es).length = es.length := by
  induction es with
  | nil => rfl
  | cons e es ih => rw [unplacedAll, List.length_cons, List.length_cons, ih]

theorem Written.call {f : Function} {es : List Expr} {more : List Char}
    (htakes : f.takes (e :: es).length = true)
    (h : Written 0 cs e (position + f.name.toList.length + 1) (more ++ [')'] ++ rest))
    (hmore : WrittenMore more es (position + f.name.toList.length + 1 + cs.length) (')' :: rest))
    (p : Nat) :
    Written 0 (f.name.toList ++ '(' :: (cs ++ (more ++ [')']))) (.call f (e :: es) p) position rest := by
  obtain ⟨d, ⟨hd, e', he', hsame⟩, hscans⟩ := h.mono (Nat.zero_le 6)
  obtain ⟨ds, hds, ⟨es', hes', hsames⟩, hscansMore⟩ := hmore
  obtain ⟨name, hname, hfunction, hnames⟩ :=
    scans_function f position (cs ++ (more ++ [')']) ++ rest)
  obtain ⟨opening, hopening, hopens⟩ :=
    scans_opening (position + f.name.toList.length) (cs ++ (more ++ [')']) ++ rest)
  obtain ⟨closing, hclosing, hcloses⟩ :=
    scans_closing (position + f.name.toList.length + 1 + cs.length + more.length) rest
  have hlength : es'.length = es.length := by
    rw [← length_unplacedAll, hsames, length_unplacedAll]
  have hcount : f.takes (ds.count + 1) = true := by
    rwa [← ds.length_trees hes', hlength]
  have hcall : callTree name (e' :: es') = some (.call f (e' :: es') name.position) := by
    rw [callTree, hfunction]
    exact if_pos (by rwa [List.length_cons, hlength])
  refine ⟨.call name hname opening hopening (.listed d ds) closing hclosing,
    ⟨⟨⟨f, hfunction, hcount⟩, hd, hds⟩, .call f (e' :: es') name.position, ?_, ?_⟩, ?_⟩
  · rw [Phrase.tree, Arguments.trees, he', Option.bind_some, hes', Option.map_some, Option.bind_some,
      hcall]
  · rw [unplaced, unplaced, unplacedAll, unplacedAll, hsame, hsames]
  · rw [Phrase.tokens, Arguments.tokens, List.append_assoc]
    have harguments := hscans.append (hscansMore.append hcloses)
    exact hnames.append (hopens.append harguments)

/-- The text of a plain expression does not begin with an equals sign. -/
theorem exists_head : ∀ {e : Expr}, e.Everywhere Formed → e.Everywhere Plain →
    ∃ c cs, e.render.toList = c :: cs ∧ c ≠ '='
  | .number value p, _, ⟨n, hn⟩ => by
      obtain ⟨c, cs, hdigits⟩ := List.exists_cons_of_ne_nil (Nat.toDigits_ne_nil (b := 10) (n := n))
      refine ⟨c, cs, (Number.numberText_natural hn).trans hdigits, ?_⟩
      have hc : c.isDigit = true := Number.isDigit_toDigits c (hdigits ▸ List.mem_cons_self)
      exact Number.forall_isDigit (P := (· ≠ '=')) (by decide) hc
  | .text value p, _, _ => ⟨'"', _, toList_render_text value, by decide⟩
  | .variable name p, _, _ => ⟨'$', _, toList_render_variable name, by decide⟩
  | .placeholder name property p, ⟨path, hpath, _, heq⟩, _ =>
      ⟨'@', path, toList_placeholder hpath heq, by decide⟩
  | .unary op operand p, _, _ => ⟨'(', _, toList_render_unary op operand, by decide⟩
  | .binary op left right, _, _ => ⟨'(', _, toList_render_binary op left right, by decide⟩
  | .call f [] p, ⟨htakes, _⟩, _ => nomatch (takes_zero f).symm.trans htakes
  | .call f (e :: es) p, _, _ => by
      rw [toList_render_call]
      cases f <;> exact ⟨_, _, rfl, by decide⟩

theorem Written.leaf {t : Token} (ht : t.kind ∈ leaves) (e' : Expr) (htree : leafTree t = some e')
    (hsame : e'.unplaced = e.unplaced) (h : Token.Scans cs [t] position rest) :
    Written 0 cs e position rest :=
  ⟨.leaf t ht, ⟨trivial, e', htree, hsame⟩, h⟩

end

mutual

/-- The text of an expression is scanned to a phrase of it. -/
theorem written_render : ∀ (e : Expr), e.Everywhere Formed → e.Everywhere Plain →
    ∀ {position : Nat} {rest : List Char}, Token.Delimited rest →
      Written 0 e.render.toList e position rest
  | .number value p, hformed, ⟨n, hn⟩, position, rest, hrest => by
      have hdigits : ∀ c ∈ Nat.toDigits 10 n, Text.isDigit c = true := fun c hc =>
        Number.forall_isDigit (P := (Text.isDigit · = true)) rfl (Number.isDigit_toDigits c hc)
      rw [render, Number.numberText_natural hn]
      refine .leaf (by simp [leaves]) (.number value position) ?_ rfl
        (Token.scans_digits hdigits Nat.toDigits_ne_nil hrest)
      rw [leafTree, Number.readFloat_toDigits, Number.ofDecimal_natural hn hformed]
      rfl
  | .text value p, _, hplain, position, rest, _ => by
      rw [toList_render_text]
      refine .leaf (by simp [leaves]) (.text value position) ?_ rfl
        (Token.scans_string hplain)
      rw [leafTree, Token.text, String.ofList_toList]
  | .variable name p, hformed, _, position, rest, hrest => by
      rw [toList_render_variable]
      refine .leaf (by simp [leaves]) (.variable name position) ?_ rfl
        (Token.scans_variable hformed hrest)
      rw [leafTree, Token.text, String.ofList_toList]
  | .placeholder name property p, ⟨path, hpath, hne, heq⟩, _, position, rest, hrest => by
      rw [render, toList_placeholder hpath heq]
      refine .leaf (by simp [leaves]) (placeholderOf path position) ?_ ?_
        (Token.scans_placeholder hpath hne hrest)
      · rw [leafTree]
      · rw [heq]
        rfl
  | .unary op operand p, ⟨_, hformed⟩, ⟨_, hplain⟩, position, rest, hrest => by
      rw [toList_render_unary]
      obtain ⟨c, cs, htext, hc⟩ := exists_head hformed hplain
      have hoperand : Written 0 operand.render.toList operand
          (position + 1 + op.symbol.toList.length) (')' :: rest) :=
        written_render operand hformed hplain (by simp [Token.Delimited])
      exact .group ((hoperand.signed (by simpa [htext] using hc) p).mono (Nat.zero_le 6))
  | .binary op left right, ⟨_, hformed, hformed'⟩, ⟨_, hplain, hplain'⟩, position, rest, hrest => by
      rw [toList_render_binary]
      exact .group (.joined (written_render left hformed hplain (by simp [Token.Delimited]))
        (written_render right hformed' hplain' (by simp [Token.Delimited])))
  | .call f [] p, ⟨htakes, _⟩, _, _, _, _ => nomatch (takes_zero f).symm.trans htakes
  | .call f (e :: es) p, ⟨htakes, hformed, hformed'⟩, ⟨_, hplain, hplain'⟩, position, rest, hrest => by
      rw [toList_render_call]
      have hmore : WrittenMore (es.flatMap fun e => ',' :: ' ' :: e.render.toList) es
          (position + f.name.toList.length + 1 + e.render.toList.length) (')' :: rest) :=
        written_renderMore es hformed' hplain' (by simp [Token.Delimited])
      refine .call htakes (written_render e hformed hplain ?_) hmore p
      cases es <;> simp [Token.Delimited]

theorem written_renderMore : ∀ (es : List Expr), EverywhereAll Formed es → EverywhereAll Plain es →
    ∀ {position : Nat} {rest : List Char}, Token.Delimited rest →
      WrittenMore (es.flatMap fun e => ',' :: ' ' :: e.render.toList) es position rest
  | [], _, _, _, _, _ => .nil
  | e :: es, ⟨hformed, hformed'⟩, ⟨hplain, hplain'⟩, position, rest, hrest => by
      refine .cons (written_render e hformed hplain ?_) (written_renderMore es hformed' hplain' hrest)
      cases es with
      | nil => exact hrest
      | cons e' es => simp [Token.Delimited]

end

/-- The text of a parsed expression whose literals are plain is parsed to the expression again, up
to positions. So no two such expressions that differ by more than positions have the same text. -/
theorem parse_render {cs : List Char} {e : Expr} (h : parse cs = .ok e)
    (hplain : e.Everywhere Plain) :
    (∃ e', parse e.render.toList = .ok e' ∧ e'.unplaced = e.unplaced) ∧
    ∀ (cs' : List Char) (e' : Expr), parse cs' = .ok e' → e'.Everywhere Plain →
      e'.render = e.render → e'.unplaced = e.unplaced := by
  have hread : ∀ {cs : List Char} {e : Expr}, parse cs = .ok e → e.Everywhere Plain →
      ∃ e', parse e.render.toList = .ok e' ∧ e'.unplaced = e.unplaced := by
    intro cs e h hplain
    have hwritten : Written 0 e.render.toList e 0 [] :=
      written_render e (formed_parse h) hplain nofun
    obtain ⟨d, ⟨hcallable, e', htree, hsame⟩, hscans⟩ := hwritten.mono (Nat.zero_le 6)
    have hscan : Token.scan e.render.toList =
        .ok (d.tokens ++ [⟨.eof, [], e.render.toList.length, 0⟩]) := by
      rw [Token.Scans, List.append_nil, Nat.zero_add] at hscans
      exact hscans
    exact ⟨e', parse_of_phrase d hscan rfl htree, hsame⟩
  refine ⟨hread h hplain, fun cs' e' h' hplain' hrender => ?_⟩
  obtain ⟨e₁, he₁, hsame₁⟩ := hread h hplain
  obtain ⟨e₂, he₂, hsame₂⟩ := hread h' hplain'
  rw [hrender] at he₂
  obtain rfl := Except.ok.inj (he₁.symm.trans he₂)
  exact hsame₂.symm.trans hsame₁

/-- A bare word is written as a quoted text and an equals sign twice, and both are read back. -/
theorem parse_render_of_word :
    parse "!a = $.b".toList =
      .ok (.binary .equal (.unary .not (.text "a" 1) 0) (.variable ".b" 5)) ∧
    ∃ e', parse "((!\"a\") == $.b)".toList = .ok e' ∧
      e'.unplaced = .binary .equal (.unary .not (.text "a" 0) 0) (.variable ".b" 0) := by
  let not : Token := ⟨.not, ['!'], 0, 1⟩
  let a : Token := ⟨.identifier, ['a'], 1, 1⟩
  let equal : Token := ⟨.equal, ['='], 3, 1⟩
  let b : Token := ⟨.variable, ".b".toList, 5, 3⟩
  let d : Phrase 6 := Phrase.raised (.joined
    (Phrase.raised (.signed not .not (by decide) (.leaf a (by decide))) 3)
    (.more equal .equal (by decide) (Phrase.raised (.leaf b (by decide)) 3) .done)) 2
  have hscan : Token.scan "!a = $.b".toList = .ok (d.tokens ++ [⟨.eof, [], 8, 0⟩]) := by rfl
  have hparse : parse "!a = $.b".toList =
      .ok (.binary .equal (.unary .not (.text "a" 1) 0) (.variable ".b" 5)) :=
    parse_of_phrase d hscan rfl rfl
  have hplain : (Expr.binary .equal (.unary .not (.text "a" 1) 0) (.variable ".b" 5)).Everywhere
      Plain := ⟨trivial, ⟨trivial, by decide, by decide⟩, trivial⟩
  exact ⟨hparse, (parse_render hparse hplain).1⟩

end RandomTables.Expr
