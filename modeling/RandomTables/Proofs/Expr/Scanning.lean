-- SUMMARY: What scanned tokens are like: names, numerals, and one token for the end of the text.
import RandomTables.Proofs.Expr.Tokenizing

/-!
# Scanned tokens

The tokens of a text end with the token for its end, which occurs nowhere else. A name is scanned as
it is spelled, and a numeral has digits and points only.
-/
namespace RandomTables.Token

/-! ## Values of tokens -/

/-- What the value of a scanned token of a kind is like. No lexeme is the end of the text. -/
def Spelled (kind : TokenKind) (value : List Char) : Prop :=
  match kind with
  | .variable => dottedName value = value
  | .placeholder => dottedName value = value ∧ value ≠ []
  | .number => ∀ c ∈ value, Text.isDigit c = true ∨ c = '.'
  | .eof => False
  | _ => True

theorem dottedName_of_dotted {name : List Char} (h : Dotted name) : dottedName name = name := by
  have hprefix := longest_dottedName h []
  rw [List.append_nil] at hprefix
  exact (isPrefix_dottedName name).eq_of_length_le hprefix.length_le

/-- A numeral has digits, and points between them. -/
theorem mem_numeral {cs : List Char} (h : Numeral cs) :
    ∀ c ∈ cs, Text.isDigit c = true ∨ c = '.' := by
  intro c hc
  cases h with
  | whole h hne => exact .inl (h c hc)
  | point h hfraction hne =>
      rcases List.mem_append.1 hc with hc | hc
      · exact .inl (h c hc)
      · exact (List.mem_cons.1 hc).elim .inr fun hc => .inl (hfraction c hc)

theorem spelled_of_written {kind : TokenKind} {value used : List Char}
    (h : Written kind value used) : Spelled kind value := by
  cases h with
  | number h => exact mem_numeral h
  | reference h => exact dottedName_of_dotted h
  | placeholder h hne => exact ⟨dottedName_of_dotted h, hne⟩
  | word hc hcs =>
      unfold wordKind
      dsimp only
      split
      · trivial
      · split <;> trivial
  | string hquote h => trivial
  | operator h =>
      have hall : ∀ op ∈ operators, Spelled op.2 op.1 := by simp [operators, Spelled]
      exact hall _ h

theorem spelled_lexeme {c : Char} {rest : List Char} {l : Lexeme} (h : lexeme c rest = .ok l) :
    Spelled l.kind l.value := by
  obtain ⟨used, -, -, hwritten⟩ := written_of_lexeme h
  exact spelled_of_written hwritten

/-! ## The end of the text -/

/-- The tokens in front of the one for the end of the text. -/
def sentence (ts : List Token) : List Token := ts.filter (·.kind ≠ .eof)

/-- Scanned tokens are a sentence and the end of the text. -/
theorem exists_sentence {cs : List Char} {position skip : Nat} {ts : List Token}
    (h : scanFrom cs position skip = .ok ts) :
    (∃ last, last.kind = .eof ∧ ts = sentence ts ++ [last]) ∧
      ∀ t ∈ sentence ts, Spelled t.kind t.value := by
  fun_induction scanFrom cs position skip generalizing ts with
  | case1 position skip =>
      cases h
      exact ⟨⟨⟨.eof, [], position, 0⟩, rfl, rfl⟩, by simp [sentence]⟩
  | case2 _ rest position skip ih => exact ih h
  | case3 c rest position hblank ih => exact ih h
  | case4 => cases h
  | case5 c rest position hblank l hl ih =>
      obtain ⟨ts, hts, rfl⟩ : ∃ ts', scanFrom rest (position + 1) (l.size - 1) = .ok ts' ∧
          ⟨l.kind, l.value, position, l.size⟩ :: ts' = ts := by
        rcases hscan : scanFrom rest (position + 1) (l.size - 1) with e | ts'
        · rw [hscan] at h
          cases h
        · rw [hscan] at h
          exact ⟨ts', rfl, Except.ok.inj h⟩
      obtain ⟨⟨last, hlast, hend⟩, hspelled⟩ := ih hts
      have hl := spelled_lexeme hl
      have hkind : l.kind ≠ .eof := by
        intro heof
        rw [heof] at hl
        exact hl
      have hsentence : sentence (⟨l.kind, l.value, position, l.size⟩ :: ts) =
          ⟨l.kind, l.value, position, l.size⟩ :: sentence ts :=
        List.filter_cons_of_pos (by simpa using hkind)
      rw [hsentence]
      refine ⟨⟨last, hlast, ?_⟩, List.forall_mem_cons.2 ⟨hl, hspelled⟩⟩
      rw [List.cons_append, ← hend]

theorem kind_of_mem_sentence {ts : List Token} {t : Token} (h : t ∈ sentence ts) :
    t.kind ≠ .eof := by
  simpa using (List.mem_filter.1 h).2

end RandomTables.Token
