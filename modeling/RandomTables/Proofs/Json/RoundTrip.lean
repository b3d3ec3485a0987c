-- SUMMARY: Every proper JSON value is read back from its text, however the text is indented.
import Mathlib.Data.List.Forall2
import RandomTables.Proofs.Number.Shortest

/-!
# Reading what was written

The reader undoes the writer, value by value: whatever follows the text of a value, reading takes the
text and gives the value, and needs no more fuel than the text is long. The breaks and blanks between
the items are skipped.
-/
namespace RandomTables.Json

open Text

/-! ## Spaces -/

theorem rest_skipSpaces (position : Nat) {spaces rest : List Nat}
    (hspaces : ∀ code ∈ spaces, Cursor.isSpace code = true)
    (hrest : ∀ code ∈ rest.head?, Cursor.isSpace code = false) :
    ∃ after, Cursor.skipSpaces ⟨position, spaces ++ rest⟩ = ⟨after, rest⟩ := by
  obtain ⟨htake, hdrop⟩ := Number.span_eq hspaces hrest
  exact ⟨position + spaces.length, by rw [Cursor.skipSpaces]; simp only [htake, hdrop]⟩

/-- Code points that are spaces, and so end a number as well. -/
def Spaces (codes : List Nat) : Prop := ∀ code ∈ codes, code = 32 ∨ code = 10

theorem spaces_nil : Spaces [] := fun _ h => nomatch h

theorem Spaces.isSpace {codes : List Nat} (h : Spaces codes) :
    ∀ code ∈ codes, Cursor.isSpace code = true := by
  intro code hcode
  rcases h code hcode with rfl | rfl <;> rfl

/-- Code points that begin with no space and no closing bracket. -/
def Tight (codes : List Nat) : Prop :=
  ∃ code tail, codes = code :: tail ∧ Cursor.isSpace code = false ∧ code ≠ 93 ∧ code ≠ 125

theorem Tight.head_append {codes : List Nat} (h : Tight codes) (rest : List Nat) :
    ∀ code ∈ (codes ++ rest).head?, Cursor.isSpace code = false := by
  obtain ⟨code, tail, rfl, hcode, -⟩ := h
  rintro first ⟨⟩
  exact hcode

/-- What follows the last item: spaces and the closing bracket. -/
theorem delimited_of_spaces {spaces rest : List Nat} (h : Spaces spaces) {code : Nat}
    (hcode : code = 93 ∨ code = 125) : Delimited (spaces ++ code :: rest) := by
  intro first hfirst
  cases spaces with
  | nil =>
      cases hfirst
      rcases hcode with rfl | rfl <;> decide
  | cons space spaces =>
      cases hfirst
      rcases h first List.mem_cons_self with rfl | rfl <;> decide

theorem delimited_comma (rest : List Nat) : Delimited (44 :: rest) := by
  rintro first ⟨⟩
  decide

/-! ## Written values -/

/-- Code points from which a value is read. Whatever is no part of a number may follow them. -/
structure Written (j : Json) (codes : List Nat) : Prop where
  tight : Tight codes
  reads : ∀ fuel position rest, codes.length ≤ fuel → Delimited rest →
    ∃ after, readValue fuel ⟨position, codes ++ rest⟩ = .ok (j, ⟨after, rest⟩)

/-- The code points that begin a text, an object or an array. -/
abbrev Opens (code : Nat) : Prop := code = 34 ∨ code = 123 ∨ code = 91

/-- A value that begins like no text, object or array is a word or a number. -/
theorem readValue_scalar {fuel position code : Nat} {tail : List Nat} (h : ¬ Opens code) :
    readValue (fuel + 1) ⟨position, code :: tail⟩ =
      match readWord ⟨position, code :: tail⟩ with
      | some found => .ok found
      | none => readNumber ⟨position, code :: tail⟩ := by
  obtain ⟨hquote, hopen⟩ := not_or.1 h
  obtain ⟨hbrace, hbracket⟩ := not_or.1 hopen
  have hat : ∀ c : Char, code ≠ c.toNat → Cursor.atChar ⟨position, code :: tail⟩ c = false := by
    intro c hc
    simp [Cursor.atChar, hc]
  rw [readValue, hat '"' hquote, hat '\x7b' hbrace, hat '[' hbracket]
  rfl

/-- A word that is a value by itself, with its code points. -/
theorem Written.word {j : Json} {word : String} (first : Nat) (more : List Nat)
    (hcodes : codes word = first :: more) (hlength : word.length = more.length + 1)
    (hspace : Cursor.isSpace first = false) (hhead : first ≠ 93 ∧ first ≠ 125 ∧ ¬ Opens first)
    (hread : ∀ position rest, readWord ⟨position, first :: (more ++ rest)⟩ =
      some (j, Cursor.skip ⟨position, first :: (more ++ rest)⟩ word.length)) :
    Written j (codes word) := by
  rw [hcodes]
  refine ⟨⟨first, more, rfl, hspace, hhead.1, hhead.2.1⟩, fun fuel position rest hfuel _ => ?_⟩
  cases fuel with
  | zero => exact absurd hfuel (by simp)
  | succ fuel =>
      refine ⟨position + word.length, ?_⟩
      rw [List.cons_append, readValue_scalar hhead.2.2, hread, Cursor.skip, hlength,
        List.drop_succ_cons, List.drop_left]

theorem written_null : Written .null (codes "null") :=
  .word 110 [117, 108, 108] (by decide) rfl rfl (by decide) fun _ _ => by
    simp [readWord, Cursor.startsWith]

theorem written_true : Written (.bool true) (codes "true") :=
  .word 116 [114, 117, 101] (by decide) rfl rfl (by decide) fun _ _ => by
    simp [readWord, Cursor.startsWith]

theorem written_false : Written (.bool false) (codes "false") :=
  .word 102 [97, 108, 115, 101] (by decide) rfl rfl (by decide) fun _ _ => by
    simp [readWord, Cursor.startsWith]

theorem written_nan : Written (.float Number.nan) (codes "NaN") :=
  .word 78 [97, 78] (by decide) rfl rfl (by decide) fun _ _ => by
    simp [readWord, Cursor.startsWith]

theorem written_infinity : Written (.float (Number.infinity false)) (codes "Infinity") :=
  .word 73 [110, 102, 105, 110, 105, 116, 121] (by decide) rfl rfl (by decide) fun _ _ => by
    simp [readWord, Cursor.startsWith]

theorem written_negativeInfinity : Written (.float (Number.infinity true)) (codes "-Infinity") :=
  .word 45 [73, 110, 102, 105, 110, 105, 116, 121] (by decide) rfl rfl (by decide) fun _ _ => by
    simp [readWord, Cursor.startsWith]

/-! ## Numbers -/

/-- A numeral begins with a digit, or with a minus and a digit. -/
theorem head_ascii {n : Number.Numeral} (hn : n.Valid) :
    ∃ digit tail, 48 ≤ digit ∧ digit ≤ 57 ∧
      (ascii n.chars = digit :: tail ∨ ascii n.chars = 45 :: digit :: tail) := by
  obtain ⟨c, digits, hwhole⟩ := List.exists_cons_of_ne_nil hn.whole_ne_nil
  have hc : c.isDigit = true := hn.whole_digits c (hwhole ▸ List.mem_cons_self)
  have hbounds : 48 ≤ c.toNat ∧ c.toNat ≤ 57 :=
    Number.forall_isDigit (P := fun c => 48 ≤ c.toNat ∧ c.toNat ≤ 57) (by decide) hc
  refine ⟨c.toNat, ascii (digits ++ n.fractionPart ++ n.exponentPart), hbounds.1, hbounds.2, ?_⟩
  rw [Number.Numeral.chars, Number.Numeral.sign, hwhole]
  cases n.negative with
  | true => exact .inr rfl
  | false => exact .inl rfl

/-- No word begins like a numeral. -/
theorem readWord_of_digit {digit : Nat} (hlow : 48 ≤ digit) (hhigh : digit ≤ 57) (position : Nat)
    (tail : List Nat) :
    readWord ⟨position, digit :: tail⟩ = none ∧
      readWord ⟨position, 45 :: digit :: tail⟩ = none := by
  have hletters : 110 ≠ digit ∧ 116 ≠ digit ∧ 102 ≠ digit ∧ 78 ≠ digit ∧ 73 ≠ digit ∧
      45 ≠ digit := by omega
  simp [readWord, Cursor.startsWith, hletters]

/-- A numeral is read as a value if it is read as a number. -/
theorem Written.numeral {j : Json} {n : Number.Numeral} (hn : n.Valid)
    (hread : ∀ position rest, Delimited rest →
      ∃ after, readNumber ⟨position, ascii n.chars ++ rest⟩ = .ok (j, ⟨after, rest⟩)) :
    Written j (ascii n.chars) := by
  obtain ⟨digit, tail, hlow, hhigh, hchars⟩ := head_ascii hn
  have hfirst : ∃ first more, ascii n.chars = first :: more ∧ (first = digit ∨ first = 45) ∧
      ∀ position rest, readWord ⟨position, ascii n.chars ++ rest⟩ = none := by
    rcases hchars with h | h
    · refine ⟨digit, tail, h, .inl rfl, fun position rest => ?_⟩
      rw [h, List.cons_append]
      exact (readWord_of_digit hlow hhigh position (tail ++ rest)).1
    · refine ⟨45, digit :: tail, h, .inr rfl, fun position rest => ?_⟩
      rw [h, List.cons_append, List.cons_append]
      exact (readWord_of_digit hlow hhigh position (tail ++ rest)).2
  obtain ⟨first, more, hcons, hcode, hword⟩ := hfirst
  have hspace : Cursor.isSpace first = false := by
    simp only [Cursor.isSpace, Bool.or_eq_false_iff, decide_eq_false_iff_not]
    omega
  have hopens : ¬ Opens first := by omega
  refine ⟨⟨first, more, hcons, hspace, by omega, by omega⟩, fun fuel position rest hfuel hrest => ?_⟩
  obtain ⟨after, hafter⟩ := hread position rest hrest
  have hnone := hword position rest
  rw [hcons] at hfuel hnone hafter ⊢
  cases fuel with
  | zero => exact absurd hfuel (by simp)
  | succ fuel =>
      rw [List.cons_append] at hnone hafter ⊢
      refine ⟨after, ?_⟩
      rw [readValue_scalar hopens, hnone, hafter]

theorem codes_of_symbols {cs : List Char} (h : ∀ c ∈ cs, c ∈ Number.Numeral.symbols) :
    cs.map codeOf = ascii cs := by
  have hsame : Number.Numeral.symbols.all (fun c => codeOf c == c.toNat) = true := by decide
  exact List.map_congr_left fun c hc => eq_of_beq (List.all_eq_true.1 hsame c (h c hc))

theorem written_int {n : Int} (h : Number.isWritable n = true) :
    Written (.int n) (codes (toString n)) := by
  have hn := Number.Numeral.valid_ofInt n
  have hchars := Number.Numeral.chars_ofInt n
  rw [codes, ← hchars, codes_of_symbols hn.mem_symbols]
  refine .numeral hn fun position rest hrest => ?_
  have hread := readNumber_integer hn rfl rfl (Number.Numeral.length_ofInt h) hrest position
  rw [Number.Numeral.value_ofInt] at hread
  exact hread

theorem written_float (x : Float) : Written (.float x) (codes (writeFloat x)) := by
  rw [writeFloat]
  split
  · rename_i hnan
    rw [Number.eq_nan hnan]
    exact written_nan
  · rename_i negative hinfinite
    rw [Number.eq_infinity hinfinite]
    cases negative with
    | true => exact written_negativeInfinity
    | false => exact written_infinity
  · rename_i hnotnan hfinite
    cases hx : Number.Double.ofFloat x with
    | nan => exact absurd hx hnotnan
    | infinite negative => exact absurd hx (hfinite negative)
    | finite negative m e =>
        obtain ⟨n, hn, hparts, hchars, hread⟩ := Number.exists_numeral hx
        rw [codes, hchars, codes_of_symbols hn.mem_symbols]
        refine .numeral hn fun position rest hrest => ?_
        rw [← hread]
        exact readNumber_double hn hparts hrest position

/-! ## Texts -/

theorem written_str (s : String) : Written (.str s) (codes (writeText s)) := by
  have hquoted := codes_writeText s
  refine ⟨⟨34, _, hquoted, by decide⟩, fun fuel position rest hfuel _ => ?_⟩
  cases fuel with
  | zero => rw [hquoted] at hfuel; exact absurd hfuel (by simp)
  | succ fuel =>
      obtain ⟨after, hread⟩ := readText_writeText s position (position + 1) rest
      have hat : Cursor.atChar ⟨position, codes (writeText s) ++ rest⟩ '"' = true := by
        rw [hquoted]
        rfl
      refine ⟨after, ?_⟩
      rw [readValue, if_pos hat, hread]
      simp only [bind, Except.bind, textOf_codes]
      rfl

/-! ## Items and fields -/

theorem exists_intercalate_cons {α : Type} (between text : List α) (texts : List (List α)) :
    ∃ more, List.intercalate between (text :: texts) = text ++ more := by
  cases texts with
  | nil => exact ⟨[], by rw [List.intercalate_singleton, List.append_nil]⟩
  | cons next texts =>
      exact ⟨_, by rw [List.intercalate_cons_cons, List.append_assoc]⟩

/-- What is at a cursor after the spaces. -/
theorem skipSpaces_at (code : Nat) (hcode : Cursor.isSpace code = false) {spaces : List Nat}
    (hspaces : Spaces spaces) (position : Nat) (rest : List Nat) :
    ∃ after, Cursor.skipSpaces ⟨position, spaces ++ code :: rest⟩ = ⟨after, code :: rest⟩ := by
  refine rest_skipSpaces position hspaces.isSpace ?_
  rintro first ⟨⟩
  exact hcode

/-- After a comma and spaces comes the next item. -/
theorem skip_comma {between text : List Nat} (hbetween : Spaces between) (htext : Tight text)
    (texts : List (List Nat)) (position : Nat) (rest : List Nat) :
    ∃ comma start, Cursor.skipSpaces ⟨position, 44 :: (between ++
        (List.intercalate (44 :: between) (text :: texts) ++ rest))⟩ =
          ⟨comma, 44 :: (between ++ (List.intercalate (44 :: between) (text :: texts) ++ rest))⟩ ∧
      Cursor.skipSpaces (Cursor.skip ⟨comma, 44 :: (between ++
        (List.intercalate (44 :: between) (text :: texts) ++ rest))⟩ 1) =
          ⟨start, List.intercalate (44 :: between) (text :: texts) ++ rest⟩ := by
  obtain ⟨more, hmore⟩ := exists_intercalate_cons (44 :: between) text texts
  obtain ⟨code, tail, rfl, hcode, -⟩ := htext
  obtain ⟨comma, hcomma⟩ := skipSpaces_at 44 rfl spaces_nil
    position (between ++ (List.intercalate (44 :: between) ((code :: tail) :: texts) ++ rest))
  obtain ⟨start, hstart⟩ := skipSpaces_at code hcode hbetween (comma + 1) (tail ++ more ++ rest)
  refine ⟨comma, start, hcomma, ?_⟩
  rw [hmore]
  exact hstart

/-- Items with commas and spaces between them are read up to the closing bracket. -/
theorem readItems_written {items : List Json} {texts : List (List Nat)}
    (h : List.Forall₂ Written items texts) (hne : items ≠ []) {between closing : List Nat}
    (hbetween : Spaces between) (hclosing : Spaces closing) :
    ∀ fuel position rest, (List.intercalate (44 :: between) texts).length < fuel →
      ∃ after, readItems fuel
        ⟨position, List.intercalate (44 :: between) texts ++ (closing ++ 93 :: rest)⟩ =
          .ok (items, ⟨after, rest⟩) := by
  induction h with
  | nil => exact absurd rfl hne
  | cons hitem hmore ih =>
      rename_i item text items texts
      intro fuel position rest hfuel
      cases fuel with
      | zero => exact absurd hfuel (Nat.not_lt_zero _)
      | succ fuel =>
          cases hmore with
          | nil =>
              rw [List.intercalate_singleton] at hfuel ⊢
              obtain ⟨after, hread⟩ := hitem.reads fuel position (closing ++ 93 :: rest)
                (Nat.le_of_lt_succ hfuel) (delimited_of_spaces hclosing (by decide))
              obtain ⟨close, hskip⟩ := skipSpaces_at 93 rfl hclosing after rest
              refine ⟨close + 1, ?_⟩
              rw [readItems, hread]
              simp only [bind, Except.bind, hskip]
              rfl
          | cons hnext hrest =>
              rename_i next text' items texts
              have hlength : text.length ≤ fuel ∧
                  (List.intercalate (44 :: between) (text' :: texts)).length < fuel := by
                rw [List.intercalate_cons_cons] at hfuel
                simp only [List.length_append, List.length_cons] at hfuel
                omega
              rw [List.intercalate_cons_cons, List.append_assoc, List.append_assoc, List.cons_append]
              obtain ⟨after, hread⟩ := hitem.reads fuel position
                (44 :: (between ++ (List.intercalate (44 :: between) (text' :: texts) ++
                  (closing ++ 93 :: rest)))) hlength.1 (delimited_comma _)
              obtain ⟨comma, start, hcomma, hstart⟩ := skip_comma hbetween hnext.tight texts after
                (closing ++ 93 :: rest)
              obtain ⟨last, hlast⟩ := ih (List.cons_ne_nil _ _) fuel start rest hlength.2
              refine ⟨last, ?_⟩
              rw [readItems, hread]
              simp only [bind, Except.bind, hcomma, hstart, hlast]
              rfl

/-- Code points from which a field is read: its key, a colon, a space and its value. -/
def WrittenField (f : String × Json) (text : List Nat) : Prop :=
  ∃ value, Written f.2 value ∧ text = codes (writeText f.1) ++ 58 :: 32 :: value

namespace WrittenField

variable {f : String × Json} {text : List Nat}

theorem tight (h : WrittenField f text) : Tight text := by
  obtain ⟨value, -, rfl⟩ := h
  rw [codes_writeText]
  exact ⟨34, _, rfl, by decide⟩

/-- The cursor at the value of a field. -/
theorem reads (h : WrittenField f text) (position : Nat) (rest : List Nat) :
    ∃ value start colon first, Written f.2 value ∧ value.length < text.length ∧
      Cursor.atChar ⟨position, text ++ rest⟩ '"' = true ∧
      readText position ((text ++ rest).drop 1) (position + 1) 0 =
        .ok (codes f.1, ⟨start, 58 :: 32 :: (value ++ rest)⟩) ∧
      Cursor.skipSpaces ⟨start, 58 :: 32 :: (value ++ rest)⟩ =
        ⟨colon, 58 :: 32 :: (value ++ rest)⟩ ∧
      Cursor.skipSpaces (Cursor.skip ⟨colon, 58 :: 32 :: (value ++ rest)⟩ 1) =
        ⟨first, value ++ rest⟩ := by
  obtain ⟨value, hvalue, rfl⟩ := h
  have hsplit : codes (writeText f.1) ++ 58 :: 32 :: value ++ rest =
      codes (writeText f.1) ++ 58 :: 32 :: (value ++ rest) := by
    rw [List.append_assoc, List.cons_append, List.cons_append]
  obtain ⟨start, hstart⟩ := readText_writeText f.1 position (position + 1)
    (58 :: 32 :: (value ++ rest))
  obtain ⟨colon, hcolon⟩ := skipSpaces_at 58 rfl spaces_nil
    start (32 :: (value ++ rest))
  have hspace : Spaces [32] := fun code hcode => .inl (List.mem_singleton.1 hcode)
  obtain ⟨first, hfirst⟩ := rest_skipSpaces (colon + 1) hspace.isSpace
    fun code hcode => (hvalue.tight.head_append rest code hcode)
  refine ⟨value, start, colon, first, hvalue, ?_, ?_, ?_, hcolon, hfirst⟩
  · simp only [List.length_append, List.length_cons]
    omega
  · rw [hsplit, codes_writeText]
    rfl
  · rw [hsplit]
    exact hstart

end WrittenField

/-- Fields with commas and spaces between them are read up to the closing bracket. -/
theorem readFields_written {fields : List (String × Json)} {texts : List (List Nat)}
    (h : List.Forall₂ WrittenField fields texts) (hne : fields ≠ []) {between closing : List Nat}
    (hbetween : Spaces between) (hclosing : Spaces closing) :
    ∀ fuel position rest, (List.intercalate (44 :: between) texts).length < fuel →
      ∃ after, readFields fuel
        ⟨position, List.intercalate (44 :: between) texts ++ (closing ++ 125 :: rest)⟩ =
          .ok (fields, ⟨after, rest⟩) := by
  induction h with
  | nil => exact absurd rfl hne
  | cons hfield hmore ih =>
      rename_i field text fields texts
      intro fuel position rest hfuel
      cases fuel with
      | zero => exact absurd hfuel (Nat.not_lt_zero _)
      | succ fuel =>
          cases hmore with
          | nil =>
              rw [List.intercalate_singleton] at hfuel ⊢
              obtain ⟨value, start, colon, first, hvalue, hlength, hquote, hkey, hcolon, hfirst⟩ :=
                hfield.reads position (closing ++ 125 :: rest)
              obtain ⟨after, hread⟩ := hvalue.reads fuel first (closing ++ 125 :: rest)
                (by omega) (delimited_of_spaces hclosing (by decide))
              obtain ⟨close, hskip⟩ := skipSpaces_at 125 rfl hclosing after rest
              refine ⟨close + 1, ?_⟩
              rw [readFields, hquote, hkey]
              simp only [Bool.not_true, Bool.false_eq_true, if_false, bind, Except.bind, hcolon,
                hfirst, hread, hskip, textOf_codes]
              rfl
          | cons hnext hrest =>
              rename_i next text' fields texts
              have hlength : text.length ≤ fuel ∧
                  (List.intercalate (44 :: between) (text' :: texts)).length < fuel := by
                rw [List.intercalate_cons_cons] at hfuel
                simp only [List.length_append, List.length_cons] at hfuel
                omega
              rw [List.intercalate_cons_cons, List.append_assoc, List.append_assoc, List.cons_append]
              obtain ⟨value, start, colon, first, hvalue, hshort, hquote, hkey, hcolon, hfirst⟩ :=
                hfield.reads position (44 :: (between ++
                  (List.intercalate (44 :: between) (text' :: texts) ++ (closing ++ 125 :: rest))))
              obtain ⟨after, hread⟩ := hvalue.reads fuel first
                (44 :: (between ++ (List.intercalate (44 :: between) (text' :: texts) ++
                  (closing ++ 125 :: rest)))) (by omega) (delimited_comma _)
              obtain ⟨comma, next, hcomma, hnextstart⟩ := skip_comma hbetween hnext.tight texts after
                (closing ++ 125 :: rest)
              obtain ⟨last, hlast⟩ := ih (List.cons_ne_nil _ _) fuel next rest hlength.2
              refine ⟨last, ?_⟩
              rw [readFields, hquote, hkey]
              simp only [Bool.not_true, Bool.false_eq_true, if_false, bind, Except.bind, hcolon,
                hfirst, hread, hcomma, hnextstart, hlast, textOf_codes]
              rfl

/-! ## Brackets -/

theorem codes_intercalate (between : String) (items : List String) :
    codes (String.intercalate between items) =
      List.intercalate (codes between) (items.map codes) := by
  have hmap : ∀ texts : List (List Char), (List.intercalate between.toList texts).map codeOf =
      List.intercalate (codes between) (texts.map (List.map codeOf)) := by
    intro texts
    induction texts with
    | nil => rfl
    | cons text texts ih =>
        cases texts with
        | nil => simp only [List.intercalate_singleton, List.map_cons, List.map_nil]
        | cons next texts =>
            rw [List.intercalate_cons_cons, List.map_append, List.map_append, ih, List.map_cons,
              List.map_cons, List.map_cons, List.intercalate_cons_cons, codes]
  rw [codes, String.toList_intercalate, hmap, List.map_map]
  rfl

theorem spaces_lineBreak (indent depth : Nat) : Spaces (codes (lineBreak indent depth)) := by
  have hline : codeOf '\n' = 10 ∧ codeOf ' ' = 32 := by decide
  intro code hcode
  rw [codes, lineBreak, String.toList_ofList, List.map_cons, List.map_replicate, hline.1,
    hline.2] at hcode
  rcases List.mem_cons.1 hcode with rfl | hcode
  · exact .inr rfl
  · exact .inl (List.eq_of_mem_replicate hcode)

/-- Items between brackets, with spaces that depend on the indentation. -/
theorem codes_bracketed (indent : Option Nat) (depth : Nat) (left right : String)
    {items : List String} (hne : items ≠ []) :
    ∃ opening between closing, Spaces opening ∧ Spaces between ∧ Spaces closing ∧
      codes (bracketed indent depth left right items) = codes left ++ (opening ++
        (List.intercalate (44 :: between) (items.map codes) ++ (closing ++ codes right))) := by
  unfold bracketed
  rw [if_neg (List.isEmpty_iff.not.2 hne)]
  cases indent with
  | none =>
      refine ⟨[], [32], [], spaces_nil, fun code hcode => ?_, spaces_nil, ?_⟩
      · exact .inl (List.mem_singleton.1 hcode)
      · have hcomma : codes ", " = [44, 32] := by decide
        dsimp only
        rw [codes_append, codes_append, codes_intercalate, hcomma, List.append_assoc]
        rfl
  | some n =>
      refine ⟨codes (lineBreak n (depth + 1)), codes (lineBreak n (depth + 1)),
        codes (lineBreak n depth), spaces_lineBreak _ _, spaces_lineBreak _ _,
        spaces_lineBreak _ _, ?_⟩
      have hone : codes "," = [44] := by decide
      have hcomma : codes ("," ++ lineBreak n (depth + 1)) = 44 :: codes (lineBreak n (depth + 1)) := by
        rw [codes_append, hone, List.singleton_append]
      dsimp only
      rw [codes_append, codes_append, codes_append, codes_append, codes_intercalate, hcomma]
      simp only [List.append_assoc]

/-- The first item is where the cursor stands after the opening bracket and the spaces. -/
theorem skipSpaces_first {opening text : List Nat} (hopening : Spaces opening) (htext : Tight text)
    (between : List Nat) (texts : List (List Nat)) (position : Nat) (rest : List Nat) :
    ∃ start, Cursor.skipSpaces
        ⟨position, opening ++ (List.intercalate between (text :: texts) ++ rest)⟩ =
          ⟨start, List.intercalate between (text :: texts) ++ rest⟩ ∧
      ∀ c : Char, c.toNat = 93 ∨ c.toNat = 125 →
        Cursor.atChar ⟨start, List.intercalate between (text :: texts) ++ rest⟩ c = false := by
  obtain ⟨more, hmore⟩ := exists_intercalate_cons between text texts
  obtain ⟨code, tail, rfl, hcode, hsquare, hbrace⟩ := htext
  rw [hmore]
  obtain ⟨start, hstart⟩ := skipSpaces_at code hcode hopening position (tail ++ more ++ rest)
  refine ⟨start, hstart, fun c hc => ?_⟩
  have hne : code ≠ c.toNat := by
    rcases hc with hc | hc <;> rw [hc] <;> assumption
  simp [Cursor.atChar, hne]

/-! Arrays and objects differ in the brackets, in the reader of the items, and in the value made of
them. -/

section

variable {α : Type} {item : α → List Nat → Prop} (make : List α → Json)
  (readMany : Nat → Cursor → Reading (List α × Cursor)) {left right : String} {opens : Nat}
  (closes : Char) (hleft : codes left = [opens]) (hright : codes right = [closes.toNat])
  (htight : Tight [opens]) (hcloses : closes.toNat = 93 ∨ closes.toNat = 125)
  (hdispatch : ∀ fuel position rest, readValue (fuel + 1) ⟨position, opens :: rest⟩ =
    if (Cursor.skipSpaces ⟨position + 1, rest⟩).atChar closes then
      .ok (make [], (Cursor.skipSpaces ⟨position + 1, rest⟩).skip 1)
    else (readMany fuel (Cursor.skipSpaces ⟨position + 1, rest⟩)).map (Prod.map make id))
include hleft hright htight hcloses hdispatch

/-- Without items the brackets follow each other. -/
theorem written_brackets (indent : Option Nat) (depth : Nat) :
    Written (make []) (codes (bracketed indent depth left right [])) := by
  obtain ⟨code, tail, hcode, hopens⟩ := htight
  cases hcode
  have hclosing : Cursor.isSpace closes.toNat = false := by
    rcases hcloses with hc | hc <;> rw [hc] <;> rfl
  have hcodes : codes (bracketed indent depth left right []) = [opens, closes.toNat] := by
    unfold bracketed
    rw [List.isEmpty_nil, if_pos rfl, codes_append, hleft, hright]
    rfl
  rw [hcodes]
  refine ⟨⟨opens, _, rfl, hopens⟩, fun fuel position rest hfuel _ => ?_⟩
  cases fuel with
  | zero => exact absurd hfuel (by simp)
  | succ fuel =>
      obtain ⟨close, hclose⟩ := skipSpaces_at closes.toNat hclosing spaces_nil (position + 1) rest
      refine ⟨close + 1, ?_⟩
      rw [List.cons_append, hdispatch, List.singleton_append]
      rw [List.nil_append] at hclose
      rw [hclose, if_pos]
      · rfl
      · simp [Cursor.atChar]

variable (hitem : ∀ a text, item a text → Tight text)
  (hmany : ∀ items texts, List.Forall₂ item items texts → items ≠ [] →
    ∀ between closing, Spaces between → Spaces closing → ∀ fuel position rest,
      (List.intercalate (44 :: between) texts).length < fuel →
        ∃ after, readMany fuel ⟨position, List.intercalate (44 :: between) texts ++
          (closing ++ closes.toNat :: rest)⟩ = .ok (items, ⟨after, rest⟩))
include hitem hmany

/-- Between brackets the items are read one after the other. -/
theorem written_bracketed (indent : Option Nat) (depth : Nat) {items : List α} {texts : List String}
    (h : List.Forall₂ item items (texts.map codes)) :
    Written (make items) (codes (bracketed indent depth left right texts)) := by
  cases texts with
  | nil =>
      cases h
      exact written_brackets make readMany closes hleft hright htight hcloses hdispatch indent depth
  | cons text texts =>
      cases h with
      | cons hfirst hmore =>
          rename_i first items
          obtain ⟨code, tail, hcode, hopens⟩ := htight
          cases hcode
          obtain ⟨opening, between, closing, hopening, hbetween, hspaces, hcodes⟩ :=
            codes_bracketed indent depth left right (List.cons_ne_nil text texts)
          rw [hcodes, hleft, hright, List.singleton_append, List.map_cons]
          refine ⟨⟨opens, _, rfl, hopens⟩, fun fuel position rest hfuel _ => ?_⟩
          cases fuel with
          | zero => exact absurd hfuel (Nat.not_succ_le_zero _)
          | succ fuel =>
              have hlength : (List.intercalate (44 :: between)
                  (codes text :: texts.map codes)).length < fuel := by
                simp only [List.length_cons, List.length_append] at hfuel
                omega
              obtain ⟨start, hstart, hopen⟩ := skipSpaces_first hopening (hitem _ _ hfirst)
                (44 :: between) (texts.map codes) (position + 1) (closing ++ closes.toNat :: rest)
              obtain ⟨after, hread⟩ := hmany _ _ (.cons hfirst hmore) (List.cons_ne_nil _ _) between
                closing hbetween hspaces fuel start rest hlength
              have hcursor : opens :: (opening ++ (List.intercalate (44 :: between)
                  (codes text :: texts.map codes) ++ (closing ++ [closes.toNat]))) ++ rest =
                  opens :: (opening ++ (List.intercalate (44 :: between)
                    (codes text :: texts.map codes) ++ (closing ++ closes.toNat :: rest))) := by
                simp only [List.cons_append, List.append_assoc, List.nil_append]
              refine ⟨after, ?_⟩
              rw [hcursor, hdispatch, hstart, hopen closes hcloses, hread]
              rfl

end

/-- A bracket is at the cursor, and no character before it in the dispatch. -/
theorem readValue_array (fuel position : Nat) (rest : List Nat) :
    readValue (fuel + 1) ⟨position, 91 :: rest⟩ =
      if (Cursor.skipSpaces ⟨position + 1, rest⟩).atChar ']' then
        .ok (.arr [], (Cursor.skipSpaces ⟨position + 1, rest⟩).skip 1)
      else (readItems fuel (Cursor.skipSpaces ⟨position + 1, rest⟩)).map (Prod.map .arr id) := by
  have hskip : Cursor.skip ⟨position, 91 :: rest⟩ 1 = ⟨position + 1, rest⟩ := rfl
  rw [readValue, if_neg (by simp [Cursor.atChar]), if_neg (by simp [Cursor.atChar]),
    if_pos (by simp [Cursor.atChar]), hskip]
  dsimp only
  split
  · rfl
  · cases readItems fuel (Cursor.skipSpaces ⟨position + 1, rest⟩) <;> rfl

theorem readValue_object (fuel position : Nat) (rest : List Nat) :
    readValue (fuel + 1) ⟨position, 123 :: rest⟩ =
      if (Cursor.skipSpaces ⟨position + 1, rest⟩).atChar '\x7d' then
        .ok (.obj (Assoc.ofPairs []), (Cursor.skipSpaces ⟨position + 1, rest⟩).skip 1)
      else (readFields fuel (Cursor.skipSpaces ⟨position + 1, rest⟩)).map
        (Prod.map (fun fields => .obj (Assoc.ofPairs fields)) id) := by
  have hskip : Cursor.skip ⟨position, 123 :: rest⟩ 1 = ⟨position + 1, rest⟩ := rfl
  rw [readValue, if_neg (by simp [Cursor.atChar]), if_pos (by simp [Cursor.atChar]), hskip]
  dsimp only
  split
  · rfl
  · cases readFields fuel (Cursor.skipSpaces ⟨position + 1, rest⟩) <;> rfl

theorem written_arr (indent : Option Nat) (depth : Nat) {items : List Json} {texts : List String}
    (h : List.Forall₂ Written items (texts.map codes)) :
    Written (.arr items) (codes (bracketed indent depth "[" "]" texts)) :=
  written_bracketed .arr readItems ']' (by decide) (by decide) ⟨91, [], rfl, by decide⟩ (.inl rfl)
    readValue_array (fun _ _ h => h.tight)
    (fun _ _ hitems hne _ _ hbetween hclosing => readItems_written hitems hne hbetween hclosing)
    indent depth h

theorem written_obj (indent : Option Nat) (depth : Nat) {fields : List (String × Json)}
    {texts : List String} (hkeys : (Assoc.keys fields).Nodup)
    (h : List.Forall₂ WrittenField fields (texts.map codes)) :
    Written (.obj fields) (codes (bracketed indent depth "\x7b" "\x7d" texts)) := by
  have hpairs : Written (.obj (Assoc.ofPairs fields))
      (codes (bracketed indent depth "\x7b" "\x7d" texts)) :=
    written_bracketed (fun fields => .obj (Assoc.ofPairs fields)) readFields '\x7d' (by decide) (by decide)
      ⟨123, [], rfl, by decide⟩ (.inr rfl) readValue_object (fun _ _ h => h.tight)
      (fun _ _ hfields hne _ _ hbetween hclosing => readFields_written hfields hne hbetween hclosing)
      indent depth h
  rw [Assoc.ofPairs_of_nodup hkeys] at hpairs
  exact hpairs

/-! ## Values -/

mutual

/-- What is written for a proper value is read as the value. -/
theorem written_write (indent : Option Nat) (depth : Nat) :
    ∀ j : Json, j.Proper → Written j (codes (j.write indent depth))
  | .null, _ => written_null
  | .bool true, _ => written_true
  | .bool false, _ => written_false
  | .int _, h => written_int h.isWritable
  | .float x, _ => written_float x
  | .str s, _ => written_str s
  | .arr items, h =>
    written_arr indent depth (written_writeItems indent (depth + 1) items (proper_arr.1 h))
  | .obj fields, h =>
    written_obj indent depth (proper_obj.1 h).1
      (written_writeFields indent (depth + 1) fields (proper_obj.1 h).2)

theorem written_writeItems (indent : Option Nat) (depth : Nat) :
    ∀ items : List Json, (∀ j ∈ items, j.Proper) →
      List.Forall₂ Written items ((writeItems indent depth items).map codes)
  | [], _ => .nil
  | item :: rest, h =>
    .cons (written_write indent depth item (h item List.mem_cons_self))
      (written_writeItems indent depth rest fun j hj => h j (List.mem_cons_of_mem _ hj))

theorem written_writeFields (indent : Option Nat) (depth : Nat) :
    ∀ fields : List (String × Json), (∀ f ∈ fields, f.2.Proper) →
      List.Forall₂ WrittenField fields ((writeFields indent depth fields).map codes)
  | [], _ => .nil
  | (key, value) :: rest, h => by
    have hvalue := written_write indent depth value (h (key, value) List.mem_cons_self)
    have hrest := written_writeFields indent depth rest fun f hf => h f (List.mem_cons_of_mem _ hf)
    refine .cons ⟨_, hvalue, ?_⟩ hrest
    have hcolon : codes ": " = [58, 32] := by decide
    rw [codes_append, codes_append, hcolon, List.append_assoc]
    rfl

end

/-- Every proper value is read back from its text, however it is indented. -/
theorem ofCodePoints_text (indent : Option Nat) {j : Json} (h : j.Proper) :
    ofCodePoints (codes (text indent j)) = .ok j := by
  have hwritten := written_write indent 0 j h
  rw [← text] at hwritten
  obtain ⟨start, hstart⟩ := rest_skipSpaces 0 spaces_nil.isSpace
    (hwritten.tight.head_append [])
  obtain ⟨after, hread⟩ := hwritten.reads ((codes (text indent j)).length + 1) start []
    (Nat.le_succ _) (fun _ h => nomatch h)
  rw [List.append_nil] at hstart hread
  rw [List.nil_append] at hstart
  rw [ofCodePoints]
  dsimp only
  rw [hstart, hread]
  rfl

end RandomTables.Json
