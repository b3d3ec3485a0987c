-- SUMMARY: Each document of a bundle has a file of its own, under the first free name made from its namespace.
import Mathlib.Data.List.Chain
import Mathlib.Data.List.DropRight
import Mathlib.Data.List.TakeWhile
import RandomTables.Export.Bundle
import RandomTables.Proofs.Assoc

/-!
# How bundles are packed

A namespace becomes the stem of a file name, and a stem stays as it is. Documents whose namespaces
have the same stem are told apart by numbers. A numbered stem can itself be the stem of another
namespace, so each name is looked for among all files that there are.
-/
namespace RandomTables.Export

/-! ## Stems -/

/-- What stands before the extension of a file name: ASCII letters in lower case, ASCII digits, and
single hyphens between them. -/
structure IsStem (cs : List Char) : Prop where
  kept : ∀ c ∈ cs, c.isLower ∨ c.isDigit ∨ c = '-'
  single : cs.IsChain fun c d => c ≠ '-' ∨ d ≠ '-'
  first : cs.head? ≠ some '-'
  last : cs.getLast? ≠ some '-'
  nonempty : cs ≠ []

namespace IsStem

variable {cs ds : List Char}

theorem isNameChar (h : IsStem cs) {c : Char} (hc : c ∈ cs) : isNameChar c = true := by
  simpa [Export.isNameChar, or_assoc] using h.kept c hc

/-- Stems joined by a hyphen are a stem. -/
theorem append (h : IsStem cs) (h' : IsStem ds) : IsStem (cs ++ '-' :: ds) where
  kept c hc := by
    rcases List.mem_append.1 hc with hc | hc
    · exact h.kept c hc
    · rcases List.mem_cons.1 hc with rfl | hc
      · exact .inr (.inr rfl)
      · exact h'.kept c hc
  single := by
    refine List.isChain_append.2 ⟨h.single, List.isChain_cons.2 ⟨?_, h'.single⟩, ?_⟩
    · rintro d hd
      refine .inr ?_
      rintro rfl
      exact h'.first hd
    · rintro c hc d -
      refine .inl ?_
      rintro rfl
      exact h.last hc
  first := by
    rw [List.head?_append_of_ne_nil _ h.nonempty]
    exact h.first
  last := by
    rw [List.getLast?_append_of_ne_nil _ (List.cons_ne_nil _ _), List.getLast?_cons_of_ne_nil]
    · exact h'.last
    · exact h'.nonempty
  nonempty := List.append_ne_nil_of_right_ne_nil _ (List.cons_ne_nil _ _)

end IsStem

/-- A word of letters and digits is a stem. -/
theorem isStem_of_word {cs : List Char} (h : ∀ c ∈ cs, c.isLower ∨ c.isDigit) (hne : cs ≠ []) :
    IsStem cs := by
  have hword : ∀ c ∈ cs, c ≠ '-' := by
    rintro c hc rfl
    exact absurd (h _ hc) (by decide)
  refine ⟨fun c hc => (h c hc).imp_right .inl, ?_, ?_, ?_, hne⟩
  · exact (List.pairwise_of_forall_mem_list fun c hc _ _ => .inl (hword c hc)).isChain
  · exact fun hhead => hword _ (List.mem_of_head? hhead) rfl
  · exact fun hlast => hword _ (List.mem_of_getLast? hlast) rfl

theorem isStem_toString (n : Nat) : IsStem (toString n).toList := by
  rw [Nat.toString_eq_repr, Nat.toList_repr]
  refine isStem_of_word (fun c hc => .inr ?_) Nat.toDigits_ne_nil
  exact Nat.isDigit_of_mem_toDigits (by decide) (by decide) hc

/-! ## The stem of a namespace -/

section

variable {cs : List Char}

theorem head?_singleHyphens (cs : List Char) : (singleHyphens cs).head? = cs.head? := by
  fun_induction singleHyphens cs with
  | case1 rest ih => exact ih
  | case2 c rest _ ih => rfl
  | case3 => rfl

theorem singleHyphens_sublist (cs : List Char) : (singleHyphens cs).Sublist cs := by
  fun_induction singleHyphens cs with
  | case1 rest ih => exact ih.cons _
  | case2 c rest _ ih => exact ih.cons_cons _
  | case3 => exact .slnil

theorem isChain_singleHyphens (cs : List Char) :
    (singleHyphens cs).IsChain fun c d => c ≠ '-' ∨ d ≠ '-' := by
  fun_induction singleHyphens cs with
  | case1 rest ih => exact ih
  | case2 c rest hpair ih =>
      refine List.isChain_cons.2 ⟨fun d hd => ?_, ih⟩
      -- What follows the first character starts as the rest did, and that is no second hyphen.
      rw [head?_singleHyphens] at hd
      obtain ⟨more, rfl⟩ := List.head?_eq_some_iff.1 hd
      refine not_and_or.1 ?_
      rintro ⟨rfl, rfl⟩
      exact hpair more rfl rfl
  | case3 => exact .nil

/-- Hyphens that are single already stay. -/
theorem singleHyphens_of_isChain (h : cs.IsChain fun c d => c ≠ '-' ∨ d ≠ '-') :
    singleHyphens cs = cs := by
  fun_induction singleHyphens cs with
  | case1 rest ih => exact absurd (List.isChain_cons_cons.1 h).1 (by decide)
  | case2 c rest _ ih => rw [ih h.tail]
  | case3 => rfl

theorem isPrefix_trimHyphens (cs : List Char) : trimHyphens cs <+: cs.dropWhile (· == '-') :=
  List.rdropWhile_prefix (· == '-') _

theorem isInfix_trimHyphens (cs : List Char) : trimHyphens cs <:+: cs :=
  (isPrefix_trimHyphens cs).isInfix.trans (List.dropWhile_suffix _).isInfix

theorem head?_trimHyphens (cs : List Char) : (trimHyphens cs).head? ≠ some '-' := by
  intro hfirst
  obtain ⟨more, hmore⟩ := List.head?_eq_some_iff.1 hfirst
  obtain ⟨dropped, hdropped⟩ := isPrefix_trimHyphens cs
  have hkept := List.head?_dropWhile_not (· == '-') cs
  rw [← hdropped, hmore] at hkept
  cases hkept

theorem getLast?_trimHyphens (cs : List Char) : (trimHyphens cs).getLast? ≠ some '-' := by
  intro hlast
  have hne : trimHyphens cs ≠ [] := by
    intro hnil
    rw [hnil] at hlast
    cases hlast
  rw [List.getLast?_eq_some_getLast hne] at hlast
  refine List.rdropWhile_last_not (· == '-') (cs.dropWhile (· == '-')) hne ?_
  exact beq_iff_eq.2 (Option.some.inj hlast)

/-- Without hyphens at its ends a text stays. -/
theorem trimHyphens_of_ends (hfirst : cs.head? ≠ some '-') (hlast : cs.getLast? ≠ some '-') :
    trimHyphens cs = cs := by
  have hstart : cs.dropWhile (· == '-') = cs := by
    cases cs with
    | nil => rfl
    | cons c rest =>
        refine List.dropWhile_cons_of_neg fun hc => ?_
        exact hfirst (congrArg some (eq_of_beq hc))
  have hend : cs.rdropWhile (· == '-') = cs := by
    refine List.rdropWhile_eq_self_iff.2 fun hne hc => hlast ?_
    rw [List.getLast?_eq_some_getLast hne, eq_of_beq hc]
  exact (congrArg (List.rdropWhile (· == '-')) hstart).trans hend

/-! ### Stems stay

A stem is in lower case and has no points, and nothing of it is left out. -/

theorem toNat_of_isNameChar {c : Char} (h : isNameChar c = true) :
    97 ≤ c.toNat ∧ c.toNat ≤ 122 ∨ 45 ≤ c.toNat ∧ c.toNat ≤ 57 := by
  simp only [isNameChar, Bool.or_eq_true, beq_iff_eq] at h
  rcases h with (hlower | hdigit) | rfl
  · obtain ⟨hfirst, hlast⟩ := Bool.and_eq_true_iff.1 hlower
    exact .inl ⟨of_decide_eq_true hfirst, of_decide_eq_true hlast⟩
  · have hbounds := Char.isDigit_iff_toNat.1 hdigit
    exact .inr ⟨Nat.le_trans (by decide) hbounds.1, hbounds.2⟩
  · exact .inr (by decide)

theorem lowerChar_of_isNameChar {c : Char} (h : isNameChar c = true) : Text.lowerChar c = c := by
  have hbounds := toNat_of_isNameChar h
  rw [Text.lowerChar, if_pos (by omega)]
  refine dif_neg ?_
  rintro ⟨hfirst, hlast⟩
  have hfirst : 65 ≤ c.toNat := hfirst
  have hlast : c.toNat ≤ 90 := hlast
  omega

theorem lower_of_isNameChar (h : ∀ c ∈ cs, isNameChar c = true) : Text.lower cs = cs := by
  rw [Text.lower]
  generalize [] = before
  induction cs generalizing before with
  | nil => rfl
  | cons c rest ih =>
      have hbounds := toNat_of_isNameChar (h c List.mem_cons_self)
      have hhere := lowerChar_of_isNameChar (h c List.mem_cons_self)
      rw [Text.lowerFrom, if_neg (by omega), if_neg (by omega), hhere,
        ih fun d hd => h d (List.mem_cons_of_mem c hd)]
      rfl

theorem IsStem.fileName_eq {name : String} (h : IsStem name.toList) : fileName name = name := by
  have hpoints : ∀ c ∈ name.toList, (if c == '.' then '-' else c) = c := by
    intro c hc
    refine if_neg fun hpoint => ?_
    obtain rfl := eq_of_beq hpoint
    exact absurd (h.isNameChar hc) (by decide)
  rw [fileName, lower_of_isNameChar fun c => h.isNameChar, List.map_congr_left hpoints,
    List.map_id', List.filter_eq_self.2 fun c => h.isNameChar, singleHyphens_of_isChain h.single,
    trimHyphens_of_ends h.first h.last, if_neg, String.ofList_toList]
  simpa using h.nonempty

theorem isStem_fileName (namespaceText : String) : IsStem (fileName namespaceText).toList := by
  rw [fileName]
  generalize (Text.lower namespaceText.toList).map (fun c => if c == '.' then '-' else c) = lowered
  have hkept := isInfix_trimHyphens (singleHyphens (lowered.filter isNameChar))
  split
  · have hword : "collection".toList.all (fun c => c.isLower || c.isDigit) = true := rfl
    refine isStem_of_word (fun c hc => ?_) (List.cons_ne_nil _ _)
    exact Bool.or_eq_true_iff.1 (List.all_eq_true.1 hword c hc)
  · rename_i hsome
    rw [String.toList_ofList]
    have hsingle := List.IsChain.infix (isChain_singleHyphens _) hkept
    refine ⟨fun c hc => ?_, hsingle, head?_trimHyphens _, getLast?_trimHyphens _,
      by simpa using hsome⟩
    have hmem := (singleHyphens_sublist _).mem (hkept.mem hc)
    simpa [isNameChar, or_assoc] using (List.mem_filter.1 hmem).2

/-- Stems, and nothing else, are their own file names. -/
theorem fileName_eq_self_iff {name : String} : fileName name = name ↔ IsStem name.toList := by
  refine ⟨fun h => ?_, IsStem.fileName_eq⟩
  rw [← h]
  exact isStem_fileName name

example : fileName "My..Name Space-" = "my-namespace" := by decide +kernel

end

namespace Bundle

/-! ## Free names -/

section

variable {used : List String} {name file : String}

/-- A file name is the first numbered one that is not used, after no more tries than there are used
names. -/
def IsFirstFree (used : List String) (name file : String) : Prop :=
  ∃ tries ≤ used.length, file = numbered name tries ∧ file ∉ used ∧
    ∀ earlier < tries, numbered name earlier ∈ used

theorem IsFirstFree.not_mem (h : IsFirstFree used name file) : file ∉ used := by
  obtain ⟨-, -, -, hfree, -⟩ := h
  exact hfree

/-- The search passes over used names and stops at the first that is free. -/
theorem exists_freeName (used : List String) (name : String) (tries : Nat) :
    ∃ found, tries ≤ found ∧ freeName used name tries = numbered name found ∧
      numbered name found ∉ used ∧
      ∀ earlier, tries ≤ earlier → earlier < found → numbered name earlier ∈ used := by
  fun_induction freeName used name tries with
  | case1 tries hused ih =>
      obtain ⟨found, hle, hname, hfree, hpassed⟩ := ih
      refine ⟨found, Nat.le_of_succ_le hle, hname, hfree, fun earlier hfrom hbefore => ?_⟩
      rcases Nat.eq_or_lt_of_le hfrom with rfl | hlater
      · exact hused
      · exact hpassed earlier hlater hbefore
  | case2 tries hfree =>
      exact ⟨tries, Nat.le_refl _, rfl, hfree,
        fun _ hfrom hbefore => absurd hbefore (Nat.not_lt.2 hfrom)⟩

theorem le_length_of_numbered_mem {n : Nat} (h : ∀ tries < n, numbered name tries ∈ used) :
    n ≤ used.length := by
  have hdistinct : ((List.range n).map (numbered name)).Nodup :=
    List.nodup_range.map fun _ _ => numbered_injective
  have hused : (List.range n).map (numbered name) ⊆ used := by
    intro file hfile
    obtain ⟨tries, htries, rfl⟩ := List.mem_map.1 hfile
    exact h tries (List.mem_range.1 htries)
  simpa using hdistinct.length_le_of_subset hused

theorem isFirstFree_freeName (used : List String) (name : String) :
    IsFirstFree used name (freeName used name 0) := by
  obtain ⟨found, -, hname, hfree, hpassed⟩ := exists_freeName used name 0
  have hpassed : ∀ earlier < found, numbered name earlier ∈ used :=
    fun earlier => hpassed earlier (Nat.zero_le _)
  rw [hname]
  exact ⟨found, le_length_of_numbered_mem hpassed, rfl, hfree, hpassed⟩

example : freeName ["a.json", "a-2.json"] "a-2" 0 = "a-2-2.json" := by cbv

/-- A numbered name of a stem has a stem of its own. -/
theorem exists_stem_numbered (h : IsStem name.toList) (tries : Nat) :
    ∃ stem, IsStem stem ∧ (numbered name tries).toList = stem ++ ".json".toList := by
  cases tries with
  | zero => exact ⟨_, h, String.toList_append⟩
  | succ tries =>
      refine ⟨_, h.append (isStem_toString (tries + 2)), ?_⟩
      simp only [numbered, String.toList_append, List.append_assoc]
      rfl

end

/-! ## Packed collections

Collections are packed from the first to the last, so a run of the loop is an induction on the last
one: what was packed before stays as it is. -/

/-- Files hold the documents of some collections. -/
structure Packed (indent : Option Nat) (collections : List Collection) (files : Assoc String) :
    Prop where
  /-- Each collection in turn has one file, which holds its document as JSON. -/
  texts : files.map (·.2) = collections.map fun c => c.document.jsonText indent
  distinct : files.keys.Nodup
  /-- Each name is the first one that none of the files before has, found after no more tries than
  there are such files. -/
  named : ∀ i c file, collections[i]? = some c → files.keys[i]? = some file →
    IsFirstFree (files.keys.take i) (fileName c.namespaceText) file
  stems : ∀ file ∈ files.keys, ∃ stem, IsStem stem ∧ file.toList = stem ++ ".json".toList

variable {indent : Option Nat} {collections : List Collection} {files : Assoc String}

theorem packed_nil : Packed indent [] [] := by
  refine ⟨rfl, .nil, fun i c file hc => ?_, fun file hfile => ?_⟩
  · cases hc
  · cases hfile

theorem Packed.length_keys (h : Packed indent collections files) :
    files.keys.length = collections.length := by
  simpa [Assoc.keys] using congrArg List.length h.texts

/-- One more collection takes a name that no file has, so its file comes behind all files. -/
theorem addFile_eq (indent : Option Nat) (files : Assoc String) (c : Collection) :
    addFile indent files c =
      files ++ [(freeName files.keys (fileName c.namespaceText) 0, c.document.jsonText indent)] :=
  Assoc.put_of_not_mem (isFirstFree_freeName _ _).not_mem _

theorem keys_addFile (indent : Option Nat) (files : Assoc String) (c : Collection) :
    (addFile indent files c).keys =
      files.keys ++ [freeName files.keys (fileName c.namespaceText) 0] := by
  rw [addFile_eq, Assoc.keys_append]
  rfl

theorem Packed.addFile (h : Packed indent collections files) (c : Collection) :
    Packed indent (collections ++ [c]) (addFile indent files c) := by
  have hfirst := isFirstFree_freeName files.keys (fileName c.namespaceText)
  refine ⟨?_, Assoc.nodup_keys_put h.distinct _ _, fun i other file hother hfile => ?_,
    fun file hfile => ?_⟩
  · rw [addFile_eq, List.map_append, List.map_append, h.texts]
    rfl
  · rw [keys_addFile] at hfile ⊢
    obtain ⟨hbound, -⟩ := List.getElem?_eq_some_iff.1 hother
    rw [List.length_append, List.length_singleton] at hbound
    rcases Nat.lt_succ_iff_lt_or_eq.1 hbound with hbefore | rfl
    · rw [List.getElem?_append_left hbefore] at hother
      rw [List.getElem?_append_left (h.length_keys ▸ hbefore)] at hfile
      rw [List.take_append_of_le_length (h.length_keys ▸ hbefore.le)]
      exact h.named i other file hother hfile
    · rw [List.getElem?_concat_length] at hother
      rw [← h.length_keys, List.getElem?_concat_length] at hfile
      rw [← h.length_keys, List.take_left]
      cases hother
      cases hfile
      exact hfirst
  · rw [keys_addFile] at hfile
    rcases List.mem_append.1 hfile with hfile | hfile
    · exact h.stems file hfile
    · obtain rfl := List.mem_singleton.1 hfile
      obtain ⟨tries, -, hname, -⟩ := hfirst
      rw [hname]
      exact exists_stem_numbered (isStem_fileName _) tries

theorem packed_foldl (indent : Option Nat) (collections : List Collection) :
    Packed indent collections (collections.foldl (addFile indent) []) := by
  induction collections using List.reverseRecOn with
  | nil => exact packed_nil
  | append_singleton collections c ih =>
      rw [List.foldl_append]
      exact ih.addFile c

/-- The files of a bundle hold its documents in their order, each under a name of its own. The file
name of a file name is the same, and nothing but stems is its own file name. -/
theorem files_apart (b : Bundle) (indent : Option Nat) :
    Packed indent b.collections (b.files indent) ∧
    ∀ namespaceText, fileName (fileName namespaceText) = fileName namespaceText ∧
      (fileName namespaceText = namespaceText ↔ IsStem namespaceText.toList) :=
  ⟨packed_foldl indent b.collections, fun namespaceText =>
    ⟨(isStem_fileName namespaceText).fileName_eq, fileName_eq_self_iff⟩⟩

end Bundle

end RandomTables.Export
