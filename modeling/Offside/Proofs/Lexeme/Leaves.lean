import Offside.Lexeme.Scanner

/-!
# Tokens without interior

* `CharClass.Contains`, `CharClass.contains_of_of?`: the characters of each class.
* `Scanner.LeafOf`: the tokens without interior that can be next, a word, a number, an operator or a
  separator. `Scanner.leaf?_eq_some_iff`: these are what is read.
* `IsPlain`, `Scanner.LeafOf.plain`: they are made of characters that mean nothing for brackets and
  gaps. `Scanner.LeafOf.loc_eq`, `Scanner.LeafOf.children_eq`: where they are, and that they have no
  interior.
* `RewritesAt`: a text that is rewritten from the first of some characters on.
  `RewritesAt.takeWhile`, `RewritesAt.dropWhile`: so runs of other characters stay.
  `Scanner.LeafOf.rewritten`: so do tokens, if the text is rewritten at blanks and comments.
-/

namespace Offside

/-! ## Characters -/

namespace CharClass

/-- The characters of a class. -/
def Contains (c : Char) : CharClass → Prop
  | letter => isWordStart c = true
  | digit => c.isDigit = true
  | operator => isOperatorChar c = true
  | separator => c = ',' ∨ c = ';'
  | opener bracket => c = bracket.opener
  | closer bracket => c = bracket.closer
  | blank => c = ' ' ∨ c = '\r' ∨ c = '\n'
  | comment => c = '#'
  | tab => c = '\t'

/-- The class of a character contains it. -/
theorem contains_of_of? {c : Char} {k : CharClass} (h : of? c = some k) : k.Contains c := by
  unfold of? at h
  iterate 7
    split at h
    · cases h
      assumption
  split at h
  · rename_i hopener
    cases h
    have hfound := List.find?_some hopener
    exact (beq_iff_eq.1 hfound).symm
  · obtain ⟨bracket, hcloser, rfl⟩ := Option.map_eq_some_iff.1 h
    have hfound := List.find?_some hcloser
    exact (beq_iff_eq.1 hfound).symm

/-- What can begin a word is a letter. -/
theorem of?_wordStart {c : Char} (h : isWordStart c = true) : of? c = some .letter := if_pos h

/-- No digit can begin a word. -/
theorem isWordStart_of_isDigit {c : Char} (h : c.isDigit = true) : isWordStart c = false := by
  have hne : (c == '_') = false := by
    rw [beq_eq_false_iff_ne]
    rintro rfl
    cases h
  simp only [Char.isDigit, Bool.and_eq_true, decide_eq_true_eq, ge_iff_le,
    UInt32.le_iff_toNat_le] at h
  delta isWordStart Char.isAlpha Char.isUpper Char.isLower
  simp only [hne, Bool.or_false, Bool.or_eq_false_iff, Bool.and_eq_false_iff,
    decide_eq_false_iff_not, ge_iff_le, UInt32.le_iff_toNat_le]
  have h9 : '9'.val.toNat = 57 := rfl
  have hA : 'A'.val.toNat = 65 := rfl
  have ha : 'a'.val.toNat = 97 := rfl
  omega

/-- A digit is one. -/
theorem of?_digit {c : Char} (h : c.isDigit = true) : of? c = some .digit := by
  rw [of?, isWordStart_of_isDigit h, h]
  rfl

/-- An operator character is one. -/
theorem of?_operator {c : Char} (h : isOperatorChar c = true) : of? c = some .operator := by
  have hall : ∀ d ∈ operatorChars, (of? d == some .operator) = true :=
    List.all_eq_true.1 (by decide)
  exact beq_iff_eq.1 (hall c (List.contains_iff_mem.1 h))

/-- A separator is one. -/
theorem of?_separator {c : Char} (h : c = ',' ∨ c = ';') : of? c = some .separator := by
  rcases h with rfl | rfl <;> decide

/-- The opener of a group is one. -/
theorem of?_opener (bracket : Bracket) : of? bracket.opener = some (.opener bracket) := by
  cases bracket <;> decide

end CharClass

/-- A character of a token without interior, which means nothing for brackets and gaps. -/
def IsPlain (c : Char) : Prop :=
  ∃ k ∈ [CharClass.letter, .digit, .operator, .separator], CharClass.of? c = some k

theorem isPlain_of_isDigit {c : Char} (h : c.isDigit = true) : IsPlain c :=
  ⟨.digit, by decide, CharClass.of?_digit h⟩

theorem isPlain_of_isWordChar {c : Char} (h : isWordChar c = true) : IsPlain c := by
  rcases Bool.or_eq_true_iff.1 h with h | h
  · exact ⟨.letter, by decide, CharClass.of?_wordStart h⟩
  · exact isPlain_of_isDigit h

theorem isPlain_of_isOperatorChar {c : Char} (h : isOperatorChar c = true) : IsPlain c :=
  ⟨.operator, by decide, CharClass.of?_operator h⟩

/-- A character of another class is not plain. -/
theorem not_isPlain {c : Char}
    (hc : CharClass.of? c ∉ [CharClass.letter, .digit, .operator, .separator].map some) :
    ¬ IsPlain c := by
  rintro ⟨k, hk, hclass⟩
  exact hc (hclass ▸ List.mem_map_of_mem hk)

/-- A character that is not plain, of no gap and no opener either is a closer, or of no class. -/
theorem closer_or_none {c : Char} (hplain : ¬ IsPlain c)
    (hopener : ∀ bracket, CharClass.of? c ≠ some (.opener bracket))
    (hgap : CharClass.of? c ∉ [some .blank, some .comment, some .tab]) :
    (∃ bracket, CharClass.of? c = some (.closer bracket)) ∨ CharClass.of? c = none := by
  cases hc : CharClass.of? c with
  | none => exact .inr rfl
  | some k =>
    rw [hc] at hgap
    cases k with
    | letter | digit | operator | separator => exact absurd ⟨_, by decide, hc⟩ hplain
    | opener bracket => exact absurd hc (hopener bracket)
    | closer bracket => exact .inl ⟨bracket, rfl⟩
    | blank | comment | tab => exact absurd (by decide) hgap

/-! ## Words and operators -/

/-- The token of a word is where the word is. -/
theorem wordToken_loc (word : String) (loc : Location) : (wordToken word loc).loc = loc := by
  unfold wordToken
  split
  · rfl
  · split <;> rfl

/-- The token of an operator is where the operator is, also if it is a word. -/
theorem operatorToken_loc (operator : String) (separated attached : Bool) (loc : Location) :
    (operatorToken operator separated attached loc).loc = loc := by
  unfold operatorToken
  split
  · rfl
  · split <;> rfl

@[simp] theorem wordToken_children (word : String) (loc : Location) :
    (wordToken word loc).children = [] := by
  unfold wordToken
  split
  · rfl
  · split <;> rfl

@[simp] theorem operatorToken_children (operator : String) (separated attached : Bool)
    (loc : Location) : (operatorToken operator separated attached loc).children = [] := by
  unfold operatorToken
  split
  · rfl
  · split <;> rfl

namespace Scanner

/-! ## What can be next -/

/-- The tokens without interior that a text can begin with. -/
inductive LeafOf (s : Scanner) (c : Char) (rest : List Char) : Leaf (c :: rest) → Prop
  /-- A word. -/
  | word (hc : isWordStart c = true) : LeafOf s c rest (s.word c rest)
  /-- A number. -/
  | number (hc : c.isDigit = true ∨ s.beginsNumber c rest = true) :
      LeafOf s c rest (s.number c rest)
  /-- An operator. -/
  | operator (hc : isOperatorChar c = true) (hnum : s.beginsNumber c rest = false) :
      LeafOf s c rest (s.operator c rest)
  /-- A separator. -/
  | separator (hc : c = ',' ∨ c = ';') : LeafOf s c rest (s.separator c rest)

variable {s : Scanner} {c : Char} {rest : List Char} {leaf : Leaf (c :: rest)}

/-- Only a minus sign begins a number that no digit begins. -/
theorem of?_of_beginsNumber (h : s.beginsNumber c rest = true) :
    CharClass.of? c = some .operator := by
  simp only [beginsNumber, Bool.and_eq_true, beq_iff_eq] at h
  rw [h.1.1]
  decide

/-- What can be next is what is read. -/
theorem leaf?_eq_some_iff : s.leaf? c rest = some leaf ↔ s.LeafOf c rest leaf := by
  constructor
  · intro h
    unfold leaf? at h
    split at h
    · rename_i hc
      cases h
      exact .word (CharClass.contains_of_of? hc)
    · rename_i hc
      cases h
      exact .number (.inl (CharClass.contains_of_of? hc))
    · rename_i hc
      by_cases hnum : s.beginsNumber c rest = true
      · rw [if_pos hnum] at h
        cases h
        exact .number (.inr hnum)
      · rw [if_neg hnum] at h
        cases h
        exact .operator (CharClass.contains_of_of? hc) (Bool.eq_false_iff.2 hnum)
    · rename_i hc
      cases h
      exact .separator (CharClass.contains_of_of? hc)
    · cases h
  · intro h
    cases h with
    | word hc => rw [leaf?, CharClass.of?_wordStart hc]
    | number hc =>
      rcases hc with hc | hnum
      · rw [leaf?, CharClass.of?_digit hc]
      · rw [leaf?, of?_of_beginsNumber hnum]
        exact congrArg some (if_pos hnum)
    | operator hc hnum =>
      rw [leaf?, CharClass.of?_operator hc]
      exact congrArg some (if_neg (Bool.eq_false_iff.1 hnum))
    | separator hc => rw [leaf?, CharClass.of?_separator hc]

/-! ## What they have in common -/

/-- A token is where its characters are. -/
theorem LeafOf.loc_eq (h : s.LeafOf c rest leaf) : leaf.token.loc = s.locate leaf.used := by
  cases h with
  | word => exact wordToken_loc _ _
  | number => rfl
  | operator => exact operatorToken_loc _ _ _ _
  | separator => rfl

/-- A token without interior has none. -/
theorem LeafOf.children_eq (h : s.LeafOf c rest leaf) : leaf.token.children = [] := by
  cases h with
  | word => exact wordToken_children _ _
  | number => rfl
  | operator => exact operatorToken_children _ _ _ _
  | separator => rfl

/-- All characters of a run are of its kind. -/
theorem forall_mem_run {P : Char → Prop} {p : Char → Bool} (hp : ∀ d, p d = true → P d)
    (hc : P c) : ∀ d ∈ c :: rest.takeWhile p, P d :=
  List.forall_mem_cons.2 ⟨hc, fun d hd => hp d (List.all_eq_true.1 List.all_takeWhile d hd)⟩

/-- Tokens without interior are read from plain characters. -/
theorem LeafOf.plain (h : s.LeafOf c rest leaf) : ∀ d ∈ leaf.used, IsPlain d := by
  cases h with
  | word hc =>
    exact forall_mem_run (fun _ => isPlain_of_isWordChar)
      ⟨.letter, by decide, CharClass.of?_wordStart hc⟩
  | number hc =>
    refine forall_mem_run (fun _ => isPlain_of_isDigit) ?_
    rcases hc with hc | hnum
    · exact isPlain_of_isDigit hc
    · exact ⟨.operator, by decide, of?_of_beginsNumber hnum⟩
  | operator hc =>
    exact forall_mem_run (fun _ => isPlain_of_isOperatorChar) (isPlain_of_isOperatorChar hc)
  | separator hc =>
    exact List.forall_mem_singleton.2 ⟨.separator, by decide, CharClass.of?_separator hc⟩

/-- So neither a space nor a line feed is among them. -/
theorem LeafOf.space_notMem (h : s.LeafOf c rest leaf) : ' ' ∉ leaf.used :=
  fun hmem => not_isPlain (by decide) (h.plain _ hmem)

theorem LeafOf.lineFeed_notMem (h : s.LeafOf c rest leaf) : '\n' ∉ leaf.used :=
  fun hmem => not_isPlain (by decide) (h.plain _ hmem)

/-- Their first character is the first of the text. -/
theorem LeafOf.first_plain (h : s.LeafOf c rest leaf) : IsPlain c := by
  cases hused : leaf.used with
  | nil => exact absurd hused leaf.used_ne
  | cons d ds =>
    have htext := leaf.used_append
    rw [hused, List.cons_append] at htext
    obtain rfl := (List.cons.inj htext).1
    exact h.plain d (hused ▸ List.mem_cons_self)

theorem LeafOf.ne_lineFeed (h : s.LeafOf c rest leaf) : c ≠ '\n' := by
  rintro rfl
  exact not_isPlain (by decide) h.first_plain

/-- Tokens without interior begin with plain characters, and no others do. -/
theorem leaf?_eq_none_iff : s.leaf? c rest = none ↔ ¬ IsPlain c := by
  constructor
  · rintro h ⟨k, hk, hc⟩
    rw [leaf?, hc] at h
    simp only [List.mem_cons, List.not_mem_nil, or_false] at hk
    rcases hk with rfl | rfl | rfl | rfl <;> cases h
  · intro hc
    exact Option.eq_none_iff_forall_ne_some.2 fun _ h => hc (leaf?_eq_some_iff.1 h).first_plain

end Scanner

/-! ## What comes after them -/

/-- At most one of some characters comes next. -/
def StopsAt (gaps text : List Char) : Prop := ∀ c, text.head? = some c → c ∈ gaps

/-- A text is rewritten from the first of some characters on. -/
structure RewritesAt (gaps : List Char) (f : List Char → List Char) : Prop where
  /-- What comes before them stays. -/
  keeps : ∀ {c}, c ∉ gaps → ∀ rest, f (c :: rest) = c :: f rest
  /-- Where one of them comes next, or nothing, that is so in the new text. -/
  stops : ∀ {rest}, StopsAt gaps rest → StopsAt gaps (f rest)

section RewritesAt

variable {gaps : List Char} {f : List Char → List Char} {p : Char → Bool}

theorem stopsAt_nil : StopsAt gaps [] := by
  intro c hc
  cases hc

theorem stopsAt_cons {c : Char} (h : c ∈ gaps) (rest : List Char) : StopsAt gaps (c :: rest) := by
  intro d hd
  exact Option.some.inj hd ▸ h

/-- No run of characters goes on where another one comes next. -/
theorem StopsAt.any_head? {text : List Char} (h : StopsAt gaps text) (hp : gaps.any p = false) :
    text.head?.any p = false := by
  rw [Option.any_eq_false]
  intro c hc
  exact Bool.eq_false_iff.2 (List.any_eq_false.1 hp c (h c hc))

theorem StopsAt.takeWhile {text : List Char} (h : StopsAt gaps text) (hp : gaps.any p = false) :
    text.takeWhile p = [] := by
  cases text with
  | nil => rfl
  | cons c rest => exact List.takeWhile_cons_of_neg (Bool.eq_false_iff.1 (h.any_head? hp))

theorem StopsAt.dropWhile {text : List Char} (h : StopsAt gaps text) (hp : gaps.any p = false) :
    text.dropWhile p = text := by
  cases text with
  | nil => rfl
  | cons c rest => exact List.dropWhile_cons_of_neg (Bool.eq_false_iff.1 (h.any_head? hp))

namespace RewritesAt

variable (hf : RewritesAt gaps f) (hp : gaps.any p = false) (rest : List Char)

include hf hp

/-- So the run of other characters that is next is the same. -/
theorem takeWhile : (f rest).takeWhile p = rest.takeWhile p := by
  induction rest with
  | nil => exact (hf.stops stopsAt_nil).takeWhile hp
  | cons c rest ih =>
    by_cases hc : c ∈ gaps
    · have hnext := stopsAt_cons hc rest
      rw [(hf.stops hnext).takeWhile hp, hnext.takeWhile hp]
    · rw [hf.keeps hc, List.takeWhile_cons, List.takeWhile_cons, ih]

/-- What follows that run is rewritten. -/
theorem dropWhile : (f rest).dropWhile p = f (rest.dropWhile p) := by
  induction rest with
  | nil => exact (hf.stops stopsAt_nil).dropWhile hp
  | cons c rest ih =>
    by_cases hc : c ∈ gaps
    · have hnext := stopsAt_cons hc rest
      rw [(hf.stops hnext).dropWhile hp, hnext.dropWhile hp]
    · rw [hf.keeps hc, List.dropWhile_cons, List.dropWhile_cons, ih, apply_ite f, hf.keeps hc]

/-- The next character belongs to such a run if it did. -/
theorem any_head? : (f rest).head?.any p = rest.head?.any p := by
  by_cases hnext : StopsAt gaps rest
  · rw [(hf.stops hnext).any_head? hp, hnext.any_head? hp]
  · cases rest with
    | nil => exact absurd stopsAt_nil hnext
    | cons c rest => rw [hf.keeps fun hc => hnext (stopsAt_cons hc rest)]; rfl

end RewritesAt

end RewritesAt

/-- The same token is read if the text after it is rewritten at blanks and comments. -/
theorem Scanner.LeafOf.rewritten {gaps : List Char} {f : List Char → List Char}
    (hf : RewritesAt gaps f) (hgaps : gaps ⊆ ['\n', ' ', '#']) {s : Scanner} {c : Char}
    {rest : List Char} {leaf : Leaf (c :: rest)} (h : s.LeafOf c rest leaf) :
    ∃ leaf' : Leaf (c :: f rest), s.LeafOf c (f rest) leaf' ∧ leaf'.token = leaf.token ∧
      leaf'.used = leaf.used ∧ leaf'.separates = leaf.separates ∧ leaf'.rest = f leaf.rest := by
  have hends {p : Char → Bool} (hp : ['\n', ' ', '#'].any p = false) : gaps.any p = false :=
    List.any_eq_false.2 fun d hd => List.any_eq_false.1 hp d (hgaps hd)
  have hdigit : gaps.any Char.isDigit = false := hends rfl
  have hnumber : s.beginsNumber c (f rest) = s.beginsNumber c rest := by
    rw [Scanner.beginsNumber, Scanner.beginsNumber, hf.any_head? hdigit]
  cases h with
  | word hc =>
    have hword : gaps.any isWordChar = false := hends rfl
    refine ⟨_, .word hc, ?_, ?_, rfl, hf.dropWhile hword rest⟩ <;>
      simp only [Scanner.word, Leaf.run, hf.takeWhile hword]
  | number hc =>
    refine ⟨_, .number (by rwa [hnumber]), ?_, ?_, rfl, hf.dropWhile hdigit rest⟩ <;>
      simp only [Scanner.number, Leaf.run, hf.takeWhile hdigit]
  | operator hc hnum =>
    have hoperator : gaps.any isOperatorChar = false := hends rfl
    have hoperand : gaps.any beginsOperand = false := hends rfl
    refine ⟨_, .operator hc (hnumber.trans hnum), ?_, ?_, rfl, hf.dropWhile hoperator rest⟩ <;>
      simp only [Scanner.operator, Leaf.run, hf.takeWhile hoperator, hf.dropWhile hoperator,
        hf.any_head? hoperand]
  | separator hc => exact ⟨_, .separator hc, rfl, rfl, rfl, rfl⟩

end Offside
