import Offside.Proofs.Token.Stack

/-!
# Texts read piece by piece

What the token trees of a text are when the text is given as a sequence of pieces.

* `Scanner.Lexes`: a piece of text is read as some tokens, whatever follows it, as long as that does
  not continue the last of them. `Scanner.Lexes.append`: pieces are read one after another.
* `Scanner.lexes_word`, `Scanner.lexes_number`, `Scanner.lexes_operator`, `Scanner.lexes_sign`,
  `Scanner.lexes_comma`, `Scanner.lexes_blank`, `Scanner.lexes_group`: the pieces.
-/

namespace Offside

namespace Scanner

/-- Before a text that `follows` allows, a piece of text is read as some tokens. -/
def Lexes (follows : List Char → Prop) (s : Scanner) (text : List Char) (ts : List Token)
    (separated : Bool) : Prop :=
  ∀ rest, follows rest → ∀ inBackticks groups before,
    s.trees inBackticks groups before (text ++ rest)
      = (s.past text separated).trees inBackticks groups (ts.reverse ++ before) rest

/-- A whole text that is read piece by piece. -/
theorem Lexes.ofSource {f : List Char → Prop} {source : String} {ts : List Token} {x : Bool}
    (h : Lexes f initial source.toList ts x) (hf : f []) : Token.ofSource source = .ok ts := by
  have htrees := h [] hf false [] []
  rw [List.append_nil, List.append_nil, trees_nil, List.reverse_reverse] at htrees
  exact (Token.ofSource_eq_trees source).trans htrees

/-- What follows does not continue a word or a number. -/
def EndsWord (rest : List Char) : Prop := ∀ c, rest.head? = some c → isWordChar c = false

/-- A word ends before a character that cannot continue it. -/
theorem endsWord_cons {c : Char} (h : isWordChar c = false) (rest : List Char) :
    EndsWord (c :: rest) := by
  intro d hd
  cases hd
  exact h

/-- Nothing follows the end of a text. -/
theorem endsWord_nil : EndsWord [] := fun _ h => nomatch h

/-- Anything may follow. -/
def Anything (_ : List Char) : Prop := True

@[simp] theorem past_past (s : Scanner) (a b : List Char) (x y : Bool) :
    (s.past a x).past b y = s.past (a ++ b) y := by
  simp only [past, Cursor.after_append]

@[simp] theorem past_cursor (s : Scanner) (a : List Char) (x : Bool) :
    (s.past a x).cursor = s.cursor.after a := rfl

@[simp] theorem past_separated (s : Scanner) (a : List Char) (x : Bool) :
    (s.past a x).separated = x := rfl

/-- Pieces are read one after another, if the second does not continue the first. -/
theorem Lexes.append {f g : List Char → Prop} {s : Scanner} {a b : List Char}
    {ts us : List Token} {x y : Bool} (ha : Lexes f s a ts x) (hb : Lexes g (s.past a x) b us y)
    (hfg : ∀ rest, g rest → f (b ++ rest)) : Lexes g s (a ++ b) (ts ++ us) y := by
  intro rest hrest inBackticks groups before
  rw [List.append_assoc, ha _ (hfg rest hrest), hb rest hrest, past_past, List.reverse_append,
    List.append_assoc]

/-- A piece that anything may follow may be followed by what ends a word. -/
theorem Lexes.of_anything {f : List Char → Prop} {s : Scanner} {a : List Char} {ts : List Token}
    {x : Bool} (h : Lexes Anything s a ts x) : Lexes f s a ts x :=
  fun rest _ => h rest trivial

/-- A run of characters ends where the text after it begins. -/
theorem run_append {p : Char → Bool} (run : List Char) {rest : List Char}
    (hrun : ∀ c ∈ run, p c = true) (hrest : ∀ c, rest.head? = some c → p c = false) :
    (run ++ rest).takeWhile p = run ∧ (run ++ rest).dropWhile p = rest := by
  rw [List.takeWhile_append_of_pos hrun, List.dropWhile_append_of_pos hrun]
  cases rest with
  | nil => simp
  | cons c cs => simp [hrest c rfl]

/-- A space separates. -/
theorem lexes_blank (s : Scanner) : Lexes Anything s [' '] [] true :=
  fun _ _ _ _ _ => trees_blank (by decide)

/-- A line feed separates. -/
theorem lexes_lineFeed (s : Scanner) : Lexes Anything s ['\n'] [] true :=
  fun _ _ _ _ _ => trees_blank (by decide)

/-- A run of characters, which ends where the text after it begins. -/
theorem lexes_run {follows : List Char → Prop} {s : Scanner} {p : Char → Bool}
    (token : List Char → Token) {c : Char} {cs : List Char} (hcs : ∀ d ∈ cs, p d = true)
    (hends : ∀ rest, follows rest → ∀ d, rest.head? = some d → p d = false)
    (h : ∀ rest, follows rest → s.LeafOf c (cs ++ rest) (.run p token c (cs ++ rest))) :
    Lexes follows s (c :: cs) [token (c :: cs)] false := by
  intro rest hrest inBackticks groups before
  obtain ⟨htake, hdrop⟩ := run_append cs hcs (hends rest hrest)
  rw [List.cons_append, trees_leaf (h rest hrest)]
  simp only [Leaf.run, htake, hdrop]
  rfl

/-- A word. -/
theorem lexes_word (s : Scanner) {c : Char} {cs : List Char} (hc : isWordStart c = true)
    (hcs : ∀ d ∈ cs, isWordChar d = true) :
    Lexes EndsWord s (c :: cs)
      [wordToken (String.ofList (c :: cs)) (s.locate (c :: cs))] false :=
  lexes_run _ hcs (fun _ hrest => hrest) fun _ _ => .word hc

/-- What ends a word ends a number. -/
theorem EndsWord.isDigit {rest : List Char} (h : EndsWord rest) (d : Char)
    (hd : rest.head? = some d) : d.isDigit = false :=
  (Bool.or_eq_false_iff.1 (h d hd)).2

/-- A number. -/
theorem lexes_number (s : Scanner) {c : Char} {cs : List Char} (hc : c.isDigit = true)
    (hcs : ∀ d ∈ cs, d.isDigit = true) :
    Lexes EndsWord s (c :: cs)
      [Token.leaf .number (String.ofList (c :: cs)) (s.locate (c :: cs))] false :=
  lexes_run _ hcs (fun _ => EndsWord.isDigit) fun _ _ => .number (.inl hc)

/-- A number with a minus sign, where the sign cannot be an operator. -/
theorem lexes_negative (s : Scanner) {c : Char} {cs : List Char} (hs : s.separated = true)
    (hc : c.isDigit = true) (hcs : ∀ d ∈ cs, d.isDigit = true) :
    Lexes EndsWord s ('-' :: c :: cs)
      [Token.leaf .number (String.ofList ('-' :: c :: cs)) (s.locate ('-' :: c :: cs))] false := by
  refine lexes_run _ (List.forall_mem_cons.2 ⟨hc, hcs⟩) (fun _ => EndsWord.isDigit)
    fun rest _ => .number (.inr ?_)
  simp [beginsNumber, hs, hc]

/-- An operator, which ends where no operator character follows. -/
theorem lexes_operatorToken {follows : List Char → Prop} {s : Scanner} {c : Char} {cs : List Char}
    (attached : Bool) (hop : ∀ d ∈ c :: cs, isOperatorChar d = true)
    (hends : ∀ rest, follows rest → ∀ d, rest.head? = some d → isOperatorChar d = false)
    (hnum : ∀ rest, follows rest → s.beginsNumber c (cs ++ rest) = false)
    (hattached : ∀ rest, follows rest → rest.head?.any beginsOperand = attached) :
    Lexes follows s (c :: cs)
      [operatorToken (String.ofList (c :: cs)) s.separated attached (s.locate (c :: cs))] false := by
  obtain ⟨hc, hcs⟩ := List.forall_mem_cons.1 hop
  refine lexes_run (fun text => operatorToken (String.ofList text) s.separated attached
    (s.locate text)) hcs hends fun rest hrest => ?_
  have hleaf := LeafOf.operator hc (hnum rest hrest)
  rwa [operator, (run_append cs hcs (hends rest hrest)).2, hattached rest hrest] at hleaf

/-- An operator before a space. -/
theorem lexes_operator (s : Scanner) {c : Char} {cs : List Char}
    (hop : ∀ d ∈ c :: cs, isOperatorChar d = true) :
    Lexes (fun rest => rest.head? = some ' ') s (c :: cs)
      [operatorToken (String.ofList (c :: cs)) s.separated false (s.locate (c :: cs))] false := by
  refine lexes_operatorToken false hop (fun rest hrest d hd => ?_) (fun rest hrest => ?_)
    fun rest hrest => ?_
  · cases hrest.symm.trans hd
    decide
  · have hdigit : (cs ++ rest).head?.any Char.isDigit = false := by
      cases cs with
      | nil =>
        rw [List.nil_append, hrest]
        rfl
      | cons d ds =>
        have hd : isOperatorChar d = true := hop d (by simp)
        have hall : ∀ d ∈ operatorChars, (d.isDigit == false) = true :=
          List.all_eq_true.1 (by decide)
        exact beq_iff_eq.1 (hall d (List.contains_iff_mem.1 hd))
    rw [beginsNumber, hdigit, Bool.and_false]
  · rw [hrest]
    decide

/-- What can begin an operand is no operator character. -/
theorem isOperatorChar_of_beginsOperand {c : Char} (h : beginsOperand c = true) :
    isOperatorChar c = false := by
  by_cases hop : isOperatorChar c = true
  · rw [beginsOperand, CharClass.of?_operator hop] at h
    cases h
  · simpa using hop

/-- A star or an ampersand that is separated from what is before it and attached to its operand. -/
theorem lexes_sign (s : Scanner) {c : Char} {word : Reserved} (hs : s.separated = true)
    (hc : isOperatorChar c = true) (hminus : c ≠ '-')
    (hword : Reserved.ofAttached? (String.ofList [c]) = some word) :
    Lexes (fun rest => rest.head?.any beginsOperand = true) s [c]
      [Token.leaf .reserved word.text (s.locate [c])] false := by
  have htoken : operatorToken (String.ofList [c]) s.separated true (s.locate [c])
      = Token.leaf .reserved word.text (s.locate [c]) := by
    rw [operatorToken, hword, hs]
    rfl
  rw [← htoken]
  refine lexes_operatorToken true (List.forall_mem_singleton.2 hc) (fun rest hrest d hd => ?_)
    (fun rest _ => ?_) fun _ hrest => hrest
  · rw [hd] at hrest
    exact isOperatorChar_of_beginsOperand hrest
  · rw [beginsNumber, beq_eq_false_iff_ne.2 hminus, Bool.false_and, Bool.false_and]

/-- A comma. -/
theorem lexes_comma (s : Scanner) :
    Lexes Anything s [','] [Token.leaf .comma "," (s.locate [','])] true :=
  fun _ _ _ _ _ => trees_leaf (.separator (.inl rfl))

/-- A group in brackets other than backticks. -/
theorem lexes_group (s : Scanner) {bracket : Bracket} {inner : List Char} {ts : List Token}
    {x : Bool} (hbracket : bracket ≠ .backtick)
    (h : Lexes EndsWord (s.past [bracket.opener] true) inner ts x) :
    Lexes Anything s (bracket.opener :: (inner ++ [bracket.closer]))
      [Token.block (.bracketed bracket) (s.locate (bracket.opener :: (inner ++ [bracket.closer]))) ts]
      false := by
  intro rest _ inBackticks groups before
  have hends : EndsWord (bracket.closer :: rest) :=
    endsWord_cons (by cases bracket <;> decide) rest
  have hinside : (inBackticks || bracket == .backtick) = inBackticks := by
    rw [beq_eq_false_iff_ne.2 hbracket, Bool.or_false]
  have houtside : (inBackticks && bracket != .backtick) = inBackticks := by
    rw [bne, beq_eq_false_iff_ne.2 hbracket, Bool.not_false, Bool.and_true]
  generalize hmid : (s.past [bracket.opener] true).past inner x = s'
  have hlocate : (s.locate [bracket.opener]).join (s'.locate [bracket.closer])
      = s.locate (bracket.opener :: (inner ++ [bracket.closer])) := by
    have hcursor : s'.cursor = s.cursor.after (bracket.opener :: inner) := by
      rw [← hmid, past_past]
      rfl
    have hstop : s'.cursor.after [bracket.closer]
        = s.cursor.after (bracket.opener :: (inner ++ [bracket.closer])) := by
      rw [hcursor, ← Cursor.after_append, List.cons_append]
    refine Location.eq_of_ends (Location.join_start ?_) ((Location.join_stop ?_).trans hstop)
    · show s.cursor ≤ s'.cursor
      rw [hcursor]
      exact Cursor.le_after _ _
    · show s.cursor.after [bracket.opener] ≤ s'.cursor.after [bracket.closer]
      rw [hstop, ← List.singleton_append, Cursor.after_append]
      exact Cursor.le_after _ _
  have hpast : s'.past [bracket.closer] false
      = s.past (bracket.opener :: (inner ++ [bracket.closer])) false := by
    rw [← hmid, past_past, past_past]
    rfl
  rw [List.cons_append, List.append_assoc, List.singleton_append,
    trees_opens fun hb => absurd hb hbracket, hinside, h _ hends, hmid, List.append_nil,
    trees_closes ⟨bracket, s.locate [bracket.opener], before⟩ fun hb => absurd hb hbracket,
    houtside, hpast, List.reverse_reverse, OpenGroup.close, hlocate]
  rfl

end Scanner

end Offside
