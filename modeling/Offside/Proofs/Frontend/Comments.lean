import Offside.Frontend
import Offside.Proofs.Lexeme.Respacing

/-!
# Comments never matter

A comment goes from a number sign to the end of its line. Spaces may stand for it.

* `inComment`, `commentChars`, `blankComments`: which characters belong to comments, and a text with
  spaces for them.
* `Scanner.comment_ends`: without tabs a comment is scanned up to the end of its line.
* `Scanner.Scans.blankComments`: so both texts have the same lexemes, at the same locations.
* `Frontend.comments_ignored`: every stage of the front end has the same outcome for both, be it a
  program or a diagnostic.
-/

namespace Offside

/-! ## Characters of comments -/

/-- Whether a character belongs to a comment, where `inside` says whether the character before it
does. -/
def inComment (inside : Bool) (c : Char) : Bool := c != '\n' && (inside || c == '#')

/-- The characters of a text that belong to comments. -/
def commentChars (inside : Bool) : List Char → List Char
  | [] => []
  | c :: rest =>
    if inComment inside c then c :: commentChars true rest else commentChars false rest

/-- A text with spaces for the characters that belong to comments. -/
def blankComments (inside : Bool) : List Char → List Char
  | [] => []
  | c :: rest =>
    if inComment inside c then ' ' :: blankComments true rest else c :: blankComments false rest

example : String.ofList (blankComments false "a #\x7bb\n(c)#d".toList) = "a    \n(c)  " := by decide

section Outside

variable {c : Char}

/-- Outside of a comment a number sign alone begins one. -/
theorem inComment_outside (hc : c ≠ '#') : inComment false c = false := by
  simp [inComment, hc]

theorem blankComments_cons (hc : c ≠ '#') (rest : List Char) :
    blankComments false (c :: rest) = c :: blankComments false rest := by
  rw [blankComments, inComment_outside hc, if_neg Bool.false_ne_true]

theorem commentChars_cons (hc : c ≠ '#') (rest : List Char) :
    commentChars false (c :: rest) = commentChars false rest := by
  rw [commentChars, inComment_outside hc, if_neg Bool.false_ne_true]

theorem blankComments_comment (rest : List Char) :
    blankComments false ('#' :: rest) = ' ' :: blankComments true rest := rfl

/-- The text is rewritten at its comments, and no run of characters sees the spaces. -/
theorem rewrites_blankComments : RewritesAt ['#', ' '] (blankComments false) where
  keeps hc := blankComments_cons (List.ne_of_not_mem_cons hc)
  stops {rest} hrest := by
    cases rest with
    | nil => exact stopsAt_nil
    | cons c rest =>
      by_cases hc : c = '#'
      · subst hc
        exact stopsAt_cons (by simp) _
      · rw [blankComments_cons hc]
        exact stopsAt_cons (hrest c rfl) _

/-- No comment is in a text without number signs. -/
theorem commentChars_append {used : List Char} (h : '#' ∉ used) (rest : List Char) :
    commentChars false (used ++ rest) = commentChars false rest := by
  induction used with
  | nil => rfl
  | cons c used ih =>
    rw [List.mem_cons, not_or] at h
    rw [List.cons_append, commentChars_cons (Ne.symm h.1), ih h.2]

end Outside

/-- Reading passes over as many rows and columns. -/
theorem after_blankComments (inside : Bool) (text : List Char) (a : Cursor) :
    a.after (blankComments inside text) = a.after text := by
  induction text generalizing inside a with
  | nil => rfl
  | cons c rest ih =>
    rw [blankComments]
    split
    · rename_i hin
      have hc : c ≠ '\n' := by
        rintro rfl
        cases hin
      have hstep : a.step ' ' = a.step c := by
        rw [Cursor.step, Cursor.step, if_neg (by decide), if_neg hc]
      rw [Cursor.after_cons, Cursor.after_cons, ih, hstep]
    · rw [Cursor.after_cons, Cursor.after_cons, ih]

/-! ## Scanning -/

namespace Scanner

/-- A comment without tabs is scanned up to the end of its line: it becomes spaces, and what follows
it has its comments where the text has them. -/
theorem comment_ends {rest : List Char} (htab : '\t' ∉ commentChars true rest) :
    blankComments true rest
        = List.replicate (rest.takeWhile continuesComment).length ' '
          ++ blankComments false (rest.dropWhile continuesComment) ∧
      '\t' ∉ commentChars false (rest.dropWhile continuesComment) := by
  induction rest with
  | nil => exact ⟨rfl, List.not_mem_nil⟩
  | cons c rest ih =>
    by_cases hbreak : c = '\n'
    · subst hbreak
      exact ⟨rfl, htab⟩
    · have hin : inComment true c = true := by simp [inComment, hbreak]
      rw [commentChars, if_pos hin, List.mem_cons, not_or] at htab
      have hgoes : continuesComment c = true := by
        simp [continuesComment, hbreak, Ne.symm htab.1]
      rw [blankComments, if_pos hin, List.takeWhile_cons_of_pos hgoes,
        List.dropWhile_cons_of_pos hgoes]
      obtain ⟨hblank, htail⟩ := ih htab.2
      exact ⟨congrArg (List.cons ' ') hblank, htail⟩

/-- Spaces where a lexeme may begin are skipped. -/
theorem scan_spaces (inBackticks : Bool) (s : Scanner) (k : Nat) (rest : List Char) :
    s.scan inBackticks (' ' :: List.replicate k ' ' ++ rest)
      = (s.past (' ' :: List.replicate k ' ') true).scan inBackticks rest := by
  rw [List.cons_append, scan_blank (by decide), Skips.spaces k _ _ _ rfl]
  rfl

/-- The spaces for a comment lead past it. -/
theorem past_spaces (s : Scanner) (rest : List Char) :
    s.past (' ' :: List.replicate (rest.takeWhile continuesComment).length ' ') true
      = s.past ('#' :: rest.takeWhile continuesComment) true := by
  have hspaces : '\n' ∉ ' ' :: List.replicate (rest.takeWhile continuesComment).length ' ' := by
    simp [List.mem_replicate]
  rw [past, past, Cursor.after_of_notMem hspaces,
    Cursor.after_of_notMem (comment_lineFeed_notMem rest)]
  simp only [List.length_cons, List.length_replicate]

/-- Only comments begin with a number sign. -/
theorem ne_numberSign {c : Char} (hc : CharClass.of? c ≠ some .comment) : c ≠ '#' := by
  rintro rfl
  exact hc (by decide)

/-- Spaces for comments leave the lexemes as they are. -/
theorem Scans.blankComments {inBackticks : Bool} {s : Scanner} {text : List Char} {scan : Scan}
    (h : s.Scans inBackticks text scan) (htab : '\t' ∉ commentChars false text) :
    s.scan inBackticks (blankComments false text) = scan := by
  induction h with
  | nil => exact scan_nil
  | @stops _ _ c _ _ hstops =>
    have hsign : c ≠ '#' := by
      rcases hstops with hc | hc <;> exact ne_numberSign (by simp [hc])
    rw [blankComments_cons hsign, scan_stops hstops]
  | @blank _ _ c _ _ hc _ ih =>
    have hsign : c ≠ '#' := ne_numberSign (by simp [hc])
    rw [commentChars_cons hsign] at htab
    rw [blankComments_cons hsign, scan_blank hc, ih htab]
  | @comment inBackticks s rest _ _ ih =>
    -- the comment and the spaces for it lead to the same place
    have htab' : '\t' ∉ commentChars true rest := fun h => htab (List.mem_cons_of_mem '#' h)
    obtain ⟨hblank, htail⟩ := comment_ends htab'
    rw [blankComments_comment, hblank, ← List.cons_append, scan_spaces, past_spaces]
    exact ih htail
  | @leaf _ s c rest leaf _ hleaf _ ih =>
    obtain ⟨leaf', hleaf', htoken, hused, hseparates, hrest⟩ :=
      hleaf.rewritten rewrites_blankComments (by simp)
    have hfirst : c ≠ '#' := fun hc => not_isPlain (by decide) (hc ▸ hleaf.first_plain)
    have hsign : '#' ∉ leaf.used := fun hmem => not_isPlain (by decide) (hleaf.plain _ hmem)
    have htail : '\t' ∉ commentChars false (leaf.used ++ leaf.rest) := by
      rwa [leaf.used_append]
    rw [commentChars_append hsign] at htail
    rw [blankComments_cons hfirst, scan_leaf hleaf', htoken, hused, hseparates, hrest, ih htail]
  | @opens _ _ bracket _ _ hb _ ih =>
    have hsign : bracket.opener ≠ '#' := by cases bracket <;> decide
    rw [commentChars_cons hsign] at htab
    rw [blankComments_cons hsign, scan_opens hb, ih htab]
  | @closes _ _ bracket _ _ hb _ ih =>
    have hsign : bracket.closer ≠ '#' := by cases bracket <;> decide
    rw [commentChars_cons hsign] at htab
    rw [blankComments_cons hsign, scan_closes hb, ih htab]

end Scanner

/-! ## The stages -/

/-- A source text with spaces for its comments. -/
def withoutComments (source : String) : String :=
  String.ofList (blankComments false source.toList)

namespace Frontend

/-- A source text without tabs in its comments and the text with spaces for these comments have the
same tokens, the same layout and the same program, with the same locations, or fail with the same
diagnostics. -/
theorem comments_ignored (source : String) (htab : '\t' ∉ commentChars false source.toList) :
    tokenize (withoutComments source) = tokenize source ∧
      ((tokenize (withoutComments source)).bind layOut) = (tokenize source).bind layOut ∧
      ∀ requireMain, compile requireMain (withoutComments source) = compile requireMain source := by
  have hscan : Scanner.initial.scan false (withoutComments source).toList
      = Scanner.initial.scan false source.toList := by
    rw [withoutComments, String.toList_ofList]
    exact (Scanner.scans false .initial source.toList).blankComments htab
  have htokens : tokenize (withoutComments source) = tokenize source := by
    rw [tokenize, tokenize, Token.ofSource_eq_trees, Token.ofSource_eq_trees, Scanner.trees, hscan,
      Scanner.trees]
  have hspan : sourceSpan (withoutComments source) = sourceSpan source := by
    refine Location.eq_of_ends rfl ?_
    show Cursor.origin.after (withoutComments source).toList = Cursor.origin.after source.toList
    rw [withoutComments, String.toList_ofList, after_blankComments]
  refine ⟨htokens, ?_, fun requireMain => ?_⟩
  · rw [htokens]
  · rw [compile, compile, htokens, hspan]

/-- Nothing in a comment after an operator makes it attached to what follows. -/
theorem comments_ignored_operator :
    '\t' ∉ commentChars false "a -#(x\n+b #é]".toList ∧
      withoutComments "a -#(x\n+b #é]" = "a -   \n+b    " ∧
      tokenize (withoutComments "a -#(x\n+b #é]") = tokenize "a -#(x\n+b #é]" :=
  ⟨by decide, by decide, (comments_ignored _ (by decide)).1⟩

end Frontend

end Offside
