import Offside.Proofs.Lexeme.Leaves

/-!
# Lexemes

A source text may be read as a flat sequence of lexemes: tokens without interior, and brackets that
open and close groups.

* `Lexeme`: one item of that sequence. `Scanner.scan`: all lexemes of a text, up to its end or to a
  character that cannot be read.
* `closed?_eq_some_iff`: a group is closed by its closer.
* `Scanner.scan_leaf` and its siblings: what a scan begins with, for each kind of thing that a text
  can begin with. `Scanner.Scans`: these kinds as the cases of an induction. `Scanner.scans`: every
  scan goes on from case to case. `Scanner.Scans.eq`: and so there is only one.
-/

namespace Offside

/-- A token without interior, or a bracket. -/
inductive Lexeme where
  /-- A token without interior. -/
  | leaf (token : Token)
  /-- The opener of a group. -/
  | opens (bracket : Bracket) (loc : Location)
  /-- The closer of a group. -/
  | closes (bracket : Bracket) (loc : Location)

/-- The lexemes of a text, and what stopped the reading before its end. -/
structure Scan where
  /-- The lexemes in order. -/
  lexemes : List Lexeme
  /-- The character that could not be read, if there is one. -/
  stop? : Option (Located LexicalError)

/-- One more lexeme in front. -/
def Scan.cons (lexeme : Lexeme) (scan : Scan) : Scan := ⟨lexeme :: scan.lexemes, scan.stop?⟩

/-! ## Brackets -/

/-- A backtick is read as an opener, also where it closes a group. -/
theorem CharClass.ne_backtick_of_closer {c : Char} {bracket : Bracket}
    (h : CharClass.of? c = some (.closer bracket)) : bracket ≠ .backtick := by
  rintro rfl
  cases h.symm.trans ((congrArg CharClass.of? (contains_of_of? h)).trans
    (of?_opener Bracket.backtick))

/-- No bracket is a line feed. -/
theorem Bracket.opener_ne_lineFeed (bracket : Bracket) : bracket.opener ≠ '\n' := by
  cases bracket <;> decide

theorem Bracket.closer_ne_lineFeed (bracket : Bracket) : bracket.closer ≠ '\n' := by
  cases bracket <;> decide

section Closed

variable {inBackticks : Bool} {c : Char} {bracket : Bracket}

/-- A group is closed by its closer, and one of backticks only where one is open. -/
theorem closed?_eq_some_iff : closed? inBackticks c = some bracket ↔
    c = bracket.closer ∧ (bracket = .backtick → inBackticks = true) := by
  constructor
  · intro h
    unfold closed? at h
    split at h
    · rename_i hc
      cases h
      exact ⟨CharClass.contains_of_of? hc,
        fun hb => absurd hb (CharClass.ne_backtick_of_closer hc)⟩
    · rename_i hc
      split at h
      · cases h
        exact ⟨CharClass.contains_of_of? hc, fun _ => ‹_›⟩
      · cases h
    · cases h
  · rintro ⟨rfl, hb⟩
    cases bracket with
    | backtick =>
      rw [hb rfl]
      decide
    | paren | square | brace => cases inBackticks <;> decide

/-- An opener closes no group, unless it is a backtick where a group of these is open. -/
theorem closed?_opener (hb : bracket = .backtick → inBackticks = false) :
    closed? inBackticks bracket.opener = none := by
  rw [closed?, CharClass.of?_opener]
  cases bracket with
  | backtick => exact if_neg (Bool.eq_false_iff.1 (hb rfl))
  | paren | square | brace => rfl

/-- No other character closes a group. -/
theorem closed?_eq_none (hopener : ∀ bracket, CharClass.of? c ≠ some (.opener bracket))
    (hcloser : ∀ bracket, CharClass.of? c ≠ some (.closer bracket)) :
    closed? inBackticks c = none := by
  unfold closed?
  split
  · exact absurd ‹_› (hcloser _)
  · exact absurd ‹_› (hopener _)
  · rfl

end Closed

/-! ## Scanning -/

namespace Scanner

/-- Reading stops at the next character. -/
def stop (s : Scanner) (cause : LexicalError) : Scan := ⟨[], some ⟨cause, Location.one s.cursor⟩⟩

/-- The lexemes of a text. -/
def scan (inBackticks : Bool) (s : Scanner) : List Char → Scan
  | [] => ⟨[], none⟩
  | c :: rest =>
    match s.leaf? c rest with
    | some leaf =>
      .cons (.leaf leaf.token) (scan inBackticks (s.past leaf.used leaf.separates) leaf.rest)
    | none =>
      match closed? inBackticks c with
      | some bracket =>
        .cons (.closes bracket (s.locate [c]))
          (scan (inBackticks && bracket != .backtick) (s.past [c] false) rest)
      | none =>
        match CharClass.of? c with
        | some (.opener bracket) =>
          .cons (.opens bracket (s.locate [c]))
            (scan (inBackticks || bracket == .backtick) (s.past [c] true) rest)
        | some .blank => scan inBackticks (s.past [c] true) rest
        | some .comment =>
          scan inBackticks (s.past (c :: rest.takeWhile continuesComment) true)
            (rest.dropWhile continuesComment)
        | some .tab => s.stop .tab
        | _ => s.stop (.unrecognized c)
  termination_by text => text.length
  decreasing_by
    · exact leaf.length_lt
    · exact Nat.lt_succ_self _
    · exact Nat.lt_succ_self _
    · exact Nat.lt_succ_self _
    · exact length_dropWhile_lt continuesComment c rest

/-- What stops the reading. -/
inductive Stops (c : Char) : LexicalError → Prop
  /-- A tab. -/
  | tab (hc : CharClass.of? c = some .tab) : Stops c .tab
  /-- A character of no class. -/
  | unrecognized (hc : CharClass.of? c = none) : Stops c (.unrecognized c)

section Equations

variable {inBackticks : Bool} {s : Scanner} {c : Char} {rest : List Char} {bracket : Bracket}

/-- A bracket is no token without interior. -/
theorem not_isPlain_closer (bracket : Bracket) : ¬ IsPlain bracket.closer :=
  not_isPlain (by cases bracket <;> decide)

theorem scan_nil : s.scan inBackticks [] = ⟨[], none⟩ := by rw [scan]

theorem scan_leaf {leaf : Leaf (c :: rest)} (h : s.LeafOf c rest leaf) :
    s.scan inBackticks (c :: rest)
      = .cons (.leaf leaf.token) ((s.past leaf.used leaf.separates).scan inBackticks leaf.rest) := by
  rw [scan, leaf?_eq_some_iff.2 h]

theorem scan_closes (hb : bracket = .backtick → inBackticks = true) :
    s.scan inBackticks (bracket.closer :: rest)
      = .cons (.closes bracket (s.locate [bracket.closer]))
        ((s.past [bracket.closer] false).scan (inBackticks && bracket != .backtick) rest) := by
  rw [scan, leaf?_eq_none_iff.2 (not_isPlain_closer bracket), closed?_eq_some_iff.2 ⟨rfl, hb⟩]

theorem scan_opens (hb : bracket = .backtick → inBackticks = false) :
    s.scan inBackticks (bracket.opener :: rest)
      = .cons (.opens bracket (s.locate [bracket.opener]))
        ((s.past [bracket.opener] true).scan (inBackticks || bracket == .backtick) rest) := by
  have hplain : ¬ IsPlain bracket.opener := not_isPlain (by rw [CharClass.of?_opener]; simp)
  rw [scan, leaf?_eq_none_iff.2 hplain, closed?_opener hb, CharClass.of?_opener]

/-- What is neither a token without interior nor a bracket. -/
theorem scan_of_class {k : Option CharClass} (hc : CharClass.of? c = k)
    (hk : k ∈ [none, some .blank, some .comment, some .tab]) :
    s.leaf? c rest = none ∧ closed? inBackticks c = none := by
  simp only [List.mem_cons, List.not_mem_nil, or_false] at hk
  refine ⟨leaf?_eq_none_iff.2 (not_isPlain ?_), closed?_eq_none ?_ ?_⟩
  all_goals rcases hk with rfl | rfl | rfl | rfl <;> simp [hc]

theorem scan_blank (hc : CharClass.of? c = some .blank) :
    s.scan inBackticks (c :: rest) = (s.past [c] true).scan inBackticks rest := by
  obtain ⟨hleaf, hclosed⟩ := scan_of_class hc (by simp)
  rw [scan, hleaf, hclosed, hc]

theorem scan_comment : s.scan inBackticks ('#' :: rest)
    = (s.past ('#' :: rest.takeWhile continuesComment) true).scan inBackticks
      (rest.dropWhile continuesComment) := by
  have hc : CharClass.of? '#' = some .comment := by decide
  obtain ⟨hleaf, hclosed⟩ := scan_of_class hc (by simp)
  rw [scan, hleaf, hclosed, hc]

theorem scan_stops {cause : LexicalError} (h : Stops c cause) :
    s.scan inBackticks (c :: rest) = s.stop cause := by
  cases h with
  | tab hc =>
    obtain ⟨hleaf, hclosed⟩ := scan_of_class hc (by simp)
    rw [scan, hleaf, hclosed, hc]
  | unrecognized hc =>
    obtain ⟨hleaf, hclosed⟩ := scan_of_class hc (by simp)
    rw [scan, hleaf, hclosed, hc]

end Equations

/-- How the scan of a text goes on from what comes first. -/
inductive Scans : (inBackticks : Bool) → Scanner → List Char → Scan → Prop
  /-- The end of the text. -/
  | nil {inBackticks : Bool} {s : Scanner} : Scans inBackticks s [] ⟨[], none⟩
  /-- A character that stops the reading. -/
  | stops {inBackticks : Bool} {s : Scanner} {c : Char} {rest : List Char} {cause : LexicalError}
      (h : Stops c cause) : Scans inBackticks s (c :: rest) (s.stop cause)
  /-- A blank. -/
  | blank {inBackticks : Bool} {s : Scanner} {c : Char} {rest : List Char} {scan : Scan}
      (hc : CharClass.of? c = some .blank)
      (later : Scans inBackticks (s.past [c] true) rest scan) : Scans inBackticks s (c :: rest) scan
  /-- A comment. -/
  | comment {inBackticks : Bool} {s : Scanner} {rest : List Char} {scan : Scan}
      (later : Scans inBackticks (s.past ('#' :: rest.takeWhile continuesComment) true)
        (rest.dropWhile continuesComment) scan) : Scans inBackticks s ('#' :: rest) scan
  /-- A token without interior. -/
  | leaf {inBackticks : Bool} {s : Scanner} {c : Char} {rest : List Char} {leaf : Leaf (c :: rest)}
      {scan : Scan} (h : s.LeafOf c rest leaf)
      (later : Scans inBackticks (s.past leaf.used leaf.separates) leaf.rest scan) :
      Scans inBackticks s (c :: rest) (.cons (.leaf leaf.token) scan)
  /-- The opener of a group. -/
  | opens {inBackticks : Bool} {s : Scanner} {bracket : Bracket} {rest : List Char} {scan : Scan}
      (hb : bracket = .backtick → inBackticks = false)
      (later : Scans (inBackticks || bracket == .backtick) (s.past [bracket.opener] true) rest
        scan) :
      Scans inBackticks s (bracket.opener :: rest)
        (.cons (.opens bracket (s.locate [bracket.opener])) scan)
  /-- The closer of a group. -/
  | closes {inBackticks : Bool} {s : Scanner} {bracket : Bracket} {rest : List Char} {scan : Scan}
      (hb : bracket = .backtick → inBackticks = true)
      (later : Scans (inBackticks && bracket != .backtick) (s.past [bracket.closer] false) rest
        scan) :
      Scans inBackticks s (bracket.closer :: rest)
        (.cons (.closes bracket (s.locate [bracket.closer])) scan)

/-- Every scan goes on in this way. -/
theorem scans (inBackticks : Bool) (s : Scanner) (text : List Char) :
    Scans inBackticks s text (s.scan inBackticks text) := by
  fun_induction scan inBackticks s text with
  | case1 => exact .nil
  | case2 _ _ _ _ leaf hleaf ih => exact .leaf (leaf?_eq_some_iff.1 hleaf) ih
  | case3 _ _ _ _ _ _ hclosed ih =>
    obtain ⟨rfl, hb⟩ := closed?_eq_some_iff.1 hclosed
    exact .closes hb ih
  | case4 inBackticks _ c _ _ hclosed bracket hc ih =>
    obtain rfl : c = bracket.opener := CharClass.contains_of_of? hc
    refine .opens (fun hb => ?_) ih
    subst hb
    -- a backtick would close the group that is open
    rw [Bool.eq_false_iff]
    rintro rfl
    cases hclosed
  | case5 _ _ _ _ _ _ hc ih => exact .blank hc ih
  | case6 _ _ c _ _ _ hc ih =>
    obtain rfl : c = '#' := CharClass.contains_of_of? hc
    exact .comment ih
  | case7 _ _ _ _ _ _ hc => exact .stops (.tab hc)
  | case8 _ _ c _ hleaf hclosed hopener hblank hcomment htab =>
    refine .stops (.unrecognized ?_)
    refine (closer_or_none (leaf?_eq_none_iff.1 hleaf) hopener ?_).resolve_left ?_
    · simp only [List.mem_cons, List.not_mem_nil, or_false, not_or]
      exact ⟨hblank, hcomment, htab⟩
    · rintro ⟨bracket, hc⟩
      rw [closed?, hc] at hclosed
      cases hclosed

/-- There is only one scan of a text. -/
theorem Scans.eq {inBackticks : Bool} {s : Scanner} {text : List Char} {scan : Scan}
    (h : Scans inBackticks s text scan) : s.scan inBackticks text = scan := by
  induction h with
  | nil => exact scan_nil
  | stops h => exact scan_stops h
  | blank hc _ ih => exact (scan_blank hc).trans ih
  | comment _ ih => exact scan_comment.trans ih
  | leaf h _ ih => rw [scan_leaf h, ih]
  | opens hb _ ih => rw [scan_opens hb, ih]
  | closes hb _ ih => rw [scan_closes hb, ih]

end Scanner

end Offside
