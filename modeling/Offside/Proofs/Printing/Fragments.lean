import Offside.Proofs.Layout.Rows
import Offside.Proofs.Lexeme.Pieces
import Offside.Proofs.Token.Order

/-!
# Fragments of a line

Printed text is put together from fragments, and so are its tokens.

* `Piece`: a text on one row that is read as some tokens on this row.
* `Fragment`: a piece that begins with its first token and ends with its last, where the last may be
  a word. `Fragment.join`: two fragments with a piece between them; `Fragment.group`: a fragment in
  brackets; `Fragment.sign`: a fragment after a sign.
-/

namespace Offside

open Token Scanner

/-- Whether a character is no part of a line end. -/
def isInline (c : Char) : Bool := c != '\n' && c != '\r'

/-- Characters of a class without line ends are no part of one. -/
theorem isInline_of {p : Char → Bool} (hn : p '\n' = false) (hr : p '\r' = false) {c : Char}
    (h : p c = true) : isInline c = true := by
  simp only [isInline, Bool.and_eq_true, bne_iff_ne]
  constructor
  · rintro rfl
    rw [hn] at h
    cases h
  · rintro rfl
    rw [hr] at h
    cases h

/-- A text without line ends. -/
def OneLine (text : List Char) : Prop := ∀ c ∈ text, isInline c = true

instance (text : List Char) : Decidable (OneLine text) :=
  List.decidableBAll (fun c => isInline c = true) text

theorem oneLine_nil : OneLine [] := by decide

theorem oneLine_append {a b : List Char} : OneLine (a ++ b) ↔ OneLine a ∧ OneLine b :=
  List.forall_mem_append

theorem oneLine_cons {c : Char} {a : List Char} : OneLine (c :: a) ↔ isInline c = true ∧ OneLine a :=
  List.forall_mem_cons

theorem OneLine.lineFeed {text : List Char} (h : OneLine text) : '\n' ∉ text :=
  fun hmem => absurd (h _ hmem) (by decide)

/-- Reading on one row moves a cursor by the length of the text. -/
theorem Cursor.after_line {text : List Char} (h : OneLine text) (a : Cursor) :
    a.after text = ⟨a.row, a.col + text.length⟩ := after_of_notMem h.lineFeed a

/-- Past some text a cursor is in a column. -/
theorem Cursor.after_col {text : List Char} (h : text ≠ []) (a : Cursor) :
    (a.after text).col ≠ 0 := by
  obtain ⟨front, c, rfl⟩ := (List.eq_nil_or_concat text).resolve_left h
  rw [List.concat_eq_append, after_append, after_cons, after_nil, step]
  split <;> exact Nat.succ_ne_zero _

/-- A group in brackets with some interior, which ends in a column. -/
def Token.IsGroup (t : Token) (bracket : Bracket) (interior : List Token) : Prop :=
  t.blockKind? = some (.bracketed bracket) ∧ t.loc.stop.col ≠ 0 ∧ t.children = interior

/-- A text on one row that is read as some tokens on this row, before what `follows` allows. -/
structure Piece (follows : List Char → Prop) (s : Scanner) (text : List Char) (ts : List Token)
    (separated : Bool) : Prop where
  /-- The text is read as the tokens. -/
  lexes : s.Lexes follows text ts separated
  /-- The tokens are on the row. -/
  flat : FlatAll s.cursor.row ts
  /-- The text is on one row. -/
  line : OneLine text

namespace Piece

variable {f g : List Char → Prop} {s : Scanner} {a b : List Char} {ts us : List Token} {x y : Bool}

/-- Past a piece a scanner is on the same row. -/
theorem row (h : Piece f s a ts x) (y : Bool) : (s.past a y).cursor.row = s.cursor.row := by
  rw [past_cursor, Cursor.after_line h.line]

/-- Pieces are read one after another, if the second does not continue the first. -/
theorem append (ha : Piece f s a ts x) (hb : Piece g (s.past a x) b us y)
    (hfg : ∀ rest, g rest → f (b ++ rest)) : Piece g s (a ++ b) (ts ++ us) y where
  lexes := ha.lexes.append hb.lexes hfg
  flat := by
    have := hb.flat
    rw [ha.row] at this
    exact flatAll_append.2 ⟨ha.flat, this⟩
  line := oneLine_append.2 ⟨ha.line, hb.line⟩

/-- A piece that anything may follow. -/
theorem of_anything (h : Piece Anything s a ts x) : Piece f s a ts x where
  lexes := h.lexes.of_anything
  flat := h.flat
  line := h.line

/-- Pieces that anything may follow are read one after another. -/
theorem append_anything (ha : Piece Anything s a ts x) (hb : Piece g (s.past a x) b us y) :
    Piece g s (a ++ b) (ts ++ us) y := ha.append hb fun _ _ => trivial

theorem empty (s : Scanner) : Piece Anything s [] [] s.separated where
  lexes := fun _ _ _ _ _ => rfl
  flat := flatAll_nil _
  line := oneLine_nil

theorem blank (s : Scanner) : Piece Anything s [' '] [] true where
  lexes := lexes_blank s
  flat := flatAll_nil _
  line := by decide

end Piece

/-- A token without interior that is written on one row is on this row. -/
theorem Token.flat_leaf (s : Scanner) {kind : TokenKind} {text : String} {cs : List Char}
    (hkind : kind ≠ .semicolon) (hblock : kind ≠ .block) (hne : cs ≠ []) (hline : OneLine cs) :
    (Token.leaf kind text (s.locate cs)).Flat s.cursor.row := by
  have hlength : cs.length ≠ 0 := fun h => hne (List.length_eq_zero_iff.1 h)
  refine flat_iff.2 ⟨rfl, ?_, ?_, hkind, fun h => absurd h hblock, flatAll_nil _⟩
  · show (s.cursor.after cs).row = _
    rw [Cursor.after_line hline]
  · show (s.cursor.after cs).col ≠ 0
    rw [Cursor.after_line hline]
    show s.cursor.col + cs.length ≠ 0
    omega

namespace Piece

theorem comma (s : Scanner) :
    Piece Anything s [','] [Token.leaf .comma "," (s.locate [','])] true where
  lexes := lexes_comma s
  flat := flatAll_cons.2 ⟨flat_leaf s (by decide) (by decide) (by decide) (by decide), flatAll_nil _⟩
  line := by decide

/-- A comma and a space. -/
theorem commaBlank (s : Scanner) :
    Piece Anything s [',', ' '] [Token.leaf .comma "," (s.locate [','])] true :=
  (comma s).append_anything (blank _)

/-- The token of an operator that is not attached to what follows. -/
def looseToken (operator : String) (l : Location) : Token :=
  if operator = ":" then Token.leaf .reserved Reserved.asType.text l
  else Token.leaf .operator operator l

/-- An operator and a space. -/
theorem operator (s : Scanner) {op : String} (hne : op.toList ≠ [])
    (hchars : ∀ d ∈ op.toList, isOperatorChar d = true) :
    Piece Anything s (op.toList ++ [' ']) [looseToken op (s.locate op.toList)] true := by
  have hline : OneLine op.toList :=
    fun c hc => isInline_of (by decide) (by decide) (hchars c hc)
  have htoken : operatorToken op s.separated false (s.locate op.toList)
      = looseToken op (s.locate op.toList) := by
    unfold operatorToken
    rw [Bool.and_false]
    cases Reserved.ofAttached? op <;> rfl
  have hpiece : Piece (fun rest => rest.head? = some ' ') s op.toList
      [looseToken op (s.locate op.toList)] false := by
    refine ⟨?_, flatAll_cons.2 ⟨?_, flatAll_nil _⟩, hline⟩
    · obtain ⟨c, cs, hop⟩ := List.exists_cons_of_ne_nil hne
      have := lexes_operator s (hop ▸ hchars)
      rwa [← hop, String.ofList_toList, htoken] at this
    · unfold looseToken
      split
      · exact flat_leaf s (by decide) (by decide) hne hline
      · exact flat_leaf s (by decide) (by decide) hne hline
  exact hpiece.append (blank _) fun _ _ => rfl

end Piece

/-! ## Fragments -/

/-- A text is spanned by the tokens at its beginning and at its end. -/
theorem Scanner.spans_append {s : Scanner} {a m b : List Char} {ts us : List Token} {x : Bool}
    (ha : (s.locate a).Spans ts) (ms : List Token) (hb : ((s.past (a ++ m) x).locate b).Spans us) :
    (s.locate (a ++ m ++ b)).Spans (ts ++ ms ++ us) := by
  obtain ⟨t, ts, rfl, ht⟩ := ha.exists_head
  obtain ⟨u, us, rfl, hu⟩ := hb.exists_last
  refine ⟨congrArg some ht, ?_⟩
  rw [← List.append_assoc, List.getLast?_concat]
  show some u.loc.stop = some (s.cursor.after (a ++ m ++ b))
  rw [hu, Cursor.after_append]
  rfl

/-- A piece of text that begins with its first token and ends with its last. -/
structure Fragment (s : Scanner) (text : List Char) (ts : List Token) : Prop where
  /-- The text is read as the tokens, unless a word goes on after it. -/
  piece : Piece EndsWord s text ts false
  /-- The tokens span the text. -/
  spans : (s.locate text).Spans ts

namespace Fragment

variable {s : Scanner} {a b m : List Char} {ts us ms : List Token} {x : Bool}

/-- A single token. -/
theorem of_token {text : List Char} {t : Token} (h : Piece EndsWord s text [t] false)
    (ht : t.loc = s.locate text) : Fragment s text [t] :=
  ⟨h, ht ▸ Location.spans_singleton t⟩

/-- Two fragments with a piece between them. -/
theorem join {f : List Char → Prop} (ha : Fragment s a ts) (hm : Piece f (s.past a false) m ms x)
    (hb : Fragment (s.past (a ++ m) x) b us) (hends : ∀ rest, EndsWord (m ++ (b ++ rest)))
    (hf : ∀ rest, EndsWord rest → f (b ++ rest)) :
    Fragment s (a ++ m ++ b) (ts ++ ms ++ us) where
  piece := by
    have hb' : Piece EndsWord ((s.past a false).past m x) b us false := by
      rw [past_past]
      exact hb.piece
    have := ha.piece.append (hm.append hb' hf) fun rest _ => by
      rw [List.append_assoc]
      exact hends rest
    rwa [← List.append_assoc, ← List.append_assoc] at this
  spans := spans_append ha.spans ms hb.spans

/-- Two fragments with a space between them. -/
theorem spaced (ha : Fragment s a ts) (hb : Fragment (s.past (a ++ [' ']) true) b us) :
    Fragment s (a ++ [' '] ++ b) (ts ++ us) := by
  have := ha.join (Piece.blank _) hb (fun _ => endsWord_cons (by decide) _) fun _ _ => trivial
  rwa [List.append_nil] at this

/-- Two fragments with an operator between them. -/
theorem operator {op : String} (ha : Fragment s a ts) (hne : op.toList ≠ [])
    (hchars : ∀ d ∈ op.toList, isOperatorChar d = true)
    (hb : Fragment (s.past (a ++ ' ' :: (op.toList ++ [' '])) true) b us) :
    ∃ l, Fragment s (a ++ ' ' :: (op.toList ++ [' ']) ++ b)
      (ts ++ Piece.looseToken op l :: us) := by
  have hoperator := (Piece.blank (s.past a false)).append_anything (Piece.operator _ hne hchars)
  have hjoined := ha.join hoperator hb (fun _ => endsWord_cons (by decide) _) fun _ _ => trivial
  rw [List.append_assoc ts] at hjoined
  exact ⟨_, hjoined⟩

/-- Two fragments, the second of which directly follows the first. -/
theorem attached (ha : Fragment s a ts) (hb : Fragment (s.past a false) b us)
    (hends : ∀ rest, EndsWord (b ++ rest)) : Fragment s (a ++ b) (ts ++ us) := by
  have := ha.join (Piece.empty _) (by rwa [List.append_nil]) hends fun _ _ => trivial
  rwa [List.append_nil, List.append_nil] at this

/-- A word that does not open a block. -/
theorem word (s : Scanner) {word : String} {c : Char} {cs : List Char} {kind : TokenKind}
    (hword : word.toList = c :: cs) (hc : isWordStart c = true)
    (hcs : ∀ d ∈ cs, isWordChar d = true) (hkind : kind ≠ .semicolon) (hblock : kind ≠ .block)
    (htoken : ∀ l, wordToken word l = Token.leaf kind word l) :
    Fragment s word.toList [Token.leaf kind word (s.locate word.toList)] := by
  have hline : OneLine word.toList := by
    rw [hword, oneLine_cons]
    exact ⟨isInline_of (by decide) (by decide) hc,
      fun d hd => isInline_of (by decide) (by decide) (hcs d hd)⟩
  refine of_token ⟨?_, flatAll_cons.2 ⟨?_, flatAll_nil _⟩, hline⟩ rfl
  · have := lexes_word s hc hcs
    rwa [← hword, String.ofList_toList, htoken] at this
  · exact flat_leaf s hkind hblock (hword ▸ List.cons_ne_nil c cs) hline

/-- A name. -/
theorem name (s : Scanner) {name : String} (h : IsName name) :
    Fragment s name.toList [Token.leaf .identifier name (s.locate name.toList)] := by
  obtain ⟨c, cs, hname, hc, hcs, hdo, hkeyword⟩ := h
  refine word s hname hc hcs (by decide) (by decide) fun l => ?_
  rw [wordToken, if_neg hdo, if_neg (by rw [hkeyword]; decide)]

/-- A keyword. -/
theorem keyword (s : Scanner) {w : Reserved} (h : w ∈ Reserved.keywords) :
    ∃ t, Fragment s w.text.toList [t] ∧ t.reserved? = some w := by
  have hall : ∀ w ∈ Reserved.keywords, w.text ≠ blockWord ∧
      (Reserved.keyword? w.text).isSome = true ∧ w.text.toList.head?.any isWordStart = true ∧
      w.text.toList.tail.all isWordChar = true := by
    decide +kernel
  obtain ⟨hdo, hkeyword, hhead, htail⟩ := hall w h
  cases hword : w.text.toList with
  | nil =>
    rw [hword] at hhead
    cases hhead
  | cons c cs =>
    rw [hword] at hhead htail
    rw [← hword]
    refine ⟨_, word s hword hhead (List.all_eq_true.1 htail) (by decide) (by decide) fun l => ?_,
      leaf_reserved? w _⟩
    rw [wordToken, if_neg hdo, if_pos hkeyword]

/-- A number, which needs to be separated from what is before it if it has a sign. -/
theorem number (s : Scanner) {text : String} (h : IsNumeral text)
    (hs : text.toList.head? = some '-' → s.separated = true) :
    Fragment s text.toList [Token.leaf .number text (s.locate text.toList)] := by
  obtain ⟨c, cs, htext, hc, hcs⟩ := h
  have hdigits : OneLine (c :: cs) := oneLine_cons.2
    ⟨isInline_of (by decide) (by decide) hc, fun d hd => isInline_of (by decide) (by decide) (hcs d hd)⟩
  have hpiece : OneLine text.toList → text.toList ≠ [] →
      Lexes EndsWord s text.toList [Token.leaf .number text (s.locate text.toList)] false →
      Fragment s text.toList [Token.leaf .number text (s.locate text.toList)] :=
    fun hline hne hlexes => of_token ⟨hlexes,
      flatAll_cons.2 ⟨flat_leaf s (by decide) (by decide) hne hline, flatAll_nil _⟩, hline⟩ rfl
  rcases htext with htext | htext
  · refine hpiece (htext ▸ hdigits) (htext ▸ List.cons_ne_nil _ _) ?_
    have := lexes_number s hc hcs
    rwa [← htext, String.ofList_toList] at this
  · refine hpiece ?_ (htext ▸ List.cons_ne_nil _ _) ?_
    · rw [htext]
      exact oneLine_cons.2 ⟨by decide, hdigits⟩
    · have := lexes_negative s (hs (by rw [htext]; rfl)) hc hcs
      rwa [← htext, String.ofList_toList] at this

/-- A group in brackets. -/
theorem group (s : Scanner) (bracket : Bracket) (hbracket : bracket ≠ .backtick)
    (h : Piece EndsWord (s.past [bracket.opener] true) a ts x) :
    ∃ t, Fragment s (bracket.opener :: (a ++ [bracket.closer])) [t] ∧ t.IsGroup bracket ts := by
  have hline : OneLine (bracket.opener :: (a ++ [bracket.closer])) := by
    rw [oneLine_cons, oneLine_append, oneLine_cons]
    exact ⟨by cases bracket <;> decide, h.line, by cases bracket <;> decide,
      oneLine_nil⟩
  have hopener : (s.past [bracket.opener] true).cursor.row = s.cursor.row := by
    rw [past_cursor, Cursor.after_line]
    exact oneLine_cons.2 ⟨(oneLine_cons.1 hline).1, oneLine_nil⟩
  have hcol : (s.cursor.after (bracket.opener :: (a ++ [bracket.closer]))).col ≠ 0 :=
    Cursor.after_col (List.cons_ne_nil _ _) _
  refine ⟨_, of_token ⟨(lexes_group s hbracket h.lexes).of_anything,
    flatAll_cons.2 ⟨flat_iff.2 ⟨rfl, ?_, hcol, ?_, ?_, ?_⟩, flatAll_nil _⟩, hline⟩ rfl,
    block_blockKind? _ _ _, hcol, rfl⟩
  · show (s.cursor.after _).row = _
    rw [Cursor.after_line hline]
  · exact fun h => nomatch h
  · intro _
    show (BlockKind.bracketed bracket).opener ≠ blockWord
    cases bracket <;> decide
  · have := h.flat
    rwa [hopener] at this

/-- A star or an ampersand before its operand. -/
theorem sign {c : Char} {w : Reserved} (hs : s.separated = true) (hc : isOperatorChar c = true)
    (hminus : c ≠ '-') (hword : Reserved.ofAttached? (String.ofList [c]) = some w)
    (hb : Fragment (s.past [c] false) b us) (hbegins : b.head?.any beginsOperand = true) :
    Fragment s (c :: b) (Token.leaf .reserved w.text (s.locate [c]) :: us) := by
  have hline : OneLine [c] := oneLine_cons.2
    ⟨isInline_of (by decide) (by decide) hc, oneLine_nil⟩
  have hsign : Piece (fun rest => rest.head?.any beginsOperand = true) s [c]
      [Token.leaf .reserved w.text (s.locate [c])] false :=
    ⟨lexes_sign s hs hc hminus hword, flatAll_cons.2 ⟨flat_leaf s (by decide) (by decide)
      (List.cons_ne_nil _ _) hline, flatAll_nil _⟩, hline⟩
  refine ⟨hsign.append hb.piece fun rest _ => ?_, rfl, ?_⟩
  · cases b with
    | nil => cases hbegins
    | cons d ds => exact hbegins
  · obtain ⟨u, us', rfl, hu⟩ := hb.spans.exists_last
    rw [← List.cons_append, List.getLast?_concat]
    exact congrArg some hu

end Fragment

end Offside
