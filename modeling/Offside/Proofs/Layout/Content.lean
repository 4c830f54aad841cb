import Mathlib
import Offside.Proofs.Layout.Steps
import Offside.Proofs.Token.Order

/-!
# Layout keeps the content of token trees

Layout moves the region of a `do` into it and puts semicolons where statements begin, but it neither
drops nor repeats nor reorders anything else.

* `Mark`, `Token.content`, `Token.contentAll`: what a token tree, what some trees hold, read from
  left to right without semicolons. A `do` has no end mark, so that its region can be inside or
  after it.
* `Layout.punctuate_content`: separators do not change the content.
* `Layout.Rules.enter_content`: a block that is entered hands on the content of its interior and of
  what follows it.
* `Layout.arrange_content`, `layout_content`: arranging tokens, and so layout as a whole, keeps
  their content.
-/

namespace Offside

/-! ## Content -/

/-- One item of the content of a token tree. -/
inductive Mark where
  /-- A token that is no block, with all that it holds. -/
  | token (t : Token)
  /-- The opener of a block other than a `do`. -/
  | opens (text : String) (loc : Location)
  /-- The end of such a block. -/
  | closes
  /-- The word of a `do`. -/
  | indents (text : String)

namespace Token

mutual

/-- The content of a token tree. -/
def content : Token → List Mark
  | ⟨kind, text, loc, children⟩ =>
    match kind with
    | .semicolon => []
    | .block =>
      if text = blockWord then .indents text :: contentAll children
      else .opens text loc :: (contentAll children ++ [.closes])
    | _ => [.token ⟨kind, text, loc, children⟩]

/-- The content of a sequence of token trees. -/
def contentAll : List Token → List Mark
  | [] => []
  | t :: ts => content t ++ contentAll ts

end

@[simp] theorem contentAll_nil : contentAll [] = [] := by rw [contentAll]

@[simp] theorem contentAll_cons (t : Token) (ts : List Token) :
    contentAll (t :: ts) = t.content ++ contentAll ts := by rw [contentAll]

/-- The content of a sequence is that of its tokens one after another. -/
theorem contentAll_eq_flatMap (ts : List Token) : contentAll ts = ts.flatMap content := by
  induction ts with
  | nil => rw [contentAll_nil, List.flatMap_nil]
  | cons t ts ih => rw [contentAll_cons, List.flatMap_cons, ih]

@[simp] theorem contentAll_append (s t : List Token) :
    contentAll (s ++ t) = contentAll s ++ contentAll t := by
  simp only [contentAll_eq_flatMap, List.flatMap_append]

/-- Semicolons are no content. -/
theorem content_semicolon {t : Token} (h : t.kind = .semicolon) : t.content = [] := by
  obtain ⟨kind, text, loc, children⟩ := t
  cases h
  rw [content]

/-- The content of a `do` is its word and what it holds. -/
theorem content_indented {t : Token} (h : t.kind = .block) (htext : t.text = blockWord) :
    t.content = .indents t.text :: contentAll t.children := by
  obtain ⟨kind, text, loc, children⟩ := t
  cases h
  rw [content, if_pos htext]

/-- The content of any other block is what it holds between two marks. -/
theorem content_block {t : Token} (h : t.kind = .block) (htext : t.text ≠ blockWord) :
    t.content = .opens t.text t.loc :: (contentAll t.children ++ [.closes]) := by
  obtain ⟨kind, text, loc, children⟩ := t
  cases h
  rw [content, if_neg htext]

/-- A block is a `do` exactly if it is opened by the word. -/
theorem text_eq_blockWord_iff {t : Token} (h : t.kind = .block) :
    t.text = blockWord ↔ t.blockKind? = some .indented := by
  rw [blockKind?, if_pos h]
  constructor
  · intro htext
    rw [htext]
    exact BlockKind.ofOpener?_opener .indented
  · intro hkind
    have hfound := List.find?_some hkind
    exact (beq_iff_eq.1 hfound).symm

end Token

namespace Layout

open Token

/-! ## Separators -/

/-- Punctuating a run of statements keeps the content. -/
theorem punctuate_content (column : Nat) (run : List Placed) :
    contentAll (punctuate column run) = contentAll (run.map Placed.token) := by
  rw [contentAll_eq_flatMap, contentAll_eq_flatMap, punctuate_flatMap fun _ => content_semicolon]

/-! ## Blocks -/

/-- The interior of a laid-out block holds what was laid out. -/
theorem Interior.close_children (interior : Interior) (t : Token) (run : List Placed) :
    contentAll (interior.close t run).children = contentAll (run.map Placed.token) := by
  unfold Interior.close
  split
  · exact punctuate_content _ run
  · rfl

/-- The content of a laid-out `do`. -/
theorem Interior.close_indented {interior : Interior} {t : Token} {run : List Placed}
    (hkind : t.kind = .block) (htext : t.text = blockWord) :
    (interior.close t run).content = .indents t.text :: contentAll (run.map Placed.token) := by
  rw [← interior.close_children t run]
  exact content_indented (t := interior.close t run) hkind htext

/-- The content of any other laid-out block. -/
theorem Interior.close_block {interior : Interior} {t : Token} {run : List Placed}
    (hkind : t.kind = .block) (htext : t.text ≠ blockWord) :
    (interior.close t run).content
      = .opens t.text interior.loc :: (contentAll (run.map Placed.token) ++ [.closes]) := by
  rw [← interior.close_children t run]
  exact content_block (t := interior.close t run) hkind htext

/-- A block that is entered and laid out, and what follows it, hold what they held before. -/
theorem Rules.enter_content {r : Rules} {t : Token} {rest : List Token} {interior : Interior}
    {run : List Placed} (hkind : t.kind = .block) (h : r.enter t rest = .ok interior)
    (hrun : contentAll (run.map Placed.token) = contentAll interior.tokens) :
    (interior.close t run).content ++ contentAll interior.rest = contentAll (t :: rest) := by
  rw [contentAll_cons]
  rcases enter_cases h with ⟨hbrace, -, rfl⟩ | ⟨hindented, rfl⟩ | ⟨hother, -, rfl⟩
  · have htext : t.text ≠ blockWord := by
      intro htext
      cases hbrace.symm.trans ((text_eq_blockWord_iff hkind).1 htext)
    rw [Interior.close_block hkind htext, content_block hkind htext, hrun]
  · -- the region leaves the siblings of the block and follows what the block holds already
    have htext : t.text = blockWord := (text_eq_blockWord_iff hkind).2 hindented
    have hsplit : (r.enterIndented t rest).tokens ++ (r.enterIndented t rest).rest
        = t.children ++ rest := by
      simp only [enterIndented, List.append_assoc, splitRegion_append]
    rw [Interior.close_indented hkind htext, content_indented hkind htext, hrun, List.cons_append,
      List.cons_append, ← contentAll_append, hsplit, contentAll_append]
  · have htext : t.text ≠ blockWord := fun htext => hother ((text_eq_blockWord_iff hkind).1 htext)
    rw [Interior.close_block hkind htext, content_block hkind htext, hrun]

/-! ## Arrangements -/

/-- Arranging keeps the content. -/
theorem arrange_content {r : Rules} {ts : List Token} {run : List Placed}
    (h : arrange r ts = .ok run) : contentAll (run.map Placed.token) = contentAll ts := by
  induction h using arrange_induction with
  | nil => rfl
  | leaf _ _ _ ih => rw [List.map_cons, contentAll_cons, contentAll_cons, ih]
  | block _ hkind henter _ _ ihinner ihothers =>
    rw [List.map_cons, contentAll_cons, ihothers]
    exact Rules.enter_content hkind henter ihinner

end Layout

/-- Layout keeps the content of token trees, whatever the trees are. -/
theorem layout_content {ts laidOut : List Token} (h : Layout.layout ts = .ok laidOut) :
    Token.contentAll laidOut = Token.contentAll ts := by
  unfold Layout.layout at h
  cases hrun : Layout.arrange ⟨Layout.Rules.columnOf 1 ts, none⟩ ts with
  | error e =>
    simp only [hrun] at h
    cases h
  | ok run =>
    simp only [hrun] at h
    cases h
    rw [Layout.punctuate_content, Layout.arrange_content hrun]

/-- A `do` in brackets takes what follows it there, one of two semicolons is dropped, and one is put
before the last line. -/
theorem layout_content_region : ∃ laidOut,
    Layout.layout [.block (.bracketed .paren) (.ofText ⟨1, 1⟩ "(do\n b)".toList)
        [.block .indented (.ofText ⟨1, 2⟩ "do".toList) [], .leaf .identifier "b" (.one ⟨2, 2⟩)],
      .semicolon (.one ⟨2, 4⟩), .semicolon (.one ⟨2, 5⟩), .leaf .identifier "c" (.one ⟨2, 6⟩),
      .leaf .identifier "d" (.one ⟨3, 1⟩)] = .ok laidOut ∧
    Token.contentAll laidOut = Token.contentAll
      [.block (.bracketed .paren) (.ofText ⟨1, 1⟩ "(do\n b)".toList)
        [.block .indented (.ofText ⟨1, 2⟩ "do".toList) [], .leaf .identifier "b" (.one ⟨2, 2⟩)],
      .semicolon (.one ⟨2, 4⟩), .semicolon (.one ⟨2, 5⟩), .leaf .identifier "c" (.one ⟨2, 6⟩),
      .leaf .identifier "d" (.one ⟨3, 1⟩)] := by
  generalize hts : [_, _, _, _, _] = ts
  have hlayout : (Layout.layout ts).toOption.isSome = true := by
    subst hts
    cbv
  cases h : Layout.layout ts with
  | error e =>
    rw [h] at hlayout
    cases hlayout
  | ok laidOut => exact ⟨laidOut, rfl, layout_content h⟩

end Offside
