import Offside.Printing.Lists
import Offside.Proofs.Grammar.Running
import Offside.Proofs.Printing.Fragments

/-!
# Lists in print

* `commaList_fragment`, `list_piece`, `tuple_piece`: the tokens of a printed list are those of its
  items with commas between them.
* `Parse.Separated.and_weight`: an item has no more tokens than the list.
* `Token.Encloses`, `Token.IsBodyOf`: a block, or a block of statements, with some interior.
  `within_outcome`, `within_group`: an action that consumes the whole interior.
-/

namespace Offside

open Token Parse Parser Printing Scanner

/-- An item has no more tokens than the list that it is in. -/
theorem Parse.Separated.and_weight {α : Type} {separator : TokenKind} {R : List Token → α → Prop}
    {b : Bool} {ts : List Token} {as : List α} (h : Separated separator R b ts as) {n : Nat}
    (hn : totalWeight ts ≤ n) :
    Separated separator (fun us a => R us a ∧ totalWeight us ≤ n) b ts as := by
  induction h with
  | nil => exact .nil
  | last h => exact .last ⟨h, hn⟩
  | more h ht _ ih =>
    simp only [totalWeight_append, totalWeight_cons] at hn
    exact .more ⟨h, by omega⟩ ht (ih (by omega))

/-- Parentheses begin an operand. -/
theorem head_parenthesized (text : String) :
    (parenthesized text).toList.head?.any beginsOperand = true := by
  rw [parenthesized, String.toList_append, String.toList_append]
  rfl

/-- Joined texts are the first and the others, each after a separator. -/
theorem toList_intercalate_cons (separator text : String) (texts : List String) :
    (separator.intercalate (text :: texts)).toList
      = text.toList ++ texts.flatMap fun other => separator.toList ++ other.toList := by
  induction texts generalizing text with
  | nil => simp
  | cons other texts ih =>
    rw [String.intercalate_cons_cons, String.toList_append, String.toList_append, ih,
      List.flatMap_cons, List.append_assoc, List.append_assoc]

/-- An item after a comma has no more tokens than all of them. -/
theorem Parse.AfterCommas.and_weight {α : Type} {R : List Token → α → Prop} {ts : List Token}
    {as : List α} (h : AfterCommas R ts as) {n : Nat} (hn : totalWeight ts ≤ n) :
    AfterCommas (fun us a => R us a ∧ totalWeight us ≤ n) ts as := by
  induction h with
  | nil => exact .nil
  | cons ht h _ ih =>
    simp only [totalWeight_append, totalWeight_cons] at hn
    exact .cons ht ⟨h, by omega⟩ (ih (by omega))

section Items

variable {α : Type} {text : α → String} {R : List Token → α → Prop}

/-- Whatever a scanner has before it, if it is separated from that, an item is printed as a fragment
whose tokens are related to the item. -/
def PrintsAs (text : α → String) (R : List Token → α → Prop) (a : α) : Prop :=
  ∀ s : Scanner, s.separated = true → ∃ ts, Fragment s (text a).toList ts ∧ R ts a

/-- A printed list is its first item and the others, each after a comma. -/
theorem commaList_fragment {a : α} {as : List α} (h : ∀ b ∈ a :: as, PrintsAs text R b)
    (s : Scanner) (hs : s.separated = true) :
    ∃ ts us, Fragment s (commaList ((a :: as).map text)).toList (ts ++ us) ∧ R ts a ∧
      AfterCommas R us as := by
  induction as generalizing a s with
  | nil =>
    obtain ⟨ts, hfragment, hR⟩ := List.forall_mem_singleton.1 h s hs
    refine ⟨ts, [], ?_, hR, .nil⟩
    rwa [List.map_cons, List.map_nil, commaList, String.intercalate_singleton, List.append_nil]
  | cons b bs ih =>
    obtain ⟨ha, has⟩ := List.forall_mem_cons.1 h
    obtain ⟨ts, hfragment, hR⟩ := ha s hs
    obtain ⟨us, vs, hothers, hR', hafter⟩ := ih has
      (s.past ((text a).toList ++ [',', ' ']) true) rfl
    have htext : (commaList ((a :: b :: bs).map text)).toList
        = (text a).toList ++ [',', ' '] ++ (commaList ((b :: bs).map text)).toList := by
      rw [commaList, List.map_cons, List.map_cons, String.intercalate_cons_cons,
        String.toList_append, String.toList_append]
      rfl
    have hjoined := hfragment.join (Piece.commaBlank _) hothers
      (fun _ => endsWord_cons (by decide) _) fun _ _ => trivial
    rw [← htext, List.append_assoc, List.singleton_append] at hjoined
    exact ⟨ts, _, hjoined, hR, .cons rfl hR' hafter⟩

/-- A first item and others after commas are items with commas between them. -/
theorem Parse.AfterCommas.separated {ts us : List Token} {a : α} {as : List α}
    (h : AfterCommas R us as) (ha : R ts a) :
    Separated .comma R (!as.isEmpty) (ts ++ us) (a :: as) := by
  induction h generalizing ts a with
  | nil =>
    rw [List.append_nil]
    exact .last ha
  | cons ht h _ ih => exact .more ha ht (ih h)

/-- The interior of a printed list. -/
theorem list_piece {as : List α} (h : ∀ a ∈ as, PrintsAs text R a) (s : Scanner)
    (hs : s.separated = true) :
    ∃ ts x b, Piece EndsWord s (commaList (as.map text)).toList ts x ∧
      Separated .comma R b ts as := by
  cases as with
  | nil => exact ⟨[], s.separated, false, (Piece.empty s).of_anything, .nil⟩
  | cons a as =>
    obtain ⟨ts, us, hfragment, hR, hafter⟩ := commaList_fragment h s hs
    exact ⟨ts ++ us, false, _, hfragment.piece, hafter.separated hR⟩

/-- The interior of a printed tuple is its items with commas between them, and after a single one. -/
theorem tuple_piece {as : List α} (h : ∀ a ∈ as, PrintsAs text R a) (s : Scanner)
    (hs : s.separated = true) :
    ∃ ts x, Piece EndsWord s
        (commaList (as.map text) ++ if (as.map text).length = 1 then "," else "").toList ts x ∧
      Separated .comma R (!as.isEmpty) ts as := by
  cases as with
  | nil =>
    refine ⟨[], s.separated, ?_, .nil⟩
    exact (Piece.empty s).of_anything
  | cons a as =>
    obtain ⟨ts, us, hfragment, hR, hafter⟩ := commaList_fragment h s hs
    cases hafter with
    | nil =>
      rw [List.append_nil] at hfragment
      have htrailing := hfragment.piece.append (Piece.comma _) fun _ _ => endsWord_cons (by decide) _
      have htext : (commaList ([a].map text)
          ++ if ([a].map text).length = 1 then "," else "").toList
          = (commaList ([a].map text)).toList ++ [','] := by
        simp
      exact ⟨_, true, htext ▸ htrailing.of_anything, .more hR rfl .nil⟩
    | cons ht h' others =>
      refine ⟨_, false, ?_, (others.cons ht h').separated hR⟩
      rw [String.toList_append]
      simpa using hfragment.piece

end Items

/-! ## Blocks -/

/-- A block with some interior, at the end of which errors can be reported. -/
def Token.Encloses (t : Token) (interior : List Token) : Prop :=
  (∃ l, endLoc? t = some l) ∧ t.children = interior

/-- A block of statements with some interior. -/
def Token.IsBodyOf (t : Token) (interior : List Token) : Prop := IsBody t ∧ t.Encloses interior

theorem Token.IsGroup.encloses {t : Token} {bracket : Bracket} {ts : List Token}
    (h : t.IsGroup bracket ts) : t.Encloses ts := by
  obtain ⟨hkind, hcol, hchildren⟩ := h
  have hblock : t.isBlock .indented = false := by
    rw [isBlock, hkind]
    rfl
  obtain ⟨l, hlast, -⟩ := Location.lastChar?_start hcol
  exact ⟨⟨l, by rw [endLoc?, hblock]; exact hlast⟩, hchildren⟩

/-- A group in braces is a block of statements. -/
theorem Token.IsGroup.isBodyOf {t : Token} {ts : List Token} (h : t.IsGroup .brace ts) :
    t.IsBodyOf ts := ⟨isBody_brace h.1, h.encloses⟩

/-- So is an indented block. -/
theorem isBodyOf_indented {t : Token} (h : t.blockKind? = some .indented) :
    t.IsBodyOf t.children := by
  refine ⟨isBody_indented h, ⟨t.loc.endPoint, ?_⟩, rfl⟩
  rw [endLoc?, isBlock, h]
  rfl

/-- An action that consumes the whole interior of a block, unless it is bad. -/
theorem within_outcome {α : Type} {t : Token} {ts : List Token} {action : Parse α} {bad : Bool}
    {P : α → Prop} {p : Parser} (ht : t.Encloses ts)
    (h : ∀ q : Parser, q.rest = ts → q.loops = p.loops →
      Parse.Outcome bad (action q) (q.passAll ts) P) : Parse.Outcome bad (within t action p) p P := by
  obtain ⟨⟨l, hlast⟩, rfl⟩ := ht
  have hrest : (p.interior t l).rest = t.children ++ [] := (List.append_nil _).symm
  have haction := h (p.interior t l) rfl rfl
  cases bad with
  | true =>
    obtain ⟨e, q, haction⟩ := haction
    obtain ⟨r, hwithin⟩ := within_error hlast haction
    exact ⟨e, r, hwithin⟩
  | false =>
    obtain ⟨a, haction, ha⟩ := haction
    exact ⟨a, within_eq hlast haction (passAll_rest hrest) (passAll_loops _ _), ha⟩

/-- An action that consumes the whole interior of a group. -/
theorem within_group {α : Type} {t : Token} {bracket : Bracket} {ts : List Token}
    {action : Parse α} {P : α → Prop} {p : Parser} (ht : t.IsGroup bracket ts)
    (h : ∀ q : Parser, q.rest = ts → q.loops = p.loops →
      ∃ a, action q = .ok a (q.passAll ts) ∧ P a) : ∃ a, within t action p = .ok a p ∧ P a := by
  have hwithin : Parse.Outcome false (within t action p) p P := within_outcome ht.encloses h
  exact hwithin

end Offside
