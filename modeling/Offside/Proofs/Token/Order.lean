import Offside.Lexeme.CharClass
import Offside.Proofs.Source.Order
import Offside.Token.Basic

/-!
# Tokens in order

What holds of the token trees of every source text, before layout and after it.

* `IsName`, `IsNumeral`: the texts of names and of numbers.
* `Token.Proper`, `Token.InOrder`: names and numbers are spelled as such, no token but an inserted
  semicolon is empty, and siblings follow one another between two cursors; the interior of a token
  does so inside it.
* `Location.Spans`: a location runs from the start of the first of some tokens to the end of the
  last. `Location.Spans.join`: joins of such locations are such locations, if the tokens are in
  order.
* `Location.Amid`: a location lies among some tokens or in their interiors. `Location.Amid.within`:
  it then lies within what spans the tokens.
-/

namespace Offside

/-- The text of a name: a word that is neither a keyword nor opens a block. -/
def IsName (text : String) : Prop :=
  ∃ c cs, text.toList = c :: cs ∧ isWordStart c = true ∧ (∀ d ∈ cs, isWordChar d = true) ∧
    text ≠ blockWord ∧ Reserved.keyword? text = none

/-- The text of a number: digits after an optional minus sign. -/
def IsNumeral (text : String) : Prop :=
  ∃ c cs, (text.toList = c :: cs ∨ text.toList = '-' :: c :: cs) ∧ c.isDigit = true ∧
    ∀ d ∈ cs, d.isDigit = true

namespace Token

/-- What it is to be a reserved word. -/
theorem isReserved_iff {t : Token} {word : Reserved} :
    t.isReserved word ↔ t.reserved? = some word := by
  rw [isReserved, beq_iff_eq]

/-- What it is to be a block of some kind. -/
theorem isBlock_iff {t : Token} {kind : BlockKind} : t.isBlock kind ↔ t.blockKind? = some kind := by
  rw [isBlock, beq_iff_eq]

/-- Only reserved tokens are reserved words. -/
theorem kind_of_reserved? {t : Token} {word : Reserved} (h : t.reserved? = some word) :
    t.kind = .reserved := by
  by_cases hkind : t.kind = .reserved
  · exact hkind
  · rw [reserved?, if_neg hkind] at h
    cases h

/-- A reserved word is spelled as it is. -/
theorem text_of_reserved? {t : Token} {word : Reserved} (h : t.reserved? = some word) :
    t.text = word.text := by
  rw [reserved?, if_pos (kind_of_reserved? h)] at h
  have hspelled : word.text = t.text := by simpa using List.find?_some h
  exact hspelled.symm

/-- Only blocks have a kind of block. -/
theorem kind_of_blockKind? {t : Token} {kind : BlockKind} (h : t.blockKind? = some kind) :
    t.kind = .block := by
  by_cases hkind : t.kind = .block
  · exact hkind
  · rw [blockKind?, if_neg hkind] at h
    cases h

@[simp] theorem block_blockKind? (k : BlockKind) (l : Location) (ts : List Token) :
    (block k l ts).blockKind? = some k := by
  rw [blockKind?, if_pos (show (block k l ts).kind = .block from rfl)]
  exact BlockKind.ofOpener?_opener k

@[simp] theorem block_reserved? (k : BlockKind) (l : Location) (ts : List Token) :
    (block k l ts).reserved? = none := rfl

@[simp] theorem leaf_reserved? (w : Reserved) (l : Location) :
    (leaf .reserved w.text l).reserved? = some w := by
  rw [reserved?, if_pos (show (leaf .reserved w.text l).kind = .reserved from rfl)]
  exact Reserved.ofText?_text w

mutual

/-- A token as a source text gives rise to it. -/
def Proper : Token → Prop
  | ⟨kind, text, loc, children⟩ =>
    (kind = .identifier → IsName text) ∧ (kind = .number → IsNumeral text) ∧
      (kind ≠ .semicolon → loc.start ≠ loc.stop) ∧ InOrder loc.start loc.stop children

/-- Proper tokens that follow one another from `a` on and up to `b`. -/
def InOrder (a b : Cursor) : List Token → Prop
  | [] => a ≤ b
  | t :: ts => a ≤ t.loc.start ∧ Proper t ∧ InOrder t.loc.stop b ts

end

/-- What it is to be proper, said of the parts of a token. -/
theorem proper_iff (t : Token) : t.Proper ↔
    (t.kind = .identifier → IsName t.text) ∧ (t.kind = .number → IsNumeral t.text) ∧
      (t.kind ≠ .semicolon → t.loc.start ≠ t.loc.stop) ∧
      InOrder t.loc.start t.loc.stop t.children := by
  cases t
  rw [Proper]

/-- The interior of a proper token is in order inside it. -/
theorem Proper.interior {t : Token} (h : t.Proper) :
    InOrder t.loc.start t.loc.stop t.children :=
  ((proper_iff t).1 h).2.2.2

/-- No tokens are in order between cursors that are. -/
theorem inOrder_nil {a b : Cursor} : InOrder a b [] ↔ a ≤ b := by rw [InOrder]

/-- Tokens are in order if the first is proper and the others follow it. -/
theorem inOrder_cons {a b : Cursor} {t : Token} {ts : List Token} :
    InOrder a b (t :: ts) ↔ a ≤ t.loc.start ∧ t.Proper ∧ InOrder t.loc.stop b ts := by
  rw [InOrder]

/-- The cursors around tokens in order are in order. -/
theorem InOrder.le {a b : Cursor} {ts : List Token} (h : InOrder a b ts) : a ≤ b := by
  induction ts generalizing a with
  | nil => exact inOrder_nil.1 h
  | cons t ts ih =>
    obtain ⟨ha, -, hts⟩ := inOrder_cons.1 h
    exact Cursor.le_trans ha (Cursor.le_trans t.loc.start_le_stop (ih hts))

/-- Tokens that are in order between two cursors are so between wider ones. -/
theorem InOrder.mono {a a' b b' : Cursor} {ts : List Token} (h : InOrder a b ts) (ha : a' ≤ a)
    (hb : b ≤ b') : InOrder a' b' ts := by
  induction ts generalizing a a' with
  | nil =>
    rw [inOrder_nil] at *
    exact Cursor.le_trans ha (Cursor.le_trans h hb)
  | cons t ts ih =>
    rw [inOrder_cons] at *
    exact ⟨Cursor.le_trans ha h.1, h.2.1, ih h.2.2 (Cursor.le_refl _)⟩

/-- Joined sequences are in order if there is a cursor between them. -/
theorem inOrder_append {a b : Cursor} {s t : List Token} :
    InOrder a b (s ++ t) ↔ ∃ m, InOrder a m s ∧ InOrder m b t := by
  induction s generalizing a with
  | nil =>
    constructor
    · intro h
      exact ⟨a, inOrder_nil.2 (Cursor.le_refl a), h⟩
    · rintro ⟨m, hm, ht⟩
      exact ht.mono (inOrder_nil.1 hm) (Cursor.le_refl b)
  | cons x s ih =>
    simp only [List.cons_append, inOrder_cons, ih]
    constructor
    · rintro ⟨hx, hp, m, hs, ht⟩
      exact ⟨m, ⟨hx, hp, hs⟩, ht⟩
    · rintro ⟨m, ⟨hx, hp, hs⟩, ht⟩
      exact ⟨hx, hp, m, hs, ht⟩

/-- Every token of a sequence in order is proper. -/
theorem InOrder.proper {a b : Cursor} {ts : List Token} (h : InOrder a b ts) {t : Token}
    (ht : t ∈ ts) : t.Proper := by
  induction ts generalizing a with
  | nil => exact absurd ht List.not_mem_nil
  | cons x ts ih =>
    obtain ⟨-, hx, hts⟩ := inOrder_cons.1 h
    rcases List.mem_cons.1 ht with rfl | ht
    · exact hx
    · exact ih hts ht

/-- A sequence in order that has lost some of its tokens is in order. -/
theorem InOrder.sublist {a b : Cursor} {s t : List Token} (hst : s.Sublist t)
    (h : InOrder a b t) : InOrder a b s := by
  induction hst generalizing a with
  | slnil => exact h
  | cons x _ ih =>
    obtain ⟨hx, -, ht⟩ := inOrder_cons.1 h
    exact (ih ht).mono (Cursor.le_trans hx x.loc.start_le_stop) (Cursor.le_refl b)
  | cons_cons x _ ih =>
    obtain ⟨hx, hp, ht⟩ := inOrder_cons.1 h
    exact inOrder_cons.2 ⟨hx, hp, ih ht⟩

/-- Tokens that are in order between some cursors. -/
def Ordered (ts : List Token) : Prop := ∃ a b, InOrder a b ts

/-- Both parts of a sequence in order are in order. -/
theorem Ordered.of_append {s t : List Token} (h : Ordered (s ++ t)) : Ordered s ∧ Ordered t := by
  obtain ⟨a, b, hab⟩ := h
  obtain ⟨m, hs, ht⟩ := inOrder_append.1 hab
  exact ⟨⟨a, m, hs⟩, ⟨m, b, ht⟩⟩

/-- What follows the first token of a sequence in order is in order. -/
theorem Ordered.tail {t : Token} {ts : List Token} (h : Ordered (t :: ts)) : Ordered ts :=
  (Ordered.of_append (show Ordered ([t] ++ ts) from h)).2

/-- The first token of a sequence in order is proper. -/
theorem Ordered.head {t : Token} {ts : List Token} (h : Ordered (t :: ts)) : t.Proper := by
  obtain ⟨a, b, hab⟩ := h
  exact hab.proper List.mem_cons_self

/-- The interior of a proper token is in order. -/
theorem Proper.ordered {t : Token} (h : t.Proper) : Ordered t.children := ⟨_, _, h.interior⟩

end Token

/-! ## Locations of token sequences -/

open Token

namespace Location

/-- The location runs from the start of the first token to the end of the last. -/
def Spans (l : Location) (ts : List Token) : Prop :=
  ts.head?.map (·.loc.start) = some l.start ∧ ts.getLast?.map (·.loc.stop) = some l.stop

/-- A token's location spans the token. -/
theorem spans_singleton (t : Token) : t.loc.Spans [t] := ⟨rfl, rfl⟩

/-- A location spans only sequences that are not empty. -/
theorem Spans.ne_nil {l : Location} {ts : List Token} (h : l.Spans ts) : ts ≠ [] := by
  rintro rfl
  cases h.1

/-- There is a first token, and the location begins with it. -/
theorem Spans.exists_head {l : Location} {ts : List Token} (h : l.Spans ts) :
    ∃ t us, ts = t :: us ∧ t.loc.start = l.start := by
  cases ts with
  | nil => exact absurd rfl h.ne_nil
  | cons t us => exact ⟨t, us, rfl, Option.some.inj h.1⟩

/-- There is a last token, and the location ends with it. -/
theorem Spans.exists_last {l : Location} {ts : List Token} (h : l.Spans ts) :
    ∃ t us, ts = us ++ [t] ∧ t.loc.stop = l.stop := by
  rcases List.eq_nil_or_concat ts with hts | ⟨us, t, rfl⟩
  · exact absurd hts h.ne_nil
  · refine ⟨t, us, by simp, ?_⟩
    have := h.2
    simpa using this

/-- The tokens that a location spans are in order inside it. -/
theorem Spans.inOrder {l : Location} {ts : List Token} {a b : Cursor} (h : l.Spans ts)
    (ho : InOrder a b ts) : InOrder l.start l.stop ts := by
  obtain ⟨t, us, rfl, ht⟩ := h.exists_head
  have hfront : InOrder l.start b (t :: us) := by
    rw [inOrder_cons] at *
    exact ⟨ht ▸ Cursor.le_refl _, ho.2⟩
  obtain ⟨u, vs, hvs, hu⟩ := h.exists_last
  rw [hvs] at hfront ⊢
  obtain ⟨m, hm, hlast⟩ := inOrder_append.1 hfront
  rw [inOrder_cons] at hlast
  refine inOrder_append.2 ⟨m, hm, inOrder_cons.2 ⟨hlast.1, hlast.2.1, ?_⟩⟩
  rw [inOrder_nil, hu]
  exact Cursor.le_refl _

/-- A location that spans tokens between two cursors lies between them. -/
theorem Spans.bounds {l : Location} {ts : List Token} {a b : Cursor} (h : l.Spans ts)
    (ho : InOrder a b ts) : a ≤ l.start ∧ l.stop ≤ b := by
  constructor
  · obtain ⟨t, us, rfl, ht⟩ := h.exists_head
    exact ht ▸ (inOrder_cons.1 ho).1
  · obtain ⟨t, us, rfl, ht⟩ := h.exists_last
    obtain ⟨m, -, hlast⟩ := inOrder_append.1 ho
    exact ht ▸ inOrder_nil.1 (inOrder_cons.1 hlast).2.2

/-- What spans the end of a sequence, joined with what spans its beginning, spans the whole. -/
theorem Spans.join {l m : Location} {ts s us : List Token} (hl : l.Spans ts) (hm : m.Spans us)
    (ho : Ordered (ts ++ (s ++ us))) : (l.join m).Spans (ts ++ (s ++ us)) := by
  obtain ⟨a, b, hab⟩ := ho
  obtain ⟨i, hts, hsu⟩ := inOrder_append.1 hab
  obtain ⟨j, hs, hus⟩ := inOrder_append.1 hsu
  have hl' := hl.bounds hts
  have hm' := hm.bounds hus
  have hij : i ≤ j := hs.le
  constructor
  · rw [join_start]
    · obtain ⟨t, us', rfl, ht⟩ := hl.exists_head
      exact congrArg some ht
    · exact Cursor.le_trans l.start_le_stop
        (Cursor.le_trans hl'.2 (Cursor.le_trans hij hm'.1))
  · rw [join_stop]
    · obtain ⟨t, us', rfl, ht⟩ := hm.exists_last
      rw [← List.append_assoc, ← List.append_assoc, List.getLast?_concat]
      exact congrArg some ht
    · exact Cursor.le_trans hl'.2 (Cursor.le_trans hij (Cursor.le_trans hm'.1 m.start_le_stop))

/-- What spans some tokens but not the first ones does not span all of them. -/
theorem Spans.not_append {l : Location} {s ts : List Token} (h : l.Spans ts)
    (ho : Ordered (s ++ ts)) {t : Token} (hs : s.head? = some t) (ht : t.kind ≠ .semicolon) :
    ¬ l.Spans (s ++ ts) := by
  intro hall
  obtain ⟨a, b, hab⟩ := ho
  obtain ⟨m, hsm, hts⟩ := inOrder_append.1 hab
  cases s with
  | nil => cases hs
  | cons u us =>
    cases hs
    obtain ⟨-, hproper, hus⟩ := inOrder_cons.1 hsm
    have hstart : t.loc.start = l.start := Option.some.inj hall.1
    have hstop : t.loc.stop ≤ l.start := Cursor.le_trans hus.le (h.bounds hts).1
    refine ((proper_iff t).1 hproper).2.2.1 ht (Cursor.le_antisymm t.loc.start_le_stop ?_)
    rw [hstart]
    exact hstop

/-! ## Locations among tokens -/

/-- A location lies between any two cursors that the tokens lie between. -/
def Amid (l : Location) (ts : List Token) : Prop :=
  ∀ a b, InOrder a b ts → a ≤ l.start ∧ l.stop ≤ b

/-- What spans tokens lies among them. -/
theorem Spans.amid {l : Location} {ts : List Token} (h : l.Spans ts) : l.Amid ts :=
  fun _ _ ho => h.bounds ho

/-- A token lies among the tokens that it begins. -/
theorem amid_head (t : Token) (ts : List Token) : t.loc.Amid (t :: ts) := by
  intro a b ho
  obtain ⟨ha, -, hts⟩ := inOrder_cons.1 ho
  exact ⟨ha, hts.le⟩

/-- What lies among tokens lies among them and others after them. -/
theorem Amid.append_left {l : Location} {ts : List Token} (h : l.Amid ts) (us : List Token) :
    l.Amid (ts ++ us) := by
  intro a b ho
  obtain ⟨m, hts, hus⟩ := inOrder_append.1 ho
  exact ⟨(h a m hts).1, Cursor.le_trans (h a m hts).2 hus.le⟩

/-- What lies among tokens lies among them and others before them. -/
theorem Amid.append_right {l : Location} {ts : List Token} (h : l.Amid ts) (us : List Token) :
    l.Amid (us ++ ts) := by
  intro a b ho
  obtain ⟨m, hus, hts⟩ := inOrder_append.1 ho
  exact ⟨Cursor.le_trans hus.le (h m b hts).1, (h m b hts).2⟩

/-- What lies among tokens lies among them and one more before them. -/
theorem Amid.cons {l : Location} {ts : List Token} (h : l.Amid ts) (t : Token) :
    l.Amid (t :: ts) := h.append_right [t]

/-- What lies in the interior of a token lies among the tokens that it begins. -/
theorem Amid.interior {l : Location} {t : Token} (h : l.Amid t.children) (ts : List Token) :
    l.Amid (t :: ts) := by
  intro a b ho
  obtain ⟨ha, ht, hts⟩ := inOrder_cons.1 ho
  obtain ⟨hstart, hstop⟩ := h _ _ ht.interior
  exact ⟨Cursor.le_trans ha hstart, Cursor.le_trans hstop hts.le⟩

/-- What lies within what lies among tokens lies among them. -/
theorem Amid.of_within {l m : Location} {ts : List Token} (h : m.Amid ts) (hl : l.Within m) :
    l.Amid ts := by
  intro a b ho
  obtain ⟨hstart, hstop⟩ := h a b ho
  exact ⟨Cursor.le_trans hstart hl.1, Cursor.le_trans hl.2 hstop⟩

/-- What lies among tokens lies within what spans them. -/
theorem Amid.within {l m : Location} {ts : List Token} (h : l.Amid ts) (hm : m.Spans ts)
    (ho : Ordered ts) : l.Within m := by
  obtain ⟨a, b, hab⟩ := ho
  exact h _ _ (hm.inOrder hab)

end Location

end Offside
