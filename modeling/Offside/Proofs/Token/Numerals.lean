import Mathlib
import Offside.Proofs.Token.Nesting
import Offside.Proofs.Token.Relocation
import Offside.Text.Decimal

/-!
# Numerals and what they denote

A number is kept as it is written, with as many digits as there are. Whether it is positive is
decided on the text alone: it is not `0`, and there is no minus sign before it.

* `Text.integerValue`: the integer that a numeral denotes.
* `Text.decimalValue_pos_iff`: digits denote a number above zero if one of them is not `0`.
* `Text.IsLongZero`: zero, written with more digits than it takes.
* `Token.Proper.every`: with a token, all tokens inside it are as a source text gives rise to them.
* `isPositive_iff_integerValue_pos`: the test on the text agrees with the value for every number of
  every source text, except where zero is written with more than one digit.
-/

namespace Offside

namespace Text

/-- The integer that a numeral denotes in decimal: below zero after a minus sign. -/
def integerValue : List Char → Int
  | '-' :: digits => -(decimalValue digits : Int)
  | digits => decimalValue digits

theorem integerValue_minus (digits : List Char) :
    integerValue ('-' :: digits) = -(decimalValue digits : Int) := rfl

theorem integerValue_digits {c : Char} (hc : c ≠ '-') (cs : List Char) :
    integerValue (c :: cs) = (decimalValue (c :: cs) : Int) := by
  rw [integerValue]
  intro digits h
  exact hc (List.head_eq_of_cons_eq h)

/-- A digit that is not `0` counts for something. -/
theorem digit_pos_iff {c : Char} (hc : c.isDigit = true) : 0 < c.toNat - '0'.toNat ↔ c ≠ '0' := by
  have hzero : c = '0' ↔ c.toNat = '0'.toNat := ⟨congrArg Char.toNat, Char.toNat_inj.1⟩
  have hbound : '0'.toNat ≤ c.toNat := by
    simp only [Char.isDigit, Bool.and_eq_true, decide_eq_true_eq] at hc
    exact hc.1
  rw [Ne, hzero]
  omega

/-- Digits after a number denote a number above zero if it is one, or one of them is not `0`. -/
theorem ofDigitChars_pos_iff {digits : List Char} (h : ∀ d ∈ digits, d.isDigit = true)
    (before : Nat) :
    0 < Nat.ofDigitChars 10 digits before ↔ 0 < before ∨ ∃ d ∈ digits, d ≠ '0' := by
  induction digits generalizing before with
  | nil => simp
  | cons c cs ih =>
    obtain ⟨hc, hcs⟩ := List.forall_mem_cons.1 h
    have hsum : 0 < 10 * before + (c.toNat - '0'.toNat) ↔ 0 < before ∨ c ≠ '0' := by
      rw [← digit_pos_iff hc]
      omega
    have hsplit : (∃ d ∈ c :: cs, d ≠ '0') ↔ c ≠ '0' ∨ ∃ d ∈ cs, d ≠ '0' := by simp
    rw [Nat.ofDigitChars_cons, ih hcs, hsum, hsplit, or_assoc]

/-- Digits denote a number above zero if one of them is not `0`. -/
theorem decimalValue_pos_iff {digits : List Char} (h : ∀ d ∈ digits, d.isDigit = true) :
    0 < decimalValue digits ↔ ∃ d ∈ digits, d ≠ '0' := by
  rw [decimalValue, ofDigitChars_pos_iff h]
  simp

/-- Zero, written with more digits than it takes. -/
def IsLongZero (text : List Char) : Prop := 2 ≤ text.length ∧ ∀ d ∈ text, d = '0'

end Text

/-- After a minus sign the test on the text and the value agree: neither is above zero. -/
theorem isPositive_minus {text : String} {digits : List Char} (h : text.toList = '-' :: digits) :
    isPositive text = false ∧ ¬ 0 < Text.integerValue text.toList := by
  constructor
  · simp [isPositive, h]
  · rw [h, Text.integerValue_minus]
    omega

/-- Without a minus sign, all texts but `0` count as positive. -/
theorem isPositive_digits {text : String} {c : Char} {cs : List Char}
    (h : text.toList = c :: cs) (hc : c ≠ '-') : isPositive text = true ↔ c :: cs ≠ ['0'] := by
  have hzero : text = "0" ↔ c :: cs = ['0'] := by
    rw [← h]
    exact String.toList_inj.symm
  rw [isPositive, h, Bool.and_eq_true, bne_iff_ne, bne_iff_ne, Ne, hzero, List.head?_cons]
  exact and_iff_left fun heq => hc (Option.some.inj heq)

/-- The test on the text of a numeral agrees with its value, except for zeros with several
digits. -/
theorem IsNumeral.isPositive_iff {text : String} (h : IsNumeral text) :
    (isPositive text = true ↔ 0 < Text.integerValue text.toList) ↔
      ¬ Text.IsLongZero text.toList := by
  obtain ⟨c, cs, htext | htext, hc, hcs⟩ := h
  · have hsign : c ≠ '-' := by
      rintro rfl
      exact absurd hc (by decide)
    have hdigits : ∀ d ∈ c :: cs, d.isDigit = true := List.forall_mem_cons.2 ⟨hc, hcs⟩
    rw [isPositive_digits htext hsign, htext, Text.integerValue_digits hsign, Int.natCast_pos,
      Text.decimalValue_pos_iff hdigits, Text.IsLongZero]
    by_cases hsome : ∃ d ∈ c :: cs, d ≠ '0'
    · obtain ⟨d, hd, hne⟩ := hsome
      have hother : c :: cs ≠ ['0'] := by
        intro heq
        rw [heq] at hd
        exact hne (List.mem_singleton.1 hd)
      exact iff_of_true (iff_of_true hother ⟨d, hd, hne⟩) fun hlong => hne (hlong.2 d hd)
    · -- All digits are `0`: the test says no only where there is one digit.
      have hzeros : ∀ d ∈ c :: cs, d = '0' :=
        fun d hd => Classical.byContradiction fun hne => hsome ⟨d, hd, hne⟩
      have hone : c :: cs = ['0'] ↔ ¬ 2 ≤ (c :: cs).length := by
        rw [List.eq_replicate_of_mem hzeros]
        cases cs <;> simp [List.replicate_succ]
      rw [iff_false_right hsome, Classical.not_not, hone, and_iff_left hzeros]
  · obtain ⟨htest, hvalue⟩ := isPositive_minus htext
    have hshort : ¬ Text.IsLongZero text.toList := by
      rintro ⟨-, hzeros⟩
      exact absurd (hzeros '-' (htext ▸ List.mem_cons_self)) (by decide)
    exact iff_of_true (iff_of_false (by rw [htest]; decide) hvalue) hshort

namespace Token

/-- With a token, all tokens inside it are as a source text gives rise to them. -/
theorem Proper.every {t : Token} (ht : t.Proper) : t.Every Proper := by
  induction t using induction_children with
  | step t ih => exact .intro ht fun c hc => ih c hc (ht.interior.proper hc)

end Token

/-- For every number of every source text, at every depth: whether its text counts as positive
agrees with whether the integer that it denotes is greater than zero, unless zero is written with
more than one digit. -/
theorem isPositive_iff_integerValue_pos {source : String} {ts : List Token}
    (h : Token.ofSource source = .ok ts) : ∀ t ∈ ts, t.Every fun u => u.kind = .number →
      ((isPositive u.text = true ↔ 0 < Text.integerValue u.text.toList) ↔
        ¬ Text.IsLongZero u.text.toList) := by
  intro t ht
  have hproper := ((Token.ofSource_inOrder h).proper ht).every
  exact hproper.mono fun u hu hkind => (((Token.proper_iff u).1 hu).2.1 hkind).isPositive_iff

/-- Inside a group, zero after a minus sign does not count as positive, and is not. -/
theorem isPositive_iff_integerValue_pos_group : ∃ ts, Token.ofSource "(-00)" = .ok ts ∧
    ∃ group ∈ ts, ∃ zero ∈ group.children, zero.kind = .number ∧ zero.text = "-00" ∧
      (isPositive zero.text = true ↔ 0 < Text.integerValue zero.text.toList) := by
  let zero := Token.leaf .number "-00" (.ofText ⟨1, 2⟩ "-00".toList)
  let group := Token.block (.bracketed .paren) (.ofText ⟨1, 1⟩ "(-00)".toList) [zero]
  have hts : Token.ofSource "(-00)" = .ok [group] := by
    rw [Token.ofSource_eq_trees]
    cbv
  have hmem : zero ∈ group.children := List.mem_singleton.2 rfl
  have hgroup := isPositive_iff_integerValue_pos hts group (List.mem_singleton.2 rfl)
  have hshort : ¬ Text.IsLongZero zero.text.toList := fun hlong =>
    absurd (hlong.2 '-' (by decide)) (by decide)
  exact ⟨_, hts, group, List.mem_singleton.2 rfl, zero, hmem, rfl, rfl,
    ((hgroup.inside hmem).here rfl).2 hshort⟩

/-- Zero with two digits counts as positive. -/
theorem isPositive_two_zeros : ∃ ts, Token.ofSource "00" = .ok ts ∧
    ∃ t ∈ ts, t.kind = .number ∧ t.text = "00" ∧
      isPositive t.text = true ∧ Text.integerValue t.text.toList = 0 := by
  let zero := Token.leaf .number "00" (.ofText ⟨1, 1⟩ "00".toList)
  have hts : Token.ofSource "00" = .ok [zero] := by
    rw [Token.ofSource_eq_trees]
    cbv
  exact ⟨_, hts, zero, List.mem_singleton.2 rfl, rfl, rfl, by decide, by decide⟩

end Offside
