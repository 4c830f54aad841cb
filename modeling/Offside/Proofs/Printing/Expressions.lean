import Offside.Proofs.Printing.Rereading

/-!
# Printed expressions are read back

* `Expr.Printable`: an expression is printed as a text that is read back as this expression up to
  locations. One lemma for each form says that the form is printable if its parts are.
* `Expr.Application`: what can be applied to what, and how that is printed without parentheses.
* `Expr.ReadFrom.printable`: every expression that is read is printable.
-/

namespace Offside

open Token Parse Parser Printing Scanner

/-- No place begins with a number. -/
theorem Place.beginsWithNumber_toExpr (place : Place) :
    place.toExpr.beginsWithNumber = false := by
  cases place with
  | index _ base _ => simp [toExpr, Expr.beginsWithNumber, beginsWithNumber_toExpr base]
  | direct => simp [toExpr, Expr.beginsWithNumber]
  | indirect => simp [toExpr, Expr.beginsWithNumber]
  | tuple => simp [toExpr, Expr.beginsWithNumber]

namespace Expr

/-! ## Printable expressions -/

/-- How the tokens of an expression begin. A conditional expression is known by all its tokens. -/
def Begins : Expr → List Token → Prop
  | ifThen _ condition yes no, ts => ∃ c : Conditional condition yes no, ts = c.tokens
  | valueAt .., ts => ∃ t us, ts = t :: us ∧ t.reserved? = some .valueAt
  | addressOf .., ts => ∃ t us, ts = t :: us ∧ t.reserved? = some .addressOf
  | _, ts => ∃ t us, ts = t :: us ∧ Opening t

/-- An expression that needs no parentheses as an operand begins as an argument does. -/
theorem Begins.opening {e : Expr} {ts : List Token} (h : e.Begins ts) (hclosed : e.isOpen = false) :
    ∃ t us, ts = t :: us ∧ Opening t := by
  cases e
  case ifThen => cases hclosed
  case valueAt => cases hclosed
  case addressOf => cases hclosed
  all_goals exact h

/-- An expression is printed as a text that is read back as this expression up to locations. -/
structure Printable (e : Expr) : Prop where
  /-- After a sign, a text that is neither open nor a number begins the operand of this sign. -/
  head : e.isOpen = false → e.beginsWithNumber = false →
    e.print.toList.head?.any beginsOperand = true
  /-- The tokens of the text are read back. -/
  tokens : ∀ s : Scanner, (e.isOpen = true → s.separated = true) →
    ∃ ts, Fragment s e.print.toList ts ∧ RereadsTightly e.isOpen ts e ∧ e.Begins ts

/-- As an item of a list, a printable expression is read back. -/
theorem Printable.printsAs {e : Expr} (h : e.Printable) : PrintsAs print Rereads e := by
  intro s hs
  obtain ⟨ts, hfragment, htightly, -⟩ := h.tokens s fun _ => hs
  exact ⟨ts, hfragment, htightly.rereads⟩

/-- Where an expression is does not matter for printing it. -/
theorem Printable.relocate {e : Expr} (h : e.Printable) (l : Location) :
    (e.relocate l).Printable := by
  have hprint : (e.relocate l).print = e.print := by
    cases e <;> rw [Expr.relocate, print, print]
  have hopen : (e.relocate l).isOpen = e.isOpen := by cases e <;> rfl
  have hnumber : (e.relocate l).beginsWithNumber = e.beginsWithNumber := by
    cases e
    case apply l' style function args =>
      cases style <;> simp only [Expr.relocate, beginsWithNumber]
    all_goals simp only [Expr.relocate, beginsWithNumber]
  have hbegins : (e.relocate l).Begins = e.Begins := by cases e <;> rfl
  constructor
  · rw [hopen, hnumber, hprint]
    exact h.head
  · rw [hopen, hprint, hbegins]
    unfold RereadsTightly
    rw [erase_relocate]
    exact h.tokens

theorem printAll_eq (es : List Expr) : printAll es = es.map print := by
  induction es with
  | nil => rw [printAll, List.map_nil]
  | cons e es ih => rw [printAll, List.map_cons, ih]

/-! ## Operands -/

/-- The text of an expression in parentheses. -/
theorem paren_fragment {text : String} {s : Scanner} {us : List Token} {e : Expr}
    (hfragment : Fragment (s.past ['('] true) text.toList us) (h : Rereads us e) :
    ∃ t, Fragment s (parenthesized text).toList [t] ∧ RereadsTightly false [t] e ∧ Opening t := by
  obtain ⟨t, hgroup, ht⟩ := Fragment.group s .paren (by decide) hfragment.piece
  have htext : (parenthesized text).toList = '(' :: (text.toList ++ [')']) := by
    simp [parenthesized]
  exact ⟨t, htext ▸ hgroup, tightly_paren ht h, .inr (.inr (.inl ht.1))⟩

/-- A printable expression where it binds tightly. -/
theorem Printable.operand {e : Expr} (h : e.Printable) (s : Scanner) :
    ∃ t us, Fragment s (e.operand e.print).toList (t :: us) ∧ RereadsTightly false (t :: us) e ∧
      Opening t := by
  unfold Expr.operand parenthesizedIf
  cases hopen : e.isOpen with
  | true =>
    obtain ⟨us, hfragment, htightly, -⟩ := h.tokens (s.past ['('] true) fun _ => rfl
    obtain ⟨t, hparen, hrereads, hopening⟩ := paren_fragment hfragment htightly.rereads
    exact ⟨t, [], hparen, hrereads, hopening⟩
  | false =>
    obtain ⟨ts, hfragment, htightly, hbegins⟩ := h.tokens s fun h => by
      rw [hopen] at h
      cases h
    obtain ⟨t, us, rfl, hopening⟩ := hbegins.opening hopen
    rw [hopen] at htightly
    exact ⟨t, us, hfragment, htightly, hopening⟩

/-- What begins a text begins a longer one. -/
theorem head?_any_append {p : Char → Bool} {a : List Char} (h : a.head?.any p = true)
    (b : List Char) : (a ++ b).head?.any p = true := by
  cases a with
  | nil => cases h
  | cons c cs => exact h

/-- An operand that does not begin with a number begins the operand of a sign. -/
theorem Printable.head_operand {e : Expr} (h : e.Printable)
    (hnumber : (!e.isOpen && e.beginsWithNumber) = false) :
    (e.operand e.print).toList.head?.any beginsOperand = true := by
  unfold Expr.operand parenthesizedIf
  cases hopen : e.isOpen with
  | true => exact head_parenthesized _
  | false =>
    rw [hopen, Bool.not_false, Bool.true_and] at hnumber
    exact h.head hopen hnumber

/-! ## Forms without an application -/

theorem printable_ident (l : Location) {name : String} (h : IsName name) :
    (Expr.ident l name).Printable := by
  have hprint : (Expr.ident l name).print = name := by rw [print]
  constructor
  · intro _ _
    obtain ⟨c, cs, hname, hc, -⟩ := h
    rw [hprint, hname]
    show beginsOperand c = true
    rw [beginsOperand, CharClass.of?_wordStart hc]
  · intro s _
    rw [hprint]
    exact ⟨_, Fragment.name s h, tightly_ident rfl l, _, [], rfl, .inl rfl⟩

theorem printable_number (l : Location) {text : String} (h : IsNumeral text) :
    (Expr.number l text).Printable := by
  have hprint : (Expr.number l text).print = text := by rw [print]
  constructor
  · intro _ hnumber
    cases hnumber
  · intro s hs
    rw [hprint]
    refine ⟨_, Fragment.number s h fun hminus => hs ?_, tightly_number rfl l, _, [], rfl,
      .inr (.inl rfl)⟩
    rw [isOpen, hminus]
    rfl

theorem printable_tuple (l : Location) {es : List Expr} (h : ∀ e ∈ es, e.Printable) :
    (Expr.tuple l es).Printable := by
  have htext : (Expr.tuple l es).print.toList = '(' :: ((commaList (es.map print)
      ++ if (es.map print).length = 1 then "," else "").toList ++ [')']) := by
    rw [print, printAll_eq, tupleText, parenthesized, String.toList_append, String.toList_append]
    rfl
  constructor
  · intro _ _
    rw [htext]
    rfl
  · intro s _
    obtain ⟨us, x, hpiece, hseparated⟩ := tuple_piece (fun e he => (h e he).printsAs)
      (s.past ['('] true) rfl
    obtain ⟨t, hgroup, ht⟩ := Fragment.group s .paren (by decide) hpiece
    rw [htext]
    refine ⟨[t], hgroup, tightly_tuple ht hseparated (fun hone => ?_) l, t, [], rfl,
      .inr (.inr (.inl ht.1))⟩
    cases es with
    | nil => cases hone
    | cons => rfl

theorem printable_buffer (l : Location) {es : List Expr} (h : ∀ e ∈ es, e.Printable) :
    (Expr.buffer l es).Printable := by
  have htext : (Expr.buffer l es).print.toList
      = '[' :: ((commaList (es.map print)).toList ++ [']']) := by
    rw [print, printAll_eq, String.toList_append, String.toList_append]
    rfl
  constructor
  · intro _ _
    rw [htext]
    rfl
  · intro s _
    obtain ⟨us, x, b, hpiece, hseparated⟩ := list_piece (fun e he => (h e he).printsAs)
      (s.past ['['] true) rfl
    obtain ⟨t, hgroup, ht⟩ := Fragment.group s .square (by decide) hpiece
    rw [htext]
    exact ⟨[t], hgroup, tightly_buffer ht hseparated l, t, [], rfl, .inr (.inr (.inr ht.1))⟩

theorem Printable.index {base offset : Expr} (hbase : base.Printable) (hoffset : offset.Printable)
    (l : Location) : (Expr.index l base offset).Printable := by
  have htext : (Expr.index l base offset).print.toList
      = (base.operand base.print).toList ++ '[' :: (offset.print.toList ++ [']']) := by
    rw [print]
    simp
  constructor
  · intro _ hnumber
    rw [beginsWithNumber] at hnumber
    rw [htext]
    exact head?_any_append (hbase.head_operand hnumber) _
  · intro s _
    obtain ⟨u, us, hleft, htightly, hopening⟩ := hbase.operand s
    obtain ⟨vs, hinner, hoffset', -⟩ := hoffset.tokens
      ((s.past (base.operand base.print).toList false).past ['['] true) fun _ => rfl
    obtain ⟨t, hgroup, ht⟩ := Fragment.group _ .square (by decide) hinner.piece
    have hstart : t.loc.start = s.cursor.after (base.operand base.print).toList :=
      Option.some.inj hgroup.spans.1
    rw [htext]
    exact ⟨_, hleft.attached hgroup fun _ => endsWord_cons (by decide) _,
      tightly_index htightly hleft.spans hstart ht hoffset'.rereads l, u, _, rfl, hopening⟩

/-- A sign before a printable expression, which is in parentheses if it needs to be. -/
theorem Printable.sign {e : Expr} (h : e.Printable) (c : Char) (word : Reserved) (needed : Bool)
    (hopen : e.isOpen = true → needed = true)
    (hnumber : e.beginsWithNumber = true → needed = true) (hc : isOperatorChar c = true)
    (hminus : c ≠ '-') (hword : Reserved.ofAttached? (String.ofList [c]) = some word)
    (s : Scanner) (hs : s.separated = true) :
    ∃ us, Fragment s (c :: (parenthesizedIf needed e.print).toList)
        (Token.leaf .reserved word.text (s.locate [c]) :: us) ∧ RereadsTightly false us e := by
  cases needed with
  | true =>
    obtain ⟨us, hfragment, htightly, -⟩ := h.tokens ((s.past [c] false).past ['('] true) fun _ => rfl
    obtain ⟨t, hparen, hrereads, -⟩ := paren_fragment hfragment htightly.rereads
    exact ⟨[t], Fragment.sign hs hc hminus hword hparen (head_parenthesized _), hrereads⟩
  | false =>
    have hclosed : e.isOpen = false := by
      cases hcase : e.isOpen
      · rfl
      · cases hopen hcase
    have hplain : e.beginsWithNumber = false := by
      cases hcase : e.beginsWithNumber
      · rfl
      · cases hnumber hcase
    obtain ⟨us, hfragment, htightly, -⟩ := h.tokens (s.past [c] false) fun h => by
      rw [hclosed] at h
      cases h
    rw [hclosed] at htightly
    exact ⟨us, Fragment.sign hs hc hminus hword hfragment (h.head hclosed hplain), htightly⟩

theorem Printable.valueAt {address : Expr} (h : address.Printable) (l : Location) :
    (Expr.valueAt l address).Printable := by
  have htext : (Expr.valueAt l address).print.toList = '*' ::
      (parenthesizedIf (address.beginsWithNumber || address.isOpen) address.print).toList := by
    rw [print, pointee, String.toList_append]
    rfl
  constructor
  · intro hclosed
    cases hclosed
  · intro s hs
    obtain ⟨us, hfragment, htightly⟩ := h.sign '*' .valueAt
      (address.beginsWithNumber || address.isOpen) (fun h => by rw [h, Bool.or_true])
      (fun h => by rw [h, Bool.true_or]) (by decide) (by decide) (by decide) s (hs rfl)
    rw [htext]
    exact ⟨_, hfragment, tightly_valueAt (leaf_reserved? _ _) htightly l, _, us, rfl,
      leaf_reserved? _ _⟩

theorem printable_addressOf {target : Place} (h : target.toExpr.Printable) (l : Location) :
    (Expr.addressOf l target).Printable := by
  have htext : (Expr.addressOf l target).print.toList = '&' ::
      (parenthesizedIf target.toExpr.isOpen target.toExpr.print).toList := by
    rw [print, ← Place.isOpen_toExpr, Place.print_eq, String.toList_append]
    rfl
  constructor
  · intro hclosed
    cases hclosed
  · intro s hs
    obtain ⟨us, hfragment, htightly⟩ := h.sign '&' .addressOf target.toExpr.isOpen id
      (fun h => by rw [Place.beginsWithNumber_toExpr] at h; cases h) (by decide) (by decide)
      (by decide) s (hs rfl)
    rw [htext]
    exact ⟨_, hfragment, tightly_addressOf (leaf_reserved? _ _) htightly l, _, us, rfl,
      leaf_reserved? _ _⟩

theorem Printable.asType {value : Expr} {type : TypeExpr} (h : value.Printable)
    (htype : type.Printable) (l : Location) : (Expr.asType l value type).Printable := by
  have htext : (Expr.asType l value type).print
      = parenthesized (value.print ++ " : " ++ type.print) := by rw [print]
  constructor
  · intro _ _
    rw [htext]
    exact head_parenthesized _
  · intro s _
    obtain ⟨ts, hleft, htightly, -⟩ := h.tokens (s.past ['('] true) fun _ => rfl
    obtain ⟨us, hright, hrereads, -⟩ := htype ((s.past ['('] true).past
      (value.print.toList ++ ' ' :: (":".toList ++ [' '])) true) fun _ => rfl
    obtain ⟨l', hfragment⟩ :=
      hleft.operator (by decide) (List.all_eq_true.1 (by decide)) hright
    have hinner : (value.print ++ " : " ++ type.print).toList
        = value.print.toList ++ ' ' :: (":".toList ++ [' ']) ++ type.print.toList := by
      simp
    rw [← hinner] at hfragment
    obtain ⟨t, hparen, hrereads', hopening⟩ := paren_fragment hfragment
      (rereads_ascription htightly (leaf_reserved? .asType l') hrereads l)
    rw [htext]
    exact ⟨[t], hparen, hrereads', t, [], rfl, hopening⟩

/-! ## Conditional expressions -/

/-- The text of a block of a conditional expression. -/
def valueBlock (e : Expr) : List Char :=
  '\x7b' :: ([' '] ++ (e.print.toList ++ [' ']) ++ ['\x7d'])

theorem Printable.valueBlock {e : Expr} (h : e.Printable) (s : Scanner) :
    ∃ t, Fragment s e.valueBlock [t] ∧ ∃ inner, t.IsGroup .brace inner ∧ Rereads inner e := by
  obtain ⟨us, hinner, htightly, -⟩ :=
    h.tokens ((s.past ['\x7b'] true).past [' '] true) fun _ => rfl
  have hpiece := (Piece.blank (s.past ['\x7b'] true)).append_anything
    (hinner.piece.append (Piece.blank _) fun _ _ => endsWord_cons (by decide) _)
  obtain ⟨t, hgroup, ht⟩ := Fragment.group s .brace (by decide) hpiece.of_anything
  rw [List.nil_append, List.append_nil] at ht
  exact ⟨t, hgroup, us, ht, htightly.rereads⟩

theorem printable_ifThen {condition yes no : Expr} (hcondition : condition.Printable)
    (hyes : yes.Printable) (hno : no.Printable) (l : Location) :
    (Expr.ifThen l condition yes no).Printable := by
  have htext : (Expr.ifThen l condition yes no).print.toList
      = Reserved.ifThen.text.toList ++ [' '] ++ condition.print.toList ++ [' '] ++ yes.valueBlock
        ++ [' '] ++ Reserved.otherwise.text.toList ++ [' '] ++ no.valueBlock := by
    rw [print]
    simp [Expr.valueBlock, Reserved.text]
  constructor
  · intro hclosed
    cases hclosed
  · intro s _
    obtain ⟨word, hif, hword⟩ :=
      Fragment.keyword s (show Reserved.ifThen ∈ Reserved.keywords by decide)
    obtain ⟨test, htest, htightly, -⟩ := hcondition.tokens (s.past _ true) fun _ => rfl
    have hhead := hif.spaced htest
    obtain ⟨yesBlock, hyesBlock, hisYes⟩ := hyes.valueBlock (s.past _ true)
    have hyesPart := hhead.spaced hyesBlock
    obtain ⟨other, helse, hother⟩ := Fragment.keyword (s.past _ true)
      (show Reserved.otherwise ∈ Reserved.keywords by decide)
    have helsePart := hyesPart.spaced helse
    obtain ⟨noBlock, hnoBlock, hisNo⟩ := hno.valueBlock (s.past _ true)
    have hwhole := helsePart.spaced hnoBlock
    rw [← htext] at hwhole
    let c : Conditional condition yes no :=
      ⟨word, test, yesBlock, other, noBlock, hword, hother, htightly.rereads, hisYes, hisNo⟩
    refine ⟨c.tokens, ?_, tightly_ifThen c l, c, rfl⟩
    simpa [c, Conditional.tokens] using hwhole

/-! ## Applications -/

/-- What can be applied to what: an operator to two operands, a function to arguments that are
juxtaposed, or a function to a list of arguments. -/
inductive Application : CallStyle → Expr → List Expr → Prop
  | operator {l : Location} {name : String} {power : Nat} {left right : Expr}
      (binary : bindingPower? name = some power) (hleft : left.Printable)
      (hright : right.Printable) : Application .curried (.ident l name) [left, right]
  | juxtaposed {function : Expr} {args : List Expr} (plain : function.operator? = none)
      (hfunction : function.Printable) (some : args ≠ []) (hargs : ∀ arg ∈ args, arg.Printable) :
      Application .curried function args
  | listed {function : Expr} {args : List Expr} (hfunction : function.Printable)
      (hargs : ∀ arg ∈ args, arg.Printable) : Application .tupled function args

/-- The text of an application as a statement. -/
def callText (style : CallStyle) (function : Expr) (args : List Expr) : String :=
  applicationText false style function args function.print (printAll args)

/-- A binary operator is written with operator characters. -/
theorem operatorChars_of_bindingPower? {name : String} {n : Nat} (h : bindingPower? name = some n) :
    name.toList ≠ [] ∧ ∀ d ∈ name.toList, isOperatorChar d = true := by
  have hall : ∀ entry ∈ binaryOperators,
      entry.1.toList ≠ [] ∧ entry.1.toList.all isOperatorChar = true := by
    decide
  obtain ⟨hne, hchars⟩ := hall _ (mem_of_bindingPower? h)
  exact ⟨hne, List.all_eq_true.1 hchars⟩

/-- The operands of an operator, and the operator between them. -/
theorem operator_fragment {l : Location} {name : String} {n : Nat} {left right : Expr}
    (hbinary : bindingPower? name = some n) (hleft : left.Printable) (hright : right.Printable)
    (s : Scanner) (hs : s.separated = true) :
    ∃ ts t us, Fragment s (callText .curried (.ident l name) [left, right]).toList (ts ++ t :: us) ∧
      RereadsTightly left.isOpen ts left ∧ left.Begins ts ∧ t.kind = .operator ∧ t.text = name ∧
      RereadsTightly right.isOpen us right := by
  obtain ⟨hne, hchars⟩ := operatorChars_of_bindingPower? hbinary
  obtain ⟨ts, hleftFragment, hleftReads, hbegins⟩ := hleft.tokens s fun _ => hs
  obtain ⟨us, hrightFragment, hrightReads, -⟩ := hright.tokens (s.past _ true) fun _ => rfl
  obtain ⟨l', hfragment⟩ := hleftFragment.operator hne hchars hrightFragment
  have htext : (callText .curried (.ident l name) [left, right]).toList
      = left.print.toList ++ ' ' :: (name.toList ++ [' ']) ++ right.print.toList := by
    have hoperator : (Expr.ident l name).operator? = some name := by
      rw [operator?, hbinary]
      rfl
    unfold callText applicationText
    simp [printAll_eq, hoperator, parenthesizedIf]
  have hcolon : name ≠ ":" := by
    rintro rfl
    cases hbinary
  have htoken : Piece.looseToken name l' = Token.leaf .operator name l' := if_neg hcolon
  rw [← htext, htoken] at hfragment
  exact ⟨ts, _, us, hfragment, hleftReads, hbegins, rfl, rfl, hrightReads⟩

/-- Arguments after a function, with spaces before them. -/
theorem arguments_fragment {args : List Expr} (h : ∀ arg ∈ args, arg.Printable) {s : Scanner}
    {a : List Char} {ts : List Token} (hfunction : Fragment s a ts) :
    ∃ us, Fragment s (a ++ args.flatMap fun arg => ' ' :: (arg.operand arg.print).toList) (ts ++ us) ∧
      Juxtaposed (s.cursor.after a) us args := by
  induction args generalizing a ts with
  | nil =>
    refine ⟨[], ?_, .nil⟩
    rw [List.flatMap_nil, List.append_nil, List.append_nil]
    exact hfunction
  | cons arg args ih =>
    obtain ⟨harg, hargs⟩ := List.forall_mem_cons.1 h
    obtain ⟨t, us, hfragment, htightly, hopening⟩ := harg.operand (s.past (a ++ [' ']) true)
    obtain ⟨vs, hothers, hjuxtaposed⟩ := ih hargs (hfunction.spaced hfragment)
    have hstart : t.loc.start = s.cursor.after (a ++ [' ']) := Option.some.inj hfragment.spans.1
    have hapart : t.loc.start ≠ s.cursor.after a := by
      rw [hstart, Cursor.after_append]
      intro h
      have hcol := congrArg Cursor.col h
      exact absurd hcol (Nat.succ_ne_self _)
    refine ⟨t :: us ++ vs, ?_, .cons htightly hopening hapart hfragment.spans ?_⟩
    · rw [← List.append_assoc]
      simpa using hothers
    · rwa [Cursor.after_append] at hjuxtaposed

/-- A function and its arguments, with spaces between them. -/
theorem juxtaposed_fragment {function : Expr} {args : List Expr} (hplain : function.operator? = none)
    (hfunction : function.Printable) (hne : args ≠ []) (hargs : ∀ arg ∈ args, arg.Printable)
    (s : Scanner) (l : Location) :
    ∃ t us, Fragment s (callText .curried function args).toList (t :: us) ∧
      Rereads (t :: us) (.apply l .curried function args) ∧ Opening t := by
  obtain ⟨t, us, hfragment, htightly, hopening⟩ := hfunction.operand s
  obtain ⟨vs, hall, hjuxtaposed⟩ := arguments_fragment hargs hfragment
  have htext : (callText .curried function args).toList = (function.operand function.print).toList
      ++ args.flatMap fun arg => ' ' :: (arg.operand arg.print).toList := by
    unfold callText applicationText
    simp only [hplain, parenthesizedIf, Bool.false_eq_true, if_false, printAll_eq,
      toList_intercalate_cons, List.zipWith_map_right, List.zipWith_self, List.flatMap_map]
    rfl
  rw [← htext] at hall
  exact ⟨t, us ++ vs, hall, rereads_juxtaposition htightly hfragment.spans hne hjuxtaposed l,
    hopening⟩

/-- A function and a list of arguments. -/
theorem listed_fragment {function : Expr} {args : List Expr} (hfunction : function.Printable)
    (hargs : ∀ arg ∈ args, arg.Printable) (s : Scanner) (l : Location) :
    ∃ t us, Fragment s (callText .tupled function args).toList (t :: us) ∧
      RereadsTightly false (t :: us) (.apply l .tupled function args) ∧ Opening t := by
  obtain ⟨u, us, hleft, htightly, hopening⟩ := hfunction.operand s
  obtain ⟨vs, x, b, hpiece, hseparated⟩ := list_piece (fun arg harg => (hargs arg harg).printsAs)
    ((s.past (function.operand function.print).toList false).past ['('] true) rfl
  obtain ⟨t, hgroup, ht⟩ := Fragment.group _ .paren (by decide) hpiece
  have hstart : t.loc.start = s.cursor.after (function.operand function.print).toList :=
    Option.some.inj hgroup.spans.1
  have htext : (callText .tupled function args).toList = (function.operand function.print).toList
      ++ '(' :: ((commaList (args.map print)).toList ++ [')']) := by
    unfold callText applicationText
    simp [printAll_eq, parenthesized]
  rw [htext]
  exact ⟨u, _, hleft.attached hgroup fun _ => endsWord_cons (by decide) _,
    tightly_listCall htightly hleft.spans hstart ht hseparated l, hopening⟩

/-- An application that is not a statement is in parentheses unless it has an argument list. -/
theorem print_apply (l : Location) (style : CallStyle) (function : Expr) (args : List Expr) :
    (Expr.apply l style function args).print
      = parenthesizedIf (style == .curried) (callText style function args) := by
  rw [print]
  unfold callText applicationText
  cases style <;> rfl

theorem Application.printable {style : CallStyle} {function : Expr} {args : List Expr}
    (h : Application style function args) (l : Location) :
    (Expr.apply l style function args).Printable := by
  have hparen : ∀ {text : String}, (Expr.apply l style function args).print = parenthesized text →
      (∀ s : Scanner, s.separated = true → ∃ ts, Fragment s text.toList ts ∧
        Rereads ts (.apply l style function args)) → (Expr.apply l style function args).Printable := by
    intro text htext h
    constructor
    · intro _ _
      rw [htext]
      exact head_parenthesized text
    · intro s _
      obtain ⟨us, hfragment, hrereads⟩ := h (s.past ['('] true) rfl
      obtain ⟨t, hparen, htightly, hopening⟩ := paren_fragment hfragment hrereads
      rw [htext]
      exact ⟨[t], hparen, htightly, t, [], rfl, hopening⟩
  cases h with
  | operator hbinary hleft hright =>
    refine hparen (print_apply ..) fun s hs => ?_
    obtain ⟨ts, t, us, hfragment, hleftReads, -, hkind, rfl, hrightReads⟩ :=
      operator_fragment hbinary hleft hright s hs
    exact ⟨_, hfragment, rereads_operator hleftReads hkind hbinary hrightReads l _⟩
  | juxtaposed hplain hfunction hne hargs =>
    refine hparen (print_apply ..) fun s hs => ?_
    obtain ⟨t, us, hfragment, hrereads, -⟩ := juxtaposed_fragment hplain hfunction hne hargs s l
    exact ⟨_, hfragment, hrereads⟩
  | listed hfunction hargs =>
    have htext : (Expr.apply l .tupled function args).print = callText .tupled function args :=
      print_apply ..
    constructor
    · intro _ hnumber
      rw [beginsWithNumber] at hnumber
      rw [htext, callText, applicationText, String.toList_append]
      exact head?_any_append (hfunction.head_operand hnumber) _
    · intro s _
      obtain ⟨t, us, hfragment, htightly, hopening⟩ := listed_fragment hfunction hargs s l
      rw [htext]
      exact ⟨_, hfragment, htightly, t, us, rfl, hopening⟩

/-! ## Every expression -/

/-- No name is a binary operator. -/
theorem bindingPower?_name {name : String} (h : IsName name) : bindingPower? name = none := by
  cases hpower : bindingPower? name with
  | none => rfl
  | some n =>
    obtain ⟨c, cs, hname, hc, -⟩ := h
    have hop := (operatorChars_of_bindingPower? hpower).2 c (by rw [hname]; exact List.mem_cons_self)
    have hclass := CharClass.of?_wordStart hc
    rw [CharClass.of?_operator hop] at hclass
    cases hclass

/-- No expression that is read is an operator. -/
theorem ReadFrom.operator?_eq_none {s c : List Token} {e : Expr} :
    ReadFrom s c e → e.operator? = none
  | .ident _ hname => by rw [operator?, bindingPower?_name hname]; rfl
  | @ReadFrom.paren t _ _ e _ _ inner _ => by
    have hsame : (e.relocate t.loc).operator? = e.operator? := by cases e <;> rfl
    rw [hsame]
    exact inner.operator?_eq_none
  | .number .. | .tuple .. | .buffer .. | .negate .. | .valueAt .. | .addressOf .. | .ifThen .. => rfl
  | .index .. | .listCall .. | .juxtaposition .. | .ascription .. | .backtick .. | .operator .. => rfl

/-- A minus sign is printed as the name of the function that it stands for. -/
theorem application_negate {t : Token} {operand : Expr} (sign : t.isReserved .negate)
    (h : operand.Printable) : Application .curried (.ident t.loc t.text) [operand] := by
  have hname : IsName Reserved.negate.text :=
    ⟨'n', _, rfl, by decide, List.all_eq_true.1 (by decide), by decide, by decide +kernel⟩
  rw [text_of_reserved? (isReserved_iff.1 sign)]
  refine .juxtaposed ?_ (printable_ident _ hname) (List.cons_ne_nil _ _)
    (List.forall_mem_singleton.2 h)
  rw [operator?, bindingPower?_name hname]
  rfl

mutual

/-- Every expression that is read is printable. -/
theorem ReadFrom.printable {s c : List Token} {e : Expr} : ReadFrom s c e → e.Printable
  | .ident _ hname => printable_ident _ hname
  | .number _ hnumeral => printable_number _ hnumeral
  | .paren _ _ inner _ => inner.printable.relocate _
  | .tuple _ inside _ _ => printable_tuple _ inside.printable
  | .buffer _ inside _ => printable_buffer _ inside.printable
  | .negate sign inner _ => (application_negate sign inner.printable).printable _
  | .valueAt _ inner _ => inner.printable.valueAt _
  | .addressOf _ inner _ => printable_addressOf inner.printable _
  | .ifThen _ test _ _ yesFrom _ _ _ noFrom _ =>
    printable_ifThen test.printable yesFrom.printable noFrom.printable _
  | .index left _ _ inner _ => left.printable.index inner.printable _
  | .listCall left _ inside _ =>
    (Application.listed left.printable inside.printable).printable _
  | .juxtaposition left hne right _ =>
    (Application.juxtaposed left.operator?_eq_none left.printable hne right.printable).printable _
  | .ascription left _ right _ => left.printable.asType right.printable _
  | .backtick leftFrom _ _ functionFrom rightFrom _ =>
    (Application.juxtaposed functionFrom.operator?_eq_none functionFrom.printable
      (List.cons_ne_nil _ _) (List.forall_mem_cons.2 ⟨leftFrom.printable,
        List.forall_mem_singleton.2 rightFrom.printable⟩)).printable _
  | .operator leftFrom _ binary rightFrom _ _ =>
    (Application.operator binary leftFrom.printable rightFrom.printable).printable _

/-- All expressions of a list that is read are printable. -/
theorem ListFrom.printable {comma : Bool} {ts : List Token} {es : List Expr} :
    ListFrom comma ts es → ∀ e ∈ es, e.Printable
  | .nil => fun _ h => nomatch h
  | .last h => List.forall_mem_singleton.2 h.printable
  | .more h _ others => List.forall_mem_cons.2 ⟨h.printable, others.printable⟩

/-- All arguments that are read are printable. -/
theorem ArgsFrom.printable {ts : List Token} {es : List Expr} :
    ArgsFrom ts es → ∀ e ∈ es, e.Printable
  | .nil => fun _ h => nomatch h
  | .cons h others => List.forall_mem_cons.2 ⟨h.printable, others.printable⟩

end

end Expr

end Offside
