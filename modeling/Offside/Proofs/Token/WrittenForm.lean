import Mathlib
import Offside.Proofs.Diagnostic.Reading
import Offside.Proofs.Layout.Extents

/-!
# Written tokens are told apart

The written form of token trees holds no separators between siblings, and texts may be brackets
themselves. Still it determines the trees, as long as no text has a space in it: a place and a text
end at the first space after them, a class is known by its first letter, and what comes after it
tells whether there is an interior.

* `Location.eq_of_corners`: the digits that a location is written with determine it.
* `Token.Spaceless`: a token without spaces in its text. `Token.ofSource_spaceless`,
  `Layout.layout_spaceless`: the tokens of source texts are such, and layout keeps them so.
* `Token.Determined`: a tree whose written form determines it, and where it ends.
  `Token.dumpAll_append_inj`: so do the written forms of such trees together, where no further tree
  follows. `Token.Every.determined`: every tree without spaces is such.
* `dumpAll_inj_iff`: written sequences are equal exactly if the sequences are.
-/

namespace Offside

/-! ## Pieces of the written form -/

/-- A text that ends before the first of some separator is determined by what it stands in. -/
theorem Text.append_cons_inj {separator : Char} {a b x y : List Char} (ha : separator ∉ a)
    (hb : separator ∉ b) (h : a ++ separator :: x = b ++ separator :: y) : a = b ∧ x = y := by
  induction a generalizing b with
  | nil =>
    cases b with
    | nil => exact ⟨rfl, List.tail_eq_of_cons_eq h⟩
    | cons c b =>
      have hhead : separator = c := List.head_eq_of_cons_eq h
      exact absurd (hhead ▸ List.mem_cons_self) hb
  | cons c a ih =>
    cases b with
    | nil =>
      have hhead : c = separator := List.head_eq_of_cons_eq h
      exact absurd (hhead ▸ List.mem_cons_self) ha
    | cons d b =>
      obtain ⟨rfl, htail⟩ := List.cons.inj h
      obtain ⟨rfl, hxy⟩ := ih (fun hmem => ha (List.mem_cons_of_mem _ hmem))
        (fun hmem => hb (List.mem_cons_of_mem _ hmem)) htail
      exact ⟨rfl, hxy⟩

/-- The digits of a number determine it. -/
theorem Text.eq_of_toDigits {m n : Nat} (h : Nat.toDigits 10 m = Nat.toDigits 10 n) : m = n := by
  rw [← Text.decimalValue_toDigits m, h, Text.decimalValue_toDigits]

/-- The digits that a location is written with determine it. -/
theorem Location.eq_of_corners {a b : Location} (h : a.corners = b.corners) : a = b := by
  obtain ⟨⟨r, c⟩, ⟨r', c'⟩, hab⟩ := a
  obtain ⟨⟨s, d⟩, ⟨s', d'⟩, hcd⟩ := b
  simp only [Location.corners, Corners.mk.injEq] at h
  obtain ⟨hr, hc, hr', hc'⟩ := h
  obtain rfl := Text.eq_of_toDigits hr
  obtain rfl := Text.eq_of_toDigits hc
  obtain rfl := Text.eq_of_toDigits hr'
  obtain rfl := Text.eq_of_toDigits hc'
  rfl

/-- A written location ends at the space after it. -/
theorem Location.machine_append_inj {a b : Location} {x y : List Char}
    (h : a.machine.toList ++ ' ' :: x = b.machine.toList ++ ' ' :: y) : a = b ∧ x = y := by
  have hread := congrArg machineCorners? h
  rw [machineCorners?_machine, machineCorners?_machine, Option.some.injEq, Prod.mk.injEq] at hread
  exact ⟨Location.eq_of_corners hread.1, List.tail_eq_of_cons_eq hread.2⟩

/-- The classes are told apart by the first letters of their names. -/
theorem TokenKind.name_append_inj {a b : TokenKind} {x y : List Char}
    (h : a.name.toList ++ x = b.name.toList ++ y) : a = b ∧ x = y := by
  have hletters : a.name.toList.head? = b.name.toList.head? := by
    have hhead := congrArg List.head? h
    revert hhead
    cases a <;> cases b <;> exact id
  have hab : a = b := by
    revert hletters
    cases a <;> cases b <;> decide
  subst hab
  exact ⟨rfl, List.append_cancel_left h⟩

namespace Token

/-! ## Texts without spaces -/

/-- A token without spaces in its text. -/
def Spaceless (t : Token) : Prop := ' ' ∉ t.text.toList

/-- The texts of tokens that are read from a source text have no spaces. -/
theorem ofSource_spaceless {source : String} {ts : List Token} (h : ofSource source = .ok ts) :
    ∀ t ∈ ts, t.Every Spaceless :=
  fun t ht => (ofSource_plain (Nat.le_refl _) h t ht).mono fun _ hu => hu.text.space

end Token

/-- Layout brings in semicolons only, which have no spaces. -/
theorem Layout.layout_spaceless {ts laidOut : List Token} (hts : ∀ t ∈ ts, t.Every Token.Spaceless)
    (h : layout ts = .ok laidOut) : ∀ t ∈ laidOut, t.Every Token.Spaceless :=
  layout_every (P := Token.Spaceless) (fun hu => hu) (fun _ _ ht _ => ht.here)
    (fun _ => (by decide : ' ' ∉ ";".toList)) hts h

namespace Token

/-! ## Written trees -/

/-- What a written tree ends with after the name of its class. -/
def dumpEnd (children : List Token) : List Char :=
  if children.isEmpty then [')'] else ' ' :: ((dumpAll children).toList ++ [')'])

/-- A written tree falls into its place, its text, its class and the rest, with spaces between. -/
theorem toList_dump (t : Token) : t.dump.toList = "(Token ".toList ++ (t.loc.machine.toList ++
    ' ' :: (t.text.toList ++ ' ' :: (t.kind.name.toList ++ dumpEnd t.children))) := by
  obtain ⟨kind, text, loc, children⟩ := t
  have hspace : " ".toList = [' '] := by decide
  have hclose : ")".toList = [')'] := by decide
  rw [dump, dumpEnd]
  cases children with
  | nil => simp [String.toList_append, hspace, hclose]
  | cons c cs => simp [String.toList_append, hspace, hclose]

/-- Written trees begin with a parenthesis. -/
theorem dump_append_head? (t : Token) (x : List Char) :
    (t.dump.toList ++ x).head? = some '(' := by
  rw [toList_dump]
  rfl

theorem toList_dumpAll_nil : (dumpAll []).toList = [] := by
  rw [dumpAll]
  rfl

theorem toList_dumpAll_cons (t : Token) (ts : List Token) :
    (dumpAll (t :: ts)).toList = t.dump.toList ++ (dumpAll ts).toList := by
  rw [dumpAll, String.toList_append]

/-- A written tree determines the tree, and where its written form ends. -/
def Determined (t : Token) : Prop :=
  ∀ u x y, u.Every Spaceless → t.dump.toList ++ x = u.dump.toList ++ y → t = u ∧ x = y

/-- Written sequences of such trees determine the sequence, and where its written form ends, if no
further tree follows there. -/
theorem dumpAll_append_inj {ts us : List Token} {x y : List Char} (hts : ∀ t ∈ ts, t.Determined)
    (hus : ∀ u ∈ us, u.Every Spaceless) (hx : x.head? ≠ some '(') (hy : y.head? ≠ some '(')
    (h : (dumpAll ts).toList ++ x = (dumpAll us).toList ++ y) : ts = us ∧ x = y := by
  induction ts generalizing us with
  | nil =>
    cases us with
    | nil => exact ⟨rfl, List.append_cancel_left h⟩
    | cons u us =>
      rw [toList_dumpAll_nil, toList_dumpAll_cons, List.append_assoc, List.nil_append] at h
      exact absurd (h ▸ dump_append_head? u _) hx
  | cons t ts ih =>
    cases us with
    | nil =>
      rw [toList_dumpAll_nil, toList_dumpAll_cons, List.append_assoc, List.nil_append] at h
      exact absurd (h ▸ dump_append_head? t _) hy
    | cons u us =>
      rw [toList_dumpAll_cons, toList_dumpAll_cons, List.append_assoc, List.append_assoc] at h
      obtain ⟨ht, hothers⟩ := List.forall_mem_cons.1 hts
      obtain ⟨hu, hothers'⟩ := List.forall_mem_cons.1 hus
      obtain ⟨heq, hrest⟩ := ht u _ _ hu h
      obtain ⟨rfl, hxy⟩ := ih hothers hothers' hrest
      exact ⟨heq ▸ rfl, hxy⟩

/-- What a written tree ends with determines its interior: a space announces one. -/
theorem dumpEnd_append_inj {cs ds : List Token} {x y : List Char} (hcs : ∀ c ∈ cs, c.Determined)
    (hds : ∀ d ∈ ds, d.Every Spaceless) (h : dumpEnd cs ++ x = dumpEnd ds ++ y) :
    cs = ds ∧ x = y := by
  cases cs with
  | nil =>
    cases ds with
    | nil => exact ⟨rfl, List.append_cancel_left h⟩
    | cons d ds => exact absurd (List.head_eq_of_cons_eq h) (by decide)
  | cons c cs =>
    cases ds with
    | nil => exact absurd (List.head_eq_of_cons_eq h) (by decide)
    | cons d ds =>
      have hclose : ∀ text : List Char, (')' :: text).head? ≠ some '(' := fun text => by simp
      have hinside : (dumpAll (c :: cs)).toList ++ ')' :: x
          = (dumpAll (d :: ds)).toList ++ ')' :: y := by
        simpa [dumpEnd] using h
      obtain ⟨heq, hxy⟩ := dumpAll_append_inj hcs hds (hclose x) (hclose y) hinside
      exact ⟨heq, List.tail_eq_of_cons_eq hxy⟩

/-- Every tree without spaces in its texts is determined by its written form. -/
theorem Every.determined {t : Token} (ht : t.Every Spaceless) : t.Determined := by
  induction t using induction_children with
  | step t ih =>
    intro u x y hu h
    rw [toList_dump, toList_dump] at h
    simp only [List.append_assoc, List.cons_append] at h
    obtain ⟨hloc, h⟩ := Location.machine_append_inj (List.append_cancel_left h)
    obtain ⟨htext, h⟩ := Text.append_cons_inj ht.here hu.here h
    obtain ⟨hkind, h⟩ := TokenKind.name_append_inj h
    obtain ⟨hchildren, hxy⟩ := dumpEnd_append_inj (fun c hc => ih c hc (ht.inside hc))
      (fun d hd => hu.inside hd) h
    refine ⟨?_, hxy⟩
    cases t
    cases u
    cases hloc
    cases String.toList_injective htext
    cases hkind
    cases hchildren
    rfl

end Token

/-- Two sequences of trees without spaces in their texts are written alike only if they are equal,
in classes, places, texts and nesting. All trees that are read from a source text, and all that are
laid out from such trees, have no spaces in their texts. -/
theorem dumpAll_inj_iff :
    (∀ ts us : List Token, (∀ t ∈ ts, t.Every Token.Spaceless) →
      (∀ u ∈ us, u.Every Token.Spaceless) → (Token.dumpAll ts = Token.dumpAll us ↔ ts = us)) ∧
    (∀ source ts, Token.ofSource source = .ok ts → ∀ t ∈ ts, t.Every Token.Spaceless) ∧
    ∀ ts laidOut, (∀ t ∈ ts, t.Every Token.Spaceless) → Layout.layout ts = .ok laidOut →
      ∀ t ∈ laidOut, t.Every Token.Spaceless := by
  refine ⟨fun ts us hts hus => ⟨fun h => ?_, congrArg Token.dumpAll⟩,
    fun _ _ => Token.ofSource_spaceless, fun _ _ => Layout.layout_spaceless⟩
  have hend : ([] : List Char).head? ≠ some '(' := by decide
  exact (Token.dumpAll_append_inj (fun t ht => (hts t ht).determined) hus hend hend (by rw [h])).1

/-- A `do` before the name that layout puts into it, and after that: the two forms differ. -/
theorem dumpAll_inj_iff_indented : ∃ ts laidOut, Token.ofSource "do\n  a" = .ok ts ∧
    Layout.layout ts = .ok laidOut ∧ Token.dumpAll ts ≠ Token.dumpAll laidOut := by
  let name := Token.leaf .identifier "a" (.one ⟨2, 3⟩)
  let word := Token.block .indented (.ofText ⟨1, 1⟩ "do".toList) []
  let body := Token.block .indented (.ofText ⟨1, 1⟩ "do\n  a".toList) [name]
  have hts : Token.ofSource "do\n  a" = .ok [word, name] := by
    rw [Token.ofSource_eq_trees]
    cbv
  have hlaidOut : Layout.layout [word, name] = .ok [body] := by cbv
  obtain ⟨hinj, hsource, hlayout⟩ := dumpAll_inj_iff
  have hspaceless := hsource _ _ hts
  refine ⟨_, _, hts, hlaidOut, fun h => ?_⟩
  have heq := (hinj _ _ hspaceless (hlayout _ _ hspaceless hlaidOut)).1 h
  exact absurd (congrArg List.length heq) (by decide)

/-- A text with spaces can hold all that would be between two tokens. -/
example : let l := Location.one .origin
    Token.dumpAll [.leaf .number "1 Number)(Token @1,1,1,2 2" l]
      = Token.dumpAll [.leaf .number "1" l, .leaf .number "2" l] := by cbv

end Offside
