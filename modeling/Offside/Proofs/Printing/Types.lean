import Offside.Proofs.Grammar.Types
import Offside.Proofs.Printing.Lists
import Offside.Proofs.Syntax.Erasure

/-!
# Printed types are read back

* `TypeExpr.Rereads`, `TypeExpr.RereadsTightly`: tokens are read as a type up to locations, where no
  arrow follows, or whatever follows.
* `TypeExpr.Printable`: a type is printed as a text with such tokens. One lemma for each form says
  that the form is printable if its parts are.
* `TypeExpr.ReadFrom.printable`: every type that is read is printable.
-/

namespace Offside

open Token Parse Parser Printing Scanner

/-! ## Sizes -/

namespace BufferSize

/-- The size of a buffer that can be printed. -/
def Printable : BufferSize → Prop
  | literal text => IsNumeral text
  | unknown => True
  | external name => IsName name

/-- A printed size is read back. -/
theorem Printable.piece {size : BufferSize} (h : size.Printable) (s : Scanner) (hs : s.separated = true) :
    ∃ ts x, Piece EndsWord s size.print.toList ts x ∧
      ∀ q : Parser, q.rest = ts → read q = .ok size (q.passAll ts) := by
  cases size with
  | unknown =>
    refine ⟨[], s.separated, (Piece.empty s).of_anything, fun q hq => ?_⟩
    unfold read
    rw [bind_eq (show advance q = .ok none q by rw [advance, hq])]
    rfl
  | literal text =>
    refine ⟨_, false, (Fragment.number s h fun _ => hs).piece, fun q hq => ?_⟩
    unfold read
    rw [bind_eq (show advance q = .ok (some _) _ by rw [advance, hq])]
    rfl
  | external name =>
    refine ⟨_, false, (Fragment.name s h).piece, fun q hq => ?_⟩
    unfold read
    rw [bind_eq (show advance q = .ok (some _) _ by rw [advance, hq])]
    rfl

theorem ReadFrom.printable {ts : List Token} {size : BufferSize} (h : ReadFrom ts size) :
    size.Printable := by
  cases h with
  | literal _ hnumeral => exact hnumeral
  | unknown => trivial
  | external _ hname => exact hname

end BufferSize

namespace TypeExpr

/-! ## Reading back -/

/-- Where no arrow follows, tokens are read as a type up to locations. -/
def Rereads (ts : List Token) (type : TypeExpr) : Prop :=
  ∀ level p rest, totalWeight ts ≤ level → p.rest = ts ++ rest →
    (∀ u, rest.head? = some u → u.is .operator "->" = false) →
    ∃ type', (grammar level).parse 0 p = .ok type' (p.passAll ts) ∧ type'.erase = type.erase

/-- Whatever follows, tokens are read as a type up to locations, which may then be continued. -/
def RereadsTightly (ts : List Token) (type : TypeExpr) : Prop :=
  ∀ level power p rest t us, ts = t :: us → totalWeight ts ≤ level → p.rest = us ++ rest →
    ∃ type' n, type'.erase = type.erase ∧ rest.length ≤ n ∧
      (grammar level).continueFrom power t p
        = (grammar level).extendUpTo power n type' (p.passAll us)

/-- Only an arrow continues a type, and not a tight one. -/
theorem grammar_halted {level power : Nat} {p : Parser}
    (h : 0 < power ∨ ∀ u, p.rest.head? = some u → u.is .operator "->" = false) :
    (grammar level).Halted power p := by
  intro t extension ht hextend
  cases level with
  | zero => cases hextend
  | succ level =>
    change extend? (grammar level) t = some extension at hextend
    unfold extend? at hextend
    split at hextend
    · rename_i harrow
      cases hextend
      rcases h with h | h
      · exact h
      · rw [h t ht] at harrow
        cases harrow
    · cases hextend

theorem RereadsTightly.parse {ts rest : List Token} {type : TypeExpr} {level power : Nat}
    {p : Parser} (h : RereadsTightly ts type) (hne : ts ≠ []) (hlevel : totalWeight ts ≤ level)
    (hp : p.rest = ts ++ rest) (hhalted : (grammar level).Halted power (p.passAll ts)) :
    ∃ type', (grammar level).parse power p = .ok type' (p.passAll ts) ∧
      type'.erase = type.erase := by
  obtain ⟨t, us, rfl⟩ := List.exists_cons_of_ne_nil hne
  have hpass : (p.pass t).rest = us ++ rest := by rw [pass_rest, hp]; rfl
  obtain ⟨type', n, herase, -, hcontinue⟩ := h level power (p.pass t) rest t us rfl hlevel hpass
  refine ⟨type', ?_, herase⟩
  rw [Grammar.parse_eq hp, hcontinue, ← passAll_cons]
  exact Grammar.extendUpTo_halted hhalted n type'

theorem RereadsTightly.rereads {ts : List Token} {type : TypeExpr} (h : RereadsTightly ts type)
    (hne : ts ≠ []) : Rereads ts type := by
  intro level p rest hlevel hp hrest
  refine h.parse hne hlevel hp (grammar_halted (.inr ?_))
  rw [passAll_rest hp]
  exact hrest

/-- A form that its first token determines is read tightly. -/
theorem tightly_of_start {t : Token} {us : List Token} {type : TypeExpr}
    (h : ∀ level p rest, totalWeight t.children + totalWeight us ≤ level → p.rest = us ++ rest →
      ∃ type', start (grammar level) t p = .ok type' (p.passAll us) ∧
        type'.erase = type.erase) : RereadsTightly (t :: us) type := by
  intro level power p rest t' us' heq hlevel hp
  cases heq
  rw [totalWeight_cons, weight_eq] at hlevel
  obtain ⟨level, rfl⟩ : ∃ l, level = l + 1 := ⟨level - 1, by omega⟩
  obtain ⟨type', hstart, herase⟩ := h level p rest (by omega) hp
  refine ⟨type', rest.length, herase, Nat.le_refl _, ?_⟩
  rw [Grammar.continueFrom_eq hstart, passAll_rest hp]

/-- No type is read from no tokens. -/
theorem Rereads.ne_nil {ts : List Token} {type : TypeExpr} (h : Rereads ts type) : ts ≠ [] := by
  rintro rfl
  obtain ⟨type', hok, -⟩ := h 0 (Parser.ofTokens (.point .origin) []) [] (Nat.le_refl _) rfl
    fun u hu => nomatch hu
  cases hok

/-- Tokens that are read as a type, the whole of an input. -/
theorem Rereads.parseType {ts : List Token} {type : TypeExpr} (h : Rereads ts type)
    (span : Location) : ∃ type', parseType span ts = .ok type' ∧ type'.erase = type.erase := by
  have hp : (ofTokens span ts).rest = ts ++ [] := (List.append_nil ts).symm
  obtain ⟨type', hread, herase⟩ :=
    h (totalWeight ts) (ofTokens span ts) [] (Nat.le_refl _) hp fun u hu => nomatch hu
  have hparse : TypeExpr.parse 0 (ofTokens span ts) = .ok type' ((ofTokens span ts).passAll ts) :=
    hread
  exact ⟨type', result_whole hparse (passAll_rest hp), herase⟩

/-- There is a type before a comma. -/
theorem ListFrom.ne_nil {ts : List Token} {types : List TypeExpr} (h : ListFrom true ts types) :
    types ≠ [] := by
  cases h
  exact List.cons_ne_nil _ _

/-! ## Printable types -/

theorem printAll_eq (types : List TypeExpr) : printAll types = types.map print := by
  induction types with
  | nil => rw [printAll, List.map_nil]
  | cons type types ih => rw [printAll, List.map_cons, ih]

/-- Whether a type is printed as an arrow without parentheses. -/
def isBare (type : TypeExpr) : Bool := type.modality == .immutable && type.isArrow

/-- Whether the text of a type can begin with a star. -/
def isStarred (type : TypeExpr) : Bool :=
  type.modality == .immutable && (type.isArrow || type.isPointer)

/-- A type is printed as a text that is read back as this type up to locations, and tightly unless
it is a bare arrow. -/
def Printable (type : TypeExpr) : Prop :=
  ∀ s : Scanner, (type.isStarred = true → s.separated = true) →
    ∃ ts, Fragment s type.print.toList ts ∧ Rereads ts type ∧
      (type.isBare = false → RereadsTightly ts type)

/-- A type that is printed as a text that is read back tightly. -/
theorem printable_of_tightly {type : TypeExpr}
    (h : ∀ s : Scanner, (type.isStarred = true → s.separated = true) →
      ∃ ts, Fragment s type.print.toList ts ∧ RereadsTightly ts type) : type.Printable := by
  intro s hs
  obtain ⟨ts, hfragment, htightly⟩ := h s hs
  exact ⟨ts, hfragment, htightly.rereads hfragment.spans.ne_nil, fun _ => htightly⟩

/-- As an item of a list, a printable type is read back. -/
theorem Printable.printsAs {type : TypeExpr} (h : type.Printable) : PrintsAs print Rereads type := by
  intro s hs
  obtain ⟨ts, hfragment, hrereads, -⟩ := h s fun _ => hs
  exact ⟨ts, hfragment, hrereads⟩

/-- Where a type is does not matter for printing it. -/
theorem Printable.relocate {type : TypeExpr} (h : type.Printable) (l : Location) :
    (type.relocate l).Printable := by
  have hprint : (type.relocate l).print = type.print := by
    cases type <;> rw [TypeExpr.relocate, print, print]
  have hbare : (type.relocate l).isBare = type.isBare := by cases type <;> rfl
  have hstarred : (type.relocate l).isStarred = type.isStarred := by cases type <;> rfl
  intro s hs
  rw [hstarred] at hs
  rw [hprint, hbare]
  obtain ⟨ts, hfragment, hrereads, htightly⟩ := h s hs
  refine ⟨ts, hfragment, ?_, fun hnot => ?_⟩
  · unfold Rereads
    rw [erase_relocate]
    exact hrereads
  · unfold RereadsTightly
    rw [erase_relocate]
    exact htightly hnot

/-! ## Parentheses -/

/-- A list of printed types, with the level that its tokens call for. -/
theorem list_rereads {b : Bool} {ts : List Token} {types : List TypeExpr} {level : Nat}
    (h : Separated .comma Rereads b ts types) (hlevel : totalWeight ts ≤ level) (q : Parser)
    (hq : q.rest = ts) :
    ∃ a, Parse.list ((grammar level).parse 0) q = .ok a (q.passAll ts) ∧
      a.2 = b ∧ a.1.map erase = types.map erase := by
  have hitem : ∀ us type (p : Parser) rest, (Rereads us type ∧ totalWeight us ≤ level) →
      p.loops = q.loops → p.rest = us ++ rest →
      Follows .comma (fun us type => Rereads us type ∧ totalWeight us ≤ level) rest →
      ∃ type', (grammar level).parse 0 p = .ok type' (p.passAll us) ∧
        type'.erase = type.erase := by
    rintro us type p rest ⟨hrereads, hweight⟩ - hp hrest
    refine hrereads level p rest hweight hp fun u hu => ?_
    rw [Token.is, hrest.kind hu]
    rfl
  obtain ⟨types', hok, hmap⟩ := list_eq hitem (fun us type hR => hR.1.ne_nil)
    (h.and_weight hlevel) hq rfl
  exact ⟨(types', b), hok, rfl, hmap⟩

/-- Types in parentheses. -/
theorem start_paren {b : Bool} {t : Token} {us : List Token} {types : List TypeExpr} {level : Nat}
    {p : Parser} (ht : t.IsGroup .paren us) (h : Separated .comma Rereads b us types)
    (hlevel : totalWeight us ≤ level) :
    ∃ types' : List TypeExpr, start (grammar level) t p = .ok (ofMembers t.loc (types', b)) p ∧
      types'.map erase = types.map erase := by
  obtain ⟨⟨types', b'⟩, hwithin, rfl, hmap⟩ :=
    within_group ht fun q hq _ => list_rereads h hlevel q hq
  refine ⟨types', ?_, hmap⟩
  have hkind : t.kind = .block := kind_of_blockKind? ht.1
  have hnot : t.reserved? = none := by rw [reserved?, hkind]; rfl
  unfold start
  simp only [hkind, isReserved, hnot, isStar, Token.is, ht.1]
  exact bind_eq hwithin

/-- A printable type in parentheses is read back tightly. -/
theorem Printable.parenthesized {type : TypeExpr} (h : type.Printable) (s : Scanner) :
    ∃ ts, Fragment s (parenthesized type.print).toList ts ∧ RereadsTightly ts type := by
  obtain ⟨us, hfragment, hrereads, -⟩ := h (s.past ['('] true) fun _ => rfl
  obtain ⟨t, hgroup, ht⟩ := Fragment.group s .paren (by decide) hfragment.piece
  have htext : (Printing.parenthesized type.print).toList = '(' :: (type.print.toList ++ [')']) := by
    simp [Printing.parenthesized]
  refine ⟨[t], htext ▸ hgroup, tightly_of_start fun level p rest hlevel hp => ?_⟩
  rw [ht.2.2] at hlevel
  have hweight : totalWeight us ≤ level := by omega
  obtain ⟨types', hstart, hmap⟩ := start_paren ht (.last hrereads) hweight (p := p)
  obtain ⟨type', rfl, htype⟩ := List.map_eq_singleton_iff.1 hmap
  exact ⟨_, hstart, by rw [ofMembers, erase_relocate, htype]⟩

/-- A printable type where it binds tightly, in parentheses or not. -/
theorem Printable.tight {type : TypeExpr} (h : type.Printable) (needed : Bool) {s : Scanner}
    (hneeded : needed = false → type.isBare = false)
    (hs : needed = false → type.isStarred = true → s.separated = true) :
    ∃ ts, Fragment s (parenthesizedIf needed type.print).toList ts ∧ RereadsTightly ts type := by
  cases needed with
  | true => exact h.parenthesized s
  | false =>
    obtain ⟨ts, hfragment, -, htightly⟩ := h s (hs rfl)
    exact ⟨ts, hfragment, htightly (hneeded rfl)⟩

/-- A type that a first token makes of the type after it. -/
theorem RereadsTightly.prefixed {t : Token} {us : List Token} {inner type : TypeExpr}
    (h : RereadsTightly us inner) (hne : us ≠ [])
    (hstart : ∀ parts (p q : Parser) inner', parts.parse arrowPower p = .ok inner' q →
      inner'.erase = inner.erase →
      ∃ type', start parts t p = .ok type' q ∧ type'.erase = type.erase) :
    RereadsTightly (t :: us) type := by
  refine tightly_of_start fun level p rest hlevel hp => ?_
  have hweight : totalWeight us ≤ level := by omega
  have hhalted : (grammar level).Halted arrowPower (p.passAll us) :=
    grammar_halted (.inl Nat.one_pos)
  obtain ⟨inner', hparse, herase⟩ := h.parse hne hweight hp hhalted
  exact hstart _ _ _ _ hparse herase

/-! ## Forms -/

/-- No primitive type is called `_`. -/
theorem ne_of_ofName? {name : String} {g : Ground} (h : Ground.ofName? name = some g) :
    name ≠ "_" := by
  rintro rfl
  cases h

theorem start_ground {parts : Grammar TypeExpr} {t : Token} {p : Parser} {g : Ground}
    (hkind : t.kind = .identifier) (hname : Ground.ofName? t.text = some g) :
    start parts t p = .ok (ground t.loc .immutable g) p := by
  unfold start
  simp only [hkind, if_true, ne_of_ofName? hname, if_false, hname]
  rfl

theorem start_unknown {parts : Grammar TypeExpr} {t : Token} {p : Parser}
    (hkind : t.kind = .identifier) (hword : t.text = "_") :
    start parts t p = .ok (unknown t.loc .immutable) p := by
  unfold start
  simp only [hkind, hword, if_true]
  rfl

/-- A type that is a name. -/
theorem printable_name {type : TypeExpr} (hname : IsName type.print)
    (h : ∀ parts l p, ∃ type', start parts (Token.leaf .identifier type.print l) p = .ok type' p ∧
      type'.erase = type.erase) : type.Printable := by
  refine printable_of_tightly fun s _ => ⟨_, Fragment.name s hname, ?_⟩
  exact tightly_of_start fun level p rest _ _ => h _ _ p

theorem printable_unknown (l : Location) : (unknown l .immutable).Printable := by
  have hprint : (unknown l .immutable).print = "_" := by rw [print, marked]
  refine printable_name ?_ fun parts l' p => ⟨unknown l' .immutable, ?_, by rw [erase, erase]⟩
  · rw [hprint]
    exact ⟨'_', [], rfl, by decide, List.forall_mem_nil _, by decide, by decide⟩
  · rw [hprint]
    exact start_unknown rfl rfl

/-- The unit type. -/
theorem printable_unit (l : Location) : (ground l .immutable .unit).Printable := by
  refine printable_of_tightly fun s _ => ?_
  obtain ⟨t, hgroup, ht⟩ := Fragment.group s .paren (by decide) (Piece.empty _).of_anything
  have htext : (ground l .immutable .unit).print.toList = ['(', ')'] := by
    rw [print, marked]
    rfl
  rw [htext]
  refine ⟨[t], hgroup, tightly_of_start fun level p rest hlevel hp => ?_⟩
  obtain ⟨types', hstart, hmap⟩ := start_paren ht .nil (Nat.zero_le level) (p := p)
  rw [List.map_eq_nil_iff.1 hmap] at hstart
  exact ⟨_, hstart, by rw [ofMembers, erase, erase]⟩

theorem printable_ground (l : Location) (g : Ground) : (ground l .immutable g).Printable := by
  by_cases hunit : g = .unit
  · subst hunit
    exact printable_unit l
  · have hprint : (ground l .immutable g).print = g.name := by
      rw [print, marked]
      cases g
      case unit => exact absurd rfl hunit
      all_goals rfl
    have hname : IsName g.name := by
      cases g <;> exact
        ⟨_, _, rfl, by decide, List.all_eq_true.1 (by decide), by decide, by decide⟩
    refine printable_name (hprint ▸ hname) fun parts l' p =>
      ⟨ground l' .immutable g, ?_, by rw [erase, erase]⟩
    rw [hprint]
    exact start_ground rfl (Ground.ofName?_name g)

theorem ofMembers_tuple (l : Location) {members : List TypeExpr} (h : members ≠ []) :
    ofMembers l (members, true) = tuple l .immutable members := by
  cases members with
  | nil => exact absurd rfl h
  | cons member members => cases members <;> rfl

theorem printable_tuple (l : Location) {members : List TypeExpr} (hne : members ≠ [])
    (h : ∀ member ∈ members, Printable member) : (tuple l .immutable members).Printable := by
  refine printable_of_tightly fun s _ => ?_
  obtain ⟨us, x, hpiece, hseparated⟩ :=
    tuple_piece (fun member hmember => (h member hmember).printsAs) (s.past ['('] true) rfl
  obtain ⟨t, hgroup, ht⟩ := Fragment.group s .paren (by decide) hpiece
  have htext : (tuple l .immutable members).print = tupleText (members.map print) := by
    rw [print, marked, printAll_eq]
  refine ⟨[t], ?_, tightly_of_start fun level p rest hlevel hp => ?_⟩
  · rw [htext, tupleText, parenthesized, String.toList_append, String.toList_append]
    exact hgroup
  rw [ht.2.2] at hlevel
  have hweight : totalWeight us ≤ level := by omega
  obtain ⟨types', hstart, hmap⟩ := start_paren ht hseparated hweight (p := p)
  have hnonempty : types' ≠ [] := by
    rintro rfl
    exact hne (List.map_eq_nil_iff.1 hmap.symm)
  have hcomma : (!members.isEmpty) = true := by simpa using hne
  rw [hcomma, ofMembers_tuple t.loc hnonempty] at hstart
  exact ⟨_, hstart, by rw [erase, erase, eraseAll_eq, eraseAll_eq, hmap]⟩

theorem start_var {parts : Grammar TypeExpr} {t : Token} {p q : Parser} {inner : TypeExpr}
    (ht : t.reserved? = some .varMark) (h : parts.parse arrowPower p = .ok inner q) :
    start parts t p
      = .ok ((inner.withModality .mutable).relocate (t.loc.join inner.loc)) q := by
  unfold start
  simp only [kind_of_reserved? ht, isReserved, ht]
  exact bind_eq h

/-- A star is no name. -/
theorem kind_of_isStar {t : Token} (ht : isStar t) : t.kind ≠ .identifier := by
  intro hkind
  simp [isStar, isReserved, reserved?, Token.is, hkind] at ht

/-- A star is not the word `var`. -/
theorem not_varMark_of_isStar {t : Token} (ht : isStar t) : ¬ t.isReserved .varMark := by
  intro hword
  have hreserved := isReserved_iff.1 hword
  simp [isStar, isReserved, hreserved, Token.is, kind_of_reserved? hreserved] at ht

theorem start_star {parts : Grammar TypeExpr} {t : Token} {p q : Parser} {inner : TypeExpr}
    (ht : isStar t) (h : parts.parse arrowPower p = .ok inner q) :
    start parts t p = .ok (pointer (t.loc.join inner.loc) .immutable inner) q := by
  unfold start
  rw [if_neg (kind_of_isStar ht), if_neg (not_varMark_of_isStar ht), if_pos ht]
  exact bind_eq h

/-- A type that is marked `var`. -/
theorem Printable.mutable {type : TypeExpr} (h : type.Printable) :
    (type.withModality .mutable).Printable := by
  cases hmodality : type.modality with
  | mutable =>
    have hsame : type.withModality .mutable = type := by
      cases type <;> cases hmodality <;> rfl
    rwa [hsame]
  | immutable =>
    have hprint : (type.withModality .mutable).print
        = "var " ++ parenthesizedIf type.isArrow type.print := by
      cases type <;> cases hmodality <;> rw [withModality, print, print, marked, marked] <;> rfl
    refine printable_of_tightly fun s _ => ?_
    obtain ⟨t, hword, ht⟩ :=
      Fragment.keyword s (show Reserved.varMark ∈ Reserved.keywords by decide)
    obtain ⟨us, hinner, htightly⟩ := h.tight type.isArrow
      (s := s.past (Reserved.varMark.text.toList ++ [' ']) true)
      (fun hnot => by rw [isBare, hnot, Bool.and_false]) fun _ _ => rfl
    have htext : (type.withModality .mutable).print.toList = Reserved.varMark.text.toList ++ [' ']
        ++ (parenthesizedIf type.isArrow type.print).toList := by
      rw [hprint, String.toList_append]
      rfl
    refine ⟨_, htext ▸ hword.spaced hinner, htightly.prefixed hinner.spans.ne_nil ?_⟩
    intro parts p q inner' hparse herase
    refine ⟨_, start_var ht hparse, ?_⟩
    rw [erase_relocate, erase_withModality, herase, erase_withModality]

/-- A type whose text does not begin with a star begins with a word or a bracket. -/
theorem head_print {type : TypeExpr} (h : type.isStarred = false) :
    type.print.toList.head?.any beginsOperand = true := by
  cases hmodality : type.modality with
  | mutable =>
    have hmarked : ∃ text, type.print = "var " ++ text := by
      cases type <;> cases hmodality <;> rw [print, marked] <;> exact ⟨_, rfl⟩
    obtain ⟨text, htext⟩ := hmarked
    rw [htext, String.toList_append]
    rfl
  | immutable =>
    rw [isStarred, hmodality] at h
    cases type with
    | ground l m g =>
      cases hmodality
      rw [print, marked]
      cases g <;> decide
    | arrow => cases h
    | pointer => cases h
    | buffer l m size element =>
      cases hmodality
      rw [print, marked, String.toList_append, String.toList_append, String.toList_append]
      rfl
    | tuple l m members =>
      cases hmodality
      rw [print, marked]
      exact head_parenthesized _
    | unknown l m =>
      cases hmodality
      rw [print, marked]
      decide

/-- A pointer type. -/
theorem Printable.pointer {pointee : TypeExpr} (h : pointee.Printable) (l : Location) :
    (pointer l .immutable pointee).Printable := by
  have htext : (TypeExpr.pointer l .immutable pointee).print.toList
      = '*' :: (parenthesizedIf pointee.isStarred pointee.print).toList := by
    rw [print, marked, operand, Bool.true_and, String.toList_append]
    rfl
  have hbare : pointee.isStarred = false → pointee.isBare = false := by
    intro hnot
    rw [isStarred, Bool.and_or_distrib_left, Bool.or_eq_false_iff] at hnot
    exact hnot.1
  have hhead : (parenthesizedIf pointee.isStarred pointee.print).toList.head?.any beginsOperand
      = true := by
    cases hstarred : pointee.isStarred with
    | true => exact head_parenthesized _
    | false => exact head_print hstarred
  refine printable_of_tightly fun s hs => ?_
  obtain ⟨us, hinner, htightly⟩ := h.tight pointee.isStarred (s := s.past ['*'] false) hbare
    fun hnot hstarred => by rw [hnot] at hstarred; cases hstarred
  have hsign : Fragment s _ (Token.leaf .reserved Reserved.valueAt.text (s.locate ['*']) :: us) :=
    Fragment.sign (hs rfl) (by decide) (by decide) (by decide) hinner hhead
  refine ⟨_, htext ▸ hsign, htightly.prefixed hinner.spans.ne_nil ?_⟩
  intro parts p q inner' hparse herase
  have hstar : isStar (Token.leaf .reserved Reserved.valueAt.text (s.locate ['*'])) = true :=
    Bool.or_eq_true_iff.2 (.inl (isReserved_iff.2 (leaf_reserved? _ _)))
  exact ⟨_, start_star hstar hparse, by rw [erase, erase, herase]⟩

/-! ## Buffers -/

theorem start_square {parts : Grammar TypeExpr} {t : Token} {us : List Token} {size : BufferSize}
    {p q : Parser} {element : TypeExpr} (ht : t.IsGroup .square us)
    (hsize : ∀ q : Parser, q.rest = us → BufferSize.read q = .ok size (q.passAll us))
    (h : parts.parse arrowPower p = .ok element q) :
    start parts t p = .ok (buffer (t.loc.join element.loc) .immutable size element) q := by
  have hkind : t.kind = .block := kind_of_blockKind? ht.1
  have hnot : t.reserved? = none := by rw [reserved?, hkind]; rfl
  obtain ⟨size', hwithin, rfl⟩ : ∃ size', within t BufferSize.read p = .ok size' p ∧ size' = size :=
    within_group ht fun q hq _ => ⟨size, hsize q hq, rfl⟩
  unfold start
  simp only [hkind, isReserved, hnot, isStar, Token.is, ht.1]
  exact (bind_eq hwithin).trans (bind_eq h)

/-- A buffer type. -/
theorem Printable.buffer {size : BufferSize} {element : TypeExpr} (hsize : size.Printable)
    (h : element.Printable) (l : Location) : (buffer l .immutable size element).Printable := by
  refine printable_of_tightly fun s _ => ?_
  obtain ⟨us, x, hpiece, hread⟩ := hsize.piece (s.past ['['] true) rfl
  obtain ⟨t, hgroup, ht⟩ := Fragment.group s .square (by decide) hpiece
  obtain ⟨vs, hinner, htightly⟩ := h.tight element.isArrow
    (s := s.past ('[' :: (size.print.toList ++ [']']) ++ [' ']) true)
    (fun hnot => by rw [isBare, hnot, Bool.and_false]) fun _ _ => rfl
  have htext : (TypeExpr.buffer l .immutable size element).print.toList
      = '[' :: (size.print.toList ++ [']']) ++ [' ']
        ++ (parenthesizedIf element.isArrow element.print).toList := by
    rw [print, marked]
    simp
  refine ⟨_, htext ▸ hgroup.spaced hinner, htightly.prefixed hinner.spans.ne_nil ?_⟩
  intro parts p q inner' hparse herase
  exact ⟨_, start_square ht hread hparse, by rw [erase, erase, herase]⟩

/-- The tokens of a function type. -/
theorem rereads_arrow {t : Token} {ts us : List Token} {domain codomain : TypeExpr}
    (hdomain : RereadsTightly ts domain) (hne : ts ≠ []) (ht : t.is .operator "->" = true)
    (hcodomain : Rereads us codomain) (l : Location) :
    Rereads (ts ++ t :: us) (arrow l .immutable domain codomain) := by
  obtain ⟨u, ts, rfl⟩ := List.exists_cons_of_ne_nil hne
  intro level p rest hlevel hp hrest
  rw [totalWeight_append, totalWeight_cons, totalWeight_cons, weight_eq, weight_eq] at hlevel
  obtain ⟨level, rfl⟩ : ∃ n, level = n + 1 := ⟨level - 1, by omega⟩
  -- the domain, which is then continued by the arrow
  have hpass : (p.pass u).rest = ts ++ (t :: (us ++ rest)) := by rw [pass_rest, hp]; simp
  obtain ⟨domain', n, hdomain', hn, hcontinue⟩ := hdomain (level + 1) 0 (p.pass u) _ u ts rfl
    (by rw [totalWeight_cons, weight_eq]; omega) hpass
  obtain ⟨n, rfl⟩ : ∃ m, n = m + 1 := ⟨n - 1, by rw [List.length_cons] at hn; omega⟩
  have hafter : ((p.pass u).passAll ts).rest = t :: (us ++ rest) := passAll_rest hpass
  have hright : (((p.pass u).passAll ts).pass t).rest = us ++ rest := by
    rw [pass_rest, hafter]
    rfl
  -- the codomain
  obtain ⟨codomain', hparse, hcodomain'⟩ := hcodomain level _ rest (by omega) hright hrest
  have hpassAll : (((p.pass u).passAll ts).pass t).passAll us = p.passAll (u :: ts ++ t :: us) := by
    rw [passAll_append]
    rfl
  rw [hpassAll] at hparse
  refine ⟨arrow (domain'.loc.join codomain'.loc) .immutable domain' codomain', ?_, ?_⟩
  · have hextend : (grammar (level + 1)).extend? ((p.pass u).passAll ts) t
        = some _ := if_pos ht
    have hhalted : (grammar (level + 1)).Halted 0 (p.passAll (u :: ts ++ t :: us)) := by
      refine grammar_halted (.inr ?_)
      rw [passAll_rest hp]
      exact hrest
    rw [Grammar.parse_eq hp, hcontinue,
      Grammar.extendUpTo_step hafter hextend Nat.one_pos (bind_eq hparse)]
    exact Grammar.extendUpTo_halted hhalted n _
  · rw [erase, erase, hdomain', hcodomain']

/-- A function type. -/
theorem Printable.arrow {domain codomain : TypeExpr} (hdomain : domain.Printable)
    (hcodomain : codomain.Printable) (l : Location) :
    (arrow l .immutable domain codomain).Printable := by
  intro s hs
  have hseparated : s.separated = true := hs rfl
  obtain ⟨ts, hleft, htightly⟩ := hdomain.tight domain.isBare (s := s) id fun _ _ => hseparated
  obtain ⟨us, hright, hrereads, -⟩ := hcodomain (s.past
    ((parenthesizedIf domain.isBare domain.print).toList ++ ' ' :: ("->".toList ++ [' '])) true)
    fun _ => rfl
  obtain ⟨l', hfragment⟩ :=
    hleft.operator (by decide) (List.all_eq_true.1 (by decide)) hright
  have htext : (TypeExpr.arrow l .immutable domain codomain).print.toList
      = (parenthesizedIf domain.isBare domain.print).toList ++ ' ' :: ("->".toList ++ [' '])
        ++ codomain.print.toList := by
    rw [print, marked, operand, Bool.false_and, Bool.or_false]
    simp [isBare]
  refine ⟨_, htext ▸ hfragment, ?_, fun hnot => nomatch hnot⟩
  exact rereads_arrow htightly hleft.spans.ne_nil rfl hrereads l

/-! ## Every type -/

mutual

/-- Every type that is read is printable. -/
theorem ReadFrom.printable {ts : List Token} {type : TypeExpr} :
    ReadFrom ts type → type.Printable
  | .unknown _ => printable_unknown _
  | .ground _ _ => printable_ground _ _
  | .unit _ _ => printable_ground _ _
  | .paren _ inside _ => inside.printable.relocate _
  | .tuple _ inside _ => printable_tuple _ inside.ne_nil inside.printable
  | .varMark _ inner _ => inner.printable.mutable.relocate _
  | .pointer _ inner _ => inner.printable.pointer _
  | .buffer _ inside inner _ => .buffer inside.printable inner.printable _
  | .arrow left _ right _ => left.printable.arrow right.printable _

/-- All types of a list that is read are printable. -/
theorem ListFrom.printable {comma : Bool} {ts : List Token} {types : List TypeExpr} :
    ListFrom comma ts types → ∀ type ∈ types, type.Printable
  | .nil => fun _ h => nomatch h
  | .last h => List.forall_mem_singleton.2 h.printable
  | .more h _ others => List.forall_mem_cons.2 ⟨h.printable, others.printable⟩

end

end TypeExpr

end Offside
