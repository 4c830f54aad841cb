import Offside.Proofs.Printing.Types
import Offside.Proofs.Token.Relocation

/-!
# The language of types

Tokens are read as a type if they are derived from the grammar, and only then. They need not come
from a source text.

    type    = operand | operand "->" type
    operand = ground | "_" | "var" operand | "*" operand | "[" size "]" operand | "(" members ")"
    members = nothing | type | type "," members

* `TypeExpr.ArrowTree`, `TypeExpr.OperandTree`, `TypeExpr.MemberTree`, `TypeExpr.SizeTree`: the
  derivations of a type, of an operand, of what is in parentheses and of what is in square brackets.
  `tokens` is what is derived, and `type` what it means, up to locations.
* `TypeExpr.Form.ofToken`: the first token of an operand tells its form.
  `TypeExpr.OperandTree.tokens_inj`, `TypeExpr.ArrowTree.tokens_inj`: there is one derivation at
  most.
* `TypeExpr.OperandTree.Derives`, `TypeExpr.ArrowTree.Derives`: tokens have a derivation with a
  meaning. `Parse.Takes`: an action relates the tokens that it consumes to its value, wherever
  they are. `TypeExpr.grammar_derives`: what is read is derived.
* `TypeExpr.ArrowTree.rereads`, `TypeExpr.OperandTree.rereads`: what is derived is read.
* `parseType_language`: the language and the meaning of its words.
-/

namespace Offside

open Token Parse Parser Location

/-! ## Actions -/

namespace Parse

variable {α : Type}

/-- An action consumes tokens that it relates to its value, wherever they are. -/
def Takes (action : Parse α) (R : List Token → α → Prop) : Prop :=
  ∀ p a q, action p = .ok a q → ∃ used, p.Consumes used q ∧ R used a

variable {action : Parse α} {R : List Token → α → Prop}

/-- An action that consumes the whole interior of a block takes it. -/
theorem Takes.within (h : Takes action R) {block : Token} {p q : Parser} {a : α}
    (hok : Parse.within block action p = .ok a q) : q = p ∧ R block.children a := by
  obtain ⟨l, r, haction, hrest, rfl⟩ := within_ok hok
  obtain ⟨used, hused, hR⟩ := h _ _ _ haction
  have hall : block.children = used ++ r.rest := hused.1
  rw [hrest, List.append_nil] at hall
  refine ⟨?_, hall ▸ hR⟩
  rw [hused.loops]
  rfl

/-- Items with commas between them take all tokens. -/
theorem Takes.list (h : Takes action R) :
    Takes (Parse.list action) fun ts items => Separated .comma R items.2 ts items.1 := by
  intro p items q hok
  obtain ⟨hused, hseparated⟩ := itemsUpTo_ok (P := fun _ => True) (fun _ _ => trivial)
    (fun p a q _ hok => h p a q hok) trivial (Nat.le_refl _) hok
  exact ⟨p.rest, hused, hseparated⟩

end Parse

namespace TypeExpr

/-! ## Derivations -/

/-- A derivation of the size of a buffer: nothing, a number or a name. -/
inductive SizeTree where
  | unknown
  | literal (t : Token) (kind : t.kind = .number)
  | external (t : Token) (kind : t.kind = .identifier)

namespace SizeTree

/-- The tokens between the brackets. -/
def tokens : SizeTree → List Token
  | unknown => []
  | literal t _ | external t _ => [t]

/-- The size. -/
def size : SizeTree → BufferSize
  | unknown => .unknown
  | literal t _ => .literal t.text
  | external t _ => .external t.text

end SizeTree

mutual

/-- A derivation of a type: an operand, or an arrow from an operand to a type. -/
inductive ArrowTree where
  | operand (type : OperandTree)
  | arrow (domain : OperandTree) (t : Token) (sign : t.is .operator "->") (codomain : ArrowTree)

/-- A derivation of an operand. Brackets are given by the location of their block. -/
inductive OperandTree where
  | ground (t : Token) (g : Ground) (kind : t.kind = .identifier)
    (name : Ground.ofName? t.text = some g)
  | unknown (t : Token) (word : t.is .identifier "_")
  | marked (t : Token) (word : t.isReserved .varMark) (inner : OperandTree)
  | pointer (t : Token) (star : isStar t) (pointee : OperandTree)
  | buffer (l : Location) (size : SizeTree) (element : OperandTree)
  | group (l : Location) (members : MemberTree)

/-- A derivation of types with commas between them, where a comma may follow the last one. -/
inductive MemberTree where
  | nothing
  | last (member : ArrowTree)
  | more (member : ArrowTree) (t : Token) (comma : t.kind = .comma) (others : MemberTree)

end

mutual

/-- The tokens of a type. -/
def ArrowTree.tokens : ArrowTree → List Token
  | .operand type => type.tokens
  | .arrow domain t _ codomain => domain.tokens ++ t :: codomain.tokens

/-- The tokens of an operand. -/
def OperandTree.tokens : OperandTree → List Token
  | .ground t .. | .unknown t _ => [t]
  | .marked t _ inner => t :: inner.tokens
  | .pointer t _ pointee => t :: pointee.tokens
  | .buffer l size element => block (.bracketed .square) l size.tokens :: element.tokens
  | .group l members => [block (.bracketed .paren) l members.tokens]

/-- The tokens of types with commas between them. -/
def MemberTree.tokens : MemberTree → List Token
  | .nothing => []
  | .last member => member.tokens
  | .more member t _ others => member.tokens ++ t :: others.tokens

end

mutual

/-- The type that is derived: arrows associate to the right. -/
def ArrowTree.type : ArrowTree → TypeExpr
  | .operand type => type.type
  | .arrow domain _ _ codomain => .arrow nowhere .immutable domain.type codomain.type

/-- The type that an operand is: one in parentheses is that type, with its modality, and several, or
one with a comma, are a tuple. -/
def OperandTree.type : OperandTree → TypeExpr
  | .ground _ g .. => .ground nowhere .immutable g
  | .unknown .. => .unknown nowhere .immutable
  | .marked _ _ inner => inner.type.withModality .mutable
  | .pointer _ _ pointee => .pointer nowhere .immutable pointee.type
  | .buffer _ size element => .buffer nowhere .immutable size.size element.type
  | .group _ .nothing => .ground nowhere .immutable .unit
  | .group _ (.last member) => member.type
  | .group _ (.more member _ _ others) => .tuple nowhere .immutable (member.type :: others.types)

/-- The types with commas between them. -/
def MemberTree.types : MemberTree → List TypeExpr
  | .nothing => []
  | .last member => [member.type]
  | .more member _ _ others => member.type :: others.types

end

/-! ## Unambiguity -/

/-- The forms of operands. -/
inductive Form where
  | ground | unknown | marked | pointer | buffer | group

/-- The form that an operand is derived by. -/
def OperandTree.form : OperandTree → Form
  | ground .. => .ground
  | unknown .. => .unknown
  | marked .. => .marked
  | pointer .. => .pointer
  | buffer .. => .buffer
  | group .. => .group

/-- The form of the operands that begin with a token, if there are any. -/
def Form.ofToken (t : Token) : Form :=
  if t.kind = .identifier then if t.text = "_" then unknown else ground
  else if t.isReserved .varMark then marked
  else if isStar t then pointer
  else if t.isBlock (.bracketed .square) then buffer
  else group

/-- The first token of an operand tells its form. -/
theorem OperandTree.form_eq (p : OperandTree) {t : Token} {us : List Token}
    (h : p.tokens = t :: us) : p.form = Form.ofToken t := by
  cases p with
  | ground t' g kind name =>
    obtain ⟨rfl, rfl⟩ := List.cons.inj h
    rw [Form.ofToken, if_pos kind, if_neg (ne_of_ofName? name), form]
  | unknown t' word =>
    obtain ⟨rfl, rfl⟩ := List.cons.inj h
    simp only [Token.is, Bool.and_eq_true, beq_iff_eq] at word
    rw [Form.ofToken, if_pos word.1, if_pos word.2, form]
  | marked t' word inner =>
    obtain ⟨rfl, rfl⟩ := List.cons.inj h
    have hkind := kind_of_reserved? (isReserved_iff.1 word)
    rw [Form.ofToken, if_neg (by rw [hkind]; decide), if_pos word, form]
  | pointer t' star pointee =>
    obtain ⟨rfl, rfl⟩ := List.cons.inj h
    rw [Form.ofToken, if_neg (kind_of_isStar star), if_neg (not_varMark_of_isStar star),
      if_pos star, form]
  | buffer l size element =>
    obtain ⟨rfl, rfl⟩ := List.cons.inj h
    rfl
  | group l members =>
    obtain ⟨rfl, rfl⟩ := List.cons.inj h
    rfl

/-- An operand has tokens. -/
theorem OperandTree.tokens_ne_nil (p : OperandTree) : p.tokens ≠ [] := by
  cases p <;> exact List.cons_ne_nil _ _

/-- A type has tokens. -/
theorem ArrowTree.tokens_ne_nil (d : ArrowTree) : d.tokens ≠ [] := by
  cases d with
  | operand type => exact type.tokens_ne_nil
  | arrow domain t sign codomain =>
    exact List.append_ne_nil_of_right_ne_nil _ (List.cons_ne_nil t codomain.tokens)

/-- Operands that the same tokens begin with have the same form. -/
theorem OperandTree.form_congr {p p' : OperandTree} {r r' : List Token}
    (h : p.tokens ++ r = p'.tokens ++ r') : p.form = p'.form := by
  obtain ⟨t, us, hp⟩ := List.exists_cons_of_ne_nil p.tokens_ne_nil
  obtain ⟨t', us', hp'⟩ := List.exists_cons_of_ne_nil p'.tokens_ne_nil
  rw [hp, hp'] at h
  rw [p.form_eq hp, p'.form_eq hp', (List.cons.inj h).1]

/-- The tokens between square brackets determine the size. -/
theorem SizeTree.tokens_inj {s s' : SizeTree} (h : s.tokens = s'.tokens) : s = s' := by
  cases s with
  | unknown => cases s' <;> first | rfl | cases h
  | literal t kind =>
    cases s' with
    | unknown => cases h
    | literal t' kind' =>
      cases h
      rfl
    | external t' kind' =>
      cases h
      rw [kind] at kind'
      cases kind'
  | external t kind =>
    cases s' with
    | unknown => cases h
    | literal t' kind' =>
      cases h
      rw [kind] at kind'
      cases kind'
    | external t' kind' =>
      cases h
      rfl

/-- Some tokens do not begin with an arrow. -/
def NoArrow (ts : List Token) : Prop := ∀ u, ts.head? = some u → u.is .operator "->" = false

theorem noArrow_nil : NoArrow [] := fun _ hu => nomatch hu

theorem noArrow_comma {t : Token} {us : List Token} (ht : t.kind = .comma) : NoArrow (t :: us) := by
  intro u hu
  cases hu
  rw [Token.is, ht]
  rfl

mutual

/-- Tokens begin with one operand at most. -/
theorem OperandTree.tokens_inj : (p p' : OperandTree) → {r r' : List Token} →
    p.tokens ++ r = p'.tokens ++ r' → p = p' ∧ r = r'
  | .ground t g kind name, p', r, r', h => by
    cases p' with
    | ground t' g' kind' name' =>
      obtain ⟨rfl, rfl⟩ := List.cons.inj h
      cases name.symm.trans name'
      exact ⟨rfl, rfl⟩
    | _ => cases OperandTree.form_congr h
  | .unknown t word, p', r, r', h => by
    cases p' with
    | unknown t' word' =>
      obtain ⟨rfl, rfl⟩ := List.cons.inj h
      exact ⟨rfl, rfl⟩
    | _ => cases OperandTree.form_congr h
  | .marked t word inner, p', r, r', h => by
    cases p' with
    | marked t' word' inner' =>
      obtain ⟨rfl, hinner⟩ := List.cons.inj h
      obtain ⟨rfl, rfl⟩ := inner.tokens_inj inner' hinner
      exact ⟨rfl, rfl⟩
    | _ => cases OperandTree.form_congr h
  | .pointer t star pointee, p', r, r', h => by
    cases p' with
    | pointer t' star' pointee' =>
      obtain ⟨rfl, hpointee⟩ := List.cons.inj h
      obtain ⟨rfl, rfl⟩ := pointee.tokens_inj pointee' hpointee
      exact ⟨rfl, rfl⟩
    | _ => cases OperandTree.form_congr h
  | .buffer l size element, p', r, r', h => by
    cases p' with
    | buffer l' size' element' =>
      obtain ⟨hblock, helement⟩ := List.cons.inj h
      obtain ⟨-, -, rfl, hsize⟩ := Token.mk.inj hblock
      obtain rfl := SizeTree.tokens_inj hsize
      obtain ⟨rfl, rfl⟩ := element.tokens_inj element' helement
      exact ⟨rfl, rfl⟩
    | _ => cases OperandTree.form_congr h
  | .group l members, p', r, r', h => by
    cases p' with
    | group l' members' =>
      obtain ⟨hblock, rfl⟩ := List.cons.inj h
      obtain ⟨-, -, rfl, hmembers⟩ := Token.mk.inj hblock
      obtain rfl := members.tokens_inj members' hmembers
      exact ⟨rfl, rfl⟩
    | _ => cases OperandTree.form_congr h

/-- Tokens begin with one type at most after which there is no arrow. -/
theorem ArrowTree.tokens_inj : (d d' : ArrowTree) → {r r' : List Token} → NoArrow r → NoArrow r' →
    d.tokens ++ r = d'.tokens ++ r' → d = d' ∧ r = r'
  | .operand type, .operand type', r, r', _, _, h => by
    obtain ⟨rfl, rfl⟩ := type.tokens_inj type' h
    exact ⟨rfl, rfl⟩
  | .operand type, .arrow domain' t' sign' codomain', r, r', hr, _, h => by
    rw [ArrowTree.tokens, ArrowTree.tokens, List.append_assoc] at h
    obtain ⟨-, rfl⟩ := type.tokens_inj domain' h
    have hno := hr t' rfl
    rw [sign'] at hno
    cases hno
  | .arrow domain t sign codomain, .operand type', r, r', _, hr', h => by
    rw [ArrowTree.tokens, ArrowTree.tokens, List.append_assoc] at h
    obtain ⟨-, rfl⟩ := domain.tokens_inj type' h
    have hno := hr' t rfl
    rw [sign] at hno
    cases hno
  | .arrow domain t sign codomain, .arrow domain' t' sign' codomain', r, r', hr, hr', h => by
    rw [ArrowTree.tokens, ArrowTree.tokens, List.append_assoc, List.append_assoc] at h
    obtain ⟨rfl, hrest⟩ := domain.tokens_inj domain' h
    obtain ⟨rfl, hcodomain⟩ := List.cons.inj hrest
    obtain ⟨rfl, rfl⟩ := codomain.tokens_inj codomain' hr hr' hcodomain
    exact ⟨rfl, rfl⟩

/-- The tokens between parentheses determine what is in them. -/
theorem MemberTree.tokens_inj : (m m' : MemberTree) → m.tokens = m'.tokens → m = m'
  | .nothing, .nothing, _ => rfl
  | .nothing, .last member', h => absurd h.symm member'.tokens_ne_nil
  | .nothing, .more member' t' _ others', h => by
    cases (List.append_eq_nil_iff.1 h.symm).2
  | .last member, .nothing, h => absurd h member.tokens_ne_nil
  | .last member, .last member', h => by
    obtain ⟨rfl, -⟩ := member.tokens_inj member' noArrow_nil noArrow_nil (congrArg (· ++ []) h)
    rfl
  | .last member, .more member' t' comma' others', h => by
    have h : member.tokens ++ [] = member'.tokens ++ t' :: others'.tokens :=
      (List.append_nil _).trans h
    cases (member.tokens_inj member' noArrow_nil (noArrow_comma comma') h).2
  | .more member t comma others, .nothing, h => by
    cases (List.append_eq_nil_iff.1 h).2
  | .more member t comma others, .last member', h => by
    have h : member.tokens ++ t :: others.tokens = member'.tokens ++ [] :=
      h.trans (List.append_nil _).symm
    cases (member.tokens_inj member' (noArrow_comma comma) noArrow_nil h).2
  | .more member t comma others, .more member' t' comma' others', h => by
    obtain ⟨rfl, hrest⟩ := member.tokens_inj member' (noArrow_comma comma)
      (noArrow_comma comma') h
    obtain ⟨rfl, hothers⟩ := List.cons.inj hrest
    obtain rfl := others.tokens_inj others' hothers
    rfl

end

/-- Tokens have one derivation at most. -/
theorem ArrowTree.eq_of_tokens_eq {d d' : ArrowTree} (h : d.tokens = d'.tokens) : d = d' :=
  (d.tokens_inj d' noArrow_nil noArrow_nil (congrArg (· ++ []) h)).1

/-! ## What is read is derived -/

/-- The tokens of a size, with the size. -/
def SizeTree.Derives (ts : List Token) (size : BufferSize) : Prop :=
  ∃ s : SizeTree, s.tokens = ts ∧ s.size = size

/-- The tokens of an operand, with its type up to locations. -/
def OperandTree.Derives (ts : List Token) (type : TypeExpr) : Prop :=
  ∃ p : OperandTree, p.tokens = ts ∧ type.erase = p.type.erase

/-- The tokens of a type, with this type up to locations. -/
def ArrowTree.Derives (ts : List Token) (type : TypeExpr) : Prop :=
  ∃ d : ArrowTree, d.tokens = ts ∧ type.erase = d.type.erase

/-- The size of a buffer is a number, a name or nothing. -/
theorem SizeTree.read_takes : Takes BufferSize.read SizeTree.Derives := by
  intro p size q hok
  unfold BufferSize.read at hok
  obtain ⟨t?, r, ht, hrest⟩ := bind_ok.1 hok
  rcases advance_ok ht with ⟨rfl, rfl, -⟩ | ⟨t, rfl, hused⟩
  · obtain ⟨rfl, rfl⟩ := pure_ok.1 hrest
    exact ⟨[], Consumes.refl _, .unknown, rfl, rfl⟩
  · dsimp only at hrest
    split at hrest
    · rename_i hkind
      obtain ⟨rfl, rfl⟩ := pure_ok.1 hrest
      exact ⟨[t], hused, .literal t hkind, rfl, rfl⟩
    · split at hrest
      · rename_i hkind
        obtain ⟨rfl, rfl⟩ := pure_ok.1 hrest
        exact ⟨[t], hused, .external t hkind, rfl, rfl⟩
      · exact absurd hrest unexpected_ne_ok

/-- Whether there is a comma. -/
def MemberTree.hasComma : MemberTree → Bool
  | .nothing | .last _ => false
  | .more .. => true

/-- Derived types with commas between them have a derivation together. -/
theorem MemberTree.of_separated {b : Bool} {ts : List Token} {types : List TypeExpr}
    (h : Separated .comma ArrowTree.Derives b ts types) :
    ∃ m : MemberTree, m.tokens = ts ∧ m.hasComma = b ∧ types.map erase = m.types.map erase := by
  induction h with
  | nil => exact ⟨.nothing, rfl, rfl, rfl⟩
  | last h =>
    obtain ⟨d, rfl, htype⟩ := h
    exact ⟨.last d, rfl, rfl, congrArg (· :: []) htype⟩
  | more h ht _ ih =>
    obtain ⟨d, rfl, htype⟩ := h
    obtain ⟨m, rfl, -, htypes⟩ := ih
    refine ⟨.more d _ ht m, rfl, rfl, ?_⟩
    rw [List.map_cons, htype, htypes, MemberTree.types, List.map_cons]

/-- What types in parentheses are read as is what they are derived as. -/
theorem MemberTree.ofMembers_erase (m : MemberTree) {types : List TypeExpr}
    (h : types.map erase = m.types.map erase) (l l' : Location) :
    (ofMembers l (types, m.hasComma)).erase = (OperandTree.group l' m).type.erase := by
  cases m with
  | nothing =>
    rw [List.map_eq_nil_iff.1 h]
    rfl
  | last member =>
    obtain ⟨type, rfl, htype⟩ := List.map_eq_singleton_iff.1 h
    rw [hasComma, ofMembers, erase_relocate, htype, OperandTree.type]
  | more member t comma others =>
    have hne : types ≠ [] := by
      rintro rfl
      cases h
    rw [hasComma, ofMembers_tuple l hne, OperandTree.type, erase, erase, eraseAll_eq, eraseAll_eq,
      h]
    rfl

/-- A block is given by its kind, its location and its interior. -/
theorem eq_block {t : Token} {kind : BlockKind} (h : t.blockKind? = some kind) :
    t = block kind t.loc t.children := by
  have hkind := kind_of_blockKind? h
  rw [blockKind?, if_pos hkind] at h
  have htext : kind.opener = t.text := by simpa using List.find?_some h
  obtain ⟨tkind, text, loc, children⟩ := t
  cases hkind
  cases htext
  rfl

/-- What begins with a token is an operand, if the parts are an operand and types. -/
theorem start_derives {parts : Grammar TypeExpr}
    (hoperand : Takes (parts.parse arrowPower) OperandTree.Derives)
    (htype : Takes (parts.parse 0) ArrowTree.Derives) (t : Token) :
    Takes (start parts t) fun used => OperandTree.Derives (t :: used) := by
  intro p type q hok
  cases start_cases hok with
  | unknown word => exact ⟨[], Consumes.refl _, .unknown t word, rfl, rfl⟩
  | ground kind name => exact ⟨[], Consumes.refl _, .ground t _ kind name, rfl, rfl⟩
  | varMark word parse =>
    obtain ⟨_, hused, d, rfl, herase⟩ := hoperand _ _ _ parse
    refine ⟨_, hused, .marked t word d, rfl, ?_⟩
    rw [erase_relocate, erase_withModality, herase, OperandTree.type, erase_withModality]
  | pointer star parse =>
    obtain ⟨_, hused, d, rfl, herase⟩ := hoperand _ _ _ parse
    exact ⟨_, hused, .pointer t star d, rfl, by rw [erase, herase, OperandTree.type, erase]⟩
  | @group members _ block parse =>
    obtain ⟨types, comma⟩ := members
    obtain ⟨rfl, hlist⟩ := htype.list.within parse
    obtain ⟨m, hm, rfl, herase⟩ := MemberTree.of_separated hlist
    refine ⟨[], Consumes.refl _, .group t.loc m, ?_, m.ofMembers_erase herase _ _⟩
    rw [OperandTree.tokens, hm, ← eq_block block]
  | buffer block read parse =>
    obtain ⟨rfl, s, hs, rfl⟩ := SizeTree.read_takes.within read
    obtain ⟨_, hused, d, rfl, herase⟩ := hoperand _ _ _ parse
    refine ⟨_, hused, .buffer t.loc s d, ?_, by rw [erase, herase, OperandTree.type, erase]⟩
    rw [OperandTree.tokens, hs, ← eq_block block]

/-- An operand that has been read, or any type after which no arrow follows. -/
def Complete (used : List Token) (form : TypeExpr) (p : Parser) : Prop :=
  OperandTree.Derives used form ∨ ArrowTree.Derives used form ∧ NoArrow p.rest

/-- Where a type is not continued, no arrow follows. -/
theorem noArrow_of_halted {level : Nat} {p : Parser} (h : (grammar (level + 1)).Halted 0 p) :
    NoArrow p.rest := by
  intro u hu
  refine Bool.eq_false_iff.2 fun harrow => ?_
  have hextend : (grammar (level + 1)).extend? p u = some _ := if_pos harrow
  exact absurd (h u _ hu hextend) (Nat.not_succ_le_zero 0)

/-- Nothing continues an operand. -/
theorem keeps_operand (level : Nat) :
    (grammar (level + 1)).Keeps arrowPower fun used form _ => OperandTree.Derives used form := by
  intro used domain p t extension form q _ _ hextend hpower _
  change extend? (grammar level) t = some extension at hextend
  unfold extend? at hextend
  split at hextend
  · cases hextend
    exact absurd hpower (Nat.lt_irrefl _)
  · cases hextend

/-- An arrow continues an operand to a type, if what follows the arrow is a type. -/
theorem keeps_complete {level : Nat}
    (htype : ∀ p type q, (grammar level).parse 0 p = .ok type q →
      ∃ used, p.Consumes used q ∧ ArrowTree.Derives used type ∧ NoArrow q.rest) :
    (grammar (level + 1)).Keeps 0 Complete := by
  intro used domain p t extension form q hcomplete hhead hextend _ hcombine
  change extend? (grammar level) t = some extension at hextend
  unfold extend? at hextend
  split at hextend
  · rename_i hsign
    cases hextend
    obtain ⟨codomain, r, hcodomain, hcombine⟩ := bind_ok.1 hcombine
    obtain ⟨rfl, rfl⟩ := pure_ok.1 hcombine
    obtain ⟨_, hused, ⟨d, rfl, herase⟩, hno⟩ := htype _ _ _ hcodomain
    rcases hcomplete with ⟨o, rfl, herase'⟩ | ⟨-, hnone⟩
    · refine ⟨_, hused, .inr ⟨⟨.arrow o t hsign d, rfl, ?_⟩, hno⟩⟩
      rw [erase, herase, herase', ArrowTree.type, erase]
    · rw [hnone t hhead] at hsign
      cases hsign
  · cases hextend

/-- What the grammar reads as tightly as an arrow binds is an operand. What it reads as loosely as
possible is a type, and no arrow follows. -/
theorem grammar_derives (level : Nat) :
    Takes ((grammar level).parse arrowPower) OperandTree.Derives ∧
    ∀ p type q, (grammar level).parse 0 p = .ok type q →
      ∃ used, p.Consumes used q ∧ ArrowTree.Derives used type ∧ NoArrow q.rest := by
  induction level with
  | zero =>
    have hbarren : ∀ power p type q, (grammar 0).parse power p ≠ .ok type q := by
      intro power p type q hok
      obtain ⟨t, -, hok⟩ := Grammar.parse_ok hok
      obtain ⟨form, r, hstart, -⟩ := bind_ok.1 hok
      exact absurd hstart unexpected_ne_ok
    exact ⟨fun p type q hok => absurd hok (hbarren _ p type q),
      fun p type q hok => absurd hok (hbarren _ p type q)⟩
  | succ level ih =>
    obtain ⟨hoperand, htype⟩ := ih
    have hstart : ∀ t,
        Takes (start (grammar level) t) fun used => OperandTree.Derives (t :: used) := by
      refine start_derives hoperand fun p type q hok => ?_
      obtain ⟨used, hused, hderives, -⟩ := htype p type q hok
      exact ⟨used, hused, hderives⟩
    refine ⟨fun p type q hok => ?_, fun p type q hok => ?_⟩
    · obtain ⟨t, ht, hok⟩ := Grammar.parse_ok hok
      obtain ⟨more, hmore, hderives, -⟩ :=
        Grammar.continueFrom_ok (keeps_operand level) (hstart t _) hok
      exact ⟨t :: more, ht.trans hmore, hderives⟩
    · obtain ⟨t, ht, hok⟩ := Grammar.parse_ok hok
      obtain ⟨more, hmore, hcomplete, hhalted⟩ := Grammar.continueFrom_ok (keeps_complete htype)
        (fun form r hform => by
          obtain ⟨more, hmore, hderives⟩ := hstart t _ form r hform
          exact ⟨more, hmore, .inl hderives⟩) hok
      refine ⟨t :: more, ht.trans hmore, ?_, noArrow_of_halted hhalted⟩
      rcases hcomplete with ⟨o, ho, herase⟩ | ⟨hderives, -⟩
      · exact ⟨.operand o, ho, herase⟩
      · exact hderives

/-- What is read from the whole of some tokens is derived. -/
theorem ArrowTree.exists_of_parseType {span : Location} {ts : List Token} {type : TypeExpr}
    (h : parseType span ts = .ok type) : ∃ d : ArrowTree, d.tokens = ts := by
  obtain ⟨q, hok⟩ := result_ok h
  obtain ⟨hread, hrest⟩ := whole_ok hok
  obtain ⟨used, hused, ⟨d, rfl, -⟩, -⟩ := (grammar_derives _).2 _ _ _ hread
  have hall : ts = d.tokens ++ q.rest := hused.1
  rw [hrest, List.append_nil] at hall
  exact ⟨d, hall.symm⟩

/-! ## What is derived is read -/

/-- A token does not end in column zero. -/
def Placed (t : Token) : Prop := 1 ≤ t.loc.stop.col

/-- A block is a group with its interior. -/
theorem isGroup_block {bracket : Bracket} {l : Location} {ts : List Token}
    (h : Placed (block (.bracketed bracket) l ts)) :
    (block (.bracketed bracket) l ts).IsGroup bracket ts :=
  ⟨block_blockKind? _ _ _, Nat.one_le_iff_ne_zero.1 h, rfl⟩

/-- The size of a buffer is read. -/
theorem SizeTree.read_eq (s : SizeTree) {q : Parser} (hq : q.rest = s.tokens) :
    BufferSize.read q = .ok s.size (q.passAll s.tokens) := by
  unfold BufferSize.read
  cases s with
  | unknown =>
    rw [bind_eq (show advance q = .ok none q by rw [advance, hq]; rfl)]
    rfl
  | literal t kind =>
    rw [bind_eq (show advance q = .ok (some t) (q.pass t) by rw [advance, hq]; rfl)]
    simp only [kind, if_true]
    rfl
  | external t kind =>
    rw [bind_eq (show advance q = .ok (some t) (q.pass t) by rw [advance, hq]; rfl)]
    simp only [kind, if_true]
    rfl

mutual

/-- A derived operand is read, whatever follows it. -/
theorem OperandTree.rereads : (p : OperandTree) → (∀ t ∈ p.tokens, t.Every Placed) →
    RereadsTightly p.tokens p.type
  | .ground t g kind name, _ =>
    tightly_of_start fun _ _ _ _ _ => ⟨_, start_ground kind name, rfl⟩
  | .unknown t word, _ => by
    simp only [Token.is, Bool.and_eq_true, beq_iff_eq] at word
    exact tightly_of_start fun _ _ _ _ _ => ⟨_, start_unknown word.1 word.2, rfl⟩
  | .marked t word inner, h => by
    have hinner := inner.rereads fun u hu => h u (List.mem_cons_of_mem t hu)
    refine hinner.prefixed inner.tokens_ne_nil fun parts p q type hparse herase => ?_
    refine ⟨_, start_var (isReserved_iff.1 word) hparse, ?_⟩
    rw [erase_relocate, erase_withModality, herase, OperandTree.type, erase_withModality]
  | .pointer t star pointee, h => by
    have hpointee := pointee.rereads fun u hu => h u (List.mem_cons_of_mem t hu)
    refine hpointee.prefixed pointee.tokens_ne_nil fun parts p q type hparse herase => ?_
    exact ⟨_, start_star star hparse, by rw [erase, herase, OperandTree.type, erase]⟩
  | .buffer l size element, h => by
    have hgroup := isGroup_block (h _ List.mem_cons_self).here
    have helement := element.rereads fun u hu => h u (List.mem_cons_of_mem _ hu)
    refine helement.prefixed element.tokens_ne_nil fun parts p q type hparse herase => ?_
    exact ⟨_, start_square hgroup (fun q hq => size.read_eq hq) hparse,
      by rw [erase, herase, OperandTree.type, erase]⟩
  | .group l members, h => by
    have hplaced := h _ (List.mem_singleton_self _)
    have hmembers := members.separated fun u hu => hplaced.inside hu
    refine tightly_of_start fun level p rest hlevel hp => ?_
    obtain ⟨types, hstart, herase⟩ :=
      start_paren (p := p) (isGroup_block hplaced.here) hmembers (Nat.le_of_add_right_le hlevel)
    exact ⟨_, hstart, members.ofMembers_erase herase _ _⟩

/-- A derived type is read where no arrow follows. -/
theorem ArrowTree.rereads : (d : ArrowTree) → (∀ t ∈ d.tokens, t.Every Placed) →
    Rereads d.tokens d.type
  | .operand type, h => (type.rereads h).rereads type.tokens_ne_nil
  | .arrow domain t sign codomain, h =>
    rereads_arrow (domain.rereads fun u hu => h u (List.mem_append_left _ hu)) domain.tokens_ne_nil
      sign (codomain.rereads fun u hu => h u (List.mem_append_right _ (List.mem_cons_of_mem t hu)))
      nowhere

/-- Derived types with commas between them are read one after another. -/
theorem MemberTree.separated : (m : MemberTree) → (∀ t ∈ m.tokens, t.Every Placed) →
    Separated .comma Rereads m.hasComma m.tokens m.types
  | .nothing, _ => .nil
  | .last member, h => .last (member.rereads h)
  | .more member t comma others, h =>
    .more (member.rereads fun u hu => h u (List.mem_append_left _ hu)) comma
      (others.separated fun u hu => h u (List.mem_append_right _ (List.mem_cons_of_mem t hu)))

end

end TypeExpr

/-- Tokens without columns zero are read as a type if they are derived from the grammar, and only
then. A derivation is the only one of its tokens, and they are read as its type, up to locations. -/
theorem parseType_language (span : Location) {ts : List Token}
    (hplaced : ∀ t ∈ ts, t.Every TypeExpr.Placed) :
    ((∃ type, parseType span ts = .ok type) ↔ ∃ d : TypeExpr.ArrowTree, d.tokens = ts) ∧
    ∀ d : TypeExpr.ArrowTree, d.tokens = ts →
      (∃ type, parseType span ts = .ok type ∧ type.erase = d.type.erase) ∧
      ∀ d' : TypeExpr.ArrowTree, d'.tokens = ts → d' = d := by
  have hread : ∀ d : TypeExpr.ArrowTree, d.tokens = ts →
      ∃ type, parseType span ts = .ok type ∧ type.erase = d.type.erase := by
    rintro d rfl
    exact (d.rereads hplaced).parseType span
  refine ⟨⟨?_, fun ⟨d, hd⟩ => ?_⟩, fun d hd => ⟨hread d hd, fun d' hd' => ?_⟩⟩
  · rintro ⟨type, hok⟩
    exact TypeExpr.ArrowTree.exists_of_parseType hok
  · obtain ⟨type, hok, -⟩ := hread d hd
    exact ⟨type, hok⟩
  · exact TypeExpr.ArrowTree.eq_of_tokens_eq (hd'.trans hd.symm)

/-- A type with all forms of the grammar, whose tokens are all at one place. -/
theorem parseType_language_nested :
    let l : Location := .one .origin
    let ts : List Token := [.leaf .reserved "var" l,
      .block (.bracketed .square) l [.leaf .identifier "n" l], .leaf .operator "*" l,
      .leaf .identifier "Int8" l, .leaf .operator "->" l,
      .block (.bracketed .paren) l [.leaf .identifier "_" l, .leaf .comma "," l]]
    (∀ t ∈ ts, t.Every TypeExpr.Placed) ∧
      ∃ type, parseType l ts = .ok type ∧ type.erase = .arrow .nowhere .immutable
        (.buffer .nowhere .mutable (.external "n")
          (.pointer .nowhere .immutable (.ground .nowhere .immutable .int8)))
        (.tuple .nowhere .immutable [.unknown .nowhere .immutable]) := by
  intro l ts
  have hblock : ∀ kind children, (∀ t ∈ children, t.Every TypeExpr.Placed) →
      (Token.block kind l children).Every TypeExpr.Placed :=
    fun kind children h => .intro (show 1 ≤ l.stop.col by decide) h
  have hleaf : ∀ kind text, (Token.leaf kind text l).Every TypeExpr.Placed :=
    fun kind text => .intro (show 1 ≤ l.stop.col by decide) (List.forall_mem_nil _)
  have hsize := hblock (.bracketed .square) _ (List.forall_mem_singleton.2 (hleaf .identifier "n"))
  have htuple := hblock (.bracketed .paren) _ (List.forall_mem_cons.2
    ⟨hleaf .identifier "_", List.forall_mem_singleton.2 (hleaf .comma ",")⟩)
  have hplaced : ∀ t ∈ ts, t.Every TypeExpr.Placed := by
    simp only [ts, List.forall_mem_cons]
    exact ⟨hleaf _ _, hsize, hleaf _ _, hleaf _ _, hleaf _ _, htuple, List.forall_mem_nil _⟩
  let d : TypeExpr.ArrowTree := .arrow
    (.marked (.leaf .reserved "var" l) (by decide)
      (.buffer l (.external (.leaf .identifier "n" l) rfl)
        (.pointer (.leaf .operator "*" l) (by decide)
          (.ground (.leaf .identifier "Int8" l) .int8 rfl (by decide)))))
    (.leaf .operator "->" l) (by decide)
    (.operand (.group l (.more (.operand (.unknown (.leaf .identifier "_" l) (by decide)))
      (.leaf .comma "," l) rfl .nothing)))
  obtain ⟨type, hok, herase⟩ := ((parseType_language l hplaced).2 d rfl).1
  exact ⟨hplaced, type, hok, herase⟩

end Offside
