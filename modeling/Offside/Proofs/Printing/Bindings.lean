import Offside.Proofs.Printing.Expressions

/-!
# Printed bindings are read back

* `Reference.Rereads`, `Binding.Rereads`: tokens are read as an introduced name, as a binding, up to
  locations.
* `Reference.Printable`, `Binding.Printable`: the parts of introduced names and bindings that are
  read. `Reference.Printable.printsAs`, `Binding.Printable.printsAs`: they are printed as texts that
  are read back.
* `letText_fragment`: so are the bindings of a `let`.
-/

namespace Offside

open Token Parse Parser Printing Scanner

/-! ## Introduced names -/

namespace Reference

/-- What follows does not continue an introduced name or its type. -/
def Ends (rest : List Token) : Prop :=
  ∀ t, rest.head? = some t → t.isReserved .asType = false ∧ t.is .operator "->" = false

/-- Tokens are read as an introduced name up to locations. -/
def Rereads (ts : List Token) (r : Reference) : Prop :=
  ∀ level p rest, totalWeight ts ≤ level → p.rest = ts ++ rest → Ends rest →
    ∃ r', (grammar level).parse 0 p = .ok r' (p.passAll ts) ∧ r'.erase = r.erase

/-- No name is read from no tokens. -/
theorem Rereads.ne_nil {ts : List Token} {r : Reference} (h : Rereads ts r) : ts ≠ [] := by
  rintro rfl
  obtain ⟨r', hok, -⟩ := h 0 (Parser.ofTokens (.point .origin) []) [] (Nat.le_refl _) rfl
    fun t ht => nomatch ht
  cases hok

/-- An introduced name that can be printed. -/
structure Printable (r : Reference) : Prop where
  isName : IsName r.name
  type : r.type.Printable

theorem ReadFrom.printable {ts : List Token} {r : Reference} (h : ReadFrom ts r) : r.Printable := by
  induction h with
  | plain _ hname => exact ⟨hname, TypeExpr.printable_unknown _⟩
  | marked _ _ hname _ => exact ⟨hname, TypeExpr.printable_unknown _⟩
  | annotated _ _ right _ ih => exact ⟨ih.isName, right.printable⟩

section Names

variable {t u : Token} {rest : List Token} {p : Parser} {level : Nat}

theorem parse_name (ht : t.kind = .identifier) (hp : p.rest = t :: rest) :
    (grammar level).parse 0 p
      = (grammar level).extendUpTo 0 rest.length (ofName t t false) (p.pass t) := by
  have hstart : (grammar level).start t (p.pass t) = .ok (ofName t t false) (p.pass t) := by
    show start t (p.pass t) = _
    rw [start, if_pos ht]
    rfl
  rw [Grammar.parse_eq hp, Grammar.continueFrom_eq hstart, pass_rest, hp]
  rfl

theorem parse_marked (ht : t.reserved? = some .varMark) (hu : u.kind = .identifier)
    (hp : p.rest = t :: u :: rest) :
    (grammar level).parse 0 p
      = (grammar level).extendUpTo 0 rest.length (ofName t u true) ((p.pass t).pass u) := by
  have hp' : (p.pass t).rest = u :: rest := by rw [pass_rest, hp]; rfl
  have hexpect : expect expected (·.kind == .identifier) (p.pass t) = .ok u ((p.pass t).pass u) :=
    expect_eq hp' (beq_iff_eq.2 hu)
  have hstart : (grammar level).start t (p.pass t)
      = .ok (ofName t u true) ((p.pass t).pass u) := by
    show start t (p.pass t) = _
    simp only [start, kind_of_reserved? ht, isReserved, ht]
    exact bind_eq hexpect
  rw [Grammar.parse_eq hp, Grammar.continueFrom_eq hstart, pass_rest, hp']
  rfl

end Names

/-- A name with its mark, before an annotation. -/
theorem name_fragment {name : String} (h : IsName name) (mutable : Bool) (s : Scanner) :
    ∃ ts, Fragment s ((if mutable then "var " else "") ++ name).toList ts ∧
      ∀ level p rest, p.rest = ts ++ rest → ∃ l l',
        (grammar level).parse 0 p = (grammar level).extendUpTo 0 rest.length
          ⟨l, mutable, name, .unknown l' .immutable⟩ (p.passAll ts) := by
  cases mutable with
  | false =>
    have htext : (if false = true then "var " else "") ++ name = name := by simp
    rw [htext]
    exact ⟨_, Fragment.name s h, fun level p rest hp => ⟨_, _, parse_name rfl hp⟩⟩
  | true =>
    obtain ⟨t, hword, ht⟩ :=
      Fragment.keyword s (show Reserved.varMark ∈ Reserved.keywords by decide)
    have hname := Fragment.name (s.past (Reserved.varMark.text.toList ++ [' ']) true) h
    have htext : ((if true = true then "var " else "") ++ name).toList
        = Reserved.varMark.text.toList ++ [' '] ++ name.toList := by
      rw [if_pos rfl, String.toList_append]
      rfl
    rw [htext]
    exact ⟨_, hword.spaced hname, fun level p rest hp => ⟨_, _, parse_marked ht rfl hp⟩⟩

/-- Nothing but an annotation continues an introduced name. -/
theorem halted_of_ends {level : Nat} {p : Parser} (h : Ends p.rest) :
    (grammar level).Halted 0 p := by
  intro t extension ht hextend
  have hnone : (grammar level).extend? p t = none :=
    if_neg (by rw [(h t ht).1]; exact Bool.false_ne_true)
  rw [hnone] at hextend
  cases hextend

/-- A name without an annotation. -/
theorem print_unannotated {r : Reference} {l : Location} (h : r.type = .unknown l .immutable) :
    r.print = (if r.mutable then "var " else "") ++ r.name := by
  rw [print, h]
  exact String.append_empty

/-- A name with an annotation. -/
theorem print_annotated {r : Reference} (h : ∀ l, r.type ≠ .unknown l .immutable) :
    r.print = (if r.mutable then "var " else "") ++ r.name ++ (": " ++ r.type.print) := by
  rw [print]
  congr 1
  split
  · rename_i l heq
    exact absurd heq (h l)
  · rfl

/-- The tokens of a name without an annotation. -/
theorem rereads_unannotated {ts : List Token} {r : Reference} {l : Location}
    (htype : r.type = .unknown l .immutable)
    (h : ∀ level p rest, p.rest = ts ++ rest → ∃ l l',
      (grammar level).parse 0 p = (grammar level).extendUpTo 0 rest.length
        ⟨l, r.mutable, r.name, .unknown l' .immutable⟩ (p.passAll ts)) : Rereads ts r := by
  intro level p rest _ hp hends
  obtain ⟨l₁, l₂, hread⟩ := h level p rest hp
  refine ⟨⟨l₁, r.mutable, r.name, .unknown l₂ .immutable⟩, ?_, ?_⟩
  · rw [hread]
    refine Grammar.extendUpTo_halted (halted_of_ends ?_) _ _
    rwa [passAll_rest hp]
  · simp only [erase, htype, TypeExpr.erase]

/-- The tokens of a name with an annotation. -/
theorem rereads_annotated {t : Token} {ts us : List Token} {r : Reference}
    (h : ∀ level p rest, p.rest = ts ++ rest → ∃ l l',
      (grammar level).parse 0 p = (grammar level).extendUpTo 0 rest.length
        ⟨l, r.mutable, r.name, .unknown l' .immutable⟩ (p.passAll ts))
    (ht : t.reserved? = some .asType) (htype : r.type.Rereads us) : Rereads (ts ++ t :: us) r := by
  intro level p rest hlevel hp hends
  rw [List.append_assoc] at hp
  rw [totalWeight_append, totalWeight_cons] at hlevel
  obtain ⟨l₁, l₂, hread⟩ := h level p _ hp
  have hp₁ : (p.passAll ts).rest = t :: (us ++ rest) := passAll_rest hp
  have hp₂ : ((p.passAll ts).pass t).rest = us ++ rest := by rw [pass_rest, hp₁]; rfl
  obtain ⟨type', hparse, htype'⟩ := htype level _ rest (by omega) hp₂ fun u hu => (hends u hu).2
  have hextend : (grammar level).extend? (p.passAll ts) t = some _ := if_pos (isReserved_iff.2 ht)
  have hall : p.passAll (ts ++ t :: us) = ((p.passAll ts).pass t).passAll us := by
    rw [passAll_append, passAll_cons]
  rw [hall, hread, List.cons_append, List.length_cons]
  refine ⟨⟨l₁.join type'.loc, r.mutable, r.name, type'⟩, ?_, ?_⟩
  · rw [Grammar.extendUpTo_step hp₁ hextend Nat.one_pos (bind_eq hparse)]
    refine Grammar.extendUpTo_halted (halted_of_ends ?_) _ _
    rwa [passAll_rest hp₂]
  · simp only [erase, htype']

/-- An introduced name is printed as a text that is read back. -/
theorem Printable.printsAs {r : Reference} (h : r.Printable) : PrintsAs print Rereads r := by
  intro s hs
  obtain ⟨ts, hname, hparse⟩ := name_fragment h.isName r.mutable s
  by_cases hannotated : ∃ l, r.type = .unknown l .immutable
  · obtain ⟨l, htype⟩ := hannotated
    rw [print_unannotated htype]
    exact ⟨ts, hname, rereads_unannotated htype hparse⟩
  · have htext : r.print.toList = ((if r.mutable then "var " else "") ++ r.name).toList
        ++ (":".toList ++ [' ']) ++ r.type.print.toList := by
      rw [print_annotated fun l hl => hannotated ⟨l, hl⟩]
      simp
    obtain ⟨us, htype, hrereads, -⟩ := h.type (s.past _ true) fun _ => rfl
    have hoperator : ∀ c ∈ ":".toList, isOperatorChar c = true := List.all_eq_true.1 (by decide)
    have hjoined := hname.join (Piece.operator _ (by decide) hoperator) htype
      (fun _ => endsWord_cons (by decide) _) fun _ _ => trivial
    rw [← htext, List.append_assoc, List.singleton_append] at hjoined
    exact ⟨_, hjoined, rereads_annotated hparse (leaf_reserved? .asType _) hrereads⟩

end Reference

/-! ## Bindings -/

namespace Binding

/-- What follows does not continue a binding. -/
def Ends (rest : List Token) : Prop :=
  ∀ t, rest.head? = some t → t.kind = .comma ∨ t.kind = .semicolon

/-- Tokens are read as a binding up to locations. -/
def Rereads (ts : List Token) (b : Binding) : Prop :=
  ∀ level p rest, totalWeight ts ≤ level → p.rest = ts ++ rest → Ends rest →
    ∃ b', (grammar level).parse 0 p = .ok b' (p.passAll ts) ∧ b'.erase = b.erase

/-- A binding that can be printed. -/
structure Printable (b : Binding) : Prop where
  nonempty : b.names ≠ []
  names : ∀ r ∈ b.names, r.Printable
  value : b.value.Printable

theorem ReadFrom.printable {ts : List Token} {b : Binding} (h : ReadFrom ts b) : b.Printable := by
  cases h with
  | mk first others _ right _ =>
    exact ⟨List.cons_ne_nil _ _, List.forall_mem_cons.2 ⟨first.printable,
      others.all fun _ _ h => h.printable⟩, right.printable⟩

/-- The tokens of a binding. -/
theorem rereads_mk {t : Token} {ts us vs : List Token} {name : Reference} {names : List Reference}
    {value : Expr} (hname : name.Rereads ts) (hnames : AfterCommas Reference.Rereads us names)
    (ht : t.is .operator "=" = true) (hvalue : Expr.Rereads vs value) (l : Location) :
    Rereads (ts ++ us ++ t :: vs) ⟨l, name :: names, value⟩ := by
  obtain ⟨t₀, ts, rfl⟩ := List.exists_cons_of_ne_nil hname.ne_nil
  intro level p rest hlevel hp hends
  simp only [totalWeight_append, totalWeight_cons] at hlevel
  have hkind : t.kind = .operator ∧ t.text = "=" := by simpa [Token.is] using ht
  have hequals : Reference.Ends (t :: (vs ++ rest)) := by
    intro u hu
    cases hu
    simp [isReserved, reserved?, Token.is, hkind]
  have hcomma : ∀ (u : Token) us, u.kind = .comma → Reference.Ends (u :: us) := by
    intro u us hu v hv
    cases hv
    simp [isReserved, reserved?, Token.is, hu]
  -- the names up to the equals sign
  have hp₀ : p.rest = t₀ :: ts ++ (us ++ t :: (vs ++ rest)) := by rw [hp]; simp
  have hends₀ : Reference.Ends (us ++ t :: (vs ++ rest)) := by
    cases hnames with
    | nil => exact hequals
    | cons hu _ _ => exact hcomma _ _ hu
  obtain ⟨name', hparse, hname'⟩ := hname level p _ (by rw [totalWeight_cons]; omega) hp₀ hends₀
  rw [Grammar.parse_eq hp₀] at hparse
  have hp₁ : (p.passAll (t₀ :: ts)).rest = us ++ t :: (vs ++ rest) := passAll_rest hp₀
  have hweight : totalWeight us ≤ level := by omega
  obtain ⟨names', hothers, hnames'⟩ := afterCommas_eq
    (fun us r p rest hR hp hends => hR.1 level p rest hR.2 hp hends) hcomma
    (hnames.and_weight hweight) hp₁ hequals fun u hu => by cases hu; rw [hkind.1]; decide
  -- the equals sign and the value
  have hp₂ : ((p.passAll (t₀ :: ts)).passAll us).rest = t :: (vs ++ rest) := passAll_rest hp₁
  have hp₃ : (((p.passAll (t₀ :: ts)).passAll us).pass t).rest = vs ++ rest := by
    rw [pass_rest, hp₂]
    rfl
  obtain ⟨value', hright, hvalue'⟩ := hvalue level _ rest (by omega) hp₃
    (Expr.stops_separator fun u hu => hends u (by rwa [passAll_rest hp₃] at hu))
  refine ⟨⟨t₀.loc.join value'.loc, name' :: names', value'⟩, ?_, ?_⟩
  · rw [Grammar.parse_eq_start (fun _ _ => rfl) hp₀]
    show start _ _ t₀ (p.pass t₀) = _
    unfold start
    rw [bind_eq hparse, bind_eq hothers, bind_eq (expect_eq hp₂ ht), bind_eq hright]
    simp only [passAll_append, passAll_cons]
    rfl
  · simp only [erase, List.map_cons, hname', hnames', hvalue']

/-- A binding is printed as a text that is read back. -/
theorem Printable.printsAs {b : Binding} (h : b.Printable) : PrintsAs print Rereads b := by
  intro s hs
  obtain ⟨l, names, value⟩ := b
  obtain ⟨name, names, rfl⟩ := List.exists_cons_of_ne_nil h.nonempty
  obtain ⟨ts, us, hnames, hname, hothers⟩ :=
    commaList_fragment (fun r hr => (h.names r hr).printsAs) s hs
  obtain ⟨vs, hvalue, htightly, -⟩ := h.value.tokens (s.past _ true) fun _ => rfl
  obtain ⟨l', hfragment⟩ := hnames.operator (show "=".toList ≠ [] by decide)
    (List.all_eq_true.1 (by decide)) hvalue
  have htext : (Binding.mk l (name :: names) value).print.toList
      = (commaList ((name :: names).map Reference.print)).toList ++ ' ' :: ("=".toList ++ [' '])
        ++ value.print.toList := by
    rw [print]
    simp
  rw [← htext] at hfragment
  exact ⟨_, hfragment, rereads_mk hname hothers rfl htightly.rereads l⟩

/-! ## The bindings of a `let` -/

/-- All bindings of a `let` are read. -/
theorem parseAll_eq {ts us rest : List Token} {b : Binding} {bs : List Binding} {level : Nat}
    {p : Parser} (hb : Rereads ts b) (hbs : AfterCommas Rereads us bs)
    (hlevel : totalWeight (ts ++ us) ≤ level) (hp : p.rest = ts ++ us ++ rest)
    (hrest : ∀ t, rest.head? = some t → t.kind = .semicolon) :
    ∃ all, parseAll (grammar level) p = .ok all (p.passAll (ts ++ us)) ∧
      all.map erase = (b :: bs).map erase := by
  have hcomma : ∀ (u : Token) us, u.kind = .comma → Ends (u :: us) := by
    intro u us hu v hv
    cases hv
    exact .inl hu
  have hends : Ends rest := fun t ht => .inr (hrest t ht)
  have hends' : Ends (us ++ rest) := by
    cases hbs with
    | nil => exact hends
    | cons hu _ _ => exact hcomma _ _ hu
  rw [totalWeight_append] at hlevel
  rw [List.append_assoc] at hp
  obtain ⟨b', hparse, hb'⟩ := hb level p _ (by omega) hp hends'
  have hweight : totalWeight us ≤ level := by omega
  obtain ⟨bs', hothers, hbs'⟩ := afterCommas_eq
    (fun us r p rest hR hp hends => hR.1 level p rest hR.2 hp hends) hcomma
    (hbs.and_weight hweight) (passAll_rest hp) hends fun u hu => by rw [hrest u hu]; decide
  refine ⟨b' :: bs', ?_, by rw [List.map_cons, List.map_cons, hb', hbs']⟩
  unfold parseAll
  rw [bind_eq hparse, bind_eq hothers, passAll_append]
  rfl

/-- The bindings of a `let` are printed as a text that is read back. -/
theorem letText_fragment {b : Binding} {bs : List Binding} (h : ∀ c ∈ b :: bs, c.Printable)
    (s : Scanner) :
    ∃ t ts us, Fragment s (letText (b :: bs)).toList (t :: (ts ++ us)) ∧
      t.reserved? = some .letBind ∧ Rereads ts b ∧ AfterCommas Rereads us bs := by
  obtain ⟨t, hword, ht⟩ := Fragment.keyword s (show Reserved.letBind ∈ Reserved.keywords by decide)
  obtain ⟨ts, us, hbindings, hb, hbs⟩ := commaList_fragment (fun c hc => (h c hc).printsAs)
    (s.past (Reserved.letBind.text.toList ++ [' ']) true) rfl
  have htext : (letText (b :: bs)).toList = Reserved.letBind.text.toList ++ [' ']
      ++ (commaList ((b :: bs).map print)).toList := by
    rw [letText, String.toList_append]
    rfl
  rw [htext]
  exact ⟨t, ts, us, hword.spaced hbindings, ht, hb, hbs⟩

theorem ListFrom.printable {ts : List Token} {bs : List Binding} (h : ListFrom ts bs) :
    ∃ b bs', bs = b :: bs' ∧ ∀ c ∈ bs, c.Printable := by
  cases h with
  | mk first others =>
    exact ⟨_, _, rfl, List.forall_mem_cons.2 ⟨first.printable, others.all fun _ _ h => h.printable⟩⟩

end Binding

end Offside
