import Offside.Proofs.Frontend.Indentation
import Offside.Proofs.Grammar.Concatenation
import Offside.Proofs.Layout.Concatenation
import Offside.Proofs.Lexeme.Concatenation

/-!
# One program after another

* `Frontend.read_ok_iff`: what a text is read to, stage by stage.
* `Frontend.read_sequence_append`: two texts one below the other, of items that are read alike wherever
  they are.
* `Frontend.read_append`: the declarations of two texts, and likewise their statements, follow one
  another.
-/

namespace Offside

namespace Frontend

/-- A text that is read is tokenized, laid out and parsed. -/
theorem read_ok_iff {α : Type} {parse : Location → List Token → Except (Failure ParseError) α}
    {source : String} {x : α} :
    read parse source = .ok x ↔ ∃ tokens laidOut, Token.ofSource source = .ok tokens ∧
      Layout.layout tokens = .ok laidOut ∧ parse (sourceSpan source) laidOut = .ok x := by
  show (tokenize source >>= fun tokens => layOut tokens >>= fun laidOut =>
    (parse (sourceSpan source) laidOut).mapError (Failure.map .parse)) = .ok x ↔ _
  unfold tokenize layOut
  simp only [bind_ok_iff, mapError_ok_iff]
  constructor
  · rintro ⟨tokens, hlex, laidOut, hlayout, hparse⟩
    exact ⟨tokens, laidOut, hlex, hlayout, hparse⟩
  · rintro ⟨tokens, laidOut, hlex, hlayout, hparse⟩
    exact ⟨tokens, hlex, laidOut, hlayout, hparse⟩

section Append

variable {a b : String} {tokens tokens' laidOut : List Token}

/-- The laid-out tokens of a text and of another below it. -/
theorem layout_source_append {laidOut' : List Token} (ha : Token.ofSource a = .ok tokens)
    (hb : Token.ofSource b = .ok tokens') (hlayout : Layout.layout tokens = .ok laidOut)
    (hlayout' : Layout.layout tokens' = .ok laidOut') (hne : laidOut ≠ [])
    (hcol : ∀ t u, tokens.head? = some t → tokens'.head? = some u →
      t.loc.start.col = u.loc.start.col) {m : Relocation}
    (hm : m = (Shift.down (a.toList.count '\n' + 1)).relocation) :
    ∃ (whole : List Token) (s : Token), Token.ofSource (a ++ "\n" ++ b) = .ok whole ∧
      s.kind = .semicolon ∧ Layout.layout whole
        = .ok (if laidOut' = [] then laidOut else laidOut ++ s :: laidOut'.map (Token.move m)) := by
  subst hm
  have hmoved := Layout.layout_move (Shift.down (a.toList.count '\n' + 1)) (Token.ofSource_wide hb)
  rw [hlayout'] at hmoved
  have hstart (u : Token) (hu : (tokens'.map (Token.move
      (Shift.down (a.toList.count '\n' + 1)).relocation)).head? = some u) :
      ∃ v ∈ tokens', tokens'.head? = some v ∧
        u.loc.start = ⟨v.loc.start.row + (a.toList.count '\n' + 1), v.loc.start.col⟩ := by
    rw [List.head?_map] at hu
    obtain ⟨v, hv, rfl⟩ := Option.map_eq_some_iff.1 hu
    refine ⟨v, List.mem_of_head? hv, hv, ?_⟩
    rw [Token.move_loc]
    rfl
  obtain ⟨s, hs, hlaid⟩ := Layout.layout_append (Token.ofSource_inOrder ha) hlayout hmoved hne
    (fun t u ht hu => by
      obtain ⟨v, -, hv, hu⟩ := hstart u hu
      rw [hu]
      exact hcol t v ht hv)
    (fun u hu => by
      obtain ⟨v, hv, -, hu⟩ := hstart u hu
      have horigin : Cursor.origin ≤ v.loc.start := ((Token.ofSource_inOrder hb).every v hv).here.1
      have hrow : (sourceSpan a).stop.row = 1 + a.toList.count '\n' := Cursor.after_row _ _
      rw [Cursor.le_def] at horigin
      simp only [Cursor.origin] at horigin
      rw [hu, hrow]
      show _ < _ + _
      omega)
  refine ⟨_, s, Token.ofSource_append ha hb, hs, ?_⟩
  rw [hlaid]
  simp only [List.map_eq_nil_iff]

/-- Two texts one below the other, of items that are read alike wherever they are. -/
theorem read_sequence_append {α : Type} {item : Parse α} {move : Relocation → α → α}
    {R : List Token → α → Prop} (hitem : item.Portable move R) (ha : Token.ofSource a = .ok tokens)
    (hb : Token.ofSource b = .ok tokens') (hlayout : Layout.layout tokens = .ok laidOut)
    (hne : laidOut ≠ []) (hcol : ∀ t u, tokens.head? = some t → tokens'.head? = some u →
      t.loc.start.col = u.loc.start.col) {xs ys : List α}
    (hxs : read (fun span ts => (Parse.sequence item).result (.ofTokens span ts)) a = .ok xs)
    (hys : read (fun span ts => (Parse.sequence item).result (.ofTokens span ts)) b = .ok ys) :
    read (fun span ts => (Parse.sequence item).result (.ofTokens span ts)) (a ++ "\n" ++ b)
      = .ok (xs ++ ys.map (move (Shift.down (a.toList.count '\n' + 1)).relocation)) := by
  obtain ⟨_, _, ha', hlayout₁, hparse⟩ := read_ok_iff.1 hxs
  cases ha.symm.trans ha'
  cases hlayout.symm.trans hlayout₁
  obtain ⟨_, laidOut', hb', hlayout', hparse'⟩ := read_ok_iff.1 hys
  cases hb.symm.trans hb'
  obtain ⟨whole, s, hwhole, hs, hlaid⟩ :=
    layout_source_append ha hb hlayout hlayout' hne hcol rfl
  have hsuits := suits_of_source (m := .stay) ha hlayout fun _ _ _ => trivial
  refine read_ok_iff.2 ⟨whole, _, hwhole, hlaid, ?_⟩
  by_cases hempty : laidOut' = []
  · subst hempty
    rw [if_pos rfl]
    cases hparse'
    rw [List.map_nil, List.append_nil]
    exact hitem.sequence_span hsuits hparse _
  · rw [if_neg hempty]
    obtain ⟨run, -, hlaidOut⟩ := Layout.layout_ok hlayout
    refine hitem.sequence_append _ hs hsuits
      (suits_of_source hb hlayout' fun _ _ _ => trivial) (ordered_of_source ha hlayout)
      (ordered_of_source hb hlayout') hne hempty (fun t ht => ?_) hparse hparse' _
    rw [hlaidOut] at ht
    exact Layout.punctuate_getLast? ht

/-- The declarations of a text and of another below it follow one another, if the first has a token
and both begin in the same column. So do the statements of such texts. -/
theorem read_append (ha : Token.ofSource a = .ok tokens) (hb : Token.ofSource b = .ok tokens')
    (hlayout : Layout.layout tokens = .ok laidOut) (hne : laidOut ≠ [])
    (hcol : ∀ t u, tokens.head? = some t → tokens'.head? = some u →
      t.loc.start.col = u.loc.start.col) :
    (∀ ds ds', read parseDeclarations a = .ok ds → read parseDeclarations b = .ok ds' →
      read parseDeclarations (a ++ "\n" ++ b) = .ok (ds ++ ds'.map
        (Declaration.move (Shift.down (a.toList.count '\n' + 1)).relocation))) ∧
    (∀ xs xs', read parseStatements a = .ok xs → read parseStatements b = .ok xs' →
      read parseStatements (a ++ "\n" ++ b) = .ok (xs ++ xs'.map
        (Statement.move (Shift.down (a.toList.count '\n' + 1)).relocation))) :=
  ⟨fun _ _ => read_sequence_append Declaration.parse_portable ha hb hlayout hne hcol,
    fun _ _ => read_sequence_append Statement.parse_portable ha hb hlayout hne hcol⟩

end Append

/-- A text with tokens, the first of them in the first column, as can be computed. -/
theorem exists_laidOut (source : String)
    (h : (do
      let tokens ← (Token.ofSource source).toOption
      let laidOut ← (Layout.layout tokens).toOption
      return tokens.head?.any (·.loc.start.col == 1) && !laidOut.isEmpty) = some true) :
    ∃ tokens laidOut, Token.ofSource source = .ok tokens ∧ Layout.layout tokens = .ok laidOut ∧
      laidOut ≠ [] ∧ ∀ t, tokens.head? = some t → t.loc.start.col = 1 := by
  cases hlex : Token.ofSource source with
  | error e =>
    rw [hlex] at h
    cases h
  | ok tokens =>
    rw [hlex] at h
    cases hlayout : Layout.layout tokens with
    | error e =>
      change (Layout.layout tokens).toOption.bind _ = some true at h
      rw [hlayout] at h
      cases h
    | ok laidOut =>
      change (Layout.layout tokens).toOption.bind _ = some true at h
      rw [hlayout] at h
      simp only [Except.toOption, Option.bind_some, Option.pure_def, Option.some.injEq,
        Bool.and_eq_true, Bool.not_eq_true', List.isEmpty_eq_false_iff] at h
      refine ⟨tokens, laidOut, rfl, hlayout, h.2, fun t ht => ?_⟩
      rw [ht] at h
      simpa using h.1

/-- A conditional with an indented block and a comment at its end, and a text that begins with a
semicolon. -/
theorem read_append_comment : ∃ xs xs',
    read parseStatements "if x do\n  f a # c" = .ok xs ∧ read parseStatements ";g -1" = .ok xs' ∧
      read parseStatements "if x do\n  f a # c\n;g -1"
        = .ok (xs ++ xs'.map (Statement.move (Shift.down 2).relocation)) := by
  obtain ⟨tokens, laidOut, ha, hlayout, hne, hcol⟩ :=
    exists_laidOut "if x do\n  f a # c" (by decide +kernel)
  obtain ⟨tokens', laidOut', hb, -, -, hcol'⟩ := exists_laidOut ";g -1" (by decide +kernel)
  obtain ⟨xs, hxs⟩ := exists_read parseStatements "if x do\n  f a # c" (by decide +kernel)
  obtain ⟨xs', hxs'⟩ := exists_read parseStatements ";g -1" (by decide +kernel)
  exact ⟨xs, xs', hxs, hxs', (read_append ha hb hlayout hne fun t u ht hu =>
    (hcol t ht).trans (hcol' u hu).symm).2 xs xs' hxs hxs'⟩

end Frontend

end Offside
