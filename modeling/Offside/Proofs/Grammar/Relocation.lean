import Offside.Grammar.Declarations
import Offside.Proofs.Grammar.Simulation
import Offside.Proofs.Syntax.Relocation

/-!
# Parsing moved tokens

Every form of the grammar is read alike from tokens that are moved, and what it yields is moved with
them. The deeper of two grammars may take the place of the other.

* `TypeExpr.grammar_sim`, `Expr.grammar_sim`, `Statement.grammar_sim`, `Declaration.grammar_sim`: one
  level after another, by one lemma for each way to begin a form and to continue it.
* `Grammar.atWeight_sim`, `Statement.parse_sim`, `Declaration.parse_sim`: at the level that the
  tokens need.
* `Parse.Sim.result`, `parseStatements_move`, `parseDeclarations_move`: whole inputs.
  `parseDeclarations_stays`: where nothing moves.
-/

namespace Offside

open Token Parse Parser

variable {m : Relocation} {strict : Bool} {tail : List Token}

/-- No form is read alike by two grammars without forms. -/
theorem Grammar.Sim.barren {α : Type} {f : α → α} (expected : String) :
    Grammar.Sim m strict f (.barren expected) (.barren expected) :=
  .of_extends rfl (fun _ t _ => Parse.Sim.unexpected_some expected t)
    (fun _ _ _ _ _ _ _ => .none) fun _ _ _ => rfl

/-- A grammar without forms yields nothing to compare, unless failures are compared. -/
theorem Grammar.Sim.of_barren {α : Type} {f : α → α} {expected : String} {g : Grammar α}
    (hexpected : g.expected = expected) (h : strict = true → g = .barren expected) :
    Grammar.Sim m strict f (.barren expected) g := by
  cases strict with
  | true =>
    rw [h rfl]
    exact .barren expected
  | false => exact ⟨hexpected, fun _ _ _ _ _ _ => .free rfl, fun _ _ _ _ _ _ _ => .free rfl⟩

/-- Grammars of every level are read alike, at a level that is high enough for the first, if each
level is that is made of levels which are. At the lowest there are no forms. -/
theorem Grammar.Sim.levels {α : Type} {f : α → α} {grammar : Nat → Grammar α} {expected : String}
    (hexpected : ∀ level, (grammar level).expected = expected)
    (hbarren : grammar 0 = .barren expected)
    (hstep : ∀ {level level'}, level ≤ level' → (strict = true → level' = level) →
      Grammar.Sim m strict f (grammar level) (grammar level') →
      Grammar.Sim m strict f (grammar (level + 1)) (grammar (level' + 1))) {level level' : Nat}
    (hle : level ≤ level') (hstrict : strict = true → level' = level) :
    Grammar.Sim m strict f (grammar level) (grammar level') := by
  induction level generalizing level' with
  | zero =>
    rw [hbarren]
    exact .of_barren (hexpected level') fun h => by rw [hstrict h, hbarren]
  | succ level ih =>
    obtain ⟨level', rfl⟩ : ∃ n, level' = n + 1 := ⟨level' - 1, by omega⟩
    have hle : level ≤ level' := Nat.le_of_succ_le_succ hle
    have hsame : strict = true → level' = level := fun h => Nat.succ.inj (hstrict h)
    exact hstep hle hsame (ih hle hsame)

/-! ## Types -/

theorem BufferSize.read_sim : Parse.Sim m strict [] (Image id) read read := by
  unfold read
  refine Parse.Sim.advance.bind_option (.image rfl) fun t _ => ?_
  simp only [move_kind, move_text]
  refine .ite (fun _ => .image rfl) fun _ => .ite (fun _ => .image rfl) fun _ => ?_
  exact .unexpected_some _ t

namespace TypeExpr

variable {parts parts' : Grammar TypeExpr}

theorem isStar_move (t : Token) : isStar (t.move m) = isStar t := by
  simp only [isStar, move_isReserved, move_is]

theorem ofMembers_move (loc : Location) (members : List TypeExpr × Bool) :
    ofMembers (loc.move m) (members.1.map (move m), members.2) = (ofMembers loc members).move m := by
  obtain ⟨_ | ⟨a, _ | ⟨b, as⟩⟩, _ | _⟩ := members <;>
    simp only [ofMembers, List.map_nil, List.map_cons, move_relocate, move, moveAll_eq]

/-- Types begin alike. -/
theorem start_sim (h : Grammar.Sim m strict (move m) parts parts') {t : Token} (ht : t.Suits m) :
    Parse.Sim m strict tail (Image (move m)) (start parts t) (start parts' (t.move m)) := by
  unfold start
  simp only [move_kind, move_text, move_isReserved, isStar_move, move_blockKind?, Token.move_loc]
  refine .ite (fun _ => .ite (fun _ => .image (by simp [move])) fun _ => ?_) fun _ =>
    .ite (fun _ => ?_) fun _ => .ite (fun _ => ?_) fun _ => ?_
  · cases Ground.ofName? t.text with
    | none => exact .unexpected_some _ t
    | some g => exact .image (by simp [move])
  · exact (h.parse tail arrowPower).bind_image fun inner => .image (by simp)
  · exact (h.parse tail arrowPower).bind_image fun pointee => .image (by simp [move])
  · rcases hk : t.blockKind? with _ | (_ | _ | _ | _) | _
    case some.bracketed.paren =>
      exact (Parse.Sim.within (.list (h.parse [] 0)) ht (kind_of_blockKind? hk)).bind_image
        fun members => .image (ofMembers_move t.loc members)
    case some.bracketed.square =>
      exact (Parse.Sim.within BufferSize.read_sim ht (kind_of_blockKind? hk)).bind_image
        fun size => (h.parse tail arrowPower).bind_image fun element => .image (by simp [move])
    all_goals exact .unexpected_some _ t

/-- Arrows continue types alike. -/
theorem extend?_sim (h : Grammar.Sim m strict (move m) parts parts') (t : Token) :
    Option.Rel (Grammar.ExtendAlike m strict tail (move m)) (extend? parts t)
      (extend? parts' (t.move m)) := by
  unfold extend?
  rw [move_is]
  split
  · exact .some ⟨rfl, fun domain =>
      (h.parse tail _).bind_image fun codomain => .image (by simp [move])⟩
  · exact .none

theorem extend?_separator {t : Token} (ht : t.kind = .semicolon) : extend? parts t = none := by
  simp [extend?, Token.is, ht]

/-- Types are read alike, at a level that is high enough for the first. -/
theorem grammar_sim {level level' : Nat} (hle : level ≤ level')
    (hstrict : strict = true → level' = level) :
    Grammar.Sim m strict (move m) (grammar level) (grammar level') := by
  refine .levels (fun level => by cases level <;> rfl) rfl (fun _ _ hparts => ?_) hle hstrict
  rw [grammar, grammar]
  exact .of_extends rfl (fun _ _ ht => start_sim hparts ht)
    (fun _ _ _ t _ _ _ => extend?_sim hparts t) fun _ _ ht => extend?_separator ht

end TypeExpr

/-! ## Expressions -/

namespace Expr

variable {parts parts' : Grammar Expr} {types types' : Grammar TypeExpr} {p p' : Parser} {t : Token}

theorem application_move (style : CallStyle) (function : Expr) (args : List Expr) :
    application style (function.move m) (args.map (move m))
      = (application style function args).move m := by
  simp only [application, move, moveAll_eq, List.getLast?_map]
  cases args.getLast? <;> simp

theorem ofName_move (t : Token) : ofName (t.move m) = (ofName t).move m := by
  simp [ofName, move]

theorem ofParts_move (loc : Location) (elements : List Expr × Bool) :
    ofParts (loc.move m) (elements.1.map (move m), elements.2)
      = (ofParts loc elements).move m := by
  obtain ⟨_ | ⟨a, _ | ⟨b, as⟩⟩, _ | _⟩ := elements <;>
    simp only [ofParts, List.map_nil, List.map_cons, move_relocate, move, moveAll_eq]

/-- An expression names a place wherever it stands. -/
theorem expectPlace_sim (e : Expr) :
    Parse.Sim m strict tail (Image (Place.move m)) e.expectPlace (e.move m).expectPlace := by
  unfold expectPlace
  rw [Place.ofExpr_move]
  cases Place.ofExpr e with
  | ok place => exact .image rfl
  | error part =>
    simp only [mapError_error, Except.map, move_describe, move_loc]
    exact .fail

/-- A token begins an argument wherever it stands. -/
theorem beginsArgument_move (hp : Tracks m strict tail p p') (ht : t.Suits m) :
    beginsArgument p' (t.move m) = beginsArgument p t := by
  unfold beginsArgument
  rw [hp.adjacent ht]
  simp only [move_kind, move_isReserved, move_isBlock]

theorem beginsArgument_separator (p : Parser) (ht : t.kind = .semicolon) :
    beginsArgument p t = false := by
  simp only [beginsArgument, ht]

/-- Where nothing begins an argument there are no more of them. -/
theorem argumentsUpTo_none (bound : Nat)
    (h : ∀ t, p.rest.head? = some t → beginsArgument p t = false) :
    argumentsUpTo parts bound p = .ok [] p := by
  cases bound with
  | zero => rfl
  | succ bound =>
    unfold argumentsUpTo
    cases hrest : p.rest with
    | nil => rfl
    | cons t ts => simp only [h t (by rw [hrest]; rfl), Bool.false_eq_true, if_false]

/-- No bound is reached before the tokens are. -/
theorem argumentsUpTo_sim (h : Grammar.Sim m strict (move m) parts parts') {bound bound' : Nat}
    (hp : Tracks m strict tail p p') (hbound : p.rest.length ≤ bound)
    (hbound' : p'.rest.length ≤ bound') :
    Agree m strict tail (Image (List.map (move m))) p (argumentsUpTo parts bound p)
      (argumentsUpTo parts' bound' p') := by
  induction bound generalizing bound' p p' with
  | zero =>
    have hrest := List.length_eq_zero_iff.1 (Nat.le_zero.1 hbound)
    rw [argumentsUpTo_none bound' fun t ht =>
      beginsArgument_separator p' (hp.kind_of_head hrest ht)]
    exact .ok rfl hp (Nat.le_refl _)
  | succ bound ih =>
    cases hrest : p.rest with
    | nil =>
      rw [argumentsUpTo_none _ (by simp [hrest]), argumentsUpTo_none bound' fun t ht =>
        beginsArgument_separator p' (hp.kind_of_head hrest ht)]
      exact .ok rfl hp (Nat.le_refl _)
    | cons t ts =>
      have ht : t.Suits m := hp.suits t (by simp [hrest])
      have hrest' := hp.rest_cons hrest
      obtain ⟨bound', rfl⟩ : ∃ n, bound' = n + 1 :=
        ⟨bound' - 1, by rw [hrest', List.length_cons] at hbound'; omega⟩
      simp only [argumentsUpTo, hrest, hrest', beginsArgument_move hp ht]
      split
      · have hpass : (p.pass t).rest.length + 1 = p.rest.length := by simp [hrest]
        refine ((h.continueFrom tail applicationPower t ht (hp.pass hrest)).bind
          fun a a' q q' ha hq hlength => ?_).of_shorter (by omega)
        have hbound'' : q'.rest.length ≤ bound' := by
          rw [hq.length]
          have := hp.length
          omega
        refine ((ih hq (by omega) hbound'').bind
          fun as as' r r' has hr hlength' => ?_).of_shorter hlength
        cases ha
        cases has
        exact .ok rfl hr hlength'
      · exact .ok rfl hp (Nat.le_refl _)

theorem arguments_sim (h : Grammar.Sim m strict (move m) parts parts') :
    Parse.Sim m strict tail (Image (List.map (move m))) (arguments parts) (arguments parts') :=
  fun _ _ hp => argumentsUpTo_sim h hp (Nat.le_refl _) (Nat.le_refl _)

/-- Signs are read alike with their operands. -/
theorem unary_sim (h : Grammar.Sim m strict (move m) parts parts') (t : Token) (sign : Reserved) :
    Parse.Sim m strict tail (Image (move m)) (unary parts t sign)
      (unary parts' (t.move m) sign) := by
  unfold unary
  refine (h.parse tail unaryPower).bind_image fun operand => ?_
  have hcall : Parse.Sim m strict tail (Image (move m))
      (pure (application .curried (ofName t) [operand]))
      (pure (application .curried (ofName (t.move m)) [operand.move m])) :=
    .image (by rw [ofName_move, ← application_move]; rfl)
  cases sign
  case valueAt => exact .image (by simp [move])
  case addressOf => exact (expectPlace_sim operand).bind_image fun place => .image (by simp [move])
  all_goals exact hcall

/-- Conditional expressions are read alike. -/
theorem conditional_sim (h : Grammar.Sim m strict (move m) parts parts') (t : Token) :
    Parse.Sim m strict tail (Image (move m)) (conditional parts t)
      (conditional parts' (t.move m)) := by
  have hpart {block : Token} (hblock : block.Suits m) (hkind : block.kind = .block) :
      Parse.Sim m strict tail (Image (move m)) (Parse.within block (parts.parse 0))
        (Parse.within (block.move m) (parts'.parse 0)) :=
    .within (h.parse [] 0) hblock hkind
  unfold conditional
  refine (h.parse tail 0).bind_image fun condition => .expectBody_bind fun yesBlock hyes hkind => ?_
  refine (hpart hyes hkind).bind_image fun yes => Parse.Sim.acceptElse.bind_option ?_ fun _ _ => ?_
  · exact .peek_unexpected _
  · refine .expectBody_bind fun noBlock hno hkind => (hpart hno hkind).bind_image fun no => ?_
    exact .image (by simp [move])

/-- Expressions begin alike. -/
theorem start_sim (h : Grammar.Sim m strict (move m) parts parts') (ht : t.Suits m) :
    Parse.Sim m strict tail (Image (move m)) (start parts t) (start parts' (t.move m)) := by
  unfold start
  simp only [move_kind, move_text, move_reserved?, move_blockKind?, Token.move_loc]
  have hunexpected : Parse.Sim m strict tail (Image (move m))
      (Parse.unexpected expected (some t)) (Parse.unexpected expected (some (t.move m))) :=
    .unexpected_some _ t
  cases hkind : t.kind
  case identifier => exact .image (ofName_move t)
  case number => exact .image (by simp [move])
  case reserved =>
    dsimp only
    split
    · exact unary_sim h t .negate
    · exact unary_sim h t .valueAt
    · exact unary_sim h t .addressOf
    · exact conditional_sim h t
    · exact hunexpected
  case block =>
    dsimp only
    split
    · exact (Parse.Sim.within (.list (h.parse [] 0)) ht hkind).bind_image
        fun elements => .image (ofParts_move t.loc elements)
    · refine (Parse.Sim.within (.list (h.parse [] 0)) ht hkind).bind_image fun elements => ?_
      obtain ⟨elements, comma⟩ := elements
      exact .image (by simp [move, moveAll_eq])
    · exact hunexpected
  all_goals exact hunexpected

theorem juxtaposition?_sim (h : Grammar.Sim m strict (move m) parts parts')
    (hp : Tracks m strict tail p p') (ht : t.Suits m) :
    Option.Rel (Grammar.ExtendAlike m strict tail (move m)) (juxtaposition? parts p t)
      (juxtaposition? parts' p' (t.move m)) := by
  unfold juxtaposition?
  rw [beginsArgument_move hp ht]
  split
  · refine .some ⟨rfl, fun function => ?_⟩
    refine (h.continueFrom tail applicationPower t ht).bind_image fun first =>
      (arguments_sim h).bind_image fun others => .image ?_
    rw [← application_move]
    rfl
  · exact .none

theorem extend?_sim (h : Grammar.Sim m strict (move m) parts parts')
    (htypes : Grammar.Sim m strict (TypeExpr.move m) types types')
    (hp : Tracks m strict tail p p') (ht : t.Suits m) :
    Option.Rel (Grammar.ExtendAlike m strict tail (move m)) (extend? parts types p t)
      (extend? parts' types' p' (t.move m)) := by
  have hjuxtaposition := juxtaposition?_sim h hp ht
  unfold extend?
  simp only [move_kind, move_text, move_isReserved, move_blockKind?, hp.adjacent ht]
  cases hkind : t.kind
  case operator =>
    cases bindingPower? t.text with
    | none => exact .none
    | some power =>
      refine .some ⟨rfl, fun left => (h.parse tail power).bind_image fun right => .image ?_⟩
      rw [ofName_move, ← application_move]
      rfl
  case reserved =>
    dsimp only
    split
    · refine .some ⟨rfl, fun value => (htypes.parse tail 0).bind_image fun type => .image ?_⟩
      simp [move]
    · exact hjuxtaposition
  case block =>
    have hinside : Parse.Sim m strict tail (Image (move m)) (Parse.within t (parts.parse 0))
        (Parse.within (t.move m) (parts'.parse 0)) := .within (h.parse [] 0) ht hkind
    dsimp only
    rcases t.blockKind? with _ | (_ | _ | _ | _) | _
    case some.bracketed.backtick =>
      refine .some ⟨rfl, fun left => hinside.bind_image fun function =>
        (h.parse tail backtickPower).bind_image fun right => .image ?_⟩
      simp [move, moveAll_eq]
    case some.bracketed.square =>
      dsimp only
      split
      · exact .some ⟨rfl, fun base => hinside.bind_image fun offset => .image (by simp [move])⟩
      · exact hjuxtaposition
    case some.bracketed.paren =>
      dsimp only
      split
      · refine .some ⟨rfl, fun function =>
          (Parse.Sim.within (.list (h.parse [] 0)) ht hkind).bind_image fun args => ?_⟩
        obtain ⟨args, comma⟩ := args
        exact .image (by simp [move, moveAll_eq])
      · exact hjuxtaposition
    all_goals exact hjuxtaposition
  all_goals exact hjuxtaposition

theorem extend?_separator (p : Parser) (ht : t.kind = .semicolon) :
    extend? parts types p t = none := by
  simp [extend?, ht, juxtaposition?, beginsArgument_separator p ht]

/-- Expressions are read alike, at a level that is high enough for the first. -/
theorem grammar_sim {level level' : Nat} (hle : level ≤ level')
    (hstrict : strict = true → level' = level) :
    Grammar.Sim m strict (move m) (grammar level) (grammar level') := by
  refine .levels (fun level => by cases level <;> rfl) rfl (fun hle hstrict hparts => ?_) hle
    hstrict
  rw [grammar, grammar]
  have htypes := TypeExpr.grammar_sim (m := m) (Nat.succ_le_succ hle) fun h => by rw [hstrict h]
  exact .of_extends rfl (fun _ _ ht => start_sim hparts ht)
    (fun _ p p' t ts hp hrest => extend?_sim hparts htypes hp
      (hp.suits t (by rw [hrest]; exact List.mem_cons_self)))
    fun p _ ht => extend?_separator p ht

end Expr

/-! ## Introduced names -/

namespace Reference

variable {types types' : Grammar TypeExpr}

theorem ofName_move (first t : Token) (mutable : Bool) :
    ofName (first.move m) (t.move m) mutable = (ofName first t mutable).move m := by
  simp [ofName, move, TypeExpr.move]

/-- Introduced names begin alike. -/
theorem start_sim {t : Token} : Parse.Sim m strict tail (Image (move m)) (start t)
    (start (t.move m)) := by
  unfold start
  simp only [move_kind, move_isReserved]
  refine .ite (fun _ => .image (ofName_move t t false)) fun _ => .ite (fun _ => ?_) fun _ => ?_
  · exact .expect_bind (fun u => by rw [move_kind]) fun name _ _ => .image (ofName_move t name true)
  · exact .unexpected_some _ t

/-- Introduced names are read alike, at a level that is high enough for the first. -/
theorem grammar_sim {level level' : Nat} (hle : level ≤ level')
    (hstrict : strict = true → level' = level) :
    Grammar.Sim m strict (move m) (grammar level) (grammar level') := by
  have htypes : Grammar.Sim m strict (TypeExpr.move m) (TypeExpr.grammar level)
      (TypeExpr.grammar level') := TypeExpr.grammar_sim hle hstrict
  refine .of_extends rfl (fun _ _ _ => start_sim) (fun tail p p' t ts _ _ => ?_) fun p t ht => ?_
  · show Option.Rel _ (extend? _ t) (extend? _ (t.move m))
    unfold extend?
    rw [move_isReserved]
    split
    · exact .some ⟨rfl, fun r => (htypes.parse tail 0).bind_image fun type =>
        .image (by simp [move])⟩
    · exact .none
  · show extend? _ t = none
    simp [extend?, isReserved_semicolon ht]

end Reference

namespace Binding

/-- Bindings are read alike, at a level that is high enough for the first. -/
theorem grammar_sim {level level' : Nat} (hle : level ≤ level')
    (hstrict : strict = true → level' = level) :
    Grammar.Sim m strict (move m) (grammar level) (grammar level') := by
  have hnames : Grammar.Sim m strict (Reference.move m) (Reference.grammar level)
      (Reference.grammar level') := Reference.grammar_sim hle hstrict
  have hvalues : Grammar.Sim m strict (Expr.move m) (Expr.grammar level) (Expr.grammar level') :=
    Expr.grammar_sim hle hstrict
  refine .of_extends rfl (fun tail t ht => ?_) (fun _ _ _ _ _ _ _ => .none) fun _ _ _ => rfl
  show Parse.Sim m strict tail _ (start _ _ t) (start _ _ (t.move m))
  unfold start
  refine (hnames.continueFrom tail 0 t ht).bind_image fun name =>
    (Parse.Sim.afterCommas (hnames.parse tail 0)).bind_image fun names =>
      .expect_bind (fun u => by rw [move_is]) fun _ _ _ =>
        (hvalues.parse tail 0).bind_image fun value => .image ?_
  simp [move]

/-- The bindings of a `let` are read alike. -/
theorem parseAll_sim {bindings bindings' : Grammar Binding}
    (h : Grammar.Sim m strict (move m) bindings bindings') :
    Parse.Sim m strict tail (Image (List.map (move m))) (parseAll bindings)
      (parseAll bindings') := by
  unfold parseAll
  exact (h.parse tail 0).bind_image fun first =>
    (Parse.Sim.afterCommas (h.parse tail 0)).bind_image fun others => .image rfl

theorem letLoc_move (t : Token) (bindings : List Binding) :
    letLoc (t.move m) (bindings.map (move m)) = (letLoc t bindings).move m := by
  simp only [letLoc, List.getLast?_map]
  cases bindings.getLast? <;> simp [move]

end Binding

/-! ## Statements -/

namespace Statement

variable {parts parts' : Grammar Statement} {values values' : Grammar Expr}
  {bindings bindings' : Grammar Binding} {t : Token}

/-- The statements inside a block are read alike. -/
theorem body_sim (h : Grammar.Sim m strict (move m) parts parts') {block : Token}
    (hblock : block.Suits m) (hkind : block.kind = .block) :
    Parse.Sim m strict tail (Image (List.map (move m))) (body parts block)
      (body parts' (block.move m)) :=
  .within (.sequence (h.parse [] 0)) hblock hkind

/-- Conditional statements are read alike. -/
theorem conditional_sim (h : Grammar.Sim m strict (move m) parts parts')
    (hvalues : Grammar.Sim m strict (Expr.move m) values values') (t : Token) :
    Parse.Sim m strict tail (Image (move m)) (conditional parts values t)
      (conditional parts' values' (t.move m)) := by
  unfold conditional
  refine (hvalues.parse tail 0).bind_image fun condition => .expectBody_bind fun yesBlock hyes hk => ?_
  refine (body_sim h hyes hk).bind_image fun yes => Parse.Sim.acceptElse.bind_option ?_ fun _ _ => ?_
  · exact .image (by simp [move, moveAll_eq])
  · refine (Parse.Sim.accept (fun u => by rw [move_isReserved])
      (fun u hu => isReserved_semicolon hu _)).bind_option ?_ fun chained hchained => ?_
    · exact .expectBody_bind fun noBlock hno hk => (body_sim h hno hk).bind_image fun no =>
        .image (by simp [move, moveAll_eq])
    · exact (h.start tail chained hchained).bind_image fun no =>
        .image (by simp [move, moveAll_eq])

/-- Loops are read alike. -/
theorem loop_sim (h : Grammar.Sim m strict (move m) parts parts') (t : Token) :
    Parse.Sim m strict tail (Image (move m)) (loop parts t) (loop parts' (t.move m)) := by
  have hloop (label? : Option String) {block : Token} (hblock : block.Suits m)
      (hk : block.kind = .block) : Parse.Sim m strict tail (Image (move m))
        (do let inner ← Parse.insideLoop label? (body parts block)
            return forever (t.loc.join block.loc) label? inner)
        (do let inner ← Parse.insideLoop label? (body parts' (block.move m))
            return forever ((t.move m).loc.join (block.move m).loc) label? inner) :=
    (Parse.Sim.insideLoop (body_sim h hblock hk)).bind_image fun inner =>
      .image (by simp [move, moveAll_eq])
  unfold loop
  refine (Parse.Sim.accept (fun u => by rw [move_kind])
    (fun u hu => by rw [hu]; rfl)).bind_option ?_ fun label _ => ?_
  · exact .expectBody_bind fun block hblock hk => hloop none hblock hk
  · refine .expectBody_bind fun block hblock hk => ?_
    simpa using hloop (some label.text) hblock hk

/-- Breaks are read alike. -/
theorem leaveLoop_sim (t : Token) :
    Parse.Sim m strict tail (Image (move m)) (leaveLoop t) (leaveLoop (t.move m)) := by
  unfold leaveLoop
  refine (Parse.Sim.accept (fun u => by rw [move_kind])
    (fun u hu => by rw [hu]; rfl)).bind_option ?_ fun label _ => ?_
  · refine .get_bind fun p p' hp => ?_
    rw [hp.loopDepth?]
    cases p.loopDepth? none with
    | none => exact Parse.Sim.unexpected_some _ t hp
    | some depth => exact Parse.Sim.image (by simp [move]) hp
  · refine .get_bind fun p p' hp => ?_
    rw [hp.loopDepth?, move_text]
    cases p.loopDepth? (some label.text) with
    | none => exact Parse.Sim.unexpected_some _ label hp
    | some depth => exact Parse.Sim.image (by simp [move]) hp

/-- Whether an expression is a statement does not depend on where it stands. -/
theorem ofApplication_sim (e : Expr) :
    Parse.Sim m strict tail (Image (move m)) (ofApplication e) (ofApplication (e.move m)) := by
  cases e
  case apply => exact .image (by simp [move])
  all_goals exact .fail

/-- Assignments and calls are read alike. The first may end where the second has a separator, which
ends it as well. -/
theorem assignmentOrCall_sim (hvalues : Grammar.Sim m strict (Expr.move m) values values')
    (ht : t.Suits m) : Parse.Sim m strict tail (Image (move m)) (assignmentOrCall values t)
      (assignmentOrCall values' (t.move m)) := by
  unfold assignmentOrCall
  refine (hvalues.continueFrom tail 0 t ht).bind_image fun e => ?_
  refine (Parse.Sim.accept (fun u => by rw [move_is])
    (fun u hu => by simp [Token.is, hu])).bind_option ?_ fun _ _ => ?_
  · intro p p' hp
    have hpeek (q : Parser) : Parse.peek q = .ok q.rest.head? q := rfl
    dsimp only
    rw [Parse.bind_eq (hpeek p), Parse.bind_eq (hpeek p')]
    cases hrest : p.rest with
    | nil =>
      rw [hp.rest_nil hrest]
      cases hp.seam with
      | nothing => exact ofApplication_sim e hp
      | separator hu _ =>
        simp only [List.head?_nil, List.head?_cons, if_pos hu]
        exact ofApplication_sim e hp
    | cons u us =>
      rw [hp.rest_cons hrest]
      simp only [List.head?_cons, move_kind]
      exact Parse.Sim.ite (fun _ => ofApplication_sim e) (fun _ => .unexpected_some _ u) hp
  · exact (hvalues.parse tail 0).bind_image fun value =>
      (Expr.expectPlace_sim e).bind_image fun target => .image (by simp [move])

/-- Statements begin alike. -/
theorem start_sim (h : Grammar.Sim m strict (move m) parts parts')
    (hbindings : Grammar.Sim m strict (Binding.move m) bindings bindings')
    (hvalues : Grammar.Sim m strict (Expr.move m) values values') (ht : t.Suits m) :
    Parse.Sim m strict tail (Image (move m)) (start parts bindings values t)
      (start parts' bindings' values' (t.move m)) := by
  have hsimple : Parse.Sim m strict tail (Image (move m)) (simple parts values t)
      (simple parts' values' (t.move m)) := by
    unfold simple
    rw [move_blockKind?]
    refine .ite (fun hbody => ?_) fun _ => assignmentOrCall_sim hvalues ht
    obtain ⟨kind, hkind, -⟩ := (Option.any_eq_true _ _).1 hbody
    exact (body_sim h ht (kind_of_blockKind? hkind)).bind_image fun inner =>
      .image (by simp [move, moveAll_eq])
  unfold start
  rw [move_reserved?]
  split
  · exact conditional_sim h hvalues t
  · exact loop_sim h t
  · exact leaveLoop_sim t
  · refine (Binding.parseAll_sim hbindings).bind_image fun all => .image ?_
    rw [Binding.letLoc_move, move]
  · exact (hvalues.parse tail 0).bind_image fun value => .image (by simp [move])
  · exact hsimple
  · exact hsimple
  · exact hsimple
  · exact hsimple
  · exact .unexpected_some _ t

/-- Statements are read alike, at a level that is high enough for the first. -/
theorem grammar_sim {level level' : Nat} (hle : level ≤ level')
    (hstrict : strict = true → level' = level) :
    Grammar.Sim m strict (move m) (grammar level) (grammar level') := by
  refine .levels (fun level => by cases level <;> rfl) rfl (fun hle hstrict hparts => ?_) hle
    hstrict
  have hle' := Nat.succ_le_succ hle
  have hstrict' (h : strict = true) := congrArg (· + 1) (hstrict h)
  rw [grammar, grammar]
  exact .of_extends rfl (fun _ _ ht => start_sim hparts (Binding.grammar_sim hle' hstrict')
    (Expr.grammar_sim hle' hstrict') ht) (fun _ _ _ _ _ _ _ => .none) fun _ _ _ => rfl

end Statement

/-! ## Declarations -/

namespace Declaration

/-- Declarations are read alike, at a level that is high enough for the first. -/
theorem grammar_sim {level level' : Nat} (hle : level ≤ level')
    (hstrict : strict = true → level' = level) :
    Grammar.Sim m strict (move m) (grammar level) (grammar level') := by
  refine .of_extends rfl (fun tail t ht => ?_) (fun _ _ _ _ _ _ _ => .none) fun _ _ _ => rfl
  show Parse.Sim m strict tail _ (start level t) (start level' (t.move m))
  unfold start
  rw [move_reserved?]
  split
  · unfold functionRest
    refine .expect_bind (fun u => by rw [move_kind]) fun name _ _ => ?_
    refine .expect_bind (fun u => by rw [move_isBlock]) fun list hlist hparen => ?_
    refine (Parse.Sim.within (.list ((Reference.grammar_sim hle hstrict).parse [] 0)) hlist
      (kind_of_blockKind? (isBlock_iff.1 hparen))).bind_image fun params => ?_
    refine ((TypeExpr.grammar_sim hle hstrict).parse tail 0).bind_image fun result => ?_
    refine .expectBody_bind fun block hblock hk => ?_
    refine (Statement.body_sim (Statement.grammar_sim hle hstrict) hblock hk).bind_image
      fun body => ?_
    obtain ⟨params, comma⟩ := params
    exact .image (by simp [move, Statement.moveAll_eq])
  · refine (Binding.parseAll_sim (Binding.grammar_sim hle hstrict)).bind_image fun all =>
      .image ?_
    rw [Binding.letLoc_move, move]
  · exact .unexpected_some _ t

end Declaration

/-! ## Whole inputs -/

/-- A tower of grammars that read alike reads alike at the level that the tokens call for. -/
theorem Grammar.atWeight_sim {α : Type} {f : α → α} {tower : Nat → Grammar α}
    (h : ∀ level level', level ≤ level' → (strict = true → level' = level) →
      Grammar.Sim m strict f (tower level) (tower level')) (power : Nat) :
    Parse.Sim m strict tail (Image f) (Grammar.atWeight tower power)
      (Grammar.atWeight tower power) := by
  intro p p' hp
  have hweight : p'.weight = p.weight + totalWeight tail := by
    rw [Parser.weight, hp.rest, totalWeight_append, totalWeight_map_move, Parser.weight]
  refine (h p.weight p'.weight (by omega) fun hstrict => ?_).parse tail power hp
  subst hstrict
  rw [hweight, hp.tail_nil]
  rfl

theorem Statement.parse_sim (power : Nat) : Parse.Sim m strict tail (Image (Statement.move m))
    (Statement.parse power) (Statement.parse power) :=
  Grammar.atWeight_sim (fun _ _ => Statement.grammar_sim) power

theorem Declaration.parse_sim (power : Nat) : Parse.Sim m strict tail (Image (Declaration.move m))
    (Declaration.parse power) (Declaration.parse power) :=
  Grammar.atWeight_sim (fun _ _ => Declaration.grammar_sim) power

/-- Where all tokens of an input move, the outcome moves along, and it is no fault. -/
theorem Parse.Sim.result {α : Type} {f : α → α} {action action' : Parse α}
    (h : Parse.Sim m true [] (Image f) action action') {span : Location} {ts : List Token}
    (hts : ∀ t ∈ ts, t.Suits m) :
    action'.result (ofTokens (span.move m) (ts.map (Token.move m)))
        = moveOutcome m f (action.result (ofTokens span ts)) ∧
      ∀ broken, action.result (ofTokens span ts) ≠ .error (.fault broken) := by
  have hp : Tracks m true [] (ofTokens span ts)
      (ofTokens (span.move m) (ts.map (Token.move m))) :=
    { rest := (List.append_nil _).symm
      suits := hts
      lastStop := rfl
      covers := fun c hc => by cases hc
      ending := rfl
      endLoc := fun _ => rfl
      loops := rfl
      seam := .nothing }
  have hagree := h hp
  unfold Parse.result
  revert hagree
  generalize action (ofTokens span ts) = r
  generalize action' (ofTokens (span.move m) (ts.map (Token.move m))) = r'
  intro hagree
  cases hagree with
  | ok hV _ _ =>
    cases hV
    exact ⟨rfl, fun _ h => by cases h⟩
  | error => exact ⟨rfl, fun _ h => by cases h⟩
  | free hstrict => cases hstrict

/-- Moved tokens have the same statements, moved, or fail alike. -/
theorem parseStatements_move (span : Location) {ts : List Token} (hts : ∀ t ∈ ts, t.Suits m) :
    parseStatements (span.move m) (ts.map (Token.move m))
        = moveOutcome m (List.map (Statement.move m)) (parseStatements span ts) ∧
      ∀ broken, parseStatements span ts ≠ .error (.fault broken) :=
  (Parse.Sim.sequence (Statement.parse_sim 0)).result hts

/-- Moved tokens have the same declarations, moved, or fail alike. -/
theorem parseDeclarations_move (span : Location) {ts : List Token} (hts : ∀ t ∈ ts, t.Suits m) :
    parseDeclarations (span.move m) (ts.map (Token.move m))
        = moveOutcome m (List.map (Declaration.move m)) (parseDeclarations span ts) ∧
      ∀ broken, parseDeclarations span ts ≠ .error (.fault broken) :=
  (Parse.Sim.sequence (Declaration.parse_sim 0)).result hts

/-- Where neither the tokens of an input nor its end move, the outcome stays as it is. -/
theorem parseDeclarations_stays {span : Location} {ts : List Token} (hts : ∀ t ∈ ts, t.Suits m)
    (hspan : span.move m = span) (hstay : ∀ t ∈ ts, t.Every fun u => u.loc.move m = u.loc) :
    moveOutcome m (List.map (Declaration.move m)) (parseDeclarations span ts)
      = parseDeclarations span ts := by
  have htokens : ts.map (Token.move m) = ts := by
    rw [List.map_congr_left fun t ht => move_eq_self m (hstay t ht), List.map_id']
  have hmove := (parseDeclarations_move span hts).1
  rw [hspan, htokens] at hmove
  exact hmove.symm

/-- An error stays where it is if the outcome does. -/
theorem move_error_of_stays {α β : Type} {f : α → β} {e : Located ParseError}
    (h : moveOutcome m f (.error (.reported e)) = .error (.reported e)) :
    e.loc.move m = e.loc := by
  injection h with hfailure
  injection hfailure with he
  exact congrArg Located.loc he

/-- Declarations stay where they are if the outcome does. -/
theorem move_declaration_of_stays {ds : List Declaration}
    (h : moveOutcome (ε := ParseError) m (List.map (Declaration.move m)) (.ok ds) = .ok ds) :
    ∀ d ∈ ds, d.loc.move m = d.loc := by
  injection h with hds
  intro d hd
  have hself := List.map_inj_left.1 (hds.trans (List.map_id ds).symm) d hd
  rw [← Declaration.move_loc, hself]
  rfl

end Offside
