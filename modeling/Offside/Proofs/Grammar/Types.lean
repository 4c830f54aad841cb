import Offside.Proofs.Grammar.Derivation

/-!
# Types that are read

Every type that the grammar of types reads has a derivation.

* `Location.covers_whole`, `Location.covers_end`, `Location.covers_block`: when a location covers
  tokens.
* `TypeExpr.Begins`, `TypeExpr.start_cases`: the ways in which a type begins.
* `TypeExpr.grammar_reads`: the grammar of types reads derivable types only.
-/

namespace Offside

open Token Parse Parser

/-! ## Covering -/

namespace Location

/-- A location that spans all tokens of a node covers it with the parts among its tokens. -/
theorem covers_whole {l : Location} {ts : List Token} {parts : List Location} (h : l.Spans ts)
    (ho : Ordered ts) (hparts : ∀ part ∈ parts, part.Amid ts) : l.Covers [] ts parts :=
  ⟨h, ⟨fun _ => rfl, fun _ => h⟩, fun part hpart => (hparts part hpart).within h ho⟩

/-- A location that spans the tokens of a node from some token on covers it with the parts among
those tokens. -/
theorem covers_end {l : Location} {s ts : List Token} {parts : List Location} (h : l.Spans ts)
    (ho : Ordered (s ++ ts)) (hs : ∀ t, s.head? = some t → t.kind ≠ .semicolon)
    (hparts : ∀ part ∈ parts, part.Amid ts) : l.Covers s ts parts := by
  refine ⟨h, ⟨fun hall => ?_, ?_⟩, fun part hpart => ?_⟩
  · cases s with
    | nil => rfl
    | cons t us => exact absurd hall (h.not_append ho rfl (hs t rfl))
  · rintro rfl
    exact h
  · exact (hparts part hpart).within h ho.of_append.2

/-- A token covers itself with what is among its interior. -/
theorem covers_block {t : Token} {parts : List Location} (ht : t.Proper)
    (hparts : ∀ part ∈ parts, part.Amid t.children) : t.loc.Covers [] [t] parts := by
  refine covers_whole (spans_singleton t) ?_ fun part hpart => (hparts part hpart).interior []
  exact ⟨t.loc.start, t.loc.stop, inOrder_cons.2 ⟨Cursor.le_refl _, ht,
    inOrder_nil.2 (Cursor.le_refl _)⟩⟩

end Location

open Location

/-! ## Types -/

/-- The size of a buffer is read from the interior of its brackets. -/
theorem BufferSize.read_reads (loops : List (Option String)) :
    Reads loops BufferSize.read BufferSize.ReadFrom := by
  intro p size q hp ho hok
  unfold BufferSize.read at hok
  obtain ⟨t?, r, ht, hrest⟩ := bind_ok.1 hok
  rcases advance_ok ht with ⟨rfl, rfl, -⟩ | ⟨t, rfl, hused⟩
  · obtain ⟨rfl, rfl⟩ := pure_ok.1 hrest
    exact ⟨[], Consumes.refl _, .unknown⟩
  · have hproper : t.Proper := hused.proper ho
    obtain ⟨hname, hnumeral, -⟩ := (proper_iff t).1 hproper
    refine ⟨[t], ?_⟩
    dsimp only at hrest
    split at hrest
    · rename_i hkind
      obtain ⟨rfl, rfl⟩ := pure_ok.1 hrest
      exact ⟨hused, .literal hkind (hnumeral hkind)⟩
    · split at hrest
      · rename_i hkind
        obtain ⟨rfl, rfl⟩ := pure_ok.1 hrest
        exact ⟨hused, .external hkind (hname hkind)⟩
      · exact absurd hrest unexpected_ne_ok

namespace TypeExpr

@[simp] theorem relocate_loc (type : TypeExpr) (l : Location) : (type.relocate l).loc = l := by
  cases type <;> rfl

@[simp] theorem relocate_parts (type : TypeExpr) (l : Location) :
    (type.relocate l).parts = type.parts := by
  cases type <;> rfl

@[simp] theorem withModality_parts (type : TypeExpr) (m : Modality) :
    (type.withModality m).parts = type.parts := by
  cases type <;> rfl

/-- The location of a type spans its tokens. -/
theorem ReadFrom.spans {ts : List Token} {type : TypeExpr} (h : ReadFrom ts type) :
    type.loc.Spans ts := by
  cases h with
  | unknown | ground | unit => exact spans_singleton _
  | paren _ _ located | varMark _ _ located =>
    rw [relocate_loc]
    exact located.spans
  | tuple _ _ located | pointer _ _ located | buffer _ _ _ located | arrow _ _ _ located =>
    exact located.spans

/-- The parts of a type are among its tokens. -/
theorem ReadFrom.parts_amid {ts : List Token} {type : TypeExpr} (h : ReadFrom ts type) :
    ∀ part ∈ type.parts, part.Amid ts := by
  intro part hpart
  refine h.spans.amid.of_within ?_
  cases h with
  | unknown | ground | unit => exact absurd hpart List.not_mem_nil
  | paren _ _ located =>
    rw [relocate_parts] at hpart
    rw [relocate_loc]
    exact located.contains part hpart
  | varMark _ _ located =>
    rw [relocate_parts, withModality_parts] at hpart
    rw [relocate_loc]
    exact located.contains part hpart
  | tuple _ _ located | pointer _ _ located | buffer _ _ _ located | arrow _ _ _ located =>
    exact located.contains part hpart

/-- The members of a list of types are among its tokens. -/
theorem ListFrom.amid {comma : Bool} {ts : List Token} {types : List TypeExpr}
    (h : ListFrom comma ts types) : ∀ part ∈ types.map loc, part.Amid ts := by
  induction types generalizing comma ts with
  | nil => exact fun part hpart => absurd hpart List.not_mem_nil
  | cons type types ih =>
    intro part hpart
    rw [List.map_cons, List.mem_cons] at hpart
    cases h with
    | last h =>
      rcases hpart with rfl | hpart
      · exact h.spans.amid
      · exact absurd hpart List.not_mem_nil
    | more h _ others =>
      rcases hpart with rfl | hpart
      · exact h.spans.amid.append_left _
      · exact ((ih others part hpart).cons _).append_right _

/-- A list of derivable types is derivable. -/
theorem ListFrom.of_separated {comma : Bool} {ts : List Token} {types : List TypeExpr}
    (h : Separated .comma ReadFrom comma ts types) : ListFrom comma ts types := by
  induction h with
  | nil => exact .nil
  | last h => exact .last h
  | more h ht _ ih => exact .more h ht ih

/-- What stands in parentheses is read as the unit type, as one type or as a tuple. -/
theorem ofMembers_reads {t : Token} {comma : Bool} {members : List TypeExpr} (ht : t.Proper)
    (hblock : t.blockKind? = some (.bracketed .paren)) (h : ListFrom comma t.children members) :
    ReadFrom [t] (ofMembers t.loc (members, comma)) := by
  have hbracket : t.isBlock (.bracketed .paren) := isBlock_iff.2 hblock
  have htuple : ∀ {members}, ListFrom true t.children members →
      ReadFrom [t] (.tuple t.loc .immutable members) :=
    fun h => .tuple hbracket h (covers_block ht h.amid)
  have hparen : ∀ {type}, ReadFrom t.children type → ReadFrom [t] (type.relocate t.loc) :=
    fun h => .paren hbracket h (covers_block ht h.parts_amid)
  generalize hchildren : t.children = ts at h hparen htuple
  cases h with
  | nil => exact .unit hbracket hchildren
  | last h => exact hparen h
  | more h separator others =>
    have htuple := htuple (.more h separator others)
    cases others with
    | nil | last | more => exact htuple

/-- What has been read of a type that begins with a token: one form for each way to begin. -/
inductive Begins (parts : Grammar TypeExpr) (t : Token) (p : Parser) : TypeExpr → Parser → Prop
  | unknown (word : t.is .identifier "_") : Begins parts t p (.unknown t.loc .immutable) p
  | ground {g : Ground} (kind : t.kind = .identifier) (name : Ground.ofName? t.text = some g) :
      Begins parts t p (.ground t.loc .immutable g) p
  | varMark {inner : TypeExpr} {q : Parser} (word : t.isReserved .varMark)
      (parse : parts.parse arrowPower p = .ok inner q) :
      Begins parts t p ((inner.withModality .mutable).relocate (t.loc.join inner.loc)) q
  | pointer {pointee : TypeExpr} {q : Parser} (star : isStar t)
      (parse : parts.parse arrowPower p = .ok pointee q) :
      Begins parts t p (.pointer (t.loc.join pointee.loc) .immutable pointee) q
  | group {members : List TypeExpr × Bool} {q : Parser}
      (block : t.blockKind? = some (.bracketed .paren))
      (parse : Parse.within t (Parse.list (parts.parse 0)) p = .ok members q) :
      Begins parts t p (ofMembers t.loc members) q
  | buffer {size : BufferSize} {element : TypeExpr} {r q : Parser}
      (block : t.blockKind? = some (.bracketed .square))
      (read : Parse.within t BufferSize.read p = .ok size r)
      (parse : parts.parse arrowPower r = .ok element q) :
      Begins parts t p (.buffer (t.loc.join element.loc) .immutable size element) q

/-- A type begins in one of these ways. -/
theorem start_cases {parts : Grammar TypeExpr} {t : Token} {p q : Parser} {type : TypeExpr}
    (hok : start parts t p = .ok type q) : Begins parts t p type q := by
  unfold start at hok
  split at hok
  · rename_i hkind
    split at hok
    · rename_i hword
      obtain ⟨rfl, rfl⟩ := pure_ok.1 hok
      exact .unknown (by simp [Token.is, hkind, hword])
    · cases hground : Ground.ofName? t.text with
      | none =>
        simp only [hground] at hok
        exact absurd hok unexpected_ne_ok
      | some g =>
        simp only [hground] at hok
        obtain ⟨rfl, rfl⟩ := pure_ok.1 hok
        exact .ground hkind hground
  · split at hok
    · rename_i hword
      obtain ⟨inner, r, hinner, hok⟩ := bind_ok.1 hok
      obtain ⟨rfl, rfl⟩ := pure_ok.1 hok
      exact .varMark hword hinner
    · split at hok
      · rename_i hstar
        obtain ⟨pointee, r, hpointee, hok⟩ := bind_ok.1 hok
        obtain ⟨rfl, rfl⟩ := pure_ok.1 hok
        exact .pointer hstar hpointee
      · rcases hblock : t.blockKind? with _ | ((_ | _ | _ | _) | _)
        case some.bracketed.paren =>
          simp only [hblock] at hok
          obtain ⟨members, r, hmembers, hok⟩ := bind_ok.1 hok
          obtain ⟨rfl, rfl⟩ := pure_ok.1 hok
          exact .group hblock hmembers
        case some.bracketed.square =>
          simp only [hblock] at hok
          obtain ⟨size, r, hsize, hok⟩ := bind_ok.1 hok
          obtain ⟨element, r', helement, hok⟩ := bind_ok.1 hok
          obtain ⟨rfl, rfl⟩ := pure_ok.1 hok
          exact .buffer hblock hsize helement
        all_goals
          simp only [hblock] at hok
          exact absurd hok unexpected_ne_ok

/-- Reading a type that begins with a token, given that its parts are read. -/
theorem start_reads {parts : Grammar TypeExpr}
    (hparts : ∀ loops power, Reads loops (parts.parse power) ReadFrom) {t : Token} {p q : Parser}
    {type : TypeExpr} (ho : Ordered (t :: p.rest)) (hok : start parts t p = .ok type q) :
    ∃ more, p.Consumes more q ∧ ReadFrom (t :: more) type := by
  cases start_cases hok with
  | unknown word => exact ⟨[], Consumes.refl _, .unknown word⟩
  | ground kind name => exact ⟨[], Consumes.refl _, .ground kind name⟩
  | varMark word parse =>
    obtain ⟨used, hused, hread⟩ := hparts _ _ _ _ _ rfl ho.tail parse
    have hall : Ordered (t :: used) := (hused.ordered_before (s := [t]) ho).1
    refine ⟨used, hused, .varMark word hread ?_⟩
    refine covers_whole ((spans_singleton t).join (s := []) hread.spans hall) hall ?_
    exact fun part hpart => (hread.parts_amid part hpart).cons t
  | pointer star parse =>
    obtain ⟨used, hused, hread⟩ := hparts _ _ _ _ _ rfl ho.tail parse
    have hall : Ordered (t :: used) := (hused.ordered_before (s := [t]) ho).1
    refine ⟨used, hused, .pointer star hread ?_⟩
    refine covers_whole ((spans_singleton t).join (s := []) hread.spans hall) hall ?_
    simpa using hread.spans.amid.cons t
  | group block parse =>
    obtain ⟨rfl, hlist⟩ := (Reads.list (hparts _ _)).within rfl ho.head parse
    exact ⟨[], Consumes.refl _, ofMembers_reads ho.head block (.of_separated hlist)⟩
  | buffer block read parse =>
    obtain ⟨rfl, hinterior⟩ := (BufferSize.read_reads _).within rfl ho.head read
    obtain ⟨used, hused, hread⟩ := hparts _ _ _ _ _ rfl ho.tail parse
    have hall : Ordered (t :: used) := (hused.ordered_before (s := [t]) ho).1
    refine ⟨used, hused, .buffer (isBlock_iff.2 block) hinterior hread ?_⟩
    refine covers_whole ((spans_singleton t).join (s := []) hread.spans hall) hall ?_
    simpa using hread.spans.amid.cons t

/-- The grammar of types reads derivable types only. -/
theorem grammar_reads (level : Nat) (loops : List (Option String)) (power : Nat) :
    Reads loops ((grammar level).parse power) ReadFrom := by
  induction level generalizing loops power with
  | zero =>
    intro p type q _ _ hok
    obtain ⟨t, -, hok⟩ := Grammar.parse_ok hok
    obtain ⟨form, r, hstart, -⟩ := bind_ok.1 hok
    exact absurd hstart unexpected_ne_ok
  | succ level ih =>
    intro p type q hp ho hok
    obtain ⟨t, ht, hok⟩ := Grammar.parse_ok hok
    have hkeeps : (grammar (level + 1)).Keeps power
        fun used form r => ReadFrom used form ∧ Ordered (used ++ r.rest) := by
      intro used domain r t' extension form' r' hinv hhead hextend _ hcombine
      change extend? (grammar level) t' = some extension at hextend
      unfold extend? at hextend
      split at hextend
      · rename_i hsign
        cases hextend
        obtain ⟨codomain, r'', hcodomain, hcombine⟩ := bind_ok.1 hcombine
        obtain ⟨rfl, rfl⟩ := pure_ok.1 hcombine
        obtain ⟨rest, hrest⟩ := List.head?_eq_some_iff.1 hhead
        have ht' := Consumes.one hrest
        have horest := (ht'.ordered_before hinv.2).2
        obtain ⟨more, hmore, hread⟩ := ih _ _ _ _ _ rfl horest.of_append.2 hcodomain
        have hall := hmore.ordered_before horest
        rw [List.append_assoc] at hall
        refine ⟨more, hmore, ?_, hall.2⟩
        refine .arrow hinv.1 hsign hread ?_
        refine covers_whole (hinv.1.spans.join (s := [t']) hread.spans hall.1) hall.1 ?_
        simp only [List.mem_cons, List.not_mem_nil, or_false]
        rintro part (rfl | rfl)
        · exact hinv.1.spans.amid.append_left _
        · exact (hread.spans.amid.cons t').append_right _
      · cases hextend
    obtain ⟨more, hmore, hinv, -⟩ := Grammar.continueFrom_ok hkeeps (fun form' r hstart => by
      have hot := ht.ordered_cons ho
      obtain ⟨more, hmore, hread⟩ := start_reads ih hot hstart
      exact ⟨more, hmore, hread, (hmore.ordered_before (s := [t]) hot).2⟩) hok
    exact ⟨t :: more, ht.trans hmore, hinv.1⟩

end TypeExpr

end Offside
