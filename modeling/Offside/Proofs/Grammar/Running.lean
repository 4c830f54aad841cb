import Offside.Proofs.Grammar.Steps

/-!
# How parsers run

What the steps of a parser yield on tokens that are known.

* `Parse.bind_eq`, `Parse.expect_eq`, `Parse.within_eq`, ...: single steps and blocks.
* `Parse.Outcome`, `Parse.ItemOutcome`: how an action, or an item of a sequence, ends that may be bad.
* `Parse.itemsUpTo_last`, `Parse.itemsUpTo_cons`: the first item of a sequence.
  `Parse.itemsUpTo_outcome`, `Parse.sequence_outcome`, `Parse.list_eq`, `Parse.afterCommas_eq`: items
  with separators between them.
* `Grammar.extendUpTo_halted`, `Grammar.extendUpTo_step`: a form that is continued by nothing, or by
  one more token. `Grammar.continueFrom_eq`, `Grammar.parse_eq`: a form from its first token on.
-/

namespace Offside

open Token Parser

namespace Parse

variable {α β : Type}

theorem bind_eq {x : Parse α} {f : α → Parse β} {p q : Parser} {a : α} (h : x p = .ok a q) :
    (x >>= f) p = f a q := by
  show EStateM.bind x f p = f a q
  unfold EStateM.bind
  rw [h]

theorem bind_error {x : Parse α} {f : α → Parse β} {p q : Parser} {e : Failure ParseError}
    (h : x p = .error e q) : (x >>= f) p = .error e q := by
  show EStateM.bind x f p = .error e q
  unfold EStateM.bind
  rw [h]

theorem expectToken_eq {expected : String} {p : Parser} {t : Token} {rest : List Token}
    (h : p.rest = t :: rest) : expectToken expected p = .ok t (p.pass t) := by
  unfold expectToken
  rw [h]

theorem expect_eq {expected : String} {fits : Token → Bool} {p : Parser} {t : Token}
    {rest : List Token} (h : p.rest = t :: rest) (hfits : fits t = true) :
    expect expected fits p = .ok t (p.pass t) := by
  unfold expect
  rw [h]
  simp only [hfits, if_true]

theorem expect_error {expected : String} {fits : Token → Bool} {p : Parser} {t : Token}
    {rest : List Token} (h : p.rest = t :: rest) (hfits : fits t = false) :
    expect expected fits p = .error (p.unexpected expected (some t)) p := by
  unfold expect
  rw [h]
  simp only [hfits, Bool.false_eq_true, if_false]

theorem accept_eq {fits : Token → Bool} {p : Parser} {t : Token} {rest : List Token}
    (h : p.rest = t :: rest) (hfits : fits t = true) :
    accept fits p = .ok (some t) (p.pass t) := by
  unfold accept
  rw [h]
  simp only [hfits, if_true]

theorem accept_none {fits : Token → Bool} {p : Parser}
    (h : ∀ t, p.rest.head? = some t → fits t = false) : accept fits p = .ok none p := by
  unfold accept
  cases hrest : p.rest with
  | nil => rfl
  | cons t rest =>
    have := h t (by rw [hrest]; rfl)
    simp only [this, Bool.false_eq_true, if_false]

theorem acceptElse_eq {p : Parser} {t : Token} {rest : List Token} (h : p.rest = t :: rest)
    (ht : t.isReserved .otherwise = true) : acceptElse p = .ok (some t) (p.pass t) := by
  unfold acceptElse
  rw [h]
  simp only [ht, if_true]

/-- An `else` with or without a semicolon before it. -/
theorem acceptElse_isElse {p : Parser} {ts rest : List Token} (hts : IsElse ts)
    (h : p.rest = ts ++ rest) : ∃ t, acceptElse p = .ok (some t) (p.passAll ts) := by
  obtain ⟨t, ht, rfl | ⟨u, hu, rfl⟩⟩ := hts
  · exact ⟨t, acceptElse_eq h ht⟩
  · have hword : u.isReserved .otherwise = false := by
      rw [isReserved, reserved?, if_neg (by rw [hu]; decide)]
      rfl
    refine ⟨t, ?_⟩
    unfold acceptElse
    rw [h]
    simp only [List.cons_append, hword, hu, ht, Bool.false_eq_true, if_false, and_self, if_true]
    rfl

/-- No `else` follows, neither here nor after a semicolon. -/
theorem acceptElse_none {p : Parser}
    (h : ∀ t us, p.rest = t :: us → t.isReserved .otherwise = false ∧
      ∀ u, us.head? = some u → u.isReserved .otherwise = false) : acceptElse p = .ok none p := by
  unfold acceptElse
  cases hrest : p.rest with
  | nil => rfl
  | cons t us =>
    obtain ⟨ht, hus⟩ := h t us hrest
    cases us with
    | nil => simp only [ht, Bool.false_eq_true, if_false]
    | cons u us => simp only [ht, hus u rfl, Bool.false_eq_true, and_false, if_false]

theorem isDone_true {p : Parser} (h : p.rest = []) : isDone p = .ok true p := by
  rw [isDone, h]
  rfl

theorem isDone_false {p : Parser} (h : p.rest ≠ []) : isDone p = .ok false p := by
  rw [isDone, List.isEmpty_eq_false_iff.2 h]

theorem expectEnd_eq {p : Parser} (h : p.rest = []) : expectEnd p = .ok () p := by
  unfold expectEnd
  rw [h]

/-- The value of an action that consumes all tokens. -/
theorem result_whole {action : Parse α} {p q : Parser} {a : α} (h : action p = .ok a q)
    (hend : q.rest = []) : result (do let a ← action; expectEnd; return a) p = .ok a := by
  unfold result
  rw [bind_eq h, bind_eq (expectEnd_eq hend)]
  rfl

/-- A block in braces holds statements. -/
theorem isBody_brace {t : Token} (h : t.blockKind? = some (.bracketed .brace)) : IsBody t := by
  rw [IsBody, h]
  rfl

/-- So does an indented block. -/
theorem isBody_indented {t : Token} (h : t.blockKind? = some .indented) : IsBody t := by
  rw [IsBody, h]
  rfl

theorem IsBody.kind {t : Token} (h : IsBody t) : t.kind = .block := by
  obtain ⟨kind, hkind, -⟩ := (Option.any_eq_true _ _).1 h
  exact kind_of_blockKind? hkind

theorem expectBody_eq {p : Parser} {t : Token} {rest : List Token} (h : p.rest = t :: rest)
    (ht : IsBody t) : expectBody p = .ok t (p.pass t) := expect_eq h ht

/-- Where errors at the end of a block are reported. -/
def endLoc? (block : Token) : Option Location :=
  if block.isBlock .indented then some block.loc.endPoint else block.loc.lastChar?

/-- An action on the interior of a block. -/
theorem within_eq {action : Parse α} {block : Token} {p q : Parser} {a : α} {l : Location}
    (hlast : endLoc? block = some l) (h : action (p.interior block l) = .ok a q)
    (hend : q.rest = []) (hloops : q.loops = p.loops) : within block action p = .ok a p := by
  unfold endLoc? at hlast
  unfold within inside
  simp only [hlast]
  rw [bind_eq h, bind_eq (expectEnd_eq hend)]
  show EStateM.Result.ok a { p with loops := q.loops } = .ok a p
  rw [hloops]

/-- A failing action on the interior of a block. -/
theorem within_error {action : Parse α} {block : Token} {p q : Parser} {e : Failure ParseError}
    {l : Location} (hlast : endLoc? block = some l)
    (h : action (p.interior block l) = .error e q) : ∃ r, within block action p = .error e r := by
  unfold endLoc? at hlast
  unfold within inside
  simp only [hlast]
  rw [bind_error h]
  exact ⟨_, rfl⟩

/-- The interior of a block is no part of the tokens around it. -/
theorem within_rest {action : Parse α} {block : Token} {p q : Parser} {a : α}
    (h : within block action p = .ok a q) : q.rest = p.rest := by
  unfold within inside at h
  dsimp only at h
  split at h
  · cases h
  · split at h
    · cases h
      rfl
    · cases h

/-- What follows an item of a sequence: nothing, or a separator and the other items. -/
def Follows (separator : TokenKind) (R : List Token → α → Prop) (rest : List Token) : Prop :=
  rest = [] ∨ ∃ t us b as, rest = t :: us ∧ t.kind = separator ∧ Separated separator R b us as

theorem Follows.kind {separator : TokenKind} {R : List Token → α → Prop} {rest : List Token}
    (h : Follows separator R rest) {t : Token} (ht : rest.head? = some t) : t.kind = separator := by
  rcases h with rfl | ⟨u, us, b, as, rfl, hu, -⟩
  · cases ht
  · cases ht
    exact hu

/-- How an action ends: with an error if it is bad, and otherwise with a value and a parser. -/
def Outcome (bad : Bool) (result : EStateM.Result (Failure ParseError) Parser α) (q : Parser)
    (P : α → Prop) : Prop :=
  if bad then ∃ e r, result = .error e r else ∃ a, result = .ok a q ∧ P a

section Outcome

variable {bad bad' : Bool} {p q r : Parser} {P : α → Prop} {Q : β → Prop}

theorem Outcome.of_ok {a : α} {result : EStateM.Result (Failure ParseError) Parser α}
    (h : result = .ok a q) (ha : P a) : Outcome false result q P := ⟨a, h, ha⟩

/-- What follows an action that is not bad may still be bad. -/
theorem Outcome.bind {x : Parse α} {f : α → Parse β} (hx : Outcome bad (x p) q P)
    (hf : ∀ a, P a → Outcome bad' (f a q) r Q) : Outcome (bad || bad') ((x >>= f) p) r Q := by
  cases bad with
  | true =>
    obtain ⟨e, p', hx⟩ := hx
    exact ⟨e, p', bind_error hx⟩
  | false =>
    obtain ⟨a, hx, ha⟩ := hx
    rw [Bool.false_or, bind_eq hx]
    exact hf a ha

/-- What follows an action only makes a value of its value. -/
theorem Outcome.map {x : Parse α} {f : α → Parse β} {g : α → β} (hx : Outcome bad (x p) q P)
    (hf : ∀ a, f a q = .ok (g a) q) (hg : ∀ a, P a → Q (g a)) :
    Outcome bad ((x >>= f) p) q Q := by
  have h : Outcome (bad || false) ((x >>= f) p) q Q := hx.bind fun a ha => .of_ok (hf a) (hg a ha)
  rwa [Bool.or_false] at h

/-- The value of an action, or its error. -/
theorem Outcome.result {action : Parse α} (h : Outcome bad (action p) q P) :
    if bad then ∃ e, action.result p = .error e else ∃ a, action.result p = .ok a ∧ P a := by
  unfold Parse.result
  cases bad with
  | true =>
    obtain ⟨e, q, herror⟩ := h
    rw [herror]
    exact ⟨e, rfl⟩
  | false =>
    obtain ⟨a, hok, ha⟩ := h
    rw [hok]
    exact ⟨a, rfl, ha⟩

/-- An action inside one more loop. -/
theorem Outcome.insideLoop {action : Parse α} {label? : Option String}
    (h : Outcome bad (action { p with loops := label? :: p.loops })
      { p with loops := label? :: p.loops } P) : Outcome bad (insideLoop label? action p) p P := by
  unfold Parse.insideLoop
  cases bad with
  | true =>
    obtain ⟨e, r, h⟩ := h
    rw [h]
    exact ⟨e, _, rfl⟩
  | false =>
    obtain ⟨a, h, ha⟩ := h
    rw [h]
    exact ⟨a, rfl, ha⟩

end Outcome

/-- How an item fails that is followed by a separator or by nothing: it is an error, or it stops
before something else. -/
def Fails (separator : TokenKind) (result : EStateM.Result (Failure ParseError) Parser α) : Prop :=
  (∃ e q, result = .error e q) ∨
    ∃ a q t, result = .ok a q ∧ q.rest.head? = some t ∧ t.kind ≠ separator

/-- How an item of a sequence ends: it fails if it is bad. -/
def ItemOutcome (separator : TokenKind) (bad : Bool)
    (result : EStateM.Result (Failure ParseError) Parser α) (q : Parser) (P : α → Prop) : Prop :=
  if bad then Fails separator result else ∃ a, result = .ok a q ∧ P a

theorem Outcome.item {bad : Bool} {result : EStateM.Result (Failure ParseError) Parser α}
    {q : Parser} {P : α → Prop} (h : Outcome bad result q P) (separator : TokenKind) :
    ItemOutcome separator bad result q P := by
  cases bad with
  | true => exact .inl h
  | false => exact h

section itemsUpTo

variable {separator : TokenKind} {item : Parse α} {bound : Nat} {p q : Parser} {a : α}

/-- The only item of a sequence. -/
theorem itemsUpTo_last (hp : p.rest ≠ []) (hitem : item p = .ok a q) (hq : q.rest = []) :
    itemsUpTo separator item (bound + 1) p = .ok ([a], false) q := by
  unfold itemsUpTo
  rw [bind_eq (isDone_false hp)]
  simp only [Bool.false_eq_true, if_false]
  rw [bind_eq hitem, bind_eq (isDone_true hq)]
  rfl

/-- An item before a separator and what is read of the other items. -/
theorem itemsUpTo_cons {t : Token} {ts : List Token} (hp : p.rest ≠ []) (hitem : item p = .ok a q)
    (hq : q.rest = t :: ts) (ht : t.kind = separator) :
    itemsUpTo separator item (bound + 1) p
      = (itemsUpTo separator item bound >>= fun others => pure (a :: others.1, true)) (q.pass t) := by
  have hq' : q.rest ≠ [] := by
    rw [hq]
    exact List.cons_ne_nil t ts
  rw [itemsUpTo, bind_eq (isDone_false hp)]
  simp only [Bool.false_eq_true, if_false]
  rw [bind_eq hitem, bind_eq (isDone_false hq')]
  simp only [Bool.false_eq_true, if_false]
  rw [bind_eq (show (get : Parse Parser) q = .ok q q from rfl),
    bind_eq (expect_eq hq (by simpa using ht))]

/-- A failing item fails the whole sequence. -/
theorem itemsUpTo_fails (hp : p.rest ≠ []) (h : Fails separator (item p)) :
    ∃ e q, itemsUpTo separator item (bound + 1) p = .error e q := by
  unfold itemsUpTo
  rw [bind_eq (isDone_false hp)]
  simp only [Bool.false_eq_true, if_false]
  rcases h with ⟨e, q, h⟩ | ⟨a, q, t, h, ht, hkind⟩
  · exact ⟨e, q, bind_error h⟩
  · obtain ⟨rest, hrest⟩ := List.head?_eq_some_iff.1 ht
    have hkind' : (t.kind == separator) = false := beq_eq_false_iff_ne.2 hkind
    have hmore : q.rest ≠ [] := by
      rw [hrest]
      exact List.cons_ne_nil t rest
    rw [bind_eq h, bind_eq (isDone_false hmore)]
    simp only [Bool.false_eq_true, if_false]
    rw [bind_eq (show (get : Parse Parser) q = .ok q q from rfl)]
    exact ⟨_, q, bind_error (expect_error hrest hkind')⟩

end itemsUpTo

/-- Items up to the end of the tokens, if every item that is not bad is read before what follows it.
The value of an item is given up to a function. A bad item makes the whole sequence an error. -/
theorem itemsUpTo_outcome {separator : TokenKind} {item : Parse α} {R : List Token → α → Prop}
    {f : α → β} {bad : α → Bool} {loops : List (Option String)}
    (hitem : ∀ ts a p rest, R ts a → p.loops = loops → p.rest = ts ++ rest →
      Follows separator R rest →
      ItemOutcome separator (bad a) (item p) (p.passAll ts) fun a' => f a' = f a)
    (hne : ∀ ts a, R ts a → ts ≠ []) {b : Bool} {ts : List Token} {as : List α}
    (h : Separated separator R b ts as) {bound : Nat} {p : Parser} (hp : p.rest = ts)
    (hloops : p.loops = loops) (hbound : ts.length ≤ bound) :
    Outcome (as.any bad) (itemsUpTo separator item bound p) (p.passAll ts) fun r =>
      r.1.map f = as.map f ∧ r.2 = b := by
  induction h generalizing bound p with
  | nil => exact .of_ok (itemsUpTo_nil hp) ⟨rfl, rfl⟩
  | @last ts a hR =>
    have hne' := hne _ _ hR
    obtain ⟨bound, rfl⟩ : ∃ n, bound = n + 1 :=
      ⟨bound - 1, by have := List.length_pos_iff.2 hne'; omega⟩
    rw [← hp] at hne'
    have hp' : p.rest = ts ++ [] := by rw [hp, List.append_nil]
    have hfirst := hitem _ _ p [] hR hloops hp' (.inl rfl)
    rw [List.any_cons, List.any_nil, Bool.or_false]
    cases hbad : bad a with
    | true =>
      rw [hbad] at hfirst
      exact itemsUpTo_fails hne' hfirst
    | false =>
      rw [hbad] at hfirst
      obtain ⟨a', ha', hf⟩ := hfirst
      exact .of_ok (itemsUpTo_last hne' ha' (passAll_rest hp')) ⟨by simp [hf], rfl⟩
  | @more ts us a as t b hR ht others ih =>
    have hlength := List.length_pos_iff.2 (hne _ _ hR)
    rw [List.length_append, List.length_cons] at hbound
    obtain ⟨bound, rfl⟩ : ∃ n, bound = n + 1 := ⟨bound - 1, by omega⟩
    have hne' : p.rest ≠ [] := by
      rw [hp]
      exact fun h => hne _ _ hR (List.append_eq_nil_iff.1 h).1
    have hfirst := hitem _ _ p (t :: us) hR hloops hp (.inr ⟨t, us, b, as, rfl, ht, others⟩)
    rw [List.any_cons]
    cases hbad : bad a with
    | true =>
      rw [hbad] at hfirst
      exact itemsUpTo_fails hne' hfirst
    | false =>
      rw [hbad] at hfirst
      obtain ⟨a', ha', hf⟩ := hfirst
      have hrest : (p.passAll ts).rest = t :: us := passAll_rest hp
      have hus : ((p.passAll ts).pass t).rest = us := by rw [pass_rest, hrest]; rfl
      have hothers := ih hus (by rw [pass_loops, passAll_loops, hloops])
        (show us.length ≤ bound by omega)
      rw [Bool.false_or, itemsUpTo_cons hne' ha' hrest ht, passAll_append, passAll_cons]
      refine hothers.map (g := fun r => (a' :: r.1, true)) (fun _ => rfl) ?_
      rintro ⟨as', b'⟩ ⟨hmap, -⟩
      exact ⟨by rw [List.map_cons, List.map_cons, hf, hmap], rfl⟩

/-- Items with semicolons between them, up to the end of the tokens. -/
theorem sequence_outcome {item : Parse α} {R : List Token → α → Prop} {f : α → β} {bad : α → Bool}
    {loops : List (Option String)}
    (hitem : ∀ ts a p rest, R ts a → p.loops = loops → p.rest = ts ++ rest →
      Follows .semicolon R rest →
      ItemOutcome .semicolon (bad a) (item p) (p.passAll ts) fun a' => f a' = f a)
    (hne : ∀ ts a, R ts a → ts ≠ []) {b : Bool} {ts : List Token} {as : List α}
    (h : Separated .semicolon R b ts as) {p : Parser} (hp : p.rest = ts) (hloops : p.loops = loops) :
    Outcome (as.any bad) (sequence item p) (p.passAll ts) fun as' => as'.map f = as.map f := by
  have hitems := itemsUpTo_outcome hitem hne h hp hloops (Nat.le_refl _)
  rw [← hp] at hitems
  unfold sequence
  rw [map_eq_pure_bind, ← hp]
  exact Outcome.map hitems (g := Prod.fst) (fun _ => rfl) fun _ h => h.1

/-- A list of items with commas between them. -/
theorem list_eq {item : Parse α} {R : List Token → α → Prop} {f : α → β}
    {loops : List (Option String)}
    (hitem : ∀ ts a p rest, R ts a → p.loops = loops → p.rest = ts ++ rest →
      Follows .comma R rest →
      ∃ a', item p = .ok a' (p.passAll ts) ∧ f a' = f a)
    (hne : ∀ ts a, R ts a → ts ≠ []) {b : Bool} {ts : List Token} {as : List α}
    (h : Separated .comma R b ts as) {p : Parser} (hp : p.rest = ts) (hloops : p.loops = loops) :
    ∃ as', list item p = .ok (as', b) (p.passAll ts) ∧ as'.map f = as.map f := by
  have hlength : ts.length ≤ p.rest.length := Nat.le_of_eq (congrArg List.length hp.symm)
  have hitems := @itemsUpTo_outcome _ _ _ _ _ _ (fun _ => false) _ hitem hne _ _ _ h _ _ hp hloops
    hlength
  have hgood : (as.any fun _ => false) = false := by simp
  rw [hgood] at hitems
  obtain ⟨⟨as', b'⟩, hok, hmap, rfl⟩ := hitems
  exact ⟨as', hok, hmap⟩

/-- Without a comma there are no further items. -/
theorem afterCommasUpTo_none {item : Parse α} {p : Parser} (bound : Nat)
    (h : ∀ t, p.rest.head? = some t → t.kind ≠ .comma) :
    afterCommasUpTo item bound p = .ok [] p := by
  cases bound with
  | zero => rfl
  | succ bound =>
    have hnone : accept (·.kind == .comma) p = .ok none p :=
      accept_none fun t ht => beq_eq_false_iff_ne.2 (h t ht)
    rw [afterCommasUpTo, bind_eq hnone]
    rfl

/-- Items after commas, as long as there is one, if every item is read before what follows it. -/
theorem afterCommas_eq {item : Parse α} {R : List Token → α → Prop} {f : α → β}
    {follows : List Token → Prop}
    (hitem : ∀ ts a p rest, R ts a → p.rest = ts ++ rest → follows rest →
      ∃ a', item p = .ok a' (p.passAll ts) ∧ f a' = f a)
    (hcomma : ∀ t us, t.kind = .comma → follows (t :: us)) {ts rest : List Token} {as : List α}
    (h : AfterCommas R ts as) {p : Parser} (hp : p.rest = ts ++ rest) (hrest : follows rest)
    (hstop : ∀ t, rest.head? = some t → t.kind ≠ .comma) :
    ∃ as', afterCommas item p = .ok as' (p.passAll ts) ∧ as'.map f = as.map f := by
  have hbound : ts.length ≤ p.rest.length := by
    rw [hp, List.length_append]
    exact Nat.le_add_right _ _
  unfold afterCommas
  generalize p.rest.length = bound at hbound
  induction h generalizing p bound with
  | nil =>
    rw [List.nil_append] at hp
    exact ⟨[], afterCommasUpTo_none bound fun t ht => hstop t (hp ▸ ht), rfl⟩
  | @cons ts us a as t ht hR others ih =>
    obtain ⟨bound, rfl⟩ : ∃ n, bound = n + 1 :=
      ⟨bound - 1, by rw [List.length_cons] at hbound; omega⟩
    have hfollows : follows (us ++ rest) := by
      cases others with
      | nil => exact hrest
      | cons ht' _ _ => exact hcomma _ _ ht'
    have hp₁ : (p.pass t).rest = ts ++ (us ++ rest) := by
      rw [pass_rest, hp]
      simp
    obtain ⟨a', ha', hf⟩ := hitem ts a (p.pass t) _ hR hp₁ hfollows
    have hlength : us.length ≤ bound := by
      rw [List.length_cons, List.length_append] at hbound
      omega
    obtain ⟨as', has', hmap⟩ := ih (passAll_rest hp₁) bound hlength
    refine ⟨a' :: as', ?_, by rw [List.map_cons, List.map_cons, hf, hmap]⟩
    have hcomma : accept (·.kind == .comma) p = .ok (some t) (p.pass t) :=
      accept_eq hp (beq_iff_eq.2 ht)
    rw [afterCommasUpTo, bind_eq hcomma]
    dsimp only
    rw [bind_eq ha', bind_eq has', passAll_cons, passAll_append]
    rfl

end Parse

/-! ## Grammars -/

namespace Grammar

open Parse

variable {α : Type} {g : Grammar α} {power : Nat} {p q : Parser} {t : Token} {rest : List Token}
  {form form' : α}

theorem extendUpTo_halted (h : Halted g power p) (n : Nat) (form : α) :
    g.extendUpTo power n form p = .ok form p := by
  cases n with
  | zero => rfl
  | succ n =>
    unfold extendUpTo
    split
    · rfl
    · rename_i t rest hrest
      split
      · rfl
      · rename_i extension hextension
        have := h t extension (by rw [hrest]; rfl) hextension
        rw [if_neg (Nat.not_lt.2 this)]

theorem extendUpTo_step {extension : Extension α} (hrest : p.rest = t :: rest)
    (hextend : g.extend? p t = some extension) (hpower : power < extension.power)
    (hcombine : extension.combine form (p.pass t) = .ok form' q) (n : Nat) :
    g.extendUpTo power (n + 1) form p = g.extendUpTo power n form' q := by
  rw [extendUpTo]
  simp only [hrest, hextend, hpower, if_true]
  exact bind_eq hcombine

theorem continueFrom_eq (h : g.start t p = .ok form q) :
    g.continueFrom power t p = g.extendUpTo power q.rest.length form q := by
  unfold continueFrom
  rw [bind_eq h]
  rfl

theorem parse_eq (h : p.rest = t :: rest) :
    g.parse power p = g.continueFrom power t (p.pass t) := by
  unfold parse
  exact bind_eq (expectToken_eq h)

/-- Where nothing continues a form, it is what its first token begins. -/
theorem parse_eq_start (hextend : ∀ p t, g.extend? p t = none) (h : p.rest = t :: rest) :
    g.parse power p = g.start t (p.pass t) := by
  rw [parse_eq h]
  cases hstart : g.start t (p.pass t) with
  | ok form q =>
    rw [continueFrom_eq hstart]
    exact extendUpTo_halted (fun u extension _ hu => by rw [hextend] at hu; cases hu) _ form
  | error e q =>
    unfold continueFrom
    exact bind_error hstart

end Grammar

end Offside
