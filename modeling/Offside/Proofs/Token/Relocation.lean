import Offside.Proofs.Source.Relocation
import Offside.Proofs.Token.Order

/-!
# Tokens that are moved

* `Token.move`: a token moved with its interior. It keeps its class, its meaning and its size.
* `Token.Every`: what holds of a token and of all tokens inside it. `Token.InOrder.every`: tokens
  between two cursors lie between them with their interiors.
* `Token.Wide`: a token that ends after the first column, as every token with a character does.
* `Token.Suits`: the locations of a token, and of all tokens inside it, are among those that a
  relocation covers, and its blocks have a closer. `Token.move_eq_self`: a token of which no
  location moves.
-/

namespace Offside

namespace Token

/-! ## Properties of whole trees -/

/-- What is shown of a token from its interior holds of every token. -/
theorem induction_children {motive : Token → Prop}
    (step : ∀ t, (∀ c ∈ t.children, motive c) → motive t) (t : Token) : motive t := by
  have hmem : ∀ {ts : List Token} {c : Token}, c ∈ ts → c.weight ≤ totalWeight ts := by
    intro ts c hc
    obtain ⟨before, after, rfl⟩ := List.append_of_mem hc
    simp only [totalWeight_append, totalWeight_cons]
    omega
  induction hn : t.weight using Nat.strongRecOn generalizing t with
  | ind n ih =>
    subst hn
    refine step t fun c hc => ih c.weight ?_ c rfl
    have := hmem hc
    rw [weight_eq t]
    omega

/-- What holds of a token and of all tokens inside it. -/
inductive Every (P : Token → Prop) : Token → Prop
  | intro {t : Token} (here : P t) (inside : ∀ c ∈ t.children, Every P c) : Every P t

variable {P Q : Token → Prop} {t : Token}

theorem Every.here (h : t.Every P) : P t := by
  cases h
  assumption

theorem Every.inside (h : t.Every P) {c : Token} (hc : c ∈ t.children) : c.Every P := by
  cases h with
  | intro _ inside => exact inside c hc

theorem Every.mono (h : t.Every P) (hPQ : ∀ u, P u → Q u) : t.Every Q := by
  induction h with
  | intro here _ ih => exact .intro (hPQ _ here) ih

theorem Every.and (hP : t.Every P) (hQ : t.Every Q) : t.Every fun u => P u ∧ Q u := by
  induction hP with
  | intro here _ ih => exact .intro ⟨here, hQ.here⟩ fun c hc => ih c hc (hQ.inside hc)

/-- What holds of all tokens in every one of some cases holds of each token in all these cases. -/
theorem Every.forall {α : Type} {p : α → Prop} {R : α → Token → Prop}
    (h : ∀ a, p a → t.Every (R a)) : t.Every fun u => ∀ a, p a → R a u := by
  induction t using induction_children with
  | step t ih =>
    exact .intro (fun a ha => (h a ha).here)
      fun c hc => ih c hc fun a ha => (h a ha).inside hc

/-- Tokens between two cursors lie between them with their interiors. -/
theorem InOrder.every {a b : Cursor} {ts : List Token} (h : InOrder a b ts) :
    ∀ t ∈ ts, t.Every fun u => a ≤ u.loc.start ∧ u.loc.stop ≤ b := by
  have hproper : ∀ t : Token, t.Proper → a ≤ t.loc.start → t.loc.stop ≤ b →
      t.Every fun u => a ≤ u.loc.start ∧ u.loc.stop ≤ b := by
    intro t
    induction t using induction_children with
    | step t ih =>
      intro ht hstart hstop
      refine .intro ⟨hstart, hstop⟩ fun c hc => ?_
      obtain ⟨before, after, hsplit⟩ := List.append_of_mem hc
      have hinterior := ht.interior
      rw [hsplit] at hinterior
      obtain ⟨i, hbefore, hafter⟩ := inOrder_append.1 hinterior
      obtain ⟨hi, hcproper, hlast⟩ := inOrder_cons.1 hafter
      exact ih c hc hcproper (Cursor.le_trans hstart (Cursor.le_trans hbefore.le hi))
        (Cursor.le_trans hlast.le hstop)
  intro t ht
  obtain ⟨before, after, rfl⟩ := List.append_of_mem ht
  obtain ⟨i, hbefore, hafter⟩ := inOrder_append.1 h
  obtain ⟨hi, htproper, hlast⟩ := inOrder_cons.1 hafter
  exact hproper t htproper (Cursor.le_trans hbefore.le hi) hlast.le

/-- A token that ends after the first column. -/
def Wide (t : Token) : Prop := 2 ≤ t.loc.stop.col

/-! ## Moving -/

variable (m : Relocation)

mutual

/-- A token moved with its interior. -/
def move : Token → Token
  | ⟨kind, text, loc, children⟩ => ⟨kind, text, loc.move m, moveAll children⟩

/-- Some tokens moved with their interiors. -/
def moveAll : List Token → List Token
  | [] => []
  | t :: ts => move t :: moveAll ts

end

theorem moveAll_eq (ts : List Token) : moveAll m ts = ts.map (move m) := by
  induction ts with
  | nil => rw [moveAll, List.map_nil]
  | cons t ts ih => rw [moveAll, List.map_cons, ih]

/-- What a token is after it is moved, said of its parts. -/
theorem move_eq (t : Token) :
    t.move m = ⟨t.kind, t.text, t.loc.move m, t.children.map (move m)⟩ := by
  cases t
  rw [move, moveAll_eq]

@[simp] theorem move_kind (t : Token) : (t.move m).kind = t.kind := by rw [move_eq]

@[simp] theorem move_text (t : Token) : (t.move m).text = t.text := by rw [move_eq]

@[simp] theorem move_loc (t : Token) : (t.move m).loc = t.loc.move m := by rw [move_eq]

@[simp] theorem move_children (t : Token) : (t.move m).children = t.children.map (move m) := by
  rw [move_eq]

@[simp] theorem move_reserved? (t : Token) : (t.move m).reserved? = t.reserved? := by
  rw [reserved?, move_kind, move_text, reserved?]

@[simp] theorem move_isReserved (t : Token) (word : Reserved) :
    (t.move m).isReserved word = t.isReserved word := by
  rw [isReserved, move_reserved?, isReserved]

@[simp] theorem move_blockKind? (t : Token) : (t.move m).blockKind? = t.blockKind? := by
  rw [blockKind?, move_kind, move_text, blockKind?]

@[simp] theorem move_isBlock (t : Token) (kind : BlockKind) :
    (t.move m).isBlock kind = t.isBlock kind := by
  rw [isBlock, move_blockKind?, isBlock]

@[simp] theorem move_is (t : Token) (kind : TokenKind) (text : String) :
    (t.move m).is kind text = t.is kind text := by
  rw [is, move_kind, move_text, is]

@[simp] theorem move_leaf (kind : TokenKind) (text : String) (loc : Location) :
    (leaf kind text loc).move m = leaf kind text (loc.move m) := by
  rw [move_eq]
  rfl

@[simp] theorem move_semicolon (loc : Location) :
    (semicolon loc).move m = semicolon (loc.move m) := move_leaf m _ _ _

/-- Moved trees have as many tokens. -/
@[simp] theorem totalWeight_map_move (ts : List Token) :
    totalWeight (ts.map (move m)) = totalWeight ts := by
  have hweight : ∀ t : Token, (t.move m).weight = t.weight := by
    intro t
    induction t using induction_children with
    | step t ih =>
      rw [weight_eq, weight_eq t, move_children]
      congr 1
      revert ih
      generalize t.children = cs
      intro ih
      induction cs with
      | nil => rfl
      | cons c cs ihs =>
        rw [List.map_cons, totalWeight_cons, totalWeight_cons, ih c List.mem_cons_self,
          ihs fun d hd => ih d (List.mem_cons_of_mem _ hd)]
  induction ts with
  | nil => rfl
  | cons t ts ih => rw [List.map_cons, totalWeight_cons, totalWeight_cons, hweight, ih]

/-- A token of which no location moves. -/
theorem move_eq_self (h : t.Every fun u => u.loc.move m = u.loc) : t.move m = t := by
  induction h with
  | @intro t here _ ih =>
    rw [move_eq, here, List.map_congr_left ih, List.map_id']
    cases t
    rfl

/-- The locations of a token are covered, and blocks have a closer. -/
def Suits (t : Token) : Prop :=
  t.Every fun u => m.Covers u.loc.start ∧ m.Covers u.loc.stop ∧ (u.kind = .block → u.Wide)

variable {m}

theorem Suits.start (h : t.Suits m) : m.Covers t.loc.start := h.here.1

theorem Suits.stop (h : t.Suits m) : m.Covers t.loc.stop := h.here.2.1

/-- The closer of a block moves with it. -/
theorem Suits.lastChar? (h : t.Suits m) (ht : t.kind = .block) :
    ∃ close, t.loc.lastChar? = some close ∧ (t.move m).loc.lastChar? = some (close.move m) := by
  rw [move_loc]
  exact Location.move_lastChar? m h.stop (h.here.2.2 ht)

end Token

end Offside
