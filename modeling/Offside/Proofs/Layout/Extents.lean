import Offside.Proofs.Layout.Closers
import Offside.Proofs.Lexeme.Extents

/-!
# Layout stays in the columns of the text

Layout hands on plain tokens, and its errors are about places where these tokens begin or end.

* `Layout.Rules.enter_inColumns`, `Layout.layout_plain`: laid-out tokens are plain.
* `Layout.arrange_error_enter`: a failure of layout is that of some block.
  `Layout.layout_error_plain`: so the errors of layout are plain.
-/

namespace Offside

/-- The last character of a location is in its columns. -/
theorem Location.InColumns.lastChar {last : Nat} {l close : Location} (hlast : 1 ≤ last)
    (h : l.InColumns last) (hclose : l.lastChar? = some close) : close.InColumns last := by
  unfold lastChar? between? at hclose
  split at hclose
  · cases hclose
    exact ⟨Nat.max_le.2 ⟨Nat.le_trans (Nat.sub_le _ _) h.stop, hlast⟩, h.stop⟩
  · cases hclose

namespace Layout

open Token

variable {last : Nat}

/-! ## Laid-out tokens -/

/-- A block that is entered stays in the columns of its tokens. -/
theorem Rules.enter_inColumns {r : Rules} {t : Token} {rest : List Token} {interior : Interior}
    (h : r.enter t rest = .ok interior) (ht : t.Every (Token.Plain last))
    (hrest : ∀ u ∈ rest, u.Every (Token.Plain last)) : interior.loc.InColumns last := by
  have htokens := (enter_every h ht hrest).1
  rcases enter_cases h with ⟨-, -, rfl⟩ | ⟨-, rfl⟩ | ⟨-, -, rfl⟩
  · exact ht.here.loc
  · show (((r.enterIndented t rest).tokens.getLast?).elim t.loc
      fun u => t.loc.join u.loc).InColumns last
    cases hlast : (r.enterIndented t rest).tokens.getLast? with
    | none => exact ht.here.loc
    | some u => exact ht.here.loc.join (htokens u (List.mem_of_getLast? hlast)).here.loc
  · exact ht.here.loc

/-- Laid-out tokens are plain. -/
theorem layout_plain {ts laidOut : List Token} (hts : ∀ t ∈ ts, t.Every (Token.Plain last))
    (h : layout ts = .ok laidOut) : ∀ t ∈ laidOut, t.Every (Token.Plain last) := by
  refine layout_every (P := Token.Plain last) (fun hu => hu) ?_ ?_ hts h
  · intro r t rest interior run henter ht hrest
    exact ⟨ht.here.text, Rules.enter_inColumns henter ht hrest⟩
  · intro u hu
    have hmark : Text.Unspaced ";" := ⟨by decide, by decide⟩
    exact ⟨hmark, hu.loc.start, hu.loc.start⟩

/-! ## Failures -/

/-- A failure of layout is one of entering a block that is among the tokens. -/
theorem arrange_error_enter {r : Rules} {ts : List Token} {failure : Failure LexicalError}
    (h : arrange r ts = .error failure) :
    ∃ (r' : Rules) (t : Token) (rest : List Token), r'.enter t rest = .error failure ∧
      ∀ P : Token → Prop, (∀ u ∈ ts, u.Every P) → t.Every P := by
  induction h using arrange_error_induction with
  | later _ _ _ ih =>
    obtain ⟨r', u, after, hu, hevery⟩ := ih
    exact ⟨r', u, after, hu, fun P hP => hevery P (List.forall_mem_cons.1 hP).2⟩
  | @enter r t rest _ henter =>
    exact ⟨r, t, rest, henter, fun P hP => (List.forall_mem_cons.1 hP).1⟩
  | inside _ henter _ ih =>
    obtain ⟨r', u, after, hu, hevery⟩ := ih
    refine ⟨r', u, after, hu, fun P hP => hevery P ?_⟩
    exact (Rules.enter_every henter (List.forall_mem_cons.1 hP).1 (List.forall_mem_cons.1 hP).2).1
  | after _ henter _ ih =>
    obtain ⟨r', u, after, hu, hevery⟩ := ih
    refine ⟨r', u, after, hu, fun P hP => hevery P ?_⟩
    exact (Rules.enter_every henter (List.forall_mem_cons.1 hP).1 (List.forall_mem_cons.1 hP).2).2

/-- The errors of a block are plain. -/
theorem Rules.enter_error_plain (hlast : 1 ≤ last) {r : Rules} {t : Token} {rest : List Token}
    {e : Located LexicalError} (ht : t.Every (Token.Plain last))
    (h : r.enter t rest = .error (.reported e)) : e.Plain last := by
  rcases enter_error_cases h with h | h
  · unfold checkBrace at h
    split at h
    · cases h
    · rename_i close hclose
      have hloc := ht.here.loc.lastChar hlast hclose
      split at h
      · cases h
      · split at h
        · cases h
          exact ⟨nofun, hloc⟩
        · split at h
          · cases h
            exact ⟨nofun, hloc⟩
          · cases h
  · unfold checkBrackets at h
    split at h
    · rename_i child after hsplit
      cases h
      have hchild : child ∈ t.children :=
        mem_of_mem_splitRegion (.inr (hsplit ▸ List.mem_cons_self))
      exact ⟨nofun, (ht.inside hchild).here.loc⟩
    · split at h
      · cases h
      · rename_i close hclose
        split at h
        · cases h
          exact ⟨nofun, ht.here.loc.lastChar hlast hclose⟩
        · cases h

/-- The errors of layout are plain. -/
theorem layout_error_plain (hlast : 1 ≤ last) {ts : List Token} {e : Located LexicalError}
    (hts : ∀ t ∈ ts, t.Every (Token.Plain last)) (h : layout ts = .error (.reported e)) :
    e.Plain last := by
  obtain ⟨r, t, rest, henter, hevery⟩ := arrange_error_enter (layout_failed h)
  exact Rules.enter_error_plain hlast (hevery _ hts) henter

end Layout

end Offside
