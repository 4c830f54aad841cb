import Offside.Proofs.Diagnostic.Reading

/-!
# Which diagnostics are read back

A diagnostic is read back from its form for programs if its message is a line of text that does not
end in a blank, and only then. For the form for people the message must, besides, not be mistaken
for a second middle part, with the last space of the real one or without.

* `literal?_ok`, `digits?_ok`, `header?_ok`: what was found stands in the text.
* `Text.clear_iff`: a text is clear if no middle part occurs in it. `lastHeader?_ok`: what follows
  the last middle part is clear.
* `Text.tidy_iff`: a tidy text has a last character, which is not blank. `Text.dropBlankEnd_last`:
  a text without the blanks at its end does not end in a blank.
* `Diagnostic.ofMachine_tidy`, `Diagnostic.ofHuman_tidy`, `Diagnostic.ofHuman_clear`: the messages
  that are read, in whatever text.
* `Diagnostic.reread_iff`: the diagnostics that are read back.
-/

namespace Offside

/-! ## What is found in a text -/

/-- A literal text is found only where it stands. -/
theorem literal?_ok {lit input rest : List Char} (h : literal? lit input = some rest) :
    input = lit ++ rest := by
  induction lit generalizing input with
  | nil => exact Option.some.inj h
  | cons l lit ih =>
    cases input with
    | nil => cases h
    | cons c input =>
      rw [literal?] at h
      split at h
      · rename_i hl
        rw [ih h, hl, List.cons_append]
      · cases h

/-- What is found as a run of digits has a digit and nothing but digits, and stands in the text. -/
theorem digits?_ok {input run rest : List Char} (h : digits? input = some (run, rest)) :
    input = run ++ rest ∧ run ≠ [] ∧ ∀ c ∈ run, Text.isDecimalDigit c = true := by
  rw [digits?] at h
  split at h
  · cases h
  · rename_i hne
    cases h
    refine ⟨List.takeWhile_append_dropWhile.symm, hne, fun c hc => ?_⟩
    exact List.all_eq_true.1 (List.all_takeWhile (p := Text.isDecimalDigit)) c hc

/-- What follows the form `@r,c,r,c` is the end of the text. -/
theorem machineCorners?_ok {input rest : List Char} {k : Corners}
    (h : machineCorners? input = some (k, rest)) : rest <:+ input := by
  simp only [machineCorners?, Option.bind_eq_bind, Option.bind_eq_some_iff, Option.pure_def,
    Option.some.injEq, Prod.exists] at h
  obtain ⟨_, hat, _, _, hrow, _, hcut, _, _, hcol, _, hcut', _, _, hstop, _, hcut'', _, _, hlast,
    hk⟩ := h
  cases hk
  rw [literal?_ok hat, (digits?_ok hrow).1, literal?_ok hcut, (digits?_ok hcol).1,
    literal?_ok hcut', (digits?_ok hstop).1, literal?_ok hcut'', (digits?_ok hlast).1]
  simp only [← List.append_assoc]
  exact List.suffix_append _ _

/-- A middle part is found only where it stands. -/
theorem header?_ok {input rest : List Char} {k : Corners} (h : header? input = some (k, rest)) :
    input = k.header ++ rest ∧ k.Numbered := by
  simp only [header?, Option.bind_eq_bind, Option.bind_eq_some_iff, Option.pure_def,
    Option.some.injEq, Prod.exists] at h
  obtain ⟨_, hopen, startRow, _, hrow, _, hcut, startCol, _, hcol, _, hdash, stopRow, _, hstop, _,
    hcut', stopCol, _, hlast, _, hclose, hk⟩ := h
  cases hk
  obtain ⟨rfl, hrow'⟩ := digits?_ok hrow
  obtain ⟨rfl, hcol'⟩ := digits?_ok hcol
  obtain ⟨rfl, hstop'⟩ := digits?_ok hstop
  obtain ⟨rfl, hlast'⟩ := digits?_ok hlast
  refine ⟨?_, ?_⟩
  · rw [literal?_ok hopen, literal?_ok hcut, literal?_ok hdash, literal?_ok hcut',
      literal?_ok hclose]
    unfold Corners.header
    simp only [List.append_assoc]
  · simp only [Corners.Numbered, List.forall_mem_cons]
    exact ⟨hrow', hcol', hstop', hlast', fun _ h => absurd h List.not_mem_nil⟩

/-- A middle part begins and ends in a space, and is longer than one. -/
theorem Corners.header_spaces (k : Corners) :
    ∃ inner, k.header = ' ' :: inner ++ [' '] := by
  have hopen : " error at (".toList = ' ' :: "error at (".toList := by decide
  have hclose : ").  ".toList = "). ".toList ++ [' '] := by decide
  refine ⟨"error at (".toList ++ k.startRow ++ ",".toList ++ k.startCol ++ ")-(".toList
    ++ k.stopRow ++ ",".toList ++ k.stopCol ++ "). ".toList, ?_⟩
  unfold Corners.header
  rw [hopen, hclose]
  simp only [List.append_assoc, List.cons_append]

/-! ## Clear and tidy texts -/

namespace Text

/-- A text is clear if no middle part occurs in it. -/
theorem clear_iff {text : List Char} :
    Clear text ↔ ∀ k : Corners, k.Numbered → ¬ k.header <:+: text := by
  refine ⟨fun h k hk => ?_, fun h rest hrest => ?_⟩
  · rintro ⟨before, rest, rfl⟩
    have hnone : header? (k.header ++ rest) = none :=
      h _ ⟨before, (List.append_assoc before k.header rest).symm⟩
    rw [header?_header hk] at hnone
    cases hnone
  · cases hfound : header? rest with
    | none => rfl
    | some found =>
      obtain ⟨htext, hk⟩ := header?_ok hfound
      exact absurd (List.IsInfix.trans ⟨[], _, htext.symm⟩ hrest.isInfix) (h found.1 hk)

/-- A suffix of a clear text is clear. -/
theorem Clear.suffix {text rest : List Char} (h : Clear text) (hrest : rest <:+ text) :
    Clear rest := fun tail htail => h tail (htail.trans hrest)

/-- A tidy text is on one line and has a last character, which is not blank. -/
theorem tidy_iff {text : List Char} :
    Tidy text ↔ text ≠ [] ∧ '\n' ∉ text ∧ ∀ c ∈ text.getLast?, isBlank c = false := by
  refine ⟨fun h => ?_, fun ⟨hne, hline, hlast⟩ => ?_⟩
  · obtain ⟨c, hc, hblank⟩ := h.closed
    refine ⟨?_, h.line, fun d hd => ?_⟩
    · rintro rfl
      cases hc
    · rw [hc] at hd
      cases hd
      exact hblank
  · obtain ⟨c, hc⟩ := Option.isSome_iff_exists.1 (List.getLast?_isSome.2 hne)
    exact ⟨hline, c, hc, hlast c hc⟩

/-- A text without the blanks at its end does not end in a blank. -/
theorem dropBlankEnd_last (text : List Char) :
    ∀ c ∈ (dropBlankEnd text).getLast?, isBlank c = false := by
  intro c hc
  have hfirst := List.head?_dropWhile_not isBlank text.reverse
  rw [dropBlankEnd, List.getLast?_reverse] at hc
  rw [hc] at hfirst
  exact hfirst

/-- After a space, what is left of a text without the blanks at its end is tidy. -/
theorem Tidy.of_dropBlankEnd {text before rest : List Char}
    (h : dropBlankEnd text = before ++ ' ' :: rest) (hline : '\n' ∉ rest) : Tidy rest := by
  have hlast := dropBlankEnd_last text
  rw [h] at hlast
  refine tidy_iff.2 ⟨?_, hline, fun c hc => hlast c ?_⟩
  · rintro rfl
    have hspace : isBlank ' ' = true := by decide
    have hclosed : isBlank ' ' = false := hlast ' ' List.getLast?_concat
    rw [hspace] at hclosed
    cases hclosed
  · rw [List.getLast?_append, List.getLast?_cons, Option.mem_def.1 hc]
    rfl

end Text

/-- The last middle part stands in the text, and after its first character no other one begins. -/
theorem lastHeader?_ok {text before rest : List Char} {k : Corners}
    (h : lastHeader? text = some (before, k, rest)) :
    text = before ++ k.header ++ rest ∧ Text.Clear (k.header ++ rest).tail := by
  induction text generalizing before with
  | nil => cases h
  | cons c text ih =>
    rw [lastHeader?] at h
    split at h
    · rename_i hlater
      cases h
      obtain ⟨htext, hclear⟩ := ih hlater
      exact ⟨by rw [htext]; rfl, hclear⟩
    · rename_i hlater
      obtain ⟨found, hfound, heq⟩ := Option.map_eq_some_iff.1 h
      cases heq
      obtain ⟨rfl, -⟩ := header?_ok hfound
      refine ⟨rfl, ?_⟩
      obtain ⟨inner, hinner⟩ := k.header_spaces
      rw [hinner] at hlater ⊢
      exact lastHeader?_eq_none.1 hlater

/-- What is made of the location that digits denote, if they denote one. -/
theorem Corners.location_ok {α : Type} {k : Corners} {text : String} {f : Location → α} {a : α}
    (h : (do let loc ← k.location text; pure (f loc)) = .ok a) : ∃ loc, f loc = a := by
  cases hloc : k.location text with
  | error e =>
    rw [hloc] at h
    cases h
  | ok loc =>
    rw [hloc] at h
    exact ⟨loc, Except.ok.inj h⟩

/-! ## Diagnostics -/

namespace Diagnostic

variable {text : String} {d : Diagnostic}

/-- What is read from a form for programs has a tidy message. -/
theorem ofMachine_tidy {phase : Phase} (h : ofMachine phase text = .ok d) :
    Text.Tidy d.message.toList := by
  rw [ofMachine] at h
  split at h
  · rename_i corners message hcorners
    split at h
    · cases h
    · rename_i hline
      obtain ⟨start, hstart⟩ := machineCorners?_ok hcorners
      obtain ⟨loc, rfl⟩ := Corners.location_ok h
      rw [String.toList_ofList]
      exact .of_dropBlankEnd hstart.symm hline
  · cases h

/-- What is read from a form for people has a tidy message, and no middle part occurs in it, not
even with the space before it. -/
theorem ofHuman_tidy (h : ofHuman text = .ok d) :
    Text.Tidy d.message.toList ∧ Text.Clear (' ' :: d.message.toList) := by
  rw [ofHuman] at h
  split at h
  · cases h
  · rename_i hline
    split at h
    · cases h
    · rename_i before corners message hfound
      split at h
      · cases h
      · obtain ⟨loc, rfl⟩ := Corners.location_ok h
        rw [String.toList_ofList]
        obtain ⟨htext, hclear⟩ := lastHeader?_ok hfound
        obtain ⟨inner, hinner⟩ := corners.header_spaces
        have hspace : before ++ corners.header ++ message
            = (before ++ ' ' :: inner) ++ ' ' :: message := by
          rw [hinner]
          simp
        rw [htext, hspace] at hline
        rw [hspace] at htext
        refine ⟨.of_dropBlankEnd htext fun hmem => hline ?_, hclear.suffix ⟨inner, ?_⟩⟩
        · exact List.mem_append_right _ (List.mem_cons_of_mem _ hmem)
        · rw [hinner]
          simp

/-- A diagnostic at coordinates that can be read is read back from its form for programs if its
message is not empty, has no line feed and does not end in a blank, and only then. It is read back
from its form for people if, besides, no middle part occurs in the message after one space. -/
theorem reread_iff (hloc : d.loc.Bounded) :
    (ofMachine d.phase d.machine = .ok d ↔
      d.message ≠ "" ∧ '\n' ∉ d.message.toList ∧
        ∀ c ∈ d.message.toList.getLast?, Text.isBlank c = false) ∧
    (ofHuman d.human = .ok d ↔
      (d.message ≠ "" ∧ '\n' ∉ d.message.toList ∧
        ∀ c ∈ d.message.toList.getLast?, Text.isBlank c = false) ∧
      ∀ k : Corners, k.Numbered → ¬ k.header <:+: ' ' :: d.message.toList) := by
  rw [ne_eq, ← String.toList_eq_nil_iff, ← Text.tidy_iff, ← Text.clear_iff]
  exact ⟨⟨ofMachine_tidy, ofMachine_machine hloc⟩,
    ⟨ofHuman_tidy, fun h => ofHuman_human hloc h.1 h.2⟩⟩

/-- A message that is a middle part but for its first space: the space before it makes it one. -/
theorem reread_second_header :
    let d : Diagnostic := ⟨.parse, .one .origin, "error at (1,2)-(3,4).  x"⟩
    d.loc.Bounded ∧ ofMachine .parse d.machine = .ok d ∧ ofHuman d.human ≠ .ok d := by
  intro d
  have hloc : d.loc.Bounded := ⟨by decide, by decide, by decide, by decide⟩
  let l : Location := ⟨⟨1, 2⟩, ⟨3, 4⟩, by decide⟩
  have hcorners : l.corners = ⟨['1'], ['2'], ['3'], ['4']⟩ := by cbv
  have hlast : d.message.toList.getLast? = some 'x' := by
    change "error at (1,2)-(3,4).  x".toList.getLast? = some 'x'
    decide
  have hblank : ∀ c ∈ d.message.toList.getLast?, Text.isBlank c = false := by
    rw [hlast]
    rintro c ⟨⟩
    decide
  have hheader : [] ++ l.corners.header ++ ['x'] = ' ' :: "error at (1,2)-(3,4).  x".toList := by
    rw [hcorners]
    rfl
  refine ⟨hloc, (reread_iff hloc).1.2 ⟨by decide, by decide, hblank⟩, fun h => ?_⟩
  exact ((reread_iff hloc).2.1 h).2 _ l.corners_numbered ⟨[], ['x'], hheader⟩

end Diagnostic

end Offside
