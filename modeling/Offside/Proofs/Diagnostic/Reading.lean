import Offside.Diagnostic.Reading

/-!
# Written diagnostics are read back

A diagnostic that is written in one of its one-line forms and then read is the same diagnostic, if
its message is tidy and, in the form for people, cannot be mistaken for a second middle part.

* `Location.Bounded`, `Location.corners`: a location whose coordinates can be read, and the digits
  that they are written with. `Location.corners_location`: they denote the location.
* `Corners.Numbered`, `Corners.header`: four runs of digits, and the middle part of the form for
  people that they make. `machineCorners?_machine`, `header?_header`: these digits are found in the
  written forms.
* `Text.Tidy`: a text on one line that does not end in a blank.
* `Text.Clear`: no middle part begins anywhere in a text. `lastHeader?_eq_none`: none is found in
  such a text. `lastHeader?_append`: a middle part before a clear text is the last one.
* `Text.headerStart`: what a middle part begins with. `Text.quiet`: a text in which every place
  clashes with it, whatever follows the text. `Text.Clear.append`: a quiet text may stand before a
  clear one.
* `Diagnostic.ofMachine_machine`, `Diagnostic.ofHuman_human`: both forms are read back.
-/

namespace Offside

/-! ## Coordinates -/

/-- The digits of ASCII are decimal digits. -/
theorem Text.isDecimalDigit_of_isDigit {c : Char} (h : c.isDigit = true) :
    Text.isDecimalDigit c = true := by
  have hrange : 0x30 ≤ c.toNat ∧ c.toNat ≤ 0x39 := by
    simpa [Char.isDigit, UInt32.le_iff_toNat_le] using h
  refine List.any_eq_true.2 ⟨(0x30, 0x39), List.mem_cons_self, ?_⟩
  simpa using hrange

/-- A literal text is found where it stands. -/
theorem literal?_append (lit rest : List Char) : literal? lit (lit ++ rest) = some rest := by
  induction lit with
  | nil => rfl
  | cons l lit ih => rw [List.cons_append, literal?, if_pos rfl, ih]

/-- A run of digits is found before a text that does not begin with a digit. -/
theorem digits?_append {run rest : List Char} (hne : run ≠ [])
    (hrun : ∀ d ∈ run, Text.isDecimalDigit d = true)
    (hrest : ∀ c ∈ rest.head?, Text.isDecimalDigit c = false) :
    digits? (run ++ rest) = some (run, rest) := by
  have htake : rest.takeWhile Text.isDecimalDigit = [] := by
    cases rest with
    | nil => rfl
    | cons c rest => exact List.takeWhile_cons_of_neg (by simp [hrest c rfl])
  have hdrop : rest.dropWhile Text.isDecimalDigit = rest := by
    cases rest with
    | nil => rfl
    | cons c rest => exact List.dropWhile_cons_of_neg (by simp [hrest c rfl])
  rw [digits?, List.takeWhile_append_of_pos hrun, List.dropWhile_append_of_pos hrun, htake, hdrop,
    List.append_nil]
  cases run with
  | nil => exact absurd rfl hne
  | cons d ds => rfl

/-- The digits of a number are decimal digits. -/
theorem isDecimalDigit_of_mem_toDigits {n : Nat} {d : Char} (hd : d ∈ Nat.toDigits 10 n) :
    Text.isDecimalDigit d = true :=
  Text.isDecimalDigit_of_isDigit (Nat.isDigit_of_mem_toDigits (by decide) (by decide) hd)

/-- The digits of a number are found up to the first character that is no digit. -/
theorem digits?_decimal (n : Nat) {c : Char} (hc : Text.isDecimalDigit c = false)
    (rest : List Char) :
    digits? ((Text.decimal n).toList ++ c :: rest) = some (Nat.toDigits 10 n, c :: rest) := by
  have hrest : ∀ d ∈ (c :: rest).head?, Text.isDecimalDigit d = false := by
    intro d hd
    cases hd
    exact hc
  rw [Text.toList_decimal]
  exact digits?_append Nat.toDigits_ne_nil (fun _ => isDecimalDigit_of_mem_toDigits) hrest

/-- The digits of a coordinate denote it. -/
theorem coordinate?_toDigits {n : Nat} (hn : n < coordinateBound) :
    coordinate? (Nat.toDigits 10 n) = some n := by
  have hdigits : (Nat.toDigits 10 n).all Char.isDigit = true :=
    List.all_eq_true.2 fun _ hd => Nat.isDigit_of_mem_toDigits (by decide) (by decide) hd
  rw [coordinate?, Text.decimalValue_toDigits, hdigits, Bool.true_and, if_pos (decide_eq_true hn)]

/-! ## Locations -/

namespace Location

/-- The coordinates of a location are in bounds. -/
structure Bounded (l : Location) : Prop where
  startRow : l.start.row < coordinateBound
  startCol : l.start.col < coordinateBound
  stopRow : l.stop.row < coordinateBound
  stopCol : l.stop.col < coordinateBound

/-- The digits that a location is written with. -/
def corners (l : Location) : Corners where
  startRow := Nat.toDigits 10 l.start.row
  startCol := Nat.toDigits 10 l.start.col
  stopRow := Nat.toDigits 10 l.stop.row
  stopCol := Nat.toDigits 10 l.stop.col

/-- The digits that a location is written with denote it. -/
theorem corners_location {l : Location} (h : l.Bounded) (text : String) :
    l.corners.location text = .ok l := by
  have hcursors : l.corners.cursors? = some (l.start, l.stop) := by
    simp only [Corners.cursors?, corners, coordinate?_toDigits h.startRow,
      coordinate?_toDigits h.startCol, coordinate?_toDigits h.stopRow,
      coordinate?_toDigits h.stopCol]
    rfl
  have hbetween : between? l.start l.stop = some l := dif_pos l.start_le_stop
  simp only [Corners.location, hcursors, hbetween]

/-- A location is written for people with digits and four other characters. -/
theorem notMem_human (l : Location) {c : Char} (hdigit : c.isDigit = false)
    (hc : c ∉ ['(', ',', ')', '-']) : c ∉ l.human.toList := by
  have hdigits (n : Nat) : c ∉ Nat.toDigits 10 n := by
    intro hmem
    rw [Nat.isDigit_of_mem_toDigits (by decide) (by decide) hmem] at hdigit
    cases hdigit
  simp only [List.mem_cons, List.not_mem_nil, or_false, not_or] at hc
  simp [human, String.toList_append, hdigits, hc]

end Location

/-- The form `@r,c,r,c` is found before a space. -/
theorem machineCorners?_machine (l : Location) (rest : List Char) :
    machineCorners? (l.machine.toList ++ ' ' :: rest) = some (l.corners, ' ' :: rest) := by
  have hcomma : Text.isDecimalDigit ',' = false := by decide
  have hspace : Text.isDecimalDigit ' ' = false := by decide
  have hcut (text : List Char) : literal? [','] (',' :: text) = some text :=
    literal?_append [','] text
  have hat (text : List Char) : literal? ['@'] ('@' :: text) = some text :=
    literal?_append ['@'] text
  simp only [machineCorners?, Location.machine, String.toList_append, List.append_assoc,
    show "@".toList = ['@'] from rfl, show ",".toList = [','] from rfl, List.cons_append,
    List.nil_append, hat, hcut, digits?_decimal _ hcomma, digits?_decimal _ hspace,
    Option.bind_eq_bind, Option.bind_some]
  rfl

/-- Each of the four runs has a digit and nothing but digits. -/
def Corners.Numbered (k : Corners) : Prop :=
  ∀ run ∈ [k.startRow, k.startCol, k.stopRow, k.stopCol],
    run ≠ [] ∧ ∀ c ∈ run, Text.isDecimalDigit c = true

/-- The middle part of the form for people that four runs of digits make. -/
def Corners.header (k : Corners) : List Char :=
  " error at (".toList ++ k.startRow ++ ",".toList ++ k.startCol ++ ")-(".toList
    ++ k.stopRow ++ ",".toList ++ k.stopCol ++ ").  ".toList

/-- A middle part is found where it stands. -/
theorem header?_header {k : Corners} (h : k.Numbered) (rest : List Char) :
    header? (k.header ++ rest) = some (k, rest) := by
  obtain ⟨startRow, startCol, stopRow, stopCol⟩ := k
  simp only [Corners.Numbered, List.forall_mem_cons] at h
  obtain ⟨⟨hrow, hrow'⟩, ⟨hcol, hcol'⟩, ⟨hstop, hstop'⟩, ⟨hlast, hlast'⟩, -⟩ := h
  have hcut (text : List Char) :
      ∀ c ∈ (",".toList ++ text).head?, Text.isDecimalDigit c = false := by
    intro c hc
    cases hc
    decide
  have hdash (text : List Char) :
      ∀ c ∈ (")-(".toList ++ text).head?, Text.isDecimalDigit c = false := by
    intro c hc
    cases hc
    decide
  have hclose (text : List Char) :
      ∀ c ∈ (").  ".toList ++ text).head?, Text.isDecimalDigit c = false := by
    intro c hc
    cases hc
    decide
  unfold header? Corners.header
  simp only [List.append_assoc, literal?_append, Option.bind_eq_bind, Option.bind_some,
    digits?_append hrow hrow' (hcut _), digits?_append hcol hcol' (hdash _),
    digits?_append hstop hstop' (hcut _), digits?_append hlast hlast' (hclose _), Option.pure_def]

/-- The digits of a location are four runs of digits. -/
theorem Location.corners_numbered (l : Location) : l.corners.Numbered := by
  intro run hrun
  simp only [corners, List.mem_cons, List.not_mem_nil, or_false] at hrun
  rcases hrun with rfl | rfl | rfl | rfl <;>
    exact ⟨Nat.toDigits_ne_nil, fun _ => isDecimalDigit_of_mem_toDigits⟩

/-- The middle part of the form for people is made of the digits of the location. -/
theorem Location.header_corners (l : Location) :
    l.corners.header = " error at ".toList ++ l.human.toList ++ ".  ".toList := by
  have hopen : " error at (".toList = " error at ".toList ++ "(".toList := by decide
  have hclose : ").  ".toList = ")".toList ++ ".  ".toList := by decide
  unfold Corners.header corners human
  rw [hopen, hclose]
  simp only [String.toList_append, Text.toList_decimal, List.append_assoc]

/-! ## Messages -/

namespace Text

/-- A text on one line that does not end in a blank. -/
structure Tidy (text : List Char) : Prop where
  line : '\n' ∉ text
  closed : ∃ c, text.getLast? = some c ∧ isBlank c = false

/-- No blanks are dropped at the end of a tidy text. -/
theorem dropBlankEnd_append (before : List Char) {text : List Char} (h : Tidy text) :
    dropBlankEnd (before ++ text) = before ++ text := by
  obtain ⟨c, hlast, hc⟩ := h.closed
  obtain ⟨start, rfl⟩ := List.getLast?_eq_some_iff.1 hlast
  rw [dropBlankEnd, ← List.append_assoc, List.reverse_append, List.reverse_singleton,
    List.singleton_append, List.dropWhile_cons_of_neg (by simp [hc]), List.reverse_cons,
    List.reverse_reverse]

/-- No middle part begins in a text, not even where the text ends. -/
def Clear (text : List Char) : Prop := ∀ rest, rest <:+ text → header? rest = none

theorem Clear.nil : Clear [] := by
  intro rest h
  rw [List.suffix_nil.1 h]
  rfl

theorem Clear.cons {c : Char} {text : List Char} (hc : header? (c :: text) = none)
    (h : Clear text) : Clear (c :: text) := by
  intro rest hrest
  rcases List.suffix_cons_iff.1 hrest with rfl | hrest
  · exact hc
  · exact h rest hrest

/-- Whether a text differs from a literal text in a place that both have. -/
def clashes : (lit text : List Char) → Bool
  | l :: lit, c :: text => l != c || clashes lit text
  | _, _ => false

/-- The characters that a middle part begins with. -/
def headerStart : List Char := [' ', 'e', 'r', 'r', 'o', 'r', ' ', 'a', 't', ' ', '(']

theorem toList_headerStart : " error at (".toList = headerStart := by decide

/-- Whether every place of a text clashes with the beginning of a middle part. -/
def quiet : List Char → Bool
  | [] => true
  | c :: text => clashes headerStart (c :: text) && quiet text

/-- No literal text is found where it clashes, whatever follows. -/
theorem literal?_of_clashes {lit text : List Char} (h : clashes lit text = true)
    (rest : List Char) : literal? lit (text ++ rest) = none := by
  induction lit generalizing text with
  | nil => cases h
  | cons l lit ih =>
    cases text with
    | nil => cases h
    | cons c text =>
      rw [List.cons_append, literal?]
      split
      · rename_i hl
        rw [clashes, hl, bne_self_eq_false, Bool.false_or] at h
        exact ih h
      · rfl

theorem clashes_append {lit text : List Char} (h : clashes lit text = true) (rest : List Char) :
    clashes lit (text ++ rest) = true := by
  induction lit generalizing text with
  | nil => cases h
  | cons l lit ih =>
    cases text with
    | nil => cases h
    | cons c text =>
      rw [clashes, Bool.or_eq_true_iff] at h
      rw [List.cons_append, clashes, Bool.or_eq_true_iff]
      exact h.imp_right ih

theorem quiet_append {text rest : List Char} (h : quiet text = true) (hrest : quiet rest = true) :
    quiet (text ++ rest) = true := by
  induction text with
  | nil => exact hrest
  | cons c text ih =>
    rw [quiet, Bool.and_eq_true_iff] at h
    rw [List.cons_append, quiet, Bool.and_eq_true_iff]
    exact ⟨clashes_append h.1 rest, ih h.2⟩

/-- A text without spaces is quiet. -/
theorem quiet_of_notMem {text : List Char} (h : ' ' ∉ text) : quiet text = true := by
  induction text with
  | nil => rfl
  | cons c text ih =>
    rw [List.mem_cons, not_or] at h
    have hclash : clashes headerStart (c :: text) = true :=
      Bool.or_eq_true_iff.2 (.inl (bne_iff_ne.2 h.1))
    rw [quiet, hclash, ih h.2]
    rfl

/-- A quiet text may stand before a clear one. -/
theorem Clear.append {text rest : List Char} (h : quiet text = true) (hrest : Clear rest) :
    Clear (text ++ rest) := by
  induction text with
  | nil => exact hrest
  | cons c text ih =>
    rw [quiet, Bool.and_eq_true_iff] at h
    have hclash : literal? headerStart (c :: (text ++ rest)) = none :=
      literal?_of_clashes h.1 rest
    refine .cons ?_ (ih h.2)
    show header? (c :: (text ++ rest)) = none
    rw [header?, toList_headerStart, hclash]
    rfl

theorem Clear.of_quiet {text : List Char} (h : quiet text = true) : Clear text := by
  rw [← List.append_nil text]
  exact .append h .nil

/-- After the first character of a middle part no other one begins, up to the message. -/
theorem Clear.human (l : Location) {message : List Char} (h : Clear (' ' :: message)) :
    Clear ("error at ".toList ++ l.human.toList ++ ".  ".toList ++ message) := by
  have hspace : ' ' ∉ l.human.toList ++ ['.'] := by
    rw [List.mem_append, not_or]
    exact ⟨l.notMem_human (by decide) (by decide), by decide⟩
  have hopen : ∃ inner, l.human.toList ++ ['.'] = '(' :: inner := by
    simp [Location.human, String.toList_append]
  obtain ⟨inner, hinner⟩ := hopen
  rw [hinner, List.mem_cons, not_or] at hspace
  have hquiet : quiet ("error at (".toList ++ inner) = true :=
    quiet_append (by decide) (quiet_of_notMem hspace.2)
  have hsplit : "error at ".toList ++ l.human.toList ++ ".  ".toList ++ message
      = ("error at (".toList ++ inner) ++ ' ' :: ' ' :: message := by
    calc "error at ".toList ++ l.human.toList ++ ".  ".toList ++ message
        = "error at ".toList ++ (l.human.toList ++ ['.']) ++ ' ' :: ' ' :: message := by simp
      _ = ("error at (".toList ++ inner) ++ ' ' :: ' ' :: message := by rw [hinner]; simp
  rw [hsplit]
  exact .append hquiet (.cons rfl h)

end Text

/-- No middle part is found in a text if it is clear after its first character, and only then. -/
theorem lastHeader?_eq_none {c : Char} {text : List Char} :
    lastHeader? (c :: text) = none ↔ Text.Clear text := by
  induction text generalizing c with
  | nil => exact ⟨fun _ => .nil, fun _ => rfl⟩
  | cons d text ih =>
    rw [lastHeader?]
    cases hlater : lastHeader? (d :: text) with
    | some found =>
      refine ⟨fun h => (Option.some_ne_none _ h).elim, fun h => ?_⟩
      rw [ih.2 fun rest hrest => h rest (hrest.trans (List.suffix_cons d text))] at hlater
      cases hlater
    | none =>
      refine ⟨fun h => .cons (Option.map_eq_none_iff.1 h) (ih.1 hlater), fun h => ?_⟩
      exact Option.map_eq_none_iff.2 (h _ (List.suffix_refl _))

/-- A middle part after which none begins is the last one. -/
theorem lastHeader?_append {before text : List Char} {found : Corners × List Char}
    (hbefore : before ≠ []) (hlater : lastHeader? text = none) (h : header? text = some found) :
    lastHeader? (before ++ text) = some (before, found) := by
  induction before with
  | nil => exact absurd rfl hbefore
  | cons c before ih =>
    rw [List.cons_append, lastHeader?]
    cases before with
    | nil =>
      rw [List.nil_append, hlater, h]
      rfl
    | cons d before => rw [ih (List.cons_ne_nil d before)]

/-! ## Diagnostics -/

namespace Diagnostic

/-- The form for programs is read back. -/
theorem ofMachine_machine {d : Diagnostic} (hloc : d.loc.Bounded)
    (hmessage : Text.Tidy d.message.toList) : ofMachine d.phase d.machine = .ok d := by
  have htext : Text.dropBlankEnd d.machine.toList
      = d.loc.machine.toList ++ ' ' :: d.message.toList := by
    rw [machine, String.toList_append, Text.dropBlankEnd_append _ hmessage, String.toList_append,
      List.append_assoc]
    rfl
  rw [ofMachine, htext, machineCorners?_machine]
  simp only [if_neg hmessage.line, Location.corners_location hloc, String.ofList_toList]
  rfl

/-- The form for people is read back. -/
theorem ofHuman_human {d : Diagnostic} (hloc : d.loc.Bounded)
    (hmessage : Text.Tidy d.message.toList) (hclear : Text.Clear (' ' :: d.message.toList)) :
    ofHuman d.human = .ok d := by
  have htext : Text.dropBlankEnd d.human.toList = d.phase.name.toList ++
      (" error at ".toList ++ d.loc.human.toList ++ ".  ".toList ++ d.message.toList) := by
    rw [human, String.toList_append, Text.dropBlankEnd_append _ hmessage]
    simp only [String.toList_append, List.append_assoc]
  have hline : '\n' ∉ Text.dropBlankEnd d.human.toList := by
    have hname : '\n' ∉ d.phase.name.toList := by cases d.phase <;> decide
    have hhuman : '\n' ∉ d.loc.human.toList := d.loc.notMem_human (by decide) (by decide)
    rw [htext]
    simp only [List.mem_append, not_or]
    exact ⟨hname, ⟨⟨by decide, hhuman⟩, by decide⟩, hmessage.line⟩
  have hlast : lastHeader? (Text.dropBlankEnd d.human.toList)
      = some (d.phase.name.toList, d.loc.corners, d.message.toList) := by
    rw [htext]
    refine lastHeader?_append ?_ (lastHeader?_eq_none.2 (.human d.loc hclear)) ?_
    · cases d.phase <;> decide
    · rw [← Location.header_corners]
      exact header?_header d.loc.corners_numbered d.message.toList
  simp only [ofHuman, if_neg hline, hlast, String.ofList_toList, Phase.ofName?_name,
    Location.corners_location hloc]
  rfl

end Diagnostic

end Offside
