/-
Colors add escape sequences and nothing else.

A diagnostic in color is the plain one with color codes between its characters
(`Text.Colored`), whatever its spans say: widths, carets and patched lines are
made from the numbers and the plain texts before anything is painted. A color
code is a control sequence, and such a sequence ends at its first letter, so that
no text behind a code can become part of it. Leaving out the control sequences
(`Text.Stripped`) therefore gives the plain diagnostic back
(`colors_only_add_escapes`), and so does the wider removal that is made for an
output that is no terminal (`Text.stripEscapes`).
-/
import Mathlib.Data.List.Forall2
import TypeDesc.Diagnostic.Excerpt
import TypeDesc.Proofs.Pieces

namespace TypeDesc

namespace Text

/-! ## Control sequences -/

/-- Whether `c` is a parameter of a control sequence: a digit, a semicolon or a question mark. -/
def isControlParameter (c : Char) : Bool :=
  c.isDigit || c == ';' || c == '?'

/-- The control sequences: an escape character and a bracket, parameters, and an ASCII letter. -/
inductive ControlSequence : List Char → Prop
  | mk {parameters : List Char} {letter : Char}
    (hparameters : ∀ c ∈ parameters, isControlParameter c = true)
    (hletter : letter.isAlpha = true) :
    ControlSequence (escapeChar :: '[' :: (parameters ++ [letter]))

/-- A text and what is left of it when, from its start on, each control sequence that is met is
taken out and every other character is kept. -/
inductive Stripped : List Char → List Char → Prop
  | nil : Stripped [] []
  | sequence {s rest left : List Char} (hs : ControlSequence s) (h : Stripped rest left) :
    Stripped (s ++ rest) left
  | keep {c : Char} {rest left : List Char} (hc : ∀ s, ControlSequence s → ¬ s <+: c :: rest)
    (h : Stripped rest left) : Stripped (c :: rest) (c :: left)

theorem isControlParameter_of_isAlpha {c : Char} (h : c.isAlpha = true) :
    isControlParameter c = false := by
  have hdigit : c.isDigit = false := by
    delta Char.isAlpha Char.isUpper Char.isLower at h
    delta Char.isDigit
    grind
  have hmarks : c ≠ ';' ∧ c ≠ '?' := by
    constructor <;> rintro rfl <;> revert h <;> decide
  simp [isControlParameter, hdigit, hmarks]

/-- **A control sequence ends at its first letter**: no other one starts a text that starts with
it. -/
theorem ControlSequence.append_inj {s s' rest rest' : List Char} (hs : ControlSequence s)
    (hs' : ControlSequence s') (h : s ++ rest = s' ++ rest') : s = s' ∧ rest = rest' := by
  have hends : ∀ {letter : Char} (rest : List Char), letter.isAlpha = true →
      ∀ c ∈ (letter :: rest).head?, isControlParameter c = false := by
    intro letter rest hletter c hc
    cases hc
    exact isControlParameter_of_isAlpha hletter
  cases hs with
  | @mk p l hp hl =>
    cases hs' with
    | @mk p' l' hp' hl' =>
      have htail : p ++ l :: rest = p' ++ l' :: rest' := by simpa using h
      have hparameters : p = p' := by
        rw [← takeWhile_exact hp (hends rest hl), htail, takeWhile_exact hp' (hends rest' hl')]
      subst hparameters
      obtain ⟨rfl, rfl⟩ : l = l' ∧ rest = rest' := by simpa using htail
      exact ⟨rfl, rfl⟩

/-- Only one text is left. -/
theorem Stripped.unique {text left left' : List Char} (h : Stripped text left)
    (h' : Stripped text left') : left = left' := by
  induction h generalizing left' with
  | nil =>
    generalize htext : ([] : List Char) = text at h'
    cases h' with
    | nil => rfl
    | sequence hs _ =>
      cases hs
      simp at htext
    | keep => cases htext
  | @sequence s rest left hs _ ih =>
    generalize htext : s ++ rest = text at h'
    cases h' with
    | nil =>
      cases hs
      simp at htext
    | sequence hs' h' =>
      obtain ⟨rfl, rfl⟩ := hs.append_inj hs' htext
      exact ih h'
    | keep hc _ => exact absurd ⟨rest, htext⟩ (hc s hs)
  | @keep c rest left hc _ ih =>
    generalize htext : c :: rest = text at h'
    cases h' with
    | nil => cases htext
    | @sequence s rest' _ hs' _ => exact absurd ⟨rest', htext.symm⟩ (hc s hs')
    | keep _ h' =>
      cases htext
      rw [ih h']

/-! ## Texts with color codes -/

/-- A text holds no escape character. -/
def Unescaped (text : String) : Prop :=
  escapeChar ∉ text.toList

instance (text : String) : Decidable (Unescaped text) := inferInstanceAs (Decidable (¬ _ ∈ _))

/-- A text without escape characters, and the text with color codes between its characters. -/
inductive Colored : List Char → List Char → Prop
  | nil : Colored [] []
  | char {c : Char} {plain colored : List Char} (hc : c ≠ escapeChar) (h : Colored plain colored) :
    Colored (c :: plain) (c :: colored)
  | code {parameters : String} {plain colored : List Char}
    (hp : ∀ c ∈ parameters.toList, isControlParameter c = true) (h : Colored plain colored) :
    Colored plain ((colorCode parameters).toList ++ colored)

theorem colorCode_toList (parameters : String) :
    (colorCode parameters).toList = escapeChar :: '[' :: (parameters.toList ++ ['m']) := by
  simp [colorCode]

namespace Colored

variable {plain colored plain' colored' : List Char}

theorem same {cs : List Char} (h : escapeChar ∉ cs) : Colored cs cs := by
  induction cs with
  | nil => exact .nil
  | cons c cs ih =>
    rw [List.mem_cons, not_or] at h
    exact .char (Ne.symm h.1) (ih h.2)

theorem append (h : Colored plain colored) (h' : Colored plain' colored') :
    Colored (plain ++ plain') (colored ++ colored') := by
  induction h with
  | nil => exact h'
  | char hc _ ih => exact .char hc ih
  | code hp _ ih =>
    rw [List.append_assoc]
    exact .code hp ih

theorem notMem_plain (h : Colored plain colored) : escapeChar ∉ plain := by
  induction h with
  | nil => simp
  | char hc _ ih => simp [Ne.symm hc, ih]
  | code _ _ ih => exact ih

/-- **The color codes are the control sequences of a colored text.** -/
theorem stripped (h : Colored plain colored) : Stripped colored plain := by
  induction h with
  | nil => exact .nil
  | char hc _ ih =>
    refine .keep (fun s hs hstarts => ?_) ih
    cases hs
    exact hc (List.cons_prefix_cons.1 hstarts).1.symm
  | code hp _ ih =>
    rw [colorCode_toList]
    exact .sequence ⟨hp, by decide⟩ ih

end Colored

/-! ## The removal for an output that is no terminal -/

theorem isEscapeParameter_of_isControlParameter {c : Char} (h : isControlParameter c = true) :
    isEscapeParameter c = true := by
  simp only [isControlParameter, Bool.or_eq_true, beq_iff_eq] at h
  rcases h with (h | rfl) | rfl
  · simp only [Char.isDigit, isEscapeParameter, Char.le_def] at h ⊢
    grind
  · decide
  · decide

theorem stripEscapesFrom_append (s cs : List Char) :
    stripEscapesFrom s.length (s ++ cs) = stripEscapesFrom 0 cs := by
  induction s with
  | nil => rfl
  | cons c s ih => simpa [stripEscapesFrom] using ih

/-- A color code is taken out, whatever follows it. -/
theorem stripEscapesFrom_colorCode {parameters : String}
    (hp : ∀ c ∈ parameters.toList, isControlParameter c = true) (cs : List Char) :
    stripEscapesFrom 0 ((colorCode parameters).toList ++ cs) = stripEscapesFrom 0 cs := by
  have hparameters : ∀ c ∈ parameters.toList, isEscapeParameter c = true := fun c hc =>
    isEscapeParameter_of_isControlParameter (hp c hc)
  have htake : (parameters.toList ++ 'm' :: cs).takeWhile isEscapeParameter = parameters.toList :=
    takeWhile_exact hparameters (by simp [isEscapeParameter])
  have hdrop : (parameters.toList ++ 'm' :: cs).dropWhile isEscapeParameter = 'm' :: cs := by
    rw [List.dropWhile_append_of_pos hparameters]
    rfl
  have hlength : escapeLength ('[' :: (parameters.toList ++ 'm' :: cs)) =
      ('[' :: (parameters.toList ++ ['m'])).length := by
    simp [escapeLength, htake, hdrop, isEscapeFiller, isEscapeEnd]
  have hcs : (colorCode parameters).toList ++ cs =
      escapeChar :: ('[' :: (parameters.toList ++ 'm' :: cs)) := by
    simp [colorCode_toList]
  rw [hcs, stripEscapesFrom, hlength, if_pos (by simp)]
  simpa using stripEscapesFrom_append ('[' :: (parameters.toList ++ ['m'])) cs

theorem Colored.stripEscapesFrom_eq {plain colored : List Char} (h : Colored plain colored) :
    stripEscapesFrom 0 colored = plain := by
  induction h with
  | nil => rfl
  | char hc _ ih => simp [stripEscapesFrom, hc, ih]
  | code hp _ ih => rw [stripEscapesFrom_colorCode hp, ih]

/-! ## Texts of a rendering -/

section

variable {a b : String}

@[simp] theorem unescaped_append : Unescaped (a ++ b) ↔ Unescaped a ∧ Unescaped b := by
  simp [Unescaped]

@[simp] theorem unescaped_ofList {cs : List Char} :
    Unescaped (String.ofList cs) ↔ escapeChar ∉ cs := by
  simp [Unescaped]

theorem unescaped_blanks (n : Int) : Unescaped (blanks n) := by
  rw [blanks, unescaped_ofList]
  exact fun h => absurd (List.eq_of_mem_replicate h) (by decide)

theorem unescaped_natural (n : Nat) : Unescaped (toString n) := by
  intro h
  have hmem : escapeChar ∈ Nat.toDigits 10 n := by simpa using h
  exact absurd (Nat.isDigit_of_mem_toDigits (by decide) (by decide) hmem) (by decide)

theorem unescaped_integer (n : Int) : Unescaped (toString n) := by
  cases n with
  | ofNat n => exact unescaped_natural n
  | negSucc n =>
    have hsign : toString (Int.negSucc n) = "-" ++ toString (n + 1) := rfl
    rw [hsign, unescaped_append]
    exact ⟨by decide, unescaped_natural _⟩

theorem unescaped_of_mem_lines {text line : String} (h : Unescaped text) (hl : line ∈ lines text) :
    Unescaped line := by
  obtain ⟨cs, hcs, rfl⟩ := List.mem_map.1 hl
  exact unescaped_ofList.2 fun hm => h (mem_of_mem_splitLines hcs hm)

/-- A text, and the text with color codes between its characters. -/
def Tinted (plain tinted : String) : Prop :=
  Colored plain.toList tinted.toList

theorem Unescaped.tinted (h : Unescaped a) : Tinted a a :=
  .same h

theorem Tinted.append {a' b' : String} (ha : Tinted a a') (hb : Tinted b b') :
    Tinted (a ++ b) (a' ++ b') := by
  rw [Tinted, String.toList_append, String.toList_append]
  exact Colored.append ha hb

theorem Tinted.joinWith {sep : String} (hs : Unescaped sep) {texts texts' : List String}
    (h : List.Forall₂ Tinted texts texts') : Tinted (joinWith sep texts) (joinWith sep texts') := by
  induction h with
  | nil => exact .nil
  | @cons text text' texts texts' ht hts ih =>
    cases hts with
    | nil => exact ht
    | cons => exact (ht.append hs.tinted).append ih

theorem unescaped_of_joinWith {sep text : String} {texts : List String}
    (h : Unescaped (joinWith sep (text :: texts))) : Unescaped text := by
  cases texts with
  | nil => exact h
  | cons text' texts => exact (unescaped_append.1 (unescaped_append.1 h).1).1

end

end Text

open Text

/-! ## The rows of a diagnostic -/

/-- No line that is known of a file holds an escape character. -/
def Sources.Unescaped (sources : Sources) (file : String) : Prop :=
  ∀ line ∈ sources file, Text.Unescaped line

theorem Sources.Unescaped.line {sources : Sources} {file line : String} (h : sources.Unescaped file)
    {number : Int} (hline : sources.line? file number = some line) : Text.Unescaped line := by
  rw [Sources.line?] at hline
  split at hline
  · exact h line (List.mem_of_getElem? hline)
  · cases hline

/-- What is tinted piece by piece is tinted row by row. -/
theorem tinted_flatMap {α : Type} {l : List α} {f g : α → List String}
    (h : ∀ x ∈ l, List.Forall₂ Tinted (f x) (g x)) :
    List.Forall₂ Tinted (l.flatMap f) (l.flatMap g) := by
  induction l with
  | nil => exact .nil
  | cons x l ih =>
    rw [List.forall_mem_cons] at h
    exact List.rel_append h.1 (ih h.2)

namespace Diagnostic

/-- The texts of a diagnostic, the names of files among them. -/
def texts (d : Diagnostic) : List String :=
  d.code :: d.message :: d.labels.flatMap (fun label => [label.span.file, label.message]) ++
    d.suggestions.flatMap (fun suggestion => [suggestion.message, suggestion.replacement]) ++
    d.notes

section

variable {text : String}

theorem paint_tinted {code : String} (hcode : ∀ c ∈ code.toList, isControlParameter c = true)
    (h : Unescaped text) : Tinted (paint false code text) (paint true code text) := by
  have hoff : Colored [] (colorCode "0").toList := by
    rw [← List.append_nil (colorCode "0").toList]
    exact .code (by simp [isControlParameter]) .nil
  have hon : Colored text.toList
      ((colorCode code).toList ++ (text.toList ++ (colorCode "0").toList)) :=
    .code hcode (by simpa using (Colored.same h).append hoff)
  simpa [Tinted, paint] using hon

theorem severity_parameters (severity : Severity) :
    ∀ c ∈ severity.color.toList, isControlParameter c = true := by
  cases severity <;> simp [Severity.color, isControlParameter]

theorem marginMark_tinted (h : Unescaped text) :
    Tinted (marginMark false text) (marginMark true text) :=
  paint_tinted (by simp [isControlParameter]) h

theorem sourceRow_tinted (width : Nat) (line : Int) (h : Unescaped text) :
    Tinted (sourceRow false width line text) (sourceRow true width line text) := by
  have hnumber : Unescaped
      (blanks (width - (toString line).length : Nat) ++ toString line ++ " |") := by
    simp only [unescaped_append]
    exact ⟨⟨unescaped_blanks _, unescaped_integer line⟩, by decide⟩
  exact ((marginMark_tinted hnumber).append (Unescaped.tinted (by decide))).append h.tinted

theorem unescaped_carets (span : Span) (line : String) : Unescaped (carets span line) := by
  rw [carets, unescaped_ofList]
  exact fun h => absurd (List.eq_of_mem_replicate h) (by decide)

theorem unescaped_heading {span : Span} (h : Unescaped span.file) : Unescaped span.heading := by
  simp only [Span.heading, unescaped_append]
  exact ⟨⟨⟨⟨h, by decide⟩, unescaped_integer _⟩, by decide⟩, unescaped_integer _⟩

variable {sources : Sources}

/-- The text of a line that is patched comes from the line and from the replacement, wherever the
span cuts it. -/
theorem unescaped_patchedLine {span : Span} {replacement : String}
    (hlines : sources.Unescaped span.file) (hreplacement : Unescaped replacement)
    (h : patchedLine? sources span replacement = some text) : Unescaped text := by
  rw [patchedLine?] at h
  split at h
  · cases h
  next line hline =>
    have hl := hlines.line hline
    split at h
    · rw [← Option.some.inj h]
      simp only [unescaped_append, unescaped_ofList]
      exact ⟨⟨fun hm => hl (List.mem_of_mem_take hm), hreplacement⟩,
        fun hm => hl (List.mem_of_mem_drop hm)⟩
    · cases h

theorem labelRows_tinted (width : Nat) (severity : Severity) {label : Label}
    (hlines : sources.Unescaped label.span.file) (hfile : Unescaped label.span.file) (hmessage : Unescaped label.message) :
    List.Forall₂ Tinted (labelRows sources false width severity label)
      (labelRows sources true width severity label) := by
  have hpad : Tinted (blanks width) (blanks width) := (unescaped_blanks _).tinted
  have hblank : Tinted " " " " := Unescaped.tinted (by decide)
  have harrow := marginMark_tinted (by decide : Unescaped "-->")
  have hplace := ((hpad.append harrow).append hblank).append (unescaped_heading hfile).tinted
  have hgap := (hpad.append hblank).append (marginMark_tinted (by decide : Unescaped "|"))
  cases hline : sources.line? label.span.file label.span.startLine with
  | none =>
    simp only [labelRows, hline]
    exact .cons hplace (.cons hgap .nil)
  | some line =>
    have hnote : Tinted
        (if label.message = "" then "" else " " ++ paint false severity.color label.message)
        (if label.message = "" then "" else " " ++ paint true severity.color label.message) := by
      split
      · exact .nil
      · exact hblank.append (paint_tinted (severity_parameters severity) hmessage)
    have hmarker := ((unescaped_blanks (label.span.startCol - 1)).tinted.append
      (paint_tinted (severity_parameters severity) (unescaped_carets label.span line))).append hnote
    simp only [labelRows, hline]
    exact .cons hplace (.cons hgap (.cons (sourceRow_tinted width _ (hlines.line hline))
      (.cons ((hgap.append hblank).append hmarker) .nil)))

theorem suggestionRows_tinted (width : Nat) {first : Option Label} {suggestion : Suggestion}
    (hlines : ∀ label ∈ first, sources.Unescaped label.span.file)
    (hmessage : Unescaped suggestion.message) (hreplacement : Unescaped suggestion.replacement) :
    List.Forall₂ Tinted (suggestionRows sources false width first suggestion)
      (suggestionRows sources true width first suggestion) := by
  have hblank : Tinted " " " " := Unescaped.tinted (by decide)
  have hhelp : Tinted (paint false "1;32" "help") (paint true "1;32" "help") :=
    paint_tinted (by simp [isControlParameter]) (by decide)
  have hrow := ((((((unescaped_blanks width).tinted.append hblank).append
    (marginMark_tinted (by decide : Unescaped "="))).append hblank).append hhelp).append
    (Unescaped.tinted (a := ": ") (by decide))).append hmessage.tinted
  cases first with
  | none => exact .cons hrow .nil
  | some label =>
    cases hline : patchedLine? sources label.span suggestion.replacement with
    | none =>
      simp only [suggestionRows, hline]
      exact .cons hrow .nil
    | some line =>
      simp only [suggestionRows, hline]
      exact .cons hrow (.cons (sourceRow_tinted width _
        (unescaped_patchedLine (hlines label rfl) hreplacement hline)) .nil)

end

theorem noteRow_tinted (width : Nat) {note : String} (h : Unescaped note) :
    Tinted (noteRow false width note) (noteRow true width note) :=
  ((((unescaped_blanks width).tinted.append (Unescaped.tinted (by decide))).append
    (marginMark_tinted (by decide))).append (Unescaped.tinted (by decide))).append h.tinted

theorem header_tinted {d : Diagnostic} (hcode : Unescaped d.code) (hmessage : Unescaped d.message) :
    Tinted (header false d) (header true d) := by
  have hword : Unescaped d.severity.word := by cases d.severity <;> decide
  refine (paint_tinted (severity_parameters _) ?_).append
    (paint_tinted (by simp [isControlParameter]) ?_)
  · simp only [unescaped_append]
    exact ⟨⟨⟨hword, by decide⟩, hcode⟩, by decide⟩
  · exact unescaped_append.2 ⟨by decide, hmessage⟩

theorem not_unescaped_header (d : Diagnostic) : ¬ Unescaped (header true d) := by
  simp [header, paint, Unescaped, colorCode]

/-- **Each row in color is the plain row with color codes.** -/
theorem rows_tinted {d : Diagnostic} {sources : Sources} (hd : ∀ text ∈ d.texts, Unescaped text)
    (hlines : ∀ label ∈ d.labels, sources.Unescaped label.span.file) :
    List.Forall₂ Tinted (d.rows sources false) (d.rows sources true) := by
  simp only [texts, List.cons_append, List.forall_mem_cons, List.forall_mem_append,
    List.forall_mem_flatMap, List.not_mem_nil, false_imp_iff, implies_true, and_true] at hd
  obtain ⟨hcode, hmessage, ⟨hlabels, hsuggestions⟩, hnotes⟩ := hd
  have hlabelRows := tinted_flatMap fun label hl =>
    labelRows_tinted d.numberWidth d.severity (hlines label hl) (hlabels label hl).1
      (hlabels label hl).2
  have hfirst : ∀ label ∈ d.labels.head?, sources.Unescaped label.span.file :=
    fun label hl => hlines label (List.mem_of_head? hl)
  have hsuggestionRows := tinted_flatMap fun suggestion hs =>
    suggestionRows_tinted d.numberWidth hfirst (hsuggestions suggestion hs).1
      (hsuggestions suggestion hs).2
  have hnoteRows : List.Forall₂ Tinted (d.notes.map (noteRow false d.numberWidth))
      (d.notes.map (noteRow true d.numberWidth)) := by
    rw [List.forall₂_map_left_iff, List.forall₂_map_right_iff, List.forall₂_same]
    exact fun note hn => noteRow_tinted d.numberWidth (hnotes note hn)
  exact List.rel_append (List.rel_append (.cons (header_tinted hcode hmessage) hlabelRows)
    hsuggestionRows) hnoteRows

end Diagnostic

/-- **Colors only add escape sequences.** For every file that a label points into, let the lines that
may be shown be those of a text, be it given or read from disk. Let neither these texts nor those of
the diagnostic hold an escape character. Then taking the control sequences out of the diagnostic in
color leaves the plain diagnostic and nothing else, whatever the spans are, and so does the removal
that is made for an output that is no terminal. The plain diagnostic holds no escape character, and
the one in color does. -/
theorem colors_only_add_escapes (d : Diagnostic) {sources : Sources} {texts : String → String}
    (hsources : ∀ label ∈ d.labels, sources label.span.file = lines (texts label.span.file))
    (htexts : ∀ label ∈ d.labels, Unescaped (texts label.span.file))
    (hd : ∀ text ∈ d.texts, Unescaped text) :
    (∀ left, Stripped (d.render sources true).toList left ↔
      left = (d.render sources false).toList) ∧
    stripEscapes (d.render sources true) = d.render sources false ∧
    Unescaped (d.render sources false) ∧ ¬ Unescaped (d.render sources true) := by
  have hlines : ∀ label ∈ d.labels, sources.Unescaped label.span.file := by
    intro label hl line hline
    rw [hsources label hl] at hline
    exact unescaped_of_mem_lines (htexts label hl) hline
  have htinted : Tinted (d.render sources false) (d.render sources true) :=
    .joinWith (by decide) (Diagnostic.rows_tinted hd hlines)
  refine ⟨fun left => ⟨fun h => h.unique htinted.stripped, ?_⟩, ?_, htinted.notMem_plain,
    fun h => d.not_unescaped_header (unescaped_of_joinWith h)⟩
  · rintro rfl
    exact htinted.stripped
  · rw [stripEscapes, Colored.stripEscapesFrom_eq htinted, String.ofList_toList]

/-- A warning whose texts could go on with a color code, and whose columns are nowhere. -/
def Diagnostic.misplaced : Diagnostic where
  severity := .warning
  code := "31m"
  message := ";1m"
  labels := [⟨⟨"0m", 1, -3, 1, 1⟩, "[0m"⟩, ⟨⟨"x", -10, 0, 7, -2⟩, "?"⟩]
  suggestions := [⟨"7", "[1;31m"⟩]
  notes := ["m"]

theorem colors_only_add_escapes_misplaced :
    (∀ text ∈ Diagnostic.misplaced.texts, Unescaped text) ∧ Unescaped "[2K" ∧
      Diagnostic.misplaced.render (fun _ => lines "[2K") false =
        "warning[31m]: ;1m\n   --> 0m:1:-3\n    |\n  1 | [2K\n    | ^^^^^ [0m\n" ++
          "   --> x:-10:0\n    |\n    = help: 7\n  1 | [1;31m2K\n    = note: m" ∧
      Stripped (Diagnostic.misplaced.render (fun _ => lines "[2K") true).toList
        (Diagnostic.misplaced.render (fun _ => lines "[2K") false).toList := by
  have hd : ∀ text ∈ Diagnostic.misplaced.texts, Unescaped text := by decide +kernel
  have htext : Unescaped "[2K" := by decide
  obtain ⟨hstripped, -⟩ := @colors_only_add_escapes Diagnostic.misplaced (fun _ => lines "[2K")
    (fun _ => "[2K") (fun _ _ => rfl) (fun _ _ => htext) hd
  exact ⟨hd, htext, by decide +kernel, (hstripped _).2 rfl⟩

end TypeDesc
