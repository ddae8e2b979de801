/-
The coloring of a text, piece by piece. The rules are tried in order at each
place, and the scanner cuts the same text into lexemes. At the start of a lexeme
the first rule that matches takes the whole of it (`agrees_blanks`,
`agrees_comment`, `agrees_word`, `agrees_mark`), a declaration three at once
(`agrees_declaration`), and a stray character is colored as such. The one
exception is a word that starts with a whole keyword and a quote: the keyword is
taken and the quote is left over. So a coloring has a stray piece exactly if a
lexeme is stray or a word is split, and otherwise shows the texts of the tokens
(`color_agrees`).
-/
import TypeDesc.Coloring.Description
import TypeDesc.Proofs.HoverWords
import TypeDesc.Proofs.SettingsText

namespace TypeDesc.Coloring

open Lexeme DescriptionClass

/-! ## Steps of a coloring -/

section

variable {μ κ : Type} (rules : Rules μ κ) (other : κ) (mode : μ)

/-- The characters of a piece that has been found are passed over. -/
theorem cutFrom_length (taken rest : List Char) (before : Option Char) :
    cutFrom rules other taken.length mode before (taken ++ rest) =
      cutFrom rules other 0 mode (taken.getLast?.or before) rest := by
  induction taken generalizing before with
  | nil => simp
  | cons c taken ih =>
    rw [List.length_cons, List.cons_append, cutFrom, ih, List.getLast?_cons]
    cases taken.getLast? <;> rfl

end

/-- The pieces of what is left of a description behind the character `before`. -/
def color (before : Option Char) (cs : List Char) : List (Piece DescriptionClass) :=
  cutFrom (fun _ : Unit => rules.map fun rule => (rule, ())) .stray 0 () before cs

/-- What the first rule that matches finds. -/
def matched (before : Option Char) (cs : List Char) : Option (List (Piece DescriptionClass)) :=
  rules.findSome? fun rule => rule before cs

theorem ofDescription_eq (source : String) :
    ofDescription source = color none (prepare source.toList) := rfl

theorem firstMatch_eq (before : Option Char) (cs : List Char) :
    firstMatch (rules.map fun rule => (rule, ())) before cs =
      (matched before cs).map fun pieces => (pieces, ()) := by
  rw [firstMatch, matched, List.findSome?_map, List.map_findSome?]
  rfl

@[simp] theorem color_nil (before : Option Char) : color before [] = [] := rfl

theorem color_of_matched {before : Option Char} {c : Char} {taken rest : List Char}
    {pieces : List (Piece DescriptionClass)}
    (h : matched before (c :: taken ++ rest) = some pieces)
    (htext : pieces.flatMap (·.text) = c :: taken) :
    color before (c :: taken ++ rest) = pieces ++ color (c :: taken).getLast? rest := by
  have hextent : extent pieces - 1 = taken.length := by
    rw [extent, htext, List.length_cons, Nat.add_sub_cancel]
  rw [color, List.cons_append, cutFrom, ← List.cons_append, firstMatch_eq, h]
  simp only [Option.map_some, hextent]
  rw [cutFrom_length, List.getLast?_cons]
  cases taken.getLast? <;> rfl

theorem color_of_not_matched {before : Option Char} {c : Char} {cs : List Char}
    (h : matched before (c :: cs) = none) :
    color before (c :: cs) = ⟨.stray, [c]⟩ :: color (some c) cs := by
  rw [color, cutFrom, firstMatch_eq, h]
  rfl

/-! ## Parts of rules at the start of a word -/

section

variable {p q : Char → Bool} {c : Char} {cs : List Char}

theorem run_of_not (h : p c = false) : run p (c :: cs) = none := by
  simp [run, h]

theorem headAndRun_of_not (h : p c = false) : headAndRun p q (c :: cs) = none := by
  simp [headAndRun, h]

theorem comment?_of_ne (h : c ≠ '/') : comment? (c :: cs) = none := by
  unfold comment?
  split
  next heq => exact absurd (List.cons.inj heq).1 h
  next => rfl

theorem inWord_of_continuesWord (h : continuesWord c = true) (hq : c ≠ '\x27') :
    inWord (some c) = true := by
  have hc := Editor.inWord_of_continuesWord h
  simpa [Editor.inWord, inWord, Text.isWordChar, hq] using hc

theorem inWord_of_beside (h : Beside c) : inWord (some c) = false := by
  have hc := Editor.inWord_of_beside h
  simp only [Editor.inWord, Bool.or_eq_false_iff] at hc
  simp [inWord, Text.isWordChar, hc]

end

/-- The words that are taken only as a whole. -/
def wholeWords : List String := ["params", "void", "unit"]

theorem letters_of_wholeWords : ∀ word ∈ wholeWords, ∀ c ∈ word.toList,
    continuesWord c = true ∧ c ≠ '\x27' := by
  have hall : wholeWords.all
      (fun word => word.toList.all fun c => continuesWord c && c != '\x27') = true := by
    decide +kernel
  intro word hm c hc
  simpa using List.all_eq_true.1 (List.all_eq_true.1 hall word hm) c hc

/-- A word that starts with one of some words and a quote. -/
def SplitsAt (words : List String) (word : List Char) : Prop :=
  ∃ whole ∈ words, whole.toList ++ ['\x27'] <+: word

instance (words : List String) (word : List Char) : Decidable (SplitsAt words word) :=
  List.decidableBEx _ _

theorem not_splitsAt {words : List String} {word : List Char} (h : '\x27' ∉ word) :
    ¬ SplitsAt words word := by
  rintro ⟨whole, -, hstarts⟩
  exact h (hstarts.subset (by simp))

section

variable {first : Char} {more rest : List Char} (hf : (Lexeme.word first more).Fits rest)
include hf

theorem continuesWord_of_word : ∀ c ∈ first :: more, continuesWord c = true :=
  List.forall_mem_cons.2 ⟨startsWord_continuesWord hf.1, hf.2.1⟩

theorem headAndRun_word {p : Char → Bool} (hp : p first = true) :
    headAndRun p continuesWord (first :: more ++ rest) = some (first :: more) := by
  rw [List.cons_append, headAndRun, if_pos hp, takeWhile_exact hf.2.1 hf.2.2]

theorem identifier?_word : identifier? (first :: more ++ rest) = some (first :: more) :=
  headAndRun_word hf hf.1

theorem beforeColon?_word : beforeColon? (first :: more ++ rest) = none ∨
    beforeColon? (first :: more ++ rest) = some (first :: more) := by
  rw [beforeColon?, identifier?_word hf]
  dsimp only
  split
  · exact .inr rfl
  · exact .inl rfl

/-- What continues a word does not reach beyond it. -/
theorem prefix_word {word : List Char} (hword : ∀ c ∈ word, continuesWord c = true)
    (h : word <+: first :: more ++ rest) : word <+: first :: more := by
  rcases List.prefix_or_prefix_of_prefix h (List.prefix_append (first :: more) rest) with hp | hp
  · exact hp
  · obtain ⟨tail, rfl⟩ := hp
    rw [List.prefix_append_right_inj] at h
    cases tail with
    | nil => simp
    | cons c tail =>
      obtain ⟨rest, rfl⟩ := h
      have hc : continuesWord c = false := hf.2.2 c rfl
      rw [hword c (by simp)] at hc
      cases hc

/-- A rule for whole words takes a word without a quote, or the whole word before a quote. -/
theorem wholeWord_cases (words : List String) (hwords : ∀ word ∈ words, word ∈ wholeWords)
    {before : Option Char} (hbefore : inWord before = false) :
    (∃ whole ∈ words, ∃ tail, first :: more = whole.toList ++ '\x27' :: tail ∧
        wholeWord words before (first :: more ++ rest) = some whole.toList) ∨
      wholeWord words before (first :: more ++ rest) = none ∧ ¬ SplitsAt words (first :: more) ∨
      wholeWord words before (first :: more ++ rest) = some (first :: more) ∧
        '\x27' ∉ first :: more := by
  rw [wholeWord, if_neg (by simp [hbefore])]
  cases hfind : (words.map String.toList).find? fun word =>
      word.isPrefixOf (first :: more ++ rest) &&
        !inWord ((first :: more ++ rest).drop word.length).head? with
  | none =>
    refine .inr (.inl ⟨rfl, ?_⟩)
    rintro ⟨whole, hm, tail, heq⟩
    have hnot := List.find?_eq_none.1 hfind whole.toList (List.mem_map_of_mem hm)
    rw [← heq, List.append_assoc, List.append_assoc] at hnot
    have hquote : inWord (some '\x27') = false := by decide
    simp [hquote] at hnot
  | some word =>
    have hword := List.find?_some hfind
    obtain ⟨whole, hm, rfl⟩ := List.mem_map.1 (List.mem_of_find?_eq_some hfind)
    simp only [Bool.and_eq_true, List.isPrefixOf_iff_prefix, Bool.not_eq_true'] at hword
    have hletters := letters_of_wholeWords whole (hwords whole hm)
    obtain ⟨tail, htail⟩ := prefix_word hf (fun c hc => (hletters c hc).1) hword.1
    rw [← htail]
    cases tail with
    | nil =>
      rw [List.append_nil]
      exact .inr (.inr ⟨rfl, fun hquote => (hletters _ hquote).2 rfl⟩)
    | cons c tail =>
      have hc : c = '\x27' := by
        by_contra hne
        have hin := inWord_of_continuesWord (continuesWord_of_word hf c (by simp [← htail])) hne
        have hend := hword.2
        rw [← htail, List.append_assoc, List.drop_left, List.cons_append, List.head?_cons,
          hin] at hend
        cases hend
      exact .inl ⟨whole, hm, tail, by rw [hc], rfl⟩

end

/-! ## Declarations -/

/-- Whether a word declares the name behind it. -/
def declares (word : List Char) : Bool :=
  word == ['r', 'e', 'c'] || word == ['a', 'l', 'i', 'a', 's']

theorem run_blanks {c : Char} {cs : List Char} (h : Text.isBlank c = true) :
    run Text.isBlank (c :: cs) = some ((c :: cs).takeWhile Text.isBlank) := by
  simp [run, h]

theorem drop_run {p : Char → Bool} {cs taken : List Char} (h : run p cs = some taken) :
    cs.drop taken.length = cs.dropWhile p := by
  cases cs with
  | nil => cases h
  | cons c cs =>
    rw [run] at h
    split at h
    next hc =>
      cases h
      rw [List.dropWhile_cons_of_pos hc, List.length_cons, List.drop_succ_cons]
      nth_rewrite 2 [← List.takeWhile_append_dropWhile (p := p) (l := cs)]
      rw [List.drop_left]
    next => cases h

theorem identifier?_eq_none {cs : List Char} (h : ∀ c ∈ cs.head?, startsWord c = false) :
    identifier? cs = none := by
  cases cs with
  | nil => rfl
  | cons c cs => exact headAndRun_of_not (h c rfl)

section

variable {first : Char} {more rest : List Char} (hf : (Lexeme.word first more).Fits rest)
include hf

theorem declaration_eq_some {before : Option Char} (hbefore : inWord before = false)
    (hd : declares (first :: more) = true)
    {blanks : List Char} {next : Char} {name rest' : List Char}
    (hblanks : ∀ c ∈ blanks, Text.isBlank c = true)
    (hrest : rest = blanks ++ (next :: name ++ rest')) (hname : (Lexeme.word next name).Fits rest') :
    declaration before (first :: more ++ rest) =
      some [⟨.declarationWord, first :: more⟩, ⟨.blank, blanks⟩, ⟨.declaredName, next :: name⟩] := by
  have hword : oneOf ["rec", "alias"] (first :: more ++ rest) = some (first :: more) := by
    simp only [declares, Bool.or_eq_true, beq_iff_eq] at hd
    rcases hd with hd | hd
    · rw [hd]
      rfl
    · rw [hd]
      rfl
  have hrun : run Text.isBlank rest = some blanks := by
    cases blanks with
    | nil =>
      -- without a blank the name would belong to the word before it
      have hend : continuesWord next = false := hf.2.2 next (by simp [hrest])
      rw [startsWord_continuesWord hname.1] at hend
      cases hend
    | cons c blanks =>
      have hplain := continuesWord_plain (startsWord_continuesWord hname.1)
      rw [hrest, List.cons_append, run_blanks (hblanks c (by simp)), ← List.cons_append,
        takeWhile_exact hblanks (by simpa using hplain.1)]
  rw [declaration, if_neg (by simp [hbefore]), hword]
  simp only [List.drop_left, hrun]
  rw [← List.drop_drop, List.drop_left, hrest, List.drop_left, identifier?_word hname]
  rfl

theorem declaration_eq_none (before : Option Char)
    (h : declares (first :: more) = true →
      ∀ c ∈ (rest.dropWhile Text.isBlank).head?, startsWord c = false) :
    declaration before (first :: more ++ rest) = none := by
  rw [declaration]
  split
  next => rfl
  cases hword : oneOf ["rec", "alias"] (first :: more ++ rest) with
  | none => rfl
  | some word =>
    have hprefix : word <+: first :: more ++ rest := by
      simpa using List.find?_some hword
    have hmem : word = ['r', 'e', 'c'] ∨ word = ['a', 'l', 'i', 'a', 's'] := by
      simpa using List.mem_of_find?_eq_some hword
    have hletters : word.all continuesWord = true := by
      rcases hmem with rfl | rfl <;> rfl
    obtain ⟨tail, htail⟩ := prefix_word hf (List.all_eq_true.1 hletters) hprefix
    simp only [← List.drop_drop]
    cases tail with
    | nil =>
      rw [List.append_nil] at htail
      subst htail
      rw [List.drop_left]
      cases hrun : run Text.isBlank rest with
      | none => rfl
      | some blanks =>
        have hnone := identifier?_eq_none (h (by simpa [declares] using hmem))
        rw [← drop_run hrun] at hnone
        simp only [hnone, Option.map_none]
    | cons c tail =>
      have hplain := continuesWord_plain (continuesWord_of_word hf c (by simp [← htail]))
      rw [← htail, List.append_assoc, List.drop_left, List.cons_append, run_of_not hplain.1]

end

/-! ## The first match -/

/-- Whether pieces of a class stand for tokens. -/
def standsForToken : DescriptionClass → Bool
  | .blank | .comment | .stray => false
  | _ => true

theorem startsVariable_of_startsWord {c : Char} (h : startsWord c = true)
    (hupper : isAsciiUpper c = false) : startsVariable c = true := by
  simp only [startsWord, Text.isAsciiLetter, isAsciiUpper, startsVariable, Bool.or_eq_true] at *
  grind

theorem matched_blank {c : Char} {cs : List Char} (h : Text.isBlank c = true)
    (before : Option Char) :
    matched before (c :: cs) = some [⟨.blank, (c :: cs).takeWhile Text.isBlank⟩] := by
  simp only [matched, rules, List.findSome?_cons, plainRule, rule, run_blanks h, Option.map_some]

theorem matched_comment {body rest : List Char} (hf : (Lexeme.comment body).Fits rest)
    (before : Option Char) :
    matched before ('/' :: '/' :: body ++ rest) = some [⟨.comment, '/' :: '/' :: body⟩] := by
  have hslash : run Text.isBlank ('/' :: '/' :: body ++ rest) = none := run_of_not (by decide)
  have hcomment : comment? ('/' :: '/' :: body ++ rest) = some ('/' :: '/' :: body) := by
    have hbody : (body ++ rest).takeWhile (· ≠ '\n') = body :=
      takeWhile_exact (fun c hc => by simpa using ne_of_mem_of_not_mem hc hf.1)
        (fun c hc => by simp [hf.2 c hc])
    rw [List.cons_append, List.cons_append, comment?, hbody]
  simp only [matched, rules, List.findSome?_cons, plainRule, rule, hslash, hcomment,
    Option.map_none, Option.map_some]

section

variable {first : Char} {more rest : List Char} (hf : (Lexeme.word first more).Fits rest)
  {before : Option Char} (hbefore : inWord before = false)
include hf hbefore

theorem matched_declaration (hd : declares (first :: more) = true)
    {blanks : List Char} {next : Char} {name rest' : List Char}
    (hblanks : ∀ c ∈ blanks, Text.isBlank c = true)
    (hrest : rest = blanks ++ (next :: name ++ rest')) (hname : (Lexeme.word next name).Fits rest') :
    matched before (first :: more ++ rest) =
      some [⟨.declarationWord, first :: more⟩, ⟨.blank, blanks⟩, ⟨.declaredName, next :: name⟩] := by
  obtain ⟨hblank, hslash, -⟩ := continuesWord_plain (startsWord_continuesWord hf.1)
  have hdeclaration := declaration_eq_some hf hbefore hd hblanks hrest hname
  rw [List.cons_append] at hdeclaration ⊢
  simp only [matched, rules, List.findSome?_cons, plainRule, rule, run_of_not hblank,
    comment?_of_ne hslash, Option.map_none, hdeclaration]

omit hbefore in
/-- A word that is no keyword is matched as a name. -/
theorem matched_name (hdeclaration : declaration before (first :: more ++ rest) = none)
    (hparams : wholeWord ["params"] before (first :: more ++ rest) = none)
    (htype : wholeWord ["void", "unit"] before (first :: more ++ rest) = none) :
    ∃ kind, standsForToken kind = true ∧
      matched before (first :: more ++ rest) = some [⟨kind, first :: more⟩] := by
  obtain ⟨hblank, hslash, -⟩ := continuesWord_plain (startsWord_continuesWord hf.1)
  have hrun : run Text.isBlank (first :: more ++ rest) = none := run_of_not hblank
  have hcomment : comment? (first :: more ++ rest) = none := comment?_of_ne hslash
  simp only [matched, rules, List.findSome?_cons, plainRule, rule, hrun, hcomment,
    hdeclaration, hparams, htype, Option.map_none]
  rcases beforeColon?_word hf with hcolon | hcolon
  · by_cases hupper : isAsciiUpper first = true
    · exact ⟨.ctorName, rfl, by simp only [hcolon, headAndRun_word hf hupper, Option.map_none,
        Option.map_some]⟩
    · have hlower := startsVariable_of_startsWord hf.1 (by simpa using hupper)
      have hnone : headAndRun isAsciiUpper continuesWord (first :: more ++ rest) = none :=
        headAndRun_of_not (by simpa using hupper)
      exact ⟨.variableName, rfl, by simp only [hcolon, hnone, headAndRun_word hf hlower,
        Option.map_none, Option.map_some]⟩
  · exact ⟨.ctorName, rfl, by simp only [hcolon, Option.map_some]⟩

/-- A word that declares nothing is matched as a whole, unless it is split. -/
theorem matched_word (hd : declares (first :: more) = true →
      ∀ c ∈ (rest.dropWhile Text.isBlank).head?, startsWord c = false) :
    (∃ whole ∈ wholeWords, ∃ tail kind, first :: more = whole.toList ++ '\x27' :: tail ∧
        standsForToken kind = true ∧
        matched before (first :: more ++ rest) = some [⟨kind, whole.toList⟩]) ∨
      ¬ SplitsAt wholeWords (first :: more) ∧ ∃ kind, standsForToken kind = true ∧
        matched before (first :: more ++ rest) = some [⟨kind, first :: more⟩] := by
  obtain ⟨hblank, hslash, -⟩ := continuesWord_plain (startsWord_continuesWord hf.1)
  have hrun : run Text.isBlank (first :: more ++ rest) = none := run_of_not hblank
  have hcomment : comment? (first :: more ++ rest) = none := comment?_of_ne hslash
  have hdeclaration := declaration_eq_none hf before hd
  rcases wholeWord_cases hf ["params"] (by simp [wholeWords]) hbefore with
    ⟨whole, hm, tail, heq, hparams⟩ | ⟨hparams, hsplits⟩ | ⟨hparams, hquote⟩
  · rw [List.mem_singleton.1 hm] at heq hparams
    refine .inl ⟨"params", by simp [wholeWords], tail, .paramsWord, heq, rfl, ?_⟩
    simp only [matched, rules, List.findSome?_cons, plainRule, rule, hrun, hcomment, hdeclaration,
      hparams, Option.map_none, Option.map_some]
  · rcases wholeWord_cases hf ["void", "unit"] (by simp [wholeWords]) hbefore with
      ⟨whole, hm, tail, heq, htype⟩ | ⟨htype, hsplits'⟩ | ⟨htype, hquote⟩
    · refine .inl ⟨whole, List.mem_cons_of_mem _ hm, tail, .typeWord, heq, rfl, ?_⟩
      simp only [matched, rules, List.findSome?_cons, plainRule, rule, hrun, hcomment,
        hdeclaration, hparams, htype, Option.map_none, Option.map_some]
    · refine .inr ⟨?_, matched_name hf hdeclaration hparams htype⟩
      rintro ⟨whole, hm, hstarts⟩
      rcases List.mem_cons.1 hm with rfl | hm
      · exact hsplits ⟨_, by simp, hstarts⟩
      · exact hsplits' ⟨whole, hm, hstarts⟩
    · refine .inr ⟨not_splitsAt hquote, .typeWord, rfl, ?_⟩
      simp only [matched, rules, List.findSome?_cons, plainRule, rule, hrun, hcomment,
        hdeclaration, hparams, htype, Option.map_none, Option.map_some]
  · refine .inr ⟨not_splitsAt hquote, .paramsWord, rfl, ?_⟩
    simp only [matched, rules, List.findSome?_cons, plainRule, rule, hrun, hcomment, hdeclaration,
      hparams, Option.map_none, Option.map_some]

end

section

variable {c : Char} {cs : List Char} (hstarts : startsWord c = false)
include hstarts

theorem not_isPrefixOf {word : List Char} (hword : word.head?.any startsWord = true) :
    word.isPrefixOf (c :: cs) = false := by
  cases word with
  | nil => cases hword
  | cons x word =>
    have hne : x ≠ c := by
      rintro rfl
      simp [hstarts] at hword
    simp [List.isPrefixOf, hne]

theorem wholeWord_of_not (words : List String) (before : Option Char)
    (hwords : words.all (·.toList.head?.any startsWord) = true) :
    wholeWord words before (c :: cs) = none := by
  rw [wholeWord]
  split
  next => rfl
  refine List.find?_eq_none.2 fun word hm => ?_
  obtain ⟨text, ht, rfl⟩ := List.mem_map.1 hm
  simp [not_isPrefixOf hstarts (List.all_eq_true.1 hwords text ht)]

theorem declaration_of_not (before : Option Char) : declaration before (c :: cs) = none := by
  have hone : oneOf ["rec", "alias"] (c :: cs) = none := by
    have hr : "rec".toList.isPrefixOf (c :: cs) = false := not_isPrefixOf hstarts rfl
    have ha : "alias".toList.isPrefixOf (c :: cs) = false := not_isPrefixOf hstarts rfl
    simp only [oneOf, List.map_cons, List.map_nil, List.find?_cons, hr, ha, List.find?_nil]
  rw [declaration, hone]
  split <;> rfl

/-- Where no word starts, only the rules for single characters are left. -/
theorem matched_of_not_startsWord (before : Option Char) (hblank : Text.isBlank c = false)
    (hcomment : comment? (c :: cs) = none) :
    matched before (c :: cs) =
      if c = '+' ∨ c = '*' then some [⟨.operator, [c]⟩]
      else if c ∈ ['(', ')', ',', '\x7b', '\x7d', ':'] then some [⟨.punctuation, [c]⟩]
      else none := by
  have hcolon : beforeColon? (c :: cs) = none := by
    rw [beforeColon?, identifier?, headAndRun_of_not hstarts]
  have hupper : isAsciiUpper c = false := by
    simp only [startsWord, Text.isAsciiLetter, isAsciiUpper, Bool.or_eq_false_iff] at *
    exact hstarts.1.2
  have hvariable : startsVariable c = false := by
    simp only [startsWord, Text.isAsciiLetter, startsVariable, Bool.or_eq_false_iff] at *
    exact ⟨hstarts.1.1, hstarts.2⟩
  simp only [matched, rules, List.findSome?_cons, plainRule, rule, run_of_not hblank, hcomment,
    declaration_of_not hstarts, wholeWord_of_not hstarts ["params"] before rfl,
    wholeWord_of_not hstarts ["void", "unit"] before rfl, hcolon,
    headAndRun_of_not hupper, headAndRun_of_not hvariable, Option.map_none, single]
  by_cases hop : c = '+' ∨ c = '*'
  · simp [hop]
  · by_cases hmark : c ∈ ['(', ')', ',', '\x7b', '\x7d', ':']
    · simp [hop, hmark]
    · simp [hop, hmark]

end

theorem matched_mark {c : Char} {kind : TokenKind} (h : TokenKind.marks.lookup c = some kind)
    (before : Option Char) (rest : List Char) :
    ∃ class', standsForToken class' = true ∧
      matched before (c :: rest) = some [⟨class', [c]⟩] := by
  obtain ⟨hstarts, hblank, hslash⟩ := TokenKind.plain_of_mark h
  have hall : ∀ p ∈ TokenKind.marks, (p.1 = '+' ∨ p.1 = '*') ∨
      p.1 ∈ ['(', ')', ',', '\x7b', '\x7d', ':'] := by
    decide
  obtain ⟨front, back, hm, -⟩ := List.lookup_eq_some_iff.1 h
  rw [matched_of_not_startsWord hstarts before hblank (comment?_of_ne hslash)]
  rcases hall (c, kind) (hm ▸ by simp) with hop | hpunct
  · exact ⟨.operator, rfl, if_pos hop⟩
  · by_cases hop : c = '+' ∨ c = '*'
    · exact ⟨.operator, rfl, if_pos hop⟩
    · exact ⟨.punctuation, rfl, by rw [if_neg hop, if_pos hpunct]⟩

theorem matched_stray {c : Char} {rest : List Char} (hf : (Lexeme.stray c).Fits rest)
    (before : Option Char) : matched before (c :: rest) = none := by
  obtain ⟨hblank, hstarts, hmark, hslash⟩ := hf
  have hcomment : comment? (c :: rest) = none := by
    unfold comment?
    split
    next heq =>
      obtain ⟨rfl, rfl⟩ := List.cons.inj heq
      exact absurd ⟨rfl, rfl⟩ hslash
    next => rfl
  rw [matched_of_not_startsWord hstarts before hblank hcomment, if_neg, if_neg]
  · intro hpunct
    simp only [List.mem_cons, List.not_mem_nil, or_false] at hpunct
    rcases hpunct with rfl | rfl | rfl | rfl | rfl | rfl <;> cases hmark
  · rintro (rfl | rfl) <;> cases hmark

/-! ## Words that are split -/

/-- Whether a word behind a lexeme is a declared name, given whether the lexeme itself, if it is a
word, is one. -/
def namesNext (named : Bool) : Lexeme → Bool
  | .blank _ => named
  | .word first more => !named && declares (first :: more)
  | _ => false

/-- Every word that starts with a whole word and a quote is a declared name. -/
def Unsplit (named : Bool) (lexemes : List Lexeme) : Prop :=
  ∀ front first more back, lexemes = front ++ .word first more :: back →
    SplitsAt wholeWords (first :: more) → front.foldl namesNext named = true

/-- A lexeme that is no word to be split, or a declared name. -/
def Whole (named : Bool) : Lexeme → Prop
  | .word first more => SplitsAt wholeWords (first :: more) → named = true
  | _ => True

instance (named : Bool) : (lexeme : Lexeme) → Decidable (Whole named lexeme)
  | .word first more =>
    inferInstanceAs (Decidable (SplitsAt wholeWords (first :: more) → named = true))
  | .blank _ | .comment _ | .mark _ _ | .stray _ => .isTrue trivial

section

variable {named : Bool} {lexeme : Lexeme} {lexemes : List Lexeme}

theorem unsplit_nil : Unsplit named [] := by
  intro front first more back h
  simp at h

theorem unsplit_cons : Unsplit named (lexeme :: lexemes) ↔
    Whole named lexeme ∧ Unsplit (namesNext named lexeme) lexemes := by
  constructor
  · intro h
    refine ⟨?_, fun front first more back heq =>
      h (lexeme :: front) first more back (by rw [heq]; rfl)⟩
    cases lexeme with
    | word first more => exact h [] first more lexemes rfl
    | blank | comment | mark | stray => trivial
  · rintro ⟨hfirst, hmore⟩ front first more back heq
    cases front with
    | nil =>
      obtain ⟨rfl, -⟩ := List.cons.inj heq
      exact hfirst
    | cons x front =>
      obtain ⟨rfl, rfl⟩ := List.cons.inj heq
      exact hmore front first more back rfl

theorem unsplit_cons_of_not_word (h : ∀ first more, lexeme ≠ .word first more) :
    Unsplit named (lexeme :: lexemes) ↔ Unsplit (namesNext named lexeme) lexemes := by
  rw [unsplit_cons]
  refine and_iff_right ?_
  cases lexeme with
  | word first more => exact absurd rfl (h first more)
  | blank | comment | mark | stray => trivial

instance decidableUnsplit :
    (named : Bool) → (lexemes : List Lexeme) → Decidable (Unsplit named lexemes)
  | _, [] => .isTrue unsplit_nil
  | named, lexeme :: lexemes =>
    have := decidableUnsplit (namesNext named lexeme) lexemes
    decidable_of_iff' _ unsplit_cons

theorem unsplit_blanks (blanks : List Char) :
    Unsplit named (blanks.map .blank ++ lexemes) ↔ Unsplit named lexemes := by
  induction blanks with
  | nil => rfl
  | cons c blanks ih =>
    rw [List.map_cons, List.cons_append, unsplit_cons_of_not_word (by simp)]
    exact ih

end

/-- Where neither a blank nor a word comes next, no name is declared. -/
theorem unsplit_cut {cs : List Char}
    (h : ∀ c ∈ cs.head?, Text.isBlank c = false ∧ startsWord c = false) (named : Bool) :
    Unsplit named (Lexeme.cut cs) ↔ Unsplit false (Lexeme.cut cs) := by
  have hcut : Pieces cs (Lexeme.cut cs) := pieces_iff.2 rfl
  generalize Lexeme.cut cs = lexemes at hcut
  cases hcut with
  | nil => exact iff_of_true unsplit_nil unsplit_nil
  | @cons piece rest pieces hf _ =>
    cases piece with
    | blank c =>
      have hc := (h c rfl).1
      rw [hf] at hc
      cases hc
    | word first more =>
      have hfirst := (h first rfl).2
      rw [hf.1] at hfirst
      cases hfirst
    | comment | mark | stray =>
      rw [unsplit_cons_of_not_word (by simp), unsplit_cons_of_not_word (by simp)]
      rfl

/-! ## Agreement -/

/-- The text of the token of a lexeme, if it makes one. -/
def tokenText : Lexeme → List (List Char)
  | .word first more => [first :: more]
  | .mark c _ => [[c]]
  | _ => []

/-- The texts of the pieces that stand for tokens. -/
def shownTexts (pieces : List (Piece DescriptionClass)) : List (List Char) :=
  (pieces.filter fun p => standsForToken p.kind).map (·.text)

/-- What is colored as blanks consists of blanks, and what is colored as a comment is one. -/
def Fitting (p : Piece DescriptionClass) : Prop :=
  (p.kind = .blank → p.text ≠ [] ∧ ∀ c ∈ p.text, Text.isBlank c = true) ∧
  (p.kind = .comment → ∃ body, p.text = '/' :: '/' :: body ∧ '\n' ∉ body)

/-- A piece that stands for a token is fitting. -/
theorem fitting_of_standsForToken {p : Piece DescriptionClass} (h : standsForToken p.kind = true) :
    p.kind ≠ .stray ∧ Fitting p := by
  refine ⟨?_, ?_, ?_⟩
  all_goals
    intro heq
    rw [heq] at h
    cases h

/-- Pieces have a stray one exactly if a lexeme is stray or a word is split, and otherwise they are
fitting and show the texts of the tokens. -/
structure Agreement (lexemes : List Lexeme) (pieces : List (Piece DescriptionClass)) : Prop where
  stray_iff : (∀ p ∈ pieces, p.kind ≠ .stray) ↔
    (∀ c, .stray c ∉ lexemes) ∧ Unsplit false lexemes
  shown : (∀ p ∈ pieces, p.kind ≠ .stray) →
    shownTexts pieces = lexemes.flatMap tokenText ∧ ∀ p ∈ pieces, Fitting p

namespace Agreement

variable {lexemes : List Lexeme} {pieces taken : List (Piece DescriptionClass)}

theorem of_stray {p : Piece DescriptionClass} (hp : p ∈ pieces) (hkind : p.kind = .stray)
    (h : (∀ c, .stray c ∉ lexemes) → ¬ Unsplit false lexemes) : Agreement lexemes pieces where
  stray_iff := iff_of_false (fun hall => hall p hp hkind) fun hall => h hall.1 hall.2
  shown hall := absurd hkind (hall p hp)

theorem append (h : Agreement lexemes pieces) (front : List Lexeme) (hfront : ∀ c, .stray c ∉ front)
    (hsplit : Unsplit false (front ++ lexemes) ↔ Unsplit false lexemes)
    (htaken : ∀ p ∈ taken, p.kind ≠ .stray ∧ Fitting p)
    (htexts : shownTexts taken = front.flatMap tokenText) :
    Agreement (front ++ lexemes) (taken ++ pieces) := by
  have hpieces : (∀ p ∈ taken ++ pieces, p.kind ≠ .stray) ↔ ∀ p ∈ pieces, p.kind ≠ .stray := by
    rw [List.forall_mem_append]
    exact and_iff_right fun p hp => (htaken p hp).1
  have hlexemes : (∀ c, .stray c ∉ front ++ lexemes) ↔ ∀ c, .stray c ∉ lexemes := by
    refine forall_congr' fun c => ?_
    simp [hfront c]
  refine ⟨by rw [hpieces, hlexemes, hsplit, h.stray_iff], fun hall => ?_⟩
  obtain ⟨hshown, hfitting⟩ := h.shown (hpieces.1 hall)
  refine ⟨?_, List.forall_mem_append.2 ⟨fun p hp => (htaken p hp).2, hfitting⟩⟩
  rw [List.flatMap_append, ← htexts, ← hshown]
  simp [shownTexts]

end Agreement

/-! ## Coloring along the lexemes -/

/-- A word is not colored as the end of another. -/
def Fresh (before : Option Char) (cs : List Char) : Prop :=
  ∀ c ∈ cs.head?, startsWord c = true → inWord before = false

theorem fresh_of_not_startsWord {before : Option Char} {cs : List Char}
    (h : ∀ c ∈ cs.head?, startsWord c = false) : Fresh before cs := by
  intro c hc hs
  rw [h c hc] at hs
  cases hs

theorem cut_blanks {blanks : List Char} (h : ∀ c ∈ blanks, Text.isBlank c = true)
    (rest : List Char) :
    Lexeme.cut (blanks ++ rest) = blanks.map .blank ++ Lexeme.cut rest :=
  (pieces_iff.1 (Pieces.blanks_append h (pieces_iff.2 rfl))).symm

theorem cut_piece {piece : Lexeme} {rest : List Char} (hf : piece.Fits rest) :
    Lexeme.cut (piece.text ++ rest) = piece :: Lexeme.cut rest :=
  (pieces_iff.1 (.cons hf (pieces_iff.2 rfl))).symm

theorem not_startsWord_of_fits {first : Char} {more rest : List Char}
    (hf : (Lexeme.word first more).Fits rest) : ∀ c ∈ rest.head?, startsWord c = false := by
  intro c hc
  refine Bool.eq_false_iff.2 fun hs => ?_
  have hend := hf.2.2 c hc
  rw [startsWord_continuesWord hs] at hend
  cases hend

section

variable {before : Option Char}

theorem agrees_blanks {blanks rest : List Char} (hne : blanks ≠ [])
    (hblanks : ∀ c ∈ blanks, Text.isBlank c = true)
    (hrest : ∀ c ∈ rest.head?, Text.isBlank c = false)
    (ih : Agreement (Lexeme.cut rest) (color blanks.getLast? rest)) :
    Agreement (Lexeme.cut (blanks ++ rest)) (color before (blanks ++ rest)) := by
  obtain ⟨c, taken, rfl⟩ := List.exists_cons_of_ne_nil hne
  have hmatched : matched before (c :: taken ++ rest) = some [⟨.blank, c :: taken⟩] := by
    rw [List.cons_append, matched_blank (hblanks c (by simp)), ← List.cons_append,
      takeWhile_exact hblanks hrest]
  rw [cut_blanks hblanks, color_of_matched hmatched (by simp)]
  refine ih.append _ (by simp) (unsplit_blanks _) ?_ (by simp [shownTexts, standsForToken, tokenText])
  intro p hp
  obtain rfl := List.mem_singleton.1 hp
  exact ⟨by simp, fun _ => ⟨by simp, hblanks⟩, by simp⟩

theorem agrees_comment {body rest : List Char} (hf : (Lexeme.comment body).Fits rest)
    (ih : Agreement (Lexeme.cut rest) (color ('/' :: '/' :: body).getLast? rest)) :
    Agreement (.comment body :: Lexeme.cut rest) (color before ('/' :: '/' :: body ++ rest)) := by
  rw [color_of_matched (matched_comment hf before) (by simp)]
  refine ih.append [.comment body] (by simp) (unsplit_cons_of_not_word (by simp)) ?_ rfl
  intro p hp
  obtain rfl := List.mem_singleton.1 hp
  exact ⟨by simp, by simp, fun _ => ⟨body, rfl, hf.1⟩⟩

theorem agrees_mark {c : Char} {kind : TokenKind} {rest : List Char}
    (hf : (Lexeme.mark c kind).Fits rest) (ih : Agreement (Lexeme.cut rest) (color (some c) rest)) :
    Agreement (.mark c kind :: Lexeme.cut rest) (color before (c :: rest)) := by
  obtain ⟨shown, hshown, hmatched⟩ := matched_mark hf before rest
  have hcolor : color before ([c] ++ rest) = [⟨shown, [c]⟩] ++ color [c].getLast? rest :=
    color_of_matched hmatched (by simp)
  rw [show c :: rest = [c] ++ rest from rfl, hcolor]
  refine ih.append [.mark c kind] (by simp) (unsplit_cons_of_not_word (by simp)) ?_ ?_
  · intro p hp
    obtain rfl := List.mem_singleton.1 hp
    exact fitting_of_standsForToken hshown
  · simp [shownTexts, hshown, tokenText]

theorem agrees_stray {c : Char} {rest : List Char} (hf : (Lexeme.stray c).Fits rest) :
    Agreement (.stray c :: Lexeme.cut rest) (color before (c :: rest)) := by
  rw [color_of_not_matched (matched_stray hf before)]
  exact .of_stray List.mem_cons_self rfl fun hall => absurd List.mem_cons_self (hall c)

variable {first : Char} {more rest : List Char} (hf : (Lexeme.word first more).Fits rest)
  (hbefore : inWord before = false)
include hf hbefore

theorem agrees_declaration (hd : declares (first :: more) = true) {blanks : List Char} {next : Char}
    {name rest' : List Char} (hblanks : ∀ c ∈ blanks, Text.isBlank c = true)
    (hrest : rest = blanks ++ (next :: name ++ rest')) (hname : (Lexeme.word next name).Fits rest')
    (ih : Agreement (Lexeme.cut rest')
      (color (first :: (more ++ (blanks ++ next :: name))).getLast? rest')) :
    Agreement (.word first more :: Lexeme.cut rest) (color before (first :: more ++ rest)) := by
  have hmatched := matched_declaration hf hbefore hd hblanks hrest hname
  have hwhole : first :: more ++ rest = first :: (more ++ (blanks ++ next :: name)) ++ rest' := by
    simp [hrest]
  have hcut : Lexeme.cut rest = blanks.map .blank ++ .word next name :: Lexeme.cut rest' := by
    rw [hrest, cut_blanks hblanks]
    exact congrArg _ (cut_piece hname)
  have hquote : '\x27' ∉ first :: more := by
    simp only [declares, Bool.or_eq_true, beq_iff_eq] at hd
    rcases hd with hd | hd <;> simp [hd]
  rw [hwhole] at hmatched ⊢
  have happend : Lexeme.word first more :: (blanks.map .blank ++ .word next name :: Lexeme.cut rest') =
      (.word first more :: (blanks.map .blank ++ [.word next name])) ++ Lexeme.cut rest' := by
    simp
  rw [color_of_matched hmatched (by simp), hcut, happend]
  refine ih.append _ (by simp) ?_ ?_ (by simp [shownTexts, standsForToken, tokenText])
  · -- the name behind the blanks is declared, whatever it starts with
    rw [← happend, unsplit_cons, namesNext, hd, unsplit_blanks, unsplit_cons]
    simp [namesNext, Whole, not_splitsAt hquote]
  · intro p hp
    simp only [List.mem_cons, List.not_mem_nil, or_false] at hp
    rcases hp with rfl | rfl | rfl
    · exact fitting_of_standsForToken rfl
    · refine ⟨by simp, fun _ => ⟨?_, hblanks⟩, by simp⟩
      rintro rfl
      have hend := not_startsWord_of_fits hf next (by simp [hrest])
      rw [hname.1] at hend
      cases hend
    · exact fitting_of_standsForToken rfl

theorem agrees_word (hd : declares (first :: more) = true →
      ∀ c ∈ (rest.dropWhile Text.isBlank).head?, startsWord c = false)
    (ih : Agreement (Lexeme.cut rest) (color (first :: more).getLast? rest)) :
    Agreement (.word first more :: Lexeme.cut rest) (color before (first :: more ++ rest)) := by
  rcases matched_word hf hbefore hd with ⟨whole, hm, tail, kind, heq, hkind, hmatched⟩ |
    ⟨hsplits, kind, hkind, hmatched⟩
  · -- the quote behind the whole word is left over
    have hquote : (Lexeme.stray '\x27').Fits (tail ++ rest) := IsStray.fits (by decide) _
    cases hwhole : whole.toList with
    | nil =>
      rw [hwhole] at heq
      obtain ⟨rfl, -⟩ := List.cons.inj heq
      exact absurd hf.1 (by decide)
    | cons c taken =>
      have hsplit : first :: more ++ rest = c :: taken ++ ('\x27' :: (tail ++ rest)) := by
        rw [heq, hwhole]
        simp
      have hsplits : SplitsAt wholeWords (first :: more) := ⟨whole, hm, tail, by simp [heq]⟩
      rw [hsplit, hwhole] at hmatched
      rw [hsplit, color_of_matched hmatched (by simp), color_of_not_matched (matched_stray hquote _)]
      refine .of_stray (p := ⟨.stray, ['\x27']⟩) (by simp) rfl fun _ hunsplit => ?_
      cases (unsplit_cons.1 hunsplit).1 hsplits
  · rw [color_of_matched hmatched (by simp)]
    refine ih.append [.word first more] (by simp) ?_ ?_ ?_
    · rw [List.singleton_append, unsplit_cons, namesNext, Bool.not_false, Bool.true_and]
      refine (and_iff_right fun hs => absurd hs hsplits).trans ?_
      -- a word that declares no name is like any other
      cases hdeclares : declares (first :: more) with
      | false => rfl
      | true =>
        have hblanks : ∀ c ∈ rest.takeWhile Text.isBlank, Text.isBlank c = true :=
          List.all_eq_true.1 List.all_takeWhile
        rw [← List.takeWhile_append_dropWhile (p := Text.isBlank) (l := rest), cut_blanks hblanks,
          unsplit_blanks, unsplit_blanks]
        exact unsplit_cut (fun c hc => ⟨head_dropWhile _ rest c hc, hd hdeclares c hc⟩) true
    · intro p hp
      obtain rfl := List.mem_singleton.1 hp
      exact fitting_of_standsForToken hkind
    · simp [shownTexts, hkind, tokenText]

end

theorem inWord_of_blanks {blanks : List Char} (h : ∀ c ∈ blanks, Text.isBlank c = true) :
    inWord blanks.getLast? = false := by
  cases hlast : blanks.getLast? with
  | none => rfl
  | some c => exact inWord_of_beside (.inl (h c (List.mem_of_getLast? hlast)))

/-- A name behind blanks. -/
theorem exists_name {rest : List Char} {next : Char}
    (hnext : (rest.dropWhile Text.isBlank).head? = some next) (hs : startsWord next = true) :
    ∃ blanks name rest', (∀ c ∈ blanks, Text.isBlank c = true) ∧
      rest = blanks ++ (next :: name ++ rest') ∧ (Lexeme.word next name).Fits rest' := by
  obtain ⟨tail, htail⟩ := List.head?_eq_some_iff.1 hnext
  refine ⟨rest.takeWhile Text.isBlank, tail.takeWhile continuesWord, tail.dropWhile continuesWord,
    List.all_eq_true.1 List.all_takeWhile, ?_, hs, List.all_eq_true.1 List.all_takeWhile,
    head_dropWhile _ tail⟩
  rw [List.cons_append, List.takeWhile_append_dropWhile, ← htail, List.takeWhile_append_dropWhile]

/-- **Coloring agrees with scanning**, lexeme by lexeme, from the start of a lexeme on. -/
theorem color_agrees (before : Option Char) (cs : List Char) (hfresh : Fresh before cs) :
    Agreement (Lexeme.cut cs) (color before cs) := by
  -- along the length of the text, since blanks and declarations are colored in one step
  induction hn : cs.length using Nat.strong_induction_on generalizing before cs with
  | _ n ih =>
    subst hn
    have hcut : Pieces cs (Lexeme.cut cs) := pieces_iff.2 rfl
    generalize hlexemes : Lexeme.cut cs = lexemes at hcut
    cases hcut with
    | nil => exact ⟨by simp [unsplit_nil], by simp [shownTexts]⟩
    | @cons piece rest pieces hf h =>
      obtain rfl := pieces_iff.1 h
      have hlt : rest.length < (piece.text ++ rest).length := by
        have hpos := List.length_pos_iff.2 piece.text_ne_nil
        rw [List.length_append]
        omega
      cases piece with
      | blank c =>
        have hc : Text.isBlank c = true := hf
        have hblanks : ∀ x ∈ c :: rest.takeWhile Text.isBlank, Text.isBlank x = true :=
          List.forall_mem_cons.2 ⟨hc, List.all_eq_true.1 List.all_takeWhile⟩
        have hsplit : [c] ++ rest =
            c :: rest.takeWhile Text.isBlank ++ rest.dropWhile Text.isBlank := by
          simp
        rw [← hlexemes]
        simp only [Lexeme.text, hsplit] at ih ⊢
        refine agrees_blanks (by simp) hblanks (head_dropWhile _ rest) (ih _ ?_ _ _ ?_ rfl)
        · rw [List.length_append, List.length_cons]
          omega
        · exact fun _ _ _ => inWord_of_blanks hblanks
      | comment body =>
        refine agrees_comment hf (ih _ hlt _ _ (fresh_of_not_startsWord fun c hc => ?_) rfl)
        rw [hf.2 c hc]
        rfl
      | mark c kind =>
        exact agrees_mark hf (ih _ hlt _ _
          (fun _ _ _ => inWord_of_beside (.inr (.inl ⟨kind, hf⟩))) rfl)
      | stray c => exact agrees_stray hf
      | word first more =>
        have hbefore : inWord before = false := hfresh first rfl hf.1
        by_cases hd : declares (first :: more) = true ∧
            ∃ c ∈ (rest.dropWhile Text.isBlank).head?, startsWord c = true
        · obtain ⟨hd, next, hnext, hs⟩ := hd
          obtain ⟨blanks, name, rest', hblanks, hrest, hname⟩ := exists_name hnext hs
          refine agrees_declaration hf hbefore hd hblanks hrest hname (ih _ ?_ _ _
            (fresh_of_not_startsWord (not_startsWord_of_fits hname)) rfl)
          simp only [hrest, List.length_append, List.length_cons]
          omega
        · refine agrees_word hf hbefore (fun hdeclares c hc => ?_) (ih _ hlt _ _
            (fresh_of_not_startsWord (not_startsWord_of_fits hf)) rfl)
          exact Bool.eq_false_iff.2 fun hs => hd ⟨hdeclares, c, hc, hs⟩

end TypeDesc.Coloring
