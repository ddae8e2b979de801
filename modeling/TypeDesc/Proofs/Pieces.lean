/-
Scanning takes a text apart without loss, and in one way only.

`Pieces` says what the pieces of a text are, each by itself and by what follows
it: blanks, comments up to the end of their line, words that run as far as they
can, marks, and stray characters, which start none of these. Every text has
exactly one list of pieces, the one that is cut from it (`pieces_iff`).

Places are counted by `Text.feedLines`, the lines that only line feeds end. The
position behind a text is the end of its last line (`Position.afterAll_behind`), so that
the span of a piece covers the piece in its line (`Span.covered_behind`).
-/
import TypeDesc.Proofs.Scanned

namespace TypeDesc

/-! ## Words and marks -/

namespace TokenKind

/-- The words that are kinds of token of their own. -/
def keywords : List (String × TokenKind) :=
  [("params", .paramsKeyword), ("rec", .recKeyword), ("alias", .aliasKeyword), ("void", .void),
    ("unit", .unit)]

/-- The characters that are tokens. -/
def marks : List (Char × TokenKind) :=
  [('+', .plus), ('*', .star), ('(', .openParen), (')', .closeParen), ('\x7b', .openBrace),
    ('\x7d', .closeBrace), (',', .comma), (':', .colon)]

theorem ofWord_eq (word : String) : ofWord word = (keywords.lookup word).getD .identifier := by
  unfold ofWord
  split
  next => rfl
  next => rfl
  next => rfl
  next => rfl
  next => rfl
  next h₁ h₂ h₃ h₄ h₅ =>
    have hnone : keywords.lookup word = none := by
      rw [List.lookup_eq_none_iff]
      intro p hp
      simp only [keywords, List.mem_cons, List.not_mem_nil, or_false] at hp
      rcases hp with rfl | rfl | rfl | rfl | rfl <;> simpa
    rw [hnone, Option.getD_none]

theorem ofMark?_eq (c : Char) : ofMark? c = marks.lookup c := by
  unfold ofMark?
  split
  next => rfl
  next => rfl
  next => rfl
  next => rfl
  next => rfl
  next => rfl
  next => rfl
  next => rfl
  next h₁ h₂ h₃ h₄ h₅ h₆ h₇ h₈ =>
    symm
    rw [List.lookup_eq_none_iff]
    intro p hp
    simp only [marks, List.mem_cons, List.not_mem_nil, or_false] at hp
    rcases hp with rfl | rfl | rfl | rfl | rfl | rfl | rfl | rfl <;> simpa

/-- A mark is no part of a word, no blank and no slash. -/
theorem plain_of_mark {c : Char} {kind : TokenKind} (h : marks.lookup c = some kind) :
    Lexeme.startsWord c = false ∧ Text.isBlank c = false ∧ c ≠ '/' := by
  have hall : ∀ p ∈ marks,
      Lexeme.startsWord p.1 = false ∧ Text.isBlank p.1 = false ∧ p.1 ≠ '/' := by
    decide
  obtain ⟨before, after, hm, -⟩ := List.lookup_eq_some_iff.1 h
  exact hall (c, kind) (hm ▸ by simp)

end TokenKind

/-! ## Pieces -/

namespace Lexeme

/-- What a piece of a text is when `rest` follows it. -/
def Fits (rest : List Char) : Lexeme → Prop
  | .blank c => Text.isBlank c = true
  | .comment body => '\n' ∉ body ∧ ∀ c ∈ rest.head?, c = '\n'
  | .word first more =>
    startsWord first = true ∧ (∀ c ∈ more, continuesWord c = true) ∧
      ∀ c ∈ rest.head?, continuesWord c = false
  | .mark c kind => TokenKind.marks.lookup c = some kind
  | .stray c =>
    Text.isBlank c = false ∧ startsWord c = false ∧ TokenKind.marks.lookup c = none ∧
      ¬ (c = '/' ∧ rest.head? = some '/')

theorem text_ne_nil (piece : Lexeme) : piece.text ≠ [] := by
  cases piece <;> simp [text]

/-- The text of pieces side by side. -/
def textAll (pieces : List Lexeme) : List Char :=
  pieces.flatMap text

@[simp] theorem textAll_nil : textAll [] = [] := rfl

@[simp] theorem textAll_cons (piece : Lexeme) (pieces : List Lexeme) :
    textAll (piece :: pieces) = piece.text ++ textAll pieces := rfl

@[simp] theorem textAll_append (pieces pieces' : List Lexeme) :
    textAll (pieces ++ pieces') = textAll pieces ++ textAll pieces' :=
  List.flatMap_append ..

end Lexeme

open Lexeme

/-- `Pieces cs pieces`: the text `cs` consists of the pieces, in order. -/
inductive Pieces : List Char → List Lexeme → Prop
  | nil : Pieces [] []
  | cons {piece : Lexeme} {rest : List Char} {pieces : List Lexeme} (hf : piece.Fits rest)
    (h : Pieces rest pieces) : Pieces (piece.text ++ rest) (piece :: pieces)

theorem Pieces.textAll_eq {cs : List Char} {pieces : List Lexeme} (h : Pieces cs pieces) :
    textAll pieces = cs := by
  induction h with
  | nil => rfl
  | cons _ _ ih => rw [textAll_cons, ih]

/-! ### The first piece -/

/-- A run ends where its condition does. -/
theorem head_dropWhile (p : Char → Bool) (cs : List Char) :
    ∀ c ∈ (cs.dropWhile p).head?, p c = false := by
  intro c hc
  have hne := List.head?_dropWhile_not p cs
  rw [hc] at hne
  simpa using hne

theorem newline_notMem_takeWhile (cs : List Char) : '\n' ∉ cs.takeWhile (· ≠ '\n') := by
  intro hm
  simpa using List.all_eq_true.1 List.all_takeWhile _ hm

/-- A text that is not empty starts with a piece. -/
theorem exists_piece (c : Char) (cs : List Char) :
    ∃ (piece : Lexeme) (rest : List Char), piece.Fits rest ∧ piece.text ++ rest = c :: cs := by
  by_cases hb : Text.isBlank c = true
  · exact ⟨.blank c, cs, hb, rfl⟩
  by_cases hs : c = '/' ∧ cs.head? = some '/'
  · obtain ⟨rfl, hcs⟩ := hs
    obtain ⟨tail, rfl⟩ := List.head?_eq_some_iff.1 hcs
    refine ⟨.comment (tail.takeWhile (· ≠ '\n')), tail.dropWhile (· ≠ '\n'),
      ⟨newline_notMem_takeWhile tail, ?_⟩, ?_⟩
    · intro x hx
      simpa using head_dropWhile (· ≠ '\n') tail x hx
    · show '/' :: '/' :: (tail.takeWhile (· ≠ '\n') ++ tail.dropWhile (· ≠ '\n')) = _
      rw [List.takeWhile_append_dropWhile]
  by_cases hw : startsWord c = true
  · refine ⟨.word c (cs.takeWhile continuesWord), cs.dropWhile continuesWord,
      ⟨hw, List.all_eq_true.1 List.all_takeWhile, head_dropWhile continuesWord cs⟩, ?_⟩
    show c :: (cs.takeWhile continuesWord ++ cs.dropWhile continuesWord) = _
    rw [List.takeWhile_append_dropWhile]
  cases hm : TokenKind.marks.lookup c with
  | some kind => exact ⟨.mark c kind, cs, hm, rfl⟩
  | none => exact ⟨.stray c, cs, ⟨by simpa using hb, by simpa using hw, hm, hs⟩, rfl⟩

/-- The piece that a text starts with is the one that is cut from it first. -/
theorem Lexeme.Fits.first_eq {piece : Lexeme} {rest cs : List Char} {c : Char}
    (hf : piece.Fits rest) (h : piece.text ++ rest = c :: cs) :
    first c cs = piece ∧ cs.drop piece.extent = rest := by
  cases piece with
  | blank x =>
    cases h
    exact ⟨if_pos hf, rfl⟩
  | comment body =>
    cases h
    obtain ⟨hbody, hrest⟩ := hf
    have htake : (body ++ rest).takeWhile (· ≠ '\n') = body := by
      refine takeWhile_exact (fun c hc => ?_) fun c hc => ?_
      · exact decide_eq_true fun he => hbody (he ▸ hc)
      · simp [hrest c hc]
    refine ⟨?_, List.drop_left ..⟩
    rw [first, if_neg (by decide), if_pos (by simp)]
    show Lexeme.comment ((body ++ rest).takeWhile (· ≠ '\n')) = _
    rw [htake]
  | word x more =>
    cases h
    obtain ⟨hx, hmore, hrest⟩ := hf
    obtain ⟨hb, hs, -⟩ := continuesWord_plain (startsWord_continuesWord hx)
    have htake : (more ++ rest).takeWhile continuesWord = more := takeWhile_exact hmore hrest
    refine ⟨?_, List.drop_left ..⟩
    rw [first, if_neg (by simp [hb]), if_neg (by simp [hs]), if_pos hx]
    simp only [List.append_eq, htake]
  | mark x kind =>
    cases h
    obtain ⟨hw, hb, hs⟩ := TokenKind.plain_of_mark hf
    refine ⟨?_, rfl⟩
    rw [first, if_neg (by simp [hb]), if_neg (by simp [hs]), if_neg (by simp [hw]),
      TokenKind.ofMark?_eq, show TokenKind.marks.lookup c = some kind from hf]
  | stray x =>
    cases h
    obtain ⟨hb, hw, hm, hs⟩ := hf
    refine ⟨?_, rfl⟩
    rw [first, if_neg (by simp [hb]), if_neg (by simpa using hs), if_neg (by simp [hw]),
      TokenKind.ofMark?_eq, hm]

/-- **A text consists of the pieces that are cut from it**, and of no others. -/
theorem pieces_iff {cs : List Char} {pieces : List Lexeme} :
    Pieces cs pieces ↔ pieces = cut cs := by
  constructor
  · intro h
    induction h with
    | nil => rfl
    | @cons piece rest pieces hf _ ih =>
      obtain ⟨c, cs, hcs⟩ := List.exists_cons_of_ne_nil
        (List.append_ne_nil_of_left_ne_nil piece.text_ne_nil rest)
      obtain ⟨hfirst, hrest⟩ := hf.first_eq hcs
      rw [hcs, cut_cons, hfirst, hrest, ih]
  · intro h
    subst h
    induction cs using cut_induction with
    | nil => exact .nil
    | cons c cs ih =>
      obtain ⟨piece, rest, hf, htext⟩ := exists_piece c cs
      obtain ⟨hfirst, hrest⟩ := hf.first_eq htext
      rw [hfirst, hrest] at ih
      rw [cut_cons, hfirst, hrest, ← htext]
      exact .cons hf ih

/-! ## Lines and places -/

namespace Text

/-- The lines of a text, of which each but the last is ended by a line feed. -/
def feedLines : List Char → List (List Char)
  | [] => [[]]
  | c :: cs => if c = '\n' then [] :: feedLines cs else consLine c (feedLines cs)

/-- A text without a line feed stands in one line, the first of what follows it. -/
theorem feedLines_line_append {cs rest first : List Char} {more : List (List Char)} (h : '\n' ∉ cs)
    (hrest : feedLines rest = first :: more) : feedLines (cs ++ rest) = (cs ++ first) :: more := by
  induction cs with
  | nil => exact hrest
  | cons c cs ih =>
    have hc : c ≠ '\n' := fun he => h (by simp [he])
    have hcs := ih fun hm => h (by simp [hm])
    rw [List.cons_append, feedLines, if_neg hc, hcs]
    rfl

theorem feedLines_line {cs : List Char} (h : '\n' ∉ cs) : feedLines cs = [cs] := by
  simpa using feedLines_line_append h (show feedLines [] = [[]] from rfl)

theorem feedLines_ne_nil (cs : List Char) : feedLines cs ≠ [] := by
  cases cs with
  | nil => simp [feedLines]
  | cons c cs =>
    rw [feedLines]
    split
    · simp
    · exact consLine_ne_nil c _

/-- **Lines of texts side by side**: the last line of the one goes on as the first of the other. -/
theorem feedLines_append (a : List Char) : ∃ init last, feedLines a = init ++ [last] ∧
    ∀ {b first more}, feedLines b = first :: more →
      feedLines (a ++ b) = init ++ (last ++ first) :: more := by
  induction a with
  | nil => exact ⟨[], [], rfl, fun hb => hb⟩
  | cons c a ih =>
    obtain ⟨init, last, ha, happend⟩ := ih
    by_cases hc : c = '\n'
    · refine ⟨[] :: init, last, ?_, fun hb => ?_⟩
      · rw [feedLines, if_pos hc, ha, List.cons_append]
      · rw [List.cons_append, feedLines, if_pos hc, happend hb, List.cons_append]
    -- `c` goes in front of the first line, which is the last one if there is no other
    · cases init with
      | nil =>
        refine ⟨[], c :: last, ?_, fun hb => ?_⟩
        · rw [feedLines, if_neg hc, ha, List.nil_append, consLine, List.nil_append]
        · rw [List.cons_append, feedLines, if_neg hc, happend hb]
          rfl
      | cons line init =>
        refine ⟨(c :: line) :: init, last, ?_, fun hb => ?_⟩
        · rw [feedLines, if_neg hc, ha]
          rfl
        · rw [List.cons_append, feedLines, if_neg hc, happend hb]
          rfl

end Text

open Text

namespace Position

/-- The position behind a text: in its last line, one column past the end. -/
def behind (cs : List Char) : Position :=
  ⟨(feedLines cs).length, ((feedLines cs).getLastD []).length + 1⟩

theorem behind_eq {cs last : List Char} {init : List (List Char)}
    (h : feedLines cs = init ++ [last]) :
    behind cs = ⟨init.length + 1, last.length + 1⟩ := by
  simp [behind, h]

theorem behind_snoc (cs : List Char) (c : Char) : behind (cs ++ [c]) = (behind cs).after c := by
  obtain ⟨init, last, hcs, happend⟩ := feedLines_append cs
  rw [behind_eq hcs, after]
  by_cases hc : c = '\n'
  · have hlines : feedLines (cs ++ [c]) = (init ++ [last]) ++ [[]] := by
      rw [happend (show feedLines [c] = [] :: [[]] by simp [feedLines, hc])]
      simp
    rw [if_pos hc, behind_eq hlines]
    simp
  · have hlines : feedLines (cs ++ [c]) = init ++ [last ++ [c]] :=
      happend (feedLines_line (by simpa using Ne.symm hc))
    rw [if_neg hc, behind_eq hlines]
    simp

/-- **Going through a text from the start leads behind it.** -/
theorem afterAll_behind (pre cs : List Char) : (behind pre).afterAll cs = behind (pre ++ cs) := by
  induction cs generalizing pre with
  | nil => rw [List.append_nil]; rfl
  | cons c cs ih =>
    have hstep : (behind pre).afterAll (c :: cs) = ((behind pre).after c).afterAll cs := rfl
    rw [hstep, ← behind_snoc, ih, List.append_assoc]
    rfl

theorem behind_line {pre cs : List Char} (h : '\n' ∉ cs) :
    behind (pre ++ cs) = ⟨(behind pre).line, (behind pre).col + cs.length⟩ := by
  obtain ⟨init, last, hpre, happend⟩ := feedLines_append pre
  have hlines : feedLines (pre ++ cs) = init ++ [last ++ cs] := happend (feedLines_line h)
  rw [behind_eq hpre, behind_eq hlines]
  simp only [List.length_append, mk.injEq, true_and]
  omega

end Position

namespace Span

/-- The span of a text that stands in one line behind `pre`; an empty text has the span of one
character. -/
def behind (file : String) (pre cs : List Char) : Span :=
  let p := Position.behind pre
  ⟨file, p.line, p.col, p.line, if cs = [] then p.col else p.col + cs.length - 1⟩

/-- What a span of one line covers in a text, both of its columns included. -/
def covered (source : List Char) (s : Span) : List Char :=
  (((feedLines source).getD (s.startLine.toNat - 1) []).take s.endCol.toNat).drop
    (s.startCol.toNat - 1)

end Span

theorem Position.spanTo_behind (file : String) (pre : List Char) {cs : List Char} (h : '\n' ∉ cs) :
    (behind pre).spanTo file (behind (pre ++ cs)) = Span.behind file pre cs := by
  rw [behind_line h, spanTo, Span.behind]
  cases cs with
  | nil => simp
  | cons c cs =>
    simp only [List.length_cons, reduceCtorEq, if_false, Span.mk.injEq, true_and]
    rw [if_pos (by omega)]
    omega

/-- **The span of a text covers it**, whatever follows; that of an empty text lies past the end. -/
theorem Span.covered_behind (file : String) (pre : List Char) {cs rest : List Char} (h : '\n' ∉ cs)
    (hrest : cs = [] → rest = []) :
    (Span.behind file pre cs).covered (pre ++ (cs ++ rest)) = cs := by
  obtain ⟨init, last, hpre, happend⟩ := feedLines_append pre
  obtain ⟨first, more, hfirst⟩ := List.exists_cons_of_ne_nil (feedLines_ne_nil rest)
  have hline : (feedLines (pre ++ (cs ++ rest))).getD init.length [] = last ++ (cs ++ first) := by
    rw [happend (feedLines_line_append h hfirst)]
    simp
  simp only [Span.behind, covered, Position.behind_eq hpre, Int.toNat_natCast,
    Nat.add_sub_cancel, hline]
  by_cases hnil : cs = []
  · subst hnil
    obtain rfl := hrest rfl
    obtain ⟨rfl, -⟩ : first = [] ∧ more = [] := by simpa [feedLines, eq_comm] using hfirst
    simp
  · have hpos : 0 < cs.length := List.length_pos_iff.2 hnil
    rw [if_neg hnil]
    have hend : ((last.length + 1 : Nat) + (cs.length : Int) - 1).toNat =
        last.length + cs.length := by
      omega
    rw [hend, ← List.append_assoc, List.take_left' (by simp), List.drop_left]

/-! ## Tokens and reports by their pieces -/

namespace Lexeme

/-- The pieces of a text, each with what stands before it, when `pre` stands before the first. -/
def placed (pre : List Char) : List Lexeme → List (List Char × Lexeme)
  | [] => []
  | piece :: pieces => (pre, piece) :: placed (pre ++ piece.text) pieces

/-- The token of a piece behind `pre`: words and marks have one. -/
def tokenBehind (file : String) (pre : List Char) : Lexeme → Option Token
  | .word first more =>
    let word := String.ofList (first :: more)
    some ⟨(TokenKind.keywords.lookup word).getD .identifier, word,
      .behind file pre (first :: more)⟩
  | .mark c kind => some ⟨kind, String.ofList [c], .behind file pre [c]⟩
  | _ => none

/-- The report of a piece behind `pre`: stray characters have one. -/
def reportBehind (file : String) (pre : List Char) : Lexeme → Option Report
  | .stray c => some (.located (.strayChar c) (.behind file pre [c]))
  | _ => none

/-- Only a blank can hold a line feed. -/
theorem Fits.newline_notMem {piece : Lexeme} {rest : List Char} (hf : piece.Fits rest)
    (hne : ∀ c, piece ≠ .blank c) : '\n' ∉ piece.text := by
  intro hm
  cases piece with
  | blank c => exact hne c rfl
  | comment body =>
    have hbody : '\n' ∈ body := by simpa [text] using hm
    exact hf.1 hbody
  | word first more =>
    rcases List.mem_cons.1 hm with he | hm
    · rw [← he] at hf
      exact absurd hf.1 (by decide)
    · exact absurd (hf.2.1 _ hm) (by decide)
  | mark c kind =>
    rw [← List.mem_singleton.1 hm] at hf
    have hnone : TokenKind.marks.lookup '\n' = none := by decide
    exact absurd (hnone.symm.trans hf) (by simp)
  | stray c =>
    rw [← List.mem_singleton.1 hm] at hf
    exact absurd hf.1 (by decide)

theorem Fits.token? {piece : Lexeme} {rest : List Char} (hf : piece.Fits rest) (file : String)
    (pre : List Char) : piece.token? file (.behind pre) = piece.tokenBehind file pre := by
  cases piece with
  | blank | comment | stray => rfl
  | word first more =>
    have hline : '\n' ∉ first :: more := hf.newline_notMem (by simp)
    simp only [Lexeme.token?, tokenBehind, text, Position.afterAll_behind,
      Position.spanTo_behind file pre hline, TokenKind.ofWord_eq]
  | mark c kind =>
    have hline : '\n' ∉ [c] := hf.newline_notMem (by simp)
    simp only [Lexeme.token?, tokenBehind, text, Position.afterAll_behind,
      Position.spanTo_behind file pre hline]

theorem report?_eq (piece : Lexeme) (file : String) (pre : List Char) :
    piece.report? file (.behind pre) = piece.reportBehind file pre := by
  cases piece with
  | blank | comment | word | mark => rfl
  | stray c =>
    have hspan : (Position.behind pre).span file = Span.behind file pre [c] := by
      simp [Position.span, Span.behind]
    rw [report?, reportBehind, hspan]

theorem placed_map_snd (pre : List Char) (pieces : List Lexeme) :
    (placed pre pieces).map (·.2) = pieces := by
  induction pieces generalizing pre with
  | nil => rfl
  | cons piece pieces ih => rw [placed, List.map_cons, ih]

/-- There is a report exactly if there is a stray character. -/
theorem reports_eq_nil_iff {file : String} {pre : List Char} {pieces : List Lexeme} :
    (placed pre pieces).filterMap (fun x => x.2.reportBehind file x.1) = [] ↔
      ∀ c, .stray c ∉ pieces := by
  have hnone : ∀ x : List Char × Lexeme,
      x.2.reportBehind file x.1 = none ↔ ∀ c, x.2 ≠ .stray c := by
    intro x
    cases h : x.2 <;> simp [reportBehind]
  rw [List.filterMap_eq_nil_iff]
  simp only [hnone]
  constructor
  · intro h c hm
    rw [← placed_map_snd pre pieces] at hm
    obtain ⟨x, hx, hstray⟩ := List.mem_map.1 hm
    exact h x hx c hstray
  · intro h x hx c hstray
    have hm : x.2 ∈ pieces := placed_map_snd pre pieces ▸ List.mem_map_of_mem hx
    exact h c (hstray ▸ hm)

/-- Each placed piece stands in the text where it is placed. -/
theorem placed_splits {rest : List Char} {pieces : List Lexeme} (h : Pieces rest pieces) :
    ∀ pre, ∀ x ∈ placed pre pieces, ∃ after, x.2.Fits after ∧
      pre ++ rest = x.1 ++ (x.2.text ++ after) := by
  induction h with
  | nil => simp [placed]
  | @cons piece rest pieces hf _ ih =>
    intro pre x hx
    rcases List.mem_cons.1 hx with rfl | hx
    · exact ⟨rest, hf, rfl⟩
    · obtain ⟨after, hfits, hsplit⟩ := ih (pre ++ piece.text) x hx
      exact ⟨after, hfits, by rw [← hsplit, List.append_assoc]⟩

/-- A token has the text of its piece, which is no blank, and its span. -/
theorem of_tokenBehind {piece : Lexeme} {file : String} {pre : List Char} {t : Token}
    (ht : piece.tokenBehind file pre = some t) :
    t.text.toList = piece.text ∧ t.span = .behind file pre piece.text ∧ ∀ c, piece ≠ .blank c := by
  cases piece with
  | blank | comment | stray => cases ht
  | word first more =>
    cases ht
    exact ⟨String.toList_ofList, rfl, by simp⟩
  | mark c kind =>
    cases ht
    exact ⟨String.toList_ofList, rfl, by simp⟩

/-- The token of a placed piece covers its text. -/
theorem Fits.covered {piece : Lexeme} {after : List Char} (hf : piece.Fits after) {file : String}
    {pre : List Char} {t : Token} (ht : piece.tokenBehind file pre = some t) :
    t.span.onOneLine = true ∧ t.span.covered (pre ++ (piece.text ++ after)) = t.text.toList := by
  obtain ⟨htext, hspan, hne⟩ := of_tokenBehind ht
  have hline : '\n' ∉ piece.text := hf.newline_notMem hne
  rw [htext, hspan]
  exact ⟨beq_self_eq_true _,
    Span.covered_behind file pre hline fun hnil => absurd hnil piece.text_ne_nil⟩

end Lexeme

/-- What scanning yields, told by the pieces of the text. -/
theorem Scanned.ofLexemes_placed (file : String) {rest : List Char} {pieces : List Lexeme}
    (h : Pieces rest pieces) (pre : List Char) :
    (ofLexemes file (.behind pre) pieces).tokens =
        (placed pre pieces).filterMap (fun x => x.2.tokenBehind file x.1) ++
          [⟨.endOfInput, "", .behind file (pre ++ rest) []⟩] ∧
      (ofLexemes file (.behind pre) pieces).reports =
        (placed pre pieces).filterMap fun x => x.2.reportBehind file x.1 := by
  induction h generalizing pre with
  | nil =>
    have hspan := Position.spanTo_behind file pre (List.not_mem_nil : '\n' ∉ [])
    rw [List.append_nil] at hspan ⊢
    exact ⟨by rw [ofLexemes, hspan]; rfl, rfl⟩
  | @cons piece rest pieces hf _ ih =>
    obtain ⟨htokens, hreports⟩ := ih (pre ++ piece.text)
    rw [ofLexemes, Position.afterAll_behind, placed, List.filterMap_cons, List.filterMap_cons,
      htokens, hreports, hf.token?, report?_eq, List.append_assoc]
    constructor
    · cases piece.tokenBehind file pre <;> rfl
    · cases piece.reportBehind file pre <;> rfl

/-- **Scanning takes a text apart.** A text consists of pieces in exactly one way. If some of them
are stray characters, these are reported, each at its line and column, in order. Otherwise the
tokens are those of the words and marks, in order, up to the end of the input, and each token has
the text that its span covers. -/
theorem scan_takes_apart (file source : String) :
    ∃ pieces, (∀ other, Pieces source.toList other ↔ other = pieces) ∧
      textAll pieces = source.toList ∧
      ((∃ c, .stray c ∈ pieces) ∧ (∃ reports, Token.scan file source = .error reports ∧
          reports = (placed [] pieces).filterMap (fun x => x.2.reportBehind file x.1) ∧
          ∀ report ∈ reports, report.finding.code = "E100") ∨
        (∀ c, .stray c ∉ pieces) ∧ ∃ tokens eof, Token.scan file source = .ok (tokens ++ [eof]) ∧
          tokens = (placed [] pieces).filterMap (fun x => x.2.tokenBehind file x.1) ∧
          eof.kind = .endOfInput ∧ eof.text = "" ∧
          ∀ t ∈ tokens ++ [eof], t.span.onOneLine = true ∧
            t.span.covered source.toList = t.text.toList) := by
  have hp : Pieces source.toList (cut source.toList) := pieces_iff.2 rfl
  obtain ⟨htokens, hreports⟩ := Scanned.ofLexemes_placed file hp []
  have hscan : Token.scan file source =
      if (placed [] (cut source.toList)).filterMap (fun x => x.2.reportBehind file x.1) = [] then
        .ok (Scanned.ofLexemes file (.behind []) (cut source.toList)).tokens
      else .error (Scanned.ofLexemes file (.behind []) (cut source.toList)).reports := by
    rw [← hreports, Token.scan]
    simp only [List.isEmpty_iff]
    rfl
  refine ⟨cut source.toList, fun other => pieces_iff, hp.textAll_eq, ?_⟩
  by_cases hno : ∀ c, Lexeme.stray c ∉ cut source.toList
  · rw [if_pos (reports_eq_nil_iff.2 hno), htokens] at hscan
    refine .inr ⟨hno, _, _, hscan, rfl, rfl, rfl, fun t ht => ?_⟩
    rcases List.mem_append.1 ht with ht | ht
    · obtain ⟨⟨pre, piece⟩, hx, htoken⟩ := List.mem_filterMap.1 ht
      obtain ⟨after, hf, hsplit⟩ := placed_splits hp [] _ hx
      rw [List.nil_append] at hsplit
      rw [hsplit]
      exact hf.covered htoken
    · rw [List.mem_singleton.1 ht]
      have hend := Span.covered_behind file source.toList (List.not_mem_nil : '\n' ∉ [])
        (fun _ => (rfl : [] = []))
      rw [List.append_nil, List.append_nil] at hend
      exact ⟨beq_self_eq_true _, hend⟩
  · rw [if_neg (mt reports_eq_nil_iff.1 hno), hreports] at hscan
    refine .inl ⟨by simpa using hno, _, hscan, rfl, fun report hm => ?_⟩
    obtain ⟨⟨pre, piece⟩, -, hreport⟩ := List.mem_filterMap.1 hm
    cases piece with
    | blank | comment | word | mark => cases hreport
    | stray c => cases hreport; rfl

end TypeDesc
