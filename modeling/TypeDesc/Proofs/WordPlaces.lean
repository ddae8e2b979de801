/-
Where a word of a text stands. The tokens of a text are those of its pieces, so
that a token with others before and behind it is a piece with others before and
behind it (`scan_split`), and the text before the piece tells its span. Neither
neighbour of a word is a word (`Pieces.beside_word`), so that another word may
take its place (`Pieces.replace_word`).
-/
import TypeDesc.Proofs.Layout

namespace TypeDesc

open Lexeme

/-! ## Tokens and pieces -/

/-- The kinds and texts of the tokens of pieces without stray characters. -/
theorem Scanned.ofLexemes_shapes (file : String) (p : Position) {pieces : List Lexeme}
    (h : ∀ c, .stray c ∉ pieces) :
    (ofLexemes file p pieces).tokens.map (some ·.shape) =
      pieces.flatMap Lexeme.seen ++ [some (.endOfInput, "")] := by
  obtain ⟨shapes, hshapes⟩ := exists_shapes h
  obtain ⟨-, htokens⟩ := ofLexemes_seen file p hshapes
  have hmap := congrArg (List.map some) htokens
  rw [List.map_map, List.map_append, ← hshapes] at hmap
  exact hmap

/-- What is seen of a piece is the shape of its token. -/
theorem Lexeme.seen_eq {piece : Lexeme} (h : ∀ c, piece ≠ .stray c) (file : String) (p : Position) :
    piece.seen = (piece.token? file p).toList.map (some ·.shape) := by
  cases piece with
  | blank | comment | word | mark => rfl
  | stray c => exact absurd rfl (h c)

/-- **A token among others is a piece among others.** The induction is on the pieces, of which each
makes at most one token. -/
theorem Scanned.ofLexemes_split {file : String} {pieces : List Lexeme} {t : Token}
    {vs : List Token} (hn : ∀ c, .stray c ∉ pieces) (ht : t.kind ≠ .endOfInput) :
    ∀ {p : Position} {us : List Token}, (ofLexemes file p pieces).tokens = us ++ t :: vs →
    ∃ before piece after, pieces = before ++ piece :: after ∧
      piece.token? file (p.afterAll (textAll before)) = some t ∧
      us.map (some ·.shape) = before.flatMap Lexeme.seen ∧
      vs.map (some ·.shape) = after.flatMap Lexeme.seen ++ [some (.endOfInput, "")] := by
  induction pieces with
  | nil =>
    intro p us h
    have hlast : [⟨.endOfInput, "", p.spanTo file p⟩] = us ++ t :: vs := h
    obtain ⟨-, rfl, -⟩ := List.singleton_eq_append_iff.1 hlast |>.resolve_right (by simp)
    exact absurd rfl ht
  | cons piece pieces ih =>
    intro p us h
    have hpiece : ∀ c, piece ≠ .stray c := fun c he => hn c (he ▸ List.mem_cons_self)
    have hpieces : ∀ c, .stray c ∉ pieces := fun c hm => hn c (List.mem_cons_of_mem _ hm)
    have hseen := seen_eq hpiece file p
    -- the token is that of the piece, or it stands among those behind
    have hcases : us = [] ∧ piece.token? file p = some t ∧
          (ofLexemes file (p.afterAll piece.text) pieces).tokens = vs ∨
        ∃ us', us = (piece.token? file p).toList ++ us' ∧
          (ofLexemes file (p.afterAll piece.text) pieces).tokens = us' ++ t :: vs := by
      rw [ofLexemes] at h
      cases htoken : piece.token? file p with
      | none =>
        rw [htoken] at h
        exact .inr ⟨us, rfl, h⟩
      | some first =>
        rw [htoken] at h
        cases us with
        | nil =>
          obtain ⟨rfl, hrest⟩ := List.cons.inj h
          exact .inl ⟨rfl, rfl, hrest⟩
        | cons u us =>
          obtain ⟨rfl, hrest⟩ := List.cons.inj h
          exact .inr ⟨us, rfl, hrest⟩
    rcases hcases with ⟨rfl, htoken, rfl⟩ | ⟨us', rfl, hrest⟩
    · exact ⟨[], piece, pieces, rfl, htoken, rfl, ofLexemes_shapes file _ hpieces⟩
    · obtain ⟨before, found, after, rfl, htoken, hbefore, hafter⟩ := ih hpieces hrest
      refine ⟨piece :: before, found, after, rfl, ?_, ?_, hafter⟩
      · rw [textAll_cons, Position.afterAll, List.foldl_append]
        exact htoken
      · rw [List.flatMap_cons, hseen, ← hbefore, List.map_append]

/-- A name among the tokens of a text is a word among its pieces. -/
theorem scan_split {file source : String} {us vs : List Token} {t : Token}
    (h : Token.scan file source = .ok (us ++ t :: vs)) (ht : t.kind = .identifier) :
    ∃ before first more after, Pieces source.toList (before ++ .word first more :: after) ∧
      (∀ c, .stray c ∉ before ++ .word first more :: after) ∧ t.text.toList = first :: more ∧
      t.span = .behind file (textAll before) (first :: more) ∧
      us.map (some ·.shape) = before.flatMap Lexeme.seen ∧
      vs.map (some ·.shape) = after.flatMap Lexeme.seen ++ [some (.endOfInput, "")] := by
  have hn := stray_notMem_of_scan h
  have hp : Pieces source.toList (cut source.toList) := pieces_iff.2 rfl
  have htokens : (Scanned.ofLexemes file (.behind []) (cut source.toList)).tokens = us ++ t :: vs := by
    simp only [Token.scan] at h
    split at h
    next => exact Except.ok.inj h
    next => cases h
  obtain ⟨before, piece, after, hcut, htoken, hus, hvs⟩ :=
    Scanned.ofLexemes_split hn (by rw [ht]; decide) htokens
  rw [hcut] at hp hn
  have hsplit : Pieces source.toList (before ++ [piece] ++ after) := by simpa using hp
  have hfits : piece.Fits (textAll after) := hsplit.split.2.2 piece (by simp)
  rw [Position.afterAll_behind, List.nil_append, hfits.token?] at htoken
  obtain ⟨htext, hspan, -⟩ := of_tokenBehind htoken
  cases piece with
  | blank | comment | stray => cases htoken
  | word first more => exact ⟨before, first, more, after, hp, hn, htext, hspan, hus, hvs⟩
  | mark c kind =>
    cases htoken
    have hmark : TokenKind.ofMark? c = some kind := (TokenKind.ofMark?_eq c).trans hfits
    rw [show kind = .identifier from ht] at hmark
    exact absurd hmark ofMark?_ne_identifier

/-! ## Lines -/

/-- The line of a part of a text: the last one before it goes on with the part, and with the first
one behind. -/
theorem Text.feedLines_around (pre rest : List Char) : ∃ init last first more,
    feedLines pre = init ++ [last] ∧ feedLines rest = first :: more ∧
      ∀ {cs : List Char}, '\n' ∉ cs →
        feedLines (pre ++ (cs ++ rest)) = init ++ (last ++ (cs ++ first)) :: more := by
  obtain ⟨init, last, hpre, happend⟩ := feedLines_append pre
  obtain ⟨first, more, hrest⟩ := List.exists_cons_of_ne_nil (feedLines_ne_nil rest)
  exact ⟨init, last, first, more, hpre, hrest, fun h => happend (feedLines_line_append h hrest)⟩

/-! ## Beside a word -/

/-- What may stand beside a word: a blank, a mark, or the slash of a comment. -/
def Lexeme.Beside (c : Char) : Prop :=
  Text.isBlank c = true ∨ (∃ kind, TokenKind.marks.lookup c = some kind) ∨ c = '/'

namespace Pieces

section

variable {cs : List Char} {before after : List Lexeme} {first : Char} {more : List Char}
  (h : Pieces cs (before ++ .word first more :: after))
  (hn : ∀ c, .stray c ∉ before ++ .word first more :: after)
include h

theorem around_word : textAll before ++ (first :: more ++ textAll after) = cs := by
  rw [← h.textAll_eq, textAll_append, textAll_cons]
  rfl

theorem word_fits : (Lexeme.word first more).Fits (textAll after) := by
  have hsplit : Pieces cs (before ++ [.word first more] ++ after) := by simpa using h
  exact hsplit.split.2.2 _ (by simp)

include hn

/-- The piece before a word is a blank or a mark: a word would go on, and a comment too. -/
theorem before_word : ∀ last ∈ before.getLast?, (∃ c, last = .blank c ∧ Text.isBlank c = true) ∨
    ∃ c kind, last = .mark c kind ∧ TokenKind.marks.lookup c = some kind := by
  intro last hl
  have hfits : last.Fits (first :: more ++ textAll after) := h.split.2.2 last hl
  have hfirst : startsWord first = true := h.word_fits.1
  cases last with
  | blank c => exact .inl ⟨c, rfl, hfits⟩
  | comment body =>
    have hfeed : first = '\n' := hfits.2 first rfl
    rw [hfeed] at hfirst
    exact absurd hfirst (by decide)
  | word first' more' =>
    have hend : continuesWord first = false := hfits.2.2 first rfl
    rw [startsWord_continuesWord hfirst] at hend
    cases hend
  | mark c kind => exact .inr ⟨c, kind, rfl, hfits⟩
  | stray c => exact absurd (List.mem_append_left _ (List.mem_of_mem_getLast? hl)) (hn c)

/-- **Neither neighbour of a word is part of a word.** -/
theorem beside_word :
    (∀ c ∈ (textAll before).getLast?, Beside c) ∧ ∀ c ∈ (textAll after).head?, Beside c := by
  constructor
  · intro c hc
    rcases List.eq_nil_or_concat before with rfl | ⟨init, last, rfl⟩
    · simp at hc
    rcases h.before_word hn last (by simp) with ⟨x, rfl, hx⟩ | ⟨x, kind, rfl, hx⟩
    · obtain rfl : x = c := by simpa [text] using hc
      exact .inl hx
    · obtain rfl : x = c := by simpa [text] using hc
      exact .inr (.inl ⟨kind, hx⟩)
  · intro c hc
    cases after with
    | nil => simp at hc
    | cons next after =>
      have hnext : Pieces cs (before ++ [.word first more, next] ++ after) := by simpa using h
      have hfits : next.Fits (textAll after) := hnext.split.2.2 next (by simp)
      cases next with
      | blank x =>
        obtain rfl : x = c := by simpa [text] using hc
        exact .inl hfits
      | comment body =>
        obtain rfl : '/' = c := by simpa [text] using hc
        exact .inr (.inr rfl)
      | word x more' =>
        have hend : continuesWord x = false := h.word_fits.2.2 x rfl
        rw [startsWord_continuesWord hfits.1] at hend
        cases hend
      | mark x kind =>
        obtain rfl : x = c := by simpa [text] using hc
        exact .inr (.inl ⟨kind, hfits⟩)
      | stray x => exact absurd (by simp) (hn x)

/-- **Another word may take the place of a word.** -/
theorem replace_word {first' : Char} {more' : List Char} (hfirst : startsWord first' = true)
    (hmore : ∀ c ∈ more', continuesWord c = true) :
    Pieces (textAll before ++ (first' :: more' ++ textAll after))
      (before ++ .word first' more' :: after) := by
  have hfits : (Lexeme.word first' more').Fits (textAll after) := ⟨hfirst, hmore, h.word_fits.2.2⟩
  have hafter : Pieces (textAll after) after := by
    have hsplit : Pieces cs (before ++ [.word first more] ++ after) := by simpa using h
    exact hsplit.split.2.1
  refine h.split.1.append (.cons hfits hafter) fun last hl => ?_
  rcases h.before_word hn last hl with ⟨c, rfl, hc⟩ | ⟨c, kind, rfl, hc⟩
  · exact hc
  · exact hc

end

end Pieces

end TypeDesc
