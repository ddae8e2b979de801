/-
The coloring of a description shows its tokens. What is colored is the text with
all carriage returns made line feeds, and the scanner ends a comment at a line
feed only. So what comes behind a carriage return in a comment is colored as a
line of its own (`outline_prepare`), and the pieces are those of the tokens
exactly if nothing but blanks and comments stands there and no word but a
declared name starts with a whole word and a quote (`coloring_agrees_iff`).
-/
import TypeDesc.Proofs.ColoredPieces
import TypeDesc.Proofs.ExcerptPlaces
import TypeDesc.Proofs.Tidied

namespace TypeDesc

open Lexeme Text

/-! ## Outlines -/

/-- A lexeme without what does not matter for a coloring: blanks, and the text of comments. -/
def Lexeme.kept : Lexeme → List Lexeme
  | .blank _ => []
  | .comment _ => [.comment []]
  | lexeme => [lexeme]

/-- The outline of a text. -/
def outline (cs : List Char) : List Lexeme :=
  (cut cs).flatMap Lexeme.kept

theorem cut_newline (a b : List Char) : cut (a ++ '\n' :: b) = cut a ++ .blank '\n' :: cut b := by
  induction a using cut_induction with
  | nil => rw [List.nil_append, cut_cons]; rfl
  | cons c a ih =>
    rw [List.cons_append, cut_cons, first_append_newline,
      List.drop_append_of_le_length (extent_first_le c a), ih, cut_cons c a, List.cons_append]

/-- **A line feed cuts an outline in two.** -/
theorem outline_newline (a b : List Char) : outline (a ++ '\n' :: b) = outline a ++ outline b := by
  rw [outline, cut_newline, List.flatMap_append]
  rfl

theorem outline_piece {piece : Lexeme} {rest : List Char} (hf : piece.Fits rest) :
    outline (piece.text ++ rest) = piece.kept ++ outline rest := by
  rw [outline, Coloring.cut_piece hf, List.flatMap_cons]
  rfl

section

variable {feeds : List Char} (h : ∀ c ∈ feeds, c = '\n')
include h

theorem outline_feeds_append (b : List Char) : outline (feeds ++ b) = outline b := by
  induction feeds with
  | nil => rfl
  | cons c feeds ih =>
    obtain ⟨rfl, hfeeds⟩ := List.forall_mem_cons.1 h
    exact (outline_newline [] (feeds ++ b)).trans (ih hfeeds)

theorem outline_append_feeds (a : List Char) : outline (a ++ feeds) = outline a := by
  cases feeds with
  | nil => rw [List.append_nil]
  | cons c feeds =>
    obtain ⟨rfl, hfeeds⟩ := List.forall_mem_cons.1 h
    have hnil : outline (feeds ++ []) = [] := outline_feeds_append hfeeds []
    rw [List.append_nil] at hnil
    rw [outline_newline, hnil, List.append_nil]

end

/-- It does not matter that two characters make one line feed. -/
theorem outline_unifyNewlines (a cs : List Char) :
    outline (a ++ unifyNewlines cs) = outline (a ++ cs.map feed) := by
  induction cs using unifyNewlines.induct generalizing a with
  | case1 => rw [unifyNewlines]; rfl
  | case2 cs ih =>
    have hnil : outline (unifyNewlines cs) = outline (cs.map feed) := ih []
    have hfeed : ('\r' :: '\n' :: cs).map feed = '\n' :: ([] ++ '\n' :: cs.map feed) := rfl
    rw [unifyNewlines, hfeed, outline_newline, outline_newline, outline_newline, hnil]
    rfl
  | case3 c cs hne ih =>
    rw [unifyNewlines.eq_3 _ _ hne, List.map_cons, List.append_cons, ih, ← List.append_cons]
    rfl

/-- The preparation of a text for its coloring changes the outline by carriage returns only. -/
theorem outline_prepare {cs : List Char} (h : cs.head? ≠ some Coloring.fileMark) :
    outline (Coloring.prepare cs) = outline (cs.map feed) := by
  have hfeeds : ∀ x : List Char, ∀ c ∈ x.takeWhile (fun c => decide (c = '\n')), c = '\n' := by
    intro x c hc
    simpa using List.all_eq_true.1 List.all_takeWhile c hc
  have hstart : ∀ x : List Char, outline (x.dropWhile (fun c => decide (c = '\n'))) = outline x := by
    intro x
    rw [← outline_feeds_append (hfeeds x), List.takeWhile_append_dropWhile]
  have hend : ∀ x : List Char,
      outline ((x.reverse.dropWhile (fun c => decide (c = '\n'))).reverse ++ ['\n']) = outline x := by
    intro x
    have hlast : ∀ c ∈ (x.reverse.takeWhile (fun c => decide (c = '\n'))).reverse, c = '\n' :=
      fun c hc => hfeeds _ c (List.mem_reverse.1 hc)
    rw [outline_append_feeds (by simp), ← outline_append_feeds hlast, ← List.reverse_append,
      List.takeWhile_append_dropWhile, List.reverse_reverse]
  rw [Coloring.prepare, if_neg h, hend, hstart]
  exact outline_unifyNewlines [] cs

/-! ## Carriage returns in comments -/

/-- What is left of a comment from its first carriage return on. -/
def returned (body : List Char) : List Char :=
  body.dropWhile (· ≠ '\r')

/-- The outline of a lexeme when carriage returns end lines. -/
def Lexeme.broken : Lexeme → List Lexeme
  | .comment body => .comment [] :: outline ((returned body).map feed)
  | lexeme => lexeme.kept

theorem head?_map_feed {rest : List Char} {p : Char → Prop} (hreturn : p '\n')
    (h : ∀ c ∈ rest.head?, p c) : ∀ c ∈ (rest.map feed).head?, p c := by
  cases rest with
  | nil => simp
  | cons x rest =>
    intro c hc
    obtain rfl : feed x = c := by simpa using hc
    rw [feed]
    split
    · exact hreturn
    · exact h x rfl

theorem Lexeme.Fits.map_feed {piece : Lexeme} {rest : List Char} (hf : piece.Fits rest) :
    piece.Fits (rest.map feed) := by
  cases piece with
  | blank | mark => exact hf
  | comment body => exact ⟨hf.1, head?_map_feed rfl hf.2⟩
  | word first more => exact ⟨hf.1, hf.2.1, head?_map_feed (by decide) hf.2.2⟩
  | stray c =>
    refine ⟨hf.1, hf.2.1, hf.2.2.1, fun hslash => ?_⟩
    have hall := head?_map_feed (p := (· ≠ '/')) (by decide) fun x hx hs =>
      hf.2.2.2 ⟨hslash.1, hs ▸ hx⟩
    exact hall '/' hslash.2 rfl

/-- Only blanks and comments can hold a carriage return. -/
theorem Lexeme.Fits.return_notMem {piece : Lexeme} {rest : List Char} (hf : piece.Fits rest)
    (hblank : ∀ c, piece ≠ .blank c) (hcomment : ∀ body, piece ≠ .comment body) :
    ∀ c ∈ piece.text, c ≠ '\r' := by
  rintro c hc rfl
  cases hf.boundary_notMem hblank hcomment _ hc

/-- A text before a line feed, or at the end, has an outline of its own. -/
theorem outline_line (a : List Char) {rest : List Char} (h : ∀ c ∈ rest.head?, c = '\n') :
    outline (a ++ rest) = outline a ++ outline rest := by
  cases rest with
  | nil => rw [List.append_nil]; exact (List.append_nil _).symm
  | cons c rest =>
    obtain rfl := h c rfl
    rw [outline_newline]
    exact congrArg _ (outline_newline [] rest).symm

theorem map_feed_eq {cs : List Char} (h : ∀ c ∈ cs, c ≠ '\r') : cs.map feed = cs :=
  (List.map_congr_left fun c hc => feed_of_ne (h c hc)).trans (List.map_id' cs)

theorem outline_comment {body rest : List Char} (hf : (Lexeme.comment body).Fits rest) :
    outline (('/' :: '/' :: body).map feed ++ rest.map feed) =
      (Lexeme.comment body).broken ++ outline (rest.map feed) := by
  have hfront : (body.takeWhile (· ≠ '\r')).map feed = body.takeWhile (· ≠ '\r') :=
    map_feed_eq fun c hc => by simpa using List.all_eq_true.1 List.all_takeWhile c hc
  have hbody : ('/' :: '/' :: body).map feed =
      '/' :: '/' :: body.takeWhile (· ≠ '\r') ++ (returned body).map feed := by
    nth_rewrite 1 [← List.takeWhile_append_dropWhile (p := (· ≠ '\r')) (l := body)]
    rw [List.map_cons, List.map_cons, List.map_append, hfront]
    rfl
  have hreturned : ∀ c ∈ ((returned body).map feed).head?, c = '\n' := by
    cases hr : returned body with
    | nil => simp
    | cons c tail =>
      have hc := head_dropWhile (· ≠ '\r') body c (by rw [← returned, hr]; rfl)
      obtain rfl : c = '\r' := by simpa using hc
      simp [feed]
  have hcomment : outline ('/' :: '/' :: body.takeWhile (· ≠ '\r')) = [.comment []] := by
    have hfits : (Lexeme.comment (body.takeWhile (· ≠ '\r'))).Fits [] :=
      ⟨fun hm => hf.1 ((List.takeWhile_sublist _).subset hm), by simp⟩
    have hpiece := outline_piece hfits
    rwa [List.append_nil] at hpiece
  rw [outline_line _ (head?_map_feed rfl hf.2), hbody, outline_line _ hreturned, hcomment]
  rfl

/-- **Carriage returns break comments**, and nothing else. -/
theorem outline_map_feed (cs : List Char) :
    outline (cs.map feed) = (cut cs).flatMap Lexeme.broken := by
  have hcut : Pieces cs (cut cs) := pieces_iff.2 rfl
  generalize cut cs = pieces at hcut
  induction hcut with
  | nil => rfl
  | @cons piece rest pieces hf h ih =>
    rw [List.flatMap_cons, ← ih, List.map_append]
    cases piece with
    | blank c =>
      have hblank : (Lexeme.blank (feed c)).Fits (rest.map feed) := by
        have hc : isBlank c = true := hf
        rw [Fits, feed]
        split
        · decide
        · exact hc
      exact outline_piece hblank
    | comment body => exact outline_comment hf
    | word | mark | stray =>
      rw [map_feed_eq (hf.return_notMem (by simp) (by simp))]
      exact outline_piece hf.map_feed

/-! ## What is colored -/

open Coloring

section

variable {lexemes : List Lexeme}

theorem stray_mem_kept {c : Char} : .stray c ∈ lexemes.flatMap Lexeme.kept ↔ .stray c ∈ lexemes := by
  simp only [List.mem_flatMap]
  constructor
  · rintro ⟨lexeme, hm, hc⟩
    cases lexeme <;> simp [Lexeme.kept] at hc
    exact hc ▸ hm
  · exact fun hm => ⟨_, hm, List.mem_singleton_self _⟩

theorem unsplit_kept {named : Bool} :
    Unsplit named (lexemes.flatMap Lexeme.kept) ↔ Unsplit named lexemes := by
  induction lexemes generalizing named with
  | nil => rfl
  | cons lexeme lexemes ih =>
    cases lexeme with
    | blank c =>
      rw [unsplit_cons_of_not_word (by simp)]
      exact ih
    | comment body =>
      rw [unsplit_cons_of_not_word (by simp), List.flatMap_cons, Lexeme.kept, List.singleton_append,
        unsplit_cons_of_not_word (by simp)]
      exact ih
    | word | mark | stray => exact unsplit_cons.trans ((and_congr_right' ih).trans unsplit_cons.symm)

theorem tokenText_kept : (lexemes.flatMap Lexeme.kept).flatMap tokenText =
    lexemes.flatMap tokenText := by
  rw [List.flatMap_assoc]
  congr 1
  funext lexeme
  cases lexeme <;> rfl

end

/-- The lexemes of a description as they are colored. -/
theorem ofDescription_agrees {source : String} (h : source.toList.head? ≠ some fileMark) :
    Agreement ((cut source.toList).flatMap Lexeme.broken) (ofDescription source) := by
  have hagrees := color_agrees none (prepare source.toList) fun _ _ _ => rfl
  rw [← ofDescription_eq] at hagrees
  have houtline : (cut (prepare source.toList)).flatMap Lexeme.kept =
      (cut source.toList).flatMap Lexeme.broken := by
    rw [← outline_map_feed, ← outline_prepare h]
    rfl
  rw [← houtline]
  refine ⟨?_, ?_⟩
  · rw [hagrees.stray_iff, unsplit_kept]
    simp only [stray_mem_kept]
  · rw [tokenText_kept]
    exact hagrees.shown

/-! ## Comments that stay comments -/

/-- Whether a lexeme makes no token. -/
def Lexeme.isFiller : Lexeme → Bool
  | .blank _ | .comment _ => true
  | _ => false

/-- Behind a carriage return in a comment are blanks and comments only. -/
def Lexeme.Quiet : Lexeme → Prop
  | .comment body => ∀ lexeme ∈ cut (unifyNewlines (returned body)), lexeme.isFiller = true
  | _ => True

instance : (lexeme : Lexeme) → Decidable lexeme.Quiet
  | .comment _ => List.decidableBAll _ _
  | .blank _ | .word _ _ | .mark _ _ | .stray _ => .isTrue trivial

theorem mem_kept {lexeme other : Lexeme} (h : other ∈ lexeme.kept) :
    lexeme.isFiller = true ∧ other = .comment [] ∨ lexeme.isFiller = false ∧ other = lexeme := by
  cases lexeme with
  | blank => cases h
  | comment => exact .inl ⟨rfl, List.mem_singleton.1 h⟩
  | word | mark | stray => exact .inr ⟨rfl, List.mem_singleton.1 h⟩

theorem outline_returned (body : List Char) :
    outline ((returned body).map feed) = outline (unifyNewlines (returned body)) :=
  (outline_unifyNewlines [] _).symm

/-- A comment is quiet exactly if it is colored as comments only. -/
theorem quiet_comment_iff {body : List Char} : (Lexeme.comment body).Quiet ↔
    ∀ other ∈ outline ((returned body).map feed), other = .comment [] := by
  rw [outline_returned, outline, Lexeme.Quiet]
  constructor
  · intro h other hm
    obtain ⟨lexeme, hl, hk⟩ := List.mem_flatMap.1 hm
    rcases mem_kept hk with ⟨-, heq⟩ | ⟨hfiller, -⟩
    · exact heq
    · rw [h lexeme hl] at hfiller
      cases hfiller
  · intro h lexeme hl
    cases lexeme with
    | blank | comment => rfl
    | word | mark | stray =>
      have hkept := h _ (List.mem_flatMap.2 ⟨_, hl, List.mem_singleton_self _⟩)
      cases hkept

theorem unsplit_comments {comments lexemes : List Lexeme}
    (h : ∀ other ∈ comments, other = .comment []) :
    Unsplit false (comments ++ lexemes) ↔ Unsplit false lexemes := by
  induction comments with
  | nil => rfl
  | cons lexeme comments ih =>
    obtain ⟨rfl, hcomments⟩ := List.forall_mem_cons.1 h
    exact (unsplit_cons_of_not_word (by simp)).trans (ih hcomments)

section

variable {lexemes : List Lexeme}

/-- Quiet lexemes are colored as they are scanned. -/
theorem unsplit_broken (h : ∀ lexeme ∈ lexemes, lexeme.Quiet) {named : Bool} :
    Unsplit named (lexemes.flatMap Lexeme.broken) ↔ Unsplit named lexemes := by
  induction lexemes generalizing named with
  | nil => rfl
  | cons lexeme lexemes ih =>
    obtain ⟨hfirst, hmore⟩ := List.forall_mem_cons.1 h
    cases lexeme with
    | blank c =>
      rw [unsplit_cons_of_not_word (by simp)]
      exact ih hmore
    | comment body =>
      rw [unsplit_cons_of_not_word (by simp), List.flatMap_cons, Lexeme.broken, List.cons_append,
        unsplit_cons_of_not_word (by simp)]
      exact (unsplit_comments (quiet_comment_iff.1 hfirst)).trans (ih hmore)
    | word | mark | stray =>
      exact unsplit_cons.trans ((and_congr_right' (ih hmore)).trans unsplit_cons.symm)

theorem tokenText_broken {lexeme : Lexeme} (h : lexeme.Quiet) :
    lexeme.broken.flatMap tokenText = tokenText lexeme := by
  cases lexeme with
  | comment body =>
    refine List.flatMap_eq_nil_iff.2 (List.forall_mem_cons.2 ⟨rfl, fun other hm => ?_⟩)
    rw [quiet_comment_iff.1 h other hm]
    rfl
  | blank | word | mark | stray => rfl

theorem stray_mem_broken {lexeme : Lexeme} (h : lexeme.Quiet) {c : Char}
    (hc : .stray c ∈ lexeme.broken) : lexeme = .stray c := by
  cases lexeme with
  | comment body =>
    rcases List.mem_cons.1 hc with heq | hm
    · cases heq
    · cases quiet_comment_iff.1 h _ hm
  | blank => cases hc
  | word | mark | stray => exact (List.mem_singleton.1 hc).symm

/-- No token is lost. -/
theorem length_tokenText_le (lexeme : Lexeme) :
    (tokenText lexeme).length ≤ (lexeme.broken.flatMap tokenText).length := by
  cases lexeme with
  | blank | comment => exact Nat.zero_le _
  | word | mark | stray => exact Nat.le_refl _

theorem length_tokenTexts_le (lexemes : List Lexeme) : (lexemes.flatMap tokenText).length ≤
    ((lexemes.flatMap Lexeme.broken).flatMap tokenText).length := by
  induction lexemes with
  | nil => exact Nat.le_refl _
  | cons lexeme lexemes ih =>
    simp only [List.flatMap_cons, List.flatMap_append, List.length_append]
    exact Nat.add_le_add (length_tokenText_le lexeme) ih

/-- **Lexemes that show no further token are quiet.** -/
theorem quiet_of_texts (hstray : ∀ c, .stray c ∉ lexemes.flatMap Lexeme.broken)
    (h : (lexemes.flatMap Lexeme.broken).flatMap tokenText = lexemes.flatMap tokenText) :
    ∀ lexeme ∈ lexemes, lexeme.Quiet := by
  induction lexemes with
  | nil => simp
  | cons lexeme lexemes ih =>
    simp only [List.flatMap_cons, List.flatMap_append, List.mem_append, not_or] at h hstray
    have hlength := congrArg List.length h
    rw [List.length_append, List.length_append] at hlength
    have hfirst := length_tokenText_le lexeme
    have hmore := length_tokenTexts_le lexemes
    obtain ⟨htext, htexts⟩ := List.append_inj h (by omega)
    refine List.forall_mem_cons.2 ⟨?_, ih (fun c => (hstray c).2) htexts⟩
    cases lexeme with
    | blank | word | mark | stray => trivial
    | comment body =>
      refine quiet_comment_iff.2 fun other hm => ?_
      have hnil := List.flatMap_eq_nil_iff.1 htext other (List.mem_cons_of_mem _ hm)
      obtain ⟨lexeme, -, hkept⟩ := List.mem_flatMap.1 hm
      rcases mem_kept hkept with ⟨-, heq⟩ | ⟨hfiller, rfl⟩
      · exact heq
      · cases other with
        | blank | comment => cases hfiller
        | word | mark => cases hnil
        | stray c => exact absurd (List.mem_cons_of_mem _ hm) (hstray c).1

end

/-! ## Tokens and pieces -/

theorem placed_texts (file : String) (lexemes : List Lexeme) : ∀ pre : List Char,
    ((placed pre lexemes).filterMap fun x => x.2.tokenBehind file x.1).map (·.text.toList) =
      lexemes.flatMap tokenText := by
  induction lexemes with
  | nil => intro pre; rfl
  | cons lexeme lexemes ih =>
    intro pre
    rw [placed, List.flatMap_cons, ← ih (pre ++ lexeme.text)]
    cases lexeme <;> simp [tokenBehind, tokenText]

/-- The texts of the tokens of a source before its end. -/
def tokenTexts (tokens : List Token) : List (List Char) :=
  (tokens.filter fun t => t.kind ≠ .endOfInput).map (·.text.toList)

theorem scan_tokenTexts {file source : String} {tokens : List Token}
    (h : Token.scan file source = .ok tokens) :
    tokenTexts tokens = (cut source.toList).flatMap tokenText := by
  obtain ⟨pieces, hpieces, -, ⟨-, reports, herr, -⟩ | ⟨-, ts, eof, hok, hts, heof, -⟩⟩ :=
    scan_takes_apart file source
  · rw [herr] at h
    cases h
  · obtain rfl := pieces_iff.1 ((hpieces pieces).2 rfl)
    obtain ⟨ts', eof', htokens, -, hkinds⟩ := scan_endsOnce h
    rw [hok] at h
    obtain rfl := Except.ok.inj h
    obtain ⟨rfl, -⟩ := List.append_singleton_inj.1 htokens
    have hkept : ts.filter (fun t => decide (t.kind ≠ .endOfInput)) = ts :=
      List.filter_eq_self.2 fun t ht => by simpa using hkinds t ht
    rw [tokenTexts, List.filter_append, hkept, hts, ← placed_texts file _ []]
    simp [heof]

/-- **A coloring agrees with the tokens** of a description: no piece is stray, every piece of
blanks and every piece for a comment is one, and the others have the texts of the tokens, in
order. -/
structure ColoringAgrees (pieces : List (Piece DescriptionClass)) (tokens : List Token) : Prop where
  no_stray : ∀ p ∈ pieces, p.kind ≠ .stray
  fitting : ∀ p ∈ pieces, Fitting p
  texts : shownTexts pieces = tokenTexts tokens

/-- A text that is scanned does not start with the mark of a file. -/
theorem head?_ne_fileMark {file source : String} {tokens : List Token}
    (h : Token.scan file source = .ok tokens) : source.toList.head? ≠ some fileMark := by
  intro hhead
  obtain ⟨rest, hrest⟩ := List.head?_eq_some_iff.1 hhead
  have hfits : (Lexeme.stray fileMark).Fits rest := IsStray.fits (by decide) rest
  have hcut : cut source.toList = .stray fileMark :: cut rest := by
    rw [hrest]
    exact cut_piece hfits
  exact stray_notMem_of_scan h fileMark (hcut ▸ List.mem_cons_self)

/-- **The coloring of a description shows its tokens**, each as a whole and in order, with nothing
else but blanks and comments, exactly if two things do not happen. No word but a name just declared
starts with `params`, `void` or `unit` and a quote, which would be left over. And where a comment
holds a carriage return, at which the coloring ends its line, nothing but blanks and comments
follows in it. -/
theorem coloring_agrees_iff {file source : String} {tokens : List Token}
    (h : Token.scan file source = .ok tokens) :
    ColoringAgrees (ofDescription source) tokens ↔
      Unsplit false (cut source.toList) ∧ ∀ lexeme ∈ cut source.toList, lexeme.Quiet := by
  have hagrees := ofDescription_agrees (head?_ne_fileMark h)
  have hstray := stray_notMem_of_scan h
  constructor
  · rintro ⟨hplain, -, htexts⟩
    obtain ⟨hbroken, hunsplit⟩ := hagrees.stray_iff.1 hplain
    have hquiet : ∀ lexeme ∈ cut source.toList, lexeme.Quiet := by
      apply quiet_of_texts hbroken
      rw [← (hagrees.shown hplain).1, htexts, scan_tokenTexts h]
    exact ⟨(unsplit_broken hquiet).1 hunsplit, hquiet⟩
  · rintro ⟨hunsplit, hquiet⟩
    have hplain : ∀ p ∈ ofDescription source, p.kind ≠ .stray := by
      refine hagrees.stray_iff.2 ⟨fun c hc => ?_, (unsplit_broken hquiet).2 hunsplit⟩
      obtain ⟨lexeme, hl, hc⟩ := List.mem_flatMap.1 hc
      exact hstray c (stray_mem_broken (hquiet lexeme hl) hc ▸ hl)
    obtain ⟨hshown, hfitting⟩ := hagrees.shown hplain
    refine ⟨hplain, hfitting, ?_⟩
    rw [hshown, scan_tokenTexts h, List.flatMap_assoc]
    exact List.flatMap_congr fun lexeme hl => tokenText_broken (hquiet lexeme hl)

/-- A declared name with a quote, and a comment that a carriage return breaks in two. -/
theorem coloring_agrees_declared_quote : ∃ tokens,
    Token.scan "x.tyd" "// a\r// b\nrec unit' \x7b Cons: void \x7d" = .ok tokens ∧
      tokens.length = 8 ∧
      ColoringAgrees (ofDescription "// a\r// b\nrec unit' \x7b Cons: void \x7d") tokens := by
  generalize hsource : "// a\r// b\nrec unit' \x7b Cons: void \x7d" = source
  obtain ⟨tokens, h, hlength⟩ := exists_ok_of_any (Token.scan "x.tyd" source) (·.length == 8)
    (by subst hsource; decide +kernel)
  have hunsplit : Unsplit false (cut source.toList) := by
    subst hsource
    decide +kernel
  have hquiet : (cut source.toList).all (fun lexeme => decide lexeme.Quiet) = true := by
    subst hsource
    decide +kernel
  exact ⟨tokens, h, beq_iff_eq.1 hlength, (coloring_agrees_iff h).2
    ⟨hunsplit, fun lexeme hl => of_decide_eq_true (List.all_eq_true.1 hquiet lexeme hl)⟩⟩

/-- A word of one token that is colored as a whole word and a stray quote, and a comment of which
the end is colored as a name. -/
theorem coloring_breaks_apart :
    (∃ t eof, Token.scan "x.tyd" "unit'" = .ok [t, eof] ∧ t.text = "unit'" ∧
      eof.kind = .endOfInput ∧
      ofDescription "unit'" =
        [⟨.typeWord, ['u', 'n', 'i', 't']⟩, ⟨.stray, ['\x27']⟩, ⟨.blank, ['\n']⟩] ∧
      ¬ ColoringAgrees (ofDescription "unit'") [t, eof]) ∧
    ∃ t eof, Token.scan "x.tyd" "unit // c\rfoo" = .ok [t, eof] ∧ t.text = "unit" ∧
      eof.kind = .endOfInput ∧
      shownTexts (ofDescription "unit // c\rfoo") = [['u', 'n', 'i', 't'], ['f', 'o', 'o']] ∧
      ¬ ColoringAgrees (ofDescription "unit // c\rfoo") [t, eof] := by
  have hquote : ofDescription "unit'" =
      [⟨.typeWord, ['u', 'n', 'i', 't']⟩, ⟨.stray, ['\x27']⟩, ⟨.blank, ['\n']⟩] := by
    decide +kernel
  have hreturn : shownTexts (ofDescription "unit // c\rfoo") =
      [['u', 'n', 'i', 't'], ['f', 'o', 'o']] := by
    decide +kernel
  refine ⟨⟨⟨.identifier, "unit'", ⟨"x.tyd", 1, 1, 1, 5⟩⟩, ⟨.endOfInput, "", ⟨"x.tyd", 1, 6, 1, 6⟩⟩,
    by decide +kernel, rfl, rfl, hquote, fun h => ?_⟩,
    ⟨.unit, "unit", ⟨"x.tyd", 1, 1, 1, 4⟩⟩, ⟨.endOfInput, "", ⟨"x.tyd", 1, 14, 1, 14⟩⟩,
    by decide +kernel, rfl, rfl, hreturn, fun h => ?_⟩
  · exact h.no_stray ⟨.stray, ['\x27']⟩ (by simp [hquote]) rfl
  · have hlength := congrArg List.length h.texts
    rw [hreturn] at hlength
    simp [tokenTexts] at hlength

end TypeDesc
