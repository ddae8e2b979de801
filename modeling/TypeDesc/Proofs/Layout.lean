/-
Blanks and comments have no influence.

Whether a piece fits depends on the character behind it only, so that pieces can
be put in and taken out between two others (`Pieces.append`, `Pieces.split`).
Blanks or a comment put into a text anywhere but inside a word or a comment leave
its tokens as they are, places aside (`scan_insert`), and tokens that differ in
places only compile alike (`layout_has_no_influence`).
-/
import TypeDesc.Proofs.Pieces
import TypeDesc.Proofs.Places

namespace TypeDesc

open Lexeme

/-! ## Pieces side by side -/

namespace Lexeme

variable {piece : Lexeme} {rest rest' more : List Char}

/-- Whether a piece fits depends on the next character only. -/
theorem Fits.congr (h : rest.head? = rest'.head?) (hf : piece.Fits rest) : piece.Fits rest' := by
  cases piece <;> simpa only [Fits, ← h] using hf

/-- A piece that fits fits the end of the text. -/
theorem Fits.nil (hf : piece.Fits rest) : piece.Fits [] := by
  cases piece with
  | blank | mark => exact hf
  | comment body => exact ⟨hf.1, by simp⟩
  | word first more => exact ⟨hf.1, hf.2.1, by simp⟩
  | stray c => exact ⟨hf.1, hf.2.1, hf.2.2.1, by simp⟩

theorem Fits.of_append (hf : piece.Fits (rest ++ more)) : piece.Fits rest := by
  cases rest with
  | nil => exact hf.nil
  | cons c rest => exact hf.congr rfl

end Lexeme

namespace Pieces

variable {a b cs : List Char} {before after : List Lexeme}

/-- Texts side by side have their pieces side by side, if the last of the first text fits. -/
theorem append (ha : Pieces a before) (hb : Pieces b after)
    (hlast : ∀ last ∈ before.getLast?, last.Fits b) : Pieces (a ++ b) (before ++ after) := by
  induction ha with
  | nil => exact hb
  | @cons piece rest pieces hf h ih =>
    rw [List.append_assoc, List.cons_append]
    refine .cons ?_ (ih fun last hl => hlast last ?_)
    · cases h with
      | nil => exact hlast piece rfl
      | @cons next rest' _ _ _ =>
        have hhead : (next.text ++ rest').head? = (next.text ++ rest' ++ b).head? := by
          rw [List.append_assoc, List.head?_append_of_ne_nil _ next.text_ne_nil,
            List.head?_append_of_ne_nil _ next.text_ne_nil]
        exact hf.congr hhead
    · simp [List.getLast?_cons, Option.mem_def.1 hl]

/-- Pieces side by side are those of texts side by side. -/
theorem split (h : Pieces cs (before ++ after)) :
    Pieces (textAll before) before ∧ Pieces (textAll after) after ∧
      ∀ last ∈ before.getLast?, last.Fits (textAll after) := by
  induction before generalizing cs with
  | nil =>
    have hcs : textAll after = cs := h.textAll_eq
    exact ⟨.nil, hcs ▸ h, by simp⟩
  | cons piece before ih =>
    rw [List.cons_append] at h
    cases h with
    | cons hf h =>
      obtain ⟨hbefore, hafter, hlast⟩ := ih h
      rw [← h.textAll_eq, textAll_append] at hf
      refine ⟨.cons hf.of_append hbefore, hafter, fun last hl => ?_⟩
      cases before with
      | nil =>
        obtain rfl : piece = last := by simpa using hl
        exact hf
      | cons next before => exact hlast last (by simpa [List.getLast?_cons] using hl)

end Pieces

/-- A place in a text stands between two pieces, or inside one. -/
theorem between_or_inside {pieces : List Lexeme} {a b : List Char} (h : textAll pieces = a ++ b) :
    (∃ before after, pieces = before ++ after ∧ textAll before = a ∧ textAll after = b) ∨
      ∃ before piece after, pieces = before ++ piece :: after ∧
        (textAll before).length < a.length ∧ a.length < (textAll before ++ piece.text).length := by
  induction pieces generalizing a with
  | nil =>
    obtain ⟨rfl, rfl⟩ : a = [] ∧ b = [] := by simpa using h.symm
    exact .inl ⟨[], [], rfl, rfl, rfl⟩
  | cons piece pieces ih =>
    rw [textAll_cons, List.append_eq_append_iff] at h
    rcases h with ⟨a', rfl, h⟩ | ⟨c, hc, rfl⟩
    · rcases ih h with ⟨before, after, rfl, rfl, rfl⟩ | ⟨before, inner, after, rfl, hlt, hlt'⟩
      · exact .inl ⟨piece :: before, after, rfl, rfl, rfl⟩
      · refine .inr ⟨piece :: before, inner, after, rfl, ?_, ?_⟩
        · simp only [textAll_cons, List.length_append]
          omega
        · simp only [textAll_cons, List.length_append] at hlt' ⊢
          omega
    · by_cases ha : a = []
      · subst ha
        exact .inl ⟨[], piece :: pieces, rfl, rfl, by rw [textAll_cons, hc, List.nil_append]⟩
      by_cases hc' : c = []
      · subst hc'
        exact .inl ⟨[piece], pieces, rfl, by simpa using hc, rfl⟩
      · have hpos : 0 < a.length := List.length_pos_iff.2 ha
        have hpos' : 0 < c.length := List.length_pos_iff.2 hc'
        refine .inr ⟨[], piece, pieces, rfl, by simpa using hpos, ?_⟩
        rw [hc]
        simp only [textAll_nil, List.nil_append, List.length_append]
        omega

/-! ## What may be put in -/

/-- The place behind `a` in the text `a ++ b` lies inside a word or a comment. -/
def Inside (a b : List Char) : Prop :=
  ∃ before piece after, Pieces (a ++ b) (before ++ piece :: after) ∧
    ((∃ first more, piece = .word first more) ∨ ∃ body, piece = .comment body) ∧
    (textAll before).length < a.length ∧ a.length < (textAll before ++ piece.text).length

/-- Layout: blanks, or a comment with the line feed that ends it. -/
inductive Filler : List Char → Prop
  | blanks {cs : List Char} (h : ∀ c ∈ cs, Text.isBlank c = true) : Filler cs
  | comment {body : List Char} (h : '\n' ∉ body) : Filler ('/' :: '/' :: body ++ ['\n'])

theorem exists_boundary {a b : List Char} {pieces : List Lexeme} (h : Pieces (a ++ b) pieces)
    (hi : ¬ Inside a b) :
    ∃ before after, pieces = before ++ after ∧ textAll before = a ∧ textAll after = b := by
  rcases between_or_inside h.textAll_eq with hb | ⟨before, piece, after, rfl, hlt, hlt'⟩
  · exact hb
  · have hlong : 1 < piece.text.length := by
      rw [List.length_append] at hlt'
      omega
    refine absurd ⟨before, piece, after, h, ?_, hlt, hlt'⟩ hi
    cases piece with
    | blank | mark | stray => simp [text] at hlong
    | comment body => exact .inr ⟨body, rfl⟩
    | word first more => exact .inl ⟨first, more, rfl⟩

/-- A place is not inside a word or a comment if the text is cut there. -/
theorem not_inside_iff {a b : List Char} : ¬ Inside a b ↔ cut (a ++ b) = cut a ++ cut b := by
  constructor
  · intro hi
    have h : Pieces (a ++ b) (cut (a ++ b)) := pieces_iff.2 rfl
    obtain ⟨before, after, heq, rfl, rfl⟩ := exists_boundary h hi
    rw [heq] at h
    obtain ⟨ha, hb, -⟩ := h.split
    rw [heq, ← pieces_iff.1 ha, ← pieces_iff.1 hb]
  · intro hcut hi
    obtain ⟨before, piece, after, h, -, hlt, hlt'⟩ := hi
    have ha : textAll (cut a) = a := (pieces_iff.2 rfl).textAll_eq
    have heq : before ++ piece :: after = cut a ++ cut b := (pieces_iff.1 h).trans hcut
    rcases List.append_eq_append_iff.1 heq with ⟨c, hc, hrest⟩ | ⟨c, hc, -⟩
    · rw [hc, textAll_append] at ha
      have hlen := congrArg List.length ha
      cases c with
      | nil =>
        simp only [textAll_nil, List.append_nil] at hlen
        omega
      | cons piece' c =>
        obtain rfl : piece = piece' := (List.cons.inj hrest).1
        simp only [textAll_cons, List.length_append] at hlen hlt'
        omega
    · rw [hc, textAll_append, ha, List.length_append] at hlt
      omega

theorem Pieces.blanks_append {v b : List Char} {after : List Lexeme}
    (hv : ∀ c ∈ v, Text.isBlank c = true) (hb : Pieces b after) :
    Pieces (v ++ b) (v.map .blank ++ after) := by
  induction v with
  | nil => exact hb
  | cons c v ih =>
    rw [List.forall_mem_cons] at hv
    have hc : (Lexeme.blank c).Fits (v ++ b) := hv.1
    exact .cons hc (ih hv.2)

theorem seen_map_blank (v : List Char) : (v.map Lexeme.blank).flatMap Lexeme.seen = [] := by
  simp [Lexeme.seen]

namespace Filler

variable {filler b : List Char} {after : List Lexeme}

/-- Layout makes no token. -/
theorem pieces (h : Filler filler) (hb : Pieces b after) :
    ∃ more, Pieces (filler ++ b) (more ++ after) ∧ more.flatMap Lexeme.seen = [] := by
  cases h with
  | blanks hv => exact ⟨_, hb.blanks_append hv, seen_map_blank _⟩
  | @comment body hbody =>
    have hblank : (Lexeme.blank '\n').Fits b := show Text.isBlank '\n' = true by decide
    have hfeed : Pieces ('\n' :: b) (.blank '\n' :: after) := .cons hblank hb
    have hcomment : (Lexeme.comment body).Fits ('\n' :: b) := ⟨hbody, by simp⟩
    exact ⟨[.comment body, .blank '\n'], by simpa [text] using Pieces.cons hcomment hfeed, rfl⟩

/-- A word ends where layout starts. -/
theorem head (h : Filler filler) : ∀ c ∈ filler.head?, continuesWord c = false := by
  cases h with
  | blanks hv =>
    intro c hc
    have hb := hv c (List.mem_of_mem_head? hc)
    by_contra hw
    have hplain := continuesWord_plain (by simpa using hw)
    simp [hplain.1] at hb
  | comment => simp; decide

/-- Layout goes on in its line, and then with blanks. -/
theorem line (h : Filler filler) : ∃ u v, filler = u ++ v ∧ '\n' ∉ u ∧ (∀ c ∈ v.head?, c = '\n') ∧
    ∀ c ∈ v, Text.isBlank c = true := by
  cases h with
  | blanks hv =>
    refine ⟨filler.takeWhile (· ≠ '\n'), filler.dropWhile (· ≠ '\n'), ?_,
      newline_notMem_takeWhile filler, ?_, ?_⟩
    · rw [List.takeWhile_append_dropWhile]
    · intro c hc
      simpa using head_dropWhile (· ≠ '\n') filler c hc
    · exact fun c hc => hv c ((List.dropWhile_sublist _).subset hc)
  | @comment body hbody =>
    exact ⟨'/' :: '/' :: body, ['\n'], rfl, by simpa using hbody, by simp,
      List.forall_mem_cons.2 ⟨by decide, by simp⟩⟩

end Filler

/-! ## Scanning -/

theorem Scanned.stray_notMem {file : String} {lexemes : List Lexeme} {p : Position}
    (h : (ofLexemes file p lexemes).reports = []) : ∀ c, .stray c ∉ lexemes := by
  induction lexemes generalizing p with
  | nil => simp
  | cons lexeme lexemes ih =>
    obtain ⟨hfirst, hrest⟩ := List.append_eq_nil_iff.1 h
    intro c hm
    rcases List.mem_cons.1 hm with rfl | hm
    · simp [Lexeme.report?] at hfirst
    · exact ih hrest c hm

/-- What is seen of a text without stray characters are tokens. -/
theorem exists_shapes {lexemes : List Lexeme} (h : ∀ c, .stray c ∉ lexemes) :
    ∃ shapes : List (TokenKind × String), lexemes.flatMap Lexeme.seen = shapes.map some := by
  induction lexemes with
  | nil => exact ⟨[], rfl⟩
  | cons lexeme lexemes ih =>
    obtain ⟨shapes, hs⟩ := ih fun c hm => h c (List.mem_cons_of_mem _ hm)
    rw [List.flatMap_cons, hs]
    cases lexeme with
    | blank | comment => exact ⟨shapes, rfl⟩
    | word first more => exact ⟨_ :: shapes, rfl⟩
    | mark c kind => exact ⟨_ :: shapes, rfl⟩
    | stray c => exact absurd List.mem_cons_self (h c)

theorem stray_notMem_of_scan {file source : String} {tokens : List Token}
    (h : Token.scan file source = .ok tokens) : ∀ c, .stray c ∉ cut source.toList := by
  simp only [Token.scan] at h
  split at h
  next hempty => exact Scanned.stray_notMem (List.isEmpty_iff.1 hempty)
  next => cases h

/-- A text of which the same is seen is scanned as the same tokens, places aside. -/
theorem scan_of_seen_eq {file source source' : String} {tokens : List Token}
    (h : Token.scan file source = .ok tokens) (hs : seen source'.toList = seen source.toList) :
    ∃ tokens', Token.scan file source' = .ok tokens' ∧
      tokens'.map Token.shape = tokens.map Token.shape := by
  obtain ⟨shapes, hshapes⟩ := exists_shapes (stray_notMem_of_scan h)
  obtain ⟨tokens₁, hscan, htokens⟩ := scan_of_seen file hshapes
  obtain ⟨tokens', hscan', htokens'⟩ := scan_of_seen file (hs.trans hshapes)
  obtain rfl : tokens = tokens₁ := Except.ok.inj (h.symm.trans hscan)
  exact ⟨tokens', hscan', htokens'.trans htokens.symm⟩

/-! ## Putting it in -/

/-- **Layout between pieces makes no difference to the rest.** A comment that ends there goes on
to the end of its line. -/
theorem Pieces.insert {a b filler : List Char} {pieces : List Lexeme} (h : Pieces (a ++ b) pieces)
    (hn : ∀ c, .stray c ∉ pieces) (hi : ¬ Inside a b) (hf : Filler filler) :
    ∃ pieces', Pieces (a ++ (filler ++ b)) pieces' ∧
      pieces'.flatMap Lexeme.seen = pieces.flatMap Lexeme.seen := by
  obtain ⟨before, after, rfl, rfl, rfl⟩ := exists_boundary h hi
  obtain ⟨ha, hb, hlast⟩ := h.split
  -- behind a comment the layout is no piece of its own: the comment swallows it up to its first
  -- line feed, behind which only blanks are left
  by_cases hc : ∃ init body, before = init ++ [.comment body]
  · obtain ⟨init, body, rfl⟩ := hc
    obtain ⟨hbody, hend⟩ := hlast (.comment body) (by simp)
    obtain ⟨hinit, -, hlast⟩ := ha.split
    obtain ⟨u, v, rfl, hu, hv, hblank⟩ := hf.line
    have hcomment : (Lexeme.comment (body ++ u)).Fits (v ++ textAll after) := by
      refine ⟨by simp [hbody, hu], ?_⟩
      cases v with
      | nil => exact hend
      | cons c v => exact hv
    have hjoin := hinit.append (.cons hcomment (hb.blanks_append hblank)) fun last hl =>
      (hlast last hl).congr rfl
    refine ⟨_, by simpa [text] using hjoin, ?_⟩
    simp [Lexeme.seen]
  · obtain ⟨more, hmore, hseen⟩ := hf.pieces hb
    refine ⟨_, ha.append hmore fun last hl => ?_, by simp [hseen]⟩
    have hfits := hlast last hl
    cases last with
    | blank | mark => exact hfits
    | comment body =>
      obtain ⟨init, rfl⟩ := List.getLast?_eq_some_iff.1 hl
      exact absurd ⟨init, body, rfl⟩ hc
    | word first rest =>
      refine ⟨hfits.1, hfits.2.1, ?_⟩
      cases filler with
      | nil => exact hfits.2.2
      | cons c filler => exact hf.head
    -- a lone slash would become a comment in front of another
    | stray c => exact absurd (List.mem_append_left _ (List.mem_of_mem_getLast? hl)) (hn c)

theorem scan_insert {file a b filler : String} {tokens : List Token}
    (h : Token.scan file (a ++ b) = .ok tokens) (hi : ¬ Inside a.toList b.toList)
    (hf : Filler filler.toList) :
    ∃ tokens', Token.scan file (a ++ filler ++ b) = .ok tokens' ∧
      tokens'.map Token.shape = tokens.map Token.shape := by
  have hpieces : Pieces (a.toList ++ b.toList) (cut (a ++ b).toList) :=
    pieces_iff.2 (by rw [String.toList_append])
  obtain ⟨pieces', hp, hseen⟩ := hpieces.insert (stray_notMem_of_scan h) hi hf
  refine scan_of_seen_eq h ?_
  have hcut : cut (a ++ filler ++ b).toList = pieces' := by
    rw [String.toList_append, String.toList_append, List.append_assoc]
    exact (pieces_iff.1 hp).symm
  rw [seen, seen, hcut, hseen]

/-- **Layout has no influence.** A source whose tokens have the kinds and the texts of those of
another is compiled to the same text, with warnings that differ in places only, or rejected like it,
with diagnostics that differ in places only, under any options and under any settings. Blanks or
a comment with its line feed, put in anywhere but inside a word or a comment, keep the kinds and the
texts of all tokens. -/
theorem layout_has_no_influence {file source : String} {tokens : List Token}
    (h : Token.scan file source = .ok tokens) :
    (∀ {file' source' : String} {tokens' : List Token}, Token.scan file' source' = .ok tokens' →
      tokens.map Token.shape = tokens'.map Token.shape →
      (∀ options,
        (∃ text warnings warnings', compile options file source = .ok (text, warnings) ∧
          compile options file' source' = .ok (text, warnings') ∧
          warnings.map (·.diagnostic.displaced) = warnings'.map (·.diagnostic.displaced)) ∨
        ∃ reports reports', compile options file source = .error (.rejected reports) ∧
          compile options file' source' = .error (.rejected reports') ∧
          reports.map (·.diagnostic.displaced) = reports'.map (·.diagnostic.displaced)) ∧
      ∀ settings : OutputSettings,
        ((settings.compile file source).mapError (·.displaced)).map displacedWarnings =
          ((settings.compile file' source').mapError (·.displaced)).map displacedWarnings) ∧
    ∀ {a b filler : String}, source = a ++ b → ¬ Inside a.toList b.toList →
      Filler filler.toList →
      ∃ tokens', Token.scan file (a ++ filler ++ b) = .ok tokens' ∧
        tokens'.map Token.shape = tokens.map Token.shape := by
  have hdiag : ∀ {rs rs' : List Report}, rs.map (·.displaced) = rs'.map (·.displaced) →
      rs.map (·.diagnostic.displaced) = rs'.map (·.diagnostic.displaced) := by
    intro rs rs' heq
    simpa only [List.map_map, Function.comp_def, Report.diagnostic_displaced] using
      congrArg (·.map Report.diagnostic) heq
  constructor
  · intro file' source' tokens' h' hs
    refine ⟨fun options => ?_, settingsCompile_displaced_eq h h' hs⟩
    rcases compile_displaced_eq h h' hs options with
      ⟨text, w, w', hok, hok', heq⟩ | ⟨rs, rs', herr, herr', heq⟩
    · exact .inl ⟨text, w, w', hok, hok', hdiag heq⟩
    · exact .inr ⟨rs, rs', herr, herr', hdiag heq⟩
  · intro a b filler hsource hi hf
    subst hsource
    exact scan_insert h hi hf

/-- A comment right behind a keyword, in a source with a warning. -/
theorem layout_has_no_influence_comment : ∃ tokens tokens' text w w',
    Token.scan "t.tyd" ("params a, b rec" ++ " t \x7b A: a \x7d") = .ok tokens ∧
      Token.scan "t.tyd" ("params a, b rec" ++ "//b\n" ++ " t \x7b A: a \x7d") = .ok tokens' ∧
      tokens'.map Token.shape = tokens.map Token.shape ∧
      compile {} "t.tyd" ("params a, b rec" ++ " t \x7b A: a \x7d") = .ok (text, w) ∧
      compile {} "t.tyd" ("params a, b rec" ++ "//b\n" ++ " t \x7b A: a \x7d") = .ok (text, w') ∧
      w.length = 1 ∧ w.map (·.diagnostic.displaced) = w'.map (·.diagnostic.displaced) := by
  generalize hrest : " t \x7b A: a \x7d" = rest
  obtain ⟨tokens, h, -⟩ := exists_ok_of_any (Token.scan "t.tyd" ("params a, b rec" ++ rest))
    (fun _ => true) (by subst hrest; decide +kernel)
  obtain ⟨⟨text, w⟩, hcompile, hlen⟩ := exists_ok_of_any
    (compile {} "t.tyd" ("params a, b rec" ++ rest)) (·.2.length == 1)
    (by subst hrest; decide +kernel)
  have hplace : ¬ Inside "params a, b rec".toList rest.toList :=
    not_inside_iff.2 (by subst hrest; decide +kernel)
  have hcomment : Filler "//b\n".toList := by
    have htext : "//b\n".toList = '/' :: '/' :: ['b'] ++ ['\n'] := by decide +kernel
    rw [htext]
    exact .comment (by decide)
  obtain ⟨tokens', h', hs⟩ := (layout_has_no_influence h).2 rfl hplace hcomment
  rcases ((layout_has_no_influence h).1 h' hs.symm).1 {} with
    ⟨text', w₁, w', hok, hok', heq⟩ | ⟨rs, rs', herr, -⟩
  · obtain ⟨rfl, rfl⟩ := Prod.mk.inj (Except.ok.inj (hcompile.symm.trans hok))
    exact ⟨tokens, tokens', text, w, w', h, h', hs, hok, hok', beq_iff_eq.1 hlen, heq⟩
  · cases hcompile.symm.trans herr

end TypeDesc
