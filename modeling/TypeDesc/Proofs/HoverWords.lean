/-
The editor finds each mention of a declared type. Three views of a text have to
agree: the scanner counts lines that line feeds end, the editor those of all
boundaries, and a word of the scanner is made of fewer characters than a word of
the editor. Where only line feeds end lines, both count alike
(`splitLines_getElem?`), and what stands beside a word of the scanner is no part
of a word of the editor (`inWord_of_beside`), so that the cursor touches exactly
the word (`wordAt_scanned`). What is shown is the declaration of the type that
the word names (`hover_shows_declaration`).
-/
import TypeDesc.Proofs.DeclaredNames
import TypeDesc.Proofs.OpenDocuments
import TypeDesc.Proofs.WordPlaces

namespace TypeDesc

open Lexeme

/-! ## Lines -/

namespace Text

variable {cs : List Char}

/-- **Lines are counted alike** where only line feeds end them, but for an empty one at the end. -/
theorem feedLines_eq_splitLines (h : ∀ c ∈ cs, isLineBoundary c = true → c = '\n') :
    feedLines cs = splitLines cs ∨ feedLines cs = splitLines cs ++ [[]] := by
  induction cs with
  | nil => exact .inr (by rw [splitLines_nil]; rfl)
  | cons c cs ih =>
    rw [List.forall_mem_cons] at h
    by_cases hc : c = '\n'
    · have hfeed : splitLines (c :: cs) = [] :: splitLines cs :=
        hc ▸ splitLines_newline (List.forall_mem_nil _) cs
      rw [hfeed, feedLines, if_pos hc]
      exact (ih h.2).imp (congrArg _) (congrArg _)
    · have hplain : isLineBoundary c = false := by simpa using mt h.1 hc
      rw [splitLines_cons hplain, feedLines, if_neg hc]
      rcases ih h.2 with heq | heq
      · exact .inl (congrArg _ heq)
      -- the empty line at the end is the one that `c` goes into if there is no other
      · rw [heq]
        cases splitLines cs with
        | nil => exact .inl rfl
        | cons line lines => exact .inr rfl

theorem splitLines_getElem? (h : ∀ c ∈ cs, isLineBoundary c = true → c = '\n') {i : Nat}
    {line : List Char} (hline : (feedLines cs)[i]? = some line) (hne : line ≠ []) :
    (splitLines cs)[i]? = some line := by
  rcases feedLines_eq_splitLines h with heq | heq
  · rw [← heq, hline]
  · rw [heq, List.getElem?_append] at hline
    split at hline
    next => exact hline
    next =>
      have hlast := List.mem_of_getElem? hline
      exact absurd (List.mem_singleton.1 hlast) hne

/-- The last line of a text ends with its last character, and the first starts with its first. -/
theorem feedLines_getLast? {init : List (List Char)} {last : List Char}
    (h : feedLines cs = init ++ [last]) : ∀ c ∈ last.getLast?, c ∈ cs.getLast? := by
  intro c hc
  rcases List.eq_nil_or_concat cs with rfl | ⟨front, x, rfl⟩
  · obtain ⟨-, hlast⟩ := List.append_inj' (show [] ++ [[]] = init ++ [last] from h) rfl
    obtain rfl : [] = last := (List.cons.inj hlast).1
    exact hc
  · obtain ⟨init', last', -, happend⟩ := feedLines_append front
    rw [List.concat_eq_append] at h ⊢
    by_cases hx : x = '\n'
    · rw [happend (show feedLines [x] = [] :: [[]] by simp [feedLines, hx]), List.append_cons] at h
      obtain ⟨-, hlast⟩ := List.append_inj' h rfl
      obtain rfl : [] = last := (List.cons.inj hlast).1
      simp at hc
    · rw [happend (feedLines_line (by simpa using Ne.symm hx))] at h
      obtain ⟨-, hlast⟩ := List.append_inj' h rfl
      obtain rfl : last' ++ [x] = last := (List.cons.inj hlast).1
      simpa using hc

theorem feedLines_head? {first : List Char} {more : List (List Char)}
    (h : feedLines cs = first :: more) : ∀ c ∈ first.head?, c ∈ cs.head? := by
  intro c hc
  cases cs with
  | nil =>
    obtain ⟨rfl, -⟩ := List.cons.inj h
    exact hc
  | cons x cs =>
    rw [feedLines] at h
    split at h
    next =>
      obtain ⟨rfl, -⟩ := List.cons.inj h
      simp at hc
    next =>
      cases hrest : feedLines cs with
      | nil => exact absurd hrest (feedLines_ne_nil cs)
      | cons line lines =>
        rw [hrest] at h
        obtain ⟨rfl, -⟩ := List.cons.inj h
        exact hc

end Text

/-! ## Words of the editor -/

namespace Editor

/-- A word of the scanner is made of characters of words. -/
theorem inWord_of_continuesWord {c : Char} (h : continuesWord c = true) : inWord c = true := by
  have hascii : c.toNat < 0x80 := continuesWord_ascii h
  simp only [inWord, Text.isAlphanumeric, if_pos hascii]
  exact h

theorem inWord_of_blank {c : Char} (h : Text.isBlank c = true) : inWord c = false := by
  have hall : Text.blankPoints.all (fun n => !inWord (Char.ofNat n)) = true := by decide +kernel
  have hc := List.all_eq_true.1 hall c.toNat (by simpa [Text.isBlank] using h)
  simpa [Char.ofNat_toNat] using hc

/-- What stands beside a word of the scanner is no part of a word. -/
theorem inWord_of_beside {c : Char} (h : Beside c) : inWord c = false := by
  rcases h with hb | ⟨kind, hm⟩ | rfl
  · exact inWord_of_blank hb
  · have hall : TokenKind.marks.all (fun p => !inWord p.1) = true := by decide +kernel
    obtain ⟨before, after, heq, -⟩ := List.lookup_eq_some_iff.1 hm
    have hc := List.all_eq_true.1 hall (c, kind) (by simp [heq])
    simpa using hc
  · decide

variable {left word right : List Char}

/-- **Around a place in or behind a word is that word**, if none of its neighbours is in it. -/
theorem wordAround_word (hword : ∀ c ∈ word, inWord c = true)
    (hleft : ∀ c ∈ left.getLast?, inWord c = false)
    (hright : ∀ c ∈ right.head?, inWord c = false) {k : Nat} (hk : k ≤ word.length) :
    wordAround (left ++ (word ++ right)) (left.length + k) = word := by
  have htake : (left ++ (word ++ right)).take (left.length + k) = left ++ word.take k := by
    rw [List.take_append, List.take_of_length_le (by omega), Nat.add_sub_cancel_left,
      List.take_append_of_le_length hk]
  have hdrop : (left ++ (word ++ right)).drop (left.length + k) = word.drop k ++ right := by
    rw [List.drop_append, List.drop_eq_nil_of_le (by omega), Nat.add_sub_cancel_left,
      List.drop_append_of_le_length hk, List.nil_append]
  have hbefore : (left ++ word.take k).reverse.takeWhile inWord = (word.take k).reverse := by
    rw [List.reverse_append]
    refine takeWhile_exact (fun c hc => hword c ?_) (fun c hc => hleft c ?_)
    · exact List.mem_of_mem_take (List.mem_reverse.1 hc)
    · rwa [List.head?_reverse] at hc
  have hafter : (word.drop k ++ right).takeWhile inWord = word.drop k :=
    takeWhile_exact (fun c hc => hword c (List.mem_of_mem_drop hc)) hright
  rw [wordAround, htake, hdrop, hbefore, hafter, List.reverse_reverse, List.take_append_drop]

/-- The end of a line belongs to the word that ends there. -/
theorem wordInLine_word (hword : ∀ c ∈ word, inWord c = true) (hne : word ≠ [])
    (hleft : ∀ c ∈ left.getLast?, inWord c = false)
    (hright : ∀ c ∈ right.head?, inWord c = false) {character : Int}
    (hfirst : left.length ≤ character) (hlast : character ≤ left.length + word.length) :
    wordInLine (left ++ (word ++ right)) character = word := by
  have hpos : 0 < word.length := List.length_pos_iff.2 hne
  obtain ⟨k, rfl⟩ : ∃ k : Nat, character = left.length + k := ⟨(character - left.length).toNat, by omega⟩
  have hk : k ≤ word.length := by omega
  have hlength : ((left ++ (word ++ right)).length : Int) =
      left.length + word.length + right.length := by
    simp only [List.length_append]
    omega
  rw [wordInLine, if_neg (by omega), hlength]
  by_cases hin : (left.length : Int) + k < left.length + word.length + right.length
  · rw [if_pos hin]
    exact wordAround_word hword hleft hright hk
  · have hend : ((left.length : Int) + k - 1).toNat = left.length + (k - 1) := by omega
    rw [if_neg hin, if_pos (by simp; omega), hend]
    exact wordAround_word hword hleft hright (by omega)

/-- **The cursor touches exactly the word**, from its first character to behind its last. -/
theorem wordAt_scanned {file source : String} {tokens : List Token} {t : Token} {character : Int}
    (hlines : ∀ c ∈ source.toList, Text.isLineBoundary c = true → c = '\n')
    (hscan : Token.scan file source = .ok tokens) (ht : t ∈ tokens) (hk : t.kind = .identifier)
    (hfirst : t.span.startCol - 1 ≤ character) (hlast : character ≤ t.span.endCol) :
    wordAt source (t.span.startLine - 1) character = t.text := by
  obtain ⟨us, vs, rfl⟩ := List.append_of_mem ht
  obtain ⟨before, first, more, after, hp, hn, htext, hspan, -, -⟩ := scan_split hscan hk
  obtain ⟨hbefore, hafter⟩ := hp.beside_word hn
  obtain ⟨hstart, hmore, -⟩ := hp.word_fits
  have hword : ∀ c ∈ first :: more, inWord c = true := List.forall_mem_cons.2
    ⟨inWord_of_continuesWord (startsWord_continuesWord hstart),
      fun c hc => inWord_of_continuesWord (hmore c hc)⟩
  have hfeed : '\n' ∉ first :: more := hp.word_fits.newline_notMem (by simp)
  obtain ⟨init, left, right, rest, hleft, hright, haround⟩ :=
    Text.feedLines_around (textAll before) (textAll after)
  have hline : (Text.splitLines source.toList)[init.length]? =
      some (left ++ (first :: more ++ right)) := by
    refine Text.splitLines_getElem? hlines ?_ (by simp)
    rw [← hp.around_word, haround hfeed]
    simp
  simp only [hspan, Span.behind, Position.behind_eq hleft, reduceCtorEq, if_false] at hfirst hlast ⊢
  have hin : wordInLine (left ++ (first :: more ++ right)) character = first :: more := by
    refine wordInLine_word hword (by simp) (fun c hc => ?_) (fun c hc => ?_) (by omega) (by omega)
    · exact inWord_of_beside (hbefore c (Text.feedLines_getLast? hleft c hc))
    · exact inWord_of_beside (hafter c (Text.feedLines_head? hright c hc))
  have hnumber : ((init.length + 1 : Nat) - 1 : Int).toNat = init.length := by omega
  rw [wordAt, if_neg (by omega), hnumber, hline]
  show String.ofList (wordInLine (left ++ (first :: more ++ right)) character) = t.text
  rw [hin, ← htext, String.ofList_toList]

end Editor

/-! ## What is shown -/

/-- Without a redeclaration, a listed name has exactly one declaration, which can be printed. -/
theorem Description.exists_declaration {file source : String} {d : Description} {w : List Report}
    {name : String} (h : ofSource file source = .ok (d, w))
    (hw : ∀ report ∈ w, report.finding.code ≠ "W301") (hn : name ∈ d.names.map (·.1))
    (width : Text.Width) :
    ∃ decls decl text, d.declarations = .ok decls ∧ decl ∈ decls ∧ decl.name = name ∧
      (∀ other ∈ decls, other.name = name → other = decl) ∧ decl.print width = .ok text ∧
      d.printDeclaration width name = .ok (some text) := by
  obtain ⟨hd, hnames, -⟩ := ofSource_sound h
  obtain ⟨decls, own, hs⟩ := hd.survey
  rw [hnames] at hn
  obtain ⟨decl, hm, hname⟩ := hs.listed_declared hd (unmixed_of_warnings h hw) hn
  have hunique : ∀ other ∈ decls, other.name = name → other = decl := by
    intro other ho hother
    refine List.inj_on_of_nodup_map hs.gathered.closed.distinct ho hm ?_
    rw [Reason.Decl.ident, hother, Reason.Decl.ident, hname]
  obtain ⟨text, htext⟩ := hs.gathered.hasText decl hm width
  have hfind : decls.find? (·.name == name) = some decl := by
    cases hf : decls.find? (·.name == name) with
    | none => exact absurd (List.find?_eq_none.1 hf decl hm) (by simp [hname])
    | some found =>
      rw [hunique found (List.mem_of_find?_eq_some hf) (by simpa using List.find?_some hf)]
  exact ⟨decls, decl, text, hs.declarations, hm, hname, hunique, htext,
    by simp only [printDeclaration, hs.declarations, hfind, htext, ok_bind]⟩

/-- **The editor shows the declaration at every mention of a declared type.** In a document that is
accepted without a report of a redeclaration and in which only line feeds end lines, the cursor at
a token that is a listed name, from the first character to behind the last, touches that name. A
request for the type there answers the one declaration of that name, printed, in the markup of
editors. -/
theorem Editor.hover_shows_declaration {address source : String} {d : Description}
    {w : List Report} {tokens : List Token} {t : Token} {character : Int}
    (h : Description.ofSource address source = .ok (d, w))
    (hw : ∀ report ∈ w, report.finding.code ≠ "W301")
    (hlines : ∀ c ∈ source.toList, Text.isLineBoundary c = true → c = '\n')
    (hscan : Token.scan address source = .ok tokens) (ht : t ∈ tokens) (hk : t.kind = .identifier)
    (hn : t.text ∈ d.names.map (·.1)) (hfirst : t.span.startCol - 1 ≤ character)
    (hlast : character ≤ t.span.endCol) :
    wordAt source (t.span.startLine - 1) character = t.text ∧
      ∃ decls decl text, d.declarations = .ok decls ∧ decl ∈ decls ∧ decl.name = t.text ∧
        (∀ other ∈ decls, other.name = t.text → other = decl) ∧
        decl.print Document.width = .ok text ∧
        ∀ document : Document, document.source = source → document.description = some d →
          document.hover ⟨t.span.startLine - 1, character⟩ =
              .ok (.hover ("```reason\n" ++ text ++ "\n```")) ∧
            ∀ (s : Session) (cursor : Place), s.get? address = some document →
              place (t.span.startLine - 1) character = .ok cursor →
              s.answer (.hover address (t.span.startLine - 1) character) =
                .ok (.hover ("```reason\n" ++ text ++ "\n```"), s) := by
  have hword := wordAt_scanned hlines hscan ht hk hfirst hlast
  obtain ⟨decls, decl, text, hdecls, hm, hname, hunique, htext, hprint⟩ :=
    Description.exists_declaration h hw hn Document.width
  refine ⟨hword, decls, decl, text, hdecls, hm, hname, hunique, htext, fun document hs hd => ?_⟩
  have hlisted : d.declares t.text = true := by
    simpa [Description.declares] using hn
  have hne : t.text ≠ "" := by
    obtain ⟨c, cs, hc, -⟩ := (scan_identifier hscan t ht hk).word
    intro he
    rw [he] at hc
    cases hc
  have hhover : document.hover ⟨t.span.startLine - 1, character⟩ =
      .ok (.hover ("```reason\n" ++ text ++ "\n```")) := by
    simp only [Document.hover, hd, hs, hword, if_neg hne, Document.hoverText, hlisted,
      Bool.true_or, if_true, hprint, ok_bind, Option.map_some]
  refine ⟨hhover, fun s cursor hget hplace => ?_⟩
  obtain rfl := place_eq_ok hplace
  simp only [Session.answer, hplace, hget, hhover, mapError_ok, ok_bind]

/-- The cursor behind a name with a quote, at the end of a line. -/
theorem Editor.hover_shows_declaration_line_end : ∃ d tokens t decls decl text,
    Description.ofSource "x.tyd" "rec x\x27\n\x7b A: unit *\n\tx\x27\n\x7d" = .ok (d, []) ∧
      Token.scan "x.tyd" "rec x\x27\n\x7b A: unit *\n\tx\x27\n\x7d" = .ok tokens ∧
      t ∈ tokens ∧ t.span = ⟨"x.tyd", 3, 2, 3, 3⟩ ∧
      wordAt "rec x\x27\n\x7b A: unit *\n\tx\x27\n\x7d" 2 3 = "x\x27" ∧
      d.declarations = .ok decls ∧ decl ∈ decls ∧ decl.name = "x\x27" ∧
      decl.print Document.width = .ok text ∧
      (Document.mk "rec x\x27\n\x7b A: unit *\n\tx\x27\n\x7d" (some d) []).hover ⟨2, 3⟩ =
        .ok (.hover ("```reason\n" ++ text ++ "\n```")) := by
  generalize hsource : "rec x\x27\n\x7b A: unit *\n\tx\x27\n\x7d" = source
  obtain ⟨⟨d, w⟩, h, hread⟩ := exists_ok_of_any (Description.ofSource "x.tyd" source)
    (fun x => x.2.isEmpty && x.1.names.map (·.1) == ["x\x27"]) (by subst hsource; decide +kernel)
  obtain ⟨tokens, hscan, htokens⟩ := exists_ok_of_any (Token.scan "x.tyd" source)
    (·.contains ⟨.identifier, "x\x27", ⟨"x.tyd", 3, 2, 3, 3⟩⟩) (by subst hsource; decide +kernel)
  have hlines : (source.toList.all fun c => !Text.isLineBoundary c || c == '\n') = true := by
    subst hsource
    decide +kernel
  simp only [Bool.and_eq_true, beq_iff_eq, List.isEmpty_iff] at hread
  obtain ⟨rfl, hnames⟩ := hread
  have ht : ⟨.identifier, "x\x27", ⟨"x.tyd", 3, 2, 3, 3⟩⟩ ∈ tokens := List.contains_iff_mem.1 htokens
  obtain ⟨hword, decls, decl, text, hdecls, hm, hname, -, htext, hshown⟩ :=
    hover_shows_declaration h (List.forall_mem_nil _)
      (fun c hc hb => by simpa [hb] using List.all_eq_true.1 hlines c hc) hscan ht rfl
      (by simp [hnames]) (show (2 : Int) - 1 ≤ 3 by decide) (by decide)
  exact ⟨d, tokens, _, decls, decl, text, h, hscan, ht, rfl, hword, hdecls, hm, hname, htext,
    (hshown ⟨_, some d, []⟩ rfl rfl).1⟩

end TypeDesc
