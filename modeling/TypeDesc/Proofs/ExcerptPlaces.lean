/-
A diagnostic is shown with its source line and with carets under the text meant.
The scanner counts lines that line feeds end, and what is shown are lines of all
boundaries (`Text.openLines`), so that the two agree exactly where only line
feeds, alone or behind carriage returns, stand before the text
(`shown_eq_behind_iff`). The carets always have the columns of the span; there
the line has the text meant, if the counts agree, and an earlier line otherwise
(`excerpt_points_at_text_iff`).
-/
import TypeDesc.Diagnostic.Excerpt
import TypeDesc.Proofs.SettingsText
import TypeDesc.Proofs.SourceOutcome
import TypeDesc.Proofs.WholeEdit
import TypeDesc.Proofs.WordPlaces

namespace TypeDesc

open Lexeme

/-! ## Lines of all boundaries -/

namespace Text

/-- The lines of a text that goes on: a boundary at its end opens a further line. -/
def openLines : List Char → List (List Char)
  | [] => [[]]
  | '\r' :: '\n' :: cs => [] :: openLines cs
  | c :: cs => if isLineBoundary c then [] :: openLines cs else consLine c (openLines cs)

/-- Lines end at line feeds only, each of which may follow a carriage return. -/
def OnlyFeeds (cs : List Char) : Prop :=
  ∀ c ∈ unifyPairs cs, isLineBoundary c = true → c = '\n'

instance (cs : List Char) : Decidable (OnlyFeeds cs) :=
  List.decidableBAll _ _

/-- The characters of a line from one column to another, both included and counted from one. -/
def columns (first last : Int) (line : String) : List Char :=
  (line.toList.take last.toNat).drop (first.toNat - 1)

theorem openLines_ne_nil (cs : List Char) : openLines cs ≠ [] := by
  induction cs using splitLines.induct with
  | case1 => simp [openLines]
  | case2 => simp [openLines]
  | case3 c cs hne hb => simp [openLines.eq_3 _ _ hne, hb]
  | case4 c cs hne hb =>
    rw [openLines.eq_3 _ _ hne, if_neg hb]
    exact consLine_ne_nil c _

/-- A text with a beginning: the last line of the beginning goes on with the first line behind,
which is no second half of a boundary. -/
theorem splitLines_behind (pre : List Char) : ∃ init last, openLines pre = init ++ [last] ∧
    ∀ {cs first more}, cs.head? ≠ some '\n' → splitLines cs = first :: more →
      splitLines (pre ++ cs) = init ++ (last ++ first) :: more := by
  induction pre using splitLines.induct with
  | case1 => exact ⟨[], [], by rw [openLines]; rfl, fun _ h => h⟩
  | case2 pre ih =>
    obtain ⟨init, last, hpre, happend⟩ := ih
    refine ⟨[] :: init, last, by rw [openLines, hpre]; rfl, fun hcs h => ?_⟩
    rw [List.cons_append, List.cons_append, splitLines, happend hcs h]
    rfl
  | case3 c pre hne hb ih =>
    obtain ⟨init, last, hpre, happend⟩ := ih
    refine ⟨[] :: init, last, by rw [openLines.eq_3 _ _ hne, if_pos hb, hpre]; rfl, ?_⟩
    intro cs first more hcs h
    have hlone : ∀ rest, c = '\r' → pre ++ cs = '\n' :: rest → False := by
      intro rest hc hrest
      cases pre with
      | nil => exact hcs (by rw [← List.nil_append cs, hrest]; rfl)
      | cons x pre => exact hne pre hc (by rw [(List.cons.inj hrest).1])
    rw [List.cons_append, splitLines.eq_3 _ _ hlone, if_pos hb, happend hcs h]
    rfl
  | case4 c pre hne hb ih =>
    obtain ⟨init, last, hpre, happend⟩ := ih
    have hc : isLineBoundary c = false := by simpa using hb
    cases init with
    | nil =>
      refine ⟨[], c :: last, by rw [openLines.eq_3 _ _ hne, if_neg hb, hpre]; rfl, fun hcs h => ?_⟩
      rw [List.cons_append, splitLines_cons hc, happend hcs h]
      rfl
    | cons line init =>
      refine ⟨(c :: line) :: init, last, by rw [openLines.eq_3 _ _ hne, if_neg hb, hpre]; rfl,
        fun hcs h => ?_⟩
      rw [List.cons_append, splitLines_cons hc, happend hcs h]
      rfl

/-- The first line starts the text, and the others stand somewhere in it. -/
theorem openLines_cases (cs : List Char) : ∃ first more, openLines cs = first :: more ∧
    first <+: cs ∧ ∀ line ∈ first :: more, line <:+: cs := by
  induction cs using splitLines.induct with
  | case1 => exact ⟨[], [], by rw [openLines], List.prefix_rfl, by simp⟩
  | case2 cs ih =>
    obtain ⟨first, more, hcs, -, hmore⟩ := ih
    refine ⟨[], first :: more, by rw [openLines, hcs], List.nil_prefix, ?_⟩
    exact List.forall_mem_cons.2 ⟨List.nil_infix, fun line hm =>
      List.infix_cons (List.infix_cons (hmore line hm))⟩
  | case3 c cs hne hb ih =>
    obtain ⟨first, more, hcs, -, hmore⟩ := ih
    refine ⟨[], first :: more, by rw [openLines.eq_3 _ _ hne, if_pos hb, hcs], List.nil_prefix, ?_⟩
    exact List.forall_mem_cons.2 ⟨List.nil_infix, fun line hm => List.infix_cons (hmore line hm)⟩
  | case4 c cs hne hb ih =>
    obtain ⟨first, more, hcs, hfirst, hmore⟩ := ih
    have hstart : c :: first <+: c :: cs := List.cons_prefix_cons.2 ⟨rfl, hfirst⟩
    refine ⟨c :: first, more, by rw [openLines.eq_3 _ _ hne, if_neg hb, hcs]; rfl, hstart, ?_⟩
    exact List.forall_mem_cons.2 ⟨hstart.isInfix, fun line hm =>
      List.infix_cons (hmore line (List.mem_cons_of_mem _ hm))⟩

theorem openLines_infix {line cs : List Char} (h : line ∈ openLines cs) : line <:+: cs := by
  obtain ⟨first, more, hcs, -, hmore⟩ := openLines_cases cs
  exact hmore line (hcs ▸ h)

/-! ### Counting by line feeds -/

theorem onlyFeeds_cons {c : Char} {cs : List Char}
    (hne : ∀ rest, c = '\r' → cs = '\n' :: rest → False) :
    OnlyFeeds (c :: cs) ↔ (isLineBoundary c = true → c = '\n') ∧ OnlyFeeds cs := by
  rw [OnlyFeeds, unifyPairs.eq_3 _ _ hne, List.forall_mem_cons]
  rfl

/-- As many lines on both sides, and the same last line. -/
def CountAlike (lines lines' : List (List Char)) : Prop :=
  ∃ init init' last, lines = init ++ [last] ∧ lines' = init' ++ [last] ∧ init.length = init'.length

namespace CountAlike

variable {lines lines' : List (List Char)}

theorem cons (h : CountAlike lines lines') (line line' : List Char) :
    CountAlike (line :: lines) (line' :: lines') := by
  obtain ⟨init, init', last, rfl, rfl, hlength⟩ := h
  exact ⟨line :: init, line' :: init', last, rfl, rfl, by simp [hlength]⟩

theorem consLine (h : CountAlike lines lines') (c : Char) :
    CountAlike (Text.consLine c lines) (Text.consLine c lines') := by
  obtain ⟨init, init', last, rfl, rfl, hlength⟩ := h
  cases init with
  | nil =>
    obtain rfl := List.eq_nil_of_length_eq_zero hlength.symm
    exact ⟨[], [], c :: last, rfl, rfl, rfl⟩
  | cons line init =>
    cases init' with
    | nil => cases hlength
    | cons line' init' => exact ⟨(c :: line) :: init, (c :: line') :: init', last, rfl, rfl, hlength⟩

theorem length (h : CountAlike lines lines') : lines.length = lines'.length := by
  obtain ⟨init, init', last, rfl, rfl, hlength⟩ := h
  simp [hlength]

end CountAlike

theorem length_consLine {lines : List (List Char)} (h : lines ≠ []) (c : Char) :
    (consLine c lines).length = lines.length := by
  cases lines with
  | nil => exact absurd rfl h
  | cons line lines => rfl

/-- **Counting by line feeds falls behind** at the first other boundary, and for good. -/
theorem feedLines_openLines (cs : List Char) :
    (OnlyFeeds cs ∧ CountAlike (feedLines cs) (openLines cs)) ∨
      ¬ OnlyFeeds cs ∧ (feedLines cs).length < (openLines cs).length := by
  induction cs using splitLines.induct with
  | case1 => exact .inl ⟨by simp [OnlyFeeds, unifyPairs], [], [], [], by simp [feedLines, openLines]⟩
  | case2 cs ih =>
    have honly : OnlyFeeds ('\r' :: '\n' :: cs) ↔ OnlyFeeds cs := by
      rw [OnlyFeeds, unifyPairs, List.forall_mem_cons]
      exact and_iff_right fun _ => rfl
    have hfeed : feedLines ('\r' :: '\n' :: cs) = ['\r'] :: feedLines cs := by
      simp [feedLines, Text.consLine]
    rw [honly, hfeed, openLines]
    rcases ih with ⟨h, halike⟩ | ⟨h, hlt⟩
    · exact .inl ⟨h, halike.cons _ _⟩
    · exact .inr ⟨h, Nat.succ_lt_succ hlt⟩
  | case3 c cs hne hb ih =>
    rw [onlyFeeds_cons hne, openLines.eq_3 _ _ hne, if_pos hb, feedLines]
    by_cases hc : c = '\n'
    · rw [if_pos hc]
      rcases ih with ⟨h, halike⟩ | ⟨h, hlt⟩
      · exact .inl ⟨⟨fun _ => hc, h⟩, halike.cons _ _⟩
      · exact .inr ⟨fun hall => h hall.2, Nat.succ_lt_succ hlt⟩
    -- the foreign boundary opens a line that line feeds do not count
    · have hle : (feedLines cs).length ≤ (openLines cs).length := by
        rcases ih with ⟨-, halike⟩ | ⟨-, hlt⟩
        · exact Nat.le_of_eq halike.length
        · exact Nat.le_of_lt hlt
      rw [if_neg hc, length_consLine (feedLines_ne_nil cs), List.length_cons]
      exact .inr ⟨fun hall => hc (hall.1 hb), Nat.lt_succ_of_le hle⟩
  | case4 c cs hne hb ih =>
    have hc : c ≠ '\n' := by
      rintro rfl
      exact hb rfl
    rw [onlyFeeds_cons hne, openLines.eq_3 _ _ hne, if_neg hb, feedLines, if_neg hc]
    rcases ih with ⟨h, halike⟩ | ⟨h, hlt⟩
    · exact .inl ⟨⟨fun hbc => absurd hbc hb, h⟩, halike.consLine c⟩
    · rw [length_consLine (feedLines_ne_nil cs), length_consLine (openLines_ne_nil cs)]
      exact .inr ⟨fun hall => h hall.2, hlt⟩

end Text

/-! ## Where a text is shown -/

/-- The line and the column of what follows `pre` among the lines of all boundaries. -/
def Position.shown (pre : List Char) : Position :=
  ⟨(Text.openLines pre).length, ((Text.openLines pre).getLastD []).length + 1⟩

/-- **The two counts agree** exactly if no boundary but line feeds stands before. -/
theorem Position.shown_eq_behind_iff (pre : List Char) :
    shown pre = behind pre ↔ Text.OnlyFeeds pre := by
  rcases Text.feedLines_openLines pre with ⟨h, init, init', last, hfeeds, hopen, hlength⟩ | ⟨h, hlt⟩
  · rw [behind_eq hfeeds, shown, hopen]
    simp [h, hlength]
  · refine ⟨fun heq => ?_, fun hall => absurd hall h⟩
    have hlines : (Text.openLines pre).length = (Text.feedLines pre).length :=
      congrArg Position.line heq
    exact absurd hlines (Nat.ne_of_gt hlt)

namespace Text

theorem columns_around (last cs first : List Char) :
    columns (last.length + 1 : Nat) ((last.length + 1 : Nat) + cs.length - 1)
      (.ofList (last ++ (cs ++ first))) = cs := by
  have hend : (((last.length + 1 : Nat) : Int) + cs.length - 1).toNat = last.length + cs.length := by
    omega
  rw [columns, hend, Int.toNat_natCast, String.toList_ofList, ← List.append_assoc,
    List.take_left' (by simp), Nat.add_sub_cancel, List.drop_left]

section

variable (pre : List Char) {cs : List Char} (rest : List Char) (hne : cs ≠ [])
  (hcs : ∀ c ∈ cs, isLineBoundary c = false)
include hcs

theorem splitLines_start (hne : cs ≠ []) :
    ∃ first more, splitLines (cs ++ rest) = (cs ++ first) :: more := by
  induction cs with
  | nil => exact absurd rfl hne
  | cons c cs ih =>
    rw [List.forall_mem_cons] at hcs
    rw [List.cons_append, splitLines_cons hcs.1]
    cases cs with
    | nil =>
      cases hrest : splitLines rest with
      | nil => exact ⟨[], [], by rw [List.nil_append, hrest]; rfl⟩
      | cons first more => exact ⟨first, more, by rw [List.nil_append, hrest]; rfl⟩
    | cons x cs =>
      obtain ⟨first, more, hrest⟩ := ih hcs.2 (by simp)
      exact ⟨first, more, by rw [hrest]; rfl⟩

include hne

/-- The line of a part of a text: the last one before it goes on with the part. -/
theorem splitLines_around : ∃ init last first more, openLines pre = init ++ [last] ∧
    splitLines (pre ++ (cs ++ rest)) = init ++ (last ++ (cs ++ first)) :: more := by
  obtain ⟨init, last, hpre, happend⟩ := splitLines_behind pre
  obtain ⟨first, more, hrest⟩ := splitLines_start rest hcs hne
  refine ⟨init, last, first, more, hpre, happend ?_ hrest⟩
  obtain ⟨c, cs, rfl⟩ := List.exists_cons_of_ne_nil hne
  intro hhead
  have hc : c = '\n' := by simpa using hhead
  have hplain := hcs c (by simp)
  rw [hc] at hplain
  cases hplain

/-- A text without a boundary stands, in the lines of the whole, at its place among them. -/
theorem columns_shown :
    let p := Position.shown pre
    ∃ line, (splitLines (pre ++ (cs ++ rest)))[p.line - 1]? = some line ∧
      columns p.col (p.col + cs.length - 1) (.ofList line) = cs := by
  obtain ⟨init, last, first, more, hpre, hlines⟩ := splitLines_around pre rest hne hcs
  refine ⟨last ++ (cs ++ first), ?_, ?_⟩
  · simp [Position.shown, hpre, hlines]
  · simpa [Position.shown, hpre] using columns_around last cs first

/-- What stands at the place that line feeds count: the text itself if the counts agree, and
otherwise a part of what comes before. -/
theorem columns_behind :
    let p := Position.behind pre
    ∃ line, (splitLines (pre ++ (cs ++ rest)))[p.line - 1]? = some line ∧
      (OnlyFeeds pre → columns p.col (p.col + cs.length - 1) (.ofList line) = cs) ∧
      (¬ OnlyFeeds pre → line <:+: pre) := by
  intro p
  obtain ⟨init, last, first, more, hpre, hlines⟩ := splitLines_around pre rest hne hcs
  by_cases honly : OnlyFeeds pre
  · obtain ⟨line, hline, hcolumns⟩ := columns_shown pre rest hne hcs
    rw [(Position.shown_eq_behind_iff pre).2 honly] at hline hcolumns
    exact ⟨line, hline, fun _ => hcolumns, fun h => absurd honly h⟩
  · obtain ⟨h, -⟩ | ⟨-, hlt⟩ := feedLines_openLines pre
    · exact absurd h honly
    have hline : p.line - 1 < init.length := by
      have hle : p.line < (openLines pre).length := hlt
      rw [hpre, List.length_append, List.length_singleton] at hle
      have hpos : 0 < p.line := List.length_pos_iff.2 (feedLines_ne_nil pre)
      omega
    refine ⟨init[p.line - 1], ?_, fun h => absurd h honly, fun _ => openLines_infix ?_⟩
    · rw [hlines, List.getElem?_append_left hline, List.getElem?_eq_getElem hline]
    · rw [hpre]
      exact List.mem_append_left _ (List.getElem_mem hline)

end

end Text

/-! ## What reports point at -/

theorem Text.isBlank_of_isLineBoundary {c : Char} (h : isLineBoundary c = true) :
    isBlank c = true := by
  have hall : ∀ n ∈ [0x0a, 0x0d, 0x0b, 0x0c, 0x1c, 0x1d, 0x1e, 0x85, 0x2028, 0x2029],
      n ∈ blankPoints := by
    decide
  exact List.contains_iff_mem.2 (hall _ (List.contains_iff_mem.1 h))

/-- Only blanks and comments can hold a boundary. -/
theorem Lexeme.Fits.boundary_notMem {piece : Lexeme} {rest : List Char} (hf : piece.Fits rest)
    (hblank : ∀ c, piece ≠ .blank c) (hcomment : ∀ body, piece ≠ .comment body) :
    ∀ c ∈ piece.text, Text.isLineBoundary c = false := by
  intro c hc
  refine Bool.eq_false_iff.2 fun hb => ?_
  have hbc := Text.isBlank_of_isLineBoundary hb
  have hplain : Text.isBlank c = false := by
    cases piece with
    | blank c => exact absurd rfl (hblank c)
    | comment body => exact absurd rfl (hcomment body)
    | word first more =>
      rcases List.mem_cons.1 hc with rfl | hc
      · exact (continuesWord_plain (startsWord_continuesWord hf.1)).1
      · exact (continuesWord_plain (hf.2.1 c hc)).1
    | mark x kind =>
      rw [List.mem_singleton.1 hc]
      exact (TokenKind.plain_of_mark hf).2.1
    | stray x =>
      rw [List.mem_singleton.1 hc]
      exact hf.1
  rw [hplain] at hbc
  cases hbc

/-- `text` is what the label of a report on a source points at: the label is the place of a token
before the end of the input, or the report is of a stray character. -/
def PointsAt (file source : String) (r : Report) (label : Label) (text : List Char) : Prop :=
  (∃ tokens t, Token.scan file source = .ok tokens ∧ t ∈ tokens ∧ t.kind ≠ .endOfInput ∧
    label.span = t.span ∧ text = t.text.toList) ∨
  ∃ c, r.finding = .strayChar c ∧ text = [c]

section

variable {file source : String} {r : Report} {label : Label} {text : List Char}

theorem scan_pieces {pre : List Char} {piece : Lexeme}
    (hx : (pre, piece) ∈ placed [] (cut source.toList)) :
    ∃ rest, piece.Fits rest ∧ source.toList = pre ++ (piece.text ++ rest) := by
  obtain ⟨rest, hf, hsplit⟩ := placed_splits (pieces_iff.2 rfl) [] _ hx
  exact ⟨rest, hf, hsplit⟩

/-- A token before the end of the input stands behind some text. -/
theorem scan_token_behind {tokens : List Token} {t : Token} (h : Token.scan file source = .ok tokens)
    (ht : t ∈ tokens) (hk : t.kind ≠ .endOfInput) :
    ∃ (pre : List Char) (piece : Lexeme) (rest : List Char), piece.Fits rest ∧
      source.toList = pre ++ (piece.text ++ rest) ∧ piece.tokenBehind file pre = some t := by
  obtain ⟨pieces, hpieces, -, ⟨-, reports, herr, -⟩ | ⟨-, ts, eof, hok, hts, heof, -⟩⟩ :=
    scan_takes_apart file source
  · rw [herr] at h
    cases h
  · rw [hok] at h
    obtain rfl := Except.ok.inj h
    obtain rfl := pieces_iff.1 ((hpieces pieces).2 rfl)
    have hm : t ∈ ts := by
      rcases List.mem_append.1 ht with hm | hm
      · exact hm
      · exact absurd (List.mem_singleton.1 hm ▸ heof) hk
    rw [hts] at hm
    obtain ⟨⟨pre, piece⟩, hx, htoken⟩ := List.mem_filterMap.1 hm
    obtain ⟨rest, hf, hsplit⟩ := scan_pieces hx
    exact ⟨pre, piece, rest, hf, hsplit, htoken⟩

/-- What is reported on a text is about stray characters, or about the reading of its tokens. -/
theorem reportsOf_codes (hr : r ∈ reportsOf (Description.ofSource file source)) :
    (∃ reports, Token.scan file source = .error reports ∧ r ∈ reports ∧ r.finding.code = "E100") ∨
      r.finding.code ∈ readingCodes := by
  cases hscan : Token.scan file source with
  | error reports =>
    simp only [Description.ofSource, hscan, mapError_error, error_bind, reportsOf] at hr
    exact .inl ⟨reports, rfl, hr, (scan_error hscan).2 r hr⟩
  | ok tokens =>
    simp only [Description.ofSource, hscan, mapError_ok, ok_bind] at hr
    rcases ofTokens_outcome file (scan_endsOnce hscan) with ⟨d, warnings, hok, hcodes⟩ |
      ⟨reports, herr, hcodes, -⟩
    · rw [hok, reportsOf] at hr
      have hwarning : ∀ code ∈ ["W300", "W301"], code ∈ readingCodes := by decide
      exact .inr (hwarning _ (hcodes r hr))
    · rw [herr, reportsOf] at hr
      exact .inr (hcodes r hr)

theorem labelMessage_of_reportsOf (hr : r ∈ reportsOf (Description.ofSource file source)) :
    r.finding.labelMessage = "" := by
  have hcode : r.finding.code ≠ "E400" := by
    rcases reportsOf_codes hr with ⟨-, -, -, hcode⟩ | hcode
    · rw [hcode]
      decide
    · intro he
      rw [he] at hcode
      exact absurd hcode (by decide)
  cases hf : r.finding with
  | topClash => exact absurd (by rw [hf]; rfl) hcode
  | _ => rfl

/-- A stray character that is reported stands behind some text. -/
theorem stray_behind {c : Char} (hr : r ∈ reportsOf (Description.ofSource file source))
    (hc : r.finding = .strayChar c) :
    ∃ pre rest, (Lexeme.stray c).Fits rest ∧ source.toList = pre ++ ([c] ++ rest) ∧
      r.span = some (.behind file pre [c]) := by
  obtain ⟨reports, hscan, hm, -⟩ | hcode := reportsOf_codes hr
  · obtain ⟨pieces, hpieces, -, ⟨-, reports', herr, hreports, -⟩ | ⟨-, ts, eof, hok, -⟩⟩ :=
      scan_takes_apart file source
    · obtain rfl := pieces_iff.1 ((hpieces pieces).2 rfl)
      rw [hscan] at herr
      rw [Except.error.inj herr, hreports] at hm
      obtain ⟨⟨pre, piece⟩, hx, hreport⟩ := List.mem_filterMap.1 hm
      obtain ⟨rest, hf, hsplit⟩ := scan_pieces hx
      cases piece with
      | blank | comment | word | mark => cases hreport
      | stray x =>
        cases hreport
        cases hc
        exact ⟨pre, rest, hf, hsplit, rfl⟩
    · rw [hscan] at hok
      cases hok
  · rw [hc, Finding.code] at hcode
    exact absurd hcode (by decide)

theorem Report.label_eq (hlabel : label ∈ r.diagnostic.labels) :
    r.span = some label.span ∧ label.message = r.finding.labelMessage := by
  obtain ⟨span, hspan, rfl⟩ := List.mem_map.1 hlabel
  exact ⟨Option.mem_toList.1 hspan, rfl⟩

/-- What is pointed at stands behind some text, where its label places it. -/
theorem PointsAt.behind (h : PointsAt file source r label text)
    (hr : r ∈ reportsOf (Description.ofSource file source))
    (hlabel : label ∈ r.diagnostic.labels) :
    ∃ pre rest, source.toList = pre ++ (text ++ rest) ∧ label.span = .behind file pre text ∧
      text ≠ [] ∧ ∀ c ∈ text, Text.isLineBoundary c = false := by
  rcases h with ⟨tokens, t, hscan, ht, hk, hspan, rfl⟩ | ⟨c, hc, rfl⟩
  · obtain ⟨pre, piece, rest, hf, hsplit, htoken⟩ := scan_token_behind hscan ht hk
    obtain ⟨htext, htspan, hblank⟩ := of_tokenBehind htoken
    have hcomment : ∀ body, piece ≠ .comment body := by
      rintro body rfl
      cases htoken
    rw [hspan, htspan, htext]
    exact ⟨pre, rest, hsplit, rfl, piece.text_ne_nil, hf.boundary_notMem hblank hcomment⟩
  · obtain ⟨pre, rest, hf, hsplit, hspan⟩ := stray_behind hr hc
    rw [(Report.label_eq hlabel).1] at hspan
    exact ⟨pre, rest, hsplit, Option.some.inj hspan, by simp,
      hf.boundary_notMem (by simp) (by simp)⟩

end

/-! ## The rows of an excerpt -/

namespace Diagnostic

/-- The margin of a source line: its number. -/
def numberMargin (color : Bool) (line : Int) : String :=
  marginMark color (toString line ++ " |") ++ " "

/-- The margin below it. -/
def blankMargin (color : Bool) (line : Int) : String :=
  Text.blanks (toString line).length ++ " " ++ marginMark color "|" ++ " "

theorem margins_align (color : Bool) (line : Int) :
    (numberMargin color line).length = (blankMargin color line).length := by
  have hbar : " |".length = " ".length + "|".length := rfl
  cases color <;> simp [numberMargin, blankMargin, marginMark, paint, Text.blanks, hbar] <;> omega

/-- The carets under a text are as many as its characters. -/
theorem carets_behind (file : String) (pre : List Char) {cs : List Char} (hne : cs ≠ [])
    (line : String) :
    carets (.behind file pre cs) line = String.ofList (List.replicate cs.length '^') := by
  have hpos : 0 < cs.length := List.length_pos_iff.2 hne
  simp only [carets, Span.onOneLine, Span.behind, beq_self_eq_true, if_true, if_neg hne]
  congr 2
  omega

/-- A label without a message is shown as its source line and a row of carets, below its place. -/
theorem labelRows_eq {sources : Sources} {label : Label} {line : String} (color : Bool)
    (severity : Severity) (hmessage : label.message = "")
    (hline : sources.line? label.span.file label.span.startLine = some line) :
    ∃ place gap, labelRows sources color (toString label.span.startLine).length severity label =
      [place, gap, numberMargin color label.span.startLine ++ line,
        blankMargin color label.span.startLine ++ Text.blanks (label.span.startCol - 1) ++
          paint color severity.color (carets label.span line)] := by
  simp only [labelRows, hline, hmessage, if_true, sourceRow]
  refine ⟨_, _, congrArg _ (congrArg _ ?_)⟩
  simp [numberMargin, blankMargin, Text.blanks, String.append_assoc]

end Diagnostic

open Diagnostic

/-- A report with a place is shown with the source line of its place and a row of carets. -/
theorem Report.rows_eq {sources : Sources} {r : Report} {label : Label} {line : String}
    (color : Bool) (hlabel : label ∈ r.diagnostic.labels) (hmessage : r.finding.labelMessage = "")
    (hline : sources.line? label.span.file label.span.startLine = some line) :
    ∃ above below, r.diagnostic.rows sources color = above ++
      (numberMargin color label.span.startLine ++ line) ::
      (blankMargin color label.span.startLine ++ Text.blanks (label.span.startCol - 1) ++
        paint color r.finding.severity.color (carets label.span line)) :: below := by
  obtain ⟨hspan, hlm⟩ := Report.label_eq hlabel
  have hlabels : r.diagnostic.labels = [label] := by
    rw [diagnostic, hspan]
    simp [← hlm]
  have hwidth : r.diagnostic.numberWidth = (toString label.span.startLine).length := by
    simp [numberWidth, hlabels]
  obtain ⟨place, gap, hrows⟩ :=
    labelRows_eq color r.finding.severity (hlm.trans hmessage) hline
  refine ⟨[header color r.diagnostic, place, gap], ?_⟩
  rw [rows, hlabels, hwidth, List.flatMap_singleton]
  exact ⟨_, by rw [show r.diagnostic.severity = r.finding.severity from rfl, hrows]; rfl⟩

/-! ## Carets under the text meant -/

/-- **Carets stand under the text meant exactly if both counts agree.** Let a label of a report on a
source be the place of a token or of a stray character, and let the lines of the source be those
that are shown. The text stands in the source where its span counts it by line feeds, and among the
lines of all boundaries in a place of its own. Below the place of the report are a line of the
source and a row of carets, behind margins of one width, and the carets have exactly the columns of
the span. The span is the place of the text among the lines exactly if no boundary but line feeds
stands before it. Then the columns of the line that is shown are the text; otherwise the line lies
before the text, and has it in these columns only if it stands there as well. -/
theorem excerpt_points_at_text_iff {file source : String} {r : Report} {label : Label}
    {text : List Char} (sources : Sources) (color : Bool)
    (hsources : sources file = Text.lines source)
    (hr : r ∈ reportsOf (Description.ofSource file source))
    (hlabel : label ∈ r.diagnostic.labels) (htext : PointsAt file source r label text) :
    ∃ pre rest line above below, source.toList = pre ++ (text ++ rest) ∧
      label.span = .behind file pre text ∧
      (∃ own, (Text.lines source)[(Position.shown pre).line - 1]? = some own ∧
        Text.columns (Position.shown pre).col ((Position.shown pre).col + text.length - 1) own =
          text) ∧
      r.diagnostic.render sources color = Text.joinWith "\n" (above ++
        (numberMargin color label.span.startLine ++ line) ::
        (blankMargin color label.span.startLine ++ Text.blanks (label.span.startCol - 1) ++
          paint color r.finding.severity.color (.ofList (text.map fun _ => '^'))) :: below) ∧
      (numberMargin color label.span.startLine).length =
        (blankMargin color label.span.startLine).length ∧
      (Position.shown pre = Position.behind pre ↔ Text.OnlyFeeds pre) ∧
      (Text.OnlyFeeds pre → Text.columns label.span.startCol label.span.endCol line = text) ∧
      (Text.columns label.span.startCol label.span.endCol line = text →
        Text.OnlyFeeds pre ∨ text <:+: pre) := by
  obtain ⟨pre, rest, hsplit, hspan, hne, hplain⟩ := htext.behind hr hlabel
  obtain ⟨line, hline, hcolumns, hbefore⟩ := Text.columns_behind pre rest hne hplain
  obtain ⟨own, hown, hplace⟩ := Text.columns_shown pre rest hne hplain
  have hshown : sources.line? label.span.file label.span.startLine = some (.ofList line) := by
    have hpos : 0 < (Position.behind pre).line := List.length_pos_iff.2 (Text.feedLines_ne_nil pre)
    have hindex : ((Position.behind pre).line - 1 : Int).toNat = (Position.behind pre).line - 1 := by
      omega
    rw [hspan]
    simp only [Span.behind, Sources.line?, hsources, hindex]
    rw [if_pos (by omega), Text.lines, hsplit, List.getElem?_map, hline]
    rfl
  obtain ⟨above, below, hrows⟩ :=
    Report.rows_eq color hlabel (labelMessage_of_reportsOf hr) hshown
  have hend : label.span.endCol = label.span.startCol + text.length - 1 := by
    rw [hspan, Span.behind, if_neg hne]
  have hcarets : carets label.span (.ofList line) = .ofList (text.map fun _ => '^') := by
    rw [hspan, carets_behind file pre hne, List.map_const']
  rw [hcarets] at hrows
  refine ⟨pre, rest, .ofList line, above, below, hsplit, hspan, ⟨.ofList own, ?_, hplace⟩,
    by rw [render, hrows], margins_align _ _, Position.shown_eq_behind_iff pre, fun h => ?_,
    fun h => or_iff_not_imp_left.2 fun honly => ?_⟩
  · rw [Text.lines, hsplit, List.getElem?_map, hown]
    rfl
  · rw [hend, hspan]
    exact hcolumns h
  · have hin : text <:+: line := by
      rw [← h, Text.columns, String.toList_ofList]
      exact (List.drop_suffix _ _).isInfix.trans (List.take_prefix _ _).isInfix
    exact hin.trans (hbefore honly)

/-- An unknown name behind a comment and a boundary of two characters. -/
theorem excerpt_points_behind_comment :
    ∃ r ∈ reportsOf (Description.ofSource "x.tyd" "// note\r\nelm"),
      ∃ label ∈ r.diagnostic.labels,
        PointsAt "x.tyd" "// note\r\nelm" r label ['e', 'l', 'm'] ∧
        ∃ line above below,
          r.diagnostic.render (fun _ => Text.lines "// note\r\nelm") false =
            Text.joinWith "\n" (above ++ (numberMargin false 2 ++ line) ::
              (blankMargin false 2 ++ Text.blanks 0 ++ "^^^") :: below) ∧
          Text.columns 1 3 line = ['e', 'l', 'm'] := by
  have hreports : reportsOf (Description.ofSource "x.tyd" "// note\r\nelm") =
      [.located (.unknownVariable "elm" none) ⟨"x.tyd", 2, 1, 2, 3⟩] := by
    decide +kernel
  have hscan : Token.scan "x.tyd" "// note\r\nelm" =
      .ok [⟨.identifier, "elm", ⟨"x.tyd", 2, 1, 2, 3⟩⟩,
        ⟨.endOfInput, "", ⟨"x.tyd", 2, 4, 2, 4⟩⟩] := by
    decide +kernel
  have hr : Report.located (.unknownVariable "elm" none) ⟨"x.tyd", 2, 1, 2, 3⟩ ∈
      reportsOf (Description.ofSource "x.tyd" "// note\r\nelm") := by
    simp [hreports]
  have hpoints : PointsAt "x.tyd" "// note\r\nelm"
      (.located (.unknownVariable "elm" none) ⟨"x.tyd", 2, 1, 2, 3⟩) ⟨⟨"x.tyd", 2, 1, 2, 3⟩, ""⟩
      ['e', 'l', 'm'] :=
    .inl ⟨_, _, hscan, List.mem_cons_self, by decide, rfl, by decide⟩
  obtain ⟨pre, rest, line, above, below, hsplit, -, -, hrender, -, -, hcolumns, -⟩ :=
    excerpt_points_at_text_iff (fun _ => Text.lines "// note\r\nelm") false rfl hr
      List.mem_cons_self hpoints
  -- the name stands in one place only, behind the boundary
  have honly : Text.OnlyFeeds pre := by
    have hall : ∀ n ≤ 9, (("// note\r\nelm".toList.drop n).take 3 = ['e', 'l', 'm'] →
        Text.OnlyFeeds ("// note\r\nelm".toList.take n)) := by
      decide +kernel
    have hlength := congrArg List.length hsplit
    simp only [List.length_append] at hlength
    have hpre := hall pre.length (by simp at hlength; omega)
    rw [hsplit] at hpre
    simpa using hpre
  exact ⟨_, hr, _, List.mem_cons_self, hpoints, line, above, below, hrender, hcolumns honly⟩

/-- A form feed before an unknown name ends a line that is not counted: what is shown is the line
before it, which is empty, and the carets stand under nothing. -/
theorem excerpt_misses_behind_form_feed :
    ∃ r ∈ reportsOf (Description.ofSource "x.tyd" "\x0celm"), ∃ label ∈ r.diagnostic.labels,
      PointsAt "x.tyd" "\x0celm" r label ['e', 'l', 'm'] ∧
      r.diagnostic.render (fun _ => Text.lines "\x0celm") false =
        "error[E201]: unknown type variable 'elm'\n --> x.tyd:1:2\n  |\n1 | \n  |  ^^^" ∧
      Text.columns label.span.startCol label.span.endCol "" ≠ ['e', 'l', 'm'] := by
  have hreports : reportsOf (Description.ofSource "x.tyd" "\x0celm") =
      [.located (.unknownVariable "elm" none) ⟨"x.tyd", 1, 2, 1, 4⟩] := by
    decide +kernel
  have hscan : Token.scan "x.tyd" "\x0celm" =
      .ok [⟨.identifier, "elm", ⟨"x.tyd", 1, 2, 1, 4⟩⟩,
        ⟨.endOfInput, "", ⟨"x.tyd", 1, 5, 1, 5⟩⟩] := by
    decide +kernel
  refine ⟨.located (.unknownVariable "elm" none) ⟨"x.tyd", 1, 2, 1, 4⟩, by simp [hreports],
    ⟨⟨"x.tyd", 1, 2, 1, 4⟩, ""⟩, List.mem_cons_self,
    .inl ⟨_, _, hscan, List.mem_cons_self, by decide, rfl, by decide⟩, by decide +kernel,
    by decide +kernel⟩

end TypeDesc
