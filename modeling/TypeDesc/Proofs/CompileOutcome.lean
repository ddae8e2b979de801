/-
What can become of a source: it is rejected for stray characters, or for what
reading reports, or it is read, and then only a clash with the top stands between
it and its text (`compile_outcome`). No source leads to a fault, at no width and
under no top.

A source that is scanned ends once (`scan_endsOnce`), so that the reader never
runs out of tokens; a description that is read is well formed, so that no index
points outside its environment.
-/
import TypeDesc.Proofs.ClosedModule
import TypeDesc.Proofs.GrammarExact

namespace TypeDesc

/-! ## Scanning -/

theorem ofWord_ne_endOfInput (word : String) : TokenKind.ofWord word ≠ .endOfInput := by
  unfold TokenKind.ofWord
  split <;> simp

theorem ofMark?_ne_endOfInput (c : Char) : TokenKind.ofMark? c ≠ some .endOfInput := by
  unfold TokenKind.ofMark?
  split <;> simp

/-- No part of a text is the end of the input. -/
theorem Lexeme.Genuine.ne_endOfInput {lexeme : Lexeme} (hl : lexeme.Genuine) {file : String}
    {p : Position} {t : Token} (ht : t ∈ lexeme.token? file p) : t.kind ≠ .endOfInput := by
  cases lexeme with
  | blank | comment | stray => cases ht
  | word first more =>
    cases ht
    exact ofWord_ne_endOfInput _
  | mark c kind =>
    cases ht
    intro hk
    cases hk
    exact ofMark?_ne_endOfInput c hl

theorem Scanned.ofLexemes_endsOnce {file : String} {lexemes : List Lexeme}
    (hl : ∀ lexeme ∈ lexemes, lexeme.Genuine) :
    ∀ p : Position, EndsOnce (ofLexemes file p lexemes).tokens := by
  induction lexemes with
  | nil => exact fun p => ⟨[], _, rfl, rfl, by simp⟩
  | cons lexeme lexemes ih =>
    intro p
    rw [List.forall_mem_cons] at hl
    obtain ⟨ts, eof, htokens, heof, hts⟩ := ih hl.2 (p.afterAll lexeme.text)
    refine ⟨(lexeme.token? file p).toList ++ ts, eof, ?_, heof, ?_⟩
    · rw [ofLexemes, List.append_assoc, ← htokens]
    · intro t ht
      rcases List.mem_append.1 ht with ht | ht
      · exact hl.1.ne_endOfInput (Option.mem_toList.1 ht)
      · exact hts t ht

theorem scan_endsOnce {file source : String} {tokens : List Token}
    (h : Token.scan file source = .ok tokens) : EndsOnce tokens := by
  simp only [Token.scan] at h
  split at h
  next =>
    cases h
    exact Scanned.ofLexemes_endsOnce (Lexeme.cut_genuine _) _
  next => cases h

theorem Scanned.ofLexemes_reports (file : String) (lexemes : List Lexeme) : ∀ p : Position,
    ∀ report ∈ (ofLexemes file p lexemes).reports, report.finding.code = "E100" := by
  induction lexemes with
  | nil => simp [ofLexemes]
  | cons lexeme lexemes ih =>
    intro p report hm
    rcases List.mem_append.1 hm with hm | hm
    · cases lexeme with
      | stray c =>
        simp only [Lexeme.report?, Option.toList_some, List.mem_singleton] at hm
        subst hm
        rfl
      | blank | comment | word | mark => simp [Lexeme.report?] at hm
    · exact ih _ report hm

/-- What is reported by scanning are stray characters. -/
theorem scan_error {file source : String} {reports : List Report}
    (h : Token.scan file source = .error reports) :
    reports ≠ [] ∧ ∀ report ∈ reports, report.finding.code = "E100" := by
  simp only [Token.scan] at h
  split at h
  next => cases h
  next hne =>
    cases h
    exact ⟨by simpa using hne, Scanned.ofLexemes_reports _ _ _⟩

/-! ## Reading -/

/-- The codes of all that reading the tokens of a description may report. -/
def readingCodes : List String :=
  ["E200", "E201", "E202", "E203", "E204", "E205", "E206", "W300", "W301"]

theorem Finding.code_of_warning {finding : Finding} (h : finding.severity ≠ .error) :
    finding.code ∈ ["W300", "W301"] := by
  cases finding <;> simp [severity, code] at h ⊢

/-- A description is read with warnings only, or there is an error among the reports. -/
theorem ofTokens_outcome (file : String) {tokens : List Token} (h : EndsOnce tokens) :
    (∃ d warnings, Description.ofTokens file tokens = .ok (d, warnings) ∧
      ∀ report ∈ warnings, report.finding.code ∈ ["W300", "W301"]) ∨
    ∃ reports, Description.ofTokens file tokens = .error (.rejected reports) ∧
      (∀ report ∈ reports, report.finding.code ∈ readingCodes) ∧
      ∃ report ∈ reports, report.isError = true := by
  have hnames : ∀ code ∈ nameCodes, code ∈ readingCodes := by decide
  by_cases hg : InGrammar (tokens.map (·.kind))
  · obtain ⟨tree, hts⟩ := hg.tree
    have hcodes := reportsOf_tree file hts
    obtain ⟨d, -, -, heq⟩ := tree.ofTokens_eq file hts
    by_cases herr : (tree.notes.allReports tree.params).any (·.isError) = true
    · rw [if_pos herr] at heq
      rw [heq] at hcodes
      refine .inr ⟨_, heq, fun report hm => ?_, by simpa using herr⟩
      rcases List.mem_cons.1 (hcodes report hm) with hc | hc
      · rw [hc]
        decide
      · exact hnames _ hc
    · rw [if_neg herr] at heq
      refine .inl ⟨d, _, heq, fun report hm => Finding.code_of_warning fun hs => herr ?_⟩
      exact List.any_eq_true.2 ⟨report, hm, by simp [Report.isError, hs]⟩
  · obtain ⟨before, t, after, r, expected, -, htk, -, heq⟩ := ofTokens_of_not_inGrammar file h hg
    have hon : r.notes.OnNames := takes_onNames (by simp [Notes.OnNames]) htk
    refine .inr ⟨_, heq, fun report hm => ?_, _, List.mem_append_right _ (List.mem_singleton.2 rfl), rfl⟩
    rcases List.mem_append.1 hm with hm | hm
    · exact hnames _ (hon report hm)
    · rw [List.mem_singleton.1 hm]
      exact List.mem_cons_self

/-! ## Emission -/

/-- A synonym for the expression of a well-formed description has a text, whatever its name is. -/
theorem Description.WellFormed.topDecl_hasText {d : Description} (h : d.WellFormed) (name : String) :
    ∃ top, d.topDecl name = .ok top ∧ top.HasText := by
  have hl : (Env.ofParams d.params).length = d.params.length := by simp [Env.ofParams]
  obtain ⟨t, ht⟩ := h.body.toReason_ok hl
  obtain ⟨params, hp⟩ := h.body.params_ok hl
  exact ⟨.synonym ⟨name, params⟩ t, by simp only [topDecl, ht, hp, ok_bind],
    .synonym (toReason_hasText _ ht) _⟩

/-- **No source leads to a fault.** It has stray characters; or it is rejected with what reading
reports, an error among it; or it is read with warnings only. Then all its declarations and a synonym
of any name for its expression have a text at every width, and it is compiled unless one declaration
clashes with the top. -/
theorem compile_outcome (options : EmitOptions) (file source : String) :
    (∃ reports, compile options file source = .error (.rejected reports) ∧ reports ≠ [] ∧
      ∀ report ∈ reports, report.finding.code = "E100") ∨
    (∃ reports, compile options file source = .error (.rejected reports) ∧
      (∀ report ∈ reports, report.finding.code ∈ readingCodes) ∧
      ∃ report ∈ reports, report.isError = true) ∨
    ∃ d warnings decls, Description.ofSource file source = .ok (d, warnings) ∧
      (∀ report ∈ warnings, report.finding.code ∈ ["W300", "W301"]) ∧
      d.declarations = .ok decls ∧ (∀ decl ∈ decls, decl.HasText) ∧
      (∀ name, ∃ top, d.topDecl name = .ok top ∧ top.HasText) ∧
      ((∃ text, compile options file source = .ok (text, warnings)) ∨
        ∃ report, compile options file source = .error (.rejected [report]) ∧
          report.finding.code = "E400") := by
  cases hscan : Token.scan file source with
  | error reports =>
    obtain ⟨hne, hcodes⟩ := scan_error hscan
    exact .inl ⟨reports, by simp [compile, Description.ofSource, hscan, CompileError.ofRead], hne, hcodes⟩
  | ok tokens =>
    have hsource : Description.ofSource file source = Description.ofTokens file tokens := by
      simp [Description.ofSource, hscan]
    rcases ofTokens_outcome file (scan_endsOnce hscan) with ⟨d, warnings, hok, hwarn⟩ |
      ⟨reports, herr, hcodes, hex⟩
    · rw [← hsource] at hok
      have hwf := (ofSource_sound hok).1
      obtain ⟨decls, hdecls, hg⟩ := hwf.gathered
      refine .inr (.inr ⟨d, warnings, decls, hok, hwarn, hdecls, hg.hasText, ?_, ?_⟩)
      · exact hwf.topDecl_hasText
      · by_cases hc : d.Clashes decls options.top
        · obtain ⟨report, hemit, hcode⟩ := Description.emit_of_clashes hdecls hc options.width
          exact .inr ⟨report, by simp [compile, hok, hemit, CompileError.ofEmit], hcode⟩
        · obtain ⟨unit, hr, -, htext, -⟩ := hg.reasonModule hwf hdecls hc
          obtain ⟨text, -, hemit⟩ := Description.emit_eq_ok hr htext options.width
          exact .inl ⟨text, by simp [compile, hok, hemit]⟩
    · rw [← hsource] at herr
      exact .inr (.inl ⟨reports, by simp [compile, herr, CompileError.ofRead], hcodes, hex⟩)

end TypeDesc
