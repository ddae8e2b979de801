/-
What becomes of one source of a project. It is read with warnings only, or
rejected with an error among the reports (`ofSource_outcome`). Under settings of
the kinds that are expected, compiling it has the same two outcomes
(`Settings.Typed.compile_cases`), and so has bringing it into canonical form
(`OutputSettings.canonical_cases`): no source stops the work on a project.
-/
import TypeDesc.Project.Failure
import TypeDesc.Proofs.CompileOutcome
import TypeDesc.Proofs.RoundTrip

namespace TypeDesc

/-! ## Reading -/

theorem Report.isError_of_code {report : Report} (h : report.finding.code ∉ ["W300", "W301"]) :
    report.isError = true := by
  have hs : report.finding.severity = .error := by
    by_contra hs
    exact h (Finding.code_of_warning hs)
  simp [Report.isError, hs]

theorem Report.isWarning_of_code {report : Report} (h : report.finding.code ∈ ["W300", "W301"]) :
    report.isError = false := by
  obtain ⟨finding, span⟩ := report
  cases finding <;> simp [Finding.code] at h <;> rfl

/-- **A source is read with warnings only, or there is an error among its reports.** -/
theorem ofSource_outcome (file source : String) :
    (∃ d warnings, Description.ofSource file source = .ok (d, warnings) ∧
      ∀ report ∈ warnings, report.isError = false) ∨
    ∃ reports, Description.ofSource file source = .error (.rejected reports) ∧
      ∃ report ∈ reports, report.isError = true := by
  cases hscan : Token.scan file source with
  | error reports =>
    obtain ⟨hne, hcodes⟩ := scan_error hscan
    obtain ⟨report, hm⟩ := List.exists_mem_of_ne_nil _ hne
    refine .inr ⟨reports, by simp [Description.ofSource, hscan], report, hm, ?_⟩
    exact Report.isError_of_code (by simp [hcodes report hm])
  | ok tokens =>
    have hsource : Description.ofSource file source = Description.ofTokens file tokens := by
      simp [Description.ofSource, hscan]
    rw [hsource]
    rcases ofTokens_outcome file (scan_endsOnce hscan) with ⟨d, warnings, hok, hwarn⟩ |
      ⟨reports, herr, -, hex⟩
    · exact .inl ⟨d, warnings, hok, fun report hm => Report.isWarning_of_code (hwarn report hm)⟩
    · exact .inr ⟨reports, herr, hex⟩

/-! ## Settings of the expected kinds -/

/-- Every setting has a value of the kind that is expected for it. -/
structure Settings.Typed (s : Settings) : Prop where
  name : ∃ text, s.package.name = .text text
  version : ∃ text, s.package.version = .text text
  topName : ∃ text, s.output.topName = .text text
  emitTop : ∃ yes, s.output.emitTop = .boolean yes
  lineWidth : ∃ width, s.output.lineWidth = .integer width
  outDir : ∃ text, s.output.outDir = .text text
  color : ∃ yes, s.style.color = .boolean yes

namespace OutputSettings

variable {s : OutputSettings}

theorem width_integer {width : Int} (h : s.lineWidth = .integer width) (laidOut : Bool) :
    s.width laidOut = .ok (.columns width) := by
  rw [OutputSettings.width, h, room?]

theorem top?_ok {text : String} {yes : Bool} (hn : s.topName = .text text)
    (he : s.emitTop = .boolean yes) : s.top? = .ok (if yes then some text else none) := by
  rw [top?, hn, he]
  cases yes <;> rfl

/-- With a top and a width that can be used, a source is compiled by emitting its description. -/
theorem compile_eq {file source : String} {d : Description} {warnings : List Report}
    {top : Option String} {width : Text.Width}
    (hread : Description.ofSource file source = .ok (d, warnings)) (htop : s.top? = .ok top)
    (hwidth : ∀ laidOut, s.width laidOut = .ok width) :
    s.compile file source =
      ((d.emit top width).mapError .ofEmit >>= fun text => .ok (text, warnings)) := by
  simp only [compile, hread, htop, hwidth, mapError_ok, ok_bind, Description.emit]
  cases d.reasonModule top with
  | error e => rfl
  | ok decls =>
    simp only [mapError_ok, ok_bind]
    cases Reason.printModule width decls <;> rfl

/-- A source that is rejected when it is read is rejected for the same when it is compiled. -/
theorem compile_of_rejected {file source : String} {reports : List Report}
    (h : Description.ofSource file source = .error (.rejected reports)) :
    s.compile file source = .error (.rejected reports) := by
  rw [compile, h]
  rfl

/-- **Bringing a source into canonical form**, with a whole number as the width of lines, gives the
canonical text of the description that it is read as, or the reports that reject it. -/
theorem canonical_cases {width : Int} (h : s.lineWidth = .integer width) (file source : String) :
    (∃ d warnings text, Description.ofSource file source = .ok (d, warnings) ∧
      d.print (.columns width) = .ok text ∧ s.canonical file source = .ok text) ∨
    ∃ reports, Description.ofSource file source = .error (.rejected reports) ∧
      s.canonical file source = .error (.rejected reports) := by
  rcases ofSource_outcome file source with ⟨d, warnings, hread, -⟩ | ⟨reports, hread, -⟩
  · obtain ⟨text, hprint, -⟩ := (ofSource_sound hread).1.print_writes (.columns width)
    refine .inl ⟨d, warnings, text, hread, hprint, ?_⟩
    simp only [canonical, hread, width_integer h, hprint, mapError_ok, ok_bind]
  · refine .inr ⟨reports, hread, ?_⟩
    rw [canonical, hread]
    rfl

end OutputSettings

/-- **Compiling a source under settings of the expected kinds** gives a text and warnings, or
reports with an error among them. -/
theorem Settings.Typed.compile_cases {s : Settings} (h : s.Typed) (file source : String) :
    (∃ text warnings, s.output.compile file source = .ok (text, warnings) ∧
      ∀ report ∈ warnings, report.isError = false) ∨
    ∃ reports, s.output.compile file source = .error (.rejected reports) ∧
      ∃ report ∈ reports, report.isError = true := by
  obtain ⟨name, hname⟩ := h.topName
  obtain ⟨yes, hyes⟩ := h.emitTop
  obtain ⟨width, hwidth⟩ := h.lineWidth
  rcases ofSource_outcome file source with ⟨d, warnings, hread, hwarn⟩ | ⟨reports, hread, hex⟩
  · have heq := OutputSettings.compile_eq hread (OutputSettings.top?_ok hname hyes)
      (OutputSettings.width_integer hwidth)
    have hd := (ofSource_sound hread).1
    obtain ⟨decls, hdecls, hg⟩ := hd.gathered
    by_cases hc : d.Clashes decls (if yes then some name else none)
    · obtain ⟨report, hemit, hcode⟩ := Description.emit_of_clashes hdecls hc (.columns width)
      refine .inr ⟨[report], by rw [heq, hemit]; rfl, report, by simp, ?_⟩
      exact Report.isError_of_code (by simp [hcode])
    · obtain ⟨unit, hr, -, htext, -⟩ := hg.reasonModule hd hdecls hc
      obtain ⟨text, -, hemit⟩ := Description.emit_eq_ok hr htext (.columns width)
      exact .inl ⟨text, warnings, by rw [heq, hemit]; rfl, hwarn⟩
  · exact .inr ⟨reports, OutputSettings.compile_of_rejected hread, hex⟩

end TypeDesc
