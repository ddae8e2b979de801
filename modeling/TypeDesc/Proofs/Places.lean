/-
Reading and emission look at no place.

`displaced` puts one and the same place where values hold places. The reader
takes the tokens of a description in step with itself on displaced tokens
(`Reader.step_displaced`), so that two lists of tokens that differ in places only
are read alike (`ofTokens_displaced_eq`), and what is then emitted, or reported,
differs in places only (`compile_displaced_eq`).
-/
import TypeDesc.Proofs.CompileOutcome
import TypeDesc.Proofs.RoundTrip

namespace TypeDesc

/-! ## One place for all -/

/-- A place in no file. -/
def Span.nowhere : Span :=
  ⟨"", 0, 0, 0, 0⟩

/-- The same word, nowhere. -/
def Word.displaced (w : Word) : Word :=
  { w with span := .nowhere }

/-- The same token, nowhere. -/
def Token.displaced (t : Token) : Token :=
  { t with span := .nowhere }

/-- A report that points nowhere, if it points anywhere. -/
def Report.displaced (r : Report) : Report :=
  { r with span := r.span.map fun _ => .nowhere }

/-- A diagnostic that points nowhere, with all its labels. -/
def Diagnostic.displaced (d : Diagnostic) : Diagnostic :=
  { d with labels := d.labels.map fun label => { label with span := .nowhere } }

/-- An open type whose name is nowhere. -/
def OpenType.displaced (o : OpenType) : OpenType :=
  { o with name := o.name.displaced }

/-- An enclosure whose names are nowhere. -/
def Enclosure.displaced : Enclosure → Enclosure
  | .parens => .parens
  | .payload type ctor => .payload type.displaced ctor
  | .body name => .body name.displaced

/-- A level whose enclosure is nowhere; terms have no places. -/
def Level.displaced (level : Level) : Level :=
  { level with enclosure := level.enclosure.displaced }

/-- A focus whose names are nowhere. -/
def Focus.displaced : Focus → Focus
  | .recOpen name => .recOpen name.displaced
  | .bodyOpen name => .bodyOpen name.displaced
  | .ctorName type => .ctorName type.displaced
  | .ctorEnd type ctor => .ctorEnd type.displaced ctor
  | focus => focus

/-- A declared type whose name is nowhere. -/
def Declared.displaced (d : Declared) : Declared :=
  { d with name := d.name.displaced }

/-- Notes that have lost the places of what is declared and reported. -/
def Notes.displaced (n : Notes) : Notes :=
  { n with
    declared := n.declared.map (·.displaced)
    reports := n.reports.map (·.displaced) }

/-- A reader for which all that it has met is nowhere. -/
def Reader.displaced (r : Reader) : Reader :=
  { r with
    focus := r.focus.displaced
    levels := r.levels.map (·.displaced)
    params := r.params.map (·.displaced)
    notes := r.notes.displaced
    bodyStart := r.bodyStart.map fun _ => .nowhere }

/-- A step to a displaced reader. -/
def Step.displaced : Step → Step
  | .next r => .next r.displaced
  | .done body => .done body
  | .stop expected => .stop expected

theorem Step.displaced_next (r : Reader) : (next r).displaced = next r.displaced := rfl

/-- A description that does not tell where it and its names stand. -/
def Description.displaced (d : Description) : Description :=
  { d with span := .nowhere, names := d.names.map fun (name, _) => (name, .nowhere) }

theorem Report.diagnostic_displaced (r : Report) :
    r.displaced.diagnostic = r.diagnostic.displaced := by
  obtain ⟨finding, span⟩ := r
  cases span <;> rfl

theorem Token.displaced_eq_of_shape {ts ts' : List Token} (h : ts.map shape = ts'.map shape) :
    ts.map displaced = ts'.map displaced := by
  have hcomp : ∀ ts : List Token,
      ts.map displaced = (ts.map shape).map fun x => ⟨x.1, x.2, .nowhere⟩ := by
    intro ts
    rw [List.map_map]
    rfl
  rw [hcomp, hcomp, h]

/-! ## Notes -/

namespace Notes

theorem report_displaced (n : Notes) (finding : Finding) (span : Span) :
    (n.report finding span).displaced = n.displaced.report finding .nowhere := by
  simp [report, displaced, Report.displaced, Report.located]

theorem use_displaced (n : Notes) (depth index : Nat) :
    (n.use depth index).displaced = n.displaced.use depth index := by
  unfold use
  split <;> rfl

theorem mention_displaced (n : Notes) (enclosing params : List String) (w : Word) :
    (n.mention enclosing params w).displaced =
      n.displaced.mention enclosing params w.displaced := by
  simp only [mention, Word.displaced]
  split
  next => exact use_displaced ..
  next => exact report_displaced ..

theorem checkParam_displaced (n : Notes) (earlier : List Word) (w : Word) :
    (n.checkParam earlier w).displaced =
      n.displaced.checkParam (earlier.map (·.displaced)) w.displaced := by
  simp only [checkParam, List.find?_map, Function.comp_def, Word.displaced]
  cases earlier.find? fun param => typeIdent param.text == typeIdent w.text with
  | none => rfl
  | some param => exact report_displaced ..

theorem checkTypeName_displaced (n : Notes) (w : Word) :
    (n.checkTypeName w).displaced = n.displaced.checkTypeName w.displaced := by
  simp only [checkTypeName, apply_ite Notes.displaced, report_displaced]
  rfl

theorem checkCtorName_displaced (n : Notes) (type : OpenType) (w : Word) :
    (n.checkCtorName type w).displaced = n.displaced.checkCtorName type.displaced w.displaced := by
  simp only [checkCtorName, apply_ite Notes.displaced, report_displaced]
  rfl

theorem record_displaced (n : Notes) (name : Word) (type : Expr) :
    (n.record name type).displaced = n.displaced.record name.displaced type := by
  have hfind : n.displaced.declared.find? (fun d => typeIdent d.name.text == typeIdent name.text) =
      (n.declared.find? fun d => typeIdent d.name.text == typeIdent name.text).map (·.displaced) :=
    List.find?_map
  have hname : name.displaced.text = name.text := rfl
  simp only [record, hname, hfind]
  cases n.declared.find? fun d => typeIdent d.name.text == typeIdent name.text with
  | none => simp [displaced, Declared.displaced]
  | some earlier =>
    simp only [Option.map_some, apply_ite Notes.displaced, report_displaced]
    rfl

theorem unusedParams_displaced (n : Notes) (params : List Word) :
    (n.unusedParams params).map (·.displaced) =
      n.displaced.unusedParams (params.map (·.displaced)) := by
  simp only [unusedParams, List.zipIdx_map, List.filter_map, List.map_map]
  rfl

end Notes

/-! ## The reader -/

namespace Reader

theorem enclosing_displaced (r : Reader) : r.displaced.enclosing = r.enclosing := by
  have hname : ∀ level : Level, level.displaced.name? = level.name? := by
    rintro ⟨enclosure, outer⟩
    cases enclosure <;> rfl
  simp only [enclosing, Level.names, displaced, List.filterMap_map, Function.comp_def, hname]

theorem paramNames_displaced (r : Reader) : r.displaced.paramNames = r.paramNames := by
  simp only [paramNames, displaced, List.map_map]
  rfl

theorem resolve_displaced (r : Reader) (w : Word) :
    (r.resolve w).displaced = r.displaced.resolve w.displaced := by
  simp only [resolve, enclosing_displaced, paramNames_displaced]
  simp only [displaced, Notes.mention_displaced]
  rfl

theorem addParam_displaced (r : Reader) (w : Word) :
    (r.addParam w).displaced = r.displaced.addParam w.displaced := by
  simp only [addParam, displaced, Notes.checkParam_displaced, List.map_append, List.map_cons,
    List.map_nil]
  rfl

theorem closeType_displaced (r : Reader) (type : OpenType) :
    (r.closeType type).displaced = r.displaced.closeType type.displaced := by
  simp only [closeType, displaced, Notes.record_displaced]
  rfl

theorem closeBody_displaced (r : Reader) (name : Word) (body : Expr) :
    (r.closeBody name body).displaced = r.displaced.closeBody name.displaced body := by
  simp only [closeBody, displaced, Notes.record_displaced]
  rfl

theorem operand_displaced (r : Reader) (t : Token) :
    (r.operand t).displaced = r.displaced.operand t.displaced := by
  obtain ⟨kind, text, span⟩ := t
  cases kind with
  | identifier => exact congrArg Step.next (r.resolve_displaced _)
  | _ => rfl

theorem beginBody_displaced (r : Reader) (t : Token) :
    (r.beginBody t).displaced = r.displaced.beginBody t.displaced :=
  operand_displaced ..

theorem afterCtor_displaced (r : Reader) (type : OpenType) (ctor : String) (payload : Expr)
    (t : Token) :
    (r.afterCtor type ctor payload t).displaced =
      r.displaced.afterCtor type.displaced ctor payload t.displaced := by
  obtain ⟨kind, text, span⟩ := t
  cases kind with
  | closeBrace => exact congrArg Step.next (r.closeType_displaced _)
  | _ => rfl

theorem closing_displaced (r : Reader) (last : Expr) (t : Token) :
    (r.closing last t).displaced = r.displaced.closing last t.displaced := by
  obtain ⟨focus, terms, levels, params, notes, bodyStart⟩ := r
  obtain ⟨kind, text, span⟩ := t
  cases levels with
  | nil =>
    simp only [closing, displaced, List.map_nil, Token.displaced]
    split <;> rfl
  | cons level levels =>
    obtain ⟨enclosure, outer⟩ := level
    cases enclosure with
    | parens =>
      simp only [closing, displaced, List.map_cons, Level.displaced, Enclosure.displaced,
        Token.displaced]
      split <;> rfl
    | payload type ctor => exact afterCtor_displaced ..
    | body name =>
      simp only [closing, displaced, List.map_cons, Level.displaced, Enclosure.displaced,
        Token.displaced]
      split
      next => exact congrArg Step.next (closeBody_displaced ..)
      next => rfl

/-- **A step looks at no place.** -/
theorem step_displaced (r : Reader) (t : Token) :
    (r.step t).displaced = r.displaced.step t.displaced := by
  obtain ⟨focus, terms, levels, params, notes, bodyStart⟩ := r
  cases focus with
  | start | paramEnd =>
    simp only [step, apply_ite Step.displaced, beginBody_displaced]
    rfl
  | paramName =>
    simp only [step, apply_ite Step.displaced, Step.displaced_next, addParam_displaced]
    rfl
  | operand => exact operand_displaced ..
  | operator last =>
    have hclosing := closing_displaced ⟨.operator last, terms, levels, params, notes, bodyStart⟩
      last t
    obtain ⟨kind, text, span⟩ := t
    cases kind with
    | star | plus => rfl
    | _ => exact hclosing
  | recName | bodyName =>
    simp only [step, apply_ite Step.displaced, Step.displaced_next, displaced,
      Notes.checkTypeName_displaced]
    rfl
  | recOpen name | bodyOpen name =>
    simp only [step, apply_ite Step.displaced]
    rfl
  | ctorName type =>
    obtain ⟨kind, text, span⟩ := t
    cases kind with
    | closeBrace => exact congrArg Step.next (closeType_displaced ..)
    | identifier =>
      simp only [step, Step.displaced, displaced, Notes.checkCtorName_displaced]
      rfl
    | _ => rfl
  | ctorEnd type ctor =>
    have hafter := afterCtor_displaced ⟨.ctorEnd type ctor, terms, levels, params, notes, bodyStart⟩
      type ctor .unit t
    obtain ⟨kind, text, span⟩ := t
    cases kind with
    | colon => rfl
    | _ => exact hafter

theorem stopped_displaced (r : Reader) (expected : Expected) (t : Token) :
    (r.stopped expected t).map (·.displaced) = r.displaced.stopped expected t.displaced := by
  rw [stopped, List.map_append]
  rfl

end Reader

/-! ## Two runs -/

/-- What comes of reading, without places. -/
def readDisplaced (x : Except (List Report) (Description × List Report)) :
    Except (List Report) (Description × List Report) :=
  (x.mapError (·.map (·.displaced))).map fun (d, warnings) =>
    (d.displaced, warnings.map (·.displaced))

/-- Steps alike are of one kind. -/
theorem Step.displaced_eq {x y : Step} (h : x.displaced = y.displaced) :
    (∃ r r', x = .next r ∧ y = .next r' ∧ r.displaced = r'.displaced) ∨
      (∃ body, x = .done body ∧ y = .done body) ∨
      ∃ expected, x = .stop expected ∧ y = .stop expected := by
  cases x with
  | next r =>
    cases y with
    | next r' => exact .inl ⟨r, r', rfl, rfl, Step.next.inj h⟩
    | done | stop => cases h
  | done body =>
    cases y with
    | done body' => exact .inr (.inl ⟨body, rfl, congrArg Step.done (Step.done.inj h).symm⟩)
    | next | stop => cases h
  | stop expected =>
    cases y with
    | stop expected' => exact .inr (.inr ⟨expected, rfl, congrArg Step.stop (Step.stop.inj h).symm⟩)
    | next | done => cases h

namespace Reader

/-- What comes of a description that ends is told by the displaced reader. -/
theorem finish_displaced (r : Reader) (file : String) (body : Expr) (last : Span) :
    readDisplaced (r.finish file body last) =
      (r.displaced.finish "" body .nowhere).map fun (d, warnings) => (d.displaced, warnings) := by
  have hreports : (r.notes.reports ++ r.notes.unusedParams r.params).map (·.displaced) =
      r.displaced.notes.reports ++ r.displaced.notes.unusedParams r.displaced.params := by
    rw [List.map_append, Notes.unusedParams_displaced]
    rfl
  have hany : ((r.notes.reports ++ r.notes.unusedParams r.params).map (·.displaced)).any
      (·.isError) = (r.notes.reports ++ r.notes.unusedParams r.params).any (·.isError) := by
    rw [List.any_map]
    rfl
  have hnames : (r.displaced.notes.declared.map fun d => (d.name.text, d.name.span)).map
      (fun x => (x.1, Span.nowhere)) =
      (r.notes.declared.map fun d => (d.name.text, d.name.span)).map fun x => (x.1, .nowhere) := by
    simp only [displaced, Notes.displaced, List.map_map]
    rfl
  simp only [finish, ← hreports, hany, paramNames_displaced]
  split
  next => rfl
  next =>
    simp only [readDisplaced, mapError_ok, Except.map, Description.displaced, hnames]

variable {r r' : Reader} {t t' : Token}

theorem stopped_displaced_eq (hr : r.displaced = r'.displaced) (ht : t.displaced = t'.displaced)
    (expected : Expected) :
    (r.stopped expected t).map (·.displaced) = (r'.stopped expected t').map (·.displaced) := by
  rw [stopped_displaced, stopped_displaced, hr, ht]

theorem step_displaced_eq (hr : r.displaced = r'.displaced) (ht : t.displaced = t'.displaced) :
    (r.step t).displaced = (r'.step t').displaced := by
  rw [step_displaced, step_displaced, hr, ht]

theorem takeAgain_displaced_eq (hr : r.displaced = r'.displaced) (ht : t.displaced = t'.displaced)
    (bound : Nat) :
    (r.takeAgain t bound).map (·.displaced) = (r'.takeAgain t' bound).map (·.displaced) := by
  induction bound generalizing r r' with
  | zero => exact stopped_displaced_eq hr ht _
  | succ bound ih =>
    simp only [takeAgain]
    rcases Step.displaced_eq (step_displaced_eq hr ht) with
      ⟨s, s', hs, hs', heq⟩ | ⟨body, hs, hs'⟩ | ⟨expected, hs, hs'⟩
    · rw [hs, hs']
      exact ih heq
    · rw [hs, hs']
      exact stopped_displaced_eq hr ht _
    · rw [hs, hs']
      exact stopped_displaced_eq hr ht _

/-- **Runs look at no place**: readers alike make the same of tokens alike, places aside. -/
theorem run_displaced_eq (hr : r.displaced = r'.displaced) (ht : t.displaced = t'.displaced)
    {ts ts' : List Token} (hts : ts.map (·.displaced) = ts'.map (·.displaced))
    (file file' : String) (last last' : Span) :
    readDisplaced (run file r last t ts) = readDisplaced (run file' r' last' t' ts') := by
  induction ts generalizing r r' t t' ts' last last' with
  | nil =>
    obtain rfl : ts' = [] := by simpa using hts.symm
    simp only [run]
    rcases Step.displaced_eq (step_displaced_eq hr ht) with
      ⟨s, s', hs, hs', heq⟩ | ⟨body, hs, hs'⟩ | ⟨expected, hs, hs'⟩
    -- the last token is taken again, at most so often as the open levels say, and these are as many
    · have hlevels : s.levels.length = s'.levels.length := by
        simpa [displaced] using congrArg (fun r : Reader => r.levels.length) heq
      have hagain : (s.takeAgain t (s.levels.length + 3)).map (·.displaced) =
          (s'.takeAgain t' (s'.levels.length + 3)).map (·.displaced) := by
        rw [hlevels]
        exact takeAgain_displaced_eq heq ht _
      rw [hs, hs']
      exact congrArg Except.error hagain
    · rw [hs, hs', finish_displaced, finish_displaced, hr]
    · rw [hs, hs']
      exact congrArg Except.error (stopped_displaced_eq hr ht _)
  | cons t₁ ts ih =>
    cases ts' with
    | nil => simp at hts
    | cons t₁' ts' =>
      rw [List.map_cons, List.map_cons, List.cons.injEq] at hts
      simp only [run]
      rcases Step.displaced_eq (step_displaced_eq hr ht) with
        ⟨s, s', hs, hs', heq⟩ | ⟨body, hs, hs'⟩ | ⟨expected, hs, hs'⟩
      · rw [hs, hs']
        exact ih heq hts.1 hts.2 _ _
      · rw [hs, hs', finish_displaced, finish_displaced, hr]
      · rw [hs, hs']
        exact congrArg Except.error (stopped_displaced_eq hr ht _)

end Reader

/-! ## Descriptions -/

namespace Description

variable {d d' : Description}

theorem place?_displaced (d : Description) (name : String) :
    d.displaced.place? name = (d.place? name).map fun _ => .nowhere := by
  have hfind : d.displaced.names.find? (·.1 == name) =
      (d.names.find? (·.1 == name)).map fun x => (x.1, .nowhere) :=
    List.find?_map
  rw [place?, hfind, place?, Option.map_map, Option.map_map]
  rfl

theorem clash_displaced (d : Description) (decl : Reason.Decl) (top : String) :
    (d.clash decl top).displaced = d.displaced.clash decl top := by
  rw [clash, clash, place?_displaced]
  rfl

end Description

/-- An error of emission that points nowhere. -/
def EmitError.displaced : EmitError → EmitError
  | .rejected report => .rejected report.displaced
  | .fault f => .fault f

/-- An error of compiling a source of a project that points nowhere. -/
def SourceError.displaced : SourceError → SourceError
  | .rejected reports => .rejected (reports.map (·.displaced))
  | e => e

theorem SourceError.ofEmit_displaced {e e' : EmitError} (h : e.displaced = e'.displaced) :
    (ofEmit e).displaced = (ofEmit e').displaced := by
  cases e with
  | rejected report =>
    cases e' with
    | rejected report' =>
      exact congrArg (fun r => SourceError.rejected [r]) (EmitError.rejected.inj h)
    | fault f => cases h
  | fault f =>
    cases e' with
    | rejected report' => cases h
    | fault f' => rw [EmitError.fault.inj h]

/-- A text and its warnings, which point nowhere. -/
def displacedWarnings (x : String × List Report) : String × List Report :=
  (x.1, x.2.map (·.displaced))

/-- The Reason module of a description depends on no place. -/
theorem reasonModule_displaced (d : Description) (top : Option String) :
    (d.reasonModule top).mapError (·.displaced) = d.displaced.reasonModule top := by
  simp only [Description.reasonModule]
  show _ = (d.declarations.mapError EmitError.fault >>= _)
  cases d.declarations with
  | error f => rfl
  | ok decls =>
    cases top with
    | none => rfl
    | some name =>
      simp only [mapError_ok, ok_bind]
      show _ = if d.isTop name = true then _ else _
      split
      next => rfl
      next =>
        split
        next => rw [← Description.clash_displaced]; rfl
        next =>
          show _ = ((d.topDecl name).mapError EmitError.fault >>= _)
          cases d.topDecl name <;> rfl

theorem emit_displaced (d : Description) (top : Option String) (width : Text.Width) :
    (d.emit top width).mapError (·.displaced) = d.displaced.emit top width := by
  simp only [Description.emit, ← reasonModule_displaced]
  cases d.reasonModule top with
  | error e => rfl
  | ok decls =>
    simp only [mapError_ok, ok_bind]
    cases Reason.printModule width decls <;> rfl

/-- A well-formed description has a text, or one declaration is reported. -/
theorem Description.WellFormed.emit_outcome {d : Description} (hd : d.WellFormed)
    (top : Option String) (width : Text.Width) :
    (∃ text, d.emit top width = .ok text) ∨
      ∃ report, d.emit top width = .error (.rejected report) := by
  obtain ⟨decls, hdecls, hg⟩ := hd.gathered
  by_cases hc : d.Clashes decls top
  · obtain ⟨report, hemit, -⟩ := Description.emit_of_clashes hdecls hc width
    exact .inr ⟨report, hemit⟩
  · obtain ⟨unit, hr, -, htext, -⟩ := hg.reasonModule hd hdecls hc
    obtain ⟨text, -, hemit⟩ := Description.emit_eq_ok hr htext width
    exact .inl ⟨text, hemit⟩

/-! ## Sources -/

/-- Tokens that differ in places only are read alike. -/
theorem ofTokens_displaced_eq {t t' : Token} {ts ts' : List Token}
    (h : (t :: ts).map Token.shape = (t' :: ts').map Token.shape) (file file' : String) :
    (∃ d d' w w', Description.ofTokens file (t :: ts) = .ok (d, w) ∧
      Description.ofTokens file' (t' :: ts') = .ok (d', w') ∧ d.displaced = d'.displaced ∧
      w.map (·.displaced) = w'.map (·.displaced)) ∨
    ∃ rs rs', Description.ofTokens file (t :: ts) = .error (.rejected rs) ∧
      Description.ofTokens file' (t' :: ts') = .error (.rejected rs') ∧
      rs.map (·.displaced) = rs'.map (·.displaced) := by
  have hd := Token.displaced_eq_of_shape h
  rw [List.map_cons, List.map_cons, List.cons.injEq] at hd
  have hrun := Reader.run_displaced_eq (rfl : Reader.displaced {} = Reader.displaced {}) hd.1 hd.2
    file file' t.span t'.span
  simp only [Description.ofTokens]
  cases hr : Reader.run file {} t.span t ts with
  | error rs =>
    cases hr' : Reader.run file' {} t'.span t' ts' with
    | error rs' =>
      rw [hr, hr'] at hrun
      exact .inr ⟨rs, rs', rfl, rfl, Except.error.inj hrun⟩
    | ok x => rw [hr, hr'] at hrun; cases hrun
  | ok x =>
    cases hr' : Reader.run file' {} t'.span t' ts' with
    | error rs' => rw [hr, hr'] at hrun; cases hrun
    | ok x' =>
      rw [hr, hr'] at hrun
      obtain ⟨hd, hw⟩ := Prod.mk.inj (Except.ok.inj hrun)
      exact .inl ⟨x.1, x'.1, x.2, x'.2, rfl, rfl, hd, hw⟩

section

variable {file file' source source' : String} {ts ts' : List Token}
  (h : Token.scan file source = .ok ts) (h' : Token.scan file' source' = .ok ts')
  (hs : ts.map Token.shape = ts'.map Token.shape)
include h h' hs

/-- Sources whose tokens differ in places only are read alike. -/
theorem ofSource_displaced_eq :
    (∃ d d' w w', Description.ofSource file source = .ok (d, w) ∧
      Description.ofSource file' source' = .ok (d', w') ∧ d.displaced = d'.displaced ∧
      w.map (·.displaced) = w'.map (·.displaced)) ∨
    ∃ rs rs', Description.ofSource file source = .error (.rejected rs) ∧
      Description.ofSource file' source' = .error (.rejected rs') ∧
      rs.map (·.displaced) = rs'.map (·.displaced) := by
  have hne : ∀ {file source ts}, Token.scan file source = .ok ts → ∃ t rest, ts = t :: rest := by
    intro file source ts hscan
    obtain ⟨before, eof, rfl, -⟩ := scan_endsOnce hscan
    exact List.exists_cons_of_ne_nil (by simp)
  obtain ⟨t, rest, rfl⟩ := hne h
  obtain ⟨t', rest', rfl⟩ := hne h'
  simp only [Description.ofSource, h, h', mapError_ok, ok_bind]
  exact ofTokens_displaced_eq hs file file'

/-- **Compiling looks at no place**: it ends alike, places aside. -/
theorem compile_displaced_eq (options : EmitOptions) :
    (∃ text w w', compile options file source = .ok (text, w) ∧
      compile options file' source' = .ok (text, w') ∧
      w.map (·.displaced) = w'.map (·.displaced)) ∨
    ∃ rs rs', compile options file source = .error (.rejected rs) ∧
      compile options file' source' = .error (.rejected rs') ∧
      rs.map (·.displaced) = rs'.map (·.displaced) := by
  rcases ofSource_displaced_eq h h' hs with
    ⟨d, d', w, w', hd, hd', heq, hw⟩ | ⟨rs, rs', hrs, hrs', heq⟩
  · simp only [compile, hd, hd', mapError_ok, ok_bind]
    have hemit : (d.emit options.top options.width).mapError (·.displaced) =
        (d'.emit options.top options.width).mapError (·.displaced) := by
      rw [emit_displaced, emit_displaced, heq]
    rcases mapError_eq_mapError hemit with ⟨text, ht, ht'⟩ | ⟨e, e', he, he', hee⟩
    · exact .inl ⟨text, w, w', by simp [ht], by simp [ht'], hw⟩
    · rcases (ofSource_sound hd).1.emit_outcome options.top options.width with
        ⟨text, ht⟩ | ⟨report, hr⟩
      · simp [he] at ht
      · rw [he, Except.error.injEq] at hr
        subst hr
        cases e' with
        | fault f => cases hee
        | rejected report' =>
          refine .inr ⟨[report], [report'], by simp [he, CompileError.ofEmit],
            by simp [he', CompileError.ofEmit], ?_⟩
          exact congrArg (fun r => [r]) (EmitError.rejected.inj hee)
  · exact .inr ⟨rs, rs', by simp [compile, hrs, CompileError.ofRead],
      by simp [compile, hrs', CompileError.ofRead], heq⟩

theorem settingsCompile_displaced_eq (settings : OutputSettings) :
    ((settings.compile file source).mapError (·.displaced)).map displacedWarnings =
      ((settings.compile file' source').mapError (·.displaced)).map displacedWarnings := by
  rcases ofSource_displaced_eq h h' hs with
    ⟨d, d', w, w', hd, hd', heq, hw⟩ | ⟨rs, rs', hrs, hrs', heq⟩
  · simp only [OutputSettings.compile, hd, hd', mapError_ok, ok_bind]
    cases settings.top? with
    | error m => rfl
    | ok top =>
      have hmodule : (d.reasonModule top).mapError (·.displaced) =
          (d'.reasonModule top).mapError (·.displaced) := by
        rw [reasonModule_displaced, reasonModule_displaced, heq]
      simp only [mapError_ok, ok_bind]
      rcases mapError_eq_mapError hmodule with ⟨decls, hm, hm'⟩ | ⟨e, e', hm, hm', hee⟩
      · simp only [hm, hm', mapError_ok, ok_bind]
        cases settings.width (decls.any (·.usesWidth)) with
        | error m => rfl
        | ok width =>
          simp only [mapError_ok, ok_bind]
          cases Reason.printModule width decls with
          | error f => rfl
          | ok text => simp [Except.map, displacedWarnings, hw]
      · simp only [hm, hm', error_bind, mapError_error, Except.map,
          SourceError.ofEmit_displaced hee]
  · simp only [OutputSettings.compile, hrs, hrs', mapError_error, error_bind, Except.map,
      SourceError.ofRead, SourceError.displaced, heq]

end

end TypeDesc
