/-
What the errors of a description depend on.

The expressions that have been read decide no later error, and neither does what is
mentioned, or has been reported: `frame` leaves them out of a reader. From readers
with the same frame a step leads to readers with the same frame, and reports the
same errors (`Reader.step_alike`). So the errors of two runs go on alike
(`Reader.run_alike`).
-/
import TypeDesc.Proofs.GrammarExact

namespace TypeDesc

/-! ## Frames -/

/-- An open type without the payloads of its constructors. -/
def OpenType.frame (o : OpenType) : OpenType :=
  { o with ctors := o.ctors.map fun ctor => ⟨ctor.name, .unit⟩ }

/-- An enclosure without the payloads of its open type. -/
def Enclosure.frame : Enclosure → Enclosure
  | .payload type ctor => .payload type.frame ctor
  | enclosure => enclosure

/-- A level without the terms that it interrupted. -/
def Level.frame (level : Level) : Level :=
  ⟨level.enclosure.frame, {}⟩

/-- A focus without the expression and the payloads read last. -/
def Focus.frame : Focus → Focus
  | .operator _ => .operator .unit
  | .ctorName type => .ctorName type.frame
  | .ctorEnd type ctor => .ctorEnd type.frame ctor
  | focus => focus

/-- A declared type of which only the name is kept. -/
def Declared.frame (d : Declared) : Declared :=
  { d with type := .unit }

namespace Notes

/-- The reports that are errors. -/
def errors (n : Notes) : List Report :=
  n.reports.filter (·.isError)

/-- The notes on what is declared, without what is mentioned and reported. -/
def frame (n : Notes) : Notes :=
  { declared := n.declared.map (·.frame) }

/-- What later errors depend on, and the errors so far. -/
def bare (n : Notes) : Notes :=
  { n.frame with reports := n.errors }

/-- The notes with reports put before theirs. -/
def behind (reports : List Report) (n : Notes) : Notes :=
  { n with reports := reports ++ n.reports }

end Notes

namespace Reader

/-- The reader without what no error depends on. -/
def frame (r : Reader) : Reader where
  focus := r.focus.frame
  levels := r.levels.map (·.frame)
  params := r.params
  notes := r.notes.frame

/-- What later errors depend on, and the errors so far. -/
def bare (r : Reader) : Reader :=
  { r.frame with notes := r.notes.bare }

/-- The reader with reports put before its own. -/
def behind (reports : List Report) (r : Reader) : Reader :=
  { r with notes := r.notes.behind reports }

end Reader

namespace Step

/-- A step, with what later errors depend on and the errors so far. -/
def bare : Step → Step
  | .next r => .next r.bare
  | .done _ => .done .unit
  | .stop expected => .stop expected

/-- A step with reports put before those of its reader. -/
def behind (reports : List Report) : Step → Step
  | .next r => .next (r.behind reports)
  | step => step

end Step

/-! ### Frames of frames -/

@[simp] theorem OpenType.frame_frame (o : OpenType) : o.frame.frame = o.frame := by
  simp [frame]

@[simp] theorem Enclosure.frame_frame (e : Enclosure) : e.frame.frame = e.frame := by
  cases e <;> simp [frame]

@[simp] theorem Level.frame_frame (level : Level) : level.frame.frame = level.frame := by
  simp [frame]

@[simp] theorem Declared.frame_frame (d : Declared) : d.frame.frame = d.frame := rfl

theorem OpenType.add_frame (o : OpenType) (ctor : String) (payload payload' : Expr) :
    (o.add ctor payload).frame = (o.frame.add ctor payload').frame := by
  simp [frame, add]

@[simp] theorem Level.name?_frame (level : Level) : level.frame.name? = level.name? := by
  obtain ⟨enclosure, outer⟩ := level
  cases enclosure <;> rfl

/-! ## Notes -/

namespace Notes

theorem bare_eq (n : Notes) : n.bare = n.frame.bare.behind n.errors := by
  simp [bare, frame, behind, errors]

theorem report_bare (n : Notes) (finding : Finding) (span : Span) :
    (n.report finding span).bare = (n.frame.report finding span).bare.behind n.errors := by
  simp [report, bare, frame, behind, errors]

theorem report_warning_bare (n : Notes) {finding : Finding} (span : Span)
    (h : finding.severity = .warning) : (n.report finding span).bare = n.bare := by
  simp [report, bare, frame, errors, Report.isError, Report.located, h]

theorem use_bare (n : Notes) (depth index : Nat) : (n.use depth index).bare = n.bare := by
  unfold use
  split <;> rfl

theorem mention_bare (n : Notes) (enclosing params : List String) (w : Word) :
    (n.mention enclosing params w).bare =
      (n.frame.mention enclosing params w).bare.behind n.errors := by
  unfold mention
  split
  next => rw [use_bare, use_bare, bare_eq]
  next => exact report_bare ..

theorem checkParam_bare (n : Notes) (earlier : List Word) (w : Word) :
    (n.checkParam earlier w).bare = (n.frame.checkParam earlier w).bare.behind n.errors := by
  unfold checkParam
  split
  next => exact report_bare ..
  next => exact n.bare_eq

theorem checkTypeName_bare (n : Notes) (w : Word) :
    (n.checkTypeName w).bare = (n.frame.checkTypeName w).bare.behind n.errors := by
  unfold checkTypeName
  by_cases h : typeIdent w.text ∈ Reason.generatedIdents
  · rw [if_pos h, if_pos h, report_bare]
  · rw [if_neg h, if_neg h, bare_eq]

theorem checkCtorName_bare (n : Notes) (type : OpenType) (w : Word) :
    (n.checkCtorName type w).bare =
      (n.frame.checkCtorName type.frame w).bare.behind n.errors := by
  have hany : type.frame.ctors.any (fun ctor => ctorIdent ctor.name == ctorIdent w.text) =
      type.ctors.any fun ctor => ctorIdent ctor.name == ctorIdent w.text := List.any_map
  simp only [checkCtorName, hany]
  split
  next => exact report_bare ..
  next =>
    split
    next => exact report_bare ..
    next => exact n.bare_eq

/-- What a type is makes no difference: that it is another one than before is no error. -/
theorem record_bare (n : Notes) (name : Word) (type type' : Expr) :
    (n.record name type).bare = (n.frame.record name type').bare.behind n.errors := by
  have hfind : n.frame.declared.find? (fun d => typeIdent d.name.text == typeIdent name.text) =
      (n.declared.find? fun d => typeIdent d.name.text == typeIdent name.text).map (·.frame) :=
    List.find?_map
  have hredeclared : ∀ (m : Notes) (p : Prop) [Decidable p],
      (if p then m.report (.redeclared name.text) name.span else m).bare = m.bare := by
    intro m p _
    split
    next => exact m.report_warning_bare _ rfl
    next => rfl
  simp only [record, hfind]
  cases n.declared.find? fun d => typeIdent d.name.text == typeIdent name.text with
  | none => simp [bare, frame, behind, errors, Declared.frame]
  | some earlier =>
    by_cases hname : earlier.name.text ≠ name.text
    · simp only [Option.map_some, Declared.frame, if_pos hname, report_bare n]
    · simp only [Option.map_some, Declared.frame, if_neg hname, hredeclared]
      exact n.bare_eq

end Notes

/-! ## The reader -/

namespace Reader

@[simp] theorem enclosing_frame (r : Reader) : r.frame.enclosing = r.enclosing := by
  simp [enclosing, Level.names, frame, List.filterMap_map]

/-- Readers that differ in no more than what no error depends on. -/
theorem bare_eq_behind {r r' : Reader} {errors : List Report}
    (hfocus : r.focus.frame = r'.focus.frame)
    (hlevels : r.levels.map (·.frame) = r'.levels.map (·.frame)) (hparams : r.params = r'.params)
    (hnotes : r.notes.bare = r'.notes.bare.behind errors) : r.bare = r'.bare.behind errors := by
  simp only [bare, frame, behind, hfocus, hlevels, hparams, hnotes]

theorem levels_frame (r : Reader) : r.levels.map (·.frame) = r.frame.levels.map (·.frame) := by
  simp [frame]

theorem resolve_bare (r : Reader) (w : Word) :
    (r.resolve w).bare = (r.frame.resolve w).bare.behind r.notes.errors := by
  refine bare_eq_behind rfl r.levels_frame rfl ?_
  simp only [resolve, enclosing_frame]
  exact r.notes.mention_bare ..

theorem addParam_bare (r : Reader) (w : Word) :
    (r.addParam w).bare = (r.frame.addParam w).bare.behind r.notes.errors :=
  bare_eq_behind rfl r.levels_frame rfl (r.notes.checkParam_bare ..)

theorem closeType_bare (r : Reader) {type type' : OpenType} (h : type.frame = type'.frame) :
    (r.closeType type).bare = (r.frame.closeType type').bare.behind r.notes.errors := by
  have hname : type.name = type'.name := by simpa [OpenType.frame] using congrArg OpenType.name h
  refine bare_eq_behind rfl r.levels_frame rfl ?_
  simp only [closeType, ← hname]
  exact r.notes.record_bare ..

theorem closeBody_bare (r : Reader) (name : Word) (body body' : Expr) :
    (r.closeBody name body).bare = (r.frame.closeBody name body').bare.behind r.notes.errors :=
  bare_eq_behind rfl r.levels_frame rfl (r.notes.record_bare ..)

theorem enter_bare (r : Reader) {enclosure enclosure' : Enclosure}
    (h : enclosure.frame = enclosure'.frame) :
    (r.enter enclosure).bare = (r.frame.enter enclosure').bare.behind r.notes.errors := by
  refine bare_eq_behind rfl ?_ rfl r.notes.bare_eq
  simp [enter, frame, Level.frame, h]

/-- Where the expression starts makes no difference. -/
theorem operand_bare (r : Reader) (t : Token) (bodyStart : Option Span) :
    (r.operand t).bare =
      ({ r.frame with bodyStart }.operand t).bare.behind r.notes.errors := by
  cases hk : t.kind <;> simp only [operand, hk, Step.bare, Step.behind]
  case identifier => exact congrArg Step.next (r.resolve_bare _)
  case openParen => exact congrArg Step.next (r.enter_bare rfl)
  case void | unit | recKeyword | aliasKeyword =>
    exact congrArg Step.next (bare_eq_behind rfl r.levels_frame rfl r.notes.bare_eq)

theorem beginBody_bare (r : Reader) (t : Token) :
    (r.beginBody t).bare = (r.frame.beginBody t).bare.behind r.notes.errors :=
  operand_bare { r with bodyStart := some t.span } t (some t.span)

theorem afterCtor_bare (r : Reader) (type : OpenType) (ctor : String) (payload payload' : Expr)
    (t : Token) :
    (r.afterCtor type ctor payload t).bare =
      (r.frame.afterCtor type.frame ctor payload' t).bare.behind r.notes.errors := by
  have htype := type.add_frame ctor payload payload'
  cases hk : t.kind <;> simp only [afterCtor, hk, Step.bare, Step.behind]
  case comma =>
    exact congrArg Step.next (bare_eq_behind (congrArg Focus.ctorName htype) r.levels_frame rfl
      r.notes.bare_eq)
  case closeBrace => exact congrArg Step.next (r.closeType_bare htype)

theorem closing_bare (r : Reader) (last last' : Expr) (t : Token) :
    (r.closing last t).bare = (r.frame.closing last' t).bare.behind r.notes.errors := by
  obtain ⟨focus, terms, levels, params, notes, bodyStart⟩ := r
  cases levels with
  | nil =>
    simp only [closing, frame, List.map_nil]
    split <;> rfl
  | cons level levels =>
    obtain ⟨enclosure, outer⟩ := level
    -- the reader once it has left the level
    let r' : Reader := ⟨.operand, outer, levels, params, notes, bodyStart⟩
    cases enclosure with
    | parens =>
      simp only [closing, frame, List.map_cons, Level.frame, Enclosure.frame]
      split
      next => exact congrArg Step.next (bare_eq_behind rfl r'.levels_frame rfl notes.bare_eq)
      next => rfl
    | payload type ctor => exact r'.afterCtor_bare type ctor ..
    | body name =>
      simp only [closing, frame, List.map_cons, Level.frame, Enclosure.frame]
      split
      next => exact congrArg Step.next (r'.closeBody_bare name ..)
      next => rfl

/-- **A step depends on the frame only**, and adds to the errors so far. -/
theorem step_bare (r : Reader) (t : Token) :
    (r.step t).bare = (r.frame.step t).bare.behind r.notes.errors := by
  have hfocus : r.frame.focus = r.focus.frame := rfl
  unfold step
  rw [hfocus]
  cases r.focus with
  | start | paramEnd =>
    simp only [Focus.frame]
    split
    next => exact congrArg Step.next (bare_eq_behind rfl r.levels_frame rfl r.notes.bare_eq)
    next => exact r.beginBody_bare t
  | paramName =>
    simp only [Focus.frame]
    split
    next => exact congrArg Step.next (r.addParam_bare _)
    next => rfl
  | operand => exact r.operand_bare t none
  | operator last =>
    have hclosing := r.closing_bare last .unit t
    cases hk : t.kind <;> simp only [Focus.frame]
    case star | plus =>
      exact congrArg Step.next (bare_eq_behind rfl r.levels_frame rfl r.notes.bare_eq)
    all_goals exact hclosing
  | recName | bodyName =>
    simp only [Focus.frame]
    split
    next =>
      exact congrArg Step.next
        (bare_eq_behind rfl r.levels_frame rfl (r.notes.checkTypeName_bare _))
    next => rfl
  | recOpen name =>
    simp only [Focus.frame]
    split
    next => exact congrArg Step.next (bare_eq_behind rfl r.levels_frame rfl r.notes.bare_eq)
    next => rfl
  | bodyOpen name =>
    simp only [Focus.frame]
    split
    next => exact congrArg Step.next (r.enter_bare rfl)
    next => rfl
  | ctorName type =>
    have htype : type.frame = type.frame.frame := type.frame_frame.symm
    cases hk : t.kind <;> simp only [Focus.frame, Step.bare, Step.behind]
    case closeBrace => exact congrArg Step.next (r.closeType_bare htype)
    case identifier =>
      exact congrArg Step.next (bare_eq_behind (congrArg (Focus.ctorEnd · t.text) htype)
        r.levels_frame rfl (r.notes.checkCtorName_bare type _))
  | ctorEnd type ctor =>
    have hafter := r.afterCtor_bare type ctor .unit .unit t
    have hpayload : (Enclosure.payload type ctor).frame = (Enclosure.payload type.frame ctor).frame :=
      congrArg (Enclosure.payload · ctor) type.frame_frame.symm
    cases hk : t.kind <;> simp only [Focus.frame]
    case colon => exact congrArg Step.next (r.enter_bare hpayload)
    all_goals exact hafter

end Reader

/-! ## Two runs -/

/-- The errors among all reports of an attempt to read a description. -/
def errorsOf (outcome : Except ReadError (Description × List Report)) : List Report :=
  (reportsOf outcome).filter (·.isError)

namespace Step

variable {x : Step} {s : Reader} {errors : List Report}

theorem of_bare_next (h : x.bare = .next (s.bare.behind errors)) :
    ∃ r, x = .next r ∧ r.frame = s.frame ∧ r.notes.errors = errors ++ s.notes.errors := by
  cases x with
  | next r =>
    have hbare : r.bare = s.bare.behind errors := Step.next.inj h
    have hframe := congrArg (fun r : Reader => { r with notes.reports := [] }) hbare
    exact ⟨r, rfl, hframe, congrArg (·.notes.reports) hbare⟩
  | done | stop => cases h

theorem of_bare_done (h : x.bare = .done .unit) : ∃ body, x = .done body := by
  cases x with
  | done body => exact ⟨body, rfl⟩
  | next | stop => cases h

theorem of_bare_stop {expected : Expected} (h : x.bare = .stop expected) : x = .stop expected := by
  cases x with
  | stop expected => exact h
  | next | done => cases h

end Step

namespace Reader

variable {r r' : Reader}

/-- **Readers with one frame take a step alike**: they come to one frame, and report the same. -/
theorem step_alike (h : r.frame = r'.frame) (t : Token) :
    (∃ s s' errors, r.step t = .next s ∧ r'.step t = .next s' ∧ s.frame = s'.frame ∧
        s.notes.errors = r.notes.errors ++ errors ∧
        s'.notes.errors = r'.notes.errors ++ errors) ∨
      (∃ body body', r.step t = .done body ∧ r'.step t = .done body') ∨
      ∃ expected, r.step t = .stop expected ∧ r'.step t = .stop expected := by
  have hr := r.step_bare t
  have hr' := r'.step_bare t
  rw [← h] at hr'
  cases hs₀ : r.frame.step t with
  | next s₀ =>
    rw [hs₀] at hr hr'
    obtain ⟨s, hs, hframe, herrors⟩ := Step.of_bare_next hr
    obtain ⟨s', hs', hframe', herrors'⟩ := Step.of_bare_next hr'
    exact .inl ⟨s, s', s₀.notes.errors, hs, hs', hframe.trans hframe'.symm, herrors, herrors'⟩
  | done body₀ =>
    rw [hs₀] at hr hr'
    obtain ⟨body, hs⟩ := Step.of_bare_done hr
    obtain ⟨body', hs'⟩ := Step.of_bare_done hr'
    exact .inr (.inl ⟨body, body', hs, hs'⟩)
  | stop expected =>
    rw [hs₀] at hr hr'
    exact .inr (.inr ⟨expected, Step.of_bare_stop hr, Step.of_bare_stop hr'⟩)

theorem finish_reports (r : Reader) (file : String) (body : Expr) (last : Span) :
    reportsOf ((r.finish file body last).mapError .rejected) =
      r.notes.reports ++ r.notes.unusedParams r.params := by
  simp only [finish]
  split
  next => rw [mapError_error, reportsOf]
  next => rw [mapError_ok, reportsOf]

theorem finish_errors (r : Reader) (file : String) (body : Expr) (last : Span) :
    errorsOf ((r.finish file body last).mapError .rejected) = r.notes.errors := by
  have hunused : (r.notes.unusedParams r.params).filter (·.isError) = [] := by
    rw [Notes.unusedParams, List.filter_eq_nil_iff, List.forall_mem_map]
    exact fun _ _ => Bool.false_ne_true
  rw [errorsOf, finish_reports, List.filter_append, hunused, List.append_nil, Notes.errors]

theorem stopped_errors (r : Reader) (expected : Expected) (t : Token) :
    errorsOf (.error (.rejected (r.stopped expected t))) =
      r.notes.errors ++ [.located (.unexpected expected t.text) t.span] := by
  rw [errorsOf, reportsOf, stopped, List.filter_append]
  rfl

/-- **Runs of readers with one frame report alike**: each adds the same errors to those so far. -/
theorem run_alike (h : r.frame = r'.frame) (file : String) {t : Token} {ts : List Token}
    (hend : ∀ eof ∈ (t :: ts).getLast?, eof.kind = .endOfInput) (last last' : Span) :
    ∃ errors, errorsOf ((run file r last t ts).mapError .rejected) = r.notes.errors ++ errors ∧
      errorsOf ((run file r' last' t ts).mapError .rejected) = r'.notes.errors ++ errors := by
  induction ts generalizing r r' t last last' with
  | nil =>
    have ht : t.kind = .endOfInput := hend t (by simp)
    simp only [run]
    rcases step_alike h t with ⟨s, s', _, hs, -⟩ | ⟨body, body', hs, hs'⟩ | ⟨expected, hs, hs'⟩
    · exact absurd hs (step_endOfInput ht)
    · rw [hs, hs', finish_errors, finish_errors]
      exact ⟨[], by simp, by simp⟩
    · rw [hs, hs', mapError_error, mapError_error, stopped_errors, stopped_errors]
      exact ⟨_, rfl, rfl⟩
  | cons t₂ ts ih =>
    simp only [run]
    rcases step_alike h t with
      ⟨s, s', new, hs, hs', hframe, hnew, hnew'⟩ | ⟨body, body', hs, hs'⟩ | ⟨expected, hs, hs'⟩
    · rw [hs, hs']
      obtain ⟨errors, herrors, herrors'⟩ := ih hframe (by simpa using hend) t.span t.span
      refine ⟨new ++ errors, ?_, ?_⟩
      · rw [herrors, hnew, List.append_assoc]
      · rw [herrors', hnew', List.append_assoc]
    · rw [hs, hs', finish_errors, finish_errors]
      exact ⟨[], by simp, by simp⟩
    · rw [hs, hs', mapError_error, mapError_error, stopped_errors, stopped_errors]
      exact ⟨_, rfl, rfl⟩

end Reader

/-! ## Two lists of tokens -/

open Reader

theorem run_after (file : String) {v : Token} {vs : List Token} {s : Reader} :
    ∀ {ts : List Token} {r : Reader} {t : Token} (last : Span), r.takes (t :: ts) = some s →
      ∃ last', run file r last t (ts ++ v :: vs) = run file s last' v vs := by
  intro ts
  induction ts with
  | nil =>
    intro r t last h
    rw [takes] at h
    split at h
    next r' hr' =>
      cases h
      exact ⟨t.span, by rw [List.nil_append, run, hr']⟩
    next => cases h
  | cons t₂ ts ih =>
    intro r t last h
    rw [takes] at h
    split at h
    next r' hr' =>
      obtain ⟨last', hrun⟩ := ih t.span h
      exact ⟨last', by rw [List.cons_append, run, hr']; exact hrun⟩
    next => cases h

/-- Reading goes on where tokens have led. -/
theorem ofTokens_after (file : String) {us : List Token} {t : Token} {r s : Reader}
    (h : ({} : Reader).takes us = some r) (hs : r.step t = .next s) (v : Token) (vs : List Token) :
    ∃ last, Description.ofTokens file (us ++ t :: v :: vs) =
      (run file s last v vs).mapError .rejected := by
  have htakes : ({} : Reader).takes (us ++ [t]) = some s := by
    rw [takes_append h, takes_cons hs, takes_nil]
  have hsplit : us ++ t :: v :: vs = us ++ [t] ++ v :: vs := by simp
  rw [hsplit]
  cases hfirst : us ++ [t] with
  | nil => simp at hfirst
  | cons first rest =>
    rw [hfirst] at htakes
    obtain ⟨last, hrun⟩ := run_after file first.span htakes
    exact ⟨last, by rw [List.cons_append, Description.ofTokens, hrun]⟩

/-- Two lists of tokens that differ in one, from which the reader comes to one frame, lead to the
same errors from there on. -/
theorem errorsOf_alike (file : String) {us vs : List Token} {t t' : Token} {r s s' : Reader}
    (hend : EndsOnce (us ++ t :: vs)) (h : ({} : Reader).takes us = some r)
    (hs : r.step t = .next s) (hs' : r.step t' = .next s') (hframe : s.frame = s'.frame) :
    ∃ errors, errorsOf (Description.ofTokens file (us ++ t :: vs)) = s.notes.errors ++ errors ∧
      errorsOf (Description.ofTokens file (us ++ t' :: vs)) = s'.notes.errors ++ errors := by
  obtain ⟨init, eof, hinit, heof, -⟩ := hend
  have hlast : (us ++ t :: vs).getLast? = some eof := by rw [hinit, List.getLast?_concat]
  cases vs with
  | nil =>
    have ht : t = eof := by simpa using hlast
    exact absurd hs (step_endOfInput (ht ▸ heof))
  | cons v vs =>
    obtain ⟨last, hrun⟩ := ofTokens_after file h hs v vs
    obtain ⟨last', hrun'⟩ := ofTokens_after file h hs' v vs
    rw [hrun, hrun']
    refine run_alike hframe file (fun x hx => ?_) last last'
    have hx' : (us ++ t :: v :: vs).getLast? = some x := by simpa [List.getLast?_append] using hx
    rw [Option.some.inj (hx'.symm.trans hlast), heof]

end TypeDesc
