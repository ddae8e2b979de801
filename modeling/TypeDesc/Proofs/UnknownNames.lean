/-
Where a name is unknown.

A token adds no name to the reader but its own, and at most one report
(`Reader.step_adds`). So the names in scope are names of tokens before
(`Reader.takes_names`), and a report on an unknown name is made at a token that the
reader takes as a type (`exists_unknown`). A name in scope in place of that token
takes away the report, and no error else changes (`errorsOf_known`).
-/
import TypeDesc.Proofs.ReaderFrame

namespace TypeDesc

open Reader Text

/-! ## Mentions -/

namespace Notes

variable (n : Notes) {enclosing params : List String} {w : Word}

/-- A name in scope is not reported. -/
theorem mention_known (h : w.text ∈ enclosing ++ params) :
    ∃ used, n.mention enclosing params w = { n with used } := by
  unfold mention
  split
  next =>
    unfold use
    split
    next => exact ⟨_, rfl⟩
    next => exact ⟨n.used, rfl⟩
  next hnone => exact absurd h (List.idxOf?_eq_none_iff.1 hnone)

/-- A name that is not in scope is reported with the name in scope that is most like it. -/
theorem mention_unknown (h : w.text ∉ enclosing ++ params) : n.mention enclosing params w =
    n.report (.unknownVariable w.text (closest? w.text (enclosing ++ params))) w.span := by
  rw [mention, List.idxOf?_eq_none_iff.2 h]

/-- Later errors do not depend on what is mentioned. -/
theorem mention_frame : (n.mention enclosing params w).frame = n.frame := by
  by_cases h : w.text ∈ enclosing ++ params
  · obtain ⟨used, hused⟩ := n.mention_known h
    rw [hused]
    rfl
  · rw [n.mention_unknown h]
    rfl

end Notes

/-! ## What a step adds -/

/-- The name that a focus keeps, of a recursive type that is being read. -/
def Focus.name? : Focus → Option String
  | .recOpen name => some name.text
  | .ctorName type => some type.name.text
  | .ctorEnd type _ => some type.name.text
  | _ => none

/-- At most one report more, and one on an unknown name only if `p`. -/
def Notes.Adds (p : Prop) (n n' : Notes) : Prop :=
  n'.reports = n.reports ∨
    ∃ report, n'.reports = n.reports ++ [report] ∧ (report.finding.code = "E201" → p)

namespace Reader

/-- The names that are in scope, or will be. -/
def names (r : Reader) : List String :=
  r.focus.name?.toList ++ (r.enclosing ++ r.paramNames)

/-- A type may start here, so that a name is taken as one. -/
def Mentions (r : Reader) : Prop :=
  r.focus = .start ∨ r.focus = .paramEnd ∨ r.focus = .operand

/-- What a token adds to a reader: a name only if it is one, and at most one report. -/
structure Adds (r : Reader) (t : Token) (s : Reader) : Prop where
  names : ∀ name ∈ s.names, name ∈ r.names ∨ t.kind = .identifier ∧ name = t.text
  reports : r.notes.Adds (r.Mentions ∧ t.kind = .identifier) s.notes

end Reader

namespace Notes

variable {p : Prop} (n : Notes)

theorem adds_report {finding : Finding} (h : finding.code = "E201" → p) (span : Span) :
    n.Adds p (n.report finding span) :=
  .inr ⟨_, rfl, h⟩

theorem adds_mention (h : p) (enclosing params : List String) (w : Word) :
    n.Adds p (n.mention enclosing params w) := by
  by_cases hscope : w.text ∈ enclosing ++ params
  · obtain ⟨used, hused⟩ := n.mention_known hscope
    rw [hused]
    exact .inl rfl
  · rw [n.mention_unknown hscope]
    exact n.adds_report (fun _ => h) _

theorem adds_checkParam (earlier : List Word) (w : Word) : n.Adds p (n.checkParam earlier w) := by
  unfold checkParam
  split
  next => exact n.adds_report (by simp [Finding.code]) _
  next => exact .inl rfl

theorem adds_checkTypeName (w : Word) : n.Adds p (n.checkTypeName w) := by
  unfold checkTypeName
  split
  next => exact n.adds_report (by simp [Finding.code]) _
  next => exact .inl rfl

theorem adds_checkCtorName (type : OpenType) (w : Word) : n.Adds p (n.checkCtorName type w) := by
  unfold checkCtorName
  split
  next => exact n.adds_report (by simp [Finding.code]) _
  next =>
    split
    next => exact n.adds_report (by simp [Finding.code]) _
    next => exact .inl rfl

theorem adds_record (name : Word) (type : Expr) : n.Adds p (n.record name type) := by
  simp only [record]
  split
  next => exact .inl rfl
  next =>
    split
    next => exact n.adds_report (by simp [Finding.code]) _
    next =>
      split
      next => exact n.adds_report (by simp [Finding.code]) _
      next => exact .inl rfl

end Notes

namespace Reader

variable {r s : Reader} {t : Token}

/-- A step that leaves the parameters as they are, and takes names from the focus and the levels. -/
theorem Adds.of_focus (hfocus : ∀ name ∈ s.focus.name?, name ∈ r.names ∨
      t.kind = .identifier ∧ name = t.text)
    (hlevels : ∀ name ∈ s.enclosing, name ∈ r.names) (hparams : s.params = r.params)
    (hreports : r.notes.Adds (r.Mentions ∧ t.kind = .identifier) s.notes) : r.Adds t s := by
  refine ⟨fun name hm => ?_, hreports⟩
  rcases List.mem_append.1 hm with hm | hm
  · exact hfocus name (Option.mem_toList.1 hm)
  rcases List.mem_append.1 hm with hm | hm
  · exact .inl (hlevels name hm)
  · rw [paramNames, hparams] at hm
    exact .inl (List.mem_append_right _ (List.mem_append_right _ hm))

theorem Adds.of_nameless (hfocus : s.focus.name? = none)
    (hlevels : ∀ name ∈ s.enclosing, name ∈ r.names) (hparams : s.params = r.params)
    (hreports : r.notes.Adds (r.Mentions ∧ t.kind = .identifier) s.notes) : r.Adds t s := by
  refine .of_focus (fun name hm => ?_) hlevels hparams hreports
  rw [hfocus] at hm
  cases hm

theorem mem_names_of_enclosing (r : Reader) (name : String) (h : name ∈ r.enclosing) :
    name ∈ r.names :=
  List.mem_append_right _ (List.mem_append_left _ h)

theorem operand_adds (h : r.Mentions) (hs : r.operand t = .next s) : r.Adds t s := by
  cases hk : t.kind <;> simp only [operand, hk] at hs <;> cases hs
  case identifier =>
    exact .of_nameless rfl r.mem_names_of_enclosing rfl (r.notes.adds_mention ⟨h, hk⟩ ..)
  case openParen | void | unit | recKeyword | aliasKeyword =>
    exact .of_nameless rfl r.mem_names_of_enclosing rfl (.inl rfl)

/-- The name of a type whose constructors are being read is kept. -/
theorem afterCtor_adds {type : OpenType} {ctor : String} {payload : Expr} {r₀ : Reader}
    (hs : r.afterCtor type ctor payload t = .next s) (htype : type.name.text ∈ r₀.names)
    (hlevels : ∀ name ∈ r.enclosing, name ∈ r₀.names) (hparams : r.params = r₀.params)
    (hnotes : r.notes = r₀.notes) : r₀.Adds t s := by
  cases hk : t.kind <;> simp only [afterCtor, hk] at hs <;> cases hs
  case comma =>
    refine .of_focus (fun name hm => ?_) hlevels hparams (.inl (congrArg _ hnotes))
    cases hm
    exact .inl htype
  case closeBrace =>
    refine .of_nameless rfl hlevels hparams ?_
    rw [← hnotes]
    exact r.notes.adds_record ..

theorem closing_adds {last : Expr} (hs : r.closing last t = .next s) : r.Adds t s := by
  obtain ⟨focus, terms, levels, params, notes, bodyStart⟩ := r
  cases levels with
  | nil =>
    simp only [closing] at hs
    split at hs <;> cases hs
  | cons level levels =>
    -- what is in scope around a level is in scope inside
    have hlevels : ∀ name ∈ Level.names levels,
        name ∈ (⟨focus, terms, level :: levels, params, notes, bodyStart⟩ : Reader).names := by
      intro name hm
      obtain ⟨outer, houter, hname⟩ := List.mem_filterMap.1 hm
      refine mem_names_of_enclosing _ name ?_
      exact List.mem_filterMap.2 ⟨outer, List.mem_cons_of_mem _ houter, hname⟩
    obtain ⟨enclosure, outer⟩ := level
    cases enclosure with
    | parens =>
      simp only [closing] at hs
      split at hs <;> cases hs
      exact .of_nameless rfl hlevels rfl (.inl rfl)
    | payload type ctor =>
      exact afterCtor_adds hs (mem_names_of_enclosing _ _ List.mem_cons_self) hlevels rfl rfl
    | body name =>
      simp only [closing] at hs
      split at hs <;> cases hs
      exact .of_nameless rfl hlevels rfl (notes.adds_record ..)

/-- **What a token adds**: no name but its own, and at most one report, which is on an unknown name
only where the token is a name that is taken as a type. -/
theorem step_adds (hs : r.step t = .next s) : r.Adds t s := by
  have hkeep := r.mem_names_of_enclosing
  have hbegin : r.Mentions → r.beginBody t = .next s → r.Adds t s := by
    intro hm hs
    obtain ⟨hnames, hreports⟩ := operand_adds (r := { r with bodyStart := some t.span }) hm hs
    exact ⟨hnames, hreports⟩
  have hname : ∀ name ∈ r.focus.name?, name ∈ r.names := fun name hm =>
    List.mem_append_left _ (Option.mem_toList.2 hm)
  cases hf : r.focus with
  | start =>
    simp only [step, hf] at hs
    split at hs
    next => cases hs; exact .of_nameless rfl hkeep rfl (.inl rfl)
    next => exact hbegin (.inl hf) hs
  | paramName =>
    simp only [step, hf] at hs
    split at hs <;> cases hs
    next hk =>
      have hnames : ∀ name ∈ r.enclosing ++ (r.params ++ [t.word]).map (·.text),
          name ∈ r.names ∨ t.kind = .identifier ∧ name = t.text := by
        intro name hm
        rw [List.map_append, ← List.append_assoc] at hm
        rcases List.mem_append.1 hm with hm | hm
        · exact .inl (List.mem_append_right _ hm)
        · exact .inr ⟨hk, List.mem_singleton.1 hm⟩
      exact ⟨hnames, r.notes.adds_checkParam ..⟩
  | paramEnd =>
    simp only [step, hf] at hs
    split at hs
    next => cases hs; exact .of_nameless rfl hkeep rfl (.inl rfl)
    next => exact hbegin (.inr (.inl hf)) hs
  | operand =>
    simp only [step, hf] at hs
    exact operand_adds (.inr (.inr hf)) hs
  | operator last =>
    simp only [step, hf] at hs
    split at hs
    next => cases hs; exact .of_nameless rfl hkeep rfl (.inl rfl)
    next => cases hs; exact .of_nameless rfl hkeep rfl (.inl rfl)
    next => exact closing_adds hs
  | recName =>
    simp only [step, hf] at hs
    split at hs <;> cases hs
    next hk =>
      refine .of_focus (fun name hm => .inr ⟨hk, ?_⟩) hkeep rfl (r.notes.adds_checkTypeName _)
      exact (Option.some.inj hm).symm
  | bodyName =>
    simp only [step, hf] at hs
    split at hs <;> cases hs
    exact .of_nameless rfl hkeep rfl (r.notes.adds_checkTypeName _)
  | recOpen name =>
    rw [hf] at hname
    simp only [step, hf] at hs
    split at hs <;> cases hs
    exact .of_focus (fun name hm => .inl (hname name hm)) hkeep rfl (.inl rfl)
  | bodyOpen name =>
    simp only [step, hf] at hs
    split at hs <;> cases hs
    exact .of_nameless rfl hkeep rfl (.inl rfl)
  | ctorName type =>
    rw [hf] at hname
    simp only [step, hf] at hs
    split at hs <;> cases hs
    next => exact .of_nameless rfl hkeep rfl (r.notes.adds_record ..)
    next =>
      exact .of_focus (fun name hm => .inl (hname name hm)) hkeep rfl
        (r.notes.adds_checkCtorName ..)
  | ctorEnd type ctor =>
    have htype : type.name.text ∈ r.names := hname _ (by rw [hf]; rfl)
    simp only [step, hf] at hs
    split at hs
    next =>
      cases hs
      exact .of_nameless rfl (List.forall_mem_cons.2 ⟨htype, hkeep⟩) rfl (.inl rfl)
    next => exact afterCtor_adds hs htype hkeep rfl rfl

theorem takes_snoc {ts : List Token} (h : r.takes (ts ++ [t]) = some s) :
    ∃ r', r.takes ts = some r' ∧ r'.step t = .next s := by
  induction ts generalizing r with
  | nil =>
    rw [List.nil_append, takes] at h
    split at h
    next r' hr' => exact ⟨r, rfl, by rw [hr', Option.some.inj h]⟩
    next => cases h
  | cons t₁ ts ih =>
    rw [List.cons_append, takes] at h
    split at h
    next r₁ hr₁ =>
      obtain ⟨r', hr', hs⟩ := ih h
      exact ⟨r', by rw [takes_cons hr₁, hr'], hs⟩
    next => cases h

/-- The names of a reader are names of tokens that it has taken. -/
theorem takes_names {ts : List Token} (h : ({} : Reader).takes ts = some r) :
    ∀ name ∈ r.names, ∃ t ∈ ts, t.kind = .identifier ∧ t.text = name := by
  induction ts using List.reverseRecOn generalizing r with
  | nil =>
    cases h
    exact List.forall_mem_nil _
  | append_singleton ts t ih =>
    obtain ⟨r', hr', hs⟩ := takes_snoc h
    intro name hm
    rcases (step_adds hs).names name hm with hm | ⟨hk, rfl⟩
    · obtain ⟨t', ht', hname⟩ := ih hr' name hm
      exact ⟨t', List.mem_append_left _ ht', hname⟩
    · exact ⟨t, by simp, hk, rfl⟩

/-- **A report on an unknown name is made at a name that is taken as a type.** The induction is on
the tokens from the last back, each of which adds at most one report. -/
theorem exists_mention {ts : List Token} {before after : List Report} {report : Report}
    (h : ({} : Reader).takes ts = some r) (hr : r.notes.reports = before ++ report :: after)
    (hcode : report.finding.code = "E201") :
    ∃ us t vs s s', ts = us ++ t :: vs ∧ ({} : Reader).takes us = some s ∧ s.step t = .next s' ∧
      s.Mentions ∧ t.kind = .identifier ∧ s.notes.reports = before ∧
      s'.notes.reports = before ++ [report] := by
  induction ts using List.reverseRecOn generalizing r after with
  | nil =>
    cases h
    simp at hr
  | append_singleton ts t ih =>
    obtain ⟨r', hr', hs⟩ := takes_snoc h
    have hearlier : ∀ {after}, r'.notes.reports = before ++ report :: after →
        ∃ us t' vs s s', ts ++ [t] = us ++ t' :: vs ∧ ({} : Reader).takes us = some s ∧
          s.step t' = .next s' ∧ s.Mentions ∧ t'.kind = .identifier ∧ s.notes.reports = before ∧
          s'.notes.reports = before ++ [report] := by
      intro after hreports
      obtain ⟨us, t', vs, s, s', rfl, hfound⟩ := ih hr' hreports
      exact ⟨us, t', vs ++ [t], s, s', by simp, hfound⟩
    rcases (step_adds hs).reports with hsame | ⟨new, hnew, hp⟩
    · exact hearlier (hsame.symm.trans hr)
    rcases List.eq_nil_or_concat after with rfl | ⟨after, last, rfl⟩
    · obtain ⟨hbefore, rfl⟩ := List.append_singleton_inj.1 (hnew.symm.trans hr)
      exact ⟨ts, t, [], r', r, rfl, hr', hs, (hp hcode).1, (hp hcode).2, hbefore, hr⟩
    · have hsplit : r'.notes.reports ++ [new] = (before ++ report :: after) ++ [last] := by
        rw [← hnew, hr]
        simp
      exact hearlier (List.append_singleton_inj.1 hsplit).1

/-! ## Known and unknown names -/

/-- What is reported of a name that is not in scope. -/
def unknown (r : Reader) (w : Word) : Report :=
  .located (.unknownVariable w.text (closest? w.text (r.enclosing ++ r.paramNames))) w.span

theorem step_mention (h : r.Mentions) (ht : t.kind = .identifier) :
    ∃ bodyStart, r.step t = .next ({ r with bodyStart }.resolve t.word) := by
  have hoperand : ∀ r : Reader, r.operand t = .next (r.resolve t.word) := by
    intro r
    rw [operand, ht]
  rcases h with h | h | h
  · exact ⟨some t.span, by simp only [step, h, ht, reduceCtorEq, if_false, beginBody, hoperand]⟩
  · exact ⟨some t.span, by simp only [step, h, ht, reduceCtorEq, if_false, beginBody, hoperand]⟩
  · exact ⟨r.bodyStart, (by simp only [step, h] : r.step t = r.operand t).trans (hoperand r)⟩

end Reader

namespace Text

theorem Likeness.mem_insert {l x : Likeness} {ls : List Likeness} (h : x ∈ l.insert ls) :
    x ∈ l :: ls := by
  induction ls with
  | nil => exact h
  | cons m ms ih =>
    rw [Likeness.insert] at h
    split at h
    next =>
      rcases List.mem_cons.1 h with rfl | h
      · simp
      · rcases List.mem_cons.1 (ih h) with rfl | h <;> simp [*]
    next => exact h

theorem Likeness.mem_ranked {x : Likeness} {ls : List Likeness} (h : x ∈ ranked ls) : x ∈ ls := by
  induction ls with
  | nil => exact h
  | cons l ls ih =>
    rcases List.mem_cons.1 (mem_insert h) with rfl | h
    · simp
    · exact List.mem_cons_of_mem _ (ih h)

/-- The name most like a word is one of the given names. -/
theorem closest?_mem {word name : String} {names : List String}
    (h : closest? word names = some name) : name ∈ names := by
  have hclosest : name ∈ closest 1 word names := List.mem_of_head? h
  rw [closest] at hclosest
  obtain ⟨l, hl, rfl⟩ := List.mem_map.1 hclosest
  have hclose := Likeness.mem_ranked (List.mem_of_mem_take hl)
  obtain ⟨name, hname, rfl⟩ := List.mem_map.1 (List.mem_filter.1 hclose).1
  exact hname

end Text

/-- What is suggested for an unknown name is a name in scope. -/
theorem Reader.unknown_suggestion {r : Reader} {w : Word} {suggestion : Suggestion}
    (h : suggestion ∈ (r.unknown w).diagnostic.suggestions) :
    suggestion.replacement ∈ r.enclosing ++ r.paramNames := by
  have hfinding : suggestion ∈ Finding.suggestions
      (.unknownVariable w.text (closest? w.text (r.enclosing ++ r.paramNames))) := h
  cases hclosest : closest? w.text (r.enclosing ++ r.paramNames) with
  | none =>
    rw [hclosest] at hfinding
    cases hfinding
  | some name =>
    rw [hclosest] at hfinding
    rw [List.mem_singleton.1 hfinding]
    exact closest?_mem hclosest

/-! ## A known name in place of an unknown one -/

/-- What is reported while tokens are read, and what is reported when reading ends: that is never
an unknown name. -/
theorem ofTokens_reports (file : String) {tokens : List Token} (h : EndsOnce tokens) :
    ∃ ts rest r tail, tokens = ts ++ rest ∧ ({} : Reader).takes ts = some r ∧
      reportsOf (Description.ofTokens file tokens) = r.notes.reports ++ tail ∧
      ∀ report ∈ tail, report.finding.code ≠ "E201" := by
  cases tokens with
  | nil =>
    obtain ⟨ts, eof, hts, -⟩ := h
    simp at hts
  | cons t₁ rest =>
    rw [Description.ofTokens]
    rcases run_cases file rest {} t₁.span t₁ with
      ⟨ts₁, t, ts₂, r, body, last, hsplit, htk, -, hrun⟩ |
      ⟨ts₁, t, ts₂, r, expected, hsplit, htk, -, hrun⟩ | ⟨ts₁, t, r, r', hsplit, htk, hs, -⟩
    · refine ⟨ts₁, t :: ts₂, r, _, hsplit, htk, by rw [hrun, finish_reports], ?_⟩
      rw [Notes.unusedParams, List.forall_mem_map]
      intro x _
      simp [Report.located, Finding.code]
    · have hstopped : reportsOf ((run file {} t₁.span t₁ rest).mapError .rejected) =
          r.notes.reports ++ [.located (.unexpected expected t.text) t.span] := by
        rw [hrun, mapError_error, reportsOf, stopped]
      exact ⟨ts₁, t :: ts₂, r, _, hsplit, htk, hstopped, by simp [Report.located, Finding.code]⟩
    · obtain ⟨ts, eof, hts, heof, -⟩ := h
      obtain ⟨-, rfl⟩ := List.append_singleton_inj.1 (hsplit.symm.trans hts)
      exact absurd hs (step_endOfInput heof)

/-- A report on an unknown name is made at a token where the reader has all that was reported
before. -/
theorem exists_unknown (file : String) {tokens : List Token} {before after : List Report}
    {report : Report} (hend : EndsOnce tokens)
    (hreports : reportsOf (Description.ofTokens file tokens) = before ++ report :: after)
    (hcode : report.finding.code = "E201") :
    ∃ us t vs r, tokens = us ++ t :: vs ∧ ({} : Reader).takes us = some r ∧ r.Mentions ∧
      t.kind = .identifier ∧ t.text ∉ r.enclosing ++ r.paramNames ∧ r.notes.reports = before ∧
      report = r.unknown t.word := by
  obtain ⟨ts, rest, r, tail, rfl, htakes, hall, htail⟩ := ofTokens_reports file hend
  obtain ⟨after', hr⟩ : ∃ after', r.notes.reports = before ++ report :: after' := by
    rw [hall] at hreports
    rcases List.append_eq_append_iff.1 hreports with ⟨more, hbefore, hrest⟩ | ⟨more, hmore, hrest⟩
    · exact absurd hcode (htail report (by simp [hrest]))
    · cases more with
      | nil =>
        have htail' : tail = report :: after := hrest.symm
        exact absurd hcode (htail report (by simp [htail']))
      | cons first more =>
        obtain ⟨rfl, -⟩ := List.cons.inj hrest
        exact ⟨more, hmore⟩
  obtain ⟨us, t, vs, s, s', rfl, hus, hs, hm, ht, hbefore, hafter⟩ := exists_mention htakes hr hcode
  obtain ⟨bodyStart, hmention⟩ := step_mention hm ht
  obtain rfl := Step.next.inj (hs.symm.trans hmention)
  have hnotes : (s.notes.mention s.enclosing s.paramNames t.word).reports = before ++ [report] :=
    hafter
  by_cases hscope : t.text ∈ s.enclosing ++ s.paramNames
  · obtain ⟨used, hused⟩ := s.notes.mention_known (w := t.word) hscope
    rw [hused, hbefore] at hnotes
    simp at hnotes
  · rw [s.notes.mention_unknown hscope, Notes.report, hbefore] at hnotes
    exact ⟨us, t, vs ++ rest, s, by simp, hus, hm, ht, hscope, hbefore,
      (List.append_singleton_inj.1 hnotes).2.symm⟩

/-- **A known name in place of an unknown one takes away its error**, and no other. -/
theorem errorsOf_known (file : String) {us vs : List Token} {t : Token} {r : Reader} {name : String}
    (hend : EndsOnce (us ++ t :: vs)) (h : ({} : Reader).takes us = some r) (hm : r.Mentions)
    (ht : t.kind = .identifier) (hunknown : t.text ∉ r.enclosing ++ r.paramNames)
    (hname : name ∈ r.enclosing ++ r.paramNames) :
    ∃ errors, errorsOf (Description.ofTokens file (us ++ t :: vs)) =
        r.notes.errors ++ r.unknown t.word :: errors ∧
      errorsOf (Description.ofTokens file (us ++ { t with text := name } :: vs)) =
        r.notes.errors ++ errors := by
  obtain ⟨bodyStart, hs⟩ := step_mention hm ht
  obtain ⟨bodyStart', hs'⟩ := step_mention (t := { t with text := name }) hm ht
  have hframe : ({ r with bodyStart }.resolve t.word).frame =
      ({ r with bodyStart := bodyStart' }.resolve { t with text := name }.word).frame := by
    simp only [resolve, Reader.frame, Notes.mention_frame]
    rfl
  have hreports : (r.notes.mention r.enclosing r.paramNames { t with text := name }.word).errors =
      r.notes.errors := by
    obtain ⟨used, hused⟩ := r.notes.mention_known (w := { t with text := name }.word) hname
    rw [hused]
    rfl
  have hreport : (r.notes.mention r.enclosing r.paramNames t.word).errors =
      r.notes.errors ++ [r.unknown t.word] := by
    rw [r.notes.mention_unknown hunknown, Notes.errors, Notes.report, List.filter_append]
    rfl
  obtain ⟨errors, herrors, herrors'⟩ := errorsOf_alike file hend h hs hs' hframe
  refine ⟨errors, ?_, ?_⟩
  · rw [herrors, List.append_cons]
    exact congrArg (· ++ errors) hreport
  · rw [herrors']
    exact congrArg (· ++ errors) hreports

end TypeDesc
