/-
What a list of tokens must be for a description to be read from it: the
parameters, a sum, the end of the input, and nothing wrong with the names.

`ofTokens_reads` takes an accepted list apart; `ofTokens_of_reads` says that such
a list is accepted, and what is then read.
-/
import TypeDesc.Proofs.GrammarComplete
import TypeDesc.Proofs.Outcome

namespace TypeDesc

open Reader

/-- The tokens `ts` are the parameters `ws`, if any, and reading them leaves the notes `n`. -/
inductive ReadsParams : List Word → Notes → List Token → Prop
  | none : ReadsParams [] {} []
  | first {k w} (hk : k.kind = .paramsKeyword) (hw : w.kind = .identifier) :
    ReadsParams [w.word] (Notes.checkParam {} [] w.word) [k, w]
  | more {ws n ts c w} (h : ReadsParams ws n ts) (hne : ws ≠ []) (hc : c.kind = .comma)
    (hw : w.kind = .identifier) :
    ReadsParams (ws ++ [w.word]) (n.checkParam ws w.word) (ts ++ [c, w])

/-- The reader has taken the tokens `ts` and is not past the parameters. -/
inductive InParams : List Token → Reader → Prop
  | start : InParams [] {}
  | name {k} (hk : k.kind = .paramsKeyword) : InParams [k] { focus := .paramName }
  | nextName {ws n ts c} (h : ReadsParams ws n ts) (hne : ws ≠ []) (hc : c.kind = .comma) :
    InParams (ts ++ [c]) { focus := .paramName, params := ws, notes := n }
  | ended {ws n ts} (h : ReadsParams ws n ts) (hne : ws ≠ []) :
    InParams ts { focus := .paramEnd, params := ws, notes := n }

/-- The reader has taken the tokens `ts`: it is in the parameters, or in the expression behind
them. -/
def Progress (ts : List Token) (r : Reader) : Prop :=
  InParams ts r ∨ ∃ ws ts₁ ts₂ n₀, ts = ts₁ ++ ts₂ ∧ ReadsParams ws n₀ ts₁ ∧ Reached ws n₀ ts₂ r

/-- A type starts in the same way wherever the reader is. -/
theorem operand_refocus (r : Reader) (focus : Focus) (t : Token) :
    { r with focus }.operand t = r.operand t := by
  simp only [Reader.operand, Reader.enter, Reader.resolve]
  rfl

theorem Progress.beginBody {ts : List Token} {r r' : Reader} {t : Token}
    (h : ReadsParams r.params r.notes ts) (hl : r.levels = []) (ht : r.terms = {})
    (hs : r.beginBody t = .next r') : Progress (ts ++ [t]) r' := by
  rw [Reader.beginBody, ← operand_refocus _ .operand] at hs
  have h₀ : Reached r.params r.notes [] { r with focus := .operand, bodyStart := some t.span } :=
    ⟨rfl, [], [], [], _, _, rfl, by rw [hl]; exact .none, by rw [ht]; exact .nil, rfl, rfl⟩
  exact .inr ⟨r.params, ts, [t], r.notes, rfl, h, h₀.operand rfl hs⟩

/-- **One token keeps the progress.** -/
theorem Progress.step {ts : List Token} {r r' : Reader} {t : Token} (h : Progress ts r)
    (hs : r.step t = .next r') : Progress (ts ++ [t]) r' := by
  rcases h with h | ⟨ws, ts₁, ts₂, n₀, rfl, hp, hr⟩
  · cases h with
    | start =>
      simp only [Reader.step] at hs
      split at hs
      next hk =>
        simp only [Step.next.injEq] at hs
        subst hs
        exact .inl (.name hk)
      next => exact Progress.beginBody .none rfl rfl hs
    | name hk =>
      simp only [Reader.step] at hs
      split at hs <;> simp only [Step.next.injEq, reduceCtorEq] at hs
      subst hs
      exact .inl (.ended (.first hk ‹_›) (by simp))
    | nextName hp hne hc =>
      simp only [Reader.step] at hs
      split at hs <;> simp only [Step.next.injEq, reduceCtorEq] at hs
      subst hs
      rw [List.append_assoc]
      exact .inl (.ended (.more hp hne hc ‹_›) (by simp))
    | ended hp hne =>
      simp only [Reader.step] at hs
      split at hs
      next hc =>
        simp only [Step.next.injEq] at hs
        subst hs
        exact .inl (.nextName hp hne hc)
      next => exact Progress.beginBody hp rfl rfl hs
  · rw [List.append_assoc]
    exact .inr ⟨ws, ts₁, ts₂ ++ [t], n₀, rfl, hp, hr.step hs⟩

theorem Progress.takes {ts ts' : List Token} {r r' : Reader} (h : Progress ts r)
    (hs : r.takes ts' = some r') : Progress (ts ++ ts') r' := by
  induction ts' generalizing ts r with
  | nil =>
    simp only [takes_nil, Option.some.injEq] at hs
    subst hs
    simpa using h
  | cons t ts' ih =>
    rw [Reader.takes] at hs
    split at hs
    next r₁ hr₁ => simpa using ih (h.step hr₁) hs
    next => cases hs

/-! ## The end of the input -/

theorem operand_ne_done (r : Reader) (t : Token) (body : Expr) : r.operand t ≠ .done body := by
  simp only [Reader.operand]
  split <;> simp

theorem afterCtor_ne_done (r : Reader) (type : OpenType) (ctor : String) (e : Expr) (t : Token)
    (body : Expr) : r.afterCtor type ctor e t ≠ .done body := by
  simp only [Reader.afterCtor]
  split <;> simp

theorem closing_done {r : Reader} {last body : Expr} {t : Token}
    (h : r.closing last t = .done body) :
    t.kind = .endOfInput ∧ r.levels = [] ∧ body = r.terms.close last := by
  simp only [Reader.closing] at h
  split at h
  next hl =>
    split at h <;> simp only [Step.done.injEq, reduceCtorEq] at h
    exact ⟨‹_›, hl, h.symm⟩
  next => split at h <;> cases h
  next => exact absurd h (afterCtor_ne_done _ _ _ _ _ _)
  next => split at h <;> cases h

/-- A description ends at the end of the input, after a factor and with no level open. -/
theorem step_done {r : Reader} {t : Token} {body : Expr} (h : r.step t = .done body) :
    t.kind = .endOfInput ∧ r.levels = [] ∧
      ∃ last, r.focus = .operator last ∧ body = r.terms.close last := by
  simp only [Reader.step] at h
  split at h
  next => split at h; cases h; exact absurd h (operand_ne_done _ _ _)
  next => split at h <;> cases h
  next => split at h; cases h; exact absurd h (operand_ne_done _ _ _)
  next => exact absurd h (operand_ne_done _ _ _)
  next last hf =>
    split at h
    next => cases h
    next => cases h
    next =>
      obtain ⟨ht, hl, hb⟩ := closing_done h
      exact ⟨ht, hl, last, hf, hb⟩
  next => split at h <;> cases h
  next => split at h <;> cases h
  next => split at h <;> cases h
  next => split at h <;> cases h
  next => split at h <;> cases h
  next =>
    split at h
    next => cases h
    next => exact absurd h (afterCtor_ne_done _ _ _ _ _ _)

/-- The tokens up to the one that ends the description fit, and the reader finishes there. -/
theorem run_eq_ok {file : String} {d : Description} {w : List Report} :
    ∀ {ts : List Token} {r : Reader} {last : Span} {t : Token}, run file r last t ts = .ok (d, w) →
      ∃ ts₁ t' ts₂ r' body last', t :: ts = ts₁ ++ t' :: ts₂ ∧ r.takes ts₁ = some r' ∧
        r'.step t' = .done body ∧ r'.finish file body last' = .ok (d, w)
  | [], r, last, t, h => by
    rw [run] at h
    split at h
    next body hs => exact ⟨[], t, [], r, body, last, rfl, rfl, hs, h⟩
    next => cases h
    next => cases h
  | t₂ :: ts, r, last, t, h => by
    rw [run] at h
    split at h
    next body hs => exact ⟨[], t, t₂ :: ts, r, body, last, rfl, rfl, hs, h⟩
    next => cases h
    next r₁ hs =>
      obtain ⟨ts₁, t', ts₂, r', body, last', hts, htk, hd, hf⟩ := run_eq_ok h
      exact ⟨t :: ts₁, t', ts₂, r', body, last', by rw [hts, List.cons_append],
        by rw [takes_cons hs, htk], hd, hf⟩

theorem run_of_takes (file : String) {t' : Token} {ts₂ : List Token} {r' : Reader} {body : Expr}
    (hd : r'.step t' = .done body) :
    ∀ {ts₁ ts : List Token} {r : Reader} {t : Token} (last : Span), t :: ts = ts₁ ++ t' :: ts₂ →
      r.takes ts₁ = some r' → ∃ last', run file r last t ts = r'.finish file body last'
  | [], ts, r, t, last, hts, htk => by
    simp only [List.nil_append, List.cons.injEq] at hts
    obtain ⟨rfl, rfl⟩ := hts
    simp only [takes_nil, Option.some.injEq] at htk
    subst htk
    cases ts with
    | nil => exact ⟨last, by rw [run, hd]⟩
    | cons => exact ⟨last, by rw [run, hd]⟩
  | t₁ :: ts₁, ts, r, t, last, hts, htk => by
    simp only [List.cons_append, List.cons.injEq] at hts
    obtain ⟨rfl, rfl⟩ := hts
    rw [takes] at htk
    split at htk
    next r₁ hs =>
      cases hts : ts₁ ++ t' :: ts₂ with
      | nil => simp at hts
      | cons t₂ ts =>
        rw [run, hs]
        exact run_of_takes file hd _ hts.symm htk
    next => cases htk

/-! ## Descriptions -/

/-- The reports on a description with parameters `ws` whose expression left the notes `n`. -/
def Notes.allReports (n : Notes) (ws : List Word) : List Report :=
  n.reports ++ n.unusedParams ws

/-- **What is accepted is a phrase.** The tokens of a description are its parameters, a sum that
means its body, and the end of the input; and nothing is wrong with its names. -/
theorem ofTokens_reads {file : String} {tokens : List Token} {d : Description} {w : List Report}
    (h : Description.ofTokens file tokens = .ok (d, w)) :
    ∃ ws n₀ n ts₁ ts₂ t rest, tokens = ts₁ ++ ts₂ ++ t :: rest ∧ ReadsParams ws n₀ ts₁ ∧
      Reads (ws.map (·.text)) (.sum d.body) [] n₀ ts₂ n ∧ t.kind = .endOfInput ∧
      (∀ report ∈ n.allReports ws, report.isError = false) ∧ w = n.allReports ws ∧
      d.params = ws.map (·.text) ∧
      d.names = n.declared.map fun declared => (declared.name.text, declared.name.span) := by
  cases tokens with
  | nil => cases h
  | cons t ts =>
    simp only [Description.ofTokens, mapError_eq_ok] at h
    obtain ⟨ts₁, t', rest, r, body, last, hts, htk, hd, hf⟩ := run_eq_ok h
    obtain ⟨ht, hl, e, hfo, rfl⟩ := step_done hd
    have hpr : Progress ts₁ r := Progress.takes (.inl .start) htk
    rcases hpr with hpr | ⟨ws, us₁, us₂, n₀, rfl, hp, hr⟩
    · cases hpr <;> cases hfo
    · obtain ⟨rfl, vs₁, vs₂, vs₃, n₁, n₂, rfl, ho, hterms, hc⟩ := hr
      rw [hfo] at hc
      rw [hl] at ho
      cases ho
      have hsum := hterms.close hc
      rw [hl] at hsum
      simp only [finish] at hf
      split at hf
      next => cases hf
      next he =>
        simp only [Except.ok.injEq, Prod.mk.injEq] at hf
        obtain ⟨rfl, rfl⟩ := hf
        refine ⟨r.params, n₀, r.notes, us₁, vs₂ ++ vs₃, t', rest, ?_, hp, hsum, ht, ?_, rfl, rfl, rfl⟩
        · rw [hts]; simp
        · simpa [Notes.allReports, or_imp, forall_and] using he

theorem ReadsParams.takes {ws : List Word} {n : Notes} {ts : List Token}
    (h : ReadsParams ws n ts) :
    ({} : Reader).takes ts =
      some { focus := if ws = [] then .start else .paramEnd, params := ws, notes := n } := by
  induction h with
  | none => rfl
  | first hk hw => simp [Reader.takes, Reader.step, addParam, hk, hw]
  | more _ hne hc hw ih =>
    rw [takes_append ih]
    simp [Reader.takes, Reader.step, addParam, hne, hc, hw]

/-- A type starts neither with the keyword of parameters nor with a comma. -/
theorem operand_next {r r' : Reader} {t : Token} (h : r.operand t = .next r') :
    t.kind ≠ .paramsKeyword ∧ t.kind ≠ .comma := by
  simp only [Reader.operand] at h
  constructor <;> intro ht <;> simp [ht] at h

/-- The reader takes a sum behind the parameters as it does elsewhere. -/
theorem Reads.takes_body {ws : List Word} {n n' : Notes} {ts : List Token} {e : Expr}
    (h : Reads (ws.map (·.text)) (.sum e) [] n ts n') :
    ∃ terms last start, Terms.close terms last = e ∧
      { focus := if ws = [] then .start else .paramEnd, params := ws, notes := n : Reader }.takes ts =
        some { focus := .operator last, terms, params := ws, notes := n', bodyStart := start } := by
  obtain _ | ⟨t, ts⟩ := ts
  · obtain ⟨terms, last, _, hts⟩ :=
      h.runs { focus := .operand, params := ws, notes := n } ⟨rfl, rfl, rfl⟩ rfl rfl
    cases hts
  · obtain ⟨terms, last, he, hts⟩ := h.runs
      { focus := .operand, params := ws, notes := n, bodyStart := some t.span } ⟨rfl, rfl, rfl⟩ rfl rfl
    refine ⟨terms, last, some t.span, he, ?_⟩
    rw [Reader.takes] at hts
    split at hts
    next r₁ hs =>
      obtain ⟨hkeyword, hcomma⟩ := operand_next hs
      rw [← hts, takes_cons]
      rw [← hs]
      split <;> simp only [Reader.step, beginBody, hkeyword, hcomma, if_false] <;>
        rw [← operand_refocus _ .operand]
    next => cases hts

/-- **Every phrase is accepted** if nothing is wrong with its names, and read as what it means. -/
theorem ofTokens_of_reads (file : String) {ws : List Word} {n₀ n : Notes}
    {ts₁ ts₂ rest : List Token} {t : Token} {e : Expr} (hp : ReadsParams ws n₀ ts₁)
    (hs : Reads (ws.map (·.text)) (.sum e) [] n₀ ts₂ n) (ht : t.kind = .endOfInput)
    (he : ∀ report ∈ n.allReports ws, report.isError = false) :
    ∃ d, Description.ofTokens file (ts₁ ++ ts₂ ++ t :: rest) = .ok (d, n.allReports ws) ∧
      d.params = ws.map (·.text) ∧ d.body = e ∧
      d.names = n.declared.map fun declared => (declared.name.text, declared.name.span) := by
  obtain ⟨terms, last, start, rfl, hts⟩ := hs.takes_body
  have htk := (takes_append hp.takes ts₂).trans hts
  have hd : { focus := .operator last, terms, params := ws, notes := n, bodyStart := start :
      Reader }.step t = .done (terms.close last) := by
    simp [Reader.step, Reader.closing, ht]
  have hnone : (n.allReports ws).any (·.isError) = false := by
    simpa [List.any_eq_false] using he
  cases htokens : ts₁ ++ ts₂ ++ t :: rest with
  | nil => simp at htokens
  | cons t₁ ts =>
    obtain ⟨last', hrun⟩ := run_of_takes file hd t₁.span htokens.symm htk
    rw [Description.ofTokens, hrun, finish]
    simp only [Notes.allReports] at hnone
    simp only [hnone, Bool.false_eq_true, if_false]
    exact ⟨_, rfl, rfl, rfl, rfl⟩

end TypeDesc
