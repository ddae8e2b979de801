/-
The reader is exact: it refuses a list of tokens only where no sentence of the
grammar goes on.

Whatever the reader has taken, it could still come to an end
(`Reader.completable`). A token at which it stops cannot be part of a sentence
that starts with the tokens before, since all that a tree derives is accepted.
With the one way in which a run can end at a list with a single end of input
(`run_cases`), this gives `grammar_exact`.
-/
import Mathlib.Order.Bounds.Defs
import TypeDesc.Proofs.NamesChecked

namespace TypeDesc

open Reader

/-! ## Completion -/

/-- Some token of a kind. -/
def TokenKind.token (kind : TokenKind) : Token :=
  ⟨kind, "", Position.start.span ""⟩

@[simp] theorem TokenKind.token_kind (kind : TokenKind) : kind.token.kind = kind := rfl

namespace Reader

/-- Some tokens lead from `r` to the end of a description. -/
def Completable (r : Reader) : Prop :=
  ∃ ts t r' body, r.takes ts = some r' ∧ r'.step t = .done body

theorem Completable.cons {r r' : Reader} (kind : TokenKind) (hs : r.step kind.token = .next r')
    (h : r'.Completable) : r.Completable := by
  obtain ⟨ts, t, r'', body, htk, hd⟩ := h
  exact ⟨kind.token :: ts, t, r'', body, (takes_cons hs ts).trans htk, hd⟩

/-- Behind a factor, the ends of all open levels may follow: the induction is on the levels. -/
theorem completable_operator (levels : List Level) : ∀ {r : Reader} {last : Expr},
    r.focus = .operator last → r.levels = levels → r.Completable := by
  induction levels with
  | nil =>
    intro r last hf hl
    have hd : r.step TokenKind.endOfInput.token = .done (r.terms.close last) := by
      simp [step, closing, hf, hl]
    exact ⟨[], TokenKind.endOfInput.token, r, _, rfl, hd⟩
  | cons level levels ih =>
    intro r last hf hl
    obtain ⟨enclosure, outer⟩ := level
    cases enclosure with
    | parens =>
      have hs : r.step TokenKind.closeParen.token =
          .next (r.leave (.operator (r.terms.close last)) outer levels) := by
        simp [step, closing, hf, hl]
      exact .cons _ hs (ih rfl rfl)
    | payload type ctor =>
      have hs : r.step TokenKind.closeBrace.token =
          .next ((r.leave .operand outer levels).closeType
            (type.add ctor (r.terms.close last))) := by
        simp [step, closing, afterCtor, hf, hl]
      exact .cons _ hs (ih rfl rfl)
    | body name =>
      have hs : r.step TokenKind.closeBrace.token =
          .next ((r.leave .operand outer levels).closeBody name (r.terms.close last)) := by
        simp [step, closing, hf, hl]
      exact .cons _ hs (ih rfl rfl)

/-- **The reader can always come to an end**, at every focus by the shortest phrase. -/
theorem completable (r : Reader) : r.Completable := by
  have operator : ∀ {r : Reader} {last : Expr}, r.focus = .operator last → r.Completable :=
    fun hf => completable_operator _ hf rfl
  have operand : ∀ {r : Reader}, r.focus = .operand → r.Completable := fun hf =>
    .cons .unit (by simp only [step, hf, Reader.operand, TokenKind.token_kind]; rfl) (operator rfl)
  have paramEnd : ∀ {r : Reader}, r.focus = .paramEnd → r.Completable := fun hf =>
    .cons .unit (by simp [step, hf, beginBody, Reader.operand]; rfl) (operator rfl)
  have ctorName : ∀ {r : Reader} {type : OpenType}, r.focus = .ctorName type → r.Completable :=
    fun hf => .cons .closeBrace (by simp only [step, hf, TokenKind.token_kind]; rfl) (operator rfl)
  have recOpen : ∀ {r : Reader} {name : Word}, r.focus = .recOpen name → r.Completable := fun hf =>
    .cons .openBrace (by simp [step, hf]; rfl) (ctorName rfl)
  have bodyOpen : ∀ {r : Reader} {name : Word}, r.focus = .bodyOpen name → r.Completable :=
    fun hf => .cons .openBrace (by simp [step, hf]; rfl) (operand rfl)
  cases hf : r.focus with
  | start => exact .cons .unit (by simp [step, hf, beginBody, Reader.operand]; rfl) (operator rfl)
  | paramName => exact .cons .identifier (by simp [step, hf]; rfl) (paramEnd rfl)
  | paramEnd => exact paramEnd hf
  | operand => exact operand hf
  | operator last => exact operator hf
  | recName => exact .cons .identifier (by simp [step, hf]; rfl) (recOpen rfl)
  | bodyName => exact .cons .identifier (by simp [step, hf]; rfl) (bodyOpen rfl)
  | recOpen name => exact recOpen hf
  | bodyOpen name => exact bodyOpen hf
  | ctorName type => exact ctorName hf
  | ctorEnd type ctor =>
    exact .cons .closeBrace (by simp [step, hf, afterCtor]; rfl) (operator rfl)

end Reader

/-- What the reader takes is the start of a sentence. -/
theorem viable_of_takes {ts : List Token} {r : Reader} (h : ({} : Reader).takes ts = some r) :
    Viable (ts.map (·.kind)) := by
  obtain ⟨us, t, r', body, htk, hd⟩ := r.completable
  have ha : Accepts (ts ++ us ++ [t]) r' body := ⟨ts ++ us, t, rfl, (takes_append h us).trans htk, hd⟩
  refine ⟨(us ++ [t]).map (·.kind), ?_⟩
  rw [← List.map_append, ← List.append_assoc]
  exact inGrammar_iff_accepts.2 ⟨r', body, ha⟩

/-- A list that goes on with a token at which the reader stops is not accepted. -/
theorem not_accepts_of_stop {ts us : List Token} {t : Token} {r r' : Reader} {expected : Expected}
    {body : Expr} (h : ({} : Reader).takes ts = some r) (hs : r.step t = .stop expected) :
    ¬ Accepts (ts ++ t :: us) r' body := by
  rintro ⟨vs, t', hts, htk, hd⟩
  rcases List.eq_nil_or_concat us with rfl | ⟨us, u, rfl⟩
  · obtain ⟨rfl, rfl⟩ : ts = vs ∧ t = t' := by simpa using hts
    rw [h] at htk
    cases htk
    rw [hs] at hd
    cases hd
  · obtain ⟨rfl, rfl⟩ : ts ++ t :: us = vs ∧ u = t' := by
      rw [← List.append_singleton_inj]
      simpa using hts
    rw [takes_append h, takes, hs] at htk
    cases htk

/-- **A token at which the reader stops starts nothing**: no sentence goes on with it. -/
theorem not_viable_of_stop {ts : List Token} {t : Token} {r : Reader} {expected : Expected}
    (h : ({} : Reader).takes ts = some r) (hs : r.step t = .stop expected) :
    ¬ Viable ((ts ++ [t]).map (·.kind)) := by
  rintro ⟨rest, hg⟩
  have hkinds : (ts ++ [t]).map (·.kind) ++ rest =
      (ts ++ t :: rest.map (·.token)).map (·.kind) := by
    simp [Function.comp_def]
  rw [hkinds] at hg
  obtain ⟨r', body, ha⟩ := inGrammar_iff_accepts.1 hg
  exact not_accepts_of_stop h hs ha

/-! ## How a run ends -/

/-- A run ends at the end of a description, at a token that does not fit, or with its last token
taken again. -/
theorem run_cases (file : String) : ∀ (ts : List Token) (r : Reader) (last : Span) (t : Token),
    (∃ ts₁ t' ts₂ r' body last', t :: ts = ts₁ ++ t' :: ts₂ ∧ r.takes ts₁ = some r' ∧
      r'.step t' = .done body ∧ run file r last t ts = r'.finish file body last') ∨
    (∃ ts₁ t' ts₂ r' expected, t :: ts = ts₁ ++ t' :: ts₂ ∧ r.takes ts₁ = some r' ∧
      r'.step t' = .stop expected ∧ run file r last t ts = .error (r'.stopped expected t')) ∨
    (∃ ts₁ t' r₁ r', t :: ts = ts₁ ++ [t'] ∧ r.takes ts₁ = some r₁ ∧ r₁.step t' = .next r' ∧
      run file r last t ts = .error (r'.takeAgain t' (r'.levels.length + 3))) := by
  intro ts
  induction ts with
  | nil =>
    intro r last t
    cases hs : r.step t with
    | done body => exact .inl ⟨[], t, [], r, body, last, rfl, rfl, hs, by rw [run, hs]⟩
    | stop expected =>
      exact .inr (.inl ⟨[], t, [], r, expected, rfl, rfl, hs, by rw [run, hs]⟩)
    | next r' => exact .inr (.inr ⟨[], t, r, r', rfl, rfl, hs, by rw [run, hs]⟩)
  | cons t₂ ts ih =>
    intro r last t
    cases hs : r.step t with
    | done body => exact .inl ⟨[], t, t₂ :: ts, r, body, last, rfl, rfl, hs, by rw [run, hs]⟩
    | stop expected =>
      exact .inr (.inl ⟨[], t, t₂ :: ts, r, expected, rfl, rfl, hs, by rw [run, hs]⟩)
    | next r' =>
      have hrun : run file r last t (t₂ :: ts) = run file r' t.span t₂ ts := by rw [run, hs]
      rw [hrun]
      rcases ih r' t.span t₂ with ⟨ts₁, t', ts₂, r'', body, last', hts, htk, hd, h⟩ |
        ⟨ts₁, t', ts₂, r'', expected, hts, htk, hd, h⟩ | ⟨ts₁, t', r₁, r'', hts, htk, hd, h⟩
      · exact .inl ⟨t :: ts₁, t', ts₂, r'', body, last', by rw [hts]; rfl,
          (takes_cons hs ts₁).trans htk, hd, h⟩
      · exact .inr (.inl ⟨t :: ts₁, t', ts₂, r'', expected, by rw [hts]; rfl,
          (takes_cons hs ts₁).trans htk, hd, h⟩)
      · exact .inr (.inr ⟨t :: ts₁, t', r₁, r'', by rw [hts]; rfl,
          (takes_cons hs ts₁).trans htk, hd, h⟩)

/-- The end of the input is never followed by more. -/
theorem step_endOfInput {r r' : Reader} {t : Token} (ht : t.kind = .endOfInput) :
    r.step t ≠ .next r' := by
  intro h
  have hoperand : ∀ r : Reader, r.operand t ≠ .next r' := by simp [Reader.operand, ht]
  have hafter : ∀ (r : Reader) type ctor e, r.afterCtor type ctor e t ≠ .next r' := by
    simp [afterCtor, ht]
  simp only [Reader.step, beginBody, closing, ht] at h
  split at h <;> simp [hoperand, hafter] at h
  split at h <;> simp [hafter] at h

/-! ## What is reported before a run ends -/

/-- The codes of what is reported about names while a description is read. -/
def nameCodes : List String :=
  ["E201", "E202", "E203", "E204", "E205", "E206", "W301"]

/-- All reports are about names. -/
def Notes.OnNames (n : Notes) : Prop :=
  ∀ report ∈ n.reports, report.finding.code ∈ nameCodes

namespace Notes.OnNames

variable {n : Notes} (h : n.OnNames)
include h

theorem report {finding : Finding} (hf : finding.code ∈ nameCodes) (span : Span) :
    (n.report finding span).OnNames := by
  intro report hm
  simp only [Notes.report, List.mem_append, List.mem_singleton] at hm
  rcases hm with hm | rfl
  · exact h report hm
  · exact hf

theorem mention (enc ps : List String) (w : Word) : (n.mention enc ps w).OnNames := by
  simp only [Notes.mention]
  split
  · simp only [Notes.use]
    split <;> exact h
  · exact h.report (by simp [Finding.code, nameCodes]) _

theorem checkParam (earlier : List Word) (w : Word) : (n.checkParam earlier w).OnNames := by
  simp only [Notes.checkParam]
  split
  · exact h.report (by simp [Finding.code, nameCodes]) _
  · exact h

theorem checkTypeName (w : Word) : (n.checkTypeName w).OnNames := by
  simp only [Notes.checkTypeName]
  split
  · exact h.report (by simp [Finding.code, nameCodes]) _
  · exact h

theorem checkCtorName (type : OpenType) (w : Word) : (n.checkCtorName type w).OnNames := by
  simp only [Notes.checkCtorName]
  split
  · exact h.report (by simp [Finding.code, nameCodes]) _
  · split
    · exact h.report (by simp [Finding.code, nameCodes]) _
    · exact h

theorem record (name : Word) (type : Expr) : (n.record name type).OnNames := by
  simp only [Notes.record]
  split
  · exact h
  · split
    · exact h.report (by simp [Finding.code, nameCodes]) _
    · split
      · exact h.report (by simp [Finding.code, nameCodes]) _
      · exact h

end Notes.OnNames

theorem operand_onNames {r r' : Reader} {t : Token} (h : r.notes.OnNames)
    (hs : r.operand t = .next r') : r'.notes.OnNames := by
  simp only [Reader.operand] at hs
  split at hs <;> cases hs
  · exact h
  · exact h
  · exact h.mention _ _ _
  · exact h
  · exact h
  · exact h

theorem afterCtor_onNames {r r' : Reader} {type : OpenType} {ctor : String} {e : Expr} {t : Token}
    (h : r.notes.OnNames) (hs : r.afterCtor type ctor e t = .next r') : r'.notes.OnNames := by
  simp only [afterCtor] at hs
  split at hs <;> cases hs
  · exact h
  · exact h.record _ _

theorem closing_onNames {r r' : Reader} {last : Expr} {t : Token} (h : r.notes.OnNames)
    (hs : r.closing last t = .next r') : r'.notes.OnNames := by
  simp only [closing] at hs
  split at hs
  next => split at hs <;> cases hs
  next => split at hs <;> cases hs; exact h
  next =>
    refine afterCtor_onNames ?_ hs
    exact h
  next => split at hs <;> cases hs; exact h.record _ _

/-- A token that fits leads to reports about names only. -/
theorem step_onNames {r r' : Reader} {t : Token} (h : r.notes.OnNames)
    (hs : r.step t = .next r') : r'.notes.OnNames := by
  have hbegin : r.beginBody t = .next r' → r'.notes.OnNames := by
    intro hs
    refine operand_onNames ?_ hs
    exact h
  simp only [Reader.step] at hs
  split at hs
  next => split at hs; cases hs; exact h; exact hbegin hs
  next => split at hs <;> cases hs; exact h.checkParam _ _
  next => split at hs; cases hs; exact h; exact hbegin hs
  next => exact operand_onNames h hs
  next =>
    split at hs
    · cases hs; exact h
    · cases hs; exact h
    · exact closing_onNames h hs
  next => split at hs <;> cases hs; exact h.checkTypeName _
  next => split at hs <;> cases hs; exact h.checkTypeName _
  next => split at hs <;> cases hs; exact h
  next => split at hs <;> cases hs; exact h
  next =>
    split at hs <;> cases hs
    · exact h.record _ _
    · exact h.checkCtorName _ _
  next =>
    split at hs
    · cases hs; exact h
    · exact afterCtor_onNames h hs

theorem takes_onNames {ts : List Token} : ∀ {r r' : Reader}, r.notes.OnNames →
    r.takes ts = some r' → r'.notes.OnNames := by
  induction ts with
  | nil =>
    intro r r' h hs
    cases hs
    exact h
  | cons t ts ih =>
    intro r r' h hs
    rw [takes] at hs
    split at hs
    next r₁ hr₁ => exact ih (step_onNames h hr₁) hs
    next => cases hs

theorem allReports_codes {n : Notes} (h : n.OnNames) (ws : List Word) :
    ∀ report ∈ n.allReports ws, report.finding.code ∈ "W300" :: nameCodes := by
  intro report hm
  rcases List.mem_append.1 hm with hm | hm
  · exact List.mem_cons_of_mem _ (h report hm)
  · simp only [Notes.unusedParams, List.mem_map] at hm
    obtain ⟨_, -, rfl⟩ := hm
    simp [Report.located, Finding.code]

/-! ## Exactness -/

/-- All reports of an attempt to read a description: its warnings, or those that reject it. -/
def reportsOf : Except ReadError (Description × List Report) → List Report
  | .ok (_, warnings) => warnings
  | .error (.rejected reports) => reports
  | .error .noTokens => []

/-- The end of the input is the last token of the list, and no other. -/
def EndsOnce (tokens : List Token) : Prop :=
  ∃ ts eof, tokens = ts ++ [eof] ∧ eof.kind = .endOfInput ∧ ∀ t ∈ ts, t.kind ≠ .endOfInput

theorem EndsOnce.last {tokens ts us : List Token} {t : Token} (h : EndsOnce tokens)
    (hsplit : tokens = ts ++ t :: us) (ht : t.kind = .endOfInput) : us = [] := by
  obtain ⟨vs, eof, rfl, -, hvs⟩ := h
  rcases List.eq_nil_or_concat us with rfl | ⟨us, u, rfl⟩
  · rfl
  · have hinit : vs ++ [eof] = (ts ++ t :: us) ++ [u] := by simpa using hsplit
    obtain ⟨rfl, -⟩ := List.append_singleton_inj.1 hinit
    exact absurd ht (hvs t (by simp))

/-- A list that is no sentence is rejected at a token where the reader stops. -/
theorem ofTokens_of_not_inGrammar (file : String) {tokens : List Token} (h : EndsOnce tokens)
    (hg : ¬ InGrammar (tokens.map (·.kind))) :
    ∃ before t after r expected, tokens = before ++ t :: after ∧
      ({} : Reader).takes before = some r ∧ r.step t = .stop expected ∧
      Description.ofTokens file tokens = .error (.rejected (r.stopped expected t)) := by
  cases tokens with
  | nil =>
    obtain ⟨ts, eof, hts, -⟩ := h
    simp at hts
  | cons t₁ rest =>
    rw [Description.ofTokens]
    rcases run_cases file rest {} t₁.span t₁ with
      ⟨ts₁, t, ts₂, r, body, last, hsplit, htk, hd, -⟩ |
      ⟨ts₁, t, ts₂, r, expected, hsplit, htk, hs, hrun⟩ | ⟨ts₁, t, r, r', hsplit, htk, hs, -⟩
    · exfalso
      obtain rfl := h.last hsplit (step_done hd).1
      exact hg (inGrammar_iff_accepts.2 ⟨r, body, ts₁, t, hsplit, htk, hd⟩)
    · exact ⟨ts₁, t, ts₂, r, expected, hsplit, htk, hs, by rw [hrun, mapError_error]⟩
    · exfalso
      obtain ⟨ts, eof, hts, heof, -⟩ := h
      obtain ⟨-, rfl⟩ := List.append_singleton_inj.1 (hsplit.symm.trans hts)
      exact step_endOfInput heof hs

/-- A bound name stands for the least index at which it is in scope. -/
theorem Expr.ofName_least {scope : List String} {name : String} (h : name ∈ scope) :
    ∃ i, Expr.ofName scope name = .var i ∧ IsLeast {j | scope[j]? = some name} i := by
  cases hi : scope.idxOf? name with
  | none => exact absurd h (List.idxOf?_eq_none_iff.1 hi)
  | some i =>
    obtain ⟨hlt, heq, hmin⟩ := List.findIdx?_eq_some_iff_getElem.1 hi
    refine ⟨i, by simp only [Expr.ofName, hi], ?_, ?_⟩
    · exact List.getElem?_eq_some_iff.2 ⟨hlt, by simpa using heq⟩
    · intro j hj
      obtain ⟨hjlt, hname⟩ := List.getElem?_eq_some_iff.1 hj
      by_contra hji
      exact hmin j (Nat.lt_of_not_le hji) (by simp [hname])

/-- What is noted on a sentence is about names. -/
theorem SourceTree.notes_onNames {tokens : List Token} {tree : SourceTree}
    (h : terminalsOf tokens = tree.terminals) : tree.notes.OnNames := by
  have hkinds : tokens.map (·.kind) = tree.terminals.map (·.kind) := by
    rw [← h, Token.kinds_terminalsOf]
  obtain ⟨r, body, ha⟩ := SourceTree.accepts hkinds
  obtain ⟨tree', hts, -, hn, -⟩ := ha.tree
  obtain rfl : tree' = tree := SourceTree.ext_terminals (hts.symm.trans h)
  obtain ⟨ts, t, rfl, htk, -⟩ := ha
  exact hn ▸ takes_onNames (by simp [Notes.OnNames]) htk

/-- What is reported on a sentence is about names and parameters. -/
theorem reportsOf_tree (file : String) {tokens : List Token} {tree : SourceTree}
    (h : terminalsOf tokens = tree.terminals) :
    ∀ report ∈ reportsOf (Description.ofTokens file tokens),
      report.finding.code ∈ "W300" :: nameCodes := by
  obtain ⟨d, -, -, heq⟩ := tree.ofTokens_eq file h
  have hreports : reportsOf (Description.ofTokens file tokens) =
      tree.notes.allReports tree.params := by
    rw [heq]
    split <;> rfl
  rw [hreports]
  exact allReports_codes (SourceTree.notes_onNames h) _

/-- **The reader is exact.** It reports a token exactly if the kinds are no sentence of the grammar;
this is then its last report, and the token is the first with which no sentence starts. What is
returned otherwise is the meaning of the one tree that derives the tokens, and each name in it stands
for its first place in scope. -/
theorem grammar_exact (file : String) {tokens : List Token} (h : EndsOnce tokens) :
    ((∃ report ∈ reportsOf (Description.ofTokens file tokens), report.finding.code = "E200") ↔
      ¬ InGrammar (tokens.map (·.kind))) ∧
    (¬ InGrammar (tokens.map (·.kind)) →
      ∃ before t after reports expected, tokens = before ++ t :: after ∧
        Description.ofTokens file tokens =
          .error (.rejected (reports ++ [⟨.unexpected expected t.text, some t.span⟩])) ∧
        (∀ report ∈ reports, report.finding.code ≠ "E200") ∧
        Viable (before.map (·.kind)) ∧ ¬ Viable ((before ++ [t]).map (·.kind))) ∧
    (InGrammar (tokens.map (·.kind)) →
      ∃ tree : SourceTree, tree.terminals = terminalsOf tokens ∧
        (∀ tree' : SourceTree, tree'.terminals = terminalsOf tokens → tree' = tree) ∧
        ∀ d w, Description.ofTokens file tokens = .ok (d, w) →
          d.params = tree.paramNames ∧ d.body = tree.meaning ∧
          ∀ use ∈ tree.uses, ∃ i, Expr.ofName use.1 use.2.text = .var i ∧
            IsLeast {j | use.1[j]? = some use.2.text} i) := by
  refine ⟨⟨?_, ?_⟩, ?_, ?_⟩
  · rintro ⟨report, hm, hc⟩ hg
    obtain ⟨tree, hts⟩ := hg.tree
    have hcode := reportsOf_tree file hts report hm
    rw [hc] at hcode
    exact absurd hcode (by decide)
  · intro hg
    obtain ⟨before, t, after, r, expected, -, -, -, heq⟩ := ofTokens_of_not_inGrammar file h hg
    refine ⟨.located (.unexpected expected t.text) t.span, ?_, rfl⟩
    rw [heq]
    simp [reportsOf, stopped]
  · intro hg
    obtain ⟨before, t, after, r, expected, hsplit, htk, hs, heq⟩ :=
      ofTokens_of_not_inGrammar file h hg
    refine ⟨before, t, after, r.notes.reports, expected, hsplit, heq, ?_, viable_of_takes htk,
      not_viable_of_stop htk hs⟩
    intro report hm hc
    have hon : r.notes.OnNames := takes_onNames (by simp [Notes.OnNames]) htk
    have hcode := hon report hm
    rw [hc] at hcode
    exact absurd hcode (by decide)
  · intro hg
    obtain ⟨tree, hts⟩ := hg.tree
    refine ⟨tree, hts.symm, fun tree' h' => SourceTree.ext_terminals (h'.trans hts), ?_⟩
    intro d w hok
    obtain ⟨d', hparams, hbody, heq⟩ := tree.ofTokens_eq file hts
    rw [hok] at heq
    split at heq
    next => cases heq
    next herr =>
      obtain ⟨rfl, -⟩ : d = d' ∧ _ := by simpa using heq
      refine ⟨hparams, hbody, fun use hu => Expr.ofName_least ?_⟩
      have hm := tree.notes_clean_iff.1 ((Notes.any_allReports _ _).1 (by simpa using herr))
      exact not_not.1 fun hw => hm (.unbound hu hw)

/-- A missing alternative is found at the brace behind the plus, where a type must start. -/
theorem grammar_exact_missing : ∃ tokens before t after,
    Token.scan "b.tyd" "alias b \x7b unit + \x7d * c" = .ok tokens ∧ EndsOnce tokens ∧
      tokens = before ++ t :: after ∧ t.span.startCol = 18 ∧
      Viable (before.map (·.kind)) ∧ ¬ Viable ((before ++ [t]).map (·.kind)) := by
  obtain ⟨tokens, hscan, hread⟩ := exists_ok_of_any
    (Token.scan "b.tyd" "alias b \x7b unit + \x7d * c") (fun tokens =>
      tokens.map (·.kind) == [.aliasKeyword, .identifier, .openBrace, .unit, .plus, .closeBrace,
        .star, .identifier] ++ [.endOfInput] &&
      ((reportsOf (Description.ofTokens "b.tyd" tokens)).getLast?.any fun report =>
        report.finding.code == "E200" && report.span.any (·.startCol == 18))) (by decide +kernel)
  simp only [Bool.and_eq_true, beq_iff_eq] at hread
  obtain ⟨hkinds, hlast⟩ := hread
  have hends : EndsOnce tokens := by
    obtain ⟨ts, _, rfl, hts, hrest⟩ := List.map_eq_append_iff.1 hkinds
    obtain ⟨eof, rfl, heof⟩ := List.map_eq_singleton_iff.1 hrest
    refine ⟨ts, eof, rfl, heof, fun t ht he => ?_⟩
    have hmem := List.mem_map_of_mem (f := (·.kind)) ht
    rw [hts, he] at hmem
    exact absurd hmem (by decide)
  obtain ⟨hiff, hstop, -⟩ := grammar_exact "b.tyd" hends
  cases hl : (reportsOf (Description.ofTokens "b.tyd" tokens)).getLast? with
  | none => simp [hl] at hlast
  | some report =>
    simp only [hl, Option.any_some, Bool.and_eq_true, beq_iff_eq] at hlast
    have hg := hiff.1 ⟨report, List.mem_of_getLast? hl, hlast.1⟩
    obtain ⟨before, t, after, reports, expected, hsplit, heq, -, hv, hnv⟩ := hstop hg
    simp only [heq, reportsOf, List.getLast?_append, List.getLast?_singleton, Option.some_or,
      Option.some.injEq] at hl
    subst hl
    exact ⟨tokens, before, t, after, hscan, hends, hsplit, by simpa using hlast.2, hv, hnv⟩

end TypeDesc
