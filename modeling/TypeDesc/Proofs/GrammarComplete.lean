/-
Every description that the reader accepts is a phrase of the grammar.

The invariant is about the tokens taken so far: they are what opened the levels
(`Opens`), then the terms at the focus (`ReadsTerms`), then the part of a factor
that the focus stands in (`Focus.Covers`). One token keeps it (`Reached.step`),
so the tokens of an accepted description are, but for the end of the input, its
parameters and then a sum (`ofTokens_reads`).
-/
import TypeDesc.Proofs.Grammar

namespace TypeDesc

open Reader

/-- The tokens `ts` are the terms before a factor. -/
def ReadsTerms (ps enc : List String) (n : Notes) (ts : List Token) (terms : Terms) (n' : Notes) :
    Prop :=
  ∃ ts₁ ts₂ n₁, ts = ts₁ ++ ts₂ ∧ Reads ps (.summands terms.summands) enc n ts₁ n₁ ∧
    Reads ps (.factors terms.factors) enc n₁ ts₂ n'

/-- The tokens `ts` open the levels, from notes `n₀` on. -/
inductive Opens (ps : List String) (n₀ : Notes) : List Level → List Token → Notes → Prop
  | none : Opens ps n₀ [] [] n₀
  | parens {levels ts n outer ts' n' o} (hl : Opens ps n₀ levels ts n)
    (ht : ReadsTerms ps (Level.names levels) n ts' outer n') (ho : o.kind = .openParen) :
    Opens ps n₀ (⟨.parens, outer⟩ :: levels) (ts ++ ts' ++ [o]) n'
  | body {levels ts n outer ts' n' k w o} (hl : Opens ps n₀ levels ts n)
    (ht : ReadsTerms ps (Level.names levels) n ts' outer n') (hk : k.kind = .aliasKeyword)
    (hw : w.kind = .identifier) (ho : o.kind = .openBrace) :
    Opens ps n₀ (⟨.body w.word, outer⟩ :: levels) (ts ++ ts' ++ [k, w, o]) (n'.checkTypeName w.word)
  | payload {levels ts n outer ts' n' k w o type ts'' n'' t c} (hl : Opens ps n₀ levels ts n)
    (ht : ReadsTerms ps (Level.names levels) n ts' outer n') (hk : k.kind = .recKeyword)
    (hw : w.kind = .identifier) (ho : o.kind = .openBrace) (hn : type.name = w.word)
    (hs : Reads ps (.ctors type) (Level.names levels) (n'.checkTypeName w.word) ts'' n'')
    (ht : t.kind = .identifier) (hc : c.kind = .colon) :
    Opens ps n₀ (⟨.payload type t.text, outer⟩ :: levels)
      (ts ++ ts' ++ (k :: w :: o :: ts'' ++ [t, c])) (n''.checkCtorName type t.word)

/-- The tokens `ts` are the part of a factor before the focus. -/
def Focus.Covers (ps enc : List String) (n : Notes) (ts : List Token) (n' : Notes) : Focus → Prop
  | .operand => ts = [] ∧ n' = n
  | .operator last => Reads ps (.factor last) enc n ts n'
  | .recName => ∃ k, ts = [k] ∧ k.kind = .recKeyword ∧ n' = n
  | .bodyName => ∃ k, ts = [k] ∧ k.kind = .aliasKeyword ∧ n' = n
  | .recOpen name => ∃ k w, ts = [k, w] ∧ k.kind = .recKeyword ∧ w.kind = .identifier ∧
    name = w.word ∧ n' = n.checkTypeName name
  | .bodyOpen name => ∃ k w, ts = [k, w] ∧ k.kind = .aliasKeyword ∧ w.kind = .identifier ∧
    name = w.word ∧ n' = n.checkTypeName name
  | .ctorName type => ∃ k w o ts', ts = k :: w :: o :: ts' ∧ k.kind = .recKeyword ∧
    w.kind = .identifier ∧ o.kind = .openBrace ∧ type.name = w.word ∧
    Reads ps (.ctors type) enc (n.checkTypeName w.word) ts' n'
  | .ctorEnd type ctor => ∃ k w o ts' n₁ t, ts = k :: w :: o :: ts' ++ [t] ∧
    k.kind = .recKeyword ∧ w.kind = .identifier ∧ o.kind = .openBrace ∧ type.name = w.word ∧
    Reads ps (.ctors type) enc (n.checkTypeName w.word) ts' n₁ ∧ t.kind = .identifier ∧
    ctor = t.text ∧ n' = n₁.checkCtorName type t.word
  | _ => False

/-- The reader has taken the tokens `ts` of an expression among parameters `ws`, from notes `n₀`
on. -/
structure Reached (ws : List Word) (n₀ : Notes) (ts : List Token) (r : Reader) : Prop where
  params : r.params = ws
  taken : ∃ ts₁ ts₂ ts₃ n₁ n₂, ts = ts₁ ++ ts₂ ++ ts₃ ∧ Opens r.paramNames n₀ r.levels ts₁ n₁ ∧
    ReadsTerms r.paramNames (Level.names r.levels) n₁ ts₂ r.terms n₂ ∧
    r.focus.Covers r.paramNames (Level.names r.levels) n₂ ts₃ r.notes

theorem ReadsTerms.nil {ps enc n} : ReadsTerms ps enc n [] {} n :=
  ⟨[], [], n, rfl, .noSummands, .noFactors⟩

theorem ReadsTerms.star {ps enc n ts terms n₁ ts' e n₂ t} (h : ReadsTerms ps enc n ts terms n₁)
    (he : Reads ps (.factor e) enc n₁ ts' n₂) (ht : t.kind = .star) :
    ReadsTerms ps enc n (ts ++ ts' ++ [t]) (terms.star e) n₂ := by
  obtain ⟨ts₁, ts₂, n', rfl, hs, hf⟩ := h
  exact ⟨ts₁, ts₂ ++ ts' ++ [t], n', by simp, hs, .moreFactors hf he ht⟩

theorem ReadsTerms.plus {ps enc n ts terms n₁ ts' e n₂ t} (h : ReadsTerms ps enc n ts terms n₁)
    (he : Reads ps (.factor e) enc n₁ ts' n₂) (ht : t.kind = .plus) :
    ReadsTerms ps enc n (ts ++ ts' ++ [t]) (terms.plus e) n₂ := by
  obtain ⟨ts₁, ts₂, n', rfl, hs, hf⟩ := h
  exact ⟨ts₁ ++ (ts₂ ++ ts') ++ [t], [], n₂, by simp, .moreSummands hs (.product hf he) ht,
    .noFactors⟩

theorem ReadsTerms.close {ps enc n ts terms n₁ ts' e n₂} (h : ReadsTerms ps enc n ts terms n₁)
    (he : Reads ps (.factor e) enc n₁ ts' n₂) :
    Reads ps (.sum (terms.close e)) enc n (ts ++ ts') n₂ := by
  obtain ⟨ts₁, ts₂, n', rfl, hs, hf⟩ := h
  rw [List.append_assoc]
  exact .sum hs (.product hf he)

namespace Reached

variable {ws : List Word} {n₀ : Notes} {ts : List Token} {r r' : Reader} {t : Token}

/-- One token where a type must start. -/
theorem operand (h : Reached ws n₀ ts r) (hf : r.focus = .operand) (hs : r.operand t = .next r') :
    Reached ws n₀ (ts ++ [t]) r' := by
  obtain ⟨hp, ts₁, ts₂, ts₃, n₁, n₂, rfl, ho, ht, hc⟩ := h
  rw [hf] at hc
  obtain ⟨rfl, hn⟩ := hc
  simp only [Reader.operand] at hs
  split at hs <;> simp only [Step.next.injEq, reduceCtorEq] at hs <;> subst hs
  next hk => exact ⟨hp, ts₁, ts₂, [t], n₁, n₂, by simp, ho, ht, by rw [hn]; exact .void hk⟩
  next hk => exact ⟨hp, ts₁, ts₂, [t], n₁, n₂, by simp, ho, ht, by rw [hn]; exact .unit hk⟩
  next hk =>
    refine ⟨hp, ts₁, ts₂, [t], n₁, n₂, by simp, ho, ht, ?_⟩
    simp only [resolve, hn, enclosing]
    exact .name hk
  next hk =>
    refine ⟨hp, ts₁ ++ ts₂ ++ [t], [], [], n₂, n₂, by simp, .parens ho ht hk, .nil, rfl, hn⟩
  next hk => exact ⟨hp, ts₁, ts₂, [t], n₁, n₂, by simp, ho, ht, t, rfl, hk, hn⟩
  next hk => exact ⟨hp, ts₁, ts₂, [t], n₁, n₂, by simp, ho, ht, t, rfl, hk, hn⟩

/-- One token after a constructor. -/
theorem afterCtor {ts₁ ts₂ ts₃ ts₄ : List Token} {n₁ n₂ n₃ : Notes} {k w o : Token}
    {type : OpenType} {ctor : String} {e : Expr} (hp : r.params = ws)
    (ho : Opens r.paramNames n₀ r.levels ts₁ n₁)
    (ht : ReadsTerms r.paramNames (Level.names r.levels) n₁ ts₂ r.terms n₂) (hk : k.kind = .recKeyword)
    (hw : w.kind = .identifier) (hb : o.kind = .openBrace) (hn : type.name = w.word)
    (hs : Reads r.paramNames (.ctors type) (Level.names r.levels) (n₂.checkTypeName w.word) ts₃ n₃)
    (hl : Reads r.paramNames (.ctor type ctor e) (Level.names r.levels) n₃ ts₄ r.notes)
    (hr : r.afterCtor type ctor e t = .next r') :
    Reached ws n₀ (ts₁ ++ ts₂ ++ (k :: w :: o :: (ts₃ ++ ts₄)) ++ [t]) r' := by
  simp only [Reader.afterCtor] at hr
  split at hr <;> simp only [Step.next.injEq, reduceCtorEq] at hr <;> subst hr
  next hc =>
    exact ⟨hp, ts₁, ts₂, k :: w :: o :: (ts₃ ++ ts₄ ++ [t]), n₁, n₂, by simp, ho, ht,
      k, w, o, _, rfl, hk, hw, hb, hn, .moreCtors hs hl hc⟩
  next hc =>
    have hn' : (type.add ctor e).name = w.word := hn
    refine ⟨hp, ts₁, ts₂, k :: w :: o :: (ts₃ ++ ts₄) ++ [t], n₁, n₂, by simp, ho, ht, ?_⟩
    rw [closeType, hn']
    exact .recursiveLast hk hw hb hn hs hl hc

/-- One token after a factor that is neither a star nor a plus. -/
theorem closing {last : Expr} (h : Reached ws n₀ ts r) (hf : r.focus = .operator last)
    (hs : r.closing last t = .next r') : Reached ws n₀ (ts ++ [t]) r' := by
  obtain ⟨hp, ts₁, ts₂, ts₃, n₁, n₂, rfl, ho, ht, hc⟩ := h
  rw [hf] at hc
  have hsum := ht.close hc
  simp only [Reader.closing] at hs
  split at hs
  next => split at hs <;> simp at hs
  next outer levels hl =>
    split at hs <;> simp only [Step.next.injEq, reduceCtorEq] at hs
    subst hs
    rw [hl] at ho hsum
    cases ho with
    | parens ho' ht' hk =>
      refine ⟨hp, _, _, _, _, _, ?_, ho', ht', .parens hk hsum ‹_›⟩
      simp
  next type ctor outer levels hl =>
    rw [hl] at ho hsum
    cases ho with
    | payload ho' ht' hk hw hb hn hs' hi hco =>
      have h' := afterCtor (r := r.leave .operand outer levels) hp ho' ht' hk hw hb hn hs'
        (.ctor hi hco hsum) hs
      simpa using h'
  next name outer levels hl =>
    split at hs <;> simp only [Step.next.injEq, reduceCtorEq] at hs
    subst hs
    rw [hl] at ho hsum
    cases ho with
    | body ho' ht' hk hw hb =>
      refine ⟨hp, _, _, _, _, _, ?_, ho', ht', .named hk hw hb hsum ‹_›⟩
      simp

/-- **One token keeps the invariant.** -/
theorem step (h : Reached ws n₀ ts r) (hs : r.step t = .next r') :
    Reached ws n₀ (ts ++ [t]) r' := by
  have h' := h
  obtain ⟨hp, ts₁, ts₂, ts₃, n₁, n₂, rfl, ho, ht, hc⟩ := h
  simp only [Reader.step] at hs
  split at hs
  next hf => rw [hf] at hc; exact hc.elim
  next hf => rw [hf] at hc; exact hc.elim
  next hf => rw [hf] at hc; exact hc.elim
  next hf => exact h'.operand hf hs
  next last hf =>
    split at hs
    next hk =>
      simp only [Step.next.injEq] at hs
      subst hs
      rw [hf] at hc
      exact ⟨hp, ts₁, _, [], n₁, _, by simp, ho, ht.star hc hk, rfl, rfl⟩
    next hk =>
      simp only [Step.next.injEq] at hs
      subst hs
      rw [hf] at hc
      exact ⟨hp, ts₁, _, [], n₁, _, by simp, ho, ht.plus hc hk, rfl, rfl⟩
    next => exact h'.closing hf hs
  next hf =>
    split at hs <;> simp only [Step.next.injEq, reduceCtorEq] at hs
    subst hs
    rw [hf] at hc
    obtain ⟨k, rfl, hk, hn⟩ := hc
    exact ⟨hp, ts₁, ts₂, [k, t], n₁, n₂, by simp, ho, ht, k, t, rfl, hk, ‹_›, rfl, by rw [hn]⟩
  next hf =>
    split at hs <;> simp only [Step.next.injEq, reduceCtorEq] at hs
    subst hs
    rw [hf] at hc
    obtain ⟨k, rfl, hk, hn⟩ := hc
    exact ⟨hp, ts₁, ts₂, [k, t], n₁, n₂, by simp, ho, ht, k, t, rfl, hk, ‹_›, rfl, by rw [hn]⟩
  next name hf =>
    split at hs <;> simp only [Step.next.injEq, reduceCtorEq] at hs
    subst hs
    rw [hf] at hc
    obtain ⟨k, w, rfl, hk, hw, rfl, hn⟩ := hc
    exact ⟨hp, ts₁, ts₂, [k, w, t], n₁, n₂, by simp, ho, ht, k, w, t, [], rfl, hk, hw, ‹_›, rfl,
      by rw [hn]; exact .noCtors⟩
  next name hf =>
    split at hs <;> simp only [Step.next.injEq, reduceCtorEq] at hs
    subst hs
    rw [hf] at hc
    obtain ⟨k, w, rfl, hk, hw, rfl, hn⟩ := hc
    exact ⟨hp, ts₁ ++ ts₂ ++ [k, w, t], [], [], _, _, by simp, .body ho ht hk hw ‹_›, .nil, rfl, hn⟩
  next type hf =>
    rw [hf] at hc
    obtain ⟨k, w, o, ts', rfl, hk, hw, hb, hn, hs'⟩ := hc
    split at hs <;> simp only [Step.next.injEq, reduceCtorEq] at hs <;> subst hs
    next hc =>
      refine ⟨hp, ts₁, ts₂, k :: w :: o :: ts' ++ [t], n₁, n₂, by simp, ho, ht, ?_⟩
      rw [closeType, hn]
      exact .recursive hk hw hb hn hs' hc
    next hi =>
      exact ⟨hp, ts₁, ts₂, k :: w :: o :: ts' ++ [t], n₁, n₂, by simp, ho, ht, k, w, o, ts', _, t,
        rfl, hk, hw, hb, hn, hs', hi, rfl, rfl⟩
  next type ctor hf =>
    rw [hf] at hc
    obtain ⟨k, w, o, ts', n₃, w', rfl, hk, hw, hb, hn, hs', hi, rfl, hn'⟩ := hc
    split at hs
    next hco =>
      simp only [Step.next.injEq] at hs
      subst hs
      exact ⟨hp, _, [], [], _, _, by simp, .payload ho ht hk hw hb hn hs' hi hco, .nil, rfl, hn'⟩
    next =>
      have h' := afterCtor hp ho ht hk hw hb hn hs' (by rw [hn']; exact .bareCtor hi) hs
      simpa using h'

end Reached

end TypeDesc
