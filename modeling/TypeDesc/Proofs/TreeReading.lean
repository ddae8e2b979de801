/-
The reader and the parse trees. What the reader accepts is what some tree
derives, with the meaning of the tree as its expression and with the notes that
follow from the tree (`Accepts.tree`); and it accepts all that a tree derives
(`inGrammar_iff_accepts`), since it depends on the kinds of tokens alone whether
they fit.

So the outcome of reading the tokens of a tree is known from the tree alone:
`SourceTree.ofTokens_eq`.
-/
import Mathlib.Data.List.Induction
import TypeDesc.Proofs.Accepted
import TypeDesc.Proofs.ParseTree

namespace TypeDesc

open Reader

/-! ## Notes of a tree -/

/-- What is known around a phrase: of constructors, the type that they belong to. -/
abbrev Nonterminal.Context : Nonterminal → Type
  | .ctor | .ctors => OpenType
  | _ => Unit

namespace ParseTree

/-- What is noted about the names of a tree among parameters `ps` and inside the recursive types
`enc`. -/
@[simp] def note (ps : List String) :
    {k : Nonterminal} → ParseTree k → k.Context → List String → Notes → Notes
  | _, .void, _, _, n => n
  | _, .unit, _, _, n => n
  | _, .mention word, _, enc, n => n.mention enc ps word
  | _, .parens inner, _, enc, n => inner.note ps () enc n
  | _, .recursive name ctors, _, enc, n =>
    (ctors.note ps { name } (name.text :: enc) (n.checkTypeName name)).record name
      (.recursive name.text (ctors.meaning (name.text :: (enc ++ ps))))
  | _, .named name body, _, enc, n =>
    (body.note ps () enc (n.checkTypeName name)).record name
      (.named name.text (body.meaning (enc ++ ps)))
  | _, .noStars, _, _, n => n
  | _, .star next more, _, enc, n => more.note ps () enc (next.note ps () enc n)
  | _, .product first more, _, enc, n => more.note ps () enc (first.note ps () enc n)
  | _, .noPluses, _, _, n => n
  | _, .plus next more, _, enc, n => more.note ps () enc (next.note ps () enc n)
  | _, .sum first more, _, enc, n => more.note ps () enc (first.note ps () enc n)
  | _, .bareCtor name, type, _, n => n.checkCtorName type name
  | _, .ctor name payload, type, enc, n => payload.note ps () enc (n.checkCtorName type name)
  | _, .noCtors, _, _, n => n
  | _, .lastCtor last, type, enc, n => last.note ps type enc n
  | _, .moreCtors first more, type, enc, n =>
    let ctor := first.meaning (enc ++ ps)
    more.note ps (type.add ctor.name ctor.payload) enc (first.note ps type enc n)

/-- The factors of a product. -/
def factors (scope : List String) : ParseTree .product → List Expr
  | .product first more => first.meaning scope :: more.meaning scope

/-- The products of a sum. -/
def summands (scope : List String) : ParseTree .sum → List Expr
  | .sum first more => first.meaning scope :: more.meaning scope

/-- A product with one more factor in front. -/
def times (factor : ParseTree .factor) : ParseTree .product → ParseTree .product
  | .product first more => .product factor (.star first more)

/-- A sum with one more product in front. -/
def orElse (product : ParseTree .product) : ParseTree .sum → ParseTree .sum
  | .sum first more => .sum product (.plus first more)

section
variable (factor : ParseTree .factor) (product : ParseTree .product) (sum : ParseTree .sum)
  (scope ps enc : List String) (n : Notes)

@[simp] theorem terminals_times :
    (factor.times product).terminals = factor.terminals ++ .mark .star :: product.terminals := by
  cases product with
  | product first more => simp [times, terminals]

@[simp] theorem factors_times :
    (factor.times product).factors scope = factor.meaning scope :: product.factors scope := by
  cases product with
  | product first more => rfl

@[simp] theorem note_times : (factor.times product).note ps () enc n =
    product.note ps () enc (factor.note ps () enc n) := by
  cases product with
  | product first more => rfl

@[simp] theorem terminals_orElse :
    (product.orElse sum).terminals = product.terminals ++ .mark .plus :: sum.terminals := by
  cases sum with
  | sum first more => simp [orElse, terminals]

@[simp] theorem summands_orElse :
    (product.orElse sum).summands scope = product.meaning scope :: sum.summands scope := by
  cases sum with
  | sum first more => rfl

@[simp] theorem note_orElse : (product.orElse sum).note ps () enc n =
    sum.note ps () enc (product.note ps () enc n) := by
  cases sum with
  | sum first more => rfl

end

theorem meaning_product {t : ParseTree .product} {scope : List String} {es : List Expr} {e : Expr}
    (h : t.factors scope = es ++ [e]) : t.meaning scope = Terms.closeProduct es e := by
  cases t with
  | product first more =>
    simp only [factors] at h
    cases es with
    | nil =>
      simp only [List.nil_append, List.cons.injEq] at h
      simp only [meaning, h.1, h.2, Expr.productOf, Terms.closeProduct]
    | cons e' es =>
      simp only [List.cons_append, List.cons.injEq] at h
      simp only [meaning, h.1, h.2, Terms.closeProduct]

theorem meaning_sum {t : ParseTree .sum} {scope : List String} {es : List Expr} {e : Expr}
    (h : t.summands scope = es ++ [e]) : t.meaning scope = Terms.closeSum es e := by
  cases t with
  | sum first more =>
    simp only [summands] at h
    cases es with
    | nil =>
      simp only [List.nil_append, List.cons.injEq] at h
      simp only [meaning, h.1, h.2, Expr.sumOf, Terms.closeSum]
    | cons e' es =>
      simp only [List.cons_append, List.cons.injEq] at h
      simp only [meaning, h.1, h.2, Terms.closeSum]

end ParseTree

/-! ## From phrases to trees -/

/-- What the grammar sees of tokens. -/
def terminalsOf (ts : List Token) : List Terminal :=
  ts.map (·.terminal)

@[simp] theorem terminalsOf_nil : terminalsOf [] = [] := rfl

@[simp] theorem terminalsOf_cons (t : Token) (ts : List Token) :
    terminalsOf (t :: ts) = t.terminal :: terminalsOf ts := rfl

@[simp] theorem terminalsOf_append (ts ts' : List Token) :
    terminalsOf (ts ++ ts') = terminalsOf ts ++ terminalsOf ts' :=
  List.map_append

/-- The phrase has a tree that derives the tokens `ts` and from which its meaning and the notes
follow. A list that is to be continued is put in front of the tree that continues it. -/
def Phrase.Parsed (ps enc : List String) (n : Notes) (ts : List Token) (n' : Notes) : Phrase → Prop
  | .factor e => ∃ t : ParseTree .factor, terminalsOf ts = t.terminals ∧
    t.meaning (enc ++ ps) = e ∧ t.note ps () enc n = n'
  | .product e => ∃ t : ParseTree .product, terminalsOf ts = t.terminals ∧
    t.meaning (enc ++ ps) = e ∧ t.note ps () enc n = n'
  | .sum e => ∃ t : ParseTree .sum, terminalsOf ts = t.terminals ∧
    t.meaning (enc ++ ps) = e ∧ t.note ps () enc n = n'
  | .factors es => ∀ rest : ParseTree .product, ∃ t : ParseTree .product,
    terminalsOf ts ++ rest.terminals = t.terminals ∧
    t.factors (enc ++ ps) = es ++ rest.factors (enc ++ ps) ∧
    t.note ps () enc n = rest.note ps () enc n'
  | .summands es => ∀ rest : ParseTree .sum, ∃ t : ParseTree .sum,
    terminalsOf ts ++ rest.terminals = t.terminals ∧
    t.summands (enc ++ ps) = es ++ rest.summands (enc ++ ps) ∧
    t.note ps () enc n = rest.note ps () enc n'
  | .ctor type name e => ∃ t : ParseTree .ctor, terminalsOf ts = t.terminals ∧
    t.meaning (type.name.text :: (enc ++ ps)) = ⟨name, e⟩ ∧
    t.note ps type (type.name.text :: enc) n = n'
  | .ctors type => ∀ rest : ParseTree .ctors, ∃ t : ParseTree .ctors,
    terminalsOf ts ++ rest.terminals = t.terminals ∧
    t.meaning (type.name.text :: (enc ++ ps)) =
      type.ctors ++ rest.meaning (type.name.text :: (enc ++ ps)) ∧
    t.note ps { name := type.name } (type.name.text :: enc) n =
      rest.note ps type (type.name.text :: enc) n'

/-- **Every phrase that is read has a tree.** -/
theorem Reads.parsed {ps enc : List String} {g : Phrase} {n n' : Notes} {ts : List Token}
    (h : Reads ps g enc n ts n') : g.Parsed ps enc n ts n' := by
  induction h with
  | void ht => exact ⟨.void, by simp [Token.terminal_mark ht, ParseTree.terminals], rfl, rfl⟩
  | unit ht => exact ⟨.unit, by simp [Token.terminal_mark ht, ParseTree.terminals], rfl, rfl⟩
  | @name enc n t ht =>
    exact ⟨.mention t.word, by simp [Token.terminal_name ht, ParseTree.terminals], rfl, rfl⟩
  | parens ho _ hc ih =>
    obtain ⟨t, hts, hm, hn⟩ := ih
    refine ⟨.parens t, ?_, hm, hn⟩
    simp [ParseTree.terminals, hts, Token.terminal_mark ho, Token.terminal_mark hc]
  | @recursive enc n k w o ts c n' type hk hw ho hn _ hc ih =>
    obtain ⟨t, hts, hm, hnote⟩ := ih .noCtors
    rw [hn] at hm hnote
    refine ⟨.recursive w.word t, ?_, ?_, ?_⟩
    · simp only [ParseTree.terminals, List.append_nil] at hts
      simp [ParseTree.terminals, hts, Token.terminal_mark hk, Token.terminal_name hw,
        Token.terminal_mark ho, Token.terminal_mark hc]
    · simp [ParseTree.meaning, hm, OpenType.close, hn]
    · simp [ParseTree.note, ParseTree.meaning, hm, hnote, OpenType.close, hn]
  | @recursiveLast enc n k w o ts ts' c n₁ n₂ type name e hk hw ho hn _ _ hc ihs ihl =>
    obtain ⟨last, hlast, hml, hnl⟩ := ihl
    obtain ⟨t, hts, hm, hnote⟩ := ihs (.lastCtor last)
    rw [hn] at hm hnote hml hnl
    refine ⟨.recursive w.word t, ?_, ?_, ?_⟩
    · simp only [ParseTree.terminals] at hts
      simp [ParseTree.terminals, ← hts, hlast, Token.terminal_mark hk, Token.terminal_name hw,
        Token.terminal_mark ho, Token.terminal_mark hc]
    · simp [ParseTree.meaning, hm, hml, OpenType.close, OpenType.add, hn]
    · simp [ParseTree.note, ParseTree.meaning, hm, hml, hnote, hnl, OpenType.close, OpenType.add, hn]
  | @named enc n k w o ts c n' e hk hw ho _ hc ih =>
    obtain ⟨t, hts, hm, hn⟩ := ih
    refine ⟨.named w.word t, ?_, ?_, ?_⟩
    · simp [ParseTree.terminals, hts, Token.terminal_mark hk, Token.terminal_name hw,
        Token.terminal_mark ho, Token.terminal_mark hc]
    · simp [ParseTree.meaning, hm, Token.word]
    · simp only [ParseTree.note, hm, hn]
      rfl
  | noFactors => exact fun rest => ⟨rest, rfl, rfl, rfl⟩
  | @moreFactors enc n ts ts' t n₁ n₂ es e _ _ ht ihs ihe =>
    intro rest
    obtain ⟨f, hf, hm, hn⟩ := ihe
    obtain ⟨t, hts, hms, hns⟩ := ihs (f.times rest)
    refine ⟨t, ?_, by simp [hms, hm], by simp [hns, hn]⟩
    simp [← hts, hf, Token.terminal_mark ht]
  | product _ _ ihs ihe =>
    obtain ⟨f, hf, hm, hn⟩ := ihe
    obtain ⟨t, hts, hms, hns⟩ := ihs (.product f .noStars)
    refine ⟨t, ?_, ParseTree.meaning_product (by rw [hms, ← hm]; rfl), by rw [hns, ← hn]; rfl⟩
    simp [← hts, hf, ParseTree.terminals]
  | noSummands => exact fun rest => ⟨rest, rfl, rfl, rfl⟩
  | @moreSummands enc n ts ts' t n₁ n₂ es e _ _ ht ihs ihe =>
    intro rest
    obtain ⟨f, hf, hm, hn⟩ := ihe
    obtain ⟨t, hts, hms, hns⟩ := ihs (f.orElse rest)
    refine ⟨t, ?_, by simp [hms, hm], by simp [hns, hn]⟩
    simp [← hts, hf, Token.terminal_mark ht]
  | sum _ _ ihs ihe =>
    obtain ⟨f, hf, hm, hn⟩ := ihe
    obtain ⟨t, hts, hms, hns⟩ := ihs (.sum f .noPluses)
    refine ⟨t, ?_, ParseTree.meaning_sum (by rw [hms, ← hm]; rfl), by rw [hns, ← hn]; rfl⟩
    simp [← hts, hf, ParseTree.terminals]
  | @bareCtor enc n w type hw =>
    exact ⟨.bareCtor w.word, by simp [Token.terminal_name hw, ParseTree.terminals], rfl, rfl⟩
  | @ctor enc n w c ts n' type e hw hc _ ih =>
    obtain ⟨t, hts, hm, hn⟩ := ih
    refine ⟨.ctor w.word t, ?_, ?_, hn⟩
    · simp [ParseTree.terminals, hts, Token.terminal_name hw, Token.terminal_mark hc]
    · simpa [ParseTree.meaning, Token.word] using hm
  | noCtors => exact fun rest => ⟨rest, rfl, rfl, rfl⟩
  | @moreCtors enc n ts ts' t n₁ n₂ type name e _ _ ht ihs ihl =>
    intro rest
    obtain ⟨c, hc, hm, hn⟩ := ihl
    obtain ⟨t, hts, hms, hns⟩ := ihs (.moreCtors c rest)
    simp only [ParseTree.terminals, ParseTree.note, ParseTree.meaning, List.cons_append] at hts hms hns
    refine ⟨t, ?_, ?_, ?_⟩
    · simp [← hts, hc, Token.terminal_mark ht]
    · simp [OpenType.add, hms, hm]
    · simp [OpenType.add, hns, hn, hm]

/-! ## From trees to phrases -/

/-- The reader takes the tokens `ts` as a phrase of the nonterminal, where `ps` are the parameters.
What goes on with a list goes on with any that has been read. -/
def Nonterminal.Readable (ps : List String) (ts : List Token) : Nonterminal → Prop
  | .factor => ∀ enc n, ∃ e n', Reads ps (.factor e) enc n ts n'
  | .product => ∀ enc n, ∃ e n', Reads ps (.product e) enc n ts n'
  | .sum => ∀ enc n, ∃ e n', Reads ps (.sum e) enc n ts n'
  | .stars => ∀ enc n ts₀ e n₀, Reads ps (.product e) enc n ts₀ n₀ →
    ∃ e' n', Reads ps (.product e') enc n (ts₀ ++ ts) n'
  | .pluses => ∀ enc n ts₀ e n₀, Reads ps (.sum e) enc n ts₀ n₀ →
    ∃ e' n', Reads ps (.sum e') enc n (ts₀ ++ ts) n'
  | .ctor => ∀ enc n type, ∃ name e n', Reads ps (.ctor type name e) enc n ts n'
  | .ctors => ∀ enc n ts₀ type n₀, Reads ps (.ctors type) enc n ts₀ n₀ →
    ∃ type', type'.name = type.name ∧
      ((∃ n', Reads ps (.ctors type') enc n (ts₀ ++ ts) n') ∨
        ∃ name e ts₁ ts₂ n₁ n', ts₀ ++ ts = ts₁ ++ ts₂ ∧ Reads ps (.ctors type') enc n ts₁ n₁ ∧
          Reads ps (.ctor type' name e) enc n₁ ts₂ n')

/-- **What a tree derives is read**, whatever the words of its names are. -/
theorem ParseTree.readable (ps : List String) {k : Nonterminal} (t : ParseTree k) :
    ∀ ts : List Token, ts.map (·.kind) = t.terminals.map (·.kind) → k.Readable ps ts := by
  induction t with
  | void =>
    intro ts h enc n
    simp only [terminals, List.map_cons, List.map_nil, List.map_eq_singleton_iff] at h
    obtain ⟨t, rfl, ht⟩ := h
    exact ⟨_, _, .void ht⟩
  | unit =>
    intro ts h enc n
    simp only [terminals, List.map_cons, List.map_nil, List.map_eq_singleton_iff] at h
    obtain ⟨t, rfl, ht⟩ := h
    exact ⟨_, _, .unit ht⟩
  | mention word =>
    intro ts h enc n
    simp only [terminals, List.map_cons, List.map_nil, List.map_eq_singleton_iff] at h
    obtain ⟨t, rfl, ht⟩ := h
    exact ⟨_, _, .name ht⟩
  | parens inner ih =>
    intro ts h enc n
    simp only [terminals, List.cons_append, List.map_cons, List.map_append, List.map_nil,
      List.map_eq_cons_iff, List.map_eq_append_iff, List.map_eq_nil_iff] at h
    obtain ⟨o, _, rfl, ho, ts, _, rfl, hts, c, _, rfl, hc, rfl⟩ := h
    obtain ⟨e, n', he⟩ := ih ts hts enc n
    exact ⟨_, _, .parens ho he hc⟩
  | recursive name ctors ih =>
    intro ts h enc n
    simp only [terminals, List.cons_append, List.map_cons, List.map_append, List.map_nil,
      List.map_eq_cons_iff, List.map_eq_append_iff, List.map_eq_nil_iff] at h
    obtain ⟨k, _, rfl, hk, w, _, rfl, hw, o, _, rfl, ho, ts, _, rfl, hts, c, _, rfl, hc, rfl⟩ := h
    obtain ⟨type, hn, ⟨n', hs⟩ | ⟨name, e, ts₁, ts₂, n₁, n', hsplit, hs, hl⟩⟩ :=
      ih ts hts enc (n.checkTypeName w.word) [] { name := w.word } _ .noCtors
    · exact ⟨_, _, .recursive hk hw ho hn hs hc⟩
    · rw [List.nil_append] at hsplit
      rw [hsplit]
      exact ⟨_, _, .recursiveLast hk hw ho hn hs hl hc⟩
  | named name body ih =>
    intro ts h enc n
    simp only [terminals, List.cons_append, List.map_cons, List.map_append, List.map_nil,
      List.map_eq_cons_iff, List.map_eq_append_iff, List.map_eq_nil_iff] at h
    obtain ⟨k, _, rfl, hk, w, _, rfl, hw, o, _, rfl, ho, ts, _, rfl, hts, c, _, rfl, hc, rfl⟩ := h
    obtain ⟨e, n', he⟩ := ih ts hts enc (n.checkTypeName w.word)
    exact ⟨_, _, .named hk hw ho he hc⟩
  | noStars =>
    intro ts h enc n ts₀ e n₀ hp
    simp only [terminals, List.map_nil, List.map_eq_nil_iff] at h
    subst h
    exact ⟨e, n₀, by simpa using hp⟩
  | star next more ihn ihm =>
    intro ts h enc n ts₀ e n₀ hp
    simp only [terminals, List.cons_append, List.map_cons, List.map_append, List.map_eq_cons_iff,
      List.map_eq_append_iff] at h
    obtain ⟨t, _, rfl, ht, ts₁, ts₂, rfl, hn, hm⟩ := h
    cases hp with
    | product hs he =>
      obtain ⟨e', n', he'⟩ := ihn ts₁ hn enc n₀
      obtain ⟨e'', n'', h⟩ := ihm ts₂ hm enc n _ _ _ (.product (.moreFactors hs he ht) he')
      exact ⟨e'', n'', by simpa using h⟩
  | product first more ihf ihm =>
    intro ts h enc n
    simp only [terminals, List.map_append, List.map_eq_append_iff] at h
    obtain ⟨ts₁, ts₂, rfl, hf, hm⟩ := h
    obtain ⟨e, n₁, he⟩ := ihf ts₁ hf enc n
    exact ihm ts₂ hm enc n ts₁ _ n₁ (.product .noFactors he)
  | noPluses =>
    intro ts h enc n ts₀ e n₀ hp
    simp only [terminals, List.map_nil, List.map_eq_nil_iff] at h
    subst h
    exact ⟨e, n₀, by simpa using hp⟩
  | plus next more ihn ihm =>
    intro ts h enc n ts₀ e n₀ hp
    simp only [terminals, List.cons_append, List.map_cons, List.map_append, List.map_eq_cons_iff,
      List.map_eq_append_iff] at h
    obtain ⟨t, _, rfl, ht, ts₁, ts₂, rfl, hn, hm⟩ := h
    cases hp with
    | sum hs he =>
      obtain ⟨e', n', he'⟩ := ihn ts₁ hn enc n₀
      obtain ⟨e'', n'', h⟩ := ihm ts₂ hm enc n _ _ _ (.sum (.moreSummands hs he ht) he')
      exact ⟨e'', n'', by simpa using h⟩
  | sum first more ihf ihm =>
    intro ts h enc n
    simp only [terminals, List.map_append, List.map_eq_append_iff] at h
    obtain ⟨ts₁, ts₂, rfl, hf, hm⟩ := h
    obtain ⟨e, n₁, he⟩ := ihf ts₁ hf enc n
    exact ihm ts₂ hm enc n ts₁ _ n₁ (.sum .noSummands he)
  | bareCtor name =>
    intro ts h enc n type
    simp only [terminals, List.map_cons, List.map_nil, List.map_eq_singleton_iff] at h
    obtain ⟨w, rfl, hw⟩ := h
    exact ⟨_, _, _, .bareCtor hw⟩
  | ctor name payload ih =>
    intro ts h enc n type
    simp only [terminals, List.map_cons, List.map_eq_cons_iff] at h
    obtain ⟨w, _, rfl, hw, c, ts, rfl, hc, hts⟩ := h
    obtain ⟨e, n', he⟩ := ih ts hts (type.name.text :: enc) (n.checkCtorName type w.word)
    exact ⟨_, _, _, .ctor hw hc he⟩
  | noCtors =>
    intro ts h enc n ts₀ type n₀ hs
    simp only [terminals, List.map_nil, List.map_eq_nil_iff] at h
    subst h
    exact ⟨type, rfl, .inl ⟨n₀, by simpa using hs⟩⟩
  | lastCtor last ih =>
    intro ts h enc n ts₀ type n₀ hs
    obtain ⟨name, e, n', hl⟩ := ih ts h enc n₀ type
    exact ⟨type, rfl, .inr ⟨name, e, ts₀, ts, n₀, n', rfl, hs, hl⟩⟩
  | moreCtors first more ihf ihm =>
    intro ts h enc n ts₀ type n₀ hs
    simp only [terminals, List.map_append, List.map_cons, List.map_eq_append_iff,
      List.map_eq_cons_iff] at h
    obtain ⟨ts₁, _, rfl, hf, t, ts₂, rfl, ht, hm⟩ := h
    obtain ⟨name, e, n₁, hl⟩ := ihf ts₁ hf enc n₀ type
    obtain ⟨type', hn, h⟩ := ihm ts₂ hm enc n _ _ _ (.moreCtors hs hl ht)
    exact ⟨type', hn, by simpa using h⟩

/-! ## Parameters -/

/-- The notes after the check of the parameters `ws` behind the `earlier` ones. -/
def Notes.checkParams (n : Notes) (earlier : List Word) : List Word → Notes
  | [] => n
  | w :: ws => (n.checkParam earlier w).checkParams (earlier ++ [w]) ws

theorem Notes.checkParams_concat (n : Notes) (earlier ws : List Word) (w : Word) :
    n.checkParams earlier (ws ++ [w]) = (n.checkParams earlier ws).checkParam (earlier ++ ws) w := by
  induction ws generalizing n earlier with
  | nil => simp [checkParams]
  | cons v ws ih => simp [checkParams, ih]

theorem paramTerminals_concat {ws : List Word} (h : ws ≠ []) (w : Word) :
    paramTerminals (ws ++ [w]) = paramTerminals ws ++ [.mark .comma, .name w] := by
  cases ws with
  | nil => exact absurd rfl h
  | cons v ws => simp [paramTerminals]

theorem ReadsParams.parsed {ws : List Word} {n : Notes} {ts : List Token}
    (h : ReadsParams ws n ts) :
    terminalsOf ts = paramTerminals ws ∧ n = Notes.checkParams {} [] ws := by
  induction h with
  | none => exact ⟨rfl, rfl⟩
  | first hk hw =>
    exact ⟨by simp [paramTerminals, Token.terminal_mark hk, Token.terminal_name hw], rfl⟩
  | more _ hne hc hw ih =>
    obtain ⟨hts, rfl⟩ := ih
    rw [paramTerminals_concat hne, Notes.checkParams_concat]
    exact ⟨by simp [hts, Token.terminal_mark hc, Token.terminal_name hw], rfl⟩

/-- Parameters are read whatever their words are. -/
theorem ReadsParams.of_kinds {ws : List Word} : ∀ {ts : List Token},
    ts.map (·.kind) = (paramTerminals ws).map (·.kind) →
      ∃ ws' n, ReadsParams ws' n ts ∧ (ws' = [] → ws = []) := by
  induction ws using List.reverseRecOn with
  | nil =>
    intro ts h
    rw [paramTerminals, List.map_nil, List.map_eq_nil_iff] at h
    subst h
    exact ⟨[], {}, .none, fun _ => rfl⟩
  | append_singleton ws w ih =>
    intro ts h
    by_cases hne : ws = []
    · subst hne
      simp only [paramTerminals, List.nil_append, List.flatMap_nil, List.map_cons, List.map_nil,
        List.map_eq_cons_iff, List.map_eq_nil_iff] at h
      obtain ⟨k, _, rfl, hk, v, _, rfl, hv, rfl⟩ := h
      exact ⟨_, _, .first hk hv, by simp⟩
    · rw [paramTerminals_concat hne, List.map_append, List.map_eq_append_iff] at h
      obtain ⟨ts, us, rfl, hts, hus⟩ := h
      simp only [List.map_cons, List.map_nil, List.map_eq_cons_iff, List.map_eq_nil_iff] at hus
      obtain ⟨c, _, rfl, hc, v, _, rfl, hv, rfl⟩ := hus
      obtain ⟨ws', n, hp, hws⟩ := ih hts
      exact ⟨_, _, .more hp (fun h => hne (hws h)) hc hv, by simp⟩

/-! ## Whole descriptions -/

/-- What is noted about the names of a description. -/
def SourceTree.notes (t : SourceTree) : Notes :=
  t.body.note t.paramNames () [] (.checkParams {} [] t.params)

/-- The reader takes all of `ts` but the last, at which it is `r` and the description ends with
`body`. -/
def Accepts (ts : List Token) (r : Reader) (body : Expr) : Prop :=
  ∃ ts' t, ts = ts' ++ [t] ∧ ({} : Reader).takes ts' = some r ∧ r.step t = .done body

/-- **What is accepted is derived by a tree**, and the reader holds what follows from the tree. -/
theorem Accepts.tree {ts : List Token} {r : Reader} {body : Expr} (h : Accepts ts r body) :
    ∃ tree : SourceTree, terminalsOf ts = tree.terminals ∧ r.params = tree.params ∧
      r.notes = tree.notes ∧ body = tree.meaning := by
  obtain ⟨ts', t, rfl, htk, hd⟩ := h
  obtain ⟨ht, hl, last, hf, rfl⟩ := step_done hd
  rcases Progress.takes (.inl .start) htk with hpr | ⟨ws, ts₁, ts₂, n₀, rfl, hp, hr⟩
  · cases hpr <;> cases hf
  · obtain ⟨rfl, us₁, us₂, us₃, n₁, n₂, rfl, ho, hterms, hc⟩ := hr
    rw [hf] at hc
    rw [hl] at ho hterms hc
    cases ho
    obtain ⟨tree, hts, hm, hn⟩ := (hterms.close hc).parsed
    obtain ⟨hps, rfl⟩ := hp.parsed
    refine ⟨⟨r.params, tree⟩, ?_, rfl, hn.symm, hm.symm⟩
    simp only [terminalsOf_append] at hts
    simp [SourceTree.terminals, hps, ← hts, Token.terminal_mark ht]

/-- **What a tree derives is accepted**, whatever the words of its names are. -/
theorem SourceTree.accepts {tree : SourceTree} {ts : List Token}
    (h : ts.map (·.kind) = tree.terminals.map (·.kind)) : ∃ r body, Accepts ts r body := by
  simp only [SourceTree.terminals, List.map_append, List.map_cons, List.map_nil,
    List.map_eq_append_iff, List.map_eq_singleton_iff] at h
  obtain ⟨_, _, rfl, ⟨ts₁, ts₂, rfl, h₁, h₂⟩, t, rfl, ht⟩ := h
  obtain ⟨ws, n, hp, -⟩ := ReadsParams.of_kinds h₁
  obtain ⟨e, n', hs⟩ := tree.body.readable (ws.map (·.text)) ts₂ h₂ [] n
  obtain ⟨terms, last, start, -, hts⟩ := hs.takes_body
  refine ⟨_, terms.close last, _, t, rfl, (takes_append hp.takes ts₂).trans hts, ?_⟩
  simp [Reader.step, Reader.closing, show t.kind = .endOfInput from ht]

theorem Token.kinds_terminalsOf (ts : List Token) :
    (terminalsOf ts).map (·.kind) = ts.map (·.kind) := by
  simp [terminalsOf]

/-- The reader accepts exactly the sentences of the grammar. -/
theorem inGrammar_iff_accepts {ts : List Token} :
    InGrammar (ts.map (·.kind)) ↔ ∃ r body, Accepts ts r body := by
  constructor
  · rintro ⟨tree, h⟩
    exact SourceTree.accepts h.symm
  · rintro ⟨r, body, h⟩
    obtain ⟨tree, hts, -⟩ := h.tree
    exact ⟨tree, by rw [← hts, Token.kinds_terminalsOf]⟩

theorem InGrammar.tree {ts : List Token} (h : InGrammar (ts.map (·.kind))) :
    ∃ tree : SourceTree, terminalsOf ts = tree.terminals := by
  obtain ⟨r, body, ha⟩ := inGrammar_iff_accepts.1 h
  obtain ⟨tree, hts, -⟩ := ha.tree
  exact ⟨tree, hts⟩

theorem Reader.finish_eq (r : Reader) (file : String) (body : Expr) (last : Span) :
    ∃ d : Description, d.params = r.paramNames ∧ d.body = body ∧
      r.finish file body last =
        if (r.notes.allReports r.params).any (·.isError) then .error (r.notes.allReports r.params)
        else .ok (d, r.notes.allReports r.params) :=
  ⟨{ params := r.paramNames
     body
     span := .between file (r.bodyStart.getD last) last
     names := r.notes.declared.map fun d => (d.name.text, d.name.span) }, rfl, rfl, rfl⟩

/-- **The outcome is that of the tree**: its description if nothing noted about the names is an error,
and all that is noted otherwise. -/
theorem SourceTree.ofTokens_eq (file : String) {tree : SourceTree} {ts : List Token}
    (h : terminalsOf ts = tree.terminals) :
    ∃ d : Description, d.params = tree.paramNames ∧ d.body = tree.meaning ∧
      Description.ofTokens file ts =
        if (tree.notes.allReports tree.params).any (·.isError) then
          .error (.rejected (tree.notes.allReports tree.params))
        else .ok (d, tree.notes.allReports tree.params) := by
  have hkinds : ts.map (·.kind) = tree.terminals.map (·.kind) := by
    rw [← h, Token.kinds_terminalsOf]
  obtain ⟨r, body, ha⟩ := SourceTree.accepts hkinds
  obtain ⟨tree', hts, hp, hn, rfl⟩ := ha.tree
  obtain rfl : tree' = tree := SourceTree.ext_terminals (hts.symm.trans h)
  obtain ⟨ts', t, rfl, htk, hd⟩ := ha
  cases htokens : ts' ++ [t] with
  | nil => simp at htokens
  | cons t₁ ts =>
    obtain ⟨last, hrun⟩ := run_of_takes file hd t₁.span htokens.symm htk
    obtain ⟨d, hparams, hbody, hfinish⟩ := r.finish_eq file tree'.meaning last
    refine ⟨d, by rw [hparams, Reader.paramNames, hp, paramNames], hbody, ?_⟩
    rw [Description.ofTokens, hrun, hfinish, hp, hn]
    split <;> rfl

end TypeDesc
