/-
The grammar of descriptions as its parse trees. A tree of a nonterminal has the
words of its names at its leaves; `terminals` is what it derives, `meaning` the
expression that it stands for, with every name replaced by its first place in
scope.

The grammar is unambiguous: what is derived determines the tree
(`SourceTree.ext_terminals`). The proof lets something follow the tree and asks
that it cannot be taken for more of the same phrase (`ParseTree.unique`).
-/
import TypeDesc.Description.Reader

namespace TypeDesc

/-! ## Terminals and nonterminals -/

/-- What the grammar sees of a token: a name is seen with its word, any other token by its kind. -/
inductive Terminal
  | name (word : Word)
  | mark (kind : TokenKind)
deriving DecidableEq, Repr

/-- The kind of a terminal. -/
def Terminal.kind : Terminal → TokenKind
  | .name _ => .identifier
  | .mark kind => kind

/-- What the grammar sees of a token. -/
def Token.terminal (t : Token) : Terminal :=
  if t.kind = .identifier then .name t.word else .mark t.kind

@[simp] theorem Token.terminal_kind (t : Token) : t.terminal.kind = t.kind := by
  rw [Token.terminal]
  split
  next h => exact h.symm
  next => rfl

theorem Token.terminal_name {t : Token} (h : t.kind = .identifier) : t.terminal = .name t.word := by
  rw [Token.terminal, if_pos h]

theorem Token.terminal_mark {t : Token} {kind : TokenKind} (h : t.kind = kind)
    (hk : kind ≠ .identifier) : t.terminal = .mark kind := by
  rw [Token.terminal, h, if_neg hk]

/-- The phrases of the grammar. -/
inductive Nonterminal
  | factor
  /-- More factors, each behind a star. -/
  | stars
  | product
  /-- More products, each behind a plus. -/
  | pluses
  | sum
  | ctor
  /-- The constructors of a type, with or without a comma behind the last. -/
  | ctors
deriving DecidableEq, Repr

/-- What a phrase stands for. -/
abbrev Nonterminal.Meaning : Nonterminal → Type
  | .factor | .product | .sum => Expr
  | .stars | .pluses => List Expr
  | .ctor => Ctor Expr
  | .ctors => List (Ctor Expr)

/-! ## Trees -/

/-- The parse trees of a nonterminal. -/
inductive ParseTree : Nonterminal → Type
  | void : ParseTree .factor
  | unit : ParseTree .factor
  | mention (word : Word) : ParseTree .factor
  | parens (inner : ParseTree .sum) : ParseTree .factor
  | recursive (name : Word) (ctors : ParseTree .ctors) : ParseTree .factor
  | named (name : Word) (body : ParseTree .sum) : ParseTree .factor
  | noStars : ParseTree .stars
  | star (next : ParseTree .factor) (more : ParseTree .stars) : ParseTree .stars
  | product (first : ParseTree .factor) (more : ParseTree .stars) : ParseTree .product
  | noPluses : ParseTree .pluses
  | plus (next : ParseTree .product) (more : ParseTree .pluses) : ParseTree .pluses
  | sum (first : ParseTree .product) (more : ParseTree .pluses) : ParseTree .sum
  | bareCtor (name : Word) : ParseTree .ctor
  | ctor (name : Word) (payload : ParseTree .sum) : ParseTree .ctor
  | noCtors : ParseTree .ctors
  | lastCtor (last : ParseTree .ctor) : ParseTree .ctors
  | moreCtors (first : ParseTree .ctor) (more : ParseTree .ctors) : ParseTree .ctors

namespace ParseTree

/-- What a tree derives. -/
@[simp] def terminals : {k : Nonterminal} → ParseTree k → List Terminal
  | _, .void => [.mark .void]
  | _, .unit => [.mark .unit]
  | _, .mention word => [.name word]
  | _, .parens inner => .mark .openParen :: inner.terminals ++ [.mark .closeParen]
  | _, .recursive name ctors =>
    .mark .recKeyword :: .name name :: .mark .openBrace :: ctors.terminals ++ [.mark .closeBrace]
  | _, .named name body =>
    .mark .aliasKeyword :: .name name :: .mark .openBrace :: body.terminals ++ [.mark .closeBrace]
  | _, .noStars => []
  | _, .star next more => .mark .star :: next.terminals ++ more.terminals
  | _, .product first more => first.terminals ++ more.terminals
  | _, .noPluses => []
  | _, .plus next more => .mark .plus :: next.terminals ++ more.terminals
  | _, .sum first more => first.terminals ++ more.terminals
  | _, .bareCtor name => [.name name]
  | _, .ctor name payload => .name name :: .mark .colon :: payload.terminals
  | _, .noCtors => []
  | _, .lastCtor last => last.terminals
  | _, .moreCtors first more => first.terminals ++ .mark .comma :: more.terminals

/-- What a tree stands for where the names `scope` are bound, the innermost first. Two or more
factors make a product and two or more products a sum, a constructor without a payload has unit, and
the constructors of a recursive type are inside its own binding. -/
@[simp] def meaning : {k : Nonterminal} → ParseTree k → List String → k.Meaning
  | _, .void, _ => Expr.void
  | _, .unit, _ => Expr.unit
  | _, .mention word, scope => .ofName scope word.text
  | _, .parens inner, scope => inner.meaning scope
  | _, .recursive name ctors, scope => Expr.recursive name.text (ctors.meaning (name.text :: scope))
  | _, .named name body, scope => Expr.named name.text (body.meaning scope)
  | _, .noStars, _ => ([] : List Expr)
  | _, .star next more, scope => next.meaning scope :: more.meaning scope
  | _, .product first more, scope => .productOf (first.meaning scope) (more.meaning scope)
  | _, .noPluses, _ => ([] : List Expr)
  | _, .plus next more, scope => next.meaning scope :: more.meaning scope
  | _, .sum first more, scope => .sumOf (first.meaning scope) (more.meaning scope)
  | _, .bareCtor name, _ => ⟨name.text, .unit⟩
  | _, .ctor name payload, scope => ⟨name.text, payload.meaning scope⟩
  | _, .noCtors, _ => ([] : List (Ctor Expr))
  | _, .lastCtor last, scope => [last.meaning scope]
  | _, .moreCtors first more, scope => first.meaning scope :: more.meaning scope

/-- The names that a tree uses as types, each with the names that are bound there. -/
def uses : {k : Nonterminal} → ParseTree k → List String → List (List String × Word)
  | _, .void, _ => []
  | _, .unit, _ => []
  | _, .mention word, scope => [(scope, word)]
  | _, .parens inner, scope => inner.uses scope
  | _, .recursive name ctors, scope => ctors.uses (name.text :: scope)
  | _, .named _ body, scope => body.uses scope
  | _, .noStars, _ => []
  | _, .star next more, scope => next.uses scope ++ more.uses scope
  | _, .product first more, scope => first.uses scope ++ more.uses scope
  | _, .noPluses, _ => []
  | _, .plus next more, scope => next.uses scope ++ more.uses scope
  | _, .sum first more, scope => first.uses scope ++ more.uses scope
  | _, .bareCtor _, _ => []
  | _, .ctor _ payload, scope => payload.uses scope
  | _, .noCtors, _ => []
  | _, .lastCtor last, scope => last.uses scope
  | _, .moreCtors first more, scope => first.uses scope ++ more.uses scope

end ParseTree

/-! ## Whole descriptions -/

/-- The parse tree of a description: its parameters, of which there may be none, and a sum. -/
structure SourceTree where
  params : List Word
  body : ParseTree .sum

/-- What parameters are written as. -/
def paramTerminals : List Word → List Terminal
  | [] => []
  | first :: more =>
    .mark .paramsKeyword :: .name first :: more.flatMap fun word => [.mark .comma, .name word]

namespace SourceTree

/-- The names of the parameters. -/
def paramNames (t : SourceTree) : List String :=
  t.params.map (·.text)

/-- What the tree of a description derives. -/
def terminals (t : SourceTree) : List Terminal :=
  paramTerminals t.params ++ t.body.terminals ++ [.mark .endOfInput]

/-- The expression of the description. -/
def meaning (t : SourceTree) : Expr :=
  t.body.meaning t.paramNames

/-- The names used as types, each with the names that are bound there. -/
def uses (t : SourceTree) : List (List String × Word) :=
  t.body.uses t.paramNames

end SourceTree

/-- The kinds of tokens are a sentence of the grammar. -/
def InGrammar (kinds : List TokenKind) : Prop :=
  ∃ tree : SourceTree, tree.terminals.map (·.kind) = kinds

/-- Some sentence of the grammar starts with these kinds of tokens. -/
def Viable (kinds : List TokenKind) : Prop :=
  ∃ rest, InGrammar (kinds ++ rest)

/-! ## One tree for what is derived -/

/-- The kinds of tokens with which a phrase of the nonterminal could go on. -/
def Nonterminal.goesOn : Nonterminal → List TokenKind
  | .factor => []
  | .stars | .product => [.star]
  | .pluses | .sum => [.star, .plus]
  | .ctor => [.star, .plus, .colon]
  | .ctors => [.star, .plus, .colon, .comma, .identifier]

/-- A phrase of the nonterminal has ended where `rest` follows. -/
def Nonterminal.EndsAt (k : Nonterminal) (rest : List Terminal) : Prop :=
  ∀ x xs, rest = x :: xs → x.kind ∉ k.goesOn

namespace Nonterminal.EndsAt

theorem cons {k : Nonterminal} {x : Terminal} (h : x.kind ∉ k.goesOn) (xs : List Terminal) :
    k.EndsAt (x :: xs) := by
  intro y ys hy
  cases hy
  exact h

theorem mono {k k' : Nonterminal} {rest : List Terminal} (h : k.EndsAt rest)
    (hk : ∀ kind ∈ k'.goesOn, kind ∈ k.goesOn) : k'.EndsAt rest :=
  fun x xs hx hm => h x xs hx (hk _ hm)

/-- A factor never goes on. -/
theorem factor (rest : List Terminal) : Nonterminal.factor.EndsAt rest := by
  simp [Nonterminal.EndsAt, goesOn]

end Nonterminal.EndsAt

namespace ParseTree

theorem pluses_head (t : ParseTree .pluses) {rest : List Terminal}
    (h : Nonterminal.pluses.EndsAt rest) : Nonterminal.product.EndsAt (t.terminals ++ rest) := by
  cases t with
  | noPluses => exact h.mono (by simp [Nonterminal.goesOn])
  | plus next more => exact .cons (by simp [Nonterminal.goesOn, Terminal.kind]) _

/-- A constructor starts with its name. -/
theorem ctor_head (t : ParseTree .ctor) : ∃ word rest, t.terminals = .name word :: rest := by
  cases t with
  | bareCtor name => exact ⟨name, [], rfl⟩
  | ctor name payload => exact ⟨name, _, rfl⟩

theorem ctors_ne {t : ParseTree .ctor} {rest rest' : List Terminal}
    (h : Nonterminal.ctors.EndsAt rest) : rest ≠ t.terminals ++ rest' := by
  obtain ⟨word, more, ht⟩ := t.ctor_head
  intro he
  rw [ht] at he
  exact h _ _ he (by simp [Nonterminal.goesOn, Terminal.kind])

/-- **The grammar is unambiguous**, also within a longer text: two trees that derive a start of it
and are followed by nothing that could be part of them are the same. -/
theorem unique {k : Nonterminal} (t : ParseTree k) : ∀ (t' : ParseTree k) {rest rest' : List Terminal},
    t.terminals ++ rest = t'.terminals ++ rest' → k.EndsAt rest → k.EndsAt rest' →
      t = t' ∧ rest = rest' := by
  induction t with
  | void =>
    intro t' rest rest' h hr hr'
    cases t' with
    | void => simpa [terminals] using h
    | _ => simp [terminals] at h
  | unit =>
    intro t' rest rest' h hr hr'
    cases t' with
    | unit => simpa [terminals] using h
    | _ => simp [terminals] at h
  | mention word =>
    intro t' rest rest' h hr hr'
    cases t' with
    | mention word' => simpa [terminals] using h
    | _ => simp [terminals] at h
  | parens inner ih =>
    intro t' rest rest' h hr hr'
    cases t' with
    | parens inner' =>
      simp only [terminals, List.cons_append, List.append_assoc, List.cons.injEq, true_and] at h
      obtain ⟨rfl, hrest⟩ := ih inner' h (.cons (by decide) _) (.cons (by decide) _)
      simpa using hrest
    | _ => simp [terminals] at h
  | recursive name ctors ih =>
    intro t' rest rest' h hr hr'
    cases t' with
    | recursive name' ctors' =>
      simp only [terminals, List.cons_append, List.append_assoc, List.cons.injEq, true_and,
        Terminal.name.injEq] at h
      obtain ⟨rfl, h⟩ := h
      obtain ⟨rfl, hrest⟩ := ih ctors' h (.cons (by decide) _) (.cons (by decide) _)
      simpa using hrest
    | _ => simp [terminals] at h
  | named name body ih =>
    intro t' rest rest' h hr hr'
    cases t' with
    | named name' body' =>
      simp only [terminals, List.cons_append, List.append_assoc, List.cons.injEq, true_and,
        Terminal.name.injEq] at h
      obtain ⟨rfl, h⟩ := h
      obtain ⟨rfl, hrest⟩ := ih body' h (.cons (by decide) _) (.cons (by decide) _)
      simpa using hrest
    | _ => simp [terminals] at h
  | noStars =>
    intro t' rest rest' h hr hr'
    cases t' with
    | noStars => exact ⟨rfl, h⟩
    | star next more => exact absurd (by decide) (hr _ _ h)
  | star next more ihn ihm =>
    intro t' rest rest' h hr hr'
    cases t' with
    | noStars => exact absurd (by decide) (hr' _ _ h.symm)
    | star next' more' =>
      simp only [terminals, List.cons_append, List.cons.injEq, true_and, List.append_assoc] at h
      obtain ⟨rfl, hmore⟩ := ihn next' h (.factor _) (.factor _)
      obtain ⟨rfl, hrest⟩ := ihm more' hmore hr hr'
      exact ⟨rfl, hrest⟩
  | product first more ihf ihm =>
    intro t' rest rest' h hr hr'
    cases t' with
    | product first' more' =>
      simp only [terminals, List.append_assoc] at h
      obtain ⟨rfl, hmore⟩ := ihf first' h (.factor _) (.factor _)
      obtain ⟨rfl, hrest⟩ := ihm more' hmore hr hr'
      exact ⟨rfl, hrest⟩
  | noPluses =>
    intro t' rest rest' h hr hr'
    cases t' with
    | noPluses => exact ⟨rfl, h⟩
    | plus next more => exact absurd (by decide) (hr _ _ h)
  | plus next more ihn ihm =>
    intro t' rest rest' h hr hr'
    cases t' with
    | noPluses => exact absurd (by decide) (hr' _ _ h.symm)
    | plus next' more' =>
      simp only [terminals, List.cons_append, List.cons.injEq, true_and, List.append_assoc] at h
      obtain ⟨rfl, hmore⟩ := ihn next' h (more.pluses_head hr) (more'.pluses_head hr')
      obtain ⟨rfl, hrest⟩ := ihm more' hmore hr hr'
      exact ⟨rfl, hrest⟩
  | sum first more ihf ihm =>
    intro t' rest rest' h hr hr'
    cases t' with
    | sum first' more' =>
      simp only [terminals, List.append_assoc] at h
      obtain ⟨rfl, hmore⟩ := ihf first' h (more.pluses_head hr) (more'.pluses_head hr')
      obtain ⟨rfl, hrest⟩ := ihm more' hmore hr hr'
      exact ⟨rfl, hrest⟩
  | bareCtor name =>
    intro t' rest rest' h hr hr'
    cases t' with
    | bareCtor name' => simpa [terminals] using h
    | ctor name' payload =>
      simp only [terminals, List.cons_append, List.cons.injEq] at h
      exact absurd (by decide) (hr _ _ h.2)
  | ctor name payload ih =>
    intro t' rest rest' h hr hr'
    cases t' with
    | bareCtor name' =>
      simp only [terminals, List.cons_append, List.cons.injEq] at h
      exact absurd (by decide) (hr' _ _ h.2.symm)
    | ctor name' payload' =>
      simp only [terminals, List.cons_append, List.cons.injEq, Terminal.name.injEq, true_and] at h
      obtain ⟨rfl, h⟩ := h
      have hsub : ∀ kind ∈ Nonterminal.sum.goesOn, kind ∈ Nonterminal.ctor.goesOn := by decide
      obtain ⟨rfl, hrest⟩ := ih payload' h (hr.mono hsub) (hr'.mono hsub)
      exact ⟨rfl, hrest⟩
  | noCtors =>
    intro t' rest rest' h hr hr'
    cases t' with
    | noCtors => exact ⟨rfl, h⟩
    | lastCtor last => exact absurd h (ctors_ne hr)
    | moreCtors first more =>
      simp only [terminals, List.append_assoc] at h
      exact absurd h (ctors_ne hr)
  | lastCtor last ih =>
    intro t' rest rest' h hr hr'
    have hsub : ∀ kind ∈ Nonterminal.ctor.goesOn, kind ∈ Nonterminal.ctors.goesOn := by decide
    cases t' with
    | noCtors => exact absurd h.symm (ctors_ne hr')
    | lastCtor last' =>
      obtain ⟨rfl, hrest⟩ := ih last' h (hr.mono hsub) (hr'.mono hsub)
      exact ⟨rfl, hrest⟩
    | moreCtors first more =>
      simp only [terminals, List.append_assoc, List.cons_append] at h
      obtain ⟨rfl, hrest⟩ := ih first h (hr.mono hsub) (.cons (by decide) _)
      exact absurd (by decide) (hr _ _ hrest)
  | moreCtors first more ihf ihm =>
    intro t' rest rest' h hr hr'
    have hsub : ∀ kind ∈ Nonterminal.ctor.goesOn, kind ∈ Nonterminal.ctors.goesOn := by decide
    cases t' with
    | noCtors =>
      simp only [terminals, List.append_assoc] at h
      exact absurd h.symm (ctors_ne hr')
    | lastCtor last =>
      simp only [terminals, List.append_assoc, List.cons_append] at h
      obtain ⟨rfl, hrest⟩ := ihf last h (.cons (by decide) _) (hr'.mono hsub)
      exact absurd (by decide) (hr' _ _ hrest.symm)
    | moreCtors first' more' =>
      simp only [terminals, List.append_assoc, List.cons_append] at h
      obtain ⟨rfl, hmore⟩ := ihf first' h (.cons (by decide) _) (.cons (by decide) _)
      simp only [List.cons.injEq, true_and] at hmore
      obtain ⟨rfl, hrest⟩ := ihm more' hmore hr hr'
      exact ⟨rfl, hrest⟩

/-- The kinds of tokens with which a type starts. -/
def startKinds : List TokenKind :=
  [.void, .unit, .identifier, .openParen, .recKeyword, .aliasKeyword]

theorem factor_head (t : ParseTree .factor) :
    ∃ x xs, t.terminals = x :: xs ∧ x.kind ∈ startKinds := by
  cases t <;> exact ⟨_, _, rfl, by simp [startKinds, Terminal.kind]⟩

theorem sum_head (t : ParseTree .sum) : ∃ x xs, t.terminals = x :: xs ∧ x.kind ∈ startKinds := by
  cases t with
  | sum first pluses =>
    cases first with
    | product first stars =>
      obtain ⟨x, xs, hx, hk⟩ := first.factor_head
      exact ⟨x, xs ++ stars.terminals ++ pluses.terminals, by simp [terminals, hx], hk⟩

end ParseTree

theorem paramTerminals_unique {ws ws' : List Word} {rest rest' : List Terminal}
    (h : paramTerminals ws ++ rest = paramTerminals ws' ++ rest')
    (hr : ∀ x xs, rest = x :: xs → x.kind ∈ ParseTree.startKinds)
    (hr' : ∀ x xs, rest' = x :: xs → x.kind ∈ ParseTree.startKinds) : ws = ws' ∧ rest = rest' := by
  have hcommas : ∀ more more' : List Word,
      (more.flatMap fun word => [Terminal.mark .comma, .name word]) ++ rest =
        (more'.flatMap fun word => [Terminal.mark .comma, .name word]) ++ rest' →
      more = more' ∧ rest = rest' := by
    intro more
    induction more with
    | nil =>
      intro more' h
      cases more' with
      | nil => exact ⟨rfl, h⟩
      | cons w' more' => exact absurd (hr _ _ h) (by decide)
    | cons w more ih =>
      intro more' h
      cases more' with
      | nil => exact absurd (hr' _ _ h.symm) (by decide)
      | cons w' more' =>
        simp only [List.flatMap_cons, List.cons_append, List.nil_append, List.cons.injEq, true_and,
          Terminal.name.injEq] at h
        obtain ⟨rfl, h⟩ := h
        obtain ⟨rfl, hrest⟩ := ih more' h
        exact ⟨rfl, hrest⟩
  cases ws with
  | nil =>
    cases ws' with
    | nil => exact ⟨rfl, h⟩
    | cons w' ws' => exact absurd (hr _ _ h) (by decide)
  | cons w ws =>
    cases ws' with
    | nil => exact absurd (hr' _ _ h.symm) (by decide)
    | cons w' ws' =>
      simp only [paramTerminals, List.cons_append, List.cons.injEq, true_and,
        Terminal.name.injEq] at h
      obtain ⟨rfl, h⟩ := h
      obtain ⟨rfl, hrest⟩ := hcommas ws ws' h
      exact ⟨rfl, hrest⟩

/-- **A description has one parse tree.** -/
theorem SourceTree.ext_terminals {t t' : SourceTree} (h : t.terminals = t'.terminals) : t = t' := by
  obtain ⟨ws, body⟩ := t
  obtain ⟨ws', body'⟩ := t'
  have hstart : ∀ (body : ParseTree .sum) x xs,
      body.terminals ++ [.mark .endOfInput] = x :: xs → x.kind ∈ ParseTree.startKinds := by
    intro body x xs hx
    obtain ⟨y, ys, hy, hk⟩ := body.sum_head
    rw [hy] at hx
    cases hx
    exact hk
  simp only [SourceTree.terminals, List.append_assoc] at h
  obtain ⟨rfl, hbody⟩ := paramTerminals_unique h (hstart body) (hstart body')
  obtain ⟨rfl, -⟩ := body.unique body' hbody (.cons (by decide) _) (.cons (by decide) _)
  rfl

end TypeDesc
