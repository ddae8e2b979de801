/-
The grammar of descriptions with the meaning of each phrase, and the reader as
a machine for it.

`Reads` relates a phrase to its tokens, to what it means, and to what is noted
about names on the way. `Reads.runs`: from the focus where a phrase may start,
the reader takes the tokens of the phrase one by one and ends with exactly that
meaning and those notes. That every description the reader accepts has such a
phrase behind it is `TypeDesc.Proofs.GrammarComplete`.
-/
import TypeDesc.Description.Reader

namespace TypeDesc

/-- A phrase of the grammar, as what it means. -/
inductive Phrase
  | factor (e : Expr)
  /-- Factors, each with a star behind it. -/
  | factors (es : List Expr)
  | product (e : Expr)
  /-- Products, each with a plus behind it. -/
  | summands (es : List Expr)
  | sum (e : Expr)
  /-- A constructor that comes after those of `type`. -/
  | ctor (type : OpenType) (name : String) (payload : Expr)
  /-- The constructors of `type`, each with a comma behind it. -/
  | ctors (type : OpenType)

/-- `Reads ps g enc n ts n'`: among parameters `ps` and inside the recursive types `enc`, the tokens
`ts` are the phrase `g`, and reading them turns the notes `n` into `n'`. -/
inductive Reads (ps : List String) : Phrase → List String → Notes → List Token → Notes → Prop
  | void {enc n t} (ht : t.kind = .void) : Reads ps (.factor .void) enc n [t] n
  | unit {enc n t} (ht : t.kind = .unit) : Reads ps (.factor .unit) enc n [t] n
  | name {enc n t} (ht : t.kind = .identifier) :
    Reads ps (.factor (.ofName (enc ++ ps) t.text)) enc n [t] (n.mention enc ps t.word)
  | parens {enc n o ts c n' e} (ho : o.kind = .openParen) (he : Reads ps (.sum e) enc n ts n')
    (hc : c.kind = .closeParen) : Reads ps (.factor e) enc n (o :: ts ++ [c]) n'
  /-- A recursive type without constructors, or with a comma behind the last. -/
  | recursive {enc n k w o ts c n' type} (hk : k.kind = .recKeyword) (hw : w.kind = .identifier)
    (ho : o.kind = .openBrace) (hn : type.name = w.word)
    (hs : Reads ps (.ctors type) enc (n.checkTypeName w.word) ts n') (hc : c.kind = .closeBrace) :
    Reads ps (.factor type.close) enc n (k :: w :: o :: ts ++ [c]) (n'.record w.word type.close)
  /-- A recursive type with no comma behind the last constructor. -/
  | recursiveLast {enc n k w o ts ts' c n₁ n₂ type name e} (hk : k.kind = .recKeyword)
    (hw : w.kind = .identifier) (ho : o.kind = .openBrace) (hn : type.name = w.word)
    (hs : Reads ps (.ctors type) enc (n.checkTypeName w.word) ts n₁)
    (hl : Reads ps (.ctor type name e) enc n₁ ts' n₂) (hc : c.kind = .closeBrace) :
    Reads ps (.factor (type.add name e).close) enc n (k :: w :: o :: (ts ++ ts') ++ [c])
      (n₂.record w.word (type.add name e).close)
  | named {enc n k w o ts c n' e} (hk : k.kind = .aliasKeyword) (hw : w.kind = .identifier)
    (ho : o.kind = .openBrace) (he : Reads ps (.sum e) enc (n.checkTypeName w.word) ts n')
    (hc : c.kind = .closeBrace) :
    Reads ps (.factor (.named w.text e)) enc n (k :: w :: o :: ts ++ [c])
      (n'.record w.word (.named w.text e))
  | noFactors {enc n} : Reads ps (.factors []) enc n [] n
  | moreFactors {enc n ts ts' t n₁ n₂ es e} (hs : Reads ps (.factors es) enc n ts n₁)
    (he : Reads ps (.factor e) enc n₁ ts' n₂) (ht : t.kind = .star) :
    Reads ps (.factors (es ++ [e])) enc n (ts ++ ts' ++ [t]) n₂
  | product {enc n ts ts' n₁ n₂ es e} (hs : Reads ps (.factors es) enc n ts n₁)
    (he : Reads ps (.factor e) enc n₁ ts' n₂) :
    Reads ps (.product (Terms.closeProduct es e)) enc n (ts ++ ts') n₂
  | noSummands {enc n} : Reads ps (.summands []) enc n [] n
  | moreSummands {enc n ts ts' t n₁ n₂ es e} (hs : Reads ps (.summands es) enc n ts n₁)
    (he : Reads ps (.product e) enc n₁ ts' n₂) (ht : t.kind = .plus) :
    Reads ps (.summands (es ++ [e])) enc n (ts ++ ts' ++ [t]) n₂
  | sum {enc n ts ts' n₁ n₂ es e} (hs : Reads ps (.summands es) enc n ts n₁)
    (he : Reads ps (.product e) enc n₁ ts' n₂) :
    Reads ps (.sum (Terms.closeSum es e)) enc n (ts ++ ts') n₂
  | bareCtor {enc n w type} (hw : w.kind = .identifier) :
    Reads ps (.ctor type w.text .unit) enc n [w] (n.checkCtorName type w.word)
  | ctor {enc n w c ts n' type e} (hw : w.kind = .identifier) (hc : c.kind = .colon)
    (he : Reads ps (.sum e) (type.name.text :: enc) (n.checkCtorName type w.word) ts n') :
    Reads ps (.ctor type w.text e) enc n (w :: c :: ts) n'
  | noCtors {enc n name} : Reads ps (.ctors { name }) enc n [] n
  | moreCtors {enc n ts ts' t n₁ n₂ type name e} (hs : Reads ps (.ctors type) enc n ts n₁)
    (hl : Reads ps (.ctor type name e) enc n₁ ts' n₂) (ht : t.kind = .comma) :
    Reads ps (.ctors (type.add name e)) enc n (ts ++ ts' ++ [t]) n₂

namespace Level

@[simp] theorem names_parens (outer : Terms) (levels : List Level) :
    names (⟨.parens, outer⟩ :: levels) = names levels := rfl

@[simp] theorem names_body (name : Word) (outer : Terms) (levels : List Level) :
    names (⟨.body name, outer⟩ :: levels) = names levels := rfl

@[simp] theorem names_payload (type : OpenType) (ctor : String) (outer : Terms)
    (levels : List Level) :
    names (⟨.payload type ctor, outer⟩ :: levels) = type.name.text :: names levels := rfl

end Level

/-! ## Many steps of the reader -/

namespace Reader

/-- The reader after all of `ts`, if each of them fits and none ends the description. -/
def takes (r : Reader) : List Token → Option Reader
  | [] => some r
  | t :: ts =>
    match r.step t with
    | .next r' => r'.takes ts
    | _ => none

@[simp] theorem takes_nil (r : Reader) : r.takes [] = some r := rfl

theorem takes_cons {r r' : Reader} {t : Token} (h : r.step t = .next r') (ts : List Token) :
    r.takes (t :: ts) = r'.takes ts := by
  simp [takes, h]

theorem takes_append {r r' : Reader} {ts : List Token} (h : r.takes ts = some r')
    (ts' : List Token) : r.takes (ts ++ ts') = r'.takes ts' := by
  induction ts generalizing r with
  | nil => simp only [takes_nil, Option.some.injEq] at h; subst h; rfl
  | cons t ts ih =>
    rw [List.cons_append, takes]
    rw [takes] at h
    split at h
    · exact ih h
    · cases h

/-- The reader is among parameters `ps`, inside the recursive types `enc`, with notes `n`. -/
structure At (r : Reader) (ps enc : List String) (n : Notes) : Prop where
  enclosing : r.enclosing = enc
  params : r.paramNames = ps
  notes : r.notes = n

end Reader

open Reader Terms

/-- The reader, where `g` may start, takes the tokens `ts` and has then read `g`. -/
def Phrase.Runs (ps enc : List String) (n : Notes) (ts : List Token) (n' : Notes) : Phrase → Prop
  | .factor e => ∀ r : Reader, r.At ps enc n → r.focus = .operand →
    r.takes ts = some { r with focus := .operator e, notes := n' }
  | .factors es => ∀ r : Reader, r.At ps enc n → r.focus = .operand →
    r.takes ts =
      some { r with terms := { r.terms with factors := r.terms.factors ++ es }, notes := n' }
  | .product e => ∀ r : Reader, r.At ps enc n → r.focus = .operand → r.terms.factors = [] →
    ∃ es last, closeProduct es last = e ∧ r.takes ts =
      some { r with focus := .operator last, terms := { r.terms with factors := es }, notes := n' }
  | .summands es => ∀ r : Reader, r.At ps enc n → r.focus = .operand → r.terms.factors = [] →
    r.takes ts =
      some { r with terms := { r.terms with summands := r.terms.summands ++ es }, notes := n' }
  | .sum e => ∀ r : Reader, r.At ps enc n → r.focus = .operand → r.terms = {} →
    ∃ terms last, Terms.close terms last = e ∧ r.takes ts =
      some { r with focus := .operator last, terms := terms, notes := n' }
  -- The reader sees that a payload has ended only at the token behind it.
  | .ctor type name e => ∀ (r : Reader) (t : Token), r.At ps enc n → r.focus = .ctorName type →
    t.kind = .comma ∨ t.kind = .closeBrace →
    ∃ r', r.takes ts = some r' ∧ r'.step t = { r with notes := n' }.afterCtor type name e t
  | .ctors type => ∀ r : Reader, r.At ps enc n → r.focus = .ctorName { name := type.name } →
    r.takes ts = some { r with focus := .ctorName type, notes := n' }

section
variable {r : Reader} {ps enc : List String} {n : Notes} {k w o : Token}

/-- The three tokens that open a recursive type. -/
theorem takes_recursive (hr : r.At ps enc n) (hf : r.focus = .operand)
    (hk : k.kind = .recKeyword) (hw : w.kind = .identifier) (ho : o.kind = .openBrace)
    (ts : List Token) :
    r.takes (k :: w :: o :: ts) =
      { r with focus := .ctorName { name := w.word }, notes := n.checkTypeName w.word }.takes ts := by
  simp [takes, step, operand, hf, hk, hw, ho, hr.notes]

/-- The three tokens that open a named type. -/
theorem takes_named (hr : r.At ps enc n) (hf : r.focus = .operand)
    (hk : k.kind = .aliasKeyword) (hw : w.kind = .identifier) (ho : o.kind = .openBrace)
    (ts : List Token) :
    r.takes (k :: w :: o :: ts) =
      ({ r with notes := n.checkTypeName w.word }.enter (.body w.word)).takes ts := by
  simp [takes, step, operand, enter, hf, hk, hw, ho, hr.notes]

/-- The two tokens that open a payload. -/
theorem takes_payload {type : OpenType} (hr : r.At ps enc n) (hf : r.focus = .ctorName type)
    (hw : w.kind = .identifier) (ho : o.kind = .colon) (ts : List Token) :
    r.takes (w :: o :: ts) =
      ({ r with notes := n.checkCtorName type w.word }.enter (.payload type w.text)).takes ts := by
  simp [takes, step, enter, hf, hw, ho, hr.notes]

end

/-- **The reader reads every phrase**, and what it then holds is what the phrase means. -/
theorem Reads.runs {ps enc : List String} {g : Phrase} {n n' : Notes} {ts : List Token}
    (h : Reads ps g enc n ts n') : g.Runs ps enc n ts n' := by
  induction h with
  | void ht => intro r hr hf; simp [takes, step, operand, hf, ht, ← hr.notes]
  | unit ht => intro r hr hf; simp [takes, step, operand, hf, ht, ← hr.notes]
  | name ht =>
    intro r hr hf
    simp [takes, step, operand, resolve, hf, ht, hr.notes, hr.enclosing, hr.params, Token.word]
  | @parens enc n o ts c n' e ho _ hc ih =>
    intro r hr hf
    have hs : r.step o = .next (r.enter .parens) := by simp [step, operand, hf, ho]
    obtain ⟨terms, last, rfl, hts⟩ := ih (r.enter .parens)
      ⟨by simp [← hr.enclosing, enclosing, enter], hr.params, hr.notes⟩ rfl rfl
    rw [List.cons_append, takes_cons hs, takes_append hts]
    simp [takes, step, closing, leave, enter, hc]
  | @recursive enc n k w o ts c n' type hk hw ho hn _ hc ih =>
    intro r hr hf
    have hts := ih { r with focus := .ctorName { name := w.word }, notes := n.checkTypeName w.word }
      ⟨hr.enclosing, hr.params, rfl⟩ (by rw [hn])
    rw [List.cons_append, List.cons_append, List.cons_append, takes_recursive hr hf hk hw ho,
      takes_append hts]
    simp [takes, step, closeType, hc, hn]
  | @recursiveLast enc n k w o ts ts' c n₁ n₂ type name e hk hw ho hn _ _ hc ihs ihl =>
    intro r hr hf
    have hts := ihs { r with focus := .ctorName { name := w.word }, notes := n.checkTypeName w.word }
      ⟨hr.enclosing, hr.params, rfl⟩ (by rw [hn])
    obtain ⟨r', hts', hstep⟩ := ihl { r with focus := .ctorName type, notes := n₁ } c
      ⟨hr.enclosing, hr.params, rfl⟩ rfl (.inr hc)
    rw [List.cons_append, List.cons_append, List.cons_append, takes_recursive hr hf hk hw ho,
      List.append_assoc, takes_append hts, takes_append hts', takes, hstep]
    simp [afterCtor, closeType, OpenType.add, hc, hn]
  | @named enc n k w o ts c n' e hk hw ho _ hc ih =>
    intro r hr hf
    obtain ⟨terms, last, rfl, hts⟩ :=
      ih ({ r with notes := n.checkTypeName w.word }.enter (.body w.word))
        ⟨by simp [← hr.enclosing, enclosing, enter], hr.params, rfl⟩ rfl rfl
    rw [List.cons_append, List.cons_append, List.cons_append, takes_named hr hf hk hw ho,
      takes_append hts]
    simp [takes, step, closing, closeBody, leave, enter, hc, Token.word]
  | noFactors => intro r hr hf; simp [takes, ← hr.notes]
  | @moreFactors enc n ts ts' t n₁ n₂ es e _ _ ht ihs ihe =>
    intro r hr hf
    have hts' := ihe
      { r with terms := { r.terms with factors := r.terms.factors ++ es }, notes := n₁ }
      ⟨hr.enclosing, hr.params, rfl⟩ hf
    rw [List.append_assoc, takes_append (ihs r hr hf), takes_append hts']
    simp [takes, step, Terms.star, ht, hf]
  | @product enc n ts ts' n₁ n₂ es e _ _ ihs ihe =>
    intro r hr hf hfs
    have hts' := ihe { r with terms := { r.terms with factors := es }, notes := n₁ }
      ⟨hr.enclosing, hr.params, rfl⟩ hf
    refine ⟨es, e, rfl, ?_⟩
    rw [takes_append (ihs r hr hf), hfs, List.nil_append, hts']
  | noSummands => intro r hr hf hfs; simp [takes, ← hr.notes]
  | @moreSummands enc n ts ts' t n₁ n₂ es e _ _ ht ihs ihe =>
    intro r hr hf hfs
    obtain ⟨fs, last, rfl, hts'⟩ := ihe
      { r with terms := { r.terms with summands := r.terms.summands ++ es }, notes := n₁ }
      ⟨hr.enclosing, hr.params, rfl⟩ hf hfs
    rw [List.append_assoc, takes_append (ihs r hr hf hfs), takes_append hts']
    simp [takes, step, plus, ht, hf, hfs]
  | @sum enc n ts ts' n₁ n₂ es e _ _ ihs ihe =>
    intro r hr hf ht
    obtain ⟨fs, last, rfl, hts'⟩ := ihe { r with terms := ⟨es, []⟩, notes := n₁ }
      ⟨hr.enclosing, hr.params, rfl⟩ hf rfl
    refine ⟨⟨es, fs⟩, last, rfl, ?_⟩
    rw [takes_append (ihs r hr hf (by rw [ht])), ht, List.nil_append, hts']
  | @bareCtor enc n w type hw =>
    intro r t hr hf ht
    refine ⟨{ r with focus := .ctorEnd type w.text, notes := n.checkCtorName type w.word },
      by simp [takes, step, hf, hw, hr.notes], ?_⟩
    rcases ht with ht | ht <;> simp [step, afterCtor, closeType, ht]
  | @ctor enc n w c ts n' type e hw hc _ ih =>
    intro r t hr hf ht
    obtain ⟨terms, last, rfl, hts⟩ :=
      ih ({ r with notes := n.checkCtorName type w.word }.enter (.payload type w.text))
        ⟨by simp [← hr.enclosing, enclosing, enter], hr.params, rfl⟩ rfl rfl
    refine ⟨_, (takes_payload hr hf hw hc ts).trans hts, ?_⟩
    rcases ht with ht | ht <;> simp [step, closing, afterCtor, closeType, leave, enter, ht]
  | noCtors => intro r hr hf; simp [takes, ← hr.notes, ← hf]
  | @moreCtors enc n ts ts' t n₁ n₂ type name e _ _ ht ihs ihl =>
    intro r hr hf
    obtain ⟨r', hts', hstep⟩ := ihl { r with focus := .ctorName type, notes := n₁ } t
      ⟨hr.enclosing, hr.params, rfl⟩ rfl (.inl ht)
    rw [List.append_assoc, takes_append (ihs r hr hf), takes_append hts', takes, hstep]
    simp [afterCtor, ht, takes]

end TypeDesc
