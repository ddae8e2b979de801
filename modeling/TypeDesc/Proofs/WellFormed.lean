/-
What holds of every expression that is read without an error: each variable is
the first of its name in scope, type names are not those of generated types, and
the constructors of a type make different identifiers (`Expr.WellFormed`).

What is noted about names is then a function of the expression alone, places
aside (`Expr.noted`): two texts that read as the same expression leave the same
notes. Both are `Reads.sound`, one induction over phrases.
-/
import TypeDesc.Proofs.Grammar

namespace TypeDesc

/-! ## Well-formed expressions -/

/-- A text that is scanned as one name. -/
structure IsName (text : String) : Prop where
  word : ∃ c cs, text.toList = c :: cs ∧ Lexeme.startsWord c = true ∧
    ∀ x ∈ cs, Lexeme.continuesWord x = true
  kind : TokenKind.ofWord text = .identifier

/-- A name that a description may declare as a type. -/
structure IsTypeName (name : String) : Prop where
  isName : IsName name
  notGenerated : typeIdent name ∉ Reason.generatedIdents

/-- A name that a description may give to a constructor. -/
structure IsCtorName (name : String) : Prop where
  isName : IsName name
  letter : startsWithLetter name = true

/-- Constructors that make different identifiers. -/
def CtorsDistinct (ctors : List (Ctor Expr)) : Prop :=
  (ctors.map fun ctor => ctorIdent ctor.name).Nodup

/-- An expression as it is read without an error where the names `scope` are bound. -/
inductive Expr.WellFormed : List String → Expr → Prop
  | void {scope} : WellFormed scope .void
  | unit {scope} : WellFormed scope .unit
  | var {scope name i} (h : scope.idxOf? name = some i) : WellFormed scope (.var i)
  | sum {scope a b rest} (ha : WellFormed scope a) (hb : WellFormed scope b)
    (hs : ∀ e ∈ rest, WellFormed scope e) : WellFormed scope (.sum a b rest)
  | product {scope a b rest} (ha : WellFormed scope a) (hb : WellFormed scope b)
    (hs : ∀ e ∈ rest, WellFormed scope e) : WellFormed scope (.product a b rest)
  | recursive {scope name ctors} (hn : IsTypeName name) (hd : CtorsDistinct ctors)
    (hc : ∀ ctor ∈ ctors, IsCtorName ctor.name)
    (hs : ∀ ctor ∈ ctors, WellFormed (name :: scope) ctor.payload) :
    WellFormed scope (.recursive name ctors)
  | named {scope name body} (hn : IsTypeName name) (hb : WellFormed scope body) :
    WellFormed scope (.named name body)

/-! ## Notes without places -/

/-- What notes say, places aside. -/
structure Gist where
  used : List Nat
  declared : List (String × Expr)
  findings : List Finding

/-- What the notes say, places aside. -/
def Notes.gist (n : Notes) : Gist where
  used := n.used
  declared := n.declared.map fun d => (d.name.text, d.type)
  findings := n.reports.map (·.finding)

namespace Gist

/-- See `Notes.use`. -/
def use (g : Gist) (depth index : Nat) : Gist :=
  if depth ≤ index then { g with used := (index - depth) :: g.used } else g

/-- See `Notes.record`. -/
def record (g : Gist) (name : String) (type : Expr) : Gist :=
  match g.declared.find? fun d => typeIdent d.1 == typeIdent name with
  | none => { g with declared := g.declared ++ [(name, type)] }
  | some earlier =>
    if earlier.1 ≠ name then
      { g with findings := g.findings ++ [.sameIdent name earlier.1 (typeIdent name)] }
    else if earlier.2 ≠ type then { g with findings := g.findings ++ [.redeclared name] }
    else g

end Gist

namespace Expr

mutual
/-- What is noted once a well-formed expression inside `depth` recursive types has been read. -/
def noted (depth : Nat) : Expr → Gist → Gist
  | .var index, g => g.use depth index
  | .sum first second rest, g => notedAll depth rest (noted depth second (noted depth first g))
  | .product first second rest, g => notedAll depth rest (noted depth second (noted depth first g))
  | .recursive name ctors, g => (notedCtors (depth + 1) ctors g).record name (.recursive name ctors)
  | .named name body, g => (noted depth body g).record name (.named name body)
  | _, g => g

/-- What is noted once expressions have been read one after the other. -/
def notedAll (depth : Nat) : List Expr → Gist → Gist
  | [], g => g
  | e :: es, g => notedAll depth es (noted depth e g)

/-- What is noted once the payloads of constructors have been read. -/
def notedCtors (depth : Nat) : List (Ctor Expr) → Gist → Gist
  | [], g => g
  | ⟨_, e⟩ :: ctors, g => notedCtors depth ctors (noted depth e g)
end

theorem notedAll_append (depth : Nat) (es es' : List Expr) (g : Gist) :
    notedAll depth (es ++ es') g = notedAll depth es' (notedAll depth es g) := by
  induction es generalizing g with
  | nil => rfl
  | cons e es ih => simp only [List.cons_append, notedAll, ih]

theorem notedCtors_append (depth : Nat) (cs cs' : List (Ctor Expr)) (g : Gist) :
    notedCtors depth (cs ++ cs') g = notedCtors depth cs' (notedCtors depth cs g) := by
  induction cs generalizing g with
  | nil => rfl
  | cons c cs ih => simp only [List.cons_append, notedCtors, ih]

end Expr

theorem Notes.gist_use (n : Notes) (depth index : Nat) :
    (n.use depth index).gist = n.gist.use depth index := by
  simp only [Notes.use, Gist.use]
  split <;> rfl

theorem Notes.gist_report (n : Notes) (finding : Finding) (span : Span) :
    (n.report finding span).gist = { n.gist with findings := n.gist.findings ++ [finding] } := by
  simp [Notes.report, Notes.gist, Report.located]

theorem Notes.gist_record (n : Notes) (name : Word) (type : Expr) :
    (n.record name type).gist = n.gist.record name.text type := by
  have hf : n.gist.declared.find? (fun d => typeIdent d.1 == typeIdent name.text) =
      (n.declared.find? fun d => typeIdent d.name.text == typeIdent name.text).map
        fun d => (d.name.text, d.type) := by
    rw [Notes.gist, List.find?_map]
    rfl
  simp only [Notes.record, Gist.record, hf]
  cases n.declared.find? fun d => typeIdent d.name.text == typeIdent name.text with
  | none => simp [Notes.gist]
  | some earlier =>
    simp only [Option.map_some]
    split
    next => rw [Notes.gist_report]
    next =>
      split
      next => rw [Notes.gist_report]
      next => rfl

/-! ## Notes without errors -/

/-- None of the reports is of an error. -/
def Notes.Clean (n : Notes) : Prop :=
  ∀ report ∈ n.reports, report.isError = false

namespace Notes.Clean

variable {n : Notes} {w : Word}

theorem of_report {finding : Finding} {span : Span} (h : (n.report finding span).Clean) :
    n.Clean ∧ finding.severity ≠ .error := by
  simp only [Notes.Clean, Notes.report, List.mem_append, List.mem_singleton, or_imp, forall_and,
    forall_eq, Report.isError, Report.located] at h
  exact ⟨h.1, by simpa using h.2⟩

theorem mention {enc ps : List String} (h : (n.mention enc ps w).Clean) :
    n.Clean ∧ ∃ i, (enc ++ ps).idxOf? w.text = some i ∧ n.mention enc ps w = n.use enc.length i := by
  simp only [Notes.mention] at h ⊢
  split at h
  next i hi =>
    refine ⟨?_, i, hi, rfl⟩
    simp only [Notes.use] at h
    split at h <;> exact h
  next => exact absurd rfl (of_report h).2

theorem checkTypeName (h : (n.checkTypeName w).Clean) :
    n.Clean ∧ typeIdent w.text ∉ Reason.generatedIdents ∧ n.checkTypeName w = n := by
  simp only [Notes.checkTypeName] at h ⊢
  split at h
  next => exact absurd rfl (of_report h).2
  next hg => exact ⟨h, hg, by simp only [hg, if_false]⟩

theorem checkCtorName {type : OpenType} (h : (n.checkCtorName type w).Clean) :
    n.Clean ∧ startsWithLetter w.text = true ∧
      (∀ ctor ∈ type.ctors, ctorIdent ctor.name ≠ ctorIdent w.text) ∧ n.checkCtorName type w = n := by
  simp only [Notes.checkCtorName] at h ⊢
  split at h
  next => exact absurd rfl (of_report h).2
  next hl =>
    split at h
    next => exact absurd rfl (of_report h).2
    next hd =>
      refine ⟨h, by simpa using hl, by simpa using hd, by simp [hl, hd]⟩

theorem record {type : Expr} (h : (n.record w type).Clean) : n.Clean := by
  simp only [Notes.record] at h
  split at h
  next => exact h
  next =>
    split at h
    next => exact (of_report h).1
    next =>
      split at h
      next => exact (of_report h).1
      next => exact h

end Notes.Clean

theorem Reads.clean {ps enc : List String} {g : Phrase} {n n' : Notes} {ts : List Token}
    (h : Reads ps g enc n ts n') : n'.Clean → n.Clean := by
  induction h with
  | void | unit | noFactors | noSummands | noCtors => exact id
  | name => exact fun h => h.mention.1
  | parens _ _ _ ih => exact ih
  | recursive _ _ _ _ _ _ ih => exact fun h => (ih h.record).checkTypeName.1
  | recursiveLast _ _ _ _ _ _ _ ihs ihl => exact fun h => (ihs (ihl h.record)).checkTypeName.1
  | named _ _ _ _ _ ih => exact fun h => (ih h.record).checkTypeName.1
  | moreFactors _ _ _ ihs ihe => exact fun h => ihs (ihe h)
  | product _ _ ihs ihe => exact fun h => ihs (ihe h)
  | moreSummands _ _ _ ihs ihe => exact fun h => ihs (ihe h)
  | sum _ _ ihs ihe => exact fun h => ihs (ihe h)
  | bareCtor => exact fun h => h.checkCtorName.1
  | ctor _ _ _ ih => exact fun h => (ih h).checkCtorName.1
  | moreCtors _ _ _ ihs ihl => exact fun h => ihs (ihl h)

/-! ## Sums and products as the reader builds them -/

namespace Terms

/-- A single operand stands for itself, and more make a product or a sum. -/
theorem close_cases (es : List Expr) (e : Expr) :
    es = [] ∨ ∃ first second rest, es ++ [e] = first :: second :: rest ∧
      closeProduct es e = .product first second rest ∧ closeSum es e = .sum first second rest := by
  match es with
  | [] => exact .inl rfl
  | [first] => exact .inr ⟨first, e, [], rfl, rfl, rfl⟩
  | first :: second :: rest => exact .inr ⟨first, second, rest ++ [e], rfl, rfl, rfl⟩

theorem close_wellFormed {scope : List String} {es : List Expr} {e : Expr}
    (hs : ∀ e ∈ es, e.WellFormed scope) (he : e.WellFormed scope) :
    (closeProduct es e).WellFormed scope ∧ (closeSum es e).WellFormed scope := by
  have hall : ∀ x ∈ es ++ [e], x.WellFormed scope :=
    List.forall_mem_append.2 ⟨hs, by simpa using he⟩
  rcases close_cases es e with rfl | ⟨first, second, rest, h, hproduct, hsum⟩
  · exact ⟨he, he⟩
  · simp only [h, List.forall_mem_cons] at hall
    obtain ⟨hfirst, hsecond, hrest⟩ := hall
    rw [hproduct, hsum]
    exact ⟨.product hfirst hsecond hrest, .sum hfirst hsecond hrest⟩

theorem noted_close (depth : Nat) (es : List Expr) (e : Expr) (g : Gist) :
    (closeProduct es e).noted depth g = e.noted depth (Expr.notedAll depth es g) ∧
      (closeSum es e).noted depth g = e.noted depth (Expr.notedAll depth es g) := by
  rcases close_cases es e with rfl | ⟨first, second, rest, h, hproduct, hsum⟩
  · exact ⟨rfl, rfl⟩
  · have hall := Expr.notedAll_append depth es [e] g
    rw [h] at hall
    rw [hproduct, hsum]
    exact ⟨hall, hall⟩

end Terms

/-! ## Phrases without errors -/

/-- What the phrase means is well formed, and what it left noted is told by that alone. -/
def Phrase.Sound (ps enc : List String) (n n' : Notes) : Phrase → Prop
  | .factor e | .product e | .sum e =>
    e.WellFormed (enc ++ ps) ∧ n'.gist = e.noted enc.length n.gist
  | .factors es | .summands es =>
    (∀ e ∈ es, e.WellFormed (enc ++ ps)) ∧ n'.gist = Expr.notedAll enc.length es n.gist
  | .ctor type name e =>
    IsCtorName name ∧ (∀ ctor ∈ type.ctors, ctorIdent ctor.name ≠ ctorIdent name) ∧
      e.WellFormed (type.name.text :: (enc ++ ps)) ∧ n'.gist = e.noted (enc.length + 1) n.gist
  | .ctors type =>
    CtorsDistinct type.ctors ∧ (∀ ctor ∈ type.ctors, IsCtorName ctor.name) ∧
      (∀ ctor ∈ type.ctors, ctor.payload.WellFormed (type.name.text :: (enc ++ ps))) ∧
      n'.gist = Expr.notedCtors (enc.length + 1) type.ctors n.gist

theorem Phrase.Sound.add {ps enc : List String} {n n₁ n₂ : Notes} {type : OpenType}
    {name : String} {e : Expr} (hs : (Phrase.ctors type).Sound ps enc n n₁)
    (hl : (Phrase.ctor type name e).Sound ps enc n₁ n₂) :
    (Phrase.ctors (type.add name e)).Sound ps enc n n₂ := by
  obtain ⟨hd, hc, hw, hg⟩ := hs
  obtain ⟨hn, hne, he, hg'⟩ := hl
  refine ⟨?_, ?_, ?_, ?_⟩
  · simp only [CtorsDistinct, OpenType.add, List.map_append, List.map_cons, List.map_nil]
    refine List.nodup_append.2 ⟨hd, by simp, ?_⟩
    simp only [List.mem_map, List.mem_singleton]
    rintro _ ⟨ctor, hm, rfl⟩ _ rfl
    exact hne ctor hm
  · simp only [OpenType.add, List.mem_append, List.mem_singleton]
    rintro ctor (hm | rfl)
    · exact hc ctor hm
    · exact hn
  · simp only [OpenType.add, List.mem_append, List.mem_singleton]
    rintro ctor (hm | rfl)
    · exact hw ctor hm
    · exact he
  · rw [hg', hg, OpenType.add, Expr.notedCtors_append]
    rfl

theorem Phrase.Sound.close {ps enc : List String} {n n' : Notes} {w : Word} {type : OpenType}
    (hs : (Phrase.ctors type).Sound ps enc n n') (hw : type.name = w) (hn : IsTypeName w.text) :
    (Phrase.factor type.close).Sound ps enc n (n'.record w type.close) := by
  subst hw
  obtain ⟨hd, hc, hp, hg⟩ := hs
  refine ⟨.recursive hn hd hc hp, ?_⟩
  rw [Notes.gist_record, hg]
  rfl

/-- **Phrases that are read without an error.** -/
theorem Reads.sound {ps enc : List String} {g : Phrase} {n n' : Notes} {ts : List Token}
    (h : Reads ps g enc n ts n') (hts : ∀ t ∈ ts, t.kind = .identifier → IsName t.text)
    (hc : n'.Clean) : g.Sound ps enc n n' := by
  induction h with
  | void => exact ⟨.void, rfl⟩
  | unit => exact ⟨.unit, rfl⟩
  | name ht =>
    obtain ⟨-, i, hi, hu⟩ := hc.mention
    simp only [Token.word] at hi
    simp only [Phrase.Sound, Expr.ofName, hi, hu]
    exact ⟨.var hi, Notes.gist_use ..⟩
  | parens _ _ _ ih => exact ih (fun t ht => hts t (by simp [ht])) hc
  | recursive _ hw _ hn hs _ ih =>
    have hc₁ := hc.record
    obtain ⟨-, hg, hsame⟩ := (hs.clean hc₁).checkTypeName
    have hi := ih (fun t ht => hts t (by simp [ht])) hc₁
    rw [hsame] at hi
    exact hi.close hn ⟨hts _ (by simp) hw, hg⟩
  | recursiveLast _ hw _ hn hs hl _ ihs ihl =>
    have hc₂ := hc.record
    have hc₁ := hl.clean hc₂
    obtain ⟨-, hg, hsame⟩ := (hs.clean hc₁).checkTypeName
    have hi := ihs (fun t ht => hts t (by simp [ht])) hc₁
    rw [hsame] at hi
    exact (hi.add (ihl (fun t ht => hts t (by simp [ht])) hc₂)).close hn ⟨hts _ (by simp) hw, hg⟩
  | named _ hw _ he _ ih =>
    have hc₁ := hc.record
    obtain ⟨-, hg, hsame⟩ := (he.clean hc₁).checkTypeName
    obtain ⟨hwf, hgist⟩ := ih (fun t ht => hts t (by simp [ht])) hc₁
    rw [hsame] at hgist
    refine ⟨.named ⟨hts _ (by simp) hw, hg⟩ hwf, ?_⟩
    rw [Notes.gist_record, hgist]
    rfl
  | noFactors => exact ⟨by simp, rfl⟩
  | noSummands => exact ⟨by simp, rfl⟩
  | moreFactors _ he _ ihs ihe =>
    obtain ⟨hs, hg⟩ := ihs (fun t ht => hts t (by simp [ht])) (he.clean hc)
    obtain ⟨he, hg'⟩ := ihe (fun t ht => hts t (by simp [ht])) hc
    refine ⟨?_, by rw [hg', hg, Expr.notedAll_append]; rfl⟩
    simp only [List.mem_append, List.mem_singleton]
    rintro x (hx | rfl)
    · exact hs x hx
    · exact he
  | moreSummands _ he _ ihs ihe =>
    obtain ⟨hs, hg⟩ := ihs (fun t ht => hts t (by simp [ht])) (he.clean hc)
    obtain ⟨he, hg'⟩ := ihe (fun t ht => hts t (by simp [ht])) hc
    refine ⟨?_, by rw [hg', hg, Expr.notedAll_append]; rfl⟩
    simp only [List.mem_append, List.mem_singleton]
    rintro x (hx | rfl)
    · exact hs x hx
    · exact he
  | product _ he ihs ihe =>
    obtain ⟨hs, hg⟩ := ihs (fun t ht => hts t (by simp [ht])) (he.clean hc)
    obtain ⟨he, hg'⟩ := ihe (fun t ht => hts t (by simp [ht])) hc
    exact ⟨(Terms.close_wellFormed hs he).1, by rw [hg', hg, (Terms.noted_close _ _ _ _).1]⟩
  | sum _ he ihs ihe =>
    obtain ⟨hs, hg⟩ := ihs (fun t ht => hts t (by simp [ht])) (he.clean hc)
    obtain ⟨he, hg'⟩ := ihe (fun t ht => hts t (by simp [ht])) hc
    exact ⟨(Terms.close_wellFormed hs he).2, by rw [hg', hg, (Terms.noted_close _ _ _ _).2]⟩
  | bareCtor hw =>
    obtain ⟨-, hl, hd, hsame⟩ := hc.checkCtorName
    exact ⟨⟨hts _ (by simp) hw, hl⟩, hd, .unit, by rw [hsame]; rfl⟩
  | ctor hw _ he ih =>
    obtain ⟨-, hl, hd, hsame⟩ := (he.clean hc).checkCtorName
    obtain ⟨hwf, hg⟩ := ih (fun t ht => hts t (by simp [ht])) hc
    rw [hsame] at hg
    exact ⟨⟨hts _ (by simp) hw, hl⟩, hd, hwf, hg⟩
  | noCtors => exact ⟨by simp [CtorsDistinct], by simp, by simp, rfl⟩
  | moreCtors _ hl _ ihs ihl =>
    exact (ihs (fun t ht => hts t (by simp [ht])) (hl.clean hc)).add
      (ihl (fun t ht => hts t (by simp [ht])) hc)

end TypeDesc
