/-
The canonical text of an expression is read as that expression.

A `Reading` says what tokens do to the notes. `Writes` ties a text to one: the
text spells tokens, and any tokens of that spelling, wherever they stand, have
that reading. Texts are put together as the printer does it, readings in
parallel, and `WellFormed.writes` is the result for whole expressions: printing
succeeds at every width and level, and its text writes the expression.
-/
import Mathlib.Data.List.Forall2
import TypeDesc.Description.Printer
import TypeDesc.Proofs.Outcome
import TypeDesc.Proofs.Scanned

namespace TypeDesc

/-- What tokens mean: the notes before them, the tokens, and the notes after them. -/
abbrev Reading := Notes → List Token → Notes → Prop

namespace Reading

/-- One token of a kind. -/
def token (kind : TokenKind) : Reading := fun n ts n' =>
  ∃ t, ts = [t] ∧ t.kind = kind ∧ n' = n

/-- One token that is a given name. -/
def name (name : String) : Reading := fun n ts n' =>
  ∃ t, ts = [t] ∧ t.kind = .identifier ∧ t.text = name ∧ n' = n

/-- One reading behind another. -/
def seq (P Q : Reading) : Reading := fun n ts n' =>
  ∃ n₁ ts₁ ts₂, ts = ts₁ ++ ts₂ ∧ P n ts₁ n₁ ∧ Q n₁ ts₂ n'

/-- The readings of all items, one behind the other. -/
def each {α : Type} (P : α → Reading) : List α → Reading
  | [] => fun n ts n' => ts = [] ∧ n' = n
  | a :: as => (P a).seq (each P as)

/-- The readings of all items, with a token of a kind between each two. -/
def joined {α : Type} (P : α → Reading) (kind : TokenKind) : List α → Reading
  | [] => fun n ts n' => ts = [] ∧ n' = n
  | [a] => P a
  | a :: as => ((P a).seq (token kind)).seq (joined P kind as)

end Reading

open Reading

/-- The text is a spelling of tokens that have the reading. -/
def Writes (text : String) (P : Reading) : Prop :=
  ∃ shapes, Spells text shapes ∧ ∀ ts, ts.map Token.shape = shapes → ∀ n, ∃ n', P n ts n'

namespace Writes

variable {a b : String} {P Q : Reading}

theorem plain (h : Writes a P) : Plain a :=
  h.choose_spec.1.plain

theorem imp (h : Writes a P) (hpq : ∀ n ts n', P n ts n' → ∃ n'', Q n ts n'') : Writes a Q := by
  obtain ⟨shapes, hs, hr⟩ := h
  refine ⟨shapes, hs, fun ts hts n => ?_⟩
  obtain ⟨n', hp⟩ := hr ts hts n
  exact hpq n ts n' hp

theorem token {text mark : String} {kind : TokenKind} (h : Spells text [(kind, mark)]) :
    Writes text (.token kind) := by
  refine ⟨_, h, fun ts hts n => ?_⟩
  obtain ⟨t, rfl, ht⟩ := List.map_eq_singleton_iff.1 hts
  exact ⟨n, t, rfl, congrArg Prod.fst ht, rfl⟩

theorem name {name : String} (h : IsName name) : Writes name (.name name) := by
  refine ⟨_, .name h, fun ts hts n => ?_⟩
  obtain ⟨t, rfl, ht⟩ := List.map_eq_singleton_iff.1 hts
  exact ⟨n, t, rfl, congrArg Prod.fst ht, congrArg Prod.snd ht, rfl⟩

theorem seq (ha : Writes a P) (hb : Writes b Q)
    (h : endsWord b.toList = true ∨ startsApart a.toList = true) : Writes (a ++ b) (P.seq Q) := by
  obtain ⟨sa, hsa, hra⟩ := ha
  obtain ⟨sb, hsb, hrb⟩ := hb
  refine ⟨_, hsa.append hsb h, fun ts hts n => ?_⟩
  obtain ⟨ts₁, ts₂, rfl, h₁, h₂⟩ := List.map_eq_append_iff.1 hts
  obtain ⟨n₁, hp⟩ := hra ts₁ h₁ n
  obtain ⟨n₂, hq⟩ := hrb ts₂ h₂ n₁
  exact ⟨n₂, n₁, ts₁, ts₂, rfl, hp, hq⟩

/-- Texts with a separator between them that touches no word. -/
theorem sep {sep mark : String} {kind : TokenKind} (ha : Writes a P)
    (hsep : Spells sep [(kind, mark)]) (hends : endsWord sep.toList = true)
    (hstarts : startsApart sep.toList = true) (hb : Writes b Q) :
    Writes (a ++ sep ++ b) ((P.seq (.token kind)).seq Q) := by
  refine (ha.seq (.token hsep) (.inl hends)).seq hb (.inr ?_)
  rw [String.toList_append, startsApart_append _ hsep.ne_nil]
  exact hstarts

theorem indented (h : Writes a P) (n : Int) : Writes (Text.indented a n) P := by
  obtain ⟨shapes, hs, hr⟩ := h
  exact ⟨shapes, hs.indented n, hr⟩

theorem newline (h : Writes a P) : Writes (a ++ "\n") P := by
  obtain ⟨shapes, hs, hr⟩ := h
  refine ⟨shapes, ?_, hr⟩
  simpa using hs.append (show Spells "\n" [] by decide) (.inl (by decide))

variable {α : Type} {R : α → Reading} {as : List α} {texts : List String}

/-- Texts below one another. -/
theorem lines (h : List.Forall₂ (fun a text => Writes text (R a)) as texts) :
    Writes (Text.joinWith "\n" texts) (.each R as) := by
  induction h with
  | nil => exact ⟨[], by decide, fun ts hts n => ⟨n, List.map_eq_nil_iff.1 hts, rfl⟩⟩
  | @cons a text as texts ha hs ih =>
    cases hs with
    | nil => exact ha.imp fun n ts n' hp => ⟨n', n', ts, [], by simp, hp, rfl, rfl⟩
    | cons =>
      refine ha.newline.seq ih (.inr ?_)
      rw [String.toList_append, startsApart_append _ (by decide)]
      decide

/-- Texts side by side, with a separator between each two. -/
theorem joined {sep mark : String} {kind : TokenKind} (hsep : Spells sep [(kind, mark)])
    (hends : endsWord sep.toList = true) (hstarts : startsApart sep.toList = true)
    (h : List.Forall₂ (fun a text => Writes text (R a)) as texts) :
    Writes (Text.joinWith sep texts) (.joined R kind as) := by
  induction h with
  | nil => exact ⟨[], show Spells "" [] by decide, fun ts hts n => ⟨n, List.map_eq_nil_iff.1 hts, rfl⟩⟩
  | @cons a text as texts ha hs ih =>
    cases hs with
    | nil => exact ha
    | cons => exact ha.sep hsep hends hstarts ih

end Writes

/-! ## Readings of expressions -/

/-- An expression that is read as a phrase of its own. -/
def Expr.reading (ps enc : List String) (g : Expr → Phrase) (e : Expr) : Reading := fun n ts n' =>
  Reads ps (g e) enc n ts n' ∧ n'.gist = e.noted enc.length n.gist

/-- A constructor that is read behind those of a type called `name`, unless one of them makes the
same identifier. -/
def Ctor.reading (ps enc : List String) (name : String) (ctor : Ctor Expr) : Reading := fun n ts n' =>
  (∀ type : OpenType, type.name.text = name →
    (∀ other ∈ type.ctors, ctorIdent other.name ≠ ctorIdent ctor.name) →
    Reads ps (.ctor type ctor.name ctor.payload) enc n ts n') ∧
  n'.gist = ctor.payload.noted (enc.length + 1) n.gist

/-- What is joined is a list of items with a token behind each, and a last item. -/
theorem Reading.joined_split {α : Type} {P : α → Reading} {kind : TokenKind} {n n' : Notes}
    {as : List α} {ts : List Token} (hne : as ≠ []) (h : joined P kind as n ts n') :
    ∃ init last n₁ ts₁ ts₂, as = init ++ [last] ∧ ts = ts₁ ++ ts₂ ∧
      each (fun a => (P a).seq (.token kind)) init n ts₁ n₁ ∧ P last n₁ ts₂ n' := by
  induction as generalizing n ts with
  | nil => exact absurd rfl hne
  | cons a as ih =>
    cases as with
    | nil => exact ⟨[], a, n, [], ts, rfl, rfl, ⟨rfl, rfl⟩, h⟩
    | cons b as =>
      obtain ⟨n₁, ts₁, ts₂, rfl, ha, h⟩ := h
      obtain ⟨init, last, n₂, us₁, us₂, has, rfl, hinit, hlast⟩ := ih (List.cons_ne_nil b as) h
      refine ⟨a :: init, last, n₂, ts₁ ++ us₁, us₂, by rw [has]; rfl, by simp, ?_, hlast⟩
      exact ⟨n₁, ts₁, us₁, rfl, ha, hinit⟩

namespace Terms

theorem close_eq {init : List Expr} {last first second : Expr} {rest : List Expr}
    (h : init ++ [last] = first :: second :: rest) :
    closeProduct init last = .product first second rest ∧
      closeSum init last = .sum first second rest := by
  rcases close_cases init last with rfl | ⟨first', second', rest', h', hclose⟩
  · simp at h
  · obtain ⟨rfl, rfl, rfl⟩ : first' = first ∧ second' = second ∧ rest' = rest := by simpa [h] using h'.symm
    exact hclose

end Terms

theorem CtorsDistinct.of_append {cs : List (Ctor Expr)} {c : Ctor Expr} {cs' : List (Ctor Expr)}
    (h : CtorsDistinct (cs ++ c :: cs')) :
    ∀ other ∈ cs, ctorIdent other.name ≠ ctorIdent c.name := by
  intro other ho
  rw [CtorsDistinct, List.map_append, List.nodup_append] at h
  exact h.2.2 _ (List.mem_map_of_mem ho) _ (by simp)

theorem CtorsDistinct.init {cs cs' : List (Ctor Expr)} (h : CtorsDistinct (cs ++ cs')) :
    CtorsDistinct cs := by
  rw [CtorsDistinct, List.map_append, List.nodup_append] at h
  exact h.1

section

variable {ps enc : List String}

/-- Operands with an operator behind each of them. -/
theorem each_reads {many : List Expr → Phrase} {one : Expr → Phrase} {kind : TokenKind}
    (more : ∀ {n ts ts' t n₁ n₂ es e}, Reads ps (many es) enc n ts n₁ →
      Reads ps (one e) enc n₁ ts' n₂ → t.kind = kind →
      Reads ps (many (es ++ [e])) enc n (ts ++ ts' ++ [t]) n₂)
    {es acc : List Expr} {n₀ n n' : Notes} {ts₀ ts : List Token}
    (hacc : Reads ps (many acc) enc n₀ ts₀ n)
    (hes : each (fun e => (e.reading ps enc one).seq (.token kind)) es n ts n') :
    Reads ps (many (acc ++ es)) enc n₀ (ts₀ ++ ts) n' ∧
      n'.gist = Expr.notedAll enc.length es n.gist := by
  induction es generalizing acc n ts₀ ts with
  | nil =>
    obtain ⟨rfl, rfl⟩ := hes
    exact ⟨by simpa using hacc, rfl⟩
  | cons e es ih =>
    obtain ⟨_, _, ts', rfl, ⟨n₁, ts₁, _, rfl, ⟨he, hg⟩, t, rfl, ht, rfl⟩, hes⟩ := hes
    obtain ⟨hr, hg'⟩ := ih (more hacc he ht) hes
    refine ⟨by simpa using hr, ?_⟩
    rw [hg', hg]
    rfl

theorem joined_reads_sum {first second : Expr} {rest : List Expr} {n n' : Notes} {ts : List Token}
    (h : Reading.joined (Expr.reading ps enc .product) .plus (first :: second :: rest) n ts n') :
    (Expr.sum first second rest).reading ps enc .sum n ts n' := by
  obtain ⟨init, last, n₁, ts₁, ts₂, hs, rfl, hinit, hlast, hg⟩ := joined_split (by simp) h
  obtain ⟨hr, hg'⟩ := each_reads .moreSummands .noSummands hinit
  have he : Terms.closeSum init last = .sum first second rest := (Terms.close_eq hs.symm).2
  rw [← he]
  exact ⟨.sum hr hlast, by rw [hg, hg', (Terms.noted_close _ _ _ _).2]⟩

theorem joined_reads_product {first second : Expr} {rest : List Expr} {n n' : Notes}
    {ts : List Token}
    (h : Reading.joined (Expr.reading ps enc .factor) .star (first :: second :: rest) n ts n') :
    (Expr.product first second rest).reading ps enc .product n ts n' := by
  obtain ⟨init, last, n₁, ts₁, ts₂, hs, rfl, hinit, hlast, hg⟩ := joined_split (by simp) h
  obtain ⟨hr, hg'⟩ := each_reads .moreFactors .noFactors hinit
  have he : Terms.closeProduct init last = .product first second rest := (Terms.close_eq hs.symm).1
  rw [← he]
  exact ⟨.product hr hlast, by rw [hg, hg', (Terms.noted_close _ _ _ _).1]⟩

/-- Constructors with a comma behind each of them. -/
theorem each_reads_ctors {ctors : List (Ctor Expr)} {type : OpenType} {n₀ n n' : Notes}
    {ts₀ ts : List Token} (htype : Reads ps (.ctors type) enc n₀ ts₀ n)
    (hd : CtorsDistinct (type.ctors ++ ctors))
    (h : each (fun c => (c.reading ps enc type.name.text).seq (.token .comma)) ctors n ts n') :
    Reads ps (.ctors { type with ctors := type.ctors ++ ctors }) enc n₀ (ts₀ ++ ts) n' ∧
      n'.gist = Expr.notedCtors (enc.length + 1) ctors n.gist := by
  induction ctors generalizing type n ts₀ ts with
  | nil =>
    obtain ⟨rfl, rfl⟩ := h
    exact ⟨by simpa using htype, rfl⟩
  | cons c cs ih =>
    obtain ⟨_, _, ts', rfl, ⟨n₁, ts₁, _, rfl, ⟨hc, hg⟩, t, rfl, ht, rfl⟩, hcs⟩ := h
    have hadd := Reads.moreCtors htype (hc type rfl hd.of_append) ht
    obtain ⟨hr, hg'⟩ := ih hadd (by simpa [OpenType.add] using hd) hcs
    refine ⟨by simpa [OpenType.add] using hr, ?_⟩
    rw [hg', hg]
    rfl

/-- A word and a block: what a recursive or a named type is written as. -/
def Reading.block (keyword : TokenKind) (name : String) (P : Reading) : Reading :=
  ((((token keyword).seq (.name name)).seq (token .openBrace)).seq P).seq (token .closeBrace)

theorem Writes.block {head mark opening closing body name : String} {keyword : TokenKind}
    {P : Reading} (hhead : Spells head [(keyword, mark)] ∧ startsApart head.toList = true)
    (hopen : Spells opening [(.openBrace, "\x7b")] ∧ endsWord opening.toList = true ∧
      startsApart opening.toList = true)
    (hclose : Spells closing [(.closeBrace, "\x7d")] ∧ endsWord closing.toList = true)
    (hn : IsName name) (hb : Writes body P) :
    Writes (head ++ name ++ opening ++ body ++ closing) (.block keyword name P) :=
  ((((Writes.token hhead.1).seq (.name hn) (.inr hhead.2)).sep hopen.1 hopen.2.1 hopen.2.2 hb).seq
    (.token hclose.1) (.inl hclose.2))

theorem Reading.block_eq {keyword : TokenKind} {name : String} {P : Reading} {n n' : Notes}
    {ts : List Token} (h : Reading.block keyword name P n ts n') :
    ∃ k w o ts' c, ts = k :: w :: o :: ts' ++ [c] ∧ k.kind = keyword ∧ w.kind = .identifier ∧
      w.text = name ∧ o.kind = .openBrace ∧ P n ts' n' ∧ c.kind = .closeBrace := by
  obtain ⟨_, _, _, rfl, ⟨_, _, ts', rfl, ⟨_, _, _, rfl, ⟨_, _, _, rfl, ⟨k, rfl, hk, rfl⟩, w, rfl, hw,
    hname, rfl⟩, o, rfl, ho, rfl⟩, hp⟩, c, rfl, hc, rfl⟩ := h
  exact ⟨k, w, o, ts', c, rfl, hk, hw, hname, ho, hp, hc⟩

theorem Notes.checkTypeName_eq {n : Notes} {w : Word}
    (h : typeIdent w.text ∉ Reason.generatedIdents) : n.checkTypeName w = n := by
  rw [Notes.checkTypeName, if_neg h]

theorem Notes.checkCtorName_eq {n : Notes} {type : OpenType} {w : Word}
    (hl : startsWithLetter w.text = true)
    (hd : ∀ other ∈ type.ctors, ctorIdent other.name ≠ ctorIdent w.text) :
    n.checkCtorName type w = n := by
  simp only [Notes.checkCtorName]
  rw [if_neg (by simp [hl]), if_neg (by simpa using hd)]

theorem block_reads_named {name : String} {e : Expr} {n n' : Notes} {ts : List Token}
    (hn : IsTypeName name)
    (h : Reading.block .aliasKeyword name (e.reading ps enc .sum) n ts n') :
    ∃ n'', (Expr.named name e).reading ps enc .factor n ts n'' := by
  obtain ⟨k, w, o, ts, c, rfl, hk, hw, rfl, ho, ⟨hr, hg⟩, hc⟩ := block_eq h
  have hsame : n.checkTypeName w.word = n := Notes.checkTypeName_eq hn.notGenerated
  refine ⟨_, .named hk hw ho (by rwa [hsame]) hc, ?_⟩
  rw [Notes.gist_record, hg]
  rfl

theorem block_reads_recursive {name : String} {ctors : List (Ctor Expr)} {n n' : Notes}
    {ts : List Token} (hn : IsTypeName name) (hd : CtorsDistinct ctors)
    (h : Reading.block .recKeyword name
      (each (fun c => (c.reading ps enc name).seq (.token .comma)) ctors) n ts n') :
    ∃ n'', (Expr.recursive name ctors).reading ps enc .factor n ts n'' := by
  obtain ⟨k, w, o, ts, c, rfl, hk, hw, rfl, ho, hr, hc⟩ := block_eq h
  have hsame : n.checkTypeName w.word = n := Notes.checkTypeName_eq hn.notGenerated
  have hnone : Reads ps (.ctors { name := w.word }) enc n [] n := .noCtors
  obtain ⟨hr, hg⟩ := each_reads_ctors hnone hd hr
  refine ⟨_, .recursive hk hw ho rfl (by rwa [hsame]) hc, ?_⟩
  rw [Notes.gist_record, hg]
  rfl

theorem block_reads_recursiveLast {name : String} {ctors : List (Ctor Expr)} {n n' : Notes}
    {ts : List Token} (hn : IsTypeName name) (hd : CtorsDistinct ctors) (hne : ctors ≠ [])
    (h : Reading.block .recKeyword name (joined (Ctor.reading ps enc name) .comma ctors) n ts n') :
    ∃ n'', (Expr.recursive name ctors).reading ps enc .factor n ts n'' := by
  obtain ⟨k, w, o, ts, c, rfl, hk, hw, rfl, ho, hr, hc⟩ := block_eq h
  obtain ⟨init, last, n₁, ts₁, ts₂, rfl, rfl, hinit, hlast, hg'⟩ := joined_split hne hr
  have hsame : n.checkTypeName w.word = n := Notes.checkTypeName_eq hn.notGenerated
  have hnone : Reads ps (.ctors { name := w.word }) enc n [] n := .noCtors
  obtain ⟨hr, hg⟩ := each_reads_ctors hnone hd.init hinit
  have hl := hlast ⟨w.word, init⟩ rfl hd.of_append
  refine ⟨n'.record w.word _, .recursiveLast hk hw ho rfl (by rwa [hsame]) hl hc, ?_⟩
  rw [Notes.gist_record, hg', hg, Expr.noted, Expr.notedCtors_append]
  rfl

/-! ## Operands -/

/-- The phrase that an operand at a level is. -/
def Phrase.operand (outer : Int) (e : Expr) : Phrase :=
  if outer ≤ Expr.sumLevel then .sum e
  else if outer ≤ Expr.productLevel then .product e
  else .factor e

@[simp] theorem Phrase.operand_zero : Phrase.operand 0 = .sum := rfl

@[simp] theorem Phrase.operand_summand : Phrase.operand (Expr.sumLevel + 1) = .product := rfl

@[simp] theorem Phrase.operand_factor : Phrase.operand (Expr.productLevel + 1) = .factor := rfl

variable {e : Expr} {n n' : Notes} {ts : List Token}

theorem reading_product_of_factor (h : e.reading ps enc .factor n ts n') :
    e.reading ps enc .product n ts n' :=
  ⟨.product .noFactors h.1, h.2⟩

theorem reading_sum_of_product (h : e.reading ps enc .product n ts n') :
    e.reading ps enc .sum n ts n' :=
  ⟨.sum .noSummands h.1, h.2⟩

theorem reading_operand_of_product (h : e.reading ps enc .product n ts n') {outer : Int}
    (ho : outer ≤ Expr.productLevel) : e.reading ps enc (.operand outer) n ts n' := by
  simp only [Expr.reading, Phrase.operand, ho, if_true]
  split
  next => exact reading_sum_of_product h
  next => exact h

theorem reading_operand_of_factor (h : e.reading ps enc .factor n ts n') (outer : Int) :
    e.reading ps enc (.operand outer) n ts n' := by
  by_cases ho : outer ≤ Expr.productLevel
  · exact reading_operand_of_product (reading_product_of_factor h) ho
  · have hs : ¬ outer ≤ Expr.sumLevel := fun hs =>
      ho (Int.le_trans hs (by decide))
    simpa only [Expr.reading, Phrase.operand, hs, ho, if_false] using h

theorem Writes.parenthesized {text : String} (h : Writes text (e.reading ps enc .sum)) :
    Writes (Text.parenthesized text) (e.reading ps enc .factor) := by
  have hopen : Spells "(" [(.openParen, "(")] := by decide
  have hclose : Spells ")" [(.closeParen, ")")] := by decide
  refine (((Writes.token hopen).seq h (.inr (by decide))).seq (.token hclose) (.inl (by decide))).imp ?_
  rintro n _ _ ⟨_, _, _, rfl, ⟨_, _, ts, rfl, ⟨o, rfl, ho, rfl⟩, hr, hg⟩, c, rfl, hc, rfl⟩
  exact ⟨_, .parens ho hr hc, hg⟩

theorem Writes.wrapSum {text : String} (h : Writes text (e.reading ps enc .sum)) (outer : Int) :
    Writes (Expr.wrap Expr.sumLevel outer text) (e.reading ps enc (.operand outer)) := by
  rw [Expr.wrap]
  split
  next => exact h.parenthesized.imp fun _ _ n' hr => ⟨n', reading_operand_of_factor hr outer⟩
  next ho =>
    have hs : Phrase.operand outer = .sum := by
      funext e
      rw [Phrase.operand, if_pos (Int.not_lt.1 ho)]
    rwa [hs]

theorem Writes.wrapProduct {text : String} (h : Writes text (e.reading ps enc .product))
    (outer : Int) :
    Writes (Expr.wrap Expr.productLevel outer text) (e.reading ps enc (.operand outer)) := by
  rw [Expr.wrap]
  split
  next =>
    have hs := (h.imp fun _ _ n' hr => ⟨n', reading_sum_of_product hr⟩).parenthesized
    exact hs.imp fun _ _ n' hr => ⟨n', reading_operand_of_factor hr outer⟩
  next ho =>
    exact h.imp fun _ _ n' hr => ⟨n', reading_operand_of_product hr (Int.not_lt.1 ho)⟩

/-! ## Printing -/

variable {width : Text.Width}

/-- The expression has a text as an operand at `outer`, and that text is read as the expression. -/
def Expr.Written (width : Text.Width) (ps enc : List String) (outer : Int) (e : Expr) (text : String) :
    Prop :=
  e.print width (enc ++ ps) outer = .ok text ∧ Writes text (e.reading ps enc (.operand outer))

theorem printAll_written {outer : Int} {es : List Expr}
    (h : ∀ e ∈ es, ∃ text, e.Written width ps enc outer text) :
    ∃ texts, Expr.printAll width (enc ++ ps) outer es = .ok texts ∧
      List.Forall₂ (fun e text => Writes text (e.reading ps enc (.operand outer))) es texts := by
  induction es with
  | nil => exact ⟨[], rfl, .nil⟩
  | cons e es ih =>
    rw [List.forall_mem_cons] at h
    obtain ⟨⟨text, hp, hw⟩, hes⟩ := h
    obtain ⟨texts, hps, hws⟩ := ih hes
    exact ⟨text :: texts, by simp only [Expr.printAll, hp, hps, ok_bind], .cons hw hws⟩

theorem Ctor.writes_bare {name ctor : String} (hn : IsCtorName ctor) :
    Writes ctor (Ctor.reading ps enc name ⟨ctor, .unit⟩) := by
  refine (Writes.name hn.isName).imp ?_
  rintro _ _ n ⟨w, rfl, hw, rfl, rfl⟩
  refine ⟨n, fun type _ hd => ?_, rfl⟩
  have hr : Reads ps (.ctor type w.text .unit) enc n [w] (n.checkCtorName type w.word) := .bareCtor hw
  rwa [Notes.checkCtorName_eq (w := w.word) hn.letter hd] at hr

theorem Ctor.writes {name ctor text : String} (hn : IsCtorName ctor)
    (h : Writes text (e.reading ps (name :: enc) .sum)) :
    Writes (ctor ++ ": " ++ text) (Ctor.reading ps enc name ⟨ctor, e⟩) := by
  have hcolon : Spells ": " [(.colon, ":")] := by decide
  refine ((Writes.name hn.isName).sep hcolon (by decide) (by decide) h).imp ?_
  rintro n _ n' ⟨_, _, ts, rfl, ⟨_, _, _, rfl, ⟨w, rfl, hw, rfl, rfl⟩, c, rfl, hc, rfl⟩, hr, hg⟩
  refine ⟨n', ?_, hg⟩
  rintro type rfl hd
  exact .ctor hw hc (by rwa [Notes.checkCtorName_eq (w := w.word) hn.letter hd])

theorem printCtors_written {name : String} {ctors : List (Ctor Expr)}
    (hn : ∀ ctor ∈ ctors, IsCtorName ctor.name)
    (h : ∀ ctor ∈ ctors, ∃ text, ctor.payload.Written width ps (name :: enc) 0 text) :
    ∃ texts, Expr.printCtors width (name :: (enc ++ ps)) ctors = .ok texts ∧
      List.Forall₂ (fun ctor text => Writes text (Ctor.reading ps enc name ctor)) ctors texts := by
  induction ctors with
  | nil => exact ⟨[], rfl, .nil⟩
  | cons ctor ctors ih =>
    rw [List.forall_mem_cons] at h hn
    obtain ⟨texts, hps, hws⟩ := ih hn.2 h.2
    obtain ⟨ctor, e⟩ := ctor
    by_cases he : e = .unit
    · subst he
      exact ⟨ctor :: texts, by simp only [Expr.printCtors, hps, ok_bind],
        .cons (Ctor.writes_bare hn.1) hws⟩
    · obtain ⟨⟨text, hp, hw⟩, -⟩ := h
      refine ⟨(ctor ++ ": " ++ text) :: texts, ?_, .cons (Ctor.writes hn.1 hw) hws⟩
      rw [Expr.printCtors.eq_3 _ _ _ _ _ he]
      rw [List.cons_append] at hp
      simp only [hp, hps, ok_bind]

theorem Writes.emptyType {name : String} (hn : IsTypeName name) :
    Writes ("rec " ++ name ++ " \x7b\x7d") ((Expr.recursive name []).reading ps enc .factor) := by
  have hblock : Writes ("rec " ++ name ++ " \x7b" ++ "" ++ "\x7d") (.block .recKeyword name
      (each (fun c => (Ctor.reading ps enc name c).seq (.token .comma)) [])) :=
    Writes.block (show Spells "rec " [(.recKeyword, "rec")] ∧ _ by decide) (by decide) (by decide)
      hn.isName (.lines .nil)
  rw [String.append_assoc, String.append_assoc] at hblock
  exact hblock.imp fun _ _ _ => block_reads_recursive hn .nil

theorem printType_writes {name : String} {ctors : List (Ctor Expr)} {texts : List String}
    (hn : IsTypeName name) (hd : CtorsDistinct ctors) (hne : ctors ≠ [])
    (h : List.Forall₂ (fun ctor text => Writes text (Ctor.reading ps enc name ctor)) ctors texts) :
    Writes (Expr.printType width name texts) ((Expr.recursive name ctors).reading ps enc .factor) := by
  have hhead : Spells "rec " [(.recKeyword, "rec")] ∧ startsApart "rec ".toList = true := by decide
  simp only [Expr.printType]
  split
  next =>
    have hbody := Writes.joined (show Spells ", " [(.comma, ",")] by decide) (by decide) (by decide) h
    exact (Writes.block hhead (by decide) (by decide) hn.isName hbody).imp
      fun _ _ _ => block_reads_recursiveLast hn hd hne
  next =>
    have hlines : List.Forall₂ (fun ctor text => Writes text
        ((Ctor.reading ps enc name ctor).seq (.token .comma))) ctors
        (texts.map fun text => Text.indented (text ++ ",") 2) :=
      List.forall₂_map_right_iff.2 (h.imp fun _ _ hw =>
        (hw.seq (.token (show Spells "," [(.comma, ",")] by decide)) (.inl (by decide))).indented 2)
    have hbody := Writes.lines hlines
    exact (Writes.block hhead (by decide) (by decide) hn.isName hbody).imp
      fun _ _ _ => block_reads_recursive hn hd

theorem Writes.void : Writes "void" (Expr.void.reading ps enc .factor) := by
  refine (Writes.token (show Spells "void" [(.void, "void")] by decide)).imp ?_
  rintro _ _ n ⟨t, rfl, ht, rfl⟩
  exact ⟨n, .void ht, rfl⟩

theorem Writes.unit : Writes "unit" (Expr.unit.reading ps enc .factor) := by
  refine (Writes.token (show Spells "unit" [(.unit, "unit")] by decide)).imp ?_
  rintro _ _ n ⟨t, rfl, ht, rfl⟩
  exact ⟨n, .unit ht, rfl⟩

theorem Writes.var {name : String} {i : Nat} (hn : IsName name)
    (hi : (enc ++ ps).idxOf? name = some i) :
    Writes name ((Expr.var i).reading ps enc .factor) := by
  refine (Writes.name hn).imp ?_
  rintro _ _ n ⟨t, rfl, ht, rfl, rfl⟩
  have hr : Reads ps (.factor (.ofName (enc ++ ps) t.text)) enc n [t] (n.mention enc ps t.word) :=
    .name ht
  have hm : n.mention enc ps t.word = n.use enc.length i := by
    simp only [Notes.mention, Token.word, hi]
  rw [Expr.ofName, hi, hm] at hr
  exact ⟨_, hr, Notes.gist_use ..⟩

theorem Writes.operand {text : String} (h : Writes text (e.reading ps enc .factor)) (outer : Int) :
    Writes text (e.reading ps enc (.operand outer)) :=
  h.imp fun _ _ n' hr => ⟨n', reading_operand_of_factor hr outer⟩

/-- **The text of a well-formed expression**: it exists at every width and level, and it is read as
that expression. -/
theorem Expr.WellFormed.written {scope : List String} (h : e.WellFormed scope)
    (hs : ∀ name ∈ scope, IsName name) (hscope : scope = enc ++ ps) (width : Text.Width)
    (outer : Int) :
    ∃ text, e.Written width ps enc outer text := by
  induction h generalizing enc outer with
  | void => exact ⟨"void", rfl, Writes.void.operand outer⟩
  | unit => exact ⟨"unit", rfl, Writes.unit.operand outer⟩
  | @var scope name i hi =>
    subst hscope
    obtain ⟨hlt, hget, -⟩ := List.idxOf?_eq_some_iff.1 hi
    have hmem : name ∈ enc ++ ps := hget ▸ List.getElem_mem hlt
    refine ⟨name, ?_, (Writes.var (hs name hmem) hi).operand outer⟩
    rw [Expr.print, Expr.nameAt, List.getElem?_eq_getElem hlt, hget]
  | sum ha hb hr iha ihb ihr =>
    obtain ⟨text, hp, hw⟩ := iha hs hscope (sumLevel + 1)
    obtain ⟨text', hp', hw'⟩ := ihb hs hscope (sumLevel + 1)
    obtain ⟨texts, hps, hws⟩ := printAll_written fun e he => ihr e he hs hscope (sumLevel + 1)
    have hsum := (Writes.joined (show Spells " + " [(.plus, "+")] by decide) (by decide) (by decide)
      (.cons hw (.cons hw' hws))).imp fun _ _ n' hr => ⟨n', joined_reads_sum hr⟩
    exact ⟨_, by simp only [Expr.print, hp, hp', hps, ok_bind], hsum.wrapSum outer⟩
  | product ha hb hr iha ihb ihr =>
    obtain ⟨text, hp, hw⟩ := iha hs hscope (productLevel + 1)
    obtain ⟨text', hp', hw'⟩ := ihb hs hscope (productLevel + 1)
    obtain ⟨texts, hps, hws⟩ := printAll_written fun e he => ihr e he hs hscope (productLevel + 1)
    have hproduct := (Writes.joined (show Spells " * " [(.star, "*")] by decide) (by decide)
      (by decide) (.cons hw (.cons hw' hws))).imp fun _ _ n' hr => ⟨n', joined_reads_product hr⟩
    exact ⟨_, by simp only [Expr.print, hp, hp', hps, ok_bind], hproduct.wrapProduct outer⟩
  | @recursive scope name ctors hn hd hc hr ih =>
    subst hscope
    have hs' : ∀ x ∈ name :: (enc ++ ps), IsName x := List.forall_mem_cons.2 ⟨hn.isName, hs⟩
    obtain ⟨texts, hps, hws⟩ := printCtors_written hc fun ctor hm => ih ctor hm hs' rfl 0
    cases ctors with
    | nil => exact ⟨_, rfl, (Writes.emptyType hn).operand outer⟩
    | cons ctor ctors =>
      exact ⟨_, by rw [Expr.print.eq_7 _ _ _ _ _ (by simp), hps]; rfl,
        (printType_writes hn hd (by simp) hws).operand outer⟩
  | @named scope name body hn hb ih =>
    obtain ⟨text, hp, hw⟩ := ih hs hscope 0
    have hblock : Writes ("alias " ++ name ++ " \x7b " ++ text ++ " \x7d")
        (.block .aliasKeyword name (body.reading ps enc .sum)) :=
      Writes.block (show Spells "alias " [(.aliasKeyword, "alias")] ∧ _ by decide) (by decide)
        (by decide) hn.isName hw
    have hfactor := hblock.imp fun _ _ _ => block_reads_named hn
    exact ⟨_, by simp only [Expr.print, hp, ok_bind], hfactor.operand outer⟩

end

end TypeDesc
