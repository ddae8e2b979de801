/-
What is noted about the places where types are declared. A type is noted when it
ends, so that of the places of one identifier the first to be closed is listed
(`SourceTree.mem_declared`). Every later one is reported if its type differs
(`SourceTree.mem_reports`).

No two places have the same span, since the tokens of a text stand one behind the
other (`scan_ascending`); so a span tells which place is meant.
-/
import TypeDesc.Proofs.Pieces
import TypeDesc.Proofs.Sites
import TypeDesc.Proofs.TreeNotes

namespace TypeDesc

/-! ## Spans of tokens -/

/-- The span `s` starts before the span `t`. -/
def Span.Before (s t : Span) : Prop :=
  s.startLine < t.startLine ∨ s.startLine = t.startLine ∧ s.startCol < t.startCol

/-- The span starts at the position or behind it. -/
def Position.UpTo (p : Position) (s : Span) : Prop :=
  p.line < s.startLine ∨ p.line = s.startLine ∧ p.col ≤ s.startCol

theorem Span.Before.ne {s t : Span} (h : s.Before t) : s ≠ t := by
  rintro rfl
  rcases h with h | ⟨-, h⟩ <;> omega

namespace Position

theorem upTo_afterAll (cs : List Char) : ∀ {p : Position} {s : Span}, (p.afterAll cs).UpTo s →
    p.UpTo s ∧ (cs ≠ [] → p.line < s.startLine ∨ p.line = s.startLine ∧ p.col < s.startCol) := by
  induction cs with
  | nil => exact fun h => ⟨h, by simp⟩
  | cons c cs ih =>
    intro p s h
    obtain ⟨hafter, -⟩ := ih (p := p.after c) h
    have hlt : p.line < s.startLine ∨ p.line = s.startLine ∧ p.col < s.startCol := by
      rw [UpTo, after] at hafter
      split at hafter
      · simp only at hafter
        omega
      · simp only at hafter
        omega
    refine ⟨?_, fun _ => hlt⟩
    rw [UpTo]
    omega

end Position

theorem Lexeme.token?_span {file : String} {p : Position} {lexeme : Lexeme} {t : Token}
    (h : t ∈ lexeme.token? file p) : t.span.startLine = p.line ∧ t.span.startCol = p.col := by
  cases lexeme with
  | blank | comment | stray => cases h
  | word | mark =>
    cases h
    exact ⟨rfl, rfl⟩

theorem Scanned.ofLexemes_ascending (file : String) (lexemes : List Lexeme) : ∀ p : Position,
    (∀ t ∈ (ofLexemes file p lexemes).tokens, p.UpTo t.span) ∧
      (ofLexemes file p lexemes).tokens.Pairwise fun t u => t.span.Before u.span := by
  induction lexemes with
  | nil =>
    intro p
    simp [ofLexemes, Position.UpTo, Position.spanTo]
  | cons lexeme lexemes ih =>
    intro p
    obtain ⟨hupTo, hpairs⟩ := ih (p.afterAll lexeme.text)
    have hbehind := fun t ht => Position.upTo_afterAll lexeme.text (hupTo t ht)
    rw [ofLexemes, List.forall_mem_append, List.pairwise_append]
    refine ⟨⟨fun t ht => ?_, fun t ht => (hbehind t ht).1⟩, ?_, hpairs, fun t ht u hu => ?_⟩
    · obtain ⟨hline, hcol⟩ := Lexeme.token?_span (Option.mem_toList.1 ht)
      exact .inr ⟨hline.symm, hcol.ge⟩
    · cases lexeme.token? file p <;> simp
    · obtain ⟨hline, hcol⟩ := Lexeme.token?_span (Option.mem_toList.1 ht)
      rw [Span.Before, hline, hcol]
      exact (hbehind u hu).2 lexeme.text_ne_nil

/-- **The tokens of a text stand one behind the other.** -/
theorem scan_ascending {file source : String} {tokens : List Token}
    (h : Token.scan file source = .ok tokens) :
    tokens.Pairwise fun t u => t.span.Before u.span := by
  simp only [Token.scan] at h
  split at h
  next =>
    cases h
    exact (Scanned.ofLexemes_ascending file _ _).2
  next => cases h

/-! ## Spans of places -/

/-- The word of a terminal that is a name. -/
def Terminal.word? : Terminal → Option Word
  | .name word => some word
  | .mark _ => none

/-- The spans of the names are among those of the tokens. -/
theorem terminalsOf_spans (tokens : List Token) :
    (((terminalsOf tokens).filterMap Terminal.word?).map (·.span)).Sublist (tokens.map (·.span)) := by
  induction tokens with
  | nil => exact .slnil
  | cons t tokens ih =>
    rw [terminalsOf, List.map_cons, List.filterMap_cons]
    by_cases hk : t.kind = .identifier
    · rw [Token.terminal_name hk]
      exact ih.cons_cons _
    · rw [Token.terminal_mark rfl hk]
      exact ih.cons _

/-- The names of the places of a tree are among those that it derives. -/
theorem ParseTree.sites_words {k : Nonterminal} (t : ParseTree k) : ∀ scope : List String,
    ((t.sites scope).opened.map (·.name)).Sublist (t.terminals.filterMap Terminal.word?) := by
  induction t with
  | void | unit | noStars | noPluses | noCtors | bareCtor name | mention word =>
    intro scope
    exact List.nil_sublist _
  | parens inner ih =>
    intro scope
    simpa [sites, List.filterMap_cons, Terminal.word?] using ih scope
  | recursive name ctors ih =>
    intro scope
    simpa [sites, Nest.opened_single, List.filterMap_cons, Terminal.word?] using ih (name.text :: scope)
  | named name body ih =>
    intro scope
    simpa [sites, Nest.opened_single, List.filterMap_cons, Terminal.word?] using ih scope
  | star next more ihn ihm | plus next more ihn ihm | product next more ihn ihm
  | sum next more ihn ihm | moreCtors next more ihn ihm =>
    intro scope
    simpa [sites, Nest.opened_append, List.filterMap_cons, Terminal.word?] using (ihn scope).append (ihm scope)
  | ctor name payload ih =>
    intro scope
    simpa [sites, List.filterMap_cons, Terminal.word?] using (ih scope).cons name
  | lastCtor last ih => exact ih

/-- **No two places have the same span.** -/
theorem SourceTree.sites_spans {file source : String} {tokens : List Token} {tree : SourceTree}
    (hscan : Token.scan file source = .ok tokens) (hts : terminalsOf tokens = tree.terminals) :
    (tree.sites.opened.map (·.name.span)).Nodup := by
  have hbody := tree.body.sites_words tree.paramNames
  have hall : (tree.body.terminals.filterMap Terminal.word?).Sublist
      (tree.terminals.filterMap Terminal.word?) := by
    rw [terminals]
    exact ((List.sublist_append_right _ _).trans (List.sublist_append_left _ _)).filterMap _
  have hspans := ((hbody.trans hall).map (·.span)).trans (hts ▸ terminalsOf_spans tokens)
  rw [List.map_map] at hspans
  have hnodup : (tokens.map (·.span)).Nodup :=
    List.pairwise_map.2 ((scan_ascending hscan).imp Span.Before.ne)
  exact hspans.nodup hnodup

/-! ## Notes on places -/

/-- The type that was noted first for an identifier. -/
def Notes.first? (n : Notes) (ident : String) : Option Declared :=
  n.declared.find? (·.ident == ident)

/-- The type differs from the one that was noted first for its name. -/
def Declared.Repeats (x : Declared) (n : Notes) : Prop :=
  ∃ y, n.first? x.ident = some y ∧ y.name.text = x.name.text ∧ y.type ≠ x.type

namespace Notes

variable (n : Notes) (name : Word) (type : Expr)

/-- A type that ends is noted unless there is one of its identifier. -/
theorem first?_record (ident : String) : (n.record name type).first? ident =
    (n.first? ident).or ([⟨name, type⟩].find? (·.ident == ident)) := by
  cases hf : n.declared.find? fun d => typeIdent d.name.text == typeIdent name.text with
  | none =>
    have hr : (n.record name type).declared = n.declared ++ [⟨name, type⟩] := by
      simp only [record, hf]
    rw [first?, hr, List.find?_append]
    rfl
  | some earlier =>
    have hr : (n.record name type).declared = n.declared := by
      simp only [record, hf]
      split
      · rfl
      · split <;> rfl
    rw [first?, hr, ← first?]
    by_cases hi : Declared.ident ⟨name, type⟩ = ident
    · have hsome : n.first? ident = some earlier := hi ▸ hf
      rw [hsome, Option.some_or]
    · rw [List.find?_cons_of_neg (by simpa using hi), List.find?_nil, Option.or_none]

theorem repeats_record : Declared.Repeats ⟨name, type⟩ (n.record name type) ↔
    Declared.Repeats ⟨name, type⟩ n := by
  rw [Declared.Repeats, Declared.Repeats, first?_record, List.find?_cons_of_pos (by simp)]
  cases n.first? (Declared.ident ⟨name, type⟩) with
  | none => simp
  | some earlier => rfl

/-- A type that ends is reported if it differs from the one that was noted first. -/
theorem mem_record {report : Report} (hc : report.finding.code = "W301") :
    report ∈ (n.record name type).reports ↔ report ∈ n.reports ∨
      Declared.Repeats ⟨name, type⟩ n ∧ report = .located (.redeclared name.text) name.span := by
  cases hf : n.declared.find? fun d => typeIdent d.name.text == typeIdent name.text with
  | none =>
    have hnone : n.first? (Declared.ident ⟨name, type⟩) = none := hf
    simp [record, hf, Declared.Repeats, hnone]
  | some earlier =>
    have hsome : n.first? (Declared.ident ⟨name, type⟩) = some earlier := hf
    simp only [record, hf, Declared.Repeats, hsome, Option.some.injEq, exists_eq_left']
    by_cases hn : earlier.name.text = name.text
    · by_cases ht : earlier.type = type
      · simp [hn, ht]
      · simp [hn, ht, Notes.report]
    · have hother : report ≠
          .located (.sameIdent name.text earlier.name.text (typeIdent name.text)) name.span := by
        rintro rfl
        simp [Report.located, Finding.code] at hc
      simp [hn, Notes.report, hother]

end Notes

/-- A part of the reading that closes the types `xs` turns the notes `n` into `n'`. -/
structure Logs (xs : List Declared) (n n' : Notes) : Prop where
  first : ∀ ident, n'.first? ident = (n.first? ident).or (xs.find? (·.ident == ident))
  reports : ∀ report : Report, report.finding.code = "W301" → (report ∈ n'.reports ↔
    report ∈ n.reports ∨
      ∃ x ∈ xs, x.Repeats n' ∧ report = .located (.redeclared x.name.text) x.name.span)

namespace Logs

variable {xs ys : List Declared} {n n₁ n₂ : Notes}

theorem refl (n : Notes) : Logs [] n n :=
  ⟨by simp, by simp⟩

theorem trans (h : Logs xs n n₁) (h' : Logs ys n₁ n₂) : Logs (xs ++ ys) n n₂ where
  first ident := by
    rw [h'.first, h.first, List.find?_append, Option.or_assoc]
  reports report hc := by
    -- the first type for an identifier stays the first
    have hkept : ∀ x ∈ xs, (x.Repeats n₂ ↔ x.Repeats n₁) := by
      intro x hx
      have hsome : ((n.first? x.ident).or (xs.find? (·.ident == x.ident))).isSome = true := by
        rw [Option.isSome_or, List.find?_isSome.2 ⟨x, hx, by simp⟩, Bool.or_true]
      rw [← h.first] at hsome
      obtain ⟨y, hy⟩ := Option.isSome_iff_exists.1 hsome
      rw [Declared.Repeats, Declared.Repeats, h'.first, hy, Option.some_or]
    rw [h'.reports report hc, h.reports report hc, or_assoc]
    refine or_congr_right ?_
    simp only [List.mem_append, or_and_right, exists_or]
    refine or_congr_left (exists_congr fun x => and_congr_right fun hx => ?_)
    rw [hkept x hx]

theorem report {finding : Finding} (h : finding.code ≠ "W301") (n : Notes) (span : Span) :
    Logs [] n (n.report finding span) where
  first ident := by simp [Notes.report, Notes.first?]
  reports report hc := by
    have hne : report ≠ .located finding span := by
      rintro rfl
      exact h hc
    simp [Notes.report, hne]

theorem mention (n : Notes) (enc ps : List String) (w : Word) : Logs [] n (n.mention enc ps w) := by
  rw [Notes.mention]
  split
  · rw [Notes.use]
    split
    · exact ⟨by simp [Notes.first?], by simp⟩
    · exact refl n
  · exact report (by simp [Finding.code]) n _

theorem checkParam (n : Notes) (earlier : List Word) (w : Word) :
    Logs [] n (n.checkParam earlier w) := by
  rw [Notes.checkParam]
  split
  · exact report (by simp [Finding.code]) n _
  · exact refl n

theorem checkParams (ws : List Word) : ∀ (n : Notes) (earlier : List Word),
    Logs [] n (n.checkParams earlier ws) := by
  induction ws with
  | nil => exact fun n _ => refl n
  | cons w ws ih => exact fun n earlier => (checkParam n earlier w).trans (ih _ _)

theorem checkTypeName (n : Notes) (w : Word) : Logs [] n (n.checkTypeName w) := by
  rw [Notes.checkTypeName]
  split
  · exact report (by simp [Finding.code]) n _
  · exact refl n

theorem checkCtorName (n : Notes) (type : OpenType) (w : Word) :
    Logs [] n (n.checkCtorName type w) := by
  rw [Notes.checkCtorName]
  split
  · exact report (by simp [Finding.code]) n _
  · split
    · exact report (by simp [Finding.code]) n _
    · exact refl n

theorem record (n : Notes) (name : Word) (type : Expr) :
    Logs [⟨name, type⟩] n (n.record name type) where
  first ident := n.first?_record name type ident
  reports report hc := by
    rw [n.mem_record name type hc, ← n.repeats_record]
    simp

end Logs

/-- **The types of a tree are noted in the order in which they end.** -/
theorem ParseTree.logs {k : Nonterminal} (ps : List String) (t : ParseTree k) :
    ∀ (context : k.Context) (enc : List String) (n : Notes),
      Logs (t.sites (enc ++ ps)).closed n (t.note ps context enc n) := by
  induction t with
  | void | unit | noStars | noPluses | noCtors => exact fun _ _ n => .refl n
  | mention word => exact fun _ enc n => .mention n enc ps word
  | parens inner ih => exact fun _ enc n => ih () enc n
  | recursive name ctors ih =>
    intro context enc n
    exact (Logs.checkTypeName n name).trans ((ih { name } (name.text :: enc) _).trans (.record _ name _))
  | named name body ih =>
    intro context enc n
    exact (Logs.checkTypeName n name).trans ((ih () enc _).trans (.record _ name _))
  | star next more ihn ihm | product next more ihn ihm | plus next more ihn ihm
  | sum next more ihn ihm =>
    intro context enc n
    rw [sites, Nest.closed_append]
    exact (ihn () enc n).trans (ihm () enc _)
  | bareCtor name => exact fun context _ n => .checkCtorName n context name
  | ctor name payload ih =>
    exact fun context enc n => (Logs.checkCtorName n context name).trans (ih () enc _)
  | lastCtor last ih => exact ih
  | moreCtors first more ihf ihm =>
    intro context enc n
    rw [sites, Nest.closed_append]
    exact (ihf context enc n).trans (ihm _ enc _)

namespace SourceTree

variable (t : SourceTree)

theorem logs : Logs t.sites.closed {} t.notes :=
  (Logs.checkParams t.params {} []).trans (t.body.logs t.paramNames () [] _)

theorem notes_distinct : t.notes.Distinct :=
  ((Judges.checkParams t.params {} []).trans (t.body.judges t.paramNames () [] _)).distinct
    (by simp [Notes.Distinct])

theorem first?_eq (ident : String) :
    t.notes.first? ident = t.sites.closed.find? (·.ident == ident) := by
  rw [t.logs.first]
  rfl

/-- **The listed types are those that end first**, of all with their identifier. -/
theorem mem_declared {x : Declared} :
    x ∈ t.notes.declared ↔ IsFirst Declared.ident t.sites.closed x := by
  rw [IsFirst, ← first?_eq]
  constructor
  · intro hx
    cases hf : t.notes.first? x.ident with
    | none => exact absurd (List.find?_eq_none.1 hf x hx) (by simp)
    | some y =>
      have hi : y.ident = x.ident := by simpa using List.find?_some hf
      exact congrArg some
        (List.inj_on_of_nodup_map t.notes_distinct (List.mem_of_find?_eq_some hf) hx hi)
  · exact List.mem_of_find?_eq_some

/-- **A type is reported exactly if it differs from the listed one of its name.** -/
theorem mem_reports {report : Report} (hc : report.finding.code = "W301") :
    report ∈ t.notes.reports ↔ ∃ x ∈ t.sites.opened, x.Repeats t.notes ∧
      report = .located (.redeclared x.name.text) x.name.span := by
  rw [t.logs.reports report hc]
  simp [Nest.mem_closed]

end SourceTree

end TypeDesc
