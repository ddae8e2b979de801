/-
What is wrong with names, said on the parse tree (`SourceTree.Misnamed`), and
that a text in the grammar is rejected exactly then (`names_checked_exactly`).

The checks are made one by one as the tokens come, and reading goes on behind
each error. `Judges` says what a part of the reading adds to the notes: they stay
clean exactly if what the part asks of names holds, and the types that it
declares are spelt as before. It composes, so that each check is looked at on its
own and a tree is judged part by part.
-/
import Mathlib.Data.List.Nodup
import Mathlib.Tactic.Tauto
import TypeDesc.Proofs.Source
import TypeDesc.Proofs.TreeReading

namespace TypeDesc

/-! ## The names of a tree -/

namespace ParseTree

/-- The names of the recursive and named types in a tree. -/
def typeNames : {k : Nonterminal} → ParseTree k → List Word
  | _, .void => []
  | _, .unit => []
  | _, .mention _ => []
  | _, .parens inner => inner.typeNames
  | _, .recursive name ctors => ctors.typeNames ++ [name]
  | _, .named name body => body.typeNames ++ [name]
  | _, .noStars => []
  | _, .star next more => next.typeNames ++ more.typeNames
  | _, .product first more => first.typeNames ++ more.typeNames
  | _, .noPluses => []
  | _, .plus next more => next.typeNames ++ more.typeNames
  | _, .sum first more => first.typeNames ++ more.typeNames
  | _, .bareCtor _ => []
  | _, .ctor _ payload => payload.typeNames
  | _, .noCtors => []
  | _, .lastCtor last => last.typeNames
  | _, .moreCtors first more => first.typeNames ++ more.typeNames

/-- The names of the constructors that a tree of constructors has itself. -/
def ownCtors : {k : Nonterminal} → ParseTree k → List Word
  | _, .bareCtor name => [name]
  | _, .ctor name _ => [name]
  | _, .lastCtor last => last.ownCtors
  | _, .moreCtors first more => first.ownCtors ++ more.ownCtors
  | _, _ => []

/-- The names of the constructors of each recursive type in a tree. -/
def ctorLists : {k : Nonterminal} → ParseTree k → List (List Word)
  | _, .void => []
  | _, .unit => []
  | _, .mention _ => []
  | _, .parens inner => inner.ctorLists
  | _, .recursive _ ctors => ctors.ctorLists ++ [ctors.ownCtors]
  | _, .named _ body => body.ctorLists
  | _, .noStars => []
  | _, .star next more => next.ctorLists ++ more.ctorLists
  | _, .product first more => first.ctorLists ++ more.ctorLists
  | _, .noPluses => []
  | _, .plus next more => next.ctorLists ++ more.ctorLists
  | _, .sum first more => first.ctorLists ++ more.ctorLists
  | _, .bareCtor _ => []
  | _, .ctor _ payload => payload.ctorLists
  | _, .noCtors => []
  | _, .lastCtor last => last.ctorLists
  | _, .moreCtors first more => first.ctorLists ++ more.ctorLists

end ParseTree

/-- Something is wrong with the names of a description. -/
inductive SourceTree.Misnamed (t : SourceTree) : Prop
  /-- Two parameters make the same identifier. -/
  | params (h : ¬ (t.params.map fun w => typeIdent w.text).Nodup)
  /-- A name used as a type is neither a parameter nor the name of a recursive type around. -/
  | unbound {scope w} (h : (scope, w) ∈ t.uses) (hw : w.text ∉ scope)
  /-- A type is named like one that is generated. -/
  | generated {w} (h : w ∈ t.body.typeNames)
    (hw : typeIdent w.text = "either" ∨ typeIdent w.text = "void")
  /-- A constructor does not start with a letter. -/
  | badCtor {ctors w} (h : ctors ∈ t.body.ctorLists) (hm : w ∈ ctors)
    (hw : startsWithLetter w.text = false)
  /-- Two constructors of one type make the same identifier. -/
  | ctors {ctors} (h : ctors ∈ t.body.ctorLists)
    (hd : ¬ (ctors.map fun w => ctorIdent w.text).Nodup)
  /-- Two type names of different spelling make the same identifier. -/
  | spelling {v w} (hv : v ∈ t.body.typeNames) (hw : w ∈ t.body.typeNames)
    (hs : v.text ≠ w.text) (hi : typeIdent v.text = typeIdent w.text)

/-! ## Judging a part of the reading -/

/-- Names that are spelt alike if they make the same identifier. -/
def Coherent (names : List String) : Prop :=
  ∀ v ∈ names, ∀ w ∈ names, typeIdent v = typeIdent w → v = w

theorem Coherent.subset {names names' : List String} (h : Coherent names)
    (hs : ∀ v ∈ names', v ∈ names) : Coherent names' :=
  fun v hv w hw => h v (hs v hv) w (hs w hw)

namespace Notes

/-- The names of the declared types. -/
def typeNames (n : Notes) : List String :=
  n.declared.map (·.name.text)

/-- Each identifier is declared once. -/
def Distinct (n : Notes) : Prop :=
  (n.declared.map fun d => typeIdent d.name.text).Nodup

theorem Distinct.coherent {n : Notes} (h : n.Distinct) : Coherent n.typeNames := by
  intro v hv w hw hi
  obtain ⟨d, hd, rfl⟩ := List.mem_map.1 hv
  obtain ⟨d', hd', rfl⟩ := List.mem_map.1 hw
  rw [List.inj_on_of_nodup_map h hd hd' hi]

theorem clean_report (n : Notes) (finding : Finding) (span : Span) :
    (n.report finding span).Clean ↔ n.Clean ∧ finding.severity ≠ .error := by
  simp [Clean, report, Report.isError, Report.located, or_imp, forall_and]

end Notes

/-- A part of the reading turns the notes `n` into `n'`: it asks `P` of names, and declares
`types`. -/
structure Judges (P : Prop) (types : List String) (n n' : Notes) : Prop where
  distinct : n.Distinct → n'.Distinct
  clean_iff : n.Distinct → (n'.Clean ↔ n.Clean ∧ P ∧ Coherent (n.typeNames ++ types))
  names : n.Distinct → n'.Clean → ∀ v, v ∈ n'.typeNames ↔ v ∈ n.typeNames ∨ v ∈ types

namespace Judges

variable {P Q : Prop} {types types' : List String} {n n₁ n₂ : Notes}

theorem congr (h : Judges P types n n₁) (hP : P ↔ Q) (ht : types = types') :
    Judges Q types' n n₁ := by
  subst ht
  exact ⟨h.distinct, fun hn => by rw [h.clean_iff hn, hP], h.names⟩

/-- **Parts that follow one another**: the second sees the types of the first as declared. -/
theorem trans (h₁ : Judges P types n n₁) (h₂ : Judges Q types' n₁ n₂) :
    Judges (P ∧ Q) (types ++ types') n n₂ where
  distinct hn := h₂.distinct (h₁.distinct hn)
  clean_iff hn := by
    rw [h₂.clean_iff (h₁.distinct hn), h₁.clean_iff hn]
    constructor
    · rintro ⟨⟨hc, hp, hcoh⟩, hq, hcoh'⟩
      have hnames := h₁.names hn ((h₁.clean_iff hn).2 ⟨hc, hp, hcoh⟩)
      refine ⟨hc, ⟨hp, hq⟩, hcoh'.subset fun v hv => ?_⟩
      simp only [List.mem_append] at hv ⊢
      rw [hnames v]
      tauto
    · rintro ⟨hc, ⟨hp, hq⟩, hcoh⟩
      have hcoh₁ : Coherent (n.typeNames ++ types) := hcoh.subset fun v hv => by
        simp only [List.mem_append] at hv ⊢
        tauto
      have hnames := h₁.names hn ((h₁.clean_iff hn).2 ⟨hc, hp, hcoh₁⟩)
      refine ⟨⟨hc, hp, hcoh₁⟩, hq, hcoh.subset fun v hv => ?_⟩
      simp only [List.mem_append] at hv ⊢
      rw [hnames v] at hv
      tauto
  names hn hc v := by
    have hn₁ := h₁.distinct hn
    have hc₁ : n₁.Clean := ((h₂.clean_iff hn₁).1 hc).1
    rw [h₂.names hn₁ hc v, h₁.names hn hc₁ v, List.mem_append, or_assoc]

theorem refl (n : Notes) : Judges True [] n n :=
  ⟨id, fun hn => by simpa using fun _ => hn.coherent, by simp⟩

/-- A check that reports an error unless `P` holds, and declares nothing. -/
theorem check (hpos : P → n₁.declared = n.declared ∧ n₁.reports = n.reports)
    (hneg : ¬ P → ∃ finding span, finding.severity = .error ∧ n₁ = n.report finding span) :
    Judges P [] n n₁ := by
  by_cases hP : P
  · obtain ⟨hd, hr⟩ := hpos hP
    refine ⟨?_, ?_, ?_⟩
    · simp only [Notes.Distinct, hd, imp_self]
    · intro hn
      simpa [Notes.Clean, hr, hP] using fun _ => hn.coherent
    · simp [Notes.typeNames, hd]
  · obtain ⟨finding, span, hf, rfl⟩ := hneg hP
    refine ⟨id, ?_, ?_⟩
    · simp [Notes.clean_report, hf, hP]
    · simp [Notes.clean_report, hf]

theorem mention (n : Notes) (enc ps : List String) (w : Word) :
    Judges (w.text ∈ enc ++ ps) [] n (n.mention enc ps w) := by
  cases hi : (enc ++ ps).idxOf? w.text with
  | some i =>
    have hm : w.text ∈ enc ++ ps := by
      by_contra h
      rw [List.idxOf?_eq_none_iff.2 h] at hi
      cases hi
    refine check (fun _ => ?_) fun h => absurd hm h
    simp only [Notes.mention, hi, Notes.use]
    split <;> exact ⟨rfl, rfl⟩
  | none =>
    refine check (fun h => absurd h (List.idxOf?_eq_none_iff.1 hi)) fun _ =>
      ⟨.unknownVariable w.text (Text.closest? w.text (enc ++ ps)), w.span, rfl, ?_⟩
    simp only [Notes.mention, hi]

theorem checkTypeName (n : Notes) (w : Word) :
    Judges (typeIdent w.text ∉ Reason.generatedIdents) [] n (n.checkTypeName w) := by
  refine check (fun h => ?_) fun h => ⟨.reservedName w.text (typeIdent w.text), w.span, rfl, ?_⟩
  · simp [Notes.checkTypeName, h]
  · simp [Notes.checkTypeName, not_not.1 h]

theorem checkCtorName (n : Notes) (type : OpenType) (w : Word) :
    Judges (startsWithLetter w.text = true ∧
      ∀ ctor ∈ type.ctors, ctorIdent ctor.name ≠ ctorIdent w.text) [] n (n.checkCtorName type w) := by
  by_cases hl : startsWithLetter w.text = true
  · refine check (fun h => ?_) fun h => ⟨.duplicateCtor w.text type.name.text, w.span, rfl, ?_⟩
    · have hd : ¬ ∃ ctor ∈ type.ctors, ctorIdent ctor.name = ctorIdent w.text := by
        simpa using h.2
      simp [Notes.checkCtorName, hl, hd]
    · have hd : ∃ ctor ∈ type.ctors, ctorIdent ctor.name = ctorIdent w.text := by
        simpa [hl] using h
      simp [Notes.checkCtorName, hl, hd]
  · refine check (fun h => absurd h.1 hl) fun _ => ⟨.badCtor w.text, w.span, rfl, ?_⟩
    simp [Notes.checkCtorName, hl]

theorem checkParam (n : Notes) (earlier : List Word) (w : Word) :
    Judges (∀ v ∈ earlier, typeIdent v.text ≠ typeIdent w.text) [] n (n.checkParam earlier w) := by
  cases hf : earlier.find? fun v => typeIdent v.text == typeIdent w.text with
  | none =>
    refine check (fun _ => ?_) fun h => absurd (by simpa using hf) h
    simp [Notes.checkParam, hf]
  | some v =>
    have hv : typeIdent v.text = typeIdent w.text := by simpa using List.find?_some hf
    refine check (fun h => absurd hv (h v (List.mem_of_find?_eq_some hf))) fun _ =>
      ⟨.duplicateParam w.text v.text, w.span, rfl, ?_⟩
    simp only [Notes.checkParam, hf]

theorem checkParams (ws : List Word) : ∀ (n : Notes) (earlier : List Word),
    Judges ((ws.map fun w => typeIdent w.text).Nodup ∧
      ∀ w ∈ ws, ∀ v ∈ earlier, typeIdent v.text ≠ typeIdent w.text) [] n (n.checkParams earlier ws) := by
  induction ws with
  | nil => exact fun n earlier => (refl n).congr (by simp) rfl
  | cons w ws ih =>
    intro n earlier
    refine ((checkParam n earlier w).trans (ih _ _)).congr ?_ rfl
    simp only [List.mem_append, List.mem_singleton, List.map_cons, List.nodup_cons, List.mem_map,
      List.forall_mem_cons]
    grind

/-- Recording a type declares its name. -/
theorem record (n : Notes) (name : Word) (type : Expr) :
    Judges True [name.text] n (n.record name type) := by
  cases hf : n.declared.find? fun d => typeIdent d.name.text == typeIdent name.text with
  | none =>
    -- The identifier is new.
    have hnew : ∀ d ∈ n.declared, typeIdent d.name.text ≠ typeIdent name.text := by simpa using hf
    have hr : n.record name type = { n with declared := n.declared ++ [⟨name, type⟩] } := by
      simp only [Notes.record, hf]
    have hd : n.Distinct → (n.record name type).Distinct := by
      intro hn
      rw [hr, Notes.Distinct, List.map_append, List.nodup_append]
      refine ⟨hn, by simp, ?_⟩
      simp only [List.mem_map, List.mem_singleton]
      rintro _ ⟨d, hm, rfl⟩ _ ⟨_, rfl, rfl⟩
      exact hnew d hm
    have hnames : (n.record name type).typeNames = n.typeNames ++ [name.text] := by
      simp [hr, Notes.typeNames]
    refine ⟨hd, fun hn => ?_, fun _ _ v => by rw [hnames, List.mem_append]⟩
    have hcoh := (hd hn).coherent
    rw [hnames] at hcoh
    simp only [hcoh, and_true]
    rw [hr]
    rfl
  | some earlier =>
    have hm : earlier ∈ n.declared := List.mem_of_find?_eq_some hf
    have hmem : earlier.name.text ∈ n.typeNames := List.mem_map.2 ⟨earlier, hm, rfl⟩
    have hi : typeIdent earlier.name.text = typeIdent name.text := by simpa using List.find?_some hf
    by_cases hs : earlier.name.text = name.text
    · -- The type has been declared under this name.
      have hr : (n.record name type).declared = n.declared ∧
          ((n.record name type).Clean ↔ n.Clean) := by
        simp only [Notes.record, hf, hs, ne_eq, not_true_eq_false, if_false]
        split
        · exact ⟨rfl, by simp [Notes.clean_report, Finding.severity]⟩
        · exact ⟨rfl, Iff.rfl⟩
      have hsub : ∀ v ∈ n.typeNames ++ [name.text], v ∈ n.typeNames := by
        simpa [or_imp, forall_and] using hs ▸ hmem
      refine ⟨by simp [Notes.Distinct, hr.1], fun hn => ?_, fun _ _ v => ?_⟩
      · simpa [hr.2] using fun _ => hn.coherent.subset hsub
      · simp only [Notes.typeNames, hr.1, List.mem_singleton]
        exact ⟨.inl, fun h => hsub v (by simpa [Notes.typeNames] using h)⟩
    · -- It has been declared under another name.
      have hr : n.record name type =
          n.report (.sameIdent name.text earlier.name.text (typeIdent name.text)) name.span := by
        simp [Notes.record, hf, hs]
      have hc : ¬ (n.record name type).Clean := by simp [hr, Notes.clean_report, Finding.severity]
      refine ⟨fun hn => hr ▸ hn, fun hn => ?_, fun _ h => absurd h hc⟩
      refine ⟨fun h => absurd h hc, fun h => ?_⟩
      obtain ⟨-, -, hcoh⟩ := h
      exact absurd (hcoh _ (by simp [hmem]) _ (by simp) hi) hs

end Judges

/-! ## Judging a tree -/

/-- The constructors of the type around a phrase that come before it. -/
def Nonterminal.earlierCtors : {k : Nonterminal} → k.Context → List (Ctor Expr)
  | .ctor, type => type.ctors
  | .ctors, type => type.ctors
  | .factor, _ | .stars, _ | .product, _ | .pluses, _ | .sum, _ => []

/-- Names that one type may have as those of its constructors. -/
def CtorNames (ctors : List Word) : Prop :=
  (∀ w ∈ ctors, startsWithLetter w.text = true) ∧ (ctors.map fun w => ctorIdent w.text).Nodup

/-- What is asked of the names inside a tree, the spelling of declared types apart. -/
def ParseTree.NamesFit {k : Nonterminal} (t : ParseTree k) (scope : List String) : Prop :=
  (∀ use ∈ t.uses scope, use.2.text ∈ use.1) ∧
  (∀ w ∈ t.typeNames, typeIdent w.text ∉ Reason.generatedIdents) ∧
  ∀ ctors ∈ t.ctorLists, CtorNames ctors

/-- What is asked of the constructors that a tree has itself, behind earlier ones of the type. -/
def ParseTree.CtorsFit {k : Nonterminal} (t : ParseTree k) (context : k.Context) : Prop :=
  CtorNames t.ownCtors ∧ ∀ w ∈ t.ownCtors, ∀ ctor ∈ Nonterminal.earlierCtors context,
    ctorIdent ctor.name ≠ ctorIdent w.text

namespace ParseTree

variable {k : Nonterminal} (ps : List String)

/-- A constructor has its one name. -/
theorem ownCtors_ctor (t : ParseTree .ctor) (scope : List String) :
    ∃ w, t.ownCtors = [w] ∧ (t.meaning scope).name = w.text := by
  cases t with
  | bareCtor name => exact ⟨name, rfl, rfl⟩
  | ctor name payload => exact ⟨name, rfl, rfl⟩

/-- Only constructors ask something of constructors. -/
theorem ctorsFit_plain (t : ParseTree k) (context : k.Context) (hk : k ≠ .ctor ∧ k ≠ .ctors) :
    t.CtorsFit context := by
  have hown : t.ownCtors = [] := by cases t <;> simp [ownCtors] at hk ⊢
  simp [CtorsFit, CtorNames, hown]

/-- Constructors that stand alone, behind those that are there. -/
theorem ctorsFit_single {t : ParseTree k} {context : k.Context} {w : Word}
    (h : t.ownCtors = [w]) : t.CtorsFit context ↔ startsWithLetter w.text = true ∧
      ∀ ctor ∈ Nonterminal.earlierCtors context, ctorIdent ctor.name ≠ ctorIdent w.text := by
  simp [CtorsFit, CtorNames, h]

/-- One more constructor in front: those behind it come after it too. -/
theorem ctorsFit_moreCtors (first : ParseTree .ctor) (more : ParseTree .ctors) (type : OpenType)
    (scope : List String) : (ParseTree.moreCtors first more).CtorsFit type ↔ first.CtorsFit type ∧
      more.CtorsFit (type.add (first.meaning scope).name (first.meaning scope).payload) := by
  obtain ⟨w, hw, hname⟩ := first.ownCtors_ctor scope
  have hsymm : (∀ v ∈ more.ownCtors, ctorIdent v.text ≠ ctorIdent w.text) ↔
      ∀ v ∈ more.ownCtors, ctorIdent w.text ≠ ctorIdent v.text := by
    simp only [ne_comm]
  rw [ctorsFit_single hw, hname]
  simp only [CtorsFit, CtorNames, ownCtors, hw, Nonterminal.earlierCtors, OpenType.add,
    List.cons_append, List.nil_append, List.forall_mem_cons, List.map_cons, List.nodup_cons,
    List.forall_mem_append, List.mem_map, not_exists, not_and, ← ne_eq, hsymm, forall_and,
    List.not_mem_nil, false_imp_iff, imp_true_iff, and_true]
  tauto

/-- What is asked of the names of two parts is asked of each. -/
theorem namesFit_append {i j : Nonterminal} {t : ParseTree k} {a : ParseTree i} {b : ParseTree j}
    {scope : List String} (hu : t.uses scope = a.uses scope ++ b.uses scope)
    (ht : t.typeNames = a.typeNames ++ b.typeNames) (hc : t.ctorLists = a.ctorLists ++ b.ctorLists) :
    t.NamesFit scope ↔ a.NamesFit scope ∧ b.NamesFit scope := by
  simp only [NamesFit, hu, ht, hc, List.forall_mem_append]
  tauto

theorem namesFit_recursive (name : Word) (ctors : ParseTree .ctors) (scope : List String) :
    (ParseTree.recursive name ctors).NamesFit scope ↔ typeIdent name.text ∉ Reason.generatedIdents ∧
      ctors.NamesFit (name.text :: scope) ∧ CtorNames ctors.ownCtors := by
  simp only [NamesFit, uses, typeNames, ctorLists, List.forall_mem_append, List.forall_mem_singleton]
  tauto

theorem namesFit_named (name : Word) (body : ParseTree .sum) (scope : List String) :
    (ParseTree.named name body).NamesFit scope ↔
      typeIdent name.text ∉ Reason.generatedIdents ∧ body.NamesFit scope := by
  simp only [NamesFit, uses, typeNames, ctorLists, List.forall_mem_append, List.forall_mem_singleton]
  tauto

/-- Two parts that are not constructors are judged one after the other. -/
theorem judges_append {i j : Nonterminal} {t : ParseTree k} {a : ParseTree i} {b : ParseTree j}
    {context : k.Context} {left : i.Context} {right : j.Context} {scope : List String}
    {n n₁ n₂ : Notes} (hk : k ≠ .ctor ∧ k ≠ .ctors) (hi : i ≠ .ctor ∧ i ≠ .ctors)
    (hj : j ≠ .ctor ∧ j ≠ .ctors) (hu : t.uses scope = a.uses scope ++ b.uses scope)
    (ht : t.typeNames = a.typeNames ++ b.typeNames) (hc : t.ctorLists = a.ctorLists ++ b.ctorLists)
    (h₁ : Judges (a.NamesFit scope ∧ a.CtorsFit left) (a.typeNames.map (·.text)) n n₁)
    (h₂ : Judges (b.NamesFit scope ∧ b.CtorsFit right) (b.typeNames.map (·.text)) n₁ n₂) :
    Judges (t.NamesFit scope ∧ t.CtorsFit context) (t.typeNames.map (·.text)) n n₂ := by
  refine (h₁.trans h₂).congr ?_ (by rw [ht, List.map_append])
  simp only [namesFit_append hu ht hc, t.ctorsFit_plain context hk, a.ctorsFit_plain left hi,
    b.ctorsFit_plain right hj, and_true]

/-- **A tree is judged by its names.** -/
theorem judges (t : ParseTree k) : ∀ (context : k.Context) (enc : List String) (n : Notes),
    Judges (t.NamesFit (enc ++ ps) ∧ t.CtorsFit context) (t.typeNames.map (·.text)) n
      (t.note ps context enc n) := by
  induction t with
  | void | unit | noStars | noPluses | noCtors =>
    intro context enc n
    exact (Judges.refl n).congr
      (by simp [NamesFit, CtorsFit, uses, typeNames, ctorLists, ownCtors, CtorNames]) rfl
  | mention word =>
    intro context enc n
    exact (Judges.mention n enc ps word).congr
      (by simp [NamesFit, CtorsFit, uses, typeNames, ctorLists, ownCtors, CtorNames]) rfl
  | parens inner ih =>
    intro context enc n
    have hown := ctorsFit_plain (.parens inner) context (by simp)
    exact (ih () enc n).congr (and_congr_right' (iff_of_true (inner.ctorsFit_plain _ (by simp)) hown)) rfl
  | recursive name ctors ih =>
    intro context enc n
    refine (((Judges.checkTypeName n name).trans (ih { name } (name.text :: enc) _)).trans
      (.record _ name _)).congr ?_ (by simp [typeNames])
    have hfirst : ctors.CtorsFit { name } ↔ CtorNames ctors.ownCtors := by
      simp [CtorsFit, Nonterminal.earlierCtors]
    rw [namesFit_recursive, hfirst, and_true, and_iff_left (ctorsFit_plain _ _ (by simp))]
    rfl
  | named name body ih =>
    intro context enc n
    refine (((Judges.checkTypeName n name).trans (ih () enc _)).trans (.record _ name _)).congr ?_
      (by simp [typeNames])
    simp [namesFit_named, ctorsFit_plain]
  | star next more ihn ihm | product next more ihn ihm | plus next more ihn ihm
  | sum next more ihn ihm =>
    intro context enc n
    exact judges_append (by simp) (by simp) (by simp) rfl rfl rfl (ihn () enc n) (ihm () enc _)
  | bareCtor name =>
    intro context enc n
    refine (Judges.checkCtorName n context name).congr ?_ rfl
    rw [ctorsFit_single rfl]
    simp [NamesFit, uses, typeNames, ctorLists, Nonterminal.earlierCtors]
  | ctor name payload ih =>
    intro context enc n
    refine ((Judges.checkCtorName n context name).trans (ih () enc _)).congr ?_ (by simp [typeNames])
    have hown : (ParseTree.ctor name payload).ownCtors = [name] := rfl
    rw [ctorsFit_single hown, and_iff_left (payload.ctorsFit_plain _ (by simp)), and_comm]
    rfl
  | lastCtor last ih => exact ih
  | moreCtors first more ihf ihm =>
    intro context enc n
    refine ((ihf context enc n).trans (ihm (context.add _ _) enc _)).congr ?_ (by simp [typeNames])
    have hnames : (ParseTree.moreCtors first more).NamesFit (enc ++ ps) ↔
        first.NamesFit (enc ++ ps) ∧ more.NamesFit (enc ++ ps) := namesFit_append rfl rfl rfl
    rw [ctorsFit_moreCtors first more context (enc ++ ps), hnames]
    tauto

end ParseTree

/-! ## Whole descriptions -/

/-- **The notes are clean exactly if nothing is wrong with the names.** -/
theorem SourceTree.notes_clean_iff (t : SourceTree) : t.notes.Clean ↔ ¬ t.Misnamed := by
  have hgenerated : ∀ ident, ident ∉ Reason.generatedIdents ↔ ¬ (ident = "either" ∨ ident = "void") := by
    intro ident
    have hidents : Reason.generatedIdents = ["void", "either"] := rfl
    simp [hidents, and_comm]
  have hempty : (({} : Notes).Distinct) ∧ ({} : Notes).Clean ∧ ({} : Notes).typeNames = [] := by
    simp [Notes.Distinct, Notes.Clean, Notes.typeNames]
  obtain ⟨hd, hc, hn⟩ := hempty
  have hj := (Judges.checkParams t.params {} []).trans (t.body.judges t.paramNames () [] _)
  rw [SourceTree.notes, hj.clean_iff hd, hn]
  constructor
  · rintro ⟨-, ⟨⟨hparams, -⟩, ⟨huses, htypes, hctors⟩, -⟩, hcoh⟩ hm
    cases hm with
    | params h => exact h hparams
    | unbound h hw => exact hw (huses _ h)
    | generated h hw => exact (hgenerated _).1 (htypes _ h) hw
    | badCtor h hm hw => simp [(hctors _ h).1 _ hm] at hw
    | ctors h hd => exact hd (hctors _ h).2
    | spelling hv hw hs hi =>
      exact hs (hcoh _ (by simpa using ⟨_, hv, rfl⟩) _ (by simpa using ⟨_, hw, rfl⟩) hi)
  · intro hm
    refine ⟨hc, ⟨⟨?_, by simp⟩, ⟨?_, ?_, ?_⟩, t.body.ctorsFit_plain _ (by simp)⟩, ?_⟩
    · exact not_not.1 fun h => hm (.params h)
    · exact fun use h => not_not.1 fun hw => hm (.unbound h hw)
    · exact fun w h => (hgenerated _).2 fun hw => hm (.generated h hw)
    · intro ctors h
      refine ⟨fun w hw => ?_, not_not.1 fun hd => hm (.ctors h hd)⟩
      exact Bool.not_eq_false _ ▸ fun hl => hm (.badCtor h hw hl)
    · intro v hv w hw hi
      simp only [List.nil_append, List.mem_map] at hv hw
      obtain ⟨v, hv, rfl⟩ := hv
      obtain ⟨w, hw, rfl⟩ := hw
      exact not_not.1 fun hs => hm (.spelling hv hw hs hi)

/-- A parameter that is not mentioned is no error. -/
theorem Notes.any_allReports (n : Notes) (ws : List Word) :
    (n.allReports ws).any (·.isError) = false ↔ n.Clean := by
  have hunused : ∀ report ∈ n.unusedParams ws, report.isError = false := by
    simp only [Notes.unusedParams, List.mem_map]
    rintro _ ⟨_, -, rfl⟩
    rfl
  simp only [Notes.allReports, List.any_eq_false, Bool.not_eq_true, List.forall_mem_append]
  exact and_iff_left hunused

namespace Expr

mutual
/-- The names of the recursive and named types in an expression. -/
def typeNames : Expr → List String
  | .sum first second rest => first.typeNames ++ (second.typeNames ++ typeNamesAll rest)
  | .product first second rest => first.typeNames ++ (second.typeNames ++ typeNamesAll rest)
  | .recursive name ctors => typeNamesCtors ctors ++ [name]
  | .named name body => body.typeNames ++ [name]
  | _ => []

/-- The names of the types in expressions. -/
def typeNamesAll : List Expr → List String
  | [] => []
  | e :: es => e.typeNames ++ typeNamesAll es

/-- The names of the types in the payloads of constructors. -/
def typeNamesCtors : List (Ctor Expr) → List String
  | [] => []
  | ⟨_, e⟩ :: ctors => e.typeNames ++ typeNamesCtors ctors
end

theorem typeNames_sumOf (first : Expr) (rest : List Expr) :
    (sumOf first rest).typeNames = first.typeNames ++ typeNamesAll rest := by
  cases rest <;> simp [sumOf, typeNames, typeNamesAll]

theorem typeNames_productOf (first : Expr) (rest : List Expr) :
    (productOf first rest).typeNames = first.typeNames ++ typeNamesAll rest := by
  cases rest <;> simp [productOf, typeNames, typeNamesAll]

end Expr

/-- The names of the types in what a phrase stands for. -/
def Nonterminal.namesIn : (k : Nonterminal) → k.Meaning → List String
  | .factor, e | .product, e | .sum, e => Expr.typeNames e
  | .stars, es | .pluses, es => Expr.typeNamesAll es
  | .ctor, c => c.payload.typeNames
  | .ctors, cs => Expr.typeNamesCtors cs

/-- A tree means an expression with the types that the tree declares. -/
theorem ParseTree.namesIn_meaning {k : Nonterminal} (t : ParseTree k) : ∀ scope : List String,
    k.namesIn (t.meaning scope) = t.typeNames.map (·.text) := by
  induction t with
  | void | unit | noStars | noPluses | noCtors | bareCtor name => intro scope; rfl
  | mention word =>
    intro scope
    simp only [meaning, Expr.ofName, Nonterminal.namesIn]
    split <;> rfl
  | parens inner ih => exact ih
  | recursive name ctors ih =>
    intro scope
    have h := ih (name.text :: scope)
    simp only [Nonterminal.namesIn] at h
    simp [meaning, typeNames, Nonterminal.namesIn, Expr.typeNames, h]
  | named name body ih =>
    intro scope
    have h := ih scope
    simp only [Nonterminal.namesIn] at h
    simp [meaning, typeNames, Nonterminal.namesIn, Expr.typeNames, h]
  | star next more ihn ihm | plus next more ihn ihm | product next more ihn ihm
  | sum next more ihn ihm | moreCtors next more ihn ihm =>
    intro scope
    have hn := ihn scope
    have hm := ihm scope
    simp only [Nonterminal.namesIn] at hn hm
    simp [meaning, typeNames, Nonterminal.namesIn, Expr.typeNamesAll, Expr.typeNamesCtors,
      Expr.typeNames_productOf, Expr.typeNames_sumOf, hn, hm]
  | ctor name payload ih => exact ih
  | lastCtor last ih =>
    intro scope
    have h := ih scope
    simp only [Nonterminal.namesIn] at h
    simp [meaning, typeNames, Nonterminal.namesIn, Expr.typeNamesCtors, h]

/-- A description with whose names nothing is wrong. -/
structure Description.NamesValid (d : Description) : Prop where
  params : (d.params.map typeIdent).Nodup
  body : d.body.WellFormed d.params
  spelling : Coherent d.body.typeNames

/-- **A text in the grammar is rejected exactly if something is wrong with its names.** What is
returned otherwise is the description that its tree means, and has valid names. -/
theorem names_checked_exactly {file source : String} {tokens : List Token}
    (hscan : Token.scan file source = .ok tokens) (hg : InGrammar (tokens.map (·.kind))) :
    ∃ tree : SourceTree, tree.terminals = terminalsOf tokens ∧
      ((∃ reports, Description.ofSource file source = .error (.rejected reports)) ↔ tree.Misnamed) ∧
      ((∃ d w, Description.ofSource file source = .ok (d, w)) ↔ ¬ tree.Misnamed) ∧
      ∀ d w, Description.ofSource file source = .ok (d, w) →
        d.params = tree.paramNames ∧ d.body = tree.meaning ∧ d.NamesValid := by
  obtain ⟨tree, hts⟩ := hg.tree
  obtain ⟨d, hparams, hbody, heq⟩ := tree.ofTokens_eq file hts
  have hsource : Description.ofSource file source = Description.ofTokens file tokens := by
    simp [Description.ofSource, hscan]
  refine ⟨tree, hts.symm, ?_⟩
  by_cases hm : tree.Misnamed
  · have herr : (tree.notes.allReports tree.params).any (·.isError) = true := by
      rw [← Bool.not_eq_false, Notes.any_allReports, tree.notes_clean_iff]
      exact not_not.2 hm
    rw [hsource, heq, if_pos herr]
    simp [hm]
  · have hclean := tree.notes_clean_iff.2 hm
    have herr := (Notes.any_allReports _ tree.params).2 hclean
    rw [heq, if_neg (by simp [herr])] at hsource
    have hcoh : Coherent d.body.typeNames := by
      rw [hbody]
      have hnames : tree.meaning.typeNames = tree.body.typeNames.map (·.text) :=
        tree.body.namesIn_meaning tree.paramNames
      rw [hnames]
      intro x hx y hy hi
      obtain ⟨v, hv, rfl⟩ := List.mem_map.1 hx
      obtain ⟨w, hw, rfl⟩ := List.mem_map.1 hy
      exact not_not.1 fun hs => hm (.spelling hv hw hs hi)
    have hwf := (ofSource_sound hsource).1
    refine ⟨by simp [hsource, hm], by simp [hsource, hm], ?_⟩
    intro d' w' h
    rw [hsource] at h
    obtain ⟨rfl, -⟩ : d = d' ∧ _ := by simpa using h
    exact ⟨hparams, hbody, hwf.paramsDistinct, hwf.body, hcoh⟩

/-- Two types that are spelt differently and make one identifier are found, the one inside the
other. -/
theorem names_checked_spelling : ∃ source tokens, ∃ tree : SourceTree,
    source = "rec List \x7b Nil, Cons: alias list \x7b unit \x7d \x7d" ∧
      Token.scan "list.tyd" source = .ok tokens ∧ InGrammar (tokens.map (·.kind)) ∧
      tree.terminals = terminalsOf tokens ∧ tree.Misnamed ∧
      ¬ ∃ d w, Description.ofSource "list.tyd" source = .ok (d, w) := by
  obtain ⟨source, hsource⟩ : ∃ source, source = "rec List \x7b Nil, Cons: alias list \x7b unit \x7d \x7d" :=
    ⟨_, rfl⟩
  obtain ⟨tokens, h, hscan⟩ := exists_ok_of_any (Token.scan "list.tyd" source) (fun tokens =>
    tokens.map (·.kind) == [.recKeyword, .identifier, .openBrace, .identifier, .comma, .identifier,
      .colon, .aliasKeyword, .identifier, .openBrace, .unit, .closeBrace, .closeBrace, .endOfInput])
    (by subst hsource; decide +kernel)
  have hread : (Description.ofSource "list.tyd" source).toOption.isNone = true := by
    subst hsource
    decide +kernel
  rw [beq_iff_eq] at hscan
  let w : Word := ⟨"", Position.start.span ""⟩
  let payload : ParseTree .sum :=
    .sum (.product (.named w (.sum (.product .unit .noStars) .noPluses)) .noStars) .noPluses
  let body : ParseTree .sum := .sum (.product (.recursive w
    (.moreCtors (.bareCtor w) (.lastCtor (.ctor w payload)))) .noStars) .noPluses
  have hg : InGrammar (tokens.map (·.kind)) := ⟨⟨[], body⟩, by rw [hscan]; rfl⟩
  obtain ⟨tree, hts, -, hok, -⟩ := names_checked_exactly h hg
  have hno : ¬ ∃ d w, Description.ofSource "list.tyd" source = .ok (d, w) := by
    rintro ⟨d, w, hd⟩
    simp [hd] at hread
  exact ⟨source, tokens, tree, hsource, h, hg, hts, not_not.1 fun hm => hno (hok.2 hm), hno⟩

end TypeDesc
