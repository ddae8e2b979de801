/-
The Reason module of every description that was read is closed: its declarations
have different identifiers, and each name that one of them mentions is that of
another or its own. There is no such module exactly when a declaration has the
identifier of the top and the description is not itself that type
(`reason_module_closed`).
-/
import TypeDesc.Description.Emission
import TypeDesc.Proofs.Gathered
import TypeDesc.Proofs.Source

namespace TypeDesc

open Reason (Ty Decl)

/-! ## Printing -/

/-- The type has a text. -/
def Reason.Ty.HasText (t : Ty) : Prop :=
  ∃ text, t.print = .ok text

/-- The declaration has a text at every width. -/
def Reason.Decl.HasText (d : Decl) : Prop :=
  ∀ width, ∃ text, d.print width = .ok text

theorem printAll_hasText {ts : List Ty} (h : ∀ t ∈ ts, t.HasText) :
    ∃ texts, Ty.printAll ts = .ok texts := by
  induction ts with
  | nil => exact ⟨[], rfl⟩
  | cons t ts ih =>
    rw [List.forall_mem_cons] at h
    obtain ⟨⟨text, ht⟩, hts⟩ := h
    obtain ⟨texts, hts⟩ := ih hts
    exact ⟨text :: texts, by simp only [Ty.printAll, ht, hts, ok_bind]⟩

theorem Reason.Ty.HasText.tuple {ts : List Ty} (h : ∀ t ∈ ts, t.HasText) : (Ty.tuple ts).HasText := by
  obtain ⟨texts, hts⟩ := printAll_hasText h
  exact ⟨_, by rw [Ty.print, hts, ok_bind]⟩

theorem Reason.Ty.HasText.app {ts : List Ty} (h : ∀ t ∈ ts, t.HasText) (name : String) :
    (Ty.app name ts).HasText := by
  obtain ⟨texts, hts⟩ := printAll_hasText h
  simp only [Ty.HasText, Ty.print, hts, ok_bind]
  split <;> exact ⟨_, rfl⟩

theorem hasText_applyTo (name : String) (params : List String) : (applyTo name params).HasText := by
  refine .app (fun t ht => ?_) name
  obtain ⟨p, -, rfl⟩ := List.mem_map.1 ht
  exact ⟨_, rfl⟩

theorem hasText_choice {t : Ty} {ts : List Ty} (h : ∀ u ∈ t :: ts, u.HasText) :
    (choice t ts).HasText := by
  induction ts generalizing t with
  | nil => exact h t (by simp)
  | cons u us ih =>
    rw [List.forall_mem_cons] at h
    refine .app (fun v hv => ?_) _
    simp only [List.mem_cons, List.not_mem_nil, or_false] at hv
    rcases hv with rfl | rfl
    · exact h.1
    · exact ih h.2

mutual
theorem toReason_hasText {env : Env} {t : Ty} : (e : Expr) → e.toReason env = .ok t → t.HasText
  | .void, h => by
    cases h
    exact hasText_applyTo _ []
  | .unit, h => by
    cases h
    exact ⟨_, rfl⟩
  | .var i, h => by
    simp only [Expr.toReason, bind_eq_ok, Except.ok.injEq] at h
    obtain ⟨b, -, rfl⟩ := h
    cases b with
    | free name => exact ⟨_, rfl⟩
    | enclosing head => exact hasText_applyTo _ _
  | .sum a b rest, h => by
    simp only [Expr.toReason, bind_eq_ok, Except.ok.injEq] at h
    obtain ⟨t, ha, u, hb, us, hr, rfl⟩ := h
    exact hasText_choice (List.forall_mem_cons.2 ⟨toReason_hasText a ha,
      List.forall_mem_cons.2 ⟨toReason_hasText b hb, toReasonAll_hasText rest hr⟩⟩)
  | .product a b rest, h => by
    simp only [Expr.toReason, bind_eq_ok, Except.ok.injEq] at h
    obtain ⟨t, ha, u, hb, us, hr, rfl⟩ := h
    exact .tuple (List.forall_mem_cons.2 ⟨toReason_hasText a ha,
      List.forall_mem_cons.2 ⟨toReason_hasText b hb, toReasonAll_hasText rest hr⟩⟩)
  | .recursive name ctors, h => by
    simp only [Expr.toReason, bind_eq_ok, Except.ok.injEq] at h
    obtain ⟨params, -, rfl⟩ := h
    exact hasText_applyTo _ _
  | .named name body, h => by
    simp only [Expr.toReason, bind_eq_ok, Except.ok.injEq] at h
    obtain ⟨params, -, rfl⟩ := h
    exact hasText_applyTo _ _
  | .foreign value, h => by simp [Expr.toReason] at h

theorem toReasonAll_hasText {env : Env} {ts : List Ty} :
    (es : List Expr) → Expr.toReasonAll env es = .ok ts → ∀ t ∈ ts, t.HasText
  | [], h => by
    cases h
    simp
  | e :: es, h => by
    simp only [Expr.toReasonAll, bind_eq_ok, Except.ok.injEq] at h
    obtain ⟨t, he, ts, hes, rfl⟩ := h
    exact List.forall_mem_cons.2 ⟨toReason_hasText e he, toReasonAll_hasText es hes⟩
end

theorem printCtor_hasText {ctor : Ctor Ty} (h : ctor.payload.HasText) :
    ∃ text, Reason.printCtor ctor = .ok text := by
  obtain ⟨text, ht⟩ := h
  rw [Reason.printCtor]
  split
  next => exact ⟨_, rfl⟩
  next hp =>
    rw [hp] at ht
    rw [ht, ok_bind]
    exact ⟨_, rfl⟩
  next =>
    rw [ht, ok_bind]
    exact ⟨_, rfl⟩

theorem printCtors_hasText {ctors : List (Ctor Ty)} (h : ∀ ctor ∈ ctors, ctor.payload.HasText) :
    ∃ texts, Reason.printCtors ctors = .ok texts := by
  induction ctors with
  | nil => exact ⟨[], rfl⟩
  | cons ctor ctors ih =>
    rw [List.forall_mem_cons] at h
    obtain ⟨text, ht⟩ := printCtor_hasText h.1
    obtain ⟨texts, hts⟩ := ih h.2
    exact ⟨text :: texts, by simp only [Reason.printCtors, ht, hts, ok_bind]⟩

theorem Reason.Decl.HasText.synonym {t : Ty} (h : t.HasText) (head : Head) :
    (Decl.synonym head t).HasText := by
  obtain ⟨text, ht⟩ := h
  exact fun width => ⟨_, by rw [Decl.print, ht, ok_bind]⟩

theorem Reason.Decl.HasText.variant {ctors : List (Ctor Ty)}
    (h : ∀ ctor ∈ ctors, ctor.payload.HasText) (head : Head) : (Decl.variant head ctors).HasText := by
  intro width
  obtain ⟨texts, hts⟩ := printCtors_hasText h
  cases ctors with
  | nil => exact ⟨_, rfl⟩
  | cons ctor ctors =>
    rw [Decl.print.eq_3 _ _ _ (by simp), hts, ok_bind]
    exact ⟨_, rfl⟩

/-- Every declaration of a walk has a text. -/
theorem Gathers.hasText {env : Env} {es : List Expr} {c c' : Collected} {ds : List Decl}
    (h : Gathers env es c ds c') : ∀ d ∈ ds, d.HasText := by
  induction h with
  | nil | unit | var | known => simp
  | append _ _ ih ih' =>
    intro d hd
    exact (List.mem_append.1 hd).elim (ih d) (ih' d)
  | void =>
    intro d hd
    rw [Collected.mem_of_addGenerated hd]
    exact .variant (by simp) _
  | sum _ ih =>
    intro d hd
    rcases List.mem_append.1 hd with hd | hd
    · exact ih d hd
    · rw [Collected.mem_of_addGenerated hd]
      refine .variant ?_ _
      simp only [List.mem_cons, List.not_mem_nil, or_false]
      rintro ctor (rfl | rfl) <;> exact ⟨_, rfl⟩
  | product _ ih => exact ih
  | recursive _ _ hv _ ih =>
    refine List.forall_mem_cons.2 ⟨.variant (fun v hm => ?_) _, ih⟩
    obtain ⟨ctor, -, -, ht⟩ := exists_ctor_of_mem hv hm
    exact toReason_hasText _ ht
  | named _ _ ht _ ih => exact List.forall_mem_cons.2 ⟨.synonym (toReason_hasText _ ht) _, ih⟩

theorem printModule_hasText {decls : List Decl} (h : ∀ d ∈ decls, d.HasText) (width : Text.Width) :
    ∃ text, Reason.printModule width decls = .ok text := by
  have hdecls : ∃ texts, Reason.printDecls width decls = .ok texts := by
    induction decls with
    | nil => exact ⟨[], rfl⟩
    | cons d ds ih =>
      rw [List.forall_mem_cons] at h
      obtain ⟨text, ht⟩ := h.1 width
      obtain ⟨texts, hts⟩ := ih h.2
      exact ⟨text :: texts, by simp only [Reason.printDecls, ht, hts, ok_bind]⟩
  obtain ⟨texts, hts⟩ := hdecls
  exact ⟨_, by rw [Reason.printModule, hts, ok_bind]⟩

/-! ## Closed modules -/

/-- Declarations of different identifiers that mention only one another. -/
structure Closed (decls : List Decl) : Prop where
  distinct : (decls.map (·.ident)).Nodup
  mentions : ∀ d ∈ decls, ∀ name ∈ d.mentions, typeIdent name ∈ decls.map (·.ident)

theorem Env.known_ofParams (params : List String) (c : Collected) :
    (Env.ofParams params).Known c := by
  intro head hm
  simp [Env.ofParams] at hm

namespace Description

/-- A declaration of the description has the identifier of the wanted top, and the description is
not itself a type of that identifier. -/
def Clashes (d : Description) (decls : List Decl) (top : Option String) : Prop :=
  ∃ name, top = some name ∧ (∀ own, d.body.name? = some own → typeIdent own ≠ typeIdent name) ∧
    ∃ decl ∈ decls, typeIdent decl.name = typeIdent name

theorem isTop_iff {d : Description} {top : String} :
    d.isTop top = true ↔ ∃ own, d.body.name? = some own ∧ typeIdent own = typeIdent top := by
  rw [isTop]
  cases d.body.name? <;> simp

/-- What the walk over the body of a description finds. -/
structure Gathered (d : Description) (decls : List Decl) : Prop where
  closed : Closed decls
  hasText : ∀ decl ∈ decls, decl.HasText
  body : ∀ t, d.body.toReason (.ofParams d.params) = .ok t →
    ∀ name ∈ t.applied, typeIdent name ∈ decls.map (·.ident)

/-- The declarations of a well-formed description are found by a walk over its body. -/
theorem WellFormed.declarations_gathers {d : Description} (h : d.WellFormed) :
    ∃ ds c, d.declarations = .ok ds.reverse ∧ Gathers (.ofParams d.params) [d.body] {} ds c := by
  have hl : (Env.ofParams d.params).length = d.params.length := by simp [Env.ofParams]
  obtain ⟨⟨ds, c⟩, hc⟩ := h.body.collect_ok hl {}
  exact ⟨ds, c, by simp only [declarations, Expr.declarations, hc, ok_bind], collect_gathers _ hc⟩

theorem WellFormed.gathered {d : Description} (h : d.WellFormed) :
    ∃ decls, d.declarations = .ok decls ∧ d.Gathered decls := by
  obtain ⟨ds, c, hd, hg⟩ := h.declarations_gathers
  have hidents : c.idents = ds.reverse.map (·.ident) := by
    rw [hg.grows.idents, List.map_reverse]
    exact List.append_nil _
  obtain ⟨ht, hm⟩ := hg.covers (Env.known_ofParams _ _)
  refine ⟨ds.reverse, hd, ⟨?_, ?_⟩, ?_, ?_⟩
  · rw [← hidents]
    exact hg.grows.nodup List.nodup_nil
  · rw [← hidents]
    exact fun d hd => hm d (List.mem_reverse.1 hd)
  · exact fun d hd => hg.hasText d (List.mem_reverse.1 hd)
  · rw [← hidents]
    exact ht d.body (by simp)

/-- The top of a well-formed description mentions only what the description declares. -/
theorem Gathered.top {d : Description} {decls : List Decl} (hg : d.Gathered decls)
    (h : d.WellFormed) (top : String) (hfresh : ∀ decl ∈ decls, typeIdent decl.name ≠ typeIdent top) :
    ∃ last, d.topDecl top = .ok last ∧ Closed (decls ++ [last]) ∧
      ∀ decl ∈ decls ++ [last], decl.HasText := by
  have hl : (Env.ofParams d.params).length = d.params.length := by simp [Env.ofParams]
  obtain ⟨t, ht⟩ := h.body.toReason_ok hl
  obtain ⟨params, hp⟩ := h.body.params_ok hl
  refine ⟨.synonym ⟨top, params⟩ t, by simp only [topDecl, ht, hp, ok_bind], ⟨?_, ?_⟩, ?_⟩
  · rw [List.map_append, List.nodup_append]
    refine ⟨hg.closed.distinct, by simp, ?_⟩
    simp only [List.mem_map, List.mem_singleton]
    rintro _ ⟨decl, hm, rfl⟩ _ ⟨_, rfl, rfl⟩
    exact hfresh decl hm
  · intro decl hm name hn
    rw [List.map_append, List.mem_append]
    left
    rcases List.mem_append.1 hm with hm | hm
    · exact hg.closed.mentions decl hm name hn
    · rw [List.mem_singleton.1 hm] at hn
      exact hg.body t ht name hn
  · intro decl hm
    rcases List.mem_append.1 hm with hm | hm
    · exact hg.hasText decl hm
    · rw [List.mem_singleton.1 hm]
      exact .synonym (toReason_hasText _ ht) _

theorem emit_eq_ok {d : Description} {top : Option String} {decls : List Decl}
    (h : d.reasonModule top = .ok decls) (ht : ∀ decl ∈ decls, decl.HasText) (width : Text.Width) :
    ∃ text, Reason.printModule width decls = .ok text ∧ d.emit top width = .ok text := by
  obtain ⟨text, hp⟩ := printModule_hasText ht width
  exact ⟨text, hp, by simp only [emit, h, ok_bind, hp, mapError_ok]⟩

theorem emit_of_clashes {d : Description} {decls : List Decl} {top : Option String}
    (hdecls : d.declarations = .ok decls) (h : d.Clashes decls top) (width : Text.Width) :
    ∃ report, d.emit top width = .error (.rejected report) ∧ report.finding.code = "E400" := by
  obtain ⟨name, rfl, hown, decl, hm, hident⟩ := h
  have htop : d.isTop name = false := by
    rw [Bool.eq_false_iff, ne_eq, isTop_iff]
    rintro ⟨own, ho, he⟩
    exact hown own ho he
  cases hf : decls.find? fun decl => typeIdent decl.name == typeIdent name with
  | none => exact absurd hident (by simpa using List.find?_eq_none.1 hf decl hm)
  | some first =>
    have hr : d.reasonModule (some name) = .error (.rejected (d.clash first name)) := by
      simp [reasonModule, hdecls, htop, hf]
    exact ⟨d.clash first name, by simp only [emit, hr, error_bind], rfl⟩

/-- What is emitted when nothing clashes. -/
theorem Gathered.reasonModule {d : Description} {decls : List Decl} {top : Option String}
    (hg : d.Gathered decls) (hd : d.WellFormed) (hdecls : d.declarations = .ok decls)
    (hno : ¬ d.Clashes decls top) :
    ∃ unit, d.reasonModule top = .ok unit ∧ Closed unit ∧ (∀ decl ∈ unit, decl.HasText) ∧
      ((∀ name ∈ top, d.isTop name = true) → unit = decls) ∧
      ∀ name ∈ top, d.isTop name = false → ∃ last, d.topDecl name = .ok last ∧
        unit = decls ++ [last] := by
  cases top with
  | none =>
    have hr : d.reasonModule none = .ok decls := by simp [Description.reasonModule, hdecls]
    exact ⟨decls, hr, hg.closed, hg.hasText, fun _ => rfl, by simp⟩
  | some name =>
    by_cases htop : d.isTop name = true
    · have hr : d.reasonModule (some name) = .ok decls := by
        simp [Description.reasonModule, hdecls, htop]
      exact ⟨decls, hr, hg.closed, hg.hasText, fun _ => rfl, by simp [htop]⟩
    · have hown : ∀ own, d.body.name? = some own → typeIdent own ≠ typeIdent name :=
        fun own ho he => htop (isTop_iff.2 ⟨own, ho, he⟩)
      have hfresh : ∀ decl ∈ decls, typeIdent decl.name ≠ typeIdent name :=
        fun decl hm he => hno ⟨name, rfl, hown, decl, hm, he⟩
      have hf : decls.find? (fun decl => typeIdent decl.name == typeIdent name) = none :=
        List.find?_eq_none.2 fun decl hm => by simpa using hfresh decl hm
      obtain ⟨last, hlast, hclosed, htext⟩ := hg.top hd name hfresh
      have hr : d.reasonModule (some name) = .ok (decls ++ [last]) := by
        simp [Description.reasonModule, hdecls, htop, hf, hlast]
      exact ⟨decls ++ [last], hr, hclosed, htext, by simp [htop], by simp [hlast]⟩

end Description

/-- **Every emitted module is closed.** For a description that was read, a wanted top and a width:
emission is refused, with the one code of a clash, exactly when a declaration clashes with the top;
otherwise the declarations of the module have different identifiers and mention only one another.
They are those of the description and, last, that of the top, which is left out only when none is
wanted or the description is a type of that identifier. -/
theorem reason_module_closed {file source : String} {d : Description} {w : List Report}
    (h : Description.ofSource file source = .ok (d, w)) (top : Option String) (width : Text.Width) :
    ∃ decls, d.declarations = .ok decls ∧
      (d.Clashes decls top → ∃ report, d.emit top width = .error (.rejected report) ∧
        report.finding.code = "E400") ∧
      (¬ d.Clashes decls top → ∃ unit text, d.reasonModule top = .ok unit ∧
        Reason.printModule width unit = .ok text ∧ d.emit top width = .ok text ∧ Closed unit ∧
        ((∀ name ∈ top, d.isTop name = true) → unit = decls) ∧
        ∀ name ∈ top, d.isTop name = false → ∃ last, d.topDecl name = .ok last ∧
          unit = decls ++ [last]) := by
  obtain ⟨hd, -⟩ := ofSource_sound h
  obtain ⟨decls, hdecls, hg⟩ := hd.gathered
  refine ⟨decls, hdecls, fun hc => Description.emit_of_clashes hdecls hc width, fun hno => ?_⟩
  obtain ⟨unit, hr, hclosed, htext, hunit⟩ := hg.reasonModule hd hdecls hno
  obtain ⟨text, hp, he⟩ := Description.emit_eq_ok hr htext width
  exact ⟨unit, text, hr, hp, he, hclosed, hunit⟩

/-- A description with both generated types: one spelling of the top clashes, another name does
not. -/
theorem reason_module_closed_tree : ∃ d w decls,
    Description.ofSource "tree.tyd"
      "params a\nalias tree \x7b unit + void \x7d * rec Node \x7b Leaf, Fork: Node * a \x7d" = .ok (d, w) ∧
      d.declarations = .ok decls ∧ decls.map (·.ident) = ["node", "either", "void", "tree"] ∧
      (∃ report, d.emit (some "Tree") (.columns 80) = .error (.rejected report)) ∧
      ∃ unit text, d.reasonModule (some "t") = .ok unit ∧
        d.emit (some "t") (.columns 80) = .ok text ∧ Closed unit := by
  obtain ⟨⟨d, w⟩, h, hread⟩ := exists_ok_of_any (Description.ofSource "tree.tyd"
      "params a\nalias tree \x7b unit + void \x7d * rec Node \x7b Leaf, Fork: Node * a \x7d") (fun x =>
    x.1.body.name? == none && x.1.declarations.toOption.map (·.map (·.ident)) ==
      some ["node", "either", "void", "tree"]) (by decide +kernel)
  obtain ⟨decls, hdecls, hclash, -⟩ := reason_module_closed h (some "Tree") (.columns 80)
  obtain ⟨decls', hdecls', -, hclosed⟩ := reason_module_closed h (some "t") (.columns 80)
  obtain rfl : decls = decls' := by simpa [hdecls] using hdecls'
  simp only [hdecls, toOption_ok, Option.map_some, Bool.and_eq_true, beq_iff_eq,
    Option.some.injEq] at hread
  obtain ⟨hname, hidents⟩ := hread
  have hmem : ∀ ident, ident ∈ decls.map (·.ident) ↔
      ident ∈ ["node", "either", "void", "tree"] := by simp [hidents]
  obtain ⟨decl, hm, hident⟩ := List.mem_map.1 ((hmem "tree").2 (by simp))
  obtain ⟨report, hreport, -⟩ := hclash ⟨"Tree", rfl, by simp [hname], decl, hm, hident⟩
  obtain ⟨unit, text, hunit, -, hemit, hc, -⟩ := hclosed (by
    rintro ⟨_, ⟨⟩, -, decl, hm, hident⟩
    have ht := (hmem decl.ident).1 (List.mem_map_of_mem hm)
    rw [Decl.ident, hident] at ht
    exact absurd ht (by decide))
  exact ⟨d, w, decls, h, hdecls, hidents, ⟨report, hreport⟩, unit, text, hunit, hemit, hc⟩

end TypeDesc
