/-
What is emitted for a type that is declared more than once: one declaration, that
of the place where the type is met first. `Survey` sets the emitted declarations
beside the ones that the types have where they stand. The two are the same for
every type exactly if types of one identifier are bound alike, and then each type
is applied to as many arguments as its declaration has parameters
(`redeclared_types_agree_iff`). A redeclaration that is not bound alike need not
be reported (`redeclared_types_differ`).
-/
import TypeDesc.Proofs.ClosedModule
import TypeDesc.Proofs.Redeclared

namespace TypeDesc

open Reason (Ty Decl declared voidDecl eitherDecl)

/-! ## Arguments and parameters -/

namespace Reason

mutual
/-- The types applied anywhere in a type, from left to right, each with the number of its
arguments. -/
def Ty.applications : Ty → List (String × Nat)
  | .tuple ts => applicationsAll ts
  | .app n ts => (n, ts.length) :: applicationsAll ts
  | _ => []

/-- The types applied anywhere in a list of types. -/
def Ty.applicationsAll : List Ty → List (String × Nat)
  | [] => []
  | t :: ts => applications t ++ applicationsAll ts
end

/-- The types that a declaration is made of. -/
def Decl.types : Decl → List Ty
  | .synonym _ body => [body]
  | .variant _ ctors => ctors.map (·.payload)

/-- Every type applied in `t` has as many arguments as its declaration has parameters. -/
def Ty.Saturated (decls : List Decl) (t : Ty) : Prop :=
  ∀ app ∈ t.applications, (declared decls app.1).map (·.head.params.length) = some app.2

instance (decls : List Decl) (t : Ty) : Decidable (t.Saturated decls) :=
  inferInstanceAs (Decidable (∀ app ∈ t.applications,
    (declared decls app.1).map (·.head.params.length) = some app.2))

variable {decls : List Decl}

theorem Ty.mem_applicationsAll {app : String × Nat} {ts : List Ty} :
    app ∈ applicationsAll ts ↔ ∃ t ∈ ts, app ∈ t.applications := by
  induction ts with
  | nil => simp [applicationsAll]
  | cons t ts ih => simp [applicationsAll, ih]

theorem Ty.saturated_tuple {ts : List Ty} : (Ty.tuple ts).Saturated decls ↔ ∀ t ∈ ts, t.Saturated decls := by
  simp only [Saturated, applications, mem_applicationsAll]
  exact ⟨fun h t ht app hm => h app ⟨t, ht, hm⟩, fun h app ⟨t, ht, hm⟩ => h t ht app hm⟩

theorem Ty.saturated_app {name : String} {ts : List Ty} : (Ty.app name ts).Saturated decls ↔
    (declared decls name).map (·.head.params.length) = some ts.length ∧ ∀ t ∈ ts, t.Saturated decls := by
  rw [← saturated_tuple]
  exact List.forall_mem_cons

theorem Ty.saturated_var (name : String) : (Ty.var name).Saturated decls := by
  simp [Saturated, applications]

end Reason

variable {decls own : List Decl}

theorem saturated_applyTo {name : String} {params : List String} : (applyTo name params).Saturated decls ↔
    (declared decls name).map (·.head.params.length) = some params.length := by
  have hvars : ∀ t ∈ params.map Ty.var, t.Saturated decls := by
    simpa using fun p _ => Ty.saturated_var p
  rw [applyTo, Ty.saturated_app, List.length_map]
  exact and_iff_left hvars

theorem saturated_choice (he : declared decls eitherDecl.name = some eitherDecl) {t : Ty} {us : List Ty}
    (h : ∀ u ∈ t :: us, u.Saturated decls) : (choice t us).Saturated decls := by
  induction us generalizing t with
  | nil => exact h t (by simp)
  | cons u us ih =>
    rw [List.forall_mem_cons] at h
    rw [choice, Ty.saturated_app, he]
    exact ⟨rfl, by simpa using ⟨h.1, ih h.2⟩⟩

namespace Description

variable {d : Description} {env : Env} {e : Expr}

/-! ## The emitted declarations -/

/-- What is emitted for a description and what its types declare where they stand. -/
structure Survey (d : Description) (decls own : List Decl) : Prop where
  declarations : d.declarations = .ok decls
  gathered : d.Gathered decls
  ownDecls : d.body.ownDecls (.ofParams d.params) = .ok own
  origin : ∀ decl ∈ decls, decl ∈ own ∨ decl = voidDecl ∨ decl = eitherDecl
  notGenerated : ∀ decl ∈ own, decl.ident ∉ Reason.generatedIdents

theorem WellFormed.survey (hd : d.WellFormed) : ∃ decls own, d.Survey decls own := by
  have hl : (Env.ofParams d.params).length = d.params.length := by simp [Env.ofParams]
  obtain ⟨ds, c, hds, hg⟩ := hd.declarations_gathers
  obtain ⟨decls, hdecls, hgathered⟩ := hd.gathered
  obtain rfl : ds.reverse = decls := Except.ok.inj (hds.symm.trans hdecls)
  obtain ⟨own, hown, hnot⟩ := hd.body.ownAll hl
  have hin : d.body.OwnAll (· ∈ own) (.ofParams d.params) := ⟨own, hown, fun _ => id⟩
  refine ⟨ds.reverse, own, hdecls, hgathered, hown, fun decl hm => ?_, hnot⟩
  exact hg.origin (by simpa using hin) decl (List.mem_reverse.1 hm)

namespace Survey

variable {decls own : List Decl} {decl : Decl} (hs : d.Survey decls own) (hd : d.WellFormed)
include hs hd

theorem mem_own_iff : decl ∈ own ↔ ∃ env e, d.Part env e ∧ Declares env e decl :=
  mem_ownDecls_iff hd.body (by simp [Env.ofParams]) hs.ownDecls

/-- If types of one identifier have the same declaration, the emitted one is that of every type. -/
theorem declared_eq (ha : d.Agreed) (h : d.Part env e) (hdecl : Declares env e decl)
    (hi : decl.ident ∈ decls.map (·.ident)) : decl ∈ decls ∧ declared decls decl.name = some decl := by
  obtain ⟨found, hm, hident, hf⟩ := exists_declared hi
  rcases hs.origin found hm with ho | hg
  · obtain ⟨env', e', h', hdecl'⟩ := (hs.mem_own_iff hd).1 ho
    obtain rfl := ha h' hdecl' h hdecl hident
    exact ⟨hm, hf⟩
  · have hown := (hs.mem_own_iff hd).2 ⟨env, e, h, hdecl⟩
    have hi : decl.ident = found.ident := hident.symm
    exact absurd (hi ▸ generated_ident hg) (hs.notGenerated decl hown)

theorem mentions_covered (ha : d.Agreed) (h : d.Part env e) (hdecl : Declares env e decl)
    (hi : decl.ident ∈ decls.map (·.ident)) :
    ∀ name ∈ decl.mentions, typeIdent name ∈ decls.map (·.ident) :=
  hs.gathered.closed.mentions decl (hs.declared_eq hd ha h hdecl hi).1

/-- Then every name that a part mentions is declared. -/
theorem covered (ha : d.Agreed) (h : d.Part env e) :
    ∀ {t : Ty}, e.toReason env = .ok t → ∀ name ∈ t.applied, typeIdent name ∈ decls.map (·.ident) := by
  induction h with
  | root => exact fun ht => hs.gathered.body _ ht
  | @sum env a b rest e h he ih =>
    intro t ht name hm
    obtain ⟨scope, hw, hl⟩ := hd.part h
    obtain ⟨t', ht'⟩ := hw.toReason_ok hl
    refine ih ht' name ?_
    simp only [Expr.toReason, bind_eq_ok, Except.ok.injEq] at ht'
    obtain ⟨u, hu, v, hv, vs, hvs, rfl⟩ := ht'
    obtain ⟨t', hmem, ht'⟩ := forall₂_mem (toReason_operands hu hv hvs) he
    cases ht.symm.trans ht'
    exact mem_applied_choice.2 (.inr ⟨t, hmem, hm⟩)
  | @product env a b rest e h he ih =>
    intro t ht name hm
    obtain ⟨scope, hw, hl⟩ := hd.part h
    obtain ⟨t', ht'⟩ := hw.toReason_ok hl
    refine ih ht' name ?_
    simp only [Expr.toReason, bind_eq_ok, Except.ok.injEq] at ht'
    obtain ⟨u, hu, v, hv, vs, hvs, rfl⟩ := ht'
    obtain ⟨t', hmem, ht'⟩ := forall₂_mem (toReason_operands hu hv hvs) he
    cases ht.symm.trans ht'
    exact Ty.mem_appliedAll.2 ⟨t, hmem, hm⟩
  | @payload env name ctors params ctor h hp hc ih =>
    intro t ht mentioned hm
    obtain ⟨decl, hdecl, -⟩ := hd.part_declares h rfl
    have hi := ih hdecl.toReason decl.name (by simp)
    refine hs.mentions_covered hd ha h hdecl hi mentioned ?_
    cases hdecl with
    | recursive hp' hv =>
      cases hp.symm.trans hp'
      obtain ⟨v, hv, -, hr⟩ := forall₂_mem (toReasonCtors_eq_ok.1 hv) hc
      cases ht.symm.trans hr
      exact List.mem_flatMap.2 ⟨v, hv, hm⟩
  | @body env name body h ih =>
    intro t ht mentioned hm
    obtain ⟨decl, hdecl, -⟩ := hd.part_declares h rfl
    have hi := ih hdecl.toReason decl.name (by simp)
    refine hs.mentions_covered hd ha h hdecl hi mentioned ?_
    cases hdecl with
    | named _ ht' =>
      cases ht.symm.trans ht'
      exact hm

theorem declared_part (ha : d.Agreed) (h : d.Part env e) (hdecl : Declares env e decl) :
    declared decls decl.name = some decl := by
  have hi := hs.covered hd ha h hdecl.toReason decl.name (by simp)
  exact (hs.declared_eq hd ha h hdecl hi).2

/-- **The emitted declarations are the own ones of all types exactly if types of one identifier have
the same declaration.** -/
theorem declared_own_iff : (∀ decl ∈ own, declared decls decl.name = some decl) ↔ d.Agreed := by
  constructor
  · intro hdeclared env e decl env' e' decl' h hdecl h' hdecl' hi
    have hfound := hdeclared decl ((hs.mem_own_iff hd).2 ⟨env, e, h, hdecl⟩)
    have hfound' := hdeclared decl' ((hs.mem_own_iff hd).2 ⟨env', e', h', hdecl'⟩)
    have hsame : declared decls decl.name = declared decls decl'.name := by
      have hi : typeIdent decl.name = typeIdent decl'.name := hi
      simp only [declared, hi]
    exact Option.some.inj (hfound.symm.trans (hsame.trans hfound'))
  · intro ha decl hm
    obtain ⟨env, e, h, hdecl⟩ := (hs.mem_own_iff hd).1 hm
    exact hs.declared_part hd ha h hdecl

theorem library (ha : d.Agreed) : Library decls own where
  mentions := hs.gathered.closed.mentions
  origin := hs.origin
  notGenerated := hs.notGenerated
  agree decl hm decl' hm' hi := by
    obtain ⟨env, e, h, hdecl⟩ := (hs.mem_own_iff hd).1 hm
    obtain ⟨env', e', h', hdecl'⟩ := (hs.mem_own_iff hd).1 hm'
    obtain rfl := ha h hdecl h' hdecl' hi
    cases decl <;> exact ⟨rfl, rfl⟩

theorem saturated_own (ha : d.Agreed) (h : d.Part env e) (hdecl : Declares env e decl) :
    (applyTo decl.name decl.head.params).Saturated decls := by
  rw [saturated_applyTo, hs.declared_part hd ha h hdecl]
  rfl

/-- **A part applies each type to as many arguments as its declaration has parameters**, if types of
one identifier have the same declaration. -/
theorem saturated (ha : d.Agreed) {scope : List String} (hw : e.WellFormed scope) :
    ∀ {env : Env} {t : Ty}, d.Part env e → e.toReason env = .ok t → t.Saturated decls := by
  have hlib := hs.library hd ha
  induction hw with
  | void =>
    intro env t h ht
    have hi := hs.covered hd ha h ht
    cases ht
    have hv := hlib.declared_generated (.inl rfl) (hi _ (by simp [Ty.applied]))
    show (applyTo voidDecl.name []).Saturated decls
    rw [saturated_applyTo, hv]
    rfl
  | unit =>
    intro env t h ht
    cases ht
    simp [Ty.Saturated, Ty.applications]
  | var =>
    intro env t h ht
    simp only [Expr.toReason, bind_eq_ok, Except.ok.injEq] at ht
    obtain ⟨b, hb, rfl⟩ := ht
    cases b with
    | free p => exact Ty.saturated_var p
    | enclosing head =>
      obtain ⟨ctors, hp, hparams⟩ :=
        h.head (enclosing_notMem_ofParams _) (Env.getElem?_of_lookup hb)
      obtain ⟨decl, hdecl, -⟩ := hd.part_declares hp rfl
      have hsat := hs.saturated_own hd ha hp hdecl
      cases hdecl with
      | recursive hp' _ =>
        cases hparams.symm.trans hp'
        exact hsat
  | sum _ _ _ iha ihb ihs =>
    intro env t h ht
    have hi := hs.covered hd ha h ht
    simp only [Expr.toReason, bind_eq_ok, Except.ok.injEq] at ht
    obtain ⟨t, ht, u, hu, us, hus, rfl⟩ := ht
    have he := hlib.declared_generated (.inr rfl) (hi _ (mem_applied_choice.2 (.inl rfl)))
    have hall := List.forall_mem_cons.2 ⟨@iha, List.forall_mem_cons.2 ⟨@ihb, @ihs⟩⟩
    refine saturated_choice he fun v hv => ?_
    obtain ⟨e, hm, hev⟩ := forall₂_mem (toReason_operands ht hu hus).flip hv
    exact hall e hm (.sum h hm) hev
  | product _ _ _ iha ihb ihs =>
    intro env t h ht
    simp only [Expr.toReason, bind_eq_ok, Except.ok.injEq] at ht
    obtain ⟨t, ht, u, hu, us, hus, rfl⟩ := ht
    have hall := List.forall_mem_cons.2 ⟨@iha, List.forall_mem_cons.2 ⟨@ihb, @ihs⟩⟩
    refine Ty.saturated_tuple.2 fun v hv => ?_
    obtain ⟨e, hm, hev⟩ := forall₂_mem (toReason_operands ht hu hus).flip hv
    exact hall e hm (.product h hm) hev
  | recursive _ _ _ _ _ | named _ _ _ =>
    intro env t h ht
    obtain ⟨decl, hdecl, -⟩ := hd.part_declares h rfl
    cases ht.symm.trans hdecl.toReason
    exact hs.saturated_own hd ha h hdecl

theorem part_saturated (ha : d.Agreed) (h : d.Part env e) {t : Ty} (ht : e.toReason env = .ok t) :
    t.Saturated decls := by
  obtain ⟨scope, hw, -⟩ := hd.part h
  exact hs.saturated hd ha hw h ht

theorem decl_saturated (ha : d.Agreed) (hm : decl ∈ decls) : ∀ t ∈ decl.types, t.Saturated decls := by
  intro t ht
  rcases hs.origin decl hm with ho | rfl | rfl
  · obtain ⟨env, e, h, hdecl⟩ := (hs.mem_own_iff hd).1 ho
    cases hdecl with
    | recursive hp hv =>
      obtain ⟨v, hmem, rfl⟩ := List.mem_map.1 ht
      obtain ⟨ctor, hc, -, hr⟩ := exists_ctor_of_mem hv hmem
      exact hs.part_saturated hd ha (.payload h hp hc) hr
    | named hp hr =>
      obtain rfl := List.mem_singleton.1 ht
      exact hs.part_saturated hd ha (.body h) hr
  · cases ht
  · obtain ⟨v, hmem, rfl⟩ := List.mem_map.1 ht
    simp only [List.mem_cons, List.not_mem_nil, or_false] at hmem
    rcases hmem with rfl | rfl <;> exact Ty.saturated_var _

end Survey

end Description

/-- **When redeclared types agree.** A description that was read without a report of a redeclaration
emits for every type in it the declaration that the type has in its own place, exactly if types of
one identifier are bound alike. Each type is then applied to as many arguments as its declaration
has parameters, in the type of the description and in all that is emitted. -/
theorem redeclared_types_agree_iff {file source : String} {d : Description} {w : List Report}
    (h : Description.ofSource file source = .ok (d, w))
    (hw : ∀ report ∈ w, report.finding.code ≠ "W301") :
    ∃ decls own top, d.declarations = .ok decls ∧ d.body.ownDecls (.ofParams d.params) = .ok own ∧
      d.body.toReason (.ofParams d.params) = .ok top ∧
      ((∀ decl ∈ own, declared decls decl.name = some decl) ↔ d.BoundAlike) ∧
      (d.BoundAlike → ∀ t ∈ top :: decls.flatMap (·.types), t.Saturated decls) := by
  obtain ⟨hd, -⟩ := ofSource_sound h
  have hiff := Description.agreed_iff_boundAlike hd (unmixed_of_warnings h hw)
  obtain ⟨decls, own, hs⟩ := hd.survey
  have hl : (Env.ofParams d.params).length = d.params.length := by simp [Env.ofParams]
  obtain ⟨top, ht⟩ := hd.body.toReason_ok hl
  refine ⟨decls, own, top, hs.declarations, hs.ownDecls, ht, (hs.declared_own_iff hd).trans hiff, ?_⟩
  intro hb
  have ha := hiff.2 hb
  refine List.forall_mem_cons.2 ⟨hs.part_saturated hd ha .root ht, fun t hm => ?_⟩
  obtain ⟨decl, hdecl, hm⟩ := List.mem_flatMap.1 hm
  exact hs.decl_saturated hd ha hdecl t hm

/-- A named type that stands twice in a recursive type and mentions it and its parameter. -/
theorem redeclared_types_agree_inside : ∃ d w decls own top,
    Description.ofSource "inside.tyd"
      "params a rec l \x7b Nil, Cons: alias x \x7b a * l \x7d, More: unit + alias x \x7b a * l \x7d \x7d" =
        .ok (d, w) ∧
      (∀ report ∈ w, report.finding.code ≠ "W301") ∧ d.declarations = .ok decls ∧
      d.body.ownDecls (.ofParams d.params) = .ok own ∧ own.map (·.ident) = ["l", "x", "x"] ∧
      d.body.toReason (.ofParams d.params) = .ok top ∧
      (∀ decl ∈ own, declared decls decl.name = some decl) ∧
      ∀ t ∈ top :: decls.flatMap (·.types), t.Saturated decls := by
  obtain ⟨⟨d, w⟩, h, hread⟩ := exists_ok_of_any (Description.ofSource "inside.tyd"
      "params a rec l \x7b Nil, Cons: alias x \x7b a * l \x7d, More: unit + alias x \x7b a * l \x7d \x7d")
    (fun x => decide x.1.BoundAlike && decide (∀ report ∈ x.2, report.finding.code ≠ "W301") &&
      (x.1.body.ownDecls (.ofParams x.1.params)).toOption.map (·.map (·.ident)) ==
        some ["l", "x", "x"]) (by decide +kernel)
  simp only [Bool.and_eq_true, decide_eq_true_eq, beq_iff_eq] at hread
  obtain ⟨⟨hb, hw⟩, hidents⟩ := hread
  obtain ⟨decls, own, top, hdecls, hown, htop, hiff, hsat⟩ := redeclared_types_agree_iff h hw
  simp only [hown, toOption_ok, Option.map_some, Option.some.injEq] at hidents
  exact ⟨d, w, decls, own, top, h, hw, hdecls, hown, hidents, htop, hiff.2 hb, hsat hb⟩

/-- **A redeclaration may go unreported although it matters**: as expressions the two types are the
same, but each mentions the recursive type around it, and only one of these has a parameter. -/
theorem redeclared_types_differ : ∃ d decls own top,
    Description.ofSource "differ.tyd"
      "params a rec p \x7b X: a * alias t \x7b p \x7d \x7d * rec q \x7b Y: alias t \x7b q \x7d \x7d" =
        .ok (d, []) ∧
      d.declarations = .ok decls ∧ d.body.ownDecls (.ofParams d.params) = .ok own ∧
      d.body.toReason (.ofParams d.params) = .ok top ∧
      (∃ decl ∈ own, declared decls decl.name ≠ some decl) ∧
      ∃ t ∈ top :: decls.flatMap (·.types), ¬ t.Saturated decls := by
  obtain ⟨⟨d, w⟩, h, hread⟩ := exists_ok_of_any (Description.ofSource "differ.tyd"
      "params a rec p \x7b X: a * alias t \x7b p \x7d \x7d * rec q \x7b Y: alias t \x7b q \x7d \x7d")
    (fun x => x.2.isEmpty &&
      x.1.declarations.toOption ==
        some [.variant ⟨"q", []⟩ [⟨"Y", .app "t" []⟩], .synonym ⟨"t", ["a"]⟩ (.app "p" [.var "a"]),
          .variant ⟨"p", ["a"]⟩ [⟨"X", .tuple [.var "a", .app "t" [.var "a"]]⟩]] &&
      (x.1.body.ownDecls (.ofParams x.1.params)).toOption.any
        (.synonym ⟨"t", []⟩ (.app "q" []) ∈ ·)) (by decide +kernel)
  obtain ⟨hd, -⟩ := ofSource_sound h
  obtain ⟨decls, own, hs⟩ := hd.survey
  have hl : (Env.ofParams d.params).length = d.params.length := by simp [Env.ofParams]
  obtain ⟨top, htop⟩ := hd.body.toReason_ok hl
  simp only [hs.declarations, hs.ownDecls, toOption_ok, Option.any_some, Bool.and_eq_true,
    List.isEmpty_iff, beq_iff_eq, Option.some.injEq, decide_eq_true_eq] at hread
  obtain ⟨⟨rfl, rfl⟩, hown⟩ := hread
  refine ⟨d, _, own, top, h, hs.declarations, hs.ownDecls, htop, ⟨_, hown, by decide +kernel⟩,
    .app "t" [], ?_, by decide +kernel⟩
  simp [Reason.Decl.types]

end TypeDesc
