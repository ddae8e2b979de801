/-
Types in one description that print the same.

All names in the types of a description are words (`Description.WellFormed.typed`),
so that a text tells its type up to identifiers, but for unit: nothing keeps its
identifier from the types that a description declares. Different types print
differently exactly if the description does not both mention unit and declare a
type like it that has no parameters (`printed_types_differ_iff`).
-/
import TypeDesc.Proofs.TypeParameters
import TypeDesc.Proofs.TypeText

namespace TypeDesc

open Reason (Ty Decl)

/-! ## Mentions of unit -/

namespace Expr

mutual
/-- Whether unit occurs in an expression. A constructor without a payload carries unit. -/
def mentionsUnit : Expr → Bool
  | .unit => true
  | .sum first second rest =>
    mentionsUnit first || mentionsUnit second || someMentionsUnit rest
  | .product first second rest =>
    mentionsUnit first || mentionsUnit second || someMentionsUnit rest
  | .recursive _ ctors => ctorMentionsUnit ctors
  | .named _ body => mentionsUnit body
  | _ => false

/-- Whether unit occurs in some of the expressions. -/
def someMentionsUnit : List Expr → Bool
  | [] => false
  | e :: es => mentionsUnit e || someMentionsUnit es

/-- Whether unit occurs in the payload of some of the constructors. -/
def ctorMentionsUnit : List (Ctor Expr) → Bool
  | [] => false
  | ⟨_, e⟩ :: ctors => mentionsUnit e || ctorMentionsUnit ctors
end

theorem someMentionsUnit_iff {es : List Expr} :
    someMentionsUnit es = true ↔ ∃ e ∈ es, e.mentionsUnit = true := by
  induction es with
  | nil => simp [someMentionsUnit]
  | cons e es ih => simp [someMentionsUnit, ih]

theorem ctorMentionsUnit_iff {ctors : List (Ctor Expr)} :
    ctorMentionsUnit ctors = true ↔ ∃ ctor ∈ ctors, ctor.payload.mentionsUnit = true := by
  induction ctors with
  | nil => simp [ctorMentionsUnit]
  | cons ctor ctors ih => simp [ctorMentionsUnit, ih]

theorem mentionsUnit_sum {a b : Expr} {rest : List Expr} :
    (Expr.sum a b rest).mentionsUnit = true ↔ ∃ e ∈ a :: b :: rest, e.mentionsUnit = true := by
  simp [mentionsUnit, someMentionsUnit_iff, or_assoc]

theorem mentionsUnit_product {a b : Expr} {rest : List Expr} :
    (Expr.product a b rest).mentionsUnit = true ↔ ∃ e ∈ a :: b :: rest, e.mentionsUnit = true := by
  simp [mentionsUnit, someMentionsUnit_iff, or_assoc]

end Expr

variable {env₀ env : Env} {root e : Expr}

/-- What a part mentions is mentioned. -/
theorem Part.mentionsUnit (h : Part env₀ root env e) (hu : e.mentionsUnit = true) :
    root.mentionsUnit = true := by
  induction h with
  | root => exact hu
  | sum _ he ih => exact ih (Expr.mentionsUnit_sum.2 ⟨_, he, hu⟩)
  | product _ he ih => exact ih (Expr.mentionsUnit_product.2 ⟨_, he, hu⟩)
  | payload _ _ hc ih => exact ih (Expr.ctorMentionsUnit_iff.2 ⟨_, hc, hu⟩)
  | body _ ih => exact ih hu

/-- If unit is mentioned, it is a part. -/
theorem Expr.WellFormed.unit_part {scope : List String} (hw : e.WellFormed scope)
    (hl : env.length = scope.length) (h : Part env₀ root env e) (hu : e.mentionsUnit = true) :
    ∃ env, Part env₀ root env .unit := by
  induction hw generalizing env with
  | void | var => cases hu
  | unit => exact ⟨env, h⟩
  | sum _ _ _ iha ihb ihs =>
    obtain ⟨e, he, hu⟩ := mentionsUnit_sum.1 hu
    have hall := List.forall_mem_cons.2 ⟨@iha, List.forall_mem_cons.2 ⟨@ihb, @ihs⟩⟩
    exact hall e he hl (.sum h he) hu
  | product _ _ _ iha ihb ihs =>
    obtain ⟨e, he, hu⟩ := mentionsUnit_product.1 hu
    have hall := List.forall_mem_cons.2 ⟨@iha, List.forall_mem_cons.2 ⟨@ihb, @ihs⟩⟩
    exact hall e he hl (.product h he) hu
  | @recursive scope name ctors hn hd hc hs ih =>
    obtain ⟨ctor, hm, hu⟩ := ctorMentionsUnit_iff.1 hu
    obtain ⟨params, hp⟩ := (WellFormed.recursive hn hd hc hs).params_ok hl
    exact ih ctor hm (by simp [hl]) (.payload h hp hm) hu
  | named _ _ ih => exact ih hl h.body hu

/-! ## Names in types -/

/-- The names in a binding are words. -/
def Binding.Worded : Binding → Prop
  | .free name => IsWord name
  | .enclosing head => IsWord head.name ∧ ∀ param ∈ head.params, IsWord param

theorem Binding.Worded.params {b : Binding} (h : b.Worded) : ∀ param ∈ b.params, IsWord param := by
  cases b with
  | free name =>
    intro param hm
    rw [List.mem_singleton.1 hm]
    exact h
  | enclosing head => exact h.2

theorem Expr.params_words (h : ∀ b ∈ env, b.Worded) {params : List String}
    (hp : e.params env = .ok params) : ∀ param ∈ params, IsWord param := by
  simp only [Expr.params, bind_eq_ok] at hp
  obtain ⟨indices, -, hp⟩ := hp
  intro param hm
  rcases ((env.addParams_exact hp).2 param).1 hm with hm | ⟨i, -, b, hb, hm⟩
  · cases hm
  · exact (h b (List.mem_of_getElem? hb)).params param hm

theorem Reason.Ty.Worded.choice {unit named : Prop} {t : Ty} {us : List Ty}
    (h : ∀ u ∈ t :: us, u.Worded unit named) : (choice t us).Worded unit named := by
  induction us generalizing t with
  | nil => exact h t (by simp)
  | cons u us ih =>
    rw [List.forall_mem_cons] at h
    refine .app (by decide +kernel) (by simp) ?_
    simpa using ⟨h.1, ih h.2⟩

namespace Description

variable {d : Description} {own : List Decl}

/-- A type is declared that has no parameters and the identifier of unit. -/
def DeclaresUnit (own : List Decl) : Prop :=
  ∃ decl ∈ own, decl.ident = "unit" ∧ decl.head.params = []

/-- The names that are bound around a part are words. -/
theorem WellFormed.bindings (hd : d.WellFormed) (h : d.Part env e) : ∀ b ∈ env, b.Worded := by
  induction h with
  | root =>
    intro b hb
    obtain ⟨param, hm, rfl⟩ := List.mem_map.1 hb
    exact (hd.params param hm).word
  | sum _ _ ih | product _ _ ih | body _ ih => exact ih
  | payload h hp _ ih =>
    obtain ⟨scope, hw, -⟩ := hd.part h
    cases hw with
    | recursive hn _ _ _ =>
      exact List.forall_mem_cons.2 ⟨⟨hn.isName.word, Expr.params_words ih hp⟩, ih⟩

section

variable (hd : d.WellFormed) (hown : d.body.ownDecls (.ofParams d.params) = .ok own)
include hd hown

/-- A type that stands for itself, or that encloses a mention of it, is written with words. -/
theorem WellFormed.applied (h : d.Part env e) {decl : Decl} (hdecl : Declares env e decl) :
    (applyTo decl.name decl.head.params).Worded (d.body.mentionsUnit = true)
      (DeclaresUnit own) := by
  have hmem : decl ∈ own :=
    (mem_ownDecls_iff hd.body (by simp [Env.ofParams]) hown).2 ⟨env, e, h, hdecl⟩
  obtain ⟨scope, hw, -⟩ := hd.part h
  have hbindings := hd.bindings h
  cases hdecl with
  | recursive hp _ =>
    cases hw with
    | recursive hn _ _ _ =>
      exact .applyTo hn.isName.word (Expr.params_words hbindings hp)
        fun hnil hi => ⟨_, hmem, hi, hnil⟩
  | named hp _ =>
    cases hw with
    | named hn _ =>
      exact .applyTo hn.isName.word (Expr.params_words hbindings hp)
        fun hnil hi => ⟨_, hmem, hi, hnil⟩

/-- **The types of a description are written with words.** -/
theorem WellFormed.typed {scope : List String} (hw : e.WellFormed scope) :
    ∀ {env : Env} {t : Ty}, d.Part env e → e.toReason env = .ok t →
      t.Worded (d.body.mentionsUnit = true) (DeclaresUnit own) := by
  induction hw with
  | void =>
    intro env t _ ht
    cases ht
    exact .app (by decide +kernel) (fun _ hi => absurd hi (by decide +kernel)) (by simp)
  | unit =>
    intro env t h ht
    cases ht
    exact .unit (h.mentionsUnit rfl)
  | var =>
    intro env t h ht
    simp only [Expr.toReason, bind_eq_ok, Except.ok.injEq] at ht
    obtain ⟨b, hb, rfl⟩ := ht
    cases b with
    | free name => exact .var (hd.bindings h _ (List.mem_of_getElem? (Env.getElem?_of_lookup hb)))
    | enclosing head =>
      -- a mention has the type that its binder, a part as well, is declared with
      obtain ⟨ctors, hp, hparams⟩ :=
        h.head (enclosing_notMem_ofParams _) (Env.getElem?_of_lookup hb)
      obtain ⟨decl, hdecl, -⟩ := hd.part_declares hp rfl
      have happlied := hd.applied hown hp hdecl
      cases hdecl with
      | recursive hp' _ =>
        cases hparams.symm.trans hp'
        exact happlied
  | sum _ _ _ iha ihb ihs =>
    intro env t h ht
    simp only [Expr.toReason, bind_eq_ok, Except.ok.injEq] at ht
    obtain ⟨t, ht, u, hu, us, hus, rfl⟩ := ht
    have hall := List.forall_mem_cons.2 ⟨@iha, List.forall_mem_cons.2 ⟨@ihb, @ihs⟩⟩
    refine .choice fun v hv => ?_
    obtain ⟨e, hm, hev⟩ := forall₂_mem (toReason_operands ht hu hus).flip hv
    exact hall e hm (.sum h hm) hev
  | product _ _ _ iha ihb ihs =>
    intro env t h ht
    simp only [Expr.toReason, bind_eq_ok, Except.ok.injEq] at ht
    obtain ⟨t, ht, u, hu, us, hus, rfl⟩ := ht
    have hall := List.forall_mem_cons.2 ⟨@iha, List.forall_mem_cons.2 ⟨@ihb, @ihs⟩⟩
    refine .tuple (by simp) fun v hv => ?_
    obtain ⟨e, hm, hev⟩ := forall₂_mem (toReason_operands ht hu hus).flip hv
    exact hall e hm (.product h hm) hev
  | recursive _ _ _ _ _ | named _ _ _ =>
    intro env t h ht
    obtain ⟨decl, hdecl, -⟩ := hd.part_declares h rfl
    cases ht.symm.trans hdecl.toReason
    exact hd.applied hown h hdecl

theorem WellFormed.part_typed (h : d.Part env e) {t : Ty} (ht : e.toReason env = .ok t) :
    t.Worded (d.body.mentionsUnit = true) (DeclaresUnit own) := by
  obtain ⟨scope, hw, -⟩ := hd.part h
  exact hd.typed hown hw h ht

/-- If unit is mentioned and a type like it declared, two types print the same. -/
theorem WellFormed.exists_alike (hu : d.body.mentionsUnit = true) (hdeclared : DeclaresUnit own) :
    ∃ env env' e name, d.Part env .unit ∧ d.Part env' e ∧ e.toReason env' = .ok (.app name []) ∧
      typeIdent name = "unit" := by
  have hl : (Env.ofParams d.params).length = d.params.length := by simp [Env.ofParams]
  obtain ⟨env, hunit⟩ := hd.body.unit_part hl .root hu
  obtain ⟨decl, hm, hi, hnil⟩ := hdeclared
  obtain ⟨env', e, h, hdecl⟩ := (mem_ownDecls_iff hd.body hl hown).1 hm
  refine ⟨env, env', e, decl.name, hunit, h, ?_, hi⟩
  rw [hdecl.toReason, hnil]
  rfl

end

end Description

/-- **When different types print differently.** Every part of a description that was read has a type
and a text. Parts whose texts are the same have the same type up to identifiers, exactly if the
description does not both mention unit and declare a type without parameters that has the
identifier of unit. -/
theorem printed_types_differ_iff {file source : String} {d : Description} {w : List Report}
    (h : Description.ofSource file source = .ok (d, w)) :
    ∃ own, d.body.ownDecls (.ofParams d.params) = .ok own ∧
      (∀ {env e}, d.Part env e → ∃ t text, e.toReason env = .ok t ∧ t.print = .ok text) ∧
      ((∀ {env e t env' e' t'}, d.Part env e → e.toReason env = .ok t → d.Part env' e' →
          e'.toReason env' = .ok t' → t.print = t'.print → t.spelled = t'.spelled) ↔
        ¬ (d.body.mentionsUnit = true ∧
          ∃ decl ∈ own, decl.ident = "unit" ∧ decl.head.params = [])) := by
  obtain ⟨hd, -⟩ := ofSource_sound h
  obtain ⟨decls, own, hs⟩ := hd.survey
  refine ⟨own, hs.ownDecls, fun hp => ?_, fun hdiffer => ?_, fun hboth => ?_⟩
  · obtain ⟨scope, hw, hl⟩ := hd.part hp
    obtain ⟨t, ht⟩ := hw.toReason_ok hl
    obtain ⟨text, htext, -⟩ := (hd.part_typed hs.ownDecls hp ht).print
    exact ⟨t, text, ht, htext⟩
  · rintro ⟨hu, hdeclared⟩
    obtain ⟨env, env', e, name, hunit, hp, ht, hi⟩ := hd.exists_alike hs.ownDecls hu hdeclared
    have hprint : Ty.unit.print = (Ty.app name []).print := by
      simp only [Ty.print, Ty.printAll, ok_bind, List.isEmpty_nil, if_true, hi]
    have hspelled := hdiffer hunit rfl hp ht hprint
    cases hspelled
  · intro env e t env' e' t' hp ht hp' ht' heq
    exact (hd.part_typed hs.ownDecls hp ht).spelled_eq_of_print hboth
      (hd.part_typed hs.ownDecls hp' ht') heq

/-- A type with the identifier of unit and a parameter, beside unit. -/
theorem printed_types_differ_applied : ∃ d own,
    Description.ofSource "unit.tyd"
        "params a rec Unit \x7b X: a, Y: Unit * unit \x7d * unit" = .ok (d, []) ∧
      d.body.ownDecls (.ofParams d.params) = .ok own ∧ own.map (·.ident) = ["unit"] ∧
      d.body.mentionsUnit = true ∧
      ∀ {env e t env' e' t'}, d.Part env e → e.toReason env = .ok t → d.Part env' e' →
        e'.toReason env' = .ok t' → t.print = t'.print → t.spelled = t'.spelled := by
  obtain ⟨⟨d, w⟩, h, hread⟩ := exists_ok_of_any (Description.ofSource "unit.tyd"
      "params a rec Unit \x7b X: a, Y: Unit * unit \x7d * unit") (fun x =>
    x.2.isEmpty && x.1.body.mentionsUnit &&
    (x.1.body.ownDecls (.ofParams x.1.params)).toOption.map (·.map (·.head)) ==
      some [⟨"Unit", ["a"]⟩]) (by decide +kernel)
  obtain ⟨own, hown, -, hiff⟩ := printed_types_differ_iff h
  simp only [hown, toOption_ok, Bool.and_eq_true, List.isEmpty_iff, Option.map_some, beq_iff_eq,
    Option.some.injEq] at hread
  obtain ⟨⟨rfl, hu⟩, hheads⟩ := hread
  obtain ⟨decl, rfl, hhead⟩ := List.map_eq_singleton_iff.1 hheads
  have hident : decl.ident = "unit" := by
    rw [Reason.Decl.ident, Reason.Decl.name, hhead]
    decide +kernel
  refine ⟨d, [decl], h, hown, by simp [hident], hu, hiff.2 ?_⟩
  rintro ⟨-, decl', hm, -, hnil⟩
  rw [List.mem_singleton.1 hm, hhead] at hnil
  cases hnil

/-- **Different types may print the same**: nothing keeps the identifier of unit from the types that
are declared. -/
theorem printed_types_alike : ∃ d env e t t',
    Description.ofSource "unit.tyd" "alias Unit \x7b void \x7d * unit" = .ok (d, []) ∧
      d.Part env e ∧ e.toReason env = .ok t ∧ d.Part env .unit ∧ Expr.toReason env .unit = .ok t' ∧
      t.print = .ok "unit" ∧ t'.print = .ok "unit" ∧ t.spelled ≠ t'.spelled := by
  obtain ⟨⟨d, w⟩, h, hread⟩ := exists_ok_of_any
    (Description.ofSource "unit.tyd" "alias Unit \x7b void \x7d * unit") (fun x =>
      x.2.isEmpty && x.1.params.isEmpty && x.1.body == .product (.named "Unit" .void) .unit [])
    (by decide +kernel)
  simp only [Bool.and_eq_true, List.isEmpty_iff, beq_iff_eq] at hread
  obtain ⟨⟨rfl, hparams⟩, hbody⟩ := hread
  have hroot : d.Part (.ofParams d.params) (.product (.named "Unit" .void) .unit []) :=
    hbody ▸ .root
  have hpart : ∀ e ∈ [.named "Unit" .void, .unit], d.Part (.ofParams d.params) e :=
    fun e he => .product hroot he
  refine ⟨d, _, .named "Unit" .void, .app "Unit" [], .unit, h, hpart _ (by simp), rfl,
    hpart _ (by simp), rfl, ?_, rfl, ?_⟩
  · simp only [Ty.print, Ty.printAll, ok_bind, List.isEmpty_nil, if_true]
    exact congrArg Except.ok (by decide +kernel)
  · simp [Ty.spelled]

end TypeDesc
