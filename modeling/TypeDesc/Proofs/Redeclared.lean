/-
Types that are declared more than once. A type that is declared again is compared
with the first one as an expression, and an expression says by index, not by
name, what it mentions. So without a report of a redeclaration, types of one
identifier are the same expression (`type_eq_of_ident`), but they need not have
the same declaration: that they have holds exactly if they are bound alike
(`agreed_iff_boundAlike`).
-/
import Mathlib.Data.List.Nodup
import TypeDesc.Proofs.Occurrences
import TypeDesc.Proofs.Source

namespace TypeDesc

open Reason (Ty Decl)

/-! ## Types that are not reported -/

namespace Gist

/-- No type has been found to differ from an earlier one of its identifier. -/
def Unmixed (g : Gist) : Prop :=
  ∀ finding ∈ g.findings, finding.code ≠ "E206" ∧ finding.code ≠ "W301"

/-- Each identifier is declared once. -/
def Distinct (g : Gist) : Prop :=
  (g.declared.map fun p => typeIdent p.1).Nodup

/-- A part of the reading that meets `types` turns `g` into `g'`. -/
structure Records (types : List (String × Expr)) (g g' : Gist) : Prop where
  distinct : g.Distinct → g'.Distinct
  mono : ∀ p ∈ g.declared, p ∈ g'.declared
  origin : ∀ p ∈ g'.declared, p ∈ g.declared ∨ p ∈ types
  unmixed : g'.Unmixed → g.Unmixed ∧ ∀ p ∈ types, p ∈ g'.declared

namespace Records

variable {types types' : List (String × Expr)} {g g₁ g₂ : Gist}

theorem refl (g : Gist) : Records [] g g :=
  ⟨id, fun _ => id, fun _ => .inl, fun h => ⟨h, by simp⟩⟩

theorem trans (h : Records types g g₁) (h' : Records types' g₁ g₂) :
    Records (types ++ types') g g₂ where
  distinct hg := h'.distinct (h.distinct hg)
  mono p hp := h'.mono p (h.mono p hp)
  origin p hp := by
    rcases h'.origin p hp with hp | hp
    · exact (h.origin p hp).imp_right (List.mem_append_left _)
    · exact .inr (List.mem_append_right _ hp)
  unmixed hg := by
    obtain ⟨hg₁, htypes'⟩ := h'.unmixed hg
    obtain ⟨hg, htypes⟩ := h.unmixed hg₁
    exact ⟨hg, List.forall_mem_append.2 ⟨fun p hp => h'.mono p (htypes p hp), htypes'⟩⟩

theorem use (g : Gist) (depth index : Nat) : Records [] g (g.use depth index) := by
  rw [Gist.use]
  split
  · exact ⟨id, fun _ => id, fun _ => .inl, fun h => ⟨h, by simp⟩⟩
  · exact refl g

theorem record (g : Gist) (name : String) (type : Expr) :
    Records [(name, type)] g (g.record name type) := by
  cases hf : g.declared.find? fun d => typeIdent d.1 == typeIdent name with
  | none =>
    have hnew : ∀ d ∈ g.declared, typeIdent d.1 ≠ typeIdent name := by simpa using hf
    have hr : g.record name type = { g with declared := g.declared ++ [(name, type)] } := by
      simp only [Gist.record, hf]
    rw [hr]
    refine ⟨fun hg => ?_, fun p hp => List.mem_append_left _ hp, fun p => List.mem_append.1,
      fun hg => ⟨hg, by simp⟩⟩
    rw [Distinct, List.map_append, List.nodup_append]
    refine ⟨hg, by simp, ?_⟩
    simp only [List.mem_map, List.mem_singleton]
    rintro _ ⟨d, hm, rfl⟩ _ ⟨_, rfl, rfl⟩
    exact hnew d hm
  | some earlier =>
    by_cases hs : earlier = (name, type)
    · have hr : g.record name type = g := by simp [Gist.record, hf, hs]
      rw [hr]
      refine ⟨id, fun _ => id, fun _ => .inl, fun hg => ⟨hg, ?_⟩⟩
      simpa [← hs] using List.mem_of_find?_eq_some hf
    · -- A type that differs is reported, one way or the other.
      have hr : ∃ finding, (finding.code = "E206" ∨ finding.code = "W301") ∧
          g.record name type = { g with findings := g.findings ++ [finding] } := by
        by_cases hn : earlier.1 = name
        · have ht : earlier.2 ≠ type := fun ht => hs (Prod.ext hn ht)
          exact ⟨.redeclared name, .inr rfl, by simp [Gist.record, hf, hn, ht]⟩
        · exact ⟨.sameIdent name earlier.1 (typeIdent name), .inl rfl, by simp [Gist.record, hf, hn]⟩
      obtain ⟨finding, hc, hr⟩ := hr
      rw [hr]
      refine ⟨id, fun _ => id, fun _ => .inl, fun hg => ?_⟩
      obtain ⟨h206, h301⟩ := hg finding (List.mem_append_right _ (List.mem_singleton_self _))
      exact absurd hc (by simp [h206, h301])

end Records

end Gist

namespace Expr

mutual
theorem noted_records (depth : Nat) (scope : List Binder) : (e : Expr) → (g : Gist) →
    Gist.Records ((e.occurrences scope).map fun o => (o.name, o.type)) g (e.noted depth g)
  | .void, g => .refl g
  | .unit, g => .refl g
  | .foreign _, g => .refl g
  | .var index, g => .use g depth index
  | .sum a b rest, g => by
    rw [occurrences, noted, List.map_append, List.map_append]
    exact (noted_records depth scope a g).trans
      ((noted_records depth scope b _).trans (notedAll_records depth scope rest _))
  | .product a b rest, g => by
    rw [occurrences, noted, List.map_append, List.map_append]
    exact (noted_records depth scope a g).trans
      ((noted_records depth scope b _).trans (notedAll_records depth scope rest _))
  | .recursive name ctors, g => by
    rw [occurrences, noted, List.map_append]
    exact (notedCtors_records (depth + 1) _ ctors g).trans (.record _ name _)
  | .named name body, g => by
    rw [occurrences, noted, List.map_append]
    exact (noted_records depth scope body g).trans (.record _ name _)

theorem notedAll_records (depth : Nat) (scope : List Binder) : (es : List Expr) → (g : Gist) →
    Gist.Records ((occurrencesAll scope es).map fun o => (o.name, o.type)) g (notedAll depth es g)
  | [], g => .refl g
  | e :: es, g => by
    rw [occurrencesAll, notedAll, List.map_append]
    exact (noted_records depth scope e g).trans (notedAll_records depth scope es _)

theorem notedCtors_records (depth : Nat) (scope : List Binder) :
    (ctors : List (Ctor Expr)) → (g : Gist) →
    Gist.Records ((occurrencesCtors scope ctors).map fun o => (o.name, o.type)) g
      (notedCtors depth ctors g)
  | [], g => .refl g
  | ⟨_, e⟩ :: ctors, g => by
    rw [occurrencesCtors, notedCtors, List.map_append]
    exact (noted_records depth scope e g).trans (notedCtors_records depth scope ctors _)
end

end Expr

/-- A description that is read without a redeclaration has no mixed types. -/
theorem unmixed_of_warnings {file source : String} {d : Description} {w : List Report}
    (h : Description.ofSource file source = .ok (d, w))
    (hw : ∀ report ∈ w, report.finding.code ≠ "W301") : d.gist.Unmixed := by
  obtain ⟨hd, -, hfindings⟩ := ofSource_sound h
  intro finding hm
  have hmem : finding ∈ d.findings := List.mem_append_left _ hm
  constructor
  · intro hc
    have hs := hd.findings finding hmem
    cases finding <;> simp [Finding.code, Finding.severity] at hc hs
  · rw [← hfindings] at hmem
    obtain ⟨report, hr, rfl⟩ := List.mem_map.1 hmem
    exact hw report hr

namespace Description

variable {d : Description}

/-- **Without a redeclaration, types of one identifier are the same expression.** -/
theorem type_eq_of_ident (hu : d.gist.Unmixed) {scope : List Binder} {o o' : Occurrence}
    (ho : o ∈ d.body.occurrences scope) (ho' : o' ∈ d.body.occurrences scope)
    (hi : typeIdent o.name = typeIdent o'.name) : o.type = o'.type := by
  have hr := d.body.noted_records 0 scope ⟨[], [], []⟩
  have hdeclared := (hr.unmixed hu).2
  have hm := hdeclared _ (List.mem_map_of_mem ho)
  have hm' := hdeclared _ (List.mem_map_of_mem ho')
  have hpair := List.inj_on_of_nodup_map (hr.distinct (by simp [Gist.Distinct])) hm hm' hi
  exact congrArg Prod.snd hpair

/-! ## Types that are bound alike -/

/-- The expression `e` stands in `env` inside the body of the description. -/
abbrev Part (d : Description) : Env → Expr → Prop :=
  TypeDesc.Part (.ofParams d.params) d.body

variable {env env' : Env} {e e' : Expr} {name name' : String}

theorem enclosing_notMem_ofParams (params : List String) (head : Head) :
    .enclosing head ∉ Env.ofParams params := by
  simp [Env.ofParams]

theorem Part.occurs (h : d.Part env e) (hn : e.name? = some name) :
    ⟨name, e, env.map (·.binder)⟩ ∈ d.body.occurrences (d.params.map .param) := by
  rw [← Env.binders_ofParams]
  exact h.occurrences _ (Expr.mem_occurrences_self hn)

theorem Part.type_eq (h : d.Part env e) (h' : d.Part env' e') (hu : d.gist.Unmixed)
    (hn : e.name? = some name) (hn' : e'.name? = some name')
    (hi : typeIdent name = typeIdent name') : e = e' :=
  type_eq_of_ident hu (h.occurs hn) (h'.occurs hn') hi

theorem WellFormed.part (hd : d.WellFormed) (h : d.Part env e) :
    ∃ scope, e.WellFormed scope ∧ env.length = scope.length :=
  h.wellFormed hd.body (by simp [Env.ofParams])

/-- **Types that are bound alike have the same bindings** at the indices that they mention: an
enclosing type is one that is bound alike itself, with a shorter environment. -/
theorem BoundAlike.agreeOn (hb : d.BoundAlike) (hd : d.WellFormed) (hu : d.gist.Unmixed)
    (h : d.Part env e) (h' : d.Part env' e) (hn : e.name? = some name) : env.AgreeOn env' e := by
  induction hl : env.length using Nat.strong_induction_on generalizing env env' e name with
  | _ n ih =>
    intro i hi
    obtain ⟨scope, hw, -⟩ := hd.part h
    have hbound := (Occurrence.bound_eq_iff hw.hasIndices).1 (hb _ (h.occurs hn) _ (h'.occurs hn) rfl) i hi
    rw [List.getElem?_map, List.getElem?_map] at hbound
    cases hb₁ : env[i]? with
    | none =>
      rw [hb₁, Option.map_none] at hbound
      exact (Option.map_eq_none_iff.1 hbound.symm).symm
    | some b =>
      rw [hb₁, Option.map_some] at hbound
      obtain ⟨b', hb₂, hbinder⟩ := Option.map_eq_some_iff.1 hbound.symm
      rw [hb₂]
      refine congrArg some (Binding.eq_of_binder hbinder.symm fun head head' he he' hname => ?_)
      cases he
      cases he'
      obtain ⟨ctors, hp, hparams⟩ := h.head (enclosing_notMem_ofParams _) hb₁
      obtain ⟨ctors', hp', hparams'⟩ := h'.head (enclosing_notMem_ofParams _) hb₂
      have hsame := Part.type_eq hp hp' hu rfl rfl (by rw [hname])
      rw [← hsame] at hp' hparams'
      have hlt : (env.drop (i + 1)).length < n := by
        have := (List.getElem?_eq_some_iff.1 hb₁).1
        rw [List.length_drop]
        omega
      obtain ⟨scope, hw, -⟩ := hd.part hp
      have hparams := hw.params_congr (ih _ hlt hp hp' rfl rfl) hparams
      exact Except.ok.inj (hparams.symm.trans hparams')

/-- Types of one identifier have the same declaration, wherever they stand. -/
def Agreed (d : Description) : Prop :=
  ∀ ⦃env e decl env' e' decl'⦄, d.Part env e → Declares env e decl → d.Part env' e' →
    Declares env' e' decl' → decl.ident = decl'.ident → decl = decl'

theorem BoundAlike.agreed (hb : d.BoundAlike) (hd : d.WellFormed) (hu : d.gist.Unmixed) :
    d.Agreed := by
  intro env e decl env' e' decl' h hdecl h' hdecl' hi
  obtain rfl := h.type_eq h' hu hdecl.name? hdecl'.name? hi
  obtain ⟨scope, hw, -⟩ := hd.part h
  exact (hdecl.congr hw (hb.agreeOn hd hu h h' hdecl.name?)).unique hdecl'

end Description

/-! ## Types that have the same declaration -/

theorem choice_inj {t t' : Ty} {us us' : List Ty} (h : choice t us = choice t' us')
    (hl : us.length = us'.length) : t = t' ∧ us = us' := by
  induction us generalizing t t' us' with
  | nil =>
    cases us' with
    | nil => exact ⟨h, rfl⟩
    | cons u' us' => simp at hl
  | cons u us ih =>
    cases us' with
    | nil => simp at hl
    | cons u' us' =>
      simp only [choice, Ty.app.injEq, List.cons.injEq, true_and, and_true] at h
      obtain ⟨rfl, rfl⟩ := ih h.2 (by simpa using hl)
      exact ⟨h.1, rfl⟩

theorem Binding.binder_eq_of_type {b b' : Binding} (h : b.type = b'.type) : b.binder = b'.binder := by
  cases b <;> cases b' <;> simp [Binding.type, applyTo] at h <;> simp [Binding.binder, h]

/-- Operands that have the same types in two environments have them one by one. -/
theorem operand_toReason {env env' : Env} {es : List Expr} {ts : List Ty} {e : Expr}
    (h : List.Forall₂ (fun e t => e.toReason env = .ok t) es ts)
    (h' : List.Forall₂ (fun e t => e.toReason env' = .ok t) es ts) (he : e ∈ es) :
    ∃ t, e.toReason env = .ok t ∧ e.toReason env' = .ok t := by
  obtain ⟨i, hi⟩ := List.mem_iff_getElem?.1 he
  obtain ⟨t, ht, hr⟩ := forall₂_getElem? h hi
  obtain ⟨t', ht', hr'⟩ := forall₂_getElem? h' hi
  cases ht.symm.trans ht'
  exact ⟨t, hr, hr'⟩

namespace Description

variable {d : Description} {env env' : Env} {e : Expr}

theorem WellFormed.part_declares (hd : d.WellFormed) (h : d.Part env e) {name : String}
    (hn : e.name? = some name) : ∃ decl, Declares env e decl ∧ decl.name = name := by
  obtain ⟨scope, hw, hl⟩ := hd.part h
  exact hw.declares hl hn

theorem Agreed.declares (ha : d.Agreed) (hd : d.WellFormed) (h : d.Part env e) (h' : d.Part env' e)
    {name : String} (hn : e.name? = some name) :
    ∃ decl decl', Declares env e decl ∧ Declares env' e decl' ∧ decl = decl' := by
  obtain ⟨decl, hdecl, hname⟩ := hd.part_declares h hn
  obtain ⟨decl', hdecl', hname'⟩ := hd.part_declares h' hn
  exact ⟨decl, decl', hdecl, hdecl', ha h hdecl h' hdecl' (by rw [Decl.ident, Decl.ident, hname, hname'])⟩

/-- **An expression with one type in two places mentions the same names there**, if types of one
identifier have the same declaration: what is inside a type shows in its declaration. -/
theorem Agreed.binders (ha : d.Agreed) (hd : d.WellFormed) {scope : List String}
    (hw : e.WellFormed scope) : ∀ {env env' : Env} {t : Ty}, d.Part env e → d.Part env' e →
      e.toReason env = .ok t → e.toReason env' = .ok t →
      ∀ i, e.Mentions i → env[i]?.map (·.binder) = env'[i]?.map (·.binder) := by
  induction hw with
  | void | unit => exact fun _ _ _ _ i hi => by cases hi
  | var =>
    intro env env' t _ _ ht ht' i hi
    cases hi
    simp only [Expr.toReason, bind_eq_ok, Except.ok.injEq] at ht ht'
    obtain ⟨b, hb, rfl⟩ := ht
    obtain ⟨b', hb', heq⟩ := ht'
    rw [Env.getElem?_of_lookup hb, Env.getElem?_of_lookup hb', Option.map_some, Option.map_some,
      Binding.binder_eq_of_type heq]
  | sum _ _ _ iha ihb ihs =>
    intro env env' t h h' ht ht' i hi
    simp only [Expr.toReason, bind_eq_ok, Except.ok.injEq] at ht ht'
    obtain ⟨t, ht, u, hu, us, hus, rfl⟩ := ht
    obtain ⟨t', ht', u', hu', us', hus', heq⟩ := ht'
    have hops := toReason_operands ht hu hus
    have hops' := toReason_operands ht' hu' hus'
    have hlen : (u' :: us').length = (u :: us).length := by
      have h₁ := hops.length_eq
      have h₂ := hops'.length_eq
      simp only [List.length_cons] at h₁ h₂ ⊢
      omega
    obtain ⟨rfl, hrest⟩ := choice_inj heq hlen
    rw [hrest] at hops'
    cases hi with
    | sum he hi =>
      obtain ⟨v, hv, hv'⟩ := operand_toReason hops hops' he
      have hall := List.forall_mem_cons.2 ⟨@iha, List.forall_mem_cons.2 ⟨@ihb, @ihs⟩⟩
      exact hall _ he (.sum h he) (.sum h' he) hv hv' i hi
  | product _ _ _ iha ihb ihs =>
    intro env env' t h h' ht ht' i hi
    simp only [Expr.toReason, bind_eq_ok, Except.ok.injEq] at ht ht'
    obtain ⟨t, ht, u, hu, us, hus, rfl⟩ := ht
    obtain ⟨t', ht', u', hu', us', hus', heq⟩ := ht'
    have hops := toReason_operands ht hu hus
    have hops' := toReason_operands ht' hu' hus'
    rw [Ty.tuple.inj heq] at hops'
    cases hi with
    | product he hi =>
      obtain ⟨v, hv, hv'⟩ := operand_toReason hops hops' he
      have hall := List.forall_mem_cons.2 ⟨@iha, List.forall_mem_cons.2 ⟨@ihb, @ihs⟩⟩
      exact hall _ he (.product h he) (.product h' he) hv hv' i hi
  | recursive _ _ _ _ ih =>
    intro env env' t h h' _ _ i hi
    obtain ⟨decl, decl', hdecl, hdecl', heq⟩ := ha.declares hd h h' rfl
    cases hdecl with
    | recursive hp hv =>
      cases hdecl' with
      | recursive hp' hv' =>
        cases heq
        cases hi with
        | recursive hm hi =>
          obtain ⟨k, hk⟩ := List.mem_iff_getElem?.1 hm
          obtain ⟨v, hkv, -, hr⟩ := forall₂_getElem? (toReasonCtors_eq_ok.1 hv) hk
          obtain ⟨v', hkv', -, hr'⟩ := forall₂_getElem? (toReasonCtors_eq_ok.1 hv') hk
          cases hkv.symm.trans hkv'
          exact ih _ hm (.payload h hp hm) (.payload h' hp' hm) hr hr' (i + 1) hi
  | named _ _ ih =>
    intro env env' t h h' _ _ i hi
    obtain ⟨decl, decl', hdecl, hdecl', heq⟩ := ha.declares hd h h' rfl
    cases hdecl with
    | named hp ht =>
      cases hdecl' with
      | named hp' ht' =>
        cases heq
        cases hi with
        | named hi => exact ih (.body h) (.body h') ht ht' i hi

theorem Agreed.boundAlike (ha : d.Agreed) (hd : d.WellFormed) (hu : d.gist.Unmixed) :
    d.BoundAlike := by
  intro o ho o' ho' hi
  have hl : (Env.ofParams d.params).length = d.params.length := by simp [Env.ofParams]
  have htype := type_eq_of_ident hu ho ho' hi
  rw [← Env.binders_ofParams] at ho ho'
  obtain ⟨env, h, hn, hs⟩ := hd.body.part_of_occurrence hl .root o ho
  obtain ⟨env', h', hn', hs'⟩ := hd.body.part_of_occurrence hl .root o' ho'
  obtain ⟨name, type, scope⟩ := o
  obtain ⟨name', type', scope'⟩ := o'
  cases htype
  cases hs
  cases hs'
  obtain ⟨scope, hw, -⟩ := hd.part h
  obtain ⟨decl, _, hdecl, hdecl', rfl⟩ := ha.declares hd h h' hn
  rw [Occurrence.bound_eq_iff hw.hasIndices]
  intro i hi
  rw [List.getElem?_map, List.getElem?_map]
  exact ha.binders hd hw h h' hdecl.toReason hdecl'.toReason i hi

/-- **Without a redeclaration, types of one identifier have the same declaration exactly if they are
bound alike.** -/
theorem agreed_iff_boundAlike (hd : d.WellFormed) (hu : d.gist.Unmixed) : d.Agreed ↔ d.BoundAlike :=
  ⟨fun ha => ha.boundAlike hd hu, fun hb => hb.agreed hd hu⟩

end Description

end TypeDesc
