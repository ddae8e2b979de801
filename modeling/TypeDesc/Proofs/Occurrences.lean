/-
Types in their places. A part of an expression stands in the environment that
is built on the way to it (`Part`); the declaration of a type in its place
(`Declares`) depends only on the bindings of the indices that the type mentions
(`Declares.congr`). The declarations of all types in an expression are those of
its parts (`mem_ownDecls_iff`).

`Expr.occurrences` lists the types in an expression, each with what is bound
around it by name, without their parameters. Two types of one identifier are
bound alike if the indices that they mention stand for the same names
(`Description.BoundAlike`).
-/
import TypeDesc.Proofs.OwnDeclarations

namespace TypeDesc

open Reason (Ty Decl)

/-! ## What depends on the mentioned indices -/

/-- The environments have the same bindings at the indices that `e` mentions. -/
def Env.AgreeOn (env env' : Env) (e : Expr) : Prop :=
  ∀ i, e.Mentions i → env[i]? = env'[i]?

theorem Env.addParams_congr {env env' : Env} {is : List Nat} (h : ∀ i ∈ is, env[i]? = env'[i]?) :
    ∀ {names params : List String}, env.addParams names is = .ok params →
      env'.addParams names is = .ok params := by
  induction is with
  | nil => exact id
  | cons i is ih =>
    intro names params hp
    rw [List.forall_mem_cons] at h
    simp only [Env.addParams, bind_eq_ok] at hp ⊢
    obtain ⟨b, hb, hp⟩ := hp
    exact ⟨b, Env.lookup_of_getElem? (h.1 ▸ Env.getElem?_of_lookup hb), ih h.2 hp⟩

namespace Expr.WellFormed

variable {scope : List String} {e : Expr} {env env' : Env}

theorem params_congr (hw : e.WellFormed scope) (h : env.AgreeOn env' e) {params : List String}
    (hp : e.params env = .ok params) : e.params env' = .ok params := by
  obtain ⟨is, his, hm⟩ := hw.hasIndices
  simp only [Expr.params, his, ok_bind] at hp ⊢
  exact Env.addParams_congr (fun i hi => h i ((hm i).1 hi)) hp

/-- **The type of an expression depends on the bindings that it mentions.** -/
theorem toReason_congr (hw : e.WellFormed scope) : ∀ {t : Ty}, env.AgreeOn env' e →
    e.toReason env = .ok t → e.toReason env' = .ok t := by
  induction hw generalizing env env' with
  | void | unit => exact fun _ ht => ht
  | var hi =>
    intro t h ht
    simp only [Expr.toReason, bind_eq_ok, Except.ok.injEq] at ht ⊢
    obtain ⟨b, hb, rfl⟩ := ht
    exact ⟨b, Env.lookup_of_getElem? (h _ .var ▸ Env.getElem?_of_lookup hb), rfl⟩
  | @sum scope a b rest _ _ _ iha ihb ihs =>
    intro t h ht
    simp only [Expr.toReason, bind_eq_ok, toReasonAll_eq_ok, Except.ok.injEq] at ht ⊢
    obtain ⟨t, ht, u, hu, us, hus, rfl⟩ := ht
    refine ⟨t, iha (fun i hi => h i (.sum (by simp) hi)) ht, u,
      ihb (fun i hi => h i (.sum (by simp) hi)) hu, us, forall₂_imp_mem hus ?_, rfl⟩
    exact fun e he v _ hv => ihs e he (fun i hi => h i (.sum (by simp [he]) hi)) hv
  | @product scope a b rest _ _ _ iha ihb ihs =>
    intro t h ht
    simp only [Expr.toReason, bind_eq_ok, toReasonAll_eq_ok, Except.ok.injEq] at ht ⊢
    obtain ⟨t, ht, u, hu, us, hus, rfl⟩ := ht
    refine ⟨t, iha (fun i hi => h i (.product (by simp) hi)) ht, u,
      ihb (fun i hi => h i (.product (by simp) hi)) hu, us, forall₂_imp_mem hus ?_, rfl⟩
    exact fun e he v _ hv => ihs e he (fun i hi => h i (.product (by simp [he]) hi)) hv
  | recursive hn hd hc hs _ =>
    intro t h ht
    simp only [Expr.toReason, bind_eq_ok, Except.ok.injEq] at ht ⊢
    obtain ⟨params, hp, rfl⟩ := ht
    exact ⟨params, (WellFormed.recursive hn hd hc hs).params_congr h hp, rfl⟩
  | named hn hb _ =>
    intro t h ht
    simp only [Expr.toReason, bind_eq_ok, Except.ok.injEq] at ht ⊢
    obtain ⟨params, hp, rfl⟩ := ht
    exact ⟨params, (WellFormed.named hn hb).params_congr h hp, rfl⟩

end Expr.WellFormed

/-! ## Declarations in their places -/

/-- In the environment `env`, the type `e` has the declaration `decl`. -/
inductive Declares (env : Env) : Expr → Decl → Prop
  | recursive {name ctors params variants} (hp : Expr.params env (.recursive name ctors) = .ok params)
    (hv : Expr.toReasonCtors (.enclosing ⟨name, params⟩ :: env) ctors = .ok variants) :
    Declares env (.recursive name ctors) (.variant ⟨name, params⟩ variants)
  | named {name body params t} (hp : Expr.params env (.named name body) = .ok params)
    (ht : body.toReason env = .ok t) :
    Declares env (.named name body) (.synonym ⟨name, params⟩ t)

namespace Declares

variable {env env' : Env} {e : Expr} {decl decl' : Decl}

theorem name? (h : Declares env e decl) : e.name? = some decl.name := by
  cases h <;> rfl

/-- A type is mentioned as its name, applied to the parameters of its declaration. -/
theorem toReason (h : Declares env e decl) :
    e.toReason env = .ok (applyTo decl.name decl.head.params) := by
  cases h with
  | recursive hp _ => simp only [Expr.toReason, hp, ok_bind]; rfl
  | named hp _ => simp only [Expr.toReason, hp, ok_bind]; rfl

theorem unique (h : Declares env e decl) (h' : Declares env e decl') : decl = decl' := by
  cases h with
  | recursive hp hv =>
    cases h' with
    | recursive hp' hv' =>
      cases hp.symm.trans hp'
      cases hv.symm.trans hv'
      rfl
  | named hp ht =>
    cases h' with
    | named hp' ht' =>
      cases hp.symm.trans hp'
      cases ht.symm.trans ht'
      rfl

/-- **A declaration depends on the bindings that the type mentions.** -/
theorem congr {scope : List String} (h : Declares env e decl) (hw : e.WellFormed scope)
    (ha : env.AgreeOn env' e) : Declares env' e decl := by
  cases h with
  | @recursive name ctors params variants hp hv =>
    refine .recursive (hw.params_congr ha hp) ?_
    cases hw with
    | recursive _ _ _ hs =>
      rw [toReasonCtors_eq_ok] at hv ⊢
      refine forall₂_imp_mem hv fun ctor hc v _ hcv => ⟨hcv.1, ?_⟩
      refine (hs ctor hc).toReason_congr (fun i hi => ?_) hcv.2
      cases i with
      | zero => rfl
      | succ i => exact ha i (.recursive hc hi)
  | named hp ht =>
    refine .named (hw.params_congr ha hp) ?_
    cases hw with
    | named _ hb => exact hb.toReason_congr (fun i hi => ha i (.named hi)) ht

end Declares

theorem Expr.WellFormed.declares {scope : List String} {env : Env} {e : Expr} {name : String}
    (hw : e.WellFormed scope) (hl : env.length = scope.length) (hn : e.name? = some name) :
    ∃ decl, Declares env e decl ∧ decl.name = name := by
  obtain ⟨params, hp⟩ := hw.params_ok hl
  cases hw with
  | void | unit | var | sum | product => cases hn
  | recursive _ _ _ hs =>
    cases hn
    have hl' : (Binding.enclosing ⟨name, params⟩ :: env).length = (name :: scope).length := by
      simp [hl]
    obtain ⟨variants, hv⟩ := WellFormed.toReasonCtors_ok hs hl'
    exact ⟨_, .recursive hp hv, rfl⟩
  | named _ hb =>
    cases hn
    obtain ⟨t, ht⟩ := hb.toReason_ok hl
    exact ⟨_, .named hp ht, rfl⟩

/-- `Part env₀ root env e`: inside the expression `root`, which stands in `env₀`, the expression `e`
stands in `env`. -/
inductive Part (env₀ : Env) (root : Expr) : Env → Expr → Prop
  | root : Part env₀ root env₀ root
  | sum {env a b rest e} (h : Part env₀ root env (.sum a b rest)) (he : e ∈ a :: b :: rest) :
    Part env₀ root env e
  | product {env a b rest e} (h : Part env₀ root env (.product a b rest))
    (he : e ∈ a :: b :: rest) : Part env₀ root env e
  | payload {env name ctors params ctor} (h : Part env₀ root env (.recursive name ctors))
    (hp : Expr.params env (.recursive name ctors) = .ok params) (hc : ctor ∈ ctors) :
    Part env₀ root (.enclosing ⟨name, params⟩ :: env) ctor.payload
  | body {env name body} (h : Part env₀ root env (.named name body)) : Part env₀ root env body

namespace Part

variable {env₀ env : Env} {root e : Expr}

theorem ownAll {P : Decl → Prop} (h : Part env₀ root env e) (ho : root.OwnAll P env₀) :
    e.OwnAll P env := by
  induction h with
  | root => exact ho
  | sum _ he ih => exact Expr.ownAll_sum.1 ih _ he
  | product _ he ih => exact Expr.ownAll_product.1 ih _ he
  | payload _ hp hc ih =>
    obtain ⟨params, variants, hp', -, -, hctors⟩ := Expr.ownAll_recursive.1 ih
    cases hp.symm.trans hp'
    exact hctors _ hc
  | body _ ih =>
    obtain ⟨params, t, -, -, -, hbody⟩ := Expr.ownAll_named.1 ih
    exact hbody

theorem wellFormed {scope : List String} (h : Part env₀ root env e) (hw : root.WellFormed scope)
    (hl : env₀.length = scope.length) : ∃ scope, e.WellFormed scope ∧ env.length = scope.length := by
  induction h with
  | root => exact ⟨scope, hw, hl⟩
  | sum _ he ih =>
    obtain ⟨scope, hw, hl⟩ := ih
    cases hw with
    | sum ha hb hs =>
      exact ⟨scope, List.forall_mem_cons.2 ⟨ha, List.forall_mem_cons.2 ⟨hb, hs⟩⟩ _ he, hl⟩
  | product _ he ih =>
    obtain ⟨scope, hw, hl⟩ := ih
    cases hw with
    | product ha hb hs =>
      exact ⟨scope, List.forall_mem_cons.2 ⟨ha, List.forall_mem_cons.2 ⟨hb, hs⟩⟩ _ he, hl⟩
  | @payload _ name _ _ _ _ _ hc ih =>
    obtain ⟨scope, hw, hl⟩ := ih
    cases hw with
    | recursive _ _ _ hs => exact ⟨name :: scope, hs _ hc, by simp [hl]⟩
  | body _ ih =>
    obtain ⟨scope, hw, hl⟩ := ih
    cases hw with
    | named _ hb => exact ⟨scope, hb, hl⟩

/-- An enclosing declaration is that of a recursive type around. -/
theorem head (h : Part env₀ root env e) (h₀ : ∀ head, .enclosing head ∉ env₀) :
    ∀ {i : Nat} {head : Head}, env[i]? = some (.enclosing head) →
      ∃ ctors, Part env₀ root (env.drop (i + 1)) (.recursive head.name ctors) ∧
        Expr.params (env.drop (i + 1)) (.recursive head.name ctors) = .ok head.params := by
  induction h with
  | root => exact fun hi => absurd (List.mem_of_getElem? hi) (h₀ _)
  | sum _ _ ih | product _ _ ih | body _ ih => exact ih
  | @payload env name ctors params ctor h hp _ ih =>
    intro i head hi
    cases i with
    | zero =>
      cases hi
      exact ⟨ctors, h, hp⟩
    | succ i => exact ih hi

end Part

/-- The types in a part have declarations, each that of a part. -/
theorem Expr.WellFormed.ownAll_parts {scope : List String} {env₀ env : Env} {root e : Expr}
    (hw : e.WellFormed scope) (hl : env.length = scope.length) (h : Part env₀ root env e) :
    e.OwnAll (fun decl => ∃ env e, Part env₀ root env e ∧ Declares env e decl) env := by
  induction hw generalizing env with
  | void | unit | var => exact ⟨[], rfl, by simp⟩
  | sum _ _ _ iha ihb ihs =>
    refine ownAll_sum.2 (List.forall_mem_cons.2 ⟨iha hl (h.sum (by simp)),
      List.forall_mem_cons.2 ⟨ihb hl (h.sum (by simp)), fun e he => ihs e he hl (h.sum ?_)⟩⟩)
    simp [he]
  | product _ _ _ iha ihb ihs =>
    refine ownAll_product.2 (List.forall_mem_cons.2 ⟨iha hl (h.product (by simp)),
      List.forall_mem_cons.2 ⟨ihb hl (h.product (by simp)),
        fun e he => ihs e he hl (h.product ?_)⟩⟩)
    simp [he]
  | @recursive scope name ctors hn hd hc hs ih =>
    obtain ⟨params, hp⟩ := (WellFormed.recursive hn hd hc hs).params_ok hl
    have hl' : (Binding.enclosing ⟨name, params⟩ :: env).length = (name :: scope).length := by
      simp [hl]
    obtain ⟨variants, hv⟩ := WellFormed.toReasonCtors_ok hs hl'
    exact ownAll_recursive.2 ⟨params, variants, hp, hv, ⟨env, _, h, .recursive hp hv⟩,
      fun ctor hm => ih ctor hm hl' (h.payload hp hm)⟩
  | named hn hb ih =>
    obtain ⟨params, hp⟩ := (WellFormed.named hn hb).params_ok hl
    obtain ⟨t, ht⟩ := hb.toReason_ok hl
    exact ownAll_named.2 ⟨params, t, hp, ht, ⟨env, _, h, .named hp ht⟩, ih hl h.body⟩

/-- **The declarations of all types in an expression are those of its parts.** -/
theorem mem_ownDecls_iff {scope : List String} {env₀ : Env} {root : Expr} {own : List Decl}
    (hw : root.WellFormed scope) (hl : env₀.length = scope.length)
    (ho : root.ownDecls env₀ = .ok own) {decl : Decl} :
    decl ∈ own ↔ ∃ env e, Part env₀ root env e ∧ Declares env e decl := by
  constructor
  · intro hm
    obtain ⟨own', ho', hall⟩ := hw.ownAll_parts hl .root
    cases ho.symm.trans ho'
    exact hall decl hm
  · rintro ⟨env, e, h, hd⟩
    have hown := h.ownAll (P := (· ∈ own)) ⟨own, ho, fun _ => id⟩
    cases hd with
    | recursive hp hv =>
      obtain ⟨params, variants, hp', hv', hm, -⟩ := Expr.ownAll_recursive.1 hown
      cases hp.symm.trans hp'
      cases hv.symm.trans hv'
      exact hm
    | named hp ht =>
      obtain ⟨params, t, hp', ht', hm, -⟩ := Expr.ownAll_named.1 hown
      cases hp.symm.trans hp'
      cases ht.symm.trans ht'
      exact hm

/-! ## Occurrences -/

/-- What an index stands for, by name. -/
inductive Binder
  | param (name : String)
  /-- A recursive type around. -/
  | type (name : String)
deriving DecidableEq, Repr

/-- What a binding binds, by name. -/
def Binding.binder : Binding → Binder
  | .free name => .param name
  | .enclosing head => .type head.name

theorem Binding.eq_of_binder {b b' : Binding} (h : b.binder = b'.binder)
    (hp : ∀ head head', b = .enclosing head → b' = .enclosing head' → head.name = head'.name →
      head.params = head'.params) : b = b' := by
  cases b with
  | free p =>
    cases b' with
    | free p' => rw [Binder.param.inj h]
    | enclosing head' => cases h
  | enclosing head =>
    cases b' with
    | free p' => cases h
    | enclosing head' =>
      have hname := Binder.type.inj h
      have hparams := hp head head' rfl rfl hname
      cases head
      cases head'
      cases hname
      cases hparams
      rfl

theorem Env.binders_ofParams (params : List String) :
    (Env.ofParams params).map (·.binder) = params.map .param := by
  simp [Env.ofParams, Binding.binder, Function.comp_def]

/-- A recursive or named type in an expression, and what is bound around it. -/
structure Occurrence where
  name : String
  type : Expr
  scope : List Binder
deriving DecidableEq, Repr

/-- What the indices stand for that the type mentions. -/
def Occurrence.bound (o : Occurrence) : List (Option Binder) :=
  match o.type.indices with
  | .ok is => is.map (o.scope[·]?)
  | .error _ => []

theorem Occurrence.bound_eq_iff {e : Expr} (h : e.HasIndices) {name name' : String}
    {scope scope' : List Binder} :
    (Occurrence.mk name e scope).bound = (Occurrence.mk name' e scope').bound ↔
      ∀ i, e.Mentions i → scope[i]? = scope'[i]? := by
  obtain ⟨is, his, hm⟩ := h
  simp only [bound, his, List.map_inj_left]
  exact forall_congr' fun i => by rw [hm]

namespace Expr

mutual
/-- The recursive and named types in an expression around which `scope` is bound, inner ones
first. -/
def occurrences (scope : List Binder) : Expr → List Occurrence
  | .sum first second rest =>
    occurrences scope first ++ (occurrences scope second ++ occurrencesAll scope rest)
  | .product first second rest =>
    occurrences scope first ++ (occurrences scope second ++ occurrencesAll scope rest)
  | .recursive name ctors =>
    occurrencesCtors (.type name :: scope) ctors ++ [⟨name, .recursive name ctors, scope⟩]
  | .named name body => occurrences scope body ++ [⟨name, .named name body, scope⟩]
  | _ => []

/-- The recursive and named types in expressions. -/
def occurrencesAll (scope : List Binder) : List Expr → List Occurrence
  | [] => []
  | e :: es => occurrences scope e ++ occurrencesAll scope es

/-- The recursive and named types in the payloads of constructors. -/
def occurrencesCtors (scope : List Binder) : List (Ctor Expr) → List Occurrence
  | [] => []
  | ⟨_, e⟩ :: ctors => occurrences scope e ++ occurrencesCtors scope ctors
end

variable {scope : List Binder} {o : Occurrence}

theorem mem_occurrencesAll {es : List Expr} :
    o ∈ occurrencesAll scope es ↔ ∃ e ∈ es, o ∈ e.occurrences scope := by
  induction es with
  | nil => simp [occurrencesAll]
  | cons e es ih => simp [occurrencesAll, ih]

theorem mem_occurrencesCtors {ctors : List (Ctor Expr)} :
    o ∈ occurrencesCtors scope ctors ↔ ∃ ctor ∈ ctors, o ∈ ctor.payload.occurrences scope := by
  induction ctors with
  | nil => simp [occurrencesCtors]
  | cons ctor ctors ih => simp [occurrencesCtors, ih]

theorem occurrences_operands {a b : Expr} {rest : List Expr} :
    (Expr.sum a b rest).occurrences scope = occurrencesAll scope (a :: b :: rest) ∧
      (Expr.product a b rest).occurrences scope = occurrencesAll scope (a :: b :: rest) := by
  simp [occurrences, occurrencesAll]

theorem mem_occurrences_self {e : Expr} {name : String} (h : e.name? = some name) :
    ⟨name, e, scope⟩ ∈ e.occurrences scope := by
  cases e <;> simp [name?] at h <;> simp [occurrences, h]

end Expr

/-- The types in a part occur in the whole. -/
theorem Part.occurrences {env₀ env : Env} {root e : Expr} (h : Part env₀ root env e) :
    ∀ o ∈ e.occurrences (env.map (·.binder)), o ∈ root.occurrences (env₀.map (·.binder)) := by
  induction h with
  | root => exact fun _ => id
  | sum _ he ih =>
    refine fun o ho => ih o ?_
    rw [Expr.occurrences_operands.1, Expr.mem_occurrencesAll]
    exact ⟨_, he, ho⟩
  | product _ he ih =>
    refine fun o ho => ih o ?_
    rw [Expr.occurrences_operands.2, Expr.mem_occurrencesAll]
    exact ⟨_, he, ho⟩
  | payload _ _ hc ih =>
    refine fun o ho => ih o (List.mem_append_left _ ?_)
    exact Expr.mem_occurrencesCtors.2 ⟨_, hc, ho⟩
  | body _ ih => exact fun o ho => ih o (List.mem_append_left _ ho)

/-- Every type that occurs in a part is a part. -/
theorem Expr.WellFormed.part_of_occurrence {scope : List String} {env₀ env : Env} {root e : Expr}
    (hw : e.WellFormed scope) (hl : env.length = scope.length) (h : Part env₀ root env e) :
    ∀ o ∈ e.occurrences (env.map (·.binder)), ∃ env', Part env₀ root env' o.type ∧
      o.type.name? = some o.name ∧ o.scope = env'.map (·.binder) := by
  induction hw generalizing env with
  | void | unit | var => simp [occurrences]
  | sum _ _ _ iha ihb ihs =>
    intro o ho
    rw [occurrences_operands.1, mem_occurrencesAll] at ho
    obtain ⟨e, he, ho⟩ := ho
    have hall := List.forall_mem_cons.2 ⟨@iha, List.forall_mem_cons.2 ⟨@ihb, @ihs⟩⟩
    exact hall e he hl (h.sum he) o ho
  | product _ _ _ iha ihb ihs =>
    intro o ho
    rw [occurrences_operands.2, mem_occurrencesAll] at ho
    obtain ⟨e, he, ho⟩ := ho
    have hall := List.forall_mem_cons.2 ⟨@iha, List.forall_mem_cons.2 ⟨@ihb, @ihs⟩⟩
    exact hall e he hl (h.product he) o ho
  | @recursive scope name ctors hn hd hc hs ih =>
    intro o ho
    rw [occurrences, List.mem_append, mem_occurrencesCtors, List.mem_singleton] at ho
    rcases ho with ⟨ctor, hm, ho⟩ | rfl
    · obtain ⟨params, hp⟩ := (WellFormed.recursive hn hd hc hs).params_ok hl
      exact ih ctor hm (by simp [hl]) (h.payload hp hm) o ho
    · exact ⟨env, h, rfl, rfl⟩
  | named hn hb ih =>
    intro o ho
    rw [occurrences, List.mem_append, List.mem_singleton] at ho
    rcases ho with ho | rfl
    · exact ih hl h.body o ho
    · exact ⟨env, h, rfl, rfl⟩

/-- Types of one identifier mention the same names, wherever they occur. -/
def Description.BoundAlike (d : Description) : Prop :=
  ∀ o ∈ d.body.occurrences (d.params.map .param), ∀ o' ∈ d.body.occurrences (d.params.map .param),
    typeIdent o.name = typeIdent o'.name → o.bound = o'.bound

instance (d : Description) : Decidable d.BoundAlike :=
  inferInstanceAs (Decidable (∀ o ∈ d.body.occurrences (d.params.map .param),
    ∀ o' ∈ d.body.occurrences (d.params.map .param),
      typeIdent o.name = typeIdent o'.name → o.bound = o'.bound))

end TypeDesc
