/-
Type parameters. An expression depends on the parameters of the bindings that it
mentions (`Expr.DependsOn`), and two computations find them: the list of
parameters that a mention of the type is applied to, and the variables that stand
in its Reason type. Both succeed exactly if all that the expression mentions is
bound, and then they find the same names. A declaration is made under the very
parameters that are found for it, so that its parameters are the variables that
stand in it (`Gathers.bindsVariables`).
-/
import TypeDesc.Proofs.EmittedTypes

namespace TypeDesc

open Reason (Ty Decl voidDecl eitherDecl)

/-! ## Variables -/

namespace Reason

mutual
/-- The names of the type variables in a type, from left to right. -/
def Ty.vars : Ty → List String
  | .tuple ts => varsAll ts
  | .var name => [name]
  | .app _ ts => varsAll ts
  | _ => []

/-- The names of the type variables in a list of types. -/
def Ty.varsAll : List Ty → List String
  | [] => []
  | t :: ts => vars t ++ varsAll ts
end

/-- The parameters of the declaration are the type variables in it, and none is repeated. -/
structure Decl.BindsVariables (d : Decl) : Prop where
  nodup : d.head.params.Nodup
  iff : ∀ name, name ∈ d.head.params ↔ name ∈ Ty.varsAll d.types

variable {name : String}

theorem Ty.mem_varsAll {ts : List Ty} :
    name ∈ Ty.varsAll ts ↔ ∃ t ∈ ts, name ∈ t.vars := by
  induction ts with
  | nil => simp [Ty.varsAll]
  | cons t ts ih => simp [Ty.varsAll, ih]

theorem Decl.bindsVariables_void : voidDecl.BindsVariables :=
  ⟨by simp [voidDecl, Decl.head], by simp [voidDecl, Decl.head, Decl.types, Ty.varsAll]⟩

theorem Decl.bindsVariables_either : eitherDecl.BindsVariables :=
  ⟨by simp [eitherDecl, Decl.head],
    by simp [eitherDecl, Decl.head, Decl.types, Ty.varsAll, Ty.vars]⟩

end Reason

@[simp] theorem vars_applyTo (name : String) (params : List String) :
    (applyTo name params).vars = params := by
  rw [applyTo, Ty.vars]
  induction params with
  | nil => rfl
  | cons p params ih => simp [Ty.varsAll, Ty.vars, ih]

theorem mem_vars_choice {name : String} {t : Ty} {us : List Ty} :
    name ∈ (choice t us).vars ↔ ∃ u ∈ t :: us, name ∈ u.vars := by
  induction us generalizing t with
  | nil => simp [choice]
  | cons u us ih =>
    rw [choice, Ty.vars, Ty.mem_varsAll, List.exists_mem_cons_iff,
      List.exists_mem_cons_iff, ih]
    simp

theorem Binding.vars_type (b : Binding) : b.type.vars = b.params := by
  cases b with
  | free name => simp [Binding.type, Binding.params, Ty.vars]
  | enclosing head => exact vars_applyTo head.name head.params

/-! ## Parameters of bindings -/

theorem mem_addNew {x : String} {names more : List String} :
    x ∈ addNew names more ↔ x ∈ names ∨ x ∈ more := by
  induction more generalizing names with
  | nil => simp [addNew]
  | cons name more ih =>
    rw [addNew, ih, List.mem_cons]
    by_cases hn : name ∈ names
    · have hx : x = name → x ∈ names := fun h => h ▸ hn
      rw [if_pos hn]
      tauto
    · rw [if_neg hn, List.mem_append, List.mem_singleton, or_assoc]

theorem nodup_addNew {names more : List String} (h : names.Nodup) : (addNew names more).Nodup := by
  induction more generalizing names with
  | nil => exact h
  | cons name more ih =>
    rw [addNew]
    by_cases hn : name ∈ names
    · rw [if_pos hn]
      exact ih h
    · rw [if_neg hn]
      have hnew : (names ++ [name]).Nodup := by
        rw [← List.concat_eq_append]
        exact List.Nodup.concat hn h
      exact ih hnew

namespace Env

variable {env : Env} {is : List Nat}

/-- The parameters are those of the bindings at the indices, and none is repeated. -/
theorem addParams_exact {names params : List String} (h : env.addParams names is = .ok params) :
    (names.Nodup → params.Nodup) ∧
      ∀ x, x ∈ params ↔ x ∈ names ∨ ∃ i ∈ is, ∃ b, env[i]? = some b ∧ x ∈ b.params := by
  induction is generalizing names with
  | nil =>
    cases h
    exact ⟨id, by simp⟩
  | cons i is ih =>
    simp only [addParams, bind_eq_ok] at h
    obtain ⟨b, hb, h⟩ := h
    obtain ⟨hnodup, hmem⟩ := ih h
    have hi : env[i]? = some b := getElem?_of_lookup hb
    refine ⟨fun hn => hnodup (nodup_addNew hn), fun x => ?_⟩
    rw [hmem, mem_addNew, List.exists_mem_cons_iff, or_assoc, hi]
    simp

theorem lookup_unbound {i : Nat} (h : env.length ≤ i) :
    env.lookup i = .error (.unbound i env.length) := by
  have hneg : ¬ (i : Int) < 0 := by omega
  rw [lookup, if_neg hneg, Int.toNat_natCast, List.getElem?_eq_none h]

theorem addParams_unbound {i : Nat} (hi : i ∈ is) (h : env.length ≤ i) (names : List String) :
    ∃ j ∈ is, env.length ≤ j ∧ env.addParams names is = .error (.unbound j env.length) := by
  induction is generalizing names with
  | nil => cases hi
  | cons j is ih =>
    by_cases hj : j < env.length
    · have hmem : i ∈ is := by
        rcases List.mem_cons.1 hi with rfl | hi
        · omega
        · exact hi
      obtain ⟨k, hk, hle, hfail⟩ := ih hmem (addNew names env[j].params)
      refine ⟨k, List.mem_cons_of_mem _ hk, hle, ?_⟩
      rw [addParams, lookup_eq hj, ok_bind, hfail]
    · refine ⟨j, by simp, by omega, ?_⟩
      rw [addParams, lookup_unbound (by omega), error_bind]

end Env

/-! ## What an expression depends on -/

namespace Expr

variable {env : Env} {e : Expr} {name : String}

/-- Where `env` is bound, the expression mentions something of which `name` is a parameter. -/
def DependsOn (env : Env) (e : Expr) (name : String) : Prop :=
  ∃ i b, e.Mentions i ∧ env[i]? = some b ∧ name ∈ b.params

theorem dependsOn_var {i : Nat} {b : Binding} (h : env[i]? = some b) :
    (Expr.var i).DependsOn env name ↔ name ∈ b.params := by
  simp only [DependsOn, mentions_var]
  constructor
  · rintro ⟨_, b', rfl, hb, hn⟩
    cases h.symm.trans hb
    exact hn
  · exact fun hn => ⟨i, b, rfl, h, hn⟩

/-- What an expression depends on, if it mentions what some of the others mention. -/
theorem dependsOn_operands {es : List Expr}
    (h : ∀ i, e.Mentions i ↔ ∃ e' ∈ es, e'.Mentions i) :
    e.DependsOn env name ↔ ∃ e' ∈ es, e'.DependsOn env name := by
  simp only [DependsOn, h]
  constructor
  · rintro ⟨i, b, ⟨e', he, hm⟩, hb⟩
    exact ⟨e', he, i, b, hm, hb⟩
  · rintro ⟨e', he, i, b, hm, hb⟩
    exact ⟨i, b, ⟨e', he, hm⟩, hb⟩

theorem dependsOn_named {type : String} {body : Expr} :
    (Expr.named type body).DependsOn env name ↔ body.DependsOn env name := by
  simp only [DependsOn, mentions_named]

/-- The payloads of a recursive type may mention the type itself. If its parameters are what it
depends on, this adds nothing to what they depend on. -/
theorem dependsOn_recursive {type : String} {ctors : List (Ctor Expr)} {params : List String}
    (hp : ∀ name, name ∈ params ↔ (Expr.recursive type ctors).DependsOn env name) :
    name ∈ params ↔
      ∃ ctor ∈ ctors, ctor.payload.DependsOn (.enclosing ⟨type, params⟩ :: env) name := by
  constructor
  · intro hn
    obtain ⟨i, b, hm, hb, hnb⟩ := (hp name).1 hn
    cases hm with
    | recursive hc hm => exact ⟨_, hc, i + 1, b, hm, hb, hnb⟩
  · rintro ⟨ctor, hc, i, b, hm, hb, hnb⟩
    cases i with
    | zero =>
      cases hb
      exact hnb
    | succ i => exact (hp name).2 ⟨i, b, .recursive hc hm, hb, hnb⟩

/-- **The parameters of an expression are what it depends on**, each once. -/
theorem params_exact {params : List String} (h : e.HasIndices) (hp : e.params env = .ok params) :
    params.Nodup ∧ ∀ name, name ∈ params ↔ e.DependsOn env name := by
  obtain ⟨is, his, hm⟩ := h
  simp only [Expr.params, his, ok_bind] at hp
  obtain ⟨hnodup, hmem⟩ := env.addParams_exact hp
  refine ⟨hnodup .nil, fun name => ?_⟩
  simp only [hmem, List.not_mem_nil, false_or, DependsOn, hm, exists_and_left]

/-- The operands' types have the variables on which the operands depend. -/
theorem vars_operands {es : List Expr} {ts : List Ty}
    (h : List.Forall₂ (fun e t => e.toReason env = .ok t) es ts)
    (hs : ∀ e ∈ es, ∀ t, e.toReason env = .ok t → (name ∈ t.vars ↔ e.DependsOn env name)) :
    (∃ t ∈ ts, name ∈ t.vars) ↔ ∃ e ∈ es, e.DependsOn env name := by
  constructor
  · rintro ⟨t, ht, hn⟩
    obtain ⟨e, he, hte⟩ := forall₂_mem h.flip ht
    exact ⟨e, he, (hs e he t hte).1 hn⟩
  · rintro ⟨e, he, hd⟩
    obtain ⟨t, ht, hte⟩ := forall₂_mem h he
    exact ⟨t, ht, (hs e he t hte).2 hd⟩

namespace Genuine

/-- **The variables in the type of an expression are what it depends on.** -/
theorem vars_exact (h : e.Genuine) :
    ∀ {t : Ty}, e.toReason env = .ok t → (name ∈ t.vars ↔ e.DependsOn env name) := by
  induction h with
  | void =>
    intro t ht
    cases ht
    constructor
    · intro hn
      cases hn
    · rintro ⟨i, b, hm, -⟩
      cases hm
  | unit =>
    intro t ht
    cases ht
    constructor
    · intro hn
      cases hn
    · rintro ⟨i, b, hm, -⟩
      cases hm
  | var =>
    intro t ht
    simp only [Expr.toReason, bind_eq_ok, Except.ok.injEq] at ht
    obtain ⟨b, hb, rfl⟩ := ht
    rw [b.vars_type, dependsOn_var (Env.getElem?_of_lookup hb)]
  | sum _ _ _ iha ihb ihs =>
    intro t ht
    simp only [Expr.toReason, bind_eq_ok, Except.ok.injEq] at ht
    obtain ⟨t, hta, u, htb, us, htr, rfl⟩ := ht
    rw [mem_vars_choice, dependsOn_operands fun i => mentions_sum]
    exact vars_operands (toReason_operands hta htb htr)
      (List.forall_mem_cons.2 ⟨@iha, List.forall_mem_cons.2 ⟨@ihb, @ihs⟩⟩)
  | product _ _ _ iha ihb ihs =>
    intro t ht
    simp only [Expr.toReason, bind_eq_ok, Except.ok.injEq] at ht
    obtain ⟨t, hta, u, htb, us, htr, rfl⟩ := ht
    rw [Ty.vars, Ty.mem_varsAll, dependsOn_operands fun i => mentions_product]
    exact vars_operands (toReason_operands hta htb htr)
      (List.forall_mem_cons.2 ⟨@iha, List.forall_mem_cons.2 ⟨@ihb, @ihs⟩⟩)
  | recursive hs _ =>
    intro t ht
    simp only [Expr.toReason, bind_eq_ok, Except.ok.injEq] at ht
    obtain ⟨params, hp, rfl⟩ := ht
    rw [vars_applyTo]
    exact (params_exact (Genuine.recursive hs).hasIndices hp).2 name
  | named hb _ =>
    intro t ht
    simp only [Expr.toReason, bind_eq_ok, Except.ok.injEq] at ht
    obtain ⟨params, hp, rfl⟩ := ht
    rw [vars_applyTo]
    exact (params_exact (Genuine.named hb).hasIndices hp).2 name

end Genuine

/-! ## What is unbound -/

theorem operands_error {a b : Expr} {rest : List Expr} {fault : Fault}
    (h : toReasonAll env (a :: b :: rest) = .error fault) :
    (Expr.sum a b rest).toReason env = .error fault ∧
      (Expr.product a b rest).toReason env = .error fault := by
  simp only [toReasonAll, toReason] at h ⊢
  revert h
  cases a.toReason env with
  | error f =>
    intro h
    cases h
    exact ⟨rfl, rfl⟩
  | ok t =>
    cases b.toReason env with
    | error f =>
      intro h
      cases h
      exact ⟨rfl, rfl⟩
    | ok u =>
      intro h
      cases hr : toReasonAll env rest with
      | error f =>
        rw [hr] at h
        cases h
        exact ⟨rfl, rfl⟩
      | ok us =>
        rw [hr] at h
        cases h

/-- `x` is the fault that an index that the expression mentions is not bound in `env`. -/
def FailsUnbound (env : Env) (e : Expr) {α : Type} (x : Except Fault α) : Prop :=
  ∃ i, e.Mentions i ∧ env.length ≤ i ∧ x = .error (.unbound i env.length)

/-- The first operand that mentions something unbound decides. -/
theorem operands_unbound {es : List Expr} (hg : ∀ e ∈ es, e.Genuine)
    (h : ∀ e ∈ es, ¬ e.Bound env → e.FailsUnbound env (e.toReason env))
    (hu : ∃ e ∈ es, ¬ e.Bound env) : ∃ e ∈ es, e.FailsUnbound env (toReasonAll env es) := by
  induction es with
  | nil => simp at hu
  | cons e es ih =>
    rw [List.forall_mem_cons] at hg h
    by_cases hb : e.Bound env
    · obtain ⟨t, ht⟩ := hg.1.toReason_ok hb
      have hrest : ∃ e ∈ es, ¬ e.Bound env := by
        rcases List.exists_mem_cons_iff .. |>.1 hu with hn | hrest
        · exact absurd hb hn
        · exact hrest
      obtain ⟨e', he', i, hm, hi, hf⟩ := ih hg.2 h.2 hrest
      refine ⟨e', List.mem_cons_of_mem _ he', i, hm, hi, ?_⟩
      simp only [toReasonAll, ht, hf, ok_bind, error_bind]
    · obtain ⟨i, hm, hi, hf⟩ := h.1 hb
      refine ⟨e, List.mem_cons_self, i, hm, hi, ?_⟩
      simp only [toReasonAll, hf, error_bind]

theorem not_bound_iff : ¬ e.Bound env ↔ ∃ i, e.Mentions i ∧ env.length ≤ i := by
  simp [Bound]

/-- A computation that succeeds where all is bound, and else finds something unbound. -/
theorem error_iff_unbound {α : Type} {x : Except Fault α} (hok : e.Bound env → ∃ a, x = .ok a)
    (hfail : ¬ e.Bound env → e.FailsUnbound env x) :
    ((∃ fault, x = .error fault) ↔ ¬ e.Bound env) ∧
      ∀ fault, x = .error fault →
        ∃ i, e.Mentions i ∧ env.length ≤ i ∧ fault = .unbound i env.length := by
  by_cases hb : e.Bound env
  · obtain ⟨a, rfl⟩ := hok hb
    simp [hb]
  · obtain ⟨i, hm, hle, rfl⟩ := hfail hb
    refine ⟨iff_of_true ⟨_, rfl⟩ hb, fun fault hf => ⟨i, hm, hle, ?_⟩⟩
    cases hf
    rfl

namespace Genuine

theorem params_unbound (h : e.Genuine) (hu : ¬ e.Bound env) : e.FailsUnbound env (e.params env) := by
  obtain ⟨is, his, hm⟩ := h.hasIndices
  obtain ⟨i, hi, hle⟩ := not_bound_iff.1 hu
  obtain ⟨j, hj, hle, hf⟩ := Env.addParams_unbound ((hm i).2 hi) hle []
  exact ⟨j, (hm j).1 hj, hle, by rw [Expr.params, his, ok_bind, hf]⟩

/-- **An expression has no Reason type where it mentions something unbound.** -/
theorem toReason_unbound (h : e.Genuine) (hu : ¬ e.Bound env) :
    e.FailsUnbound env (e.toReason env) := by
  induction h with
  | void | unit => exact absurd (fun i hm => by cases hm) hu
  | @var i =>
    obtain ⟨j, hm, hle⟩ := not_bound_iff.1 hu
    cases hm
    exact ⟨i, .var, hle, by rw [Expr.toReason, Env.lookup_unbound hle, error_bind]⟩
  | @sum a b rest ha hb hs iha ihb ihs =>
    have hg := List.forall_mem_cons.2 ⟨ha, List.forall_mem_cons.2 ⟨hb, hs⟩⟩
    have hfails := List.forall_mem_cons.2 ⟨iha, List.forall_mem_cons.2 ⟨ihb, ihs⟩⟩
    have hone : ∃ e ∈ a :: b :: rest, ¬ e.Bound env := by
      obtain ⟨i, hm, hle⟩ := not_bound_iff.1 hu
      obtain ⟨e, he, hm⟩ := mentions_sum.1 hm
      exact ⟨e, he, not_bound_iff.2 ⟨i, hm, hle⟩⟩
    obtain ⟨e, he, i, hm, hle, hf⟩ := operands_unbound hg hfails hone
    exact ⟨i, .sum he hm, hle, (operands_error hf).1⟩
  | @product a b rest ha hb hs iha ihb ihs =>
    have hg := List.forall_mem_cons.2 ⟨ha, List.forall_mem_cons.2 ⟨hb, hs⟩⟩
    have hfails := List.forall_mem_cons.2 ⟨iha, List.forall_mem_cons.2 ⟨ihb, ihs⟩⟩
    have hone : ∃ e ∈ a :: b :: rest, ¬ e.Bound env := by
      obtain ⟨i, hm, hle⟩ := not_bound_iff.1 hu
      obtain ⟨e, he, hm⟩ := mentions_product.1 hm
      exact ⟨e, he, not_bound_iff.2 ⟨i, hm, hle⟩⟩
    obtain ⟨e, he, i, hm, hle, hf⟩ := operands_unbound hg hfails hone
    exact ⟨i, .product he hm, hle, (operands_error hf).2⟩
  | recursive hs _ =>
    obtain ⟨i, hm, hle, hf⟩ := (Genuine.recursive hs).params_unbound hu
    exact ⟨i, hm, hle, by rw [Expr.toReason, hf, error_bind]⟩
  | named hb _ =>
    obtain ⟨i, hm, hle, hf⟩ := (Genuine.named hb).params_unbound hu
    exact ⟨i, hm, hle, by rw [Expr.toReason, hf, error_bind]⟩

end Genuine

end Expr

/-! ## Declarations -/

/-- **A declaration has the variables that stand in it as its parameters.** -/
theorem Declares.bindsVariables {env : Env} {e : Expr} {d : Decl} (h : Declares env e d)
    (hg : e.Genuine) : d.BindsVariables := by
  cases h with
  | @recursive name ctors params variants hp hv =>
    obtain ⟨hnodup, hmem⟩ := Expr.params_exact hg.hasIndices hp
    refine ⟨hnodup, fun x => (Expr.dependsOn_recursive hmem).trans ?_⟩
    cases hg with
    | recursive hs =>
      have htypes : List.Forall₂
          (fun e t => Expr.toReason (.enclosing ⟨name, params⟩ :: env) e = .ok t)
          (ctors.map (·.payload)) (variants.map (·.payload)) := by
        rw [List.forall₂_map_left_iff, List.forall₂_map_right_iff]
        exact (toReasonCtors_eq_ok.1 hv).imp fun _ _ h => h.2
      rw [Decl.types, Ty.mem_varsAll, Expr.vars_operands htypes]
      · simp
      · intro e he t ht
        obtain ⟨ctor, hc, rfl⟩ := List.mem_map.1 he
        exact (hs ctor hc).vars_exact ht
  | @named name body params t hp ht =>
    obtain ⟨hnodup, hmem⟩ := Expr.params_exact hg.hasIndices hp
    refine ⟨hnodup, fun x => (hmem x).trans ?_⟩
    cases hg with
    | named hb =>
      rw [Expr.dependsOn_named, ← hb.vars_exact ht]
      simp [Decl.types, Ty.varsAll]

theorem addGenerated_bindsVariables {c : Collected} {d : Decl} (h : d.BindsVariables) :
    ∀ d' ∈ (c.addGenerated d).1, d'.BindsVariables :=
  fun _ hm => Collected.mem_of_addGenerated hm ▸ h

/-- **Whatever a walk finds has the variables that stand in it as its parameters.** -/
theorem Gathers.bindsVariables {env : Env} {es : List Expr} {c c' : Collected} {ds : List Decl}
    (h : Gathers env es c ds c') (hg : ∀ e ∈ es, e.Genuine) : ∀ d ∈ ds, d.BindsVariables := by
  induction h with
  | nil | unit | var | known => simp
  | append _ _ ih ih' =>
    rw [List.forall_mem_append] at hg ⊢
    exact ⟨ih hg.1, ih' hg.2⟩
  | void => exact addGenerated_bindsVariables Decl.bindsVariables_void
  | sum _ ih =>
    cases List.forall_mem_singleton.1 hg with
    | sum ha hb hs =>
      have hparts := ih (List.forall_mem_cons.2 ⟨ha, List.forall_mem_cons.2 ⟨hb, hs⟩⟩)
      exact List.forall_mem_append.2
        ⟨hparts, addGenerated_bindsVariables Decl.bindsVariables_either⟩
  | product _ ih =>
    cases List.forall_mem_singleton.1 hg with
    | product ha hb hs => exact ih (List.forall_mem_cons.2 ⟨ha, List.forall_mem_cons.2 ⟨hb, hs⟩⟩)
  | recursive _ hp hv _ ih =>
    have hone := List.forall_mem_singleton.1 hg
    refine List.forall_mem_cons.2 ⟨(Declares.recursive hp hv).bindsVariables hone, ih ?_⟩
    cases hone with
    | recursive hs => simpa using hs
  | named _ hp ht _ ih =>
    have hone := List.forall_mem_singleton.1 hg
    refine List.forall_mem_cons.2 ⟨(Declares.named hp ht).bindsVariables hone, ih ?_⟩
    cases hone with
    | named hb => simpa using hb

/-- **Type parameters are exact.** The indices that an expression mentions can be found. In any
environment its parameters and its type are found unless one of them is not bound; such an index is
then the fault, of the code E302. Otherwise no parameter is repeated, and the parameters are the
variables in the type. Whatever has been collected before, each declaration that the expression
needs has the variables in it as its parameters, none of them twice. -/
theorem type_parameters_exact (env : Env) {e : Expr} (h : e.Genuine) :
    ∃ is, e.indices = .ok is ∧
      ((∃ fault, e.params env = .error fault) ↔ ∃ i ∈ is, env.length ≤ i) ∧
      ((∃ fault, e.toReason env = .error fault) ↔ ∃ i ∈ is, env.length ≤ i) ∧
      (∀ fault, e.params env = .error fault ∨ e.toReason env = .error fault →
        fault.code? = some "E302" ∧ ∃ i ∈ is, env.length ≤ i ∧ fault = .unbound i env.length) ∧
      (∀ params t, e.params env = .ok params → e.toReason env = .ok t →
        params.Nodup ∧ ∀ name, name ∈ t.vars ↔ name ∈ params) ∧
      ∀ c ds c', e.collect env c = .ok (ds, c') →
        ∀ d ∈ ds, d.head.params.Nodup ∧ ∀ name, name ∈ Ty.varsAll d.types ↔ name ∈ d.head.params := by
  obtain ⟨is, his, hm⟩ := h.hasIndices
  have hunbound : (∃ i ∈ is, env.length ≤ i) ↔ ¬ e.Bound env := by
    simp only [Expr.not_bound_iff, hm]
  have hparams := Expr.error_iff_unbound (x := e.params env) h.params_ok h.params_unbound
  have htype := Expr.error_iff_unbound (x := e.toReason env) h.toReason_ok h.toReason_unbound
  refine ⟨is, his, hparams.1.trans hunbound.symm, htype.1.trans hunbound.symm, ?_, ?_, ?_⟩
  · intro fault hf
    obtain ⟨i, hi, hle, rfl⟩ := hf.elim (hparams.2 fault) (htype.2 fault)
    exact ⟨rfl, i, (hm i).2 hi, hle, rfl⟩
  · intro params t hp ht
    obtain ⟨hnodup, hmem⟩ := Expr.params_exact h.hasIndices hp
    exact ⟨hnodup, fun name => (h.vars_exact ht).trans (hmem name).symm⟩
  · intro c ds c' hc d hd
    obtain ⟨hnodup, hmem⟩ := (collect_gathers e hc).bindsVariables (by simpa using h) d hd
    exact ⟨hnodup, fun name => (hmem name).symm⟩

/-- The inner type depends on parameters only because it mentions the outer one, and the outer one
takes them from a parameter and from the declaration around both. -/
theorem type_parameters_exact_nested :
    let env : Env := [.free "a", .enclosing ⟨"outer", ["b", "a"]⟩]
    let forest : Expr := .recursive "forest"
      [⟨"Nil", .unit⟩, ⟨"Cons", .product (.var 1) (.sum (.var 0) .void []) []⟩]
    let tree : Expr := .recursive "tree" [⟨"Leaf", .product (.var 1) (.var 2) []⟩, ⟨"Node", forest⟩]
    (tree.collect env {}).toOption.map (·.1.map (·.head)) =
        some [⟨"tree", ["a", "b"]⟩, ⟨"forest", ["a", "b"]⟩, ⟨"void", []⟩, ⟨"either", ["a", "b"]⟩] ∧
      (∀ params t, tree.params env = .ok params → tree.toReason env = .ok t →
        params.Nodup ∧ ∀ name, name ∈ t.vars ↔ name ∈ params) ∧
      ∀ c ds c', tree.collect env c = .ok (ds, c') →
        ∀ d ∈ ds, d.head.params.Nodup ∧
          ∀ name, name ∈ Ty.varsAll d.types ↔ name ∈ d.head.params := by
  intro env forest tree
  have hforest : forest.Genuine := by
    refine .recursive (List.forall_mem_cons.2 ⟨.unit, List.forall_mem_singleton.2 ?_⟩)
    exact .product .var (.sum .var .void (by simp)) (by simp)
  have htree : tree.Genuine :=
    .recursive (List.forall_mem_cons.2 ⟨.product .var .var (by simp),
      List.forall_mem_singleton.2 hforest⟩)
  obtain ⟨is, -, -, -, -, hvars, hdecls⟩ := type_parameters_exact env htree
  exact ⟨by decide +kernel, hvars, hdecls⟩

end TypeDesc
