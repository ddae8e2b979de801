/-
How declarations are gathered. `Gathers` is the walk of `Expr.collect` as a
relation, on lists of expressions, so that what holds of every walk is proved by
one induction over its steps. First of these facts: the identifiers that are
marked are those of the declarations found, each once (`Gathers.idents`,
`Gathers.nodup`), and every name that a type or a declaration of the walk
mentions has been marked in the end (`Gathers.covers`).
-/
import TypeDesc.Proofs.Translation

namespace TypeDesc

open Reason (Ty Decl)

/-- `Gathers env es c ds c'`: walking the expressions `es`, after `c` has been collected, finds the
declarations `ds` and leaves `c'` collected. -/
inductive Gathers : Env → List Expr → Collected → List Decl → Collected → Prop
  | nil {env c} : Gathers env [] c [] c
  | append {env es es' c c₁ c₂ ds ds'} (h : Gathers env es c ds c₁) (h' : Gathers env es' c₁ ds' c₂) :
    Gathers env (es ++ es') c (ds ++ ds') c₂
  | unit {env c} : Gathers env [.unit] c [] c
  | var {env i c} : Gathers env [.var i] c [] c
  | void {env c} :
    Gathers env [.void] c (c.addGenerated Reason.voidDecl).1 (c.addGenerated Reason.voidDecl).2
  | sum {env a b rest c ds c'} (h : Gathers env (a :: b :: rest) c ds c') :
    Gathers env [.sum a b rest] c (ds ++ (c'.addGenerated Reason.eitherDecl).1)
      (c'.addGenerated Reason.eitherDecl).2
  | product {env a b rest c ds c'} (h : Gathers env (a :: b :: rest) c ds c') :
    Gathers env [.product a b rest] c ds c'
  | known {env e c name} (hn : e.name? = some name) (hc : c.contains name = true) :
    Gathers env [e] c [] c
  | recursive {env name ctors params variants c ds c'} (hc : c.contains name = false)
    (hp : Expr.params env (.recursive name ctors) = .ok params)
    (hv : Expr.toReasonCtors (.enclosing ⟨name, params⟩ :: env) ctors = .ok variants)
    (h : Gathers (.enclosing ⟨name, params⟩ :: env) (ctors.map (·.payload)) (c.mark name) ds c') :
    Gathers env [.recursive name ctors] c (.variant ⟨name, params⟩ variants :: ds) c'
  | named {env name body params t c ds c'} (hc : c.contains name = false)
    (hp : Expr.params env (.named name body) = .ok params) (ht : body.toReason env = .ok t)
    (h : Gathers env [body] (c.mark name) ds c') :
    Gathers env [.named name body] c (.synonym ⟨name, params⟩ t :: ds) c'

theorem Gathers.cons {env : Env} {e : Expr} {es : List Expr} {c c₁ c₂ : Collected}
    {ds ds' : List Decl} (h : Gathers env [e] c ds c₁) (h' : Gathers env es c₁ ds' c₂) :
    Gathers env (e :: es) c (ds ++ ds') c₂ :=
  .append h h'

mutual
theorem collect_gathers {env : Env} {c c' : Collected} {ds : List Decl} :
    (e : Expr) → e.collect env c = .ok (ds, c') → Gathers env [e] c ds c'
  | .void, h => by
    simp only [Expr.collect, Except.ok.injEq] at h
    have hv : Gathers env [.void] c _ _ := .void
    rwa [h] at hv
  | .unit, h => by
    simp only [Expr.collect, Except.ok.injEq, Prod.mk.injEq] at h
    obtain ⟨rfl, rfl⟩ := h
    exact .unit
  | .var i, h => by
    simp only [Expr.collect, Except.ok.injEq, Prod.mk.injEq] at h
    obtain ⟨rfl, rfl⟩ := h
    exact .var
  | .sum a b rest, h => by
    simp only [Expr.collect, bind_eq_ok, Except.ok.injEq, Prod.mk.injEq] at h
    obtain ⟨⟨ds₁, c₁⟩, ha, ⟨ds₂, c₂⟩, hb, ⟨ds₃, c₃⟩, hr, rfl, rfl⟩ := h
    rw [List.append_assoc ds₁]
    exact .sum ((collect_gathers a ha).cons ((collect_gathers b hb).cons (collectAll_gathers rest hr)))
  | .product a b rest, h => by
    simp only [Expr.collect, bind_eq_ok, Except.ok.injEq, Prod.mk.injEq] at h
    obtain ⟨⟨ds₁, c₁⟩, ha, ⟨ds₂, c₂⟩, hb, ⟨ds₃, c₃⟩, hr, rfl, rfl⟩ := h
    rw [List.append_assoc ds₁]
    exact .product
      ((collect_gathers a ha).cons ((collect_gathers b hb).cons (collectAll_gathers rest hr)))
  | .recursive name ctors, h => by
    simp only [Expr.collect] at h
    split at h
    next hc =>
      simp only [Except.ok.injEq, Prod.mk.injEq] at h
      obtain ⟨rfl, rfl⟩ := h
      exact .known rfl hc
    next hc =>
      simp only [bind_eq_ok, Except.ok.injEq, Prod.mk.injEq] at h
      obtain ⟨params, hp, variants, hv, ⟨ds₁, c₁⟩, hs, rfl, rfl⟩ := h
      exact .recursive (by simpa using hc) hp hv (collectCtors_gathers ctors hs)
  | .named name body, h => by
    simp only [Expr.collect] at h
    split at h
    next hc =>
      simp only [Except.ok.injEq, Prod.mk.injEq] at h
      obtain ⟨rfl, rfl⟩ := h
      exact .known rfl hc
    next hc =>
      simp only [bind_eq_ok, Except.ok.injEq, Prod.mk.injEq] at h
      obtain ⟨params, hp, t, ht, ⟨ds₁, c₁⟩, hs, rfl, rfl⟩ := h
      exact .named (by simpa using hc) hp ht (collect_gathers body hs)
  | .foreign value, h => by simp [Expr.collect] at h

theorem collectAll_gathers {env : Env} {c c' : Collected} {ds : List Decl} :
    (es : List Expr) → Expr.collectAll env es c = .ok (ds, c') → Gathers env es c ds c'
  | [], h => by
    simp only [Expr.collectAll, Except.ok.injEq, Prod.mk.injEq] at h
    obtain ⟨rfl, rfl⟩ := h
    exact .nil
  | e :: es, h => by
    simp only [Expr.collectAll, bind_eq_ok, Except.ok.injEq, Prod.mk.injEq] at h
    obtain ⟨⟨ds₁, c₁⟩, he, ⟨ds₂, c₂⟩, hes, rfl, rfl⟩ := h
    exact (collect_gathers e he).cons (collectAll_gathers es hes)

theorem collectCtors_gathers {env : Env} {c c' : Collected} {ds : List Decl} :
    (ctors : List (Ctor Expr)) → Expr.collectCtors env ctors c = .ok (ds, c') →
      Gathers env (ctors.map (·.payload)) c ds c'
  | [], h => by
    simp only [Expr.collectCtors, Except.ok.injEq, Prod.mk.injEq] at h
    obtain ⟨rfl, rfl⟩ := h
    exact .nil
  | ⟨_, e⟩ :: ctors, h => by
    simp only [Expr.collectCtors, bind_eq_ok, Except.ok.injEq, Prod.mk.injEq] at h
    obtain ⟨⟨ds₁, c₁⟩, he, ⟨ds₂, c₂⟩, hes, rfl, rfl⟩ := h
    exact (collect_gathers e he).cons (collectCtors_gathers ctors hes)
end

/-! ## Identifiers -/

/-- The identifier of a declared type. -/
def Reason.Decl.ident (d : Decl) : String :=
  typeIdent d.name

theorem Collected.mark_idents {c : Collected} {name : String} (h : c.contains name = false) :
    (c.mark name).idents = typeIdent name :: c.idents := by
  simp only [Collected.mark, h, Bool.false_eq_true, if_false]

theorem Collected.mem_mark {c : Collected} {name : String} (h : c.contains name = false) :
    typeIdent name ∈ (c.mark name).idents := by
  rw [Collected.mark_idents h]
  exact List.mem_cons_self

theorem Collected.contains_iff {c : Collected} {name : String} :
    c.contains name = true ↔ typeIdent name ∈ c.idents := by
  simp [Collected.contains]

/-- The declarations `ds` are what has been collected since `c`, with `c'` as the outcome. -/
structure Grows (c : Collected) (ds : List Decl) (c' : Collected) : Prop where
  idents : c'.idents = (ds.map (·.ident)).reverse ++ c.idents
  nodup : c.idents.Nodup → c'.idents.Nodup

namespace Grows

variable {c c₁ c₂ c' : Collected} {ds ds' : List Decl}

theorem refl (c : Collected) : Grows c [] c :=
  ⟨by simp, id⟩

theorem append (h : Grows c ds c₁) (h' : Grows c₁ ds' c₂) : Grows c (ds ++ ds') c₂ :=
  ⟨by rw [h'.idents, h.idents]; simp, fun hn => h'.nodup (h.nodup hn)⟩

theorem mark {d : Decl} (h : c.contains d.name = false) : Grows c [d] (c.mark d.name) := by
  refine ⟨by rw [Collected.mark_idents h]; rfl, fun hn => ?_⟩
  rw [Collected.mark_idents h, List.nodup_cons]
  refine ⟨fun hm => ?_, hn⟩
  rw [Collected.contains_iff.2 hm] at h
  cases h

theorem addGenerated (c : Collected) (d : Decl) :
    Grows c (c.addGenerated d).1 (c.addGenerated d).2 := by
  rw [Collected.addGenerated]
  split
  next => exact refl c
  next h => exact mark (by simpa using h)

theorem mem (h : Grows c ds c') {ident : String} (hm : ident ∈ c.idents) : ident ∈ c'.idents := by
  rw [h.idents]
  exact List.mem_append_right _ hm

end Grows

theorem Gathers.grows {env : Env} {es : List Expr} {c c' : Collected} {ds : List Decl}
    (h : Gathers env es c ds c') : Grows c ds c' := by
  induction h with
  | nil | unit | var | known => exact .refl _
  | append _ _ ih ih' => exact ih.append ih'
  | void => exact .addGenerated _ _
  | sum _ ih => exact ih.append (.addGenerated _ _)
  | product _ ih => exact ih
  | @recursive _ name _ params variants _ _ _ hc _ _ _ ih =>
    have hmark : Grows _ [Decl.variant ⟨name, params⟩ variants] _ := .mark hc
    exact hmark.append ih
  | @named _ name _ params t _ _ _ hc _ _ _ ih =>
    have hmark : Grows _ [Decl.synonym ⟨name, params⟩ t] _ := .mark hc
    exact hmark.append ih

/-! ## Mentions -/

namespace Reason

theorem Ty.mem_appliedAll {name : String} {ts : List Ty} :
    name ∈ Ty.appliedAll ts ↔ ∃ t ∈ ts, name ∈ t.applied := by
  induction ts with
  | nil => simp [Ty.appliedAll]
  | cons t ts ih => simp [Ty.appliedAll, ih]

/-- The names of the types that a declaration mentions. -/
def Decl.mentions : Decl → List String
  | .synonym _ body => body.applied
  | .variant _ ctors => ctors.flatMap (·.payload.applied)

end Reason

@[simp] theorem applied_applyTo (name : String) (params : List String) :
    (applyTo name params).applied = [name] := by
  have hvars : ∀ params : List String, Ty.appliedAll (params.map .var) = [] := by
    intro params
    induction params with
    | nil => rfl
    | cons p params ih => exact ih
  rw [applyTo, Ty.applied, hvars]

theorem mem_applied_either {name : String} (t u : Ty) :
    name ∈ (Ty.app Reason.eitherDecl.name [t, u]).applied ↔
      name = Reason.eitherDecl.name ∨ name ∈ t.applied ∨ name ∈ u.applied := by
  simp [Ty.applied, Ty.appliedAll]

theorem mem_applied_choice {name : String} {t u : Ty} {us : List Ty} :
    name ∈ (choice t (u :: us)).applied ↔
      name = Reason.eitherDecl.name ∨ ∃ v ∈ t :: u :: us, name ∈ v.applied := by
  induction us generalizing t u with
  | nil => simp [choice, mem_applied_either]
  | cons v us ih =>
    have hcons := List.exists_mem_cons_iff (fun w : Ty => name ∈ w.applied) t (u :: v :: us)
    rw [choice, mem_applied_either, ih, hcons]
    tauto

/-- The identifiers of the types declared around an expression have been collected. -/
def Env.Known (env : Env) (c : Collected) : Prop :=
  ∀ head, .enclosing head ∈ env → typeIdent head.name ∈ c.idents

/-- Every name that the type mentions has been collected. -/
def Reason.Ty.Covered (t : Ty) (c : Collected) : Prop :=
  ∀ name ∈ t.applied, typeIdent name ∈ c.idents

theorem Reason.Ty.Covered.grow {t : Ty} {c c' : Collected} {ds : List Decl} (h : t.Covered c)
    (hg : Grows c ds c') : t.Covered c' :=
  fun name hm => hg.mem (h name hm)

theorem Reason.Ty.covered_applyTo {name : String} {params : List String} {c : Collected} :
    (applyTo name params).Covered c ↔ typeIdent name ∈ c.idents := by
  simp [Ty.Covered]

theorem Env.Known.grow {env : Env} {c c' : Collected} {ds : List Decl} (h : env.Known c)
    (hg : Grows c ds c') : env.Known c' :=
  fun head hm => hg.mem (h head hm)

theorem Env.Known.mark {env : Env} {c : Collected} {name : String} (h : env.Known c)
    (hc : c.contains name = false) : env.Known (c.mark name) := by
  intro head hm
  rw [Collected.mark_idents hc]
  exact List.mem_cons_of_mem _ (h head hm)

theorem Env.Known.enclose {env : Env} {c : Collected} {name : String} {params : List String}
    (h : env.Known c) (hc : c.contains name = false) :
    Env.Known (.enclosing ⟨name, params⟩ :: env) (c.mark name) := by
  intro head hm
  rcases List.mem_cons.1 hm with he | hm
  · cases he
    exact Collected.mem_mark hc
  · exact h.mark hc head hm

theorem Env.getElem?_of_lookup {env : Env} {i : Nat} {b : Binding} (h : env.lookup i = .ok b) :
    env[i]? = some b := by
  simp only [Env.lookup, Int.toNat_natCast] at h
  split at h
  next => cases h
  next =>
    split at h
    next hb =>
      cases h
      exact hb
    next => cases h

theorem Collected.mem_addGenerated (c : Collected) (d : Decl) :
    d.ident ∈ (c.addGenerated d).2.idents := by
  rw [Collected.addGenerated]
  split
  next h => exact Collected.contains_iff.1 h
  next h => simp [Collected.mark_idents (by simpa using h), Decl.ident]

theorem Collected.mem_of_addGenerated {c : Collected} {d d' : Decl}
    (h : d' ∈ (c.addGenerated d).1) : d' = d := by
  rw [Collected.addGenerated] at h
  split at h
  next => cases h
  next => exact List.mem_singleton.1 h

theorem toReason_operands {env : Env} {a b : Expr} {rest : List Expr} {t u : Ty} {us : List Ty}
    (ha : a.toReason env = .ok t) (hb : b.toReason env = .ok u)
    (hr : Expr.toReasonAll env rest = .ok us) :
    List.Forall₂ (fun e t => e.toReason env = .ok t) (a :: b :: rest) (t :: u :: us) :=
  .cons ha (.cons hb (toReasonAll_eq_ok.1 hr))

theorem covered_of_forall₂ {env : Env} {es : List Expr} {ts : List Ty} {c : Collected}
    (h : List.Forall₂ (fun e t => e.toReason env = .ok t) es ts)
    (hc : ∀ e ∈ es, ∀ t, e.toReason env = .ok t → t.Covered c) : ∀ t ∈ ts, t.Covered c := by
  intro t ht
  obtain ⟨e, he, hte⟩ := forall₂_mem h.flip ht
  exact hc e he t hte

theorem exists_ctor_of_mem {env : Env} {ctors : List (Ctor Expr)} {variants : List (Ctor Ty)}
    {v : Ctor Ty} (h : Expr.toReasonCtors env ctors = .ok variants) (hv : v ∈ variants) :
    ∃ ctor ∈ ctors, v.name = ctor.name ∧ ctor.payload.toReason env = .ok v.payload :=
  forall₂_mem (toReasonCtors_eq_ok.1 h).flip hv

/-- Every name that is mentioned in the types of the expressions or in the declarations has been
collected. -/
structure Covers (env : Env) (es : List Expr) (ds : List Decl) (c : Collected) : Prop where
  types : ∀ e ∈ es, ∀ t, e.toReason env = .ok t → t.Covered c
  decls : ∀ d ∈ ds, ∀ name ∈ d.mentions, typeIdent name ∈ c.idents

theorem Covers.single {env : Env} {e : Expr} {ds : List Decl} {c : Collected}
    (ht : ∀ t, e.toReason env = .ok t → t.Covered c)
    (hd : ∀ d ∈ ds, ∀ name ∈ d.mentions, typeIdent name ∈ c.idents) : Covers env [e] ds c :=
  ⟨by simpa using ht, hd⟩

/-- **A walk covers what is mentioned on it.** -/
theorem Gathers.covers {env : Env} {es : List Expr} {c c' : Collected} {ds : List Decl}
    (h : Gathers env es c ds c') (hk : env.Known c) : Covers env es ds c' := by
  induction h with
  | nil => exact ⟨by simp, by simp⟩
  | append h h' ih ih' =>
    obtain ⟨ht, hd⟩ := ih hk
    obtain ⟨ht', hd'⟩ := ih' (hk.grow h.grows)
    constructor
    · intro e he t hte
      rcases List.mem_append.1 he with he | he
      · exact (ht e he t hte).grow h'.grows
      · exact ht' e he t hte
    · intro d hm name hn
      rcases List.mem_append.1 hm with hm | hm
      · exact h'.grows.mem (hd d hm name hn)
      · exact hd' d hm name hn
  | unit =>
    refine .single (fun t ht => ?_) (by simp)
    cases ht
    simp [Ty.Covered, Ty.applied]
  | var =>
    refine .single (fun t ht => ?_) (by simp)
    simp only [Expr.toReason, bind_eq_ok, Except.ok.injEq] at ht
    obtain ⟨b, hb, rfl⟩ := ht
    cases b with
    | free name => simp [Binding.type, Ty.Covered, Ty.applied]
    | enclosing head => exact Ty.covered_applyTo.2 (hk head (List.mem_of_getElem? (Env.getElem?_of_lookup hb)))
  | @void _ c =>
    refine .single (fun t ht => ?_) fun d hd => ?_
    · cases ht
      show (applyTo Reason.voidDecl.name []).Covered _
      exact Ty.covered_applyTo.2 (c.mem_addGenerated Reason.voidDecl)
    · rw [Collected.mem_of_addGenerated hd]
      simp [Decl.mentions, Reason.voidDecl]
  | @sum _ _ _ _ _ _ c' h ih =>
    obtain ⟨ht, hd⟩ := ih hk
    have hg : Grows c' _ _ := .addGenerated c' Reason.eitherDecl
    refine .single (fun t hs => ?_) fun d hm => ?_
    · simp only [Expr.toReason, bind_eq_ok, Except.ok.injEq] at hs
      obtain ⟨t, hta, u, htb, us, htr, rfl⟩ := hs
      intro name hm
      rcases mem_applied_choice.1 hm with rfl | ⟨v, hv, hm⟩
      · exact c'.mem_addGenerated Reason.eitherDecl
      · exact hg.mem (covered_of_forall₂ (toReason_operands hta htb htr) ht v hv name hm)
    · rcases List.mem_append.1 hm with hm | hm
      · exact fun name hn => hg.mem (hd d hm name hn)
      · rw [Collected.mem_of_addGenerated hm]
        simp [Decl.mentions, Reason.eitherDecl, Ty.applied]
  | product h ih =>
    obtain ⟨ht, hd⟩ := ih hk
    refine .single (fun t hs => ?_) hd
    simp only [Expr.toReason, bind_eq_ok, Except.ok.injEq] at hs
    obtain ⟨t, hta, u, htb, us, htr, rfl⟩ := hs
    intro name hm
    rw [Ty.applied, Ty.mem_appliedAll] at hm
    obtain ⟨v, hv, hm⟩ := hm
    exact covered_of_forall₂ (toReason_operands hta htb htr) ht v hv name hm
  | @known _ e _ _ hn hc =>
    refine .single (fun t ht => ?_) (by simp)
    cases e <;> simp only [Expr.name?, Option.some.injEq, reduceCtorEq] at hn
    all_goals
      subst hn
      simp only [Expr.toReason, bind_eq_ok, Except.ok.injEq] at ht
      obtain ⟨params, -, rfl⟩ := ht
      exact Ty.covered_applyTo.2 (Collected.contains_iff.1 hc)
  | @recursive _ name ctors params variants c ds c' hc hp hv h ih =>
    obtain ⟨ht, hd⟩ := ih (hk.enclose hc)
    have hname : typeIdent name ∈ c'.idents := h.grows.mem (Collected.mem_mark hc)
    refine .single (fun t hr => ?_) (List.forall_mem_cons.2 ⟨fun other hm => ?_, hd⟩)
    · simp only [Expr.toReason, bind_eq_ok, Except.ok.injEq] at hr
      obtain ⟨params, -, rfl⟩ := hr
      exact Ty.covered_applyTo.2 hname
    · obtain ⟨v, hv', hm⟩ := List.mem_flatMap.1 hm
      obtain ⟨ctor, hctor, -, htc⟩ := exists_ctor_of_mem hv hv'
      exact ht _ (List.mem_map_of_mem hctor) _ htc other hm
  | @named _ name body params t c ds c' hc hp ht h ih =>
    obtain ⟨hts, hd⟩ := ih (hk.mark hc)
    have hname : typeIdent name ∈ c'.idents := h.grows.mem (Collected.mem_mark hc)
    refine .single (fun t hr => ?_) (List.forall_mem_cons.2 ⟨fun other hm => ?_, hd⟩)
    · simp only [Expr.toReason, bind_eq_ok, Except.ok.injEq] at hr
      obtain ⟨params, -, rfl⟩ := hr
      exact Ty.covered_applyTo.2 hname
    · exact hts body (by simp) t ht other hm

end TypeDesc
