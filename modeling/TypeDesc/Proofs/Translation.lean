/-
An expression without foreign values (`Expr.Genuine`) has a Reason type in every
environment in which all that it mentions is bound. A well-formed expression has
a Reason type and declarations in every environment of the size of its scope.
-/
import Mathlib.Data.List.Forall2
import TypeDesc.Expr.Reason
import TypeDesc.Proofs.Outcome
import TypeDesc.Proofs.WellFormed

namespace TypeDesc

open Reason (Ty Decl)

/-! ## Indices -/

theorem mem_insertIndex {i j : Nat} {is : List Nat} : j ∈ insertIndex i is ↔ j = i ∨ j ∈ is := by
  induction is with
  | nil => simp [insertIndex]
  | cons k is ih =>
    simp only [insertIndex]
    split
    next => simp
    next =>
      split
      next h => simp [h]
      next => simp [ih, or_left_comm]

theorem mem_unionIndices {i : Nat} {is js : List Nat} : i ∈ unionIndices is js ↔ i ∈ is ∨ i ∈ js := by
  induction is with
  | nil => simp [unionIndices]
  | cons k is ih =>
    simp only [unionIndices, List.foldr_cons] at ih ⊢
    rw [mem_insertIndex, ih, List.mem_cons, or_assoc]

theorem mem_leaveBinding {i : Nat} {is : List Nat} : i ∈ leaveBinding is ↔ i + 1 ∈ is := by
  simp only [leaveBinding, List.mem_map, List.mem_filter, decide_eq_true_eq]
  constructor
  · rintro ⟨j, ⟨hj, hpos⟩, rfl⟩
    rwa [Nat.sub_add_cancel hpos]
  · exact fun h => ⟨i + 1, ⟨h, Nat.succ_pos i⟩, rfl⟩

/-! ## Mentioned indices -/

/-- The expression mentions what index `i` stands for around it. -/
inductive Expr.Mentions : Expr → Nat → Prop
  | var {i} : Mentions (.var i) i
  | sum {a b rest e i} (he : e ∈ a :: b :: rest) (h : Mentions e i) : Mentions (.sum a b rest) i
  | product {a b rest e i} (he : e ∈ a :: b :: rest) (h : Mentions e i) :
    Mentions (.product a b rest) i
  | recursive {name ctors ctor i} (hc : ctor ∈ ctors) (h : Mentions ctor.payload (i + 1)) :
    Mentions (.recursive name ctors) i
  | named {name body i} (h : Mentions body i) : Mentions (.named name body) i

namespace Expr

variable {a b : Expr} {rest : List Expr} {i : Nat}

theorem mentions_var {j : Nat} : (Expr.var j).Mentions i ↔ i = j := by
  constructor
  · intro h
    cases h
    rfl
  · exact fun h => h ▸ .var

theorem mentions_sum : (Expr.sum a b rest).Mentions i ↔ ∃ e ∈ a :: b :: rest, e.Mentions i := by
  constructor
  · intro h
    cases h with
    | sum he h => exact ⟨_, he, h⟩
  · exact fun ⟨_, he, h⟩ => .sum he h

theorem mentions_product :
    (Expr.product a b rest).Mentions i ↔ ∃ e ∈ a :: b :: rest, e.Mentions i := by
  constructor
  · intro h
    cases h with
    | product he h => exact ⟨_, he, h⟩
  · exact fun ⟨_, he, h⟩ => .product he h

theorem mentions_recursive {name : String} {ctors : List (Ctor Expr)} :
    (Expr.recursive name ctors).Mentions i ↔ ∃ ctor ∈ ctors, ctor.payload.Mentions (i + 1) := by
  constructor
  · intro h
    cases h with
    | recursive hc h => exact ⟨_, hc, h⟩
  · exact fun ⟨_, hc, h⟩ => .recursive hc h

theorem mentions_named {name : String} {body : Expr} :
    (Expr.named name body).Mentions i ↔ body.Mentions i := by
  constructor
  · intro h
    cases h with
    | named h => exact h
  · exact .named

end Expr

/-- The indices `is` are those that the expression mentions. -/
def Expr.HasIndices (e : Expr) : Prop :=
  ∃ is, e.indices = .ok is ∧ ∀ i, i ∈ is ↔ e.Mentions i

theorem indicesAll_mentions {es : List Expr} (h : ∀ e ∈ es, e.HasIndices) :
    ∃ is, Expr.indicesAll es = .ok is ∧ ∀ i, i ∈ is ↔ ∃ e ∈ es, e.Mentions i := by
  induction es with
  | nil => exact ⟨[], rfl, by simp⟩
  | cons e es ih =>
    rw [List.forall_mem_cons] at h
    obtain ⟨⟨is, his, hm⟩, hes⟩ := h
    obtain ⟨js, hjs, hm'⟩ := ih hes
    refine ⟨unionIndices is js, by simp only [Expr.indicesAll, his, hjs, ok_bind], fun i => ?_⟩
    rw [mem_unionIndices, hm, hm', List.exists_mem_cons_iff]

theorem indicesCtors_mentions {ctors : List (Ctor Expr)}
    (h : ∀ ctor ∈ ctors, ctor.payload.HasIndices) :
    ∃ is, Expr.indicesCtors ctors = .ok is ∧
      ∀ i, i ∈ is ↔ ∃ ctor ∈ ctors, ctor.payload.Mentions i := by
  induction ctors with
  | nil => exact ⟨[], rfl, by simp⟩
  | cons ctor ctors ih =>
    rw [List.forall_mem_cons] at h
    obtain ⟨⟨is, his, hm⟩, hctors⟩ := h
    obtain ⟨js, hjs, hm'⟩ := ih hctors
    refine ⟨unionIndices is js, by simp only [Expr.indicesCtors, his, hjs, ok_bind], fun i => ?_⟩
    rw [mem_unionIndices, hm, hm', List.exists_mem_cons_iff]

theorem Expr.indices_operands {a b : Expr} {rest : List Expr} :
    (Expr.sum a b rest).indices = indicesAll (a :: b :: rest) ∧
      (Expr.product a b rest).indices = indicesAll (a :: b :: rest) := by
  simp only [indices, indicesAll, bind_assoc, ok_bind, and_self]

/-- An expression without foreign values. -/
inductive Expr.Genuine : Expr → Prop
  | void : Genuine .void
  | unit : Genuine .unit
  | var {i} : Genuine (.var i)
  | sum {a b rest} (ha : Genuine a) (hb : Genuine b) (hs : ∀ e ∈ rest, Genuine e) :
    Genuine (.sum a b rest)
  | product {a b rest} (ha : Genuine a) (hb : Genuine b) (hs : ∀ e ∈ rest, Genuine e) :
    Genuine (.product a b rest)
  | recursive {name ctors} (hs : ∀ ctor ∈ ctors, Genuine ctor.payload) :
    Genuine (.recursive name ctors)
  | named {name body} (hb : Genuine body) : Genuine (.named name body)

theorem Expr.Genuine.hasIndices {e : Expr} (h : e.Genuine) : e.HasIndices := by
  induction h with
  | void | unit =>
    refine ⟨[], rfl, fun i => ⟨by simp, fun hm => ?_⟩⟩
    cases hm
  | @var i => exact ⟨[i], rfl, fun j => by rw [List.mem_singleton, mentions_var]⟩
  | sum _ _ _ iha ihb ihs =>
    obtain ⟨is, his, hm⟩ :=
      indicesAll_mentions (List.forall_mem_cons.2 ⟨iha, List.forall_mem_cons.2 ⟨ihb, ihs⟩⟩)
    exact ⟨is, indices_operands.1.trans his, fun i => (hm i).trans mentions_sum.symm⟩
  | product _ _ _ iha ihb ihs =>
    obtain ⟨is, his, hm⟩ :=
      indicesAll_mentions (List.forall_mem_cons.2 ⟨iha, List.forall_mem_cons.2 ⟨ihb, ihs⟩⟩)
    exact ⟨is, indices_operands.2.trans his, fun i => (hm i).trans mentions_product.symm⟩
  | recursive _ ih =>
    obtain ⟨is, his, hm⟩ := indicesCtors_mentions ih
    refine ⟨leaveBinding is, by simp only [indices, his, ok_bind], fun i => ?_⟩
    rw [mem_leaveBinding, hm, mentions_recursive]
  | named _ ih =>
    obtain ⟨is, his, hm⟩ := ih
    exact ⟨is, his, fun i => (hm i).trans mentions_named.symm⟩

theorem Expr.WellFormed.genuine {scope : List String} {e : Expr} (h : e.WellFormed scope) :
    e.Genuine := by
  induction h with
  | void => exact .void
  | unit => exact .unit
  | var => exact .var
  | sum _ _ _ iha ihb ihs => exact .sum iha ihb ihs
  | product _ _ _ iha ihb ihs => exact .product iha ihb ihs
  | recursive _ _ _ _ ih => exact .recursive ih
  | named _ _ ih => exact .named ih

theorem Expr.WellFormed.hasIndices {scope : List String} {e : Expr} (h : e.WellFormed scope) :
    e.HasIndices :=
  h.genuine.hasIndices

theorem Expr.WellFormed.mentions_lt {scope : List String} {e : Expr} (h : e.WellFormed scope)
    {i : Nat} (hm : e.Mentions i) : i < scope.length := by
  induction h generalizing i with
  | void | unit => cases hm
  | var hi =>
    cases hm
    exact (List.idxOf?_eq_some_iff.1 hi).1
  | sum _ _ _ iha ihb ihs =>
    cases hm with
    | sum he hm => exact List.forall_mem_cons.2 ⟨@iha, List.forall_mem_cons.2 ⟨@ihb, @ihs⟩⟩ _ he hm
  | product _ _ _ iha ihb ihs =>
    cases hm with
    | product he hm =>
      exact List.forall_mem_cons.2 ⟨@iha, List.forall_mem_cons.2 ⟨@ihb, @ihs⟩⟩ _ he hm
  | recursive _ _ _ _ ih =>
    cases hm with
    | recursive hc hm => exact Nat.lt_of_succ_lt_succ (ih _ hc hm)
  | named _ _ ih =>
    cases hm with
    | named hm => exact ih hm

/-! ## Parameters and types -/

theorem Env.lookup_eq {env : Env} {i : Nat} (h : i < env.length) : env.lookup i = .ok env[i] := by
  have hneg : ¬ (i : Int) < 0 := by omega
  rw [Env.lookup, if_neg hneg, Int.toNat_natCast, List.getElem?_eq_getElem h]

theorem Env.lookup_of_getElem? {env : Env} {i : Nat} {b : Binding} (h : env[i]? = some b) :
    env.lookup i = .ok b := by
  obtain ⟨hlt, rfl⟩ := List.getElem?_eq_some_iff.1 h
  exact Env.lookup_eq hlt

theorem Env.addParams_ok {env : Env} {is : List Nat} (h : ∀ i ∈ is, i < env.length)
    (names : List String) : ∃ params, env.addParams names is = .ok params := by
  induction is generalizing names with
  | nil => exact ⟨names, rfl⟩
  | cons i is ih =>
    rw [List.forall_mem_cons] at h
    obtain ⟨params, hp⟩ := ih h.2 (addNew names env[i].params)
    exact ⟨params, by simp only [Env.addParams, Env.lookup_eq h.1, ok_bind, hp]⟩

theorem toReasonAll_eq_ok {env : Env} {es : List Expr} {ts : List Ty} :
    Expr.toReasonAll env es = .ok ts ↔ List.Forall₂ (fun e t => e.toReason env = .ok t) es ts := by
  induction es generalizing ts with
  | nil => simp [Expr.toReasonAll, eq_comm]
  | cons e es ih =>
    simp only [Expr.toReasonAll, bind_eq_ok, ih, Except.ok.injEq, List.forall₂_cons_left_iff]
    constructor
    · rintro ⟨t, ht, ts, hts, rfl⟩
      exact ⟨t, ts, ht, hts, rfl⟩
    · rintro ⟨t, ts, ht, hts, rfl⟩
      exact ⟨t, ht, ts, hts, rfl⟩

theorem toReasonCtors_eq_ok {env : Env} {ctors : List (Ctor Expr)} {variants : List (Ctor Ty)} :
    Expr.toReasonCtors env ctors = .ok variants ↔
      List.Forall₂ (fun c v => v.name = c.name ∧ c.payload.toReason env = .ok v.payload)
        ctors variants := by
  induction ctors generalizing variants with
  | nil => simp [Expr.toReasonCtors, eq_comm]
  | cons c ctors ih =>
    simp only [Expr.toReasonCtors, bind_eq_ok, ih, Except.ok.injEq, List.forall₂_cons_left_iff]
    constructor
    · rintro ⟨t, ht, ts, hts, rfl⟩
      exact ⟨⟨c.name, t⟩, ts, ⟨rfl, ht⟩, hts, rfl⟩
    · rintro ⟨v, ts, ⟨hn, ht⟩, hts, rfl⟩
      exact ⟨v.payload, ht, ts, hts, by rw [← hn]⟩

theorem exists_forall₂ {α β : Type} {R : α → β → Prop} {as : List α} (h : ∀ a ∈ as, ∃ b, R a b) :
    ∃ bs, List.Forall₂ R as bs := by
  induction as with
  | nil => exact ⟨[], .nil⟩
  | cons a as ih =>
    rw [List.forall_mem_cons] at h
    obtain ⟨⟨b, hb⟩, has⟩ := h
    obtain ⟨bs, hbs⟩ := ih has
    exact ⟨b :: bs, .cons hb hbs⟩

theorem forall₂_getElem? {α β : Type} {R : α → β → Prop} {as : List α} {bs : List β} {i : Nat} {a : α}
    (h : List.Forall₂ R as bs) (hi : as[i]? = some a) : ∃ b, bs[i]? = some b ∧ R a b := by
  induction h generalizing i with
  | nil => simp at hi
  | cons hr _ ih =>
    cases i with
    | zero =>
      cases hi
      exact ⟨_, rfl, hr⟩
    | succ i => exact ih hi

theorem forall₂_mem {α β : Type} {R : α → β → Prop} {as : List α} {bs : List β} {a : α}
    (h : List.Forall₂ R as bs) (ha : a ∈ as) : ∃ b ∈ bs, R a b := by
  obtain ⟨i, hi⟩ := List.mem_iff_getElem?.1 ha
  obtain ⟨b, hb, hr⟩ := forall₂_getElem? h hi
  exact ⟨b, List.mem_of_getElem? hb, hr⟩

theorem forall₂_imp_mem {α β : Type} {R S : α → β → Prop} {as : List α} {bs : List β}
    (h : List.Forall₂ R as bs) (hs : ∀ a ∈ as, ∀ b ∈ bs, R a b → S a b) : List.Forall₂ S as bs := by
  induction h with
  | nil => exact .nil
  | cons hr _ ih =>
    refine .cons (hs _ (by simp) _ (by simp) hr) (ih fun a ha b hb => ?_)
    exact hs a (List.mem_cons_of_mem _ ha) b (List.mem_cons_of_mem _ hb)

/-- Whatever the expression mentions is bound. -/
def Expr.Bound (env : Env) (e : Expr) : Prop :=
  ∀ i, e.Mentions i → i < env.length

namespace Expr.Genuine

variable {e : Expr} {env : Env}

theorem params_ok (h : e.Genuine) (hb : e.Bound env) : ∃ params, e.params env = .ok params := by
  obtain ⟨is, his, hm⟩ := h.hasIndices
  obtain ⟨params, hp⟩ := Env.addParams_ok (fun i hi => hb i ((hm i).1 hi)) []
  exact ⟨params, by simp only [Expr.params, his, ok_bind, hp]⟩

/-- **An expression has a Reason type where all that it mentions is bound.** -/
theorem toReason_ok (h : e.Genuine) (hb : e.Bound env) : ∃ t, e.toReason env = .ok t := by
  induction h generalizing env with
  | void => exact ⟨_, rfl⟩
  | unit => exact ⟨_, rfl⟩
  | @var i =>
    simp only [Expr.toReason, Env.lookup_eq (hb i .var), ok_bind]
    exact ⟨_, rfl⟩
  | sum _ _ _ iha ihb ihs =>
    obtain ⟨t, ht⟩ := iha fun i hm => hb i (.sum (by simp) hm)
    obtain ⟨u, hu⟩ := ihb fun i hm => hb i (.sum (by simp) hm)
    obtain ⟨us, hus⟩ := exists_forall₂ fun e he => ihs e he fun i hm => hb i (.sum (by simp [he]) hm)
    simp only [Expr.toReason, ht, hu, toReasonAll_eq_ok.2 hus, ok_bind]
    exact ⟨_, rfl⟩
  | product _ _ _ iha ihb ihs =>
    obtain ⟨t, ht⟩ := iha fun i hm => hb i (.product (by simp) hm)
    obtain ⟨u, hu⟩ := ihb fun i hm => hb i (.product (by simp) hm)
    obtain ⟨us, hus⟩ :=
      exists_forall₂ fun e he => ihs e he fun i hm => hb i (.product (by simp [he]) hm)
    simp only [Expr.toReason, ht, hu, toReasonAll_eq_ok.2 hus, ok_bind]
    exact ⟨_, rfl⟩
  | recursive hs _ =>
    obtain ⟨params, hp⟩ := (Genuine.recursive hs).params_ok hb
    simp only [Expr.toReason, hp, ok_bind]
    exact ⟨_, rfl⟩
  | named h _ =>
    obtain ⟨params, hp⟩ := (Genuine.named h).params_ok hb
    simp only [Expr.toReason, hp, ok_bind]
    exact ⟨_, rfl⟩

end Expr.Genuine

namespace Expr.WellFormed

variable {scope : List String} {e : Expr} {env : Env}

theorem bound (h : e.WellFormed scope) (hl : env.length = scope.length) : e.Bound env :=
  fun _ hm => hl ▸ h.mentions_lt hm

theorem params_ok (h : e.WellFormed scope) (hl : env.length = scope.length) :
    ∃ params, e.params env = .ok params :=
  h.genuine.params_ok (h.bound hl)

/-- **A well-formed expression has a Reason type.** -/
theorem toReason_ok (h : e.WellFormed scope) (hl : env.length = scope.length) :
    ∃ t, e.toReason env = .ok t :=
  h.genuine.toReason_ok (h.bound hl)

theorem toReasonCtors_ok {ctors : List (Ctor Expr)}
    (h : ∀ ctor ∈ ctors, ctor.payload.WellFormed scope) (hl : env.length = scope.length) :
    ∃ variants, Expr.toReasonCtors env ctors = .ok variants := by
  have hone : ∀ ctor ∈ ctors, ∃ v : Ctor Ty,
      v.name = ctor.name ∧ ctor.payload.toReason env = .ok v.payload := by
    intro ctor hm
    obtain ⟨t, ht⟩ := (h ctor hm).toReason_ok hl
    exact ⟨⟨ctor.name, t⟩, rfl, ht⟩
  obtain ⟨variants, hv⟩ := exists_forall₂ hone
  exact ⟨variants, toReasonCtors_eq_ok.2 hv⟩

end Expr.WellFormed

/-! ## Declarations -/

theorem collectAll_ok {env : Env} {es : List Expr}
    (h : ∀ e ∈ es, ∀ c, ∃ x, e.collect env c = .ok x) (c : Collected) :
    ∃ x, Expr.collectAll env es c = .ok x := by
  induction es generalizing c with
  | nil => exact ⟨_, rfl⟩
  | cons e es ih =>
    rw [List.forall_mem_cons] at h
    obtain ⟨x, hx⟩ := h.1 c
    obtain ⟨y, hy⟩ := ih h.2 x.2
    simp only [Expr.collectAll, hx, hy, ok_bind]
    exact ⟨_, rfl⟩

theorem collectCtors_ok {env : Env} {ctors : List (Ctor Expr)}
    (h : ∀ ctor ∈ ctors, ∀ c, ∃ x, ctor.payload.collect env c = .ok x) (c : Collected) :
    ∃ x, Expr.collectCtors env ctors c = .ok x := by
  induction ctors generalizing c with
  | nil => exact ⟨_, rfl⟩
  | cons ctor ctors ih =>
    rw [List.forall_mem_cons] at h
    obtain ⟨x, hx⟩ := h.1 c
    obtain ⟨y, hy⟩ := ih h.2 x.2
    simp only [Expr.collectCtors, hx, hy, ok_bind]
    exact ⟨_, rfl⟩

/-- **The declarations of a well-formed expression can be collected.** -/
theorem Expr.WellFormed.collect_ok {scope : List String} {e : Expr} {env : Env}
    (h : e.WellFormed scope) (hl : env.length = scope.length) (c : Collected) :
    ∃ x, e.collect env c = .ok x := by
  induction h generalizing env c with
  | void => exact ⟨_, rfl⟩
  | unit => exact ⟨_, rfl⟩
  | var => exact ⟨_, rfl⟩
  | sum _ _ _ iha ihb ihs =>
    obtain ⟨x, hx⟩ := iha hl c
    obtain ⟨y, hy⟩ := ihb hl x.2
    obtain ⟨z, hz⟩ := collectAll_ok (fun e he => ihs e he hl) y.2
    simp only [Expr.collect, hx, hy, hz, ok_bind]
    exact ⟨_, rfl⟩
  | product _ _ _ iha ihb ihs =>
    obtain ⟨x, hx⟩ := iha hl c
    obtain ⟨y, hy⟩ := ihb hl x.2
    obtain ⟨z, hz⟩ := collectAll_ok (fun e he => ihs e he hl) y.2
    simp only [Expr.collect, hx, hy, hz, ok_bind]
    exact ⟨_, rfl⟩
  | @recursive scope name ctors hn hd hc hs ih =>
    simp only [Expr.collect]
    split
    next => exact ⟨_, rfl⟩
    next =>
      obtain ⟨params, hp⟩ := (WellFormed.recursive hn hd hc hs).params_ok hl
      have hl' : (Binding.enclosing ⟨name, params⟩ :: env).length = (name :: scope).length := by
        simp [hl]
      obtain ⟨variants, hv⟩ := WellFormed.toReasonCtors_ok hs hl'
      obtain ⟨x, hx⟩ := collectCtors_ok (fun ctor hm => ih ctor hm hl') (c.mark name)
      simp only [hp, hv, hx, ok_bind]
      exact ⟨_, rfl⟩
  | @named scope name body hn hb ih =>
    simp only [Expr.collect]
    split
    next => exact ⟨_, rfl⟩
    next =>
      obtain ⟨params, hp⟩ := (WellFormed.named hn hb).params_ok hl
      obtain ⟨t, ht⟩ := hb.toReason_ok hl
      obtain ⟨x, hx⟩ := ih hl (c.mark name)
      simp only [hp, ht, hx, ok_bind]
      exact ⟨_, rfl⟩

end TypeDesc
