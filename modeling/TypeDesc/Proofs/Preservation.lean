/-
Emission keeps the values of a description in which types of one identifier give
the same declaration (`Description.Consistent`): `Expr.encode` is then a bijection
from the values of the expression to those of its Reason type (`encode_bijOn`).

Values are compared layer by layer. `Placed` is what holds of an expression
anywhere in the walk, `Layer` what its outermost type is once names and mentions
have been followed, and the three parts of the bijection are inductions on the
size of a value over the layers.
-/
import Mathlib.Data.List.Nodup
import TypeDesc.Proofs.ClosedModule
import TypeDesc.Proofs.OwnDeclarations

namespace TypeDesc

open Reason (Ty Decl Holds declared voidDecl eitherDecl)

variable {α : Type}

/-! ## Expressions in their places -/

namespace Closure

mutual
/-- The values of a bound type. -/
def values (atoms : String → Set α) : Closure → Set (Value α)
  | .param name => {v | ∃ a ∈ atoms name, v = .atom a}
  | .type around name ctors => (Expr.recursive name ctors).values (valuesAll atoms around)

/-- The values of each of the bound types. -/
def valuesAll (atoms : String → Set α) : List Closure → List (Set (Value α))
  | [] => []
  | c :: cs => values atoms c :: valuesAll atoms cs
end

mutual
/-- What a mention of a bound type refers to. -/
def binding : Closure → Binding
  | .param name => .free name
  | .type around name ctors =>
    .enclosing ⟨name, ((Expr.recursive name ctors).params (bindings around)).toOption.getD []⟩

/-- What mentions of the bound types refer to. -/
def bindings : List Closure → Env
  | [] => []
  | c :: cs => binding c :: bindings cs
end

theorem valuesAll_eq (atoms : String → Set α) (around : List Closure) :
    valuesAll atoms around = around.map (values atoms) := by
  induction around with
  | nil => rfl
  | cons c cs ih => rw [valuesAll, ih, List.map_cons]

theorem bindings_eq (around : List Closure) : bindings around = around.map binding := by
  induction around with
  | nil => rfl
  | cons c cs ih => rw [bindings, ih, List.map_cons]

end Closure

/-- What holds of an expression of type `t` anywhere in a walk: the types in it are among those that
the declarations speak for, and the types that `t` mentions are declared. -/
structure Placed (decls own : List Decl) (around : List Closure) (e : Expr) (t : Ty) : Prop where
  wellFormed : ∃ scope, around.length = scope.length ∧ e.WellFormed scope
  own : e.OwnAll (· ∈ own) (Closure.bindings around)
  type : e.toReason (Closure.bindings around) = .ok t
  covered : ∀ name ∈ t.applied, typeIdent name ∈ decls.map (·.ident)

/-- Parameters, and recursive types that are themselves in their place. -/
inductive Around (decls own : List Decl) : List Closure → Prop
  | params (names : List String) : Around decls own (names.map .param)
  | type {around name ctors t} (h : Around decls own around)
    (hp : Placed decls own around (.recursive name ctors) t) :
    Around decls own (.type around name ctors :: around)

theorem Around.of_getElem? {decls own : List Decl} {around outer : List Closure} {i : Nat}
    {name : String} {ctors : List (Ctor Expr)} (h : Around decls own around)
    (hi : around[i]? = some (.type outer name ctors)) :
    Around decls own outer ∧ ∃ t, Placed decls own outer (.recursive name ctors) t := by
  induction h generalizing i with
  | params names => simp at hi
  | type h hp ih =>
    cases i with
    | zero =>
      cases hi
      exact ⟨h, _, hp⟩
    | succ i => exact ih hi

/-- The outermost type of an expression that is neither a name nor the mention of a recursive type,
with what its parts are. -/
inductive Layer (decls own : List Decl) : List Closure × Expr → Ty → Prop
  | void {around} (hd : declared decls voidDecl.name = some voidDecl) :
    Layer decls own (around, .void) (.app voidDecl.name [])
  | unit {around} : Layer decls own (around, .unit) .unit
  | param {around i name} (h : around[i]? = some (.param name)) :
    Layer decls own (around, .var i) (.var name)
  | sum {around a b rest t u us} (hd : declared decls eitherDecl.name = some eitherDecl)
    (h : List.Forall₂ (Placed decls own around) (a :: b :: rest) (t :: u :: us)) :
    Layer decls own (around, .sum a b rest) (choice t (u :: us))
  | product {around a b rest t u us}
    (h : List.Forall₂ (Placed decls own around) (a :: b :: rest) (t :: u :: us)) :
    Layer decls own (around, .product a b rest) (.tuple (t :: u :: us))
  | recursive {around name ctors found params variants}
    (hd : declared decls name = some (.variant ⟨found, params⟩ variants))
    (hdist : CtorsDistinct ctors) (ha : Around decls own (.type around name ctors :: around))
    (h : List.Forall₂ (fun ctor variant => variant.name = ctor.name ∧
      Placed decls own (.type around name ctors :: around) ctor.payload variant.payload) ctors variants) :
    Layer decls own (around, .recursive name ctors) (applyTo name params)

namespace Placed

variable {decls own : List Decl} {around : List Closure}

theorem operands {a b : Expr} {rest : List Expr} {t u : Ty} {us : List Ty}
    (hw : ∃ scope, around.length = scope.length ∧ ∀ e ∈ a :: b :: rest, e.WellFormed scope)
    (ho : ∀ e ∈ a :: b :: rest, e.OwnAll (· ∈ own) (Closure.bindings around))
    (ht : List.Forall₂ (fun e t => e.toReason (Closure.bindings around) = .ok t)
      (a :: b :: rest) (t :: u :: us))
    (hc : ∀ v ∈ t :: u :: us, ∀ name ∈ v.applied, typeIdent name ∈ decls.map (·.ident)) :
    List.Forall₂ (Placed decls own around) (a :: b :: rest) (t :: u :: us) := by
  obtain ⟨scope, hl, hw⟩ := hw
  exact forall₂_imp_mem ht fun e he v hv htype => ⟨⟨scope, hl, hw e he⟩, ho e he, htype, hc v hv⟩

theorem sum_layer (hlib : Library decls own) {a b : Expr} {rest : List Expr} {t : Ty}
    (h : Placed decls own around (.sum a b rest) t) :
    Layer decls own (around, .sum a b rest) t := by
  obtain ⟨⟨scope, hl, hw⟩, ho, ht, hc⟩ := h
  simp only [Expr.toReason, bind_eq_ok, Except.ok.injEq] at ht
  obtain ⟨t, hta, u, htb, us, htr, rfl⟩ := ht
  cases hw with
  | sum ha hb hs =>
    have heither := hc Reason.eitherDecl.name (mem_applied_choice.2 (.inl rfl))
    refine .sum (hlib.declared_generated (.inr rfl) heither) (operands ⟨scope, hl, ?_⟩
      (Expr.ownAll_sum.1 ho) (toReason_operands hta htb htr) fun v hv name hm => ?_)
    · exact List.forall_mem_cons.2 ⟨ha, List.forall_mem_cons.2 ⟨hb, hs⟩⟩
    · exact hc name (mem_applied_choice.2 (.inr ⟨v, hv, hm⟩))

theorem product_layer {a b : Expr} {rest : List Expr} {t : Ty}
    (h : Placed decls own around (.product a b rest) t) :
    Layer decls own (around, .product a b rest) t := by
  obtain ⟨⟨scope, hl, hw⟩, ho, ht, hc⟩ := h
  simp only [Expr.toReason, bind_eq_ok, Except.ok.injEq] at ht
  obtain ⟨t, hta, u, htb, us, htr, rfl⟩ := ht
  cases hw with
  | product ha hb hs =>
    refine .product (operands ⟨scope, hl, ?_⟩ (Expr.ownAll_product.1 ho) (toReason_operands hta htb htr) ?_)
    · exact List.forall_mem_cons.2 ⟨ha, List.forall_mem_cons.2 ⟨hb, hs⟩⟩
    · intro v hv name hm
      exact hc name (by rw [Ty.applied, Ty.mem_appliedAll]; exact ⟨v, hv, hm⟩)

theorem recursive_layer (hlib : Library decls own) (ha : Around decls own around) {name : String}
    {ctors : List (Ctor Expr)} {t : Ty} (h : Placed decls own around (.recursive name ctors) t) :
    Layer decls own (around, .recursive name ctors) t := by
  have hinner := ha.type h
  obtain ⟨⟨scope, hl, hw⟩, ho, ht, hc⟩ := h
  obtain ⟨params, variants, hp, hv, hmem, hctors⟩ := Expr.ownAll_recursive.1 ho
  simp only [Expr.toReason, hp, ok_bind, Except.ok.injEq] at ht
  subst ht
  obtain ⟨found, hd, hdecl⟩ := hlib.declared_variant hmem (hc name (by simp))
  have henv : Closure.bindings (.type around name ctors :: around) =
      .enclosing ⟨name, params⟩ :: Closure.bindings around := by
    simp [Closure.bindings, Closure.binding, hp, Except.toOption]
  cases hw with
  | recursive hn hdist hnames hs =>
    refine .recursive hd hdist hinner (forall₂_imp_mem (toReasonCtors_eq_ok.1 hv) ?_)
    rintro ctor hctor variant hvariant ⟨hname, htype⟩
    refine ⟨hname, ⟨name :: scope, by simp [hl], hs ctor hctor⟩, ?_, ?_, fun other hm => ?_⟩
    · rw [henv]
      exact hctors ctor hctor
    · rw [henv]
      exact htype
    · exact hlib.mentions _ hdecl other (List.mem_flatMap.2 ⟨variant, hvariant, hm⟩)

/-- The body of a named type has the values of the type. -/
theorem named_body (hlib : Library decls own) {name : String} {body : Expr} {t : Ty}
    (h : Placed decls own around (.named name body) t) (atoms : String → Set α) :
    ∃ t', Placed decls own around body t' ∧
      ∀ v, Holds decls atoms t' v ↔ Holds decls atoms t v := by
  obtain ⟨⟨scope, hl, hw⟩, ho, ht, hc⟩ := h
  obtain ⟨params, t', hp, ht', hmem, hbody⟩ := Expr.ownAll_named.1 ho
  simp only [Expr.toReason, hp, ok_bind, Except.ok.injEq] at ht
  subst ht
  obtain ⟨found, hd, hdecl⟩ := hlib.declared_synonym hmem (hc name (by simp))
  cases hw with
  | named hn hb =>
    refine ⟨t', ⟨⟨scope, hl, hb⟩, hbody, ht', fun other hm => hlib.mentions _ hdecl other hm⟩, ?_⟩
    intro v
    rw [applyTo, Holds.app_synonym_iff hd, Ty.subst_self]

/-- A mention of a recursive type has the Reason type of the recursive type. -/
theorem mention (ha : Around decls own around) {i : Nat} {t : Ty} {outer : List Closure}
    {name : String} {ctors : List (Ctor Expr)} (h : Placed decls own around (.var i) t)
    (hi : around[i]? = some (.type outer name ctors)) :
    Around decls own outer ∧ Placed decls own outer (.recursive name ctors) t := by
  obtain ⟨hout, t', hp⟩ := ha.of_getElem? hi
  have htype := h.type
  simp only [Expr.toReason, bind_eq_ok, Except.ok.injEq] at htype
  obtain ⟨b, hb, rfl⟩ := htype
  have hb := Env.getElem?_of_lookup hb
  simp only [Closure.bindings_eq, List.getElem?_map, hi, Option.map_some, Option.some.injEq] at hb
  subst hb
  have ht' := hp.type
  simp only [Expr.toReason, bind_eq_ok, Except.ok.injEq] at ht'
  obtain ⟨params, hparams, rfl⟩ := ht'
  refine ⟨hout, ?_⟩
  simpa [Closure.binding, hparams, Except.toOption, Binding.type] using hp

theorem param_layer {i : Nat} {t : Ty} {name : String} (h : Placed decls own around (.var i) t)
    (hi : around[i]? = some (.param name)) : Layer decls own (around, .var i) t := by
  have htype := h.type
  simp only [Expr.toReason, bind_eq_ok, Except.ok.injEq] at htype
  obtain ⟨b, hb, rfl⟩ := htype
  have hb := Env.getElem?_of_lookup hb
  simp only [Closure.bindings_eq, List.getElem?_map, hi, Option.map_some, Option.some.injEq] at hb
  subst hb
  exact .param hi

/-- **Every expression in its place has an outermost type**, of the same values. -/
theorem layer (hlib : Library decls own) (ha : Around decls own around) (atoms : String → Set α) :
    (e : Expr) → {t : Ty} → Placed decls own around e t →
      ∃ t', Layer decls own (e.resolve around) t' ∧ Around decls own (e.resolve around).1 ∧
        ∀ v, Holds decls atoms t' v ↔ Holds decls atoms t v
  | .void, _, h => by
    cases h.type
    exact ⟨_, .void (hlib.declared_generated (.inl rfl) (h.covered _ (by simp [Ty.applied]))), ha,
      fun _ => .rfl⟩
  | .unit, _, h => by
    cases h.type
    exact ⟨_, .unit, ha, fun _ => .rfl⟩
  | .sum _ _ _, _, h => ⟨_, h.sum_layer hlib, ha, fun _ => .rfl⟩
  | .product _ _ _, _, h => ⟨_, h.product_layer, ha, fun _ => .rfl⟩
  | .recursive _ _, _, h => ⟨_, h.recursive_layer hlib ha, ha, fun _ => .rfl⟩
  | .named _ body, _, h => by
    obtain ⟨t', hb, ht⟩ := h.named_body hlib atoms
    obtain ⟨t'', hlayer, ha', ht'⟩ := layer hlib ha atoms body hb
    exact ⟨t'', hlayer, ha', fun v => (ht' v).trans (ht v)⟩
  | .var i, t, h => by
    obtain ⟨scope, hl, hw⟩ := h.wellFormed
    cases hw with
    | @var _ _ _ hi =>
      obtain ⟨hlt, -⟩ := List.idxOf?_eq_some_iff.1 hi
      cases hc : around[i]? with
      | none =>
        rw [List.getElem?_eq_none_iff] at hc
        omega
      | some c =>
        rw [Expr.resolve]
        cases c with
        | param name =>
          simp only [hc]
          exact ⟨t, h.param_layer hc, ha, fun _ => .rfl⟩
        | type outer name ctors =>
          obtain ⟨hout, hp⟩ := h.mention ha hc
          simp only [hc]
          exact ⟨t, hp.recursive_layer hlib hout, hout, fun _ => .rfl⟩
  | .foreign _, _, h => by
    obtain ⟨_, _, hw⟩ := h.wellFormed
    cases hw

end Placed

/-! ## Values and their encoding, layer by layer -/

namespace Expr

theorem values_resolve (atoms : String → Set α) (around : List Closure) : (e : Expr) →
    (e.resolve around).2.values (Closure.valuesAll atoms (e.resolve around).1) =
      e.values (Closure.valuesAll atoms around)
  | .named _ body => values_resolve atoms around body
  | .var i => by
    rw [resolve]
    split
    next outer name ctors hi =>
      rw [values.eq_3, Closure.valuesAll_eq atoms around, List.getElem?_map, hi]
      rfl
    next => rfl
  | .void => rfl
  | .unit => rfl
  | .sum _ _ _ => rfl
  | .product _ _ _ => rfl
  | .recursive _ _ => rfl
  | .foreign _ => rfl

theorem resolve_resolve (around : List Closure) :
    (e : Expr) → (e.resolve around).2.resolve (e.resolve around).1 = e.resolve around
  | .named _ body => resolve_resolve around body
  | .var i => by
    rw [resolve]
    split
    next => rfl
    next hi =>
      rw [resolve]
      split
      next outer name ctors hi' => exact absurd hi' (hi outer name ctors)
      next => rfl
  | .void => rfl
  | .unit => rfl
  | .sum _ _ _ => rfl
  | .product _ _ _ => rfl
  | .recursive _ _ => rfl
  | .foreign _ => rfl

theorem encode_resolve (around : List Closure) (e : Expr) (v : Value α) :
    (e.resolve around).2.encode (e.resolve around).1 v = e.encode around v := by
  cases v <;> simp only [encode, resolve_resolve]

theorem encode_sum {around : List Closure} {a b e : Expr} {rest : List Expr} {i : Nat}
    (h : (a :: b :: rest)[i]? = some e) (v : Value α) :
    (Expr.sum a b rest).encode around (.inject i v) =
      (e.encode around v).alternative (rest.length + 1) i := by
  simp only [encode, resolve, h]

theorem find?_of_distinct {ctors : List (Ctor Expr)} {ctor : Ctor Expr} (hd : CtorsDistinct ctors)
    (hm : ctor ∈ ctors) : ctors.find? (·.name == ctor.name) = some ctor := by
  cases hf : ctors.find? (·.name == ctor.name) with
  | none => exact absurd (List.find?_eq_none.1 hf ctor hm) (by simp)
  | some found =>
    have hname : found.name = ctor.name := by simpa using List.find?_some hf
    rw [List.inj_on_of_nodup_map hd (List.mem_of_find?_eq_some hf) hm (by rw [hname])]

theorem encode_recursive {around : List Closure} {name : String} {ctors : List (Ctor Expr)}
    {ctor : Ctor Expr} (hd : CtorsDistinct ctors) (hm : ctor ∈ ctors) (v : Value α) :
    (Expr.recursive name ctors).encode around (.construct ctor.name v) =
      .construct ctor.name (ctor.payload.encode (.type around name ctors :: around) v) := by
  simp only [encode, resolve, find?_of_distinct hd hm]

theorem mem_values_recursive {atoms : String → Set α} {around : List Closure} {name : String}
    {ctors : List (Ctor Expr)} {v : Value α} :
    v ∈ (Expr.recursive name ctors).values (Closure.valuesAll atoms around) ↔
      ∃ ctor ∈ ctors, ∃ w ∈ ctor.payload.values
        (Closure.valuesAll atoms (.type around name ctors :: around)), v = .construct ctor.name w := by
  rw [values_recursive, mem_valuesCtors]
  rfl

theorem mem_values_param {atoms : String → Set α} {around : List Closure} {i : Nat} {name : String}
    (h : around[i]? = some (.param name)) {v : Value α} :
    v ∈ (Expr.var i).values (Closure.valuesAll atoms around) ↔ ∃ a ∈ atoms name, v = .atom a := by
  rw [values, Closure.valuesAll_eq, List.getElem?_map, h]
  rfl

end Expr

section

variable {decls own : List Decl} {around : List Closure} {atoms : String → Set α}

theorem encodeAll_holds {es : List Expr} {ts : List Ty} {vs : List (Value α)}
    (hs : List.Forall₂ (Placed decls own around) es ts)
    (hvs : List.Forall₂ (fun e v => v ∈ Expr.values (Closure.valuesAll atoms around) e) es vs)
    (ih : ∀ v ∈ vs, ∀ {e t}, Placed decls own around e t →
      v ∈ e.values (Closure.valuesAll atoms around) → Holds decls atoms t (e.encode around v)) :
    List.Forall₂ (Holds decls atoms) ts (Expr.encodeAll around es vs) := by
  induction hs generalizing vs with
  | nil =>
    cases hvs
    exact .nil
  | cons hp _ ihs =>
    cases hvs with
    | cons hv hvs =>
      rw [List.forall_mem_cons] at ih
      exact .cons (ih.1 hp hv) (ihs hvs ih.2)

/-- The encoding of a value is one of the Reason type. -/
theorem encode_holds (hlib : Library decls own) {e : Expr} {t : Ty} {v : Value α}
    (ha : Around decls own around) (h : Placed decls own around e t)
    (hv : v ∈ e.values (Closure.valuesAll atoms around)) : Holds decls atoms t (e.encode around v) := by
  induction v using Value.bySize generalizing around e t with
  | step v ih =>
    obtain ⟨t', hlayer, ha', ht⟩ := h.layer hlib ha atoms
    rw [← Expr.values_resolve] at hv
    rw [← ht, ← Expr.encode_resolve]
    generalize e.resolve around = p at hlayer ha' hv ⊢
    cases hlayer with
    | void => exact hv.elim
    | unit =>
      cases hv
      exact .unit
    | param hi =>
      obtain ⟨a, hatom, rfl⟩ := (Expr.mem_values_param hi).1 hv
      exact .var hatom
    | sum hd hs =>
      obtain ⟨i, w, item, hi, hw, rfl⟩ := Expr.mem_values_sum.1 hv
      obtain ⟨u, hu, hp⟩ := forall₂_getElem? hs hi
      have hlen := hs.length_eq
      simp only [List.length_cons, Nat.add_right_cancel_iff] at hlen
      rw [Expr.encode_sum hi, hlen]
      exact (Holds.choice_iff hd).2 ⟨i, u, _, hu, ih w (w.sizeOf_lt_inject i) ha' hp hw, rfl⟩
    | product hs =>
      obtain ⟨vs, hvs, rfl⟩ := Expr.mem_values_product.1 hv
      exact .tuple (encodeAll_holds hs hvs fun v hm => ih v (Value.sizeOf_lt_tuple hm) ha')
    | recursive hd hdist ha hs =>
      obtain ⟨ctor, hm, w, hw, rfl⟩ := Expr.mem_values_recursive.1 hv
      obtain ⟨variant, hvariant, hname, hp⟩ := forall₂_mem hs hm
      -- the arguments are the parameters themselves, so substitution changes nothing
      have hpayload := ih w (w.sizeOf_lt_construct ctor.name) ha hp hw
      rw [Expr.encode_recursive hdist hm, applyTo, Holds.app_variant_iff hd]
      exact ⟨variant, hvariant, _, by rwa [Ty.subst_self], by rw [hname]⟩

theorem encodeAll_inj {es : List Expr} {ts : List Ty} {vs vs' : List (Value α)}
    (hs : List.Forall₂ (Placed decls own around) es ts)
    (hvs : List.Forall₂ (fun e v => v ∈ Expr.values (Closure.valuesAll atoms around) e) es vs)
    (hvs' : List.Forall₂ (fun e v => v ∈ Expr.values (Closure.valuesAll atoms around) e) es vs')
    (heq : Expr.encodeAll around es vs = Expr.encodeAll around es vs')
    (ih : ∀ v ∈ vs, ∀ {e t v'}, Placed decls own around e t →
      v ∈ e.values (Closure.valuesAll atoms around) → v' ∈ e.values (Closure.valuesAll atoms around) →
      e.encode around v = e.encode around v' → v = v') : vs = vs' := by
  induction hs generalizing vs vs' with
  | nil =>
    cases hvs
    cases hvs'
    rfl
  | cons hp _ ihs =>
    cases hvs with
    | cons hv hvs =>
      cases hvs' with
      | cons hv' hvs' =>
        rw [List.forall_mem_cons] at ih
        simp only [Expr.encodeAll, List.cons.injEq] at heq
        rw [ih.1 hp hv hv' heq.1, ihs hvs hvs' heq.2 ih.2]

/-- Values of one encoding are the same. -/
theorem encode_inj (hlib : Library decls own) {e : Expr} {t : Ty} {v v' : Value α}
    (ha : Around decls own around) (h : Placed decls own around e t)
    (hv : v ∈ e.values (Closure.valuesAll atoms around))
    (hv' : v' ∈ e.values (Closure.valuesAll atoms around))
    (heq : e.encode around v = e.encode around v') : v = v' := by
  induction v using Value.bySize generalizing around e t v' with
  | step v ih =>
    obtain ⟨t', hlayer, ha', -⟩ := h.layer hlib ha atoms
    rw [← Expr.values_resolve] at hv hv'
    rw [← Expr.encode_resolve, ← Expr.encode_resolve around e v'] at heq
    generalize e.resolve around = p at hlayer ha' hv hv' heq
    cases hlayer with
    | void => exact hv.elim
    | unit =>
      cases hv
      cases hv'
      rfl
    | param hi =>
      obtain ⟨a, -, rfl⟩ := (Expr.mem_values_param hi).1 hv
      obtain ⟨a', -, rfl⟩ := (Expr.mem_values_param hi).1 hv'
      exact heq
    | sum hd hs =>
      obtain ⟨i, w, item, hi, hw, rfl⟩ := Expr.mem_values_sum.1 hv
      obtain ⟨j, w', item', hj, hw', rfl⟩ := Expr.mem_values_sum.1 hv'
      rw [Expr.encode_sum hi, Expr.encode_sum hj] at heq
      obtain ⟨hlt, -⟩ := List.getElem?_eq_some_iff.1 hi
      obtain ⟨hlt', -⟩ := List.getElem?_eq_some_iff.1 hj
      obtain ⟨rfl, hpart⟩ :=
        Value.alternative_inj (Nat.le_of_lt_succ hlt) (Nat.le_of_lt_succ hlt') heq
      obtain rfl : item = item' := Option.some.inj (hi.symm.trans hj)
      obtain ⟨u, -, hp⟩ := forall₂_getElem? hs hi
      rw [ih w (w.sizeOf_lt_inject i) ha' hp hw hw' hpart]
    | product hs =>
      obtain ⟨vs, hvs, rfl⟩ := Expr.mem_values_product.1 hv
      obtain ⟨vs', hvs', rfl⟩ := Expr.mem_values_product.1 hv'
      have hall := Value.tuple.inj heq
      rw [encodeAll_inj hs hvs hvs' hall fun v hm => ih v (Value.sizeOf_lt_tuple hm) ha']
    | recursive hd hdist ha hs =>
      obtain ⟨ctor, hm, w, hw, rfl⟩ := Expr.mem_values_recursive.1 hv
      obtain ⟨ctor', hm', w', hw', rfl⟩ := Expr.mem_values_recursive.1 hv'
      rw [Expr.encode_recursive hdist hm, Expr.encode_recursive hdist hm'] at heq
      obtain ⟨hname, hpart⟩ := Value.construct.inj heq
      obtain rfl : ctor = ctor' := List.inj_on_of_nodup_map hdist hm hm' (by rw [hname])
      obtain ⟨variant, -, -, hp⟩ := forall₂_mem hs hm
      rw [ih w (w.sizeOf_lt_construct ctor.name) ha hp hw hw' hpart]

theorem encodeAll_onto {es : List Expr} {ts : List Ty} {ws : List (Value α)}
    (hs : List.Forall₂ (Placed decls own around) es ts)
    (hws : List.Forall₂ (Holds decls atoms) ts ws)
    (ih : ∀ w ∈ ws, ∀ {e t}, Placed decls own around e t → Holds decls atoms t w →
      ∃ v ∈ e.values (Closure.valuesAll atoms around), e.encode around v = w) :
    ∃ vs, List.Forall₂ (fun e v => v ∈ Expr.values (Closure.valuesAll atoms around) e) es vs ∧
      Expr.encodeAll around es vs = ws := by
  induction hs generalizing ws with
  | nil =>
    cases hws
    exact ⟨[], .nil, rfl⟩
  | cons hp _ ihs =>
    cases hws with
    | cons hw hws =>
      rw [List.forall_mem_cons] at ih
      obtain ⟨v, hv, rfl⟩ := ih.1 hp hw
      obtain ⟨vs, hvs, rfl⟩ := ihs hws ih.2
      exact ⟨v :: vs, .cons hv hvs, rfl⟩

/-- Every value of the Reason type is the encoding of a value. -/
theorem encode_onto (hlib : Library decls own) {e : Expr} {t : Ty} {w : Value α}
    (ha : Around decls own around) (h : Placed decls own around e t) (hw : Holds decls atoms t w) :
    ∃ v ∈ e.values (Closure.valuesAll atoms around), e.encode around v = w := by
  induction w using Value.bySize generalizing around e t with
  | step w ih =>
    obtain ⟨t', hlayer, ha', ht⟩ := h.layer hlib ha atoms
    rw [← ht] at hw
    simp only [← Expr.values_resolve atoms around e, ← Expr.encode_resolve around e]
    generalize e.resolve around = p at hlayer ha' ⊢
    cases hlayer with
    | void hd => exact absurd hw (Holds.not_void hd)
    | unit =>
      obtain rfl := Holds.unit_iff.1 hw
      exact ⟨.unit, rfl, rfl⟩
    | param hi =>
      obtain ⟨a, hatom, rfl⟩ := Holds.var_iff.1 hw
      exact ⟨.atom a, (Expr.mem_values_param hi).2 ⟨a, hatom, rfl⟩, rfl⟩
    | sum hd hs =>
      obtain ⟨i, u, w, hi, hpart, rfl⟩ := (Holds.choice_iff hd).1 hw
      -- the alternative may lie several constructors deep, so the induction is on size
      obtain ⟨e, he, hp⟩ := forall₂_getElem? (hs.flip (R := flip (Placed decls own _))) hi
      obtain ⟨v, hv, rfl⟩ := ih w (Value.sizeOf_lt_alternative (by simp) i w) ha' hp hpart
      have hlen := hs.length_eq
      simp only [List.length_cons, Nat.add_right_cancel_iff] at hlen
      exact ⟨.inject i v, Expr.mem_values_sum.2 ⟨i, v, e, he, hv, rfl⟩, by
        rw [Expr.encode_sum he, hlen, List.length_cons]⟩
    | product hs =>
      obtain ⟨ws, hws, rfl⟩ := Holds.tuple_iff.1 hw
      obtain ⟨vs, hvs, rfl⟩ :=
        encodeAll_onto hs hws fun w hm => ih w (Value.sizeOf_lt_tuple hm) ha'
      exact ⟨.tuple vs, Expr.mem_values_product.2 ⟨vs, hvs, rfl⟩, rfl⟩
    | recursive hd hdist ha hs =>
      rw [applyTo, Holds.app_variant_iff hd] at hw
      obtain ⟨variant, hvariant, w, hpart, rfl⟩ := hw
      rw [Ty.subst_self] at hpart
      obtain ⟨ctor, hm, hname, hp⟩ := forall₂_mem hs.flip hvariant
      obtain ⟨v, hv, rfl⟩ := ih w (w.sizeOf_lt_construct variant.name) ha hp hpart
      exact ⟨.construct ctor.name v, Expr.mem_values_recursive.2 ⟨ctor, hm, v, hv, rfl⟩, by
        rw [Expr.encode_recursive hdist hm, hname]⟩

/-- **The encoding of values is a bijection**, wherever an expression stands. -/
theorem encode_bijOn (hlib : Library decls own) {e : Expr} {t : Ty} (ha : Around decls own around)
    (h : Placed decls own around e t) (atoms : String → Set α) :
    Set.BijOn (e.encode around) (e.values (Closure.valuesAll atoms around))
      {v | Holds decls atoms t v} :=
  ⟨fun _ hv => encode_holds hlib ha h hv, fun _ hv _ hv' => encode_inj hlib ha h hv hv',
    fun _ hw => encode_onto hlib ha h hw⟩

end

/-! ## Descriptions -/

namespace Description

/-- Types of one identifier give the same declaration wherever they occur. -/
def Consistent (d : Description) : Prop :=
  ∀ own, d.body.ownDecls (.ofParams d.params) = .ok own → Agree own

/-- The values of a description, when each type parameter has the given atoms. -/
def values (d : Description) (atoms : String → Set α) : Set (Value α) :=
  d.body.values (d.params.map fun name => {v | ∃ a ∈ atoms name, v = .atom a})

/-- The value of the Reason type that stands for a value of the description. -/
def encode (d : Description) : Value α → Value α :=
  d.body.encode (d.params.map .param)

theorem values_eq (d : Description) (atoms : String → Set α) :
    d.values atoms = d.body.values (Closure.valuesAll atoms (d.params.map .param)) := by
  rw [values, Closure.valuesAll_eq, List.map_map]
  rfl

theorem bindings_params (params : List String) :
    Closure.bindings (params.map .param) = .ofParams params := by
  rw [Closure.bindings_eq, List.map_map]
  rfl

/-- The declarations of a consistent description speak for all types in its expression. -/
theorem WellFormed.library {d : Description} (h : d.WellFormed) (hc : d.Consistent) :
    ∃ decls own t, d.declarations = .ok decls ∧ Library decls own ∧
      d.body.toReason (.ofParams d.params) = .ok t ∧
      Placed decls own (d.params.map .param) d.body t := by
  have hl : (Env.ofParams d.params).length = d.params.length := by simp [Env.ofParams]
  obtain ⟨ds, c, hds, hg⟩ := h.declarations_gathers
  obtain ⟨decls, hdecls, hgathered⟩ := h.gathered
  obtain rfl : ds.reverse = decls := Except.ok.inj (hds.symm.trans hdecls)
  obtain ⟨own, hown, hnot⟩ := h.body.ownAll hl
  obtain ⟨t, ht⟩ := h.body.toReason_ok hl
  have hin : d.body.OwnAll (· ∈ own) (.ofParams d.params) := ⟨own, hown, fun _ => id⟩
  refine ⟨ds.reverse, own, t, hds, ⟨hgathered.closed.mentions, ?_, hc own hown, hnot⟩, ht,
    ⟨d.params, by simp, h.body⟩, ?_, ?_, hgathered.body t ht⟩
  · exact fun decl hm => hg.origin (by simpa using hin) decl (List.mem_reverse.1 hm)
  · rwa [bindings_params]
  · rwa [bindings_params]

end Description

/-- **Emission keeps the values of a description.** If types of one identifier give the same
declaration wherever they occur, then whatever the atoms of the type parameters are, the encoding is
a bijection from the values of the description to those of its Reason type under its declarations. -/
theorem emission_keeps_values {file source : String} {d : Description} {w : List Report}
    (h : Description.ofSource file source = .ok (d, w)) (hc : d.Consistent) (atoms : String → Set α) :
    ∃ decls t, d.declarations = .ok decls ∧ d.body.toReason (.ofParams d.params) = .ok t ∧
      Set.BijOn d.encode (d.values atoms) {v | Holds decls atoms t v} := by
  obtain ⟨hd, -⟩ := ofSource_sound h
  obtain ⟨decls, own, t, hdecls, hlib, ht, hp⟩ := hd.library hc
  refine ⟨decls, t, hdecls, ht, ?_⟩
  rw [Description.values_eq]
  exact encode_bijOn hlib (.params d.params) hp atoms

/-- A type that occurs inside and outside of a recursive type: the values are kept, and among them is
a pair of the second of three alternatives and the empty list. -/
theorem emission_keeps_values_list : ∃ d w decls t,
    Description.ofSource "list.tyd"
      "params a\nalias x \x7ba + unit + void\x7d * rec l \x7bNil, Cons: alias x \x7ba + unit + void\x7d * l\x7d"
        = .ok (d, w) ∧
      d.Consistent ∧ d.declarations = .ok decls ∧ d.body.toReason (.ofParams d.params) = .ok t ∧
      Set.BijOn d.encode (d.values fun _ => {true}) {v | Holds decls (fun _ => {true}) t v} ∧
      .tuple [.inject 1 .unit, .construct "Nil" .unit] ∈ d.values (fun _ => {true}) ∧
      d.encode (.tuple [.inject 1 .unit, .construct "Nil" .unit]) =
        (.tuple [.construct "Right" (.construct "Left" .unit), .construct "Nil" .unit] : Value Bool) := by
  obtain ⟨⟨d, w⟩, h, hread⟩ := exists_ok_of_any (Description.ofSource "list.tyd"
      "params a\nalias x \x7ba + unit + void\x7d * rec l \x7bNil, Cons: alias x \x7ba + unit + void\x7d * l\x7d")
    (fun x =>
      x.1.body == .product (.named "x" (.sum (.var 0) .unit [.void]))
        (.recursive "l" [⟨"Nil", .unit⟩,
          ⟨"Cons", .product (.named "x" (.sum (.var 1) .unit [.void])) (.var 0) []⟩]) [] &&
      (x.1.body.ownDecls (.ofParams x.1.params)).toOption.any (Agree ·)) (by decide +kernel)
  simp only [Bool.and_eq_true, beq_iff_eq] at hread
  obtain ⟨hbody, hagree⟩ := hread
  have hc : d.Consistent := by
    intro own ho
    simpa [ho] using hagree
  obtain ⟨decls, t, hdecls, ht, hbij⟩ := emission_keeps_values h hc fun _ => {true}
  refine ⟨d, w, decls, t, h, hc, hdecls, ht, hbij, ?_, ?_⟩
  · rw [Description.values, hbody, Expr.mem_values_product]
    refine ⟨_, .cons ?_ (.cons ?_ .nil), rfl⟩
    · exact Expr.mem_values_sum.2 ⟨1, .unit, .unit, rfl, rfl, rfl⟩
    · rw [Expr.values_recursive, Expr.mem_valuesCtors]
      exact ⟨_, List.mem_cons_self, .unit, rfl, rfl⟩
  · rw [Description.encode, hbody]
    rfl

end TypeDesc
