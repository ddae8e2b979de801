/-
The values of types. An expression has the least set of finite values that its
constructors make (`Expr.values`), a Reason type the values that its declarations
make (`Reason.Holds`), and `Expr.encode` turns the first into the second: the
alternatives of a sum become nested choices, and all else stays as it is.

Here are the laws of the two sides, one for each way to make a type. That
`Expr.encode` is a bijection is `TypeDesc.Proofs.Preservation`.
-/
import Mathlib.Data.Set.Function
import TypeDesc.Proofs.Gathered

namespace TypeDesc

open Reason (Ty Decl)

/-- A finite value over atoms of the type parameters. -/
inductive Value (α : Type)
  | atom (a : α)
  | unit
  | tuple (items : List (Value α))
  /-- A value of the alternative at an index of a sum. -/
  | inject (index : Nat) (value : Value α)
  | construct (ctor : String) (value : Value α)

variable {α : Type}

/-! ## Values of expressions -/

namespace Expr

mutual
/-- The values of an expression, when `ρ` has the values of the types bound around it. Those of a
recursive type are the least set that its constructors stay in. -/
def values (ρ : List (Set (Value α))) : Expr → Set (Value α)
  | .void => ∅
  | .unit => {.unit}
  | .var index => ρ[index]?.getD ∅
  | .sum first second rest =>
    {v | ∃ i w S, (values ρ first :: values ρ second :: valuesAll ρ rest)[i]? = some S ∧ w ∈ S ∧
      v = .inject i w}
  | .product first second rest =>
    {v | ∃ vs, List.Forall₂ (fun S w => w ∈ S)
      (values ρ first :: values ρ second :: valuesAll ρ rest) vs ∧ v = .tuple vs}
  | .recursive _ ctors => {v | ∀ X, valuesCtors (X :: ρ) ctors ⊆ X → v ∈ X}
  | .named _ body => values ρ body
  | .foreign _ => ∅

/-- The values of each of the expressions. -/
def valuesAll (ρ : List (Set (Value α))) : List Expr → List (Set (Value α))
  | [] => []
  | e :: es => values ρ e :: valuesAll ρ es

/-- The values that constructors make of their payloads. -/
def valuesCtors (ρ : List (Set (Value α))) : List (Ctor Expr) → Set (Value α)
  | [] => ∅
  | ⟨name, e⟩ :: ctors => {v | ∃ w ∈ values ρ e, v = .construct name w} ∪ valuesCtors ρ ctors
end

theorem valuesAll_eq (ρ : List (Set (Value α))) (es : List Expr) :
    valuesAll ρ es = es.map (values ρ) := by
  induction es with
  | nil => rfl
  | cons e es ih => rw [valuesAll, ih, List.map_cons]

theorem mem_valuesCtors {ρ : List (Set (Value α))} {ctors : List (Ctor Expr)} {v : Value α} :
    v ∈ valuesCtors ρ ctors ↔
      ∃ ctor ∈ ctors, ∃ w ∈ ctor.payload.values ρ, v = .construct ctor.name w := by
  induction ctors with
  | nil => simp [valuesCtors]
  | cons ctor ctors ih => simp [valuesCtors, ih]

theorem mem_values_sum {ρ : List (Set (Value α))} {a b : Expr} {rest : List Expr} {v : Value α} :
    v ∈ (Expr.sum a b rest).values ρ ↔
      ∃ i w e, (a :: b :: rest)[i]? = some e ∧ w ∈ e.values ρ ∧ v = .inject i w := by
  simp only [values, valuesAll_eq, Set.mem_ofPred_eq, ← List.map_cons, List.getElem?_map,
    Option.map_eq_some_iff]
  constructor
  · rintro ⟨i, w, _, ⟨e, he, rfl⟩, hw, rfl⟩
    exact ⟨i, w, e, he, hw, rfl⟩
  · rintro ⟨i, w, e, he, hw, rfl⟩
    exact ⟨i, w, _, ⟨e, he, rfl⟩, hw, rfl⟩

theorem mem_values_product {ρ : List (Set (Value α))} {a b : Expr} {rest : List Expr} {v : Value α} :
    v ∈ (Expr.product a b rest).values ρ ↔
      ∃ vs, List.Forall₂ (fun e w => w ∈ values ρ e) (a :: b :: rest) vs ∧ v = .tuple vs := by
  simp only [values, valuesAll_eq, Set.mem_ofPred_eq, ← List.map_cons, List.forall₂_map_left_iff]

mutual
theorem values_mono {ρ ρ' : List (Set (Value α))} (h : List.Forall₂ (· ⊆ ·) ρ ρ') :
    (e : Expr) → e.values ρ ⊆ e.values ρ'
  | .void => le_rfl
  | .unit => le_rfl
  | .foreign _ => le_rfl
  | .var i => by
    simp only [values]
    induction h generalizing i with
    | nil => simp
    | cons hX _ ih =>
      cases i with
      | zero => exact hX
      | succ i => exact ih i
  | .sum a b rest => by
    have hall : ∀ e ∈ a :: b :: rest, e.values ρ ⊆ e.values ρ' :=
      List.forall_mem_cons.2 ⟨values_mono h a,
        List.forall_mem_cons.2 ⟨values_mono h b, valuesAll_mono h rest⟩⟩
    intro v
    simp only [mem_values_sum]
    rintro ⟨i, w, e, he, hw, rfl⟩
    exact ⟨i, w, e, he, hall e (List.mem_of_getElem? he) hw, rfl⟩
  | .product a b rest => by
    have hall : ∀ e ∈ a :: b :: rest, e.values ρ ⊆ e.values ρ' :=
      List.forall_mem_cons.2 ⟨values_mono h a,
        List.forall_mem_cons.2 ⟨values_mono h b, valuesAll_mono h rest⟩⟩
    intro v
    simp only [mem_values_product]
    rintro ⟨vs, hvs, rfl⟩
    exact ⟨vs, ((List.forall₂_and_left _ _).2 ⟨hall, hvs⟩).imp fun _ _ hw => hw.1 hw.2, rfl⟩
  | .recursive _ ctors => by
    simp only [values]
    exact fun v hv X hX => hv X (le_trans (valuesCtors_mono (.cons le_rfl h) ctors) hX)
  | .named _ body => values_mono h body

theorem valuesAll_mono {ρ ρ' : List (Set (Value α))} (h : List.Forall₂ (· ⊆ ·) ρ ρ') :
    (es : List Expr) → ∀ e ∈ es, e.values ρ ⊆ e.values ρ'
  | [] => by simp
  | e :: es => List.forall_mem_cons.2 ⟨values_mono h e, valuesAll_mono h es⟩

theorem valuesCtors_mono {ρ ρ' : List (Set (Value α))} (h : List.Forall₂ (· ⊆ ·) ρ ρ') :
    (ctors : List (Ctor Expr)) → valuesCtors ρ ctors ⊆ valuesCtors ρ' ctors
  | [] => le_rfl
  | ⟨_, e⟩ :: ctors => by
    simp only [valuesCtors]
    refine Set.union_subset_union ?_ (valuesCtors_mono h ctors)
    rintro _ ⟨w, hw, rfl⟩
    exact ⟨w, values_mono h e hw, rfl⟩
end

/-- **The values of a recursive type are those its constructors make of them.** -/
theorem values_recursive (ρ : List (Set (Value α))) (name : String) (ctors : List (Ctor Expr)) :
    (Expr.recursive name ctors).values ρ =
      valuesCtors ((Expr.recursive name ctors).values ρ :: ρ) ctors := by
  have hrefl : List.Forall₂ (· ⊆ ·) ρ ρ := List.forall₂_same.2 fun _ _ => le_rfl
  -- the least set contains what the constructors make of it
  have hclosed : valuesCtors ((Expr.recursive name ctors).values ρ :: ρ) ctors ⊆
      (Expr.recursive name ctors).values ρ := by
    intro v hv
    simp only [values]
    intro X hX
    have hleast : (Expr.recursive name ctors).values ρ ⊆ X := by
      simp only [values]
      exact fun w hw => hw X hX
    exact hX (valuesCtors_mono (.cons hleast hrefl) ctors hv)
  refine Set.Subset.antisymm (fun v hv => ?_) hclosed
  rw [values] at hv
  exact hv _ (valuesCtors_mono (.cons hclosed hrefl) ctors)

end Expr

/-! ## Values of Reason types -/

namespace Reason

mutual
/-- The type with the parameters replaced by the arguments. -/
def Ty.subst (params : List String) (args : List Ty) : Ty → Ty
  | .var name => ((params.zip args).lookup name).getD (.var name)
  | .tuple items => .tuple (Ty.substAll params args items)
  | .app name items => .app name (Ty.substAll params args items)
  | t => t

/-- Each of the types with the parameters replaced by the arguments. -/
def Ty.substAll (params : List String) (args : List Ty) : List Ty → List Ty
  | [] => []
  | t :: ts => Ty.subst params args t :: Ty.substAll params args ts
end

theorem Ty.lookup_var (params : List String) (name : String) :
    ((params.zip (params.map .var)).lookup name).getD (.var name) = Ty.var name := by
  induction params with
  | nil => rfl
  | cons p params ih =>
    rw [List.map_cons, List.zip_cons_cons, List.lookup_cons]
    split
    next h => rw [Option.getD_some, beq_iff_eq.1 h]
    next => exact ih

mutual
theorem Ty.subst_self (params : List String) : (t : Ty) → t.subst params (params.map .var) = t
  | .unit => rfl
  | .foreign _ => rfl
  | .var name => lookup_var params name
  | .tuple ts => by rw [subst, substAll_self params ts]
  | .app name ts => by rw [subst, substAll_self params ts]

theorem Ty.substAll_self (params : List String) :
    (ts : List Ty) → Ty.substAll params (params.map .var) ts = ts
  | [] => rfl
  | t :: ts => by rw [substAll, subst_self params t, substAll_self params ts]
end

/-- The declaration of a type. -/
def declared (decls : List Decl) (name : String) : Option Decl :=
  decls.find? fun d => d.ident == typeIdent name

/-- `Holds decls atoms t v`: `v` is a value of the type `t` under the declarations, when each type
parameter has the given atoms. -/
inductive Holds (decls : List Decl) (atoms : String → Set α) : Ty → Value α → Prop
  | unit : Holds decls atoms .unit .unit
  | tuple {ts vs} (h : List.Forall₂ (Holds decls atoms) ts vs) :
    Holds decls atoms (.tuple ts) (.tuple vs)
  | var {name a} (h : a ∈ atoms name) : Holds decls atoms (.var name) (.atom a)
  | variant {name args head ctors ctor v} (hd : declared decls name = some (.variant head ctors))
    (hc : ctor ∈ ctors) (h : Holds decls atoms (ctor.payload.subst head.params args) v) :
    Holds decls atoms (.app name args) (.construct ctor.name v)
  | synonym {name args head body v} (hd : declared decls name = some (.synonym head body))
    (h : Holds decls atoms (body.subst head.params args) v) : Holds decls atoms (.app name args) v

end Reason

/-! ## Alternatives -/

namespace Value

/-- The value inside a number of right choices. -/
def rights : Nat → Value α → Value α
  | 0, v => v
  | n + 1, v => .construct "Right" (rights n v)

/-- A value of the alternative at an index, where `last` is the greatest index: all choices up to it
go right, and the one at it goes left, unless it is the last. -/
def alternative (last index : Nat) (v : Value α) : Value α :=
  rights index (if index < last then .construct "Left" v else v)

@[simp] theorem alternative_zero (last : Nat) (v : Value α) :
    alternative (last + 1) 0 v = .construct "Left" v := by
  simp [alternative, rights]

@[simp] theorem alternative_succ (last i : Nat) (v : Value α) :
    alternative (last + 1) (i + 1) v = .construct "Right" (alternative last i v) := by
  simp [alternative, rights]

theorem alternative_inj {last i j : Nat} {v w : Value α} (hi : i ≤ last) (hj : j ≤ last)
    (h : alternative last i v = alternative last j w) : i = j ∧ v = w := by
  induction last generalizing i j with
  | zero =>
    obtain rfl : i = 0 := Nat.le_zero.1 hi
    obtain rfl : j = 0 := Nat.le_zero.1 hj
    exact ⟨rfl, h⟩
  | succ last ih =>
    cases i with
    | zero =>
      cases j with
      | zero => simpa using h
      | succ j => simp at h
    | succ i =>
      cases j with
      | zero => simp at h
      | succ j =>
        simp only [alternative_succ, construct.injEq, true_and] at h
        obtain ⟨rfl, rfl⟩ := ih (Nat.le_of_succ_le_succ hi) (Nat.le_of_succ_le_succ hj) h
        exact ⟨rfl, rfl⟩

theorem sizeOf_lt_inject (i : Nat) (v : Value α) : sizeOf v < sizeOf (inject i v) := by
  simp only [inject.sizeOf_spec]
  omega

theorem sizeOf_lt_construct (ctor : String) (v : Value α) : sizeOf v < sizeOf (construct ctor v) := by
  simp only [construct.sizeOf_spec]
  omega

theorem sizeOf_lt_tuple {v : Value α} {vs : List (Value α)} (h : v ∈ vs) :
    sizeOf v < sizeOf (tuple vs) := by
  have hlt := List.sizeOf_lt_of_mem h
  simp only [tuple.sizeOf_spec]
  omega

theorem sizeOf_le_rights (n : Nat) (v : Value α) : sizeOf v + n ≤ sizeOf (rights n v) := by
  induction n with
  | zero => exact Nat.le_refl _
  | succ n ih =>
    simp only [rights, construct.sizeOf_spec]
    omega

theorem sizeOf_lt_alternative {last : Nat} (h : 0 < last) (i : Nat) (v : Value α) :
    sizeOf v < sizeOf (alternative last i v) := by
  rw [alternative]
  split
  next =>
    have hle := sizeOf_le_rights i (construct "Left" v)
    simp only [construct.sizeOf_spec] at hle
    omega
  next =>
    have hle := sizeOf_le_rights i v
    omega

/-- Induction on the size of a value. -/
theorem bySize {P : Value α → Prop} (step : ∀ v, (∀ w, sizeOf w < sizeOf v → P w) → P v)
    (v : Value α) : P v :=
  (measure sizeOf).wf.induction v step

end Value

namespace Reason.Holds

variable {decls : List Decl} {atoms : String → Set α} {v : Value α}

theorem unit_iff : Holds decls atoms .unit v ↔ v = .unit := by
  constructor
  · rintro ⟨⟩
    rfl
  · rintro rfl
    exact .unit

theorem tuple_iff {ts : List Ty} :
    Holds decls atoms (.tuple ts) v ↔ ∃ vs, List.Forall₂ (Holds decls atoms) ts vs ∧ v = .tuple vs := by
  constructor
  · rintro ⟨⟩
    next h => exact ⟨_, h, rfl⟩
  · rintro ⟨vs, h, rfl⟩
    exact .tuple h

theorem var_iff {name : String} :
    Holds decls atoms (.var name) v ↔ ∃ a ∈ atoms name, v = .atom a := by
  constructor
  · rintro ⟨⟩
    next h => exact ⟨_, h, rfl⟩
  · rintro ⟨a, h, rfl⟩
    exact .var h

theorem app_variant_iff {name : String} {args : List Ty} {head : Head} {ctors : List (Ctor Ty)}
    (hd : declared decls name = some (.variant head ctors)) :
    Holds decls atoms (.app name args) v ↔
      ∃ ctor ∈ ctors, ∃ w, Holds decls atoms (ctor.payload.subst head.params args) w ∧
        v = .construct ctor.name w := by
  constructor
  · intro h
    cases h with
    | variant hd' hc h =>
      obtain ⟨rfl, rfl⟩ : _ = head ∧ _ = ctors := by simpa [hd'] using hd
      exact ⟨_, hc, _, h, rfl⟩
    | synonym hd' h => simp [hd'] at hd
  · rintro ⟨ctor, hc, w, h, rfl⟩
    exact .variant hd hc h

theorem app_synonym_iff {name : String} {args : List Ty} {head : Head} {body : Ty}
    (hd : declared decls name = some (.synonym head body)) :
    Holds decls atoms (.app name args) v ↔ Holds decls atoms (body.subst head.params args) v := by
  constructor
  · intro h
    cases h with
    | variant hd' hc h => simp [hd'] at hd
    | synonym hd' h =>
      obtain ⟨rfl, rfl⟩ : _ = head ∧ _ = body := by simpa [hd'] using hd
      exact h
  · exact .synonym hd

theorem not_void (hd : declared decls voidDecl.name = some voidDecl) :
    ¬ Holds decls atoms (.app voidDecl.name []) v := by
  rw [app_variant_iff hd]
  simp

theorem either_iff (hd : declared decls eitherDecl.name = some eitherDecl) {t u : Ty} :
    Holds decls atoms (.app eitherDecl.name [t, u]) v ↔
      (∃ w, Holds decls atoms t w ∧ v = .construct "Left" w) ∨
        ∃ w, Holds decls atoms u w ∧ v = .construct "Right" w := by
  have ht : (Ty.var "a").subst ["a", "b"] [t, u] = t := rfl
  have hu : (Ty.var "b").subst ["a", "b"] [t, u] = u := rfl
  rw [app_variant_iff hd]
  simp only [List.mem_cons, List.not_mem_nil, or_false, exists_eq_or_imp, exists_eq_left, ht, hu]

/-- **A choice has the values of its alternatives.** -/
theorem choice_iff (hd : declared decls eitherDecl.name = some eitherDecl) {t : Ty} {ts : List Ty} :
    Holds decls atoms (choice t ts) v ↔
      ∃ i u w, (t :: ts)[i]? = some u ∧ Holds decls atoms u w ∧ v = w.alternative ts.length i := by
  induction ts generalizing t v with
  | nil =>
    constructor
    · exact fun h => ⟨0, t, v, rfl, h, rfl⟩
    · rintro ⟨i, u, w, hi, h, rfl⟩
      cases i with
      | zero =>
        cases hi
        exact h
      | succ i => simp at hi
  | cons t' ts ih =>
    rw [choice, either_iff hd]
    constructor
    · rintro (⟨w, h, rfl⟩ | ⟨w, h, rfl⟩)
      · exact ⟨0, t, w, rfl, h, by simp⟩
      · obtain ⟨i, u, w, hi, hw, rfl⟩ := ih.1 h
        exact ⟨i + 1, u, w, hi, hw, by simp⟩
    · rintro ⟨i, u, w, hi, h, rfl⟩
      cases i with
      | zero =>
        cases hi
        exact .inl ⟨w, h, by simp⟩
      | succ i => exact .inr ⟨_, ih.2 ⟨i, u, w, hi, h, rfl⟩, by simp⟩

end Reason.Holds

/-! ## From the one to the other -/

/-- A type bound around an expression: a parameter, or a recursive type and what is bound around
that. -/
inductive Closure
  | param (name : String)
  | type (around : List Closure) (name : String) (ctors : List (Ctor Expr))

namespace Expr

/-- The type that a name or a mention of a recursive type stands for, with what is bound around
it. -/
def resolve (around : List Closure) : Expr → List Closure × Expr
  | .named _ body => resolve around body
  | .var index =>
    match around[index]? with
    | some (.type outer name ctors) => (outer, .recursive name ctors)
    | _ => (around, .var index)
  | e => (around, e)

mutual
/-- The value of the Reason type of `e` that stands for a value of `e`. -/
def encode (around : List Closure) (e : Expr) : Value α → Value α
  | .inject index v =>
    match e.resolve around with
    | (around, .sum first second rest) =>
      match (first :: second :: rest)[index]? with
      | some item => (encode around item v).alternative (rest.length + 1) index
      | none => .inject index v
    | _ => .inject index v
  | .tuple vs =>
    match e.resolve around with
    | (around, .product first second rest) => .tuple (encodeAll around (first :: second :: rest) vs)
    | _ => .tuple vs
  | .construct ctor v =>
    match e.resolve around with
    | (around, .recursive name ctors) =>
      match ctors.find? (·.name == ctor) with
      | some ⟨_, payload⟩ => .construct ctor (encode (.type around name ctors :: around) payload v)
      | none => .construct ctor v
    | _ => .construct ctor v
  | v => v

/-- See `encode`, for the items of a tuple. -/
def encodeAll (around : List Closure) : List Expr → List (Value α) → List (Value α)
  | e :: es, v :: vs => encode around e v :: encodeAll around es vs
  | _, _ => []
end

end Expr

end TypeDesc
