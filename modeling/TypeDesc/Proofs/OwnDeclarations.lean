/-
The declarations of all types in an expression. A walk passes over a type when
its identifier has been met before, so what it finds has to speak for the types
it passed over. `Expr.ownDecls` has the declaration of every one of them, each as
it is where the type occurs; the declarations of a walk are generated or among
these (`Gathers.origin`). If types of one identifier give the same declaration,
the one that is found for a type is therefore the same as its own
(`Library.declared_own`).
-/
import TypeDesc.Proofs.Inhabitants

namespace TypeDesc

open Reason (Ty Decl declared voidDecl eitherDecl)

/-! ## Own declarations -/

namespace Expr

mutual
/-- The declarations of all recursive and named types in an expression, each as it is where the type
occurs. -/
def ownDecls (env : Env) : Expr → Except Fault (List Decl)
  | .sum first second rest => do
    let ds ← ownDecls env first
    let es ← ownDecls env second
    let fs ← ownDeclsAll env rest
    .ok (ds ++ (es ++ fs))
  | .product first second rest => do
    let ds ← ownDecls env first
    let es ← ownDecls env second
    let fs ← ownDeclsAll env rest
    .ok (ds ++ (es ++ fs))
  | .recursive name ctors => do
    let params ← Expr.params env (.recursive name ctors)
    let inner := .enclosing ⟨name, params⟩ :: env
    let variants ← toReasonCtors inner ctors
    let ds ← ownDeclsCtors inner ctors
    .ok (.variant ⟨name, params⟩ variants :: ds)
  | .named name body => do
    let params ← Expr.params env (.named name body)
    let t ← toReason env body
    let ds ← ownDecls env body
    .ok (.synonym ⟨name, params⟩ t :: ds)
  | .foreign value => .error (.notExpression value)
  | _ => .ok []

/-- The declarations of all types in the expressions. -/
def ownDeclsAll (env : Env) : List Expr → Except Fault (List Decl)
  | [] => .ok []
  | e :: es => do
    let ds ← ownDecls env e
    let fs ← ownDeclsAll env es
    .ok (ds ++ fs)

/-- The declarations of all types in the payloads of constructors. -/
def ownDeclsCtors (env : Env) : List (Ctor Expr) → Except Fault (List Decl)
  | [] => .ok []
  | ⟨_, e⟩ :: ctors => do
    let ds ← ownDecls env e
    let fs ← ownDeclsCtors env ctors
    .ok (ds ++ fs)
end

/-- The types in `e` have declarations, and `P` holds of each. -/
def OwnAll (P : Decl → Prop) (env : Env) (e : Expr) : Prop :=
  ∃ ds, e.ownDecls env = .ok ds ∧ ∀ d ∈ ds, P d

section

variable {P : Decl → Prop} {env : Env}

theorem ownDeclsAll_iff {es : List Expr} :
    (∃ ds, ownDeclsAll env es = .ok ds ∧ ∀ d ∈ ds, P d) ↔ ∀ e ∈ es, e.OwnAll P env := by
  induction es with
  | nil => simp [ownDeclsAll]
  | cons e es ih =>
    rw [List.forall_mem_cons, ← ih]
    simp only [ownDeclsAll, bind_eq_ok, Except.ok.injEq]
    constructor
    · rintro ⟨_, ⟨ds, hd, fs, hf, rfl⟩, hP⟩
      rw [List.forall_mem_append] at hP
      exact ⟨⟨ds, hd, hP.1⟩, fs, hf, hP.2⟩
    · rintro ⟨⟨ds, hd, hP⟩, fs, hf, hP'⟩
      exact ⟨_, ⟨ds, hd, fs, hf, rfl⟩, List.forall_mem_append.2 ⟨hP, hP'⟩⟩

theorem ownDeclsCtors_iff {ctors : List (Ctor Expr)} :
    (∃ ds, ownDeclsCtors env ctors = .ok ds ∧ ∀ d ∈ ds, P d) ↔
      ∀ ctor ∈ ctors, ctor.payload.OwnAll P env := by
  have hpayloads : ∀ ctors, ownDeclsCtors env ctors = ownDeclsAll env (ctors.map (·.payload)) := by
    intro ctors
    induction ctors with
    | nil => rfl
    | cons ctor ctors ih => rw [ownDeclsCtors, ih, List.map_cons, ownDeclsAll]
  rw [hpayloads, ownDeclsAll_iff, List.forall_mem_map]

theorem ownAll_sum {a b : Expr} {rest : List Expr} :
    (Expr.sum a b rest).OwnAll P env ↔ ∀ e ∈ a :: b :: rest, e.OwnAll P env := by
  have hall : (Expr.sum a b rest).ownDecls env = ownDeclsAll env (a :: b :: rest) := by
    simp only [ownDecls, ownDeclsAll, bind_assoc, ok_bind]
  rw [OwnAll, hall, ownDeclsAll_iff]

theorem ownAll_product {a b : Expr} {rest : List Expr} :
    (Expr.product a b rest).OwnAll P env ↔ ∀ e ∈ a :: b :: rest, e.OwnAll P env := by
  have hall : (Expr.product a b rest).ownDecls env = ownDeclsAll env (a :: b :: rest) := by
    simp only [ownDecls, ownDeclsAll, bind_assoc, ok_bind]
  rw [OwnAll, hall, ownDeclsAll_iff]

theorem ownAll_recursive {name : String} {ctors : List (Ctor Expr)} :
    (Expr.recursive name ctors).OwnAll P env ↔
      ∃ params variants, Expr.params env (.recursive name ctors) = .ok params ∧
        toReasonCtors (.enclosing ⟨name, params⟩ :: env) ctors = .ok variants ∧
        P (.variant ⟨name, params⟩ variants) ∧
        ∀ ctor ∈ ctors, ctor.payload.OwnAll P (.enclosing ⟨name, params⟩ :: env) := by
  simp only [OwnAll, ownDecls, bind_eq_ok, Except.ok.injEq]
  constructor
  · rintro ⟨_, ⟨params, hp, variants, hv, ds, hd, rfl⟩, hP⟩
    rw [List.forall_mem_cons] at hP
    exact ⟨params, variants, hp, hv, hP.1, ownDeclsCtors_iff.1 ⟨ds, hd, hP.2⟩⟩
  · rintro ⟨params, variants, hp, hv, hP, hctors⟩
    obtain ⟨ds, hd, hds⟩ := ownDeclsCtors_iff.2 hctors
    exact ⟨_, ⟨params, hp, variants, hv, ds, hd, rfl⟩, List.forall_mem_cons.2 ⟨hP, hds⟩⟩

theorem ownAll_named {name : String} {body : Expr} :
    (Expr.named name body).OwnAll P env ↔
      ∃ params t, Expr.params env (.named name body) = .ok params ∧ body.toReason env = .ok t ∧
        P (.synonym ⟨name, params⟩ t) ∧ body.OwnAll P env := by
  simp only [OwnAll, ownDecls, bind_eq_ok, Except.ok.injEq]
  constructor
  · rintro ⟨_, ⟨params, hp, t, ht, ds, hd, rfl⟩, hP⟩
    rw [List.forall_mem_cons] at hP
    exact ⟨params, t, hp, ht, hP.1, ds, hd, hP.2⟩
  · rintro ⟨params, t, hp, ht, hP, ds, hd, hds⟩
    exact ⟨_, ⟨params, hp, t, ht, ds, hd, rfl⟩, List.forall_mem_cons.2 ⟨hP, hds⟩⟩

end

/-- The types in a well-formed expression have declarations, none of a generated identifier. -/
theorem WellFormed.ownAll {scope : List String} {e : Expr} {env : Env} (h : e.WellFormed scope)
    (hl : env.length = scope.length) : e.OwnAll (fun d => d.ident ∉ Reason.generatedIdents) env := by
  induction h generalizing env with
  | void | unit | var => exact ⟨[], rfl, by simp⟩
  | sum _ _ _ iha ihb ihs =>
    exact ownAll_sum.2 (List.forall_mem_cons.2 ⟨iha hl,
      List.forall_mem_cons.2 ⟨ihb hl, fun e he => ihs e he hl⟩⟩)
  | product _ _ _ iha ihb ihs =>
    exact ownAll_product.2 (List.forall_mem_cons.2 ⟨iha hl,
      List.forall_mem_cons.2 ⟨ihb hl, fun e he => ihs e he hl⟩⟩)
  | @recursive scope name ctors hn hd hc hs ih =>
    obtain ⟨params, hp⟩ := (WellFormed.recursive hn hd hc hs).params_ok hl
    have hl' : (Binding.enclosing ⟨name, params⟩ :: env).length = (name :: scope).length := by
      simp [hl]
    obtain ⟨variants, hv⟩ := WellFormed.toReasonCtors_ok hs hl'
    exact ownAll_recursive.2 ⟨params, variants, hp, hv, hn.notGenerated, fun ctor hm => ih ctor hm hl'⟩
  | named hn hb ih =>
    obtain ⟨params, hp⟩ := (WellFormed.named hn hb).params_ok hl
    obtain ⟨t, ht⟩ := hb.toReason_ok hl
    exact ownAll_named.2 ⟨params, t, hp, ht, hn.notGenerated, ih hl⟩

end Expr

/-- **Every declaration of a walk is generated or that of a type in the expressions.** -/
theorem Gathers.origin {env : Env} {es : List Expr} {c c' : Collected} {ds own : List Decl}
    (h : Gathers env es c ds c') (ho : ∀ e ∈ es, e.OwnAll (· ∈ own) env) :
    ∀ d ∈ ds, d ∈ own ∨ d = voidDecl ∨ d = eitherDecl := by
  induction h with
  | nil | unit | var | known => simp
  | append _ _ ih ih' =>
    rw [List.forall_mem_append] at ho ⊢
    exact ⟨ih ho.1, ih' ho.2⟩
  | void => exact fun d hd => .inr (.inl (Collected.mem_of_addGenerated hd))
  | sum _ ih =>
    rw [List.forall_mem_append]
    refine ⟨ih (Expr.ownAll_sum.1 (ho _ (List.mem_singleton_self _))), fun d hd => ?_⟩
    exact .inr (.inr (Collected.mem_of_addGenerated hd))
  | product _ ih => exact ih (Expr.ownAll_product.1 (ho _ (List.mem_singleton_self _)))
  | recursive _ hp hv _ ih =>
    obtain ⟨params, variants, hp', hv', hmem, hctors⟩ :=
      Expr.ownAll_recursive.1 (ho _ (List.mem_singleton_self _))
    obtain rfl : _ = params := Except.ok.inj (hp.symm.trans hp')
    obtain rfl : _ = variants := Except.ok.inj (hv.symm.trans hv')
    exact List.forall_mem_cons.2 ⟨.inl hmem, ih (List.forall_mem_map.2 hctors)⟩
  | named _ hp ht _ ih =>
    obtain ⟨params, t, hp', ht', hmem, hbody⟩ :=
      Expr.ownAll_named.1 (ho _ (List.mem_singleton_self _))
    obtain rfl : _ = params := Except.ok.inj (hp.symm.trans hp')
    obtain rfl : _ = t := Except.ok.inj (ht.symm.trans ht')
    exact List.forall_mem_cons.2 ⟨.inl hmem, ih (by simpa using hbody)⟩

/-! ## Declarations that speak for every type -/

/-- The declarations are of the same kind, with the same parameters and body. -/
def Reason.Decl.Same : Decl → Decl → Prop
  | .synonym head body, .synonym head' body' => head.params = head'.params ∧ body = body'
  | .variant head ctors, .variant head' ctors' => head.params = head'.params ∧ ctors = ctors'
  | _, _ => False

instance : DecidableRel Decl.Same
  | .synonym _ _, .synonym _ _ => inferInstanceAs (Decidable (_ ∧ _))
  | .variant _ _, .variant _ _ => inferInstanceAs (Decidable (_ ∧ _))
  | .synonym _ _, .variant _ _ => inferInstanceAs (Decidable False)
  | .variant _ _, .synonym _ _ => inferInstanceAs (Decidable False)

/-- Declarations of one identifier are the same. -/
def Agree (own : List Decl) : Prop :=
  ∀ d ∈ own, ∀ d' ∈ own, d.ident = d'.ident → d.Same d'

instance (own : List Decl) : Decidable (Agree own) :=
  inferInstanceAs (Decidable (∀ d ∈ own, ∀ d' ∈ own, d.ident = d'.ident → d.Same d'))

/-- The declarations `decls` speak for the types whose declarations are `own`: what they mention is
declared, and each is generated or one of `own`. -/
structure Library (decls own : List Decl) : Prop where
  mentions : ∀ d ∈ decls, ∀ name ∈ d.mentions, typeIdent name ∈ decls.map (·.ident)
  origin : ∀ d ∈ decls, d ∈ own ∨ d = voidDecl ∨ d = eitherDecl
  agree : Agree own
  notGenerated : ∀ d ∈ own, d.ident ∉ Reason.generatedIdents

theorem exists_declared {decls : List Decl} {name : String}
    (h : typeIdent name ∈ decls.map (·.ident)) :
    ∃ d ∈ decls, d.ident = typeIdent name ∧ declared decls name = some d := by
  obtain ⟨d, hm, hd⟩ := List.mem_map.1 h
  cases hf : declared decls name with
  | none => exact absurd hd (by simpa using List.find?_eq_none.1 hf d hm)
  | some d' => exact ⟨d', List.mem_of_find?_eq_some hf, by simpa using List.find?_some hf, rfl⟩

theorem generated_ident {g : Decl} (hg : g = voidDecl ∨ g = eitherDecl) :
    g.ident ∈ Reason.generatedIdents := by
  rcases hg with rfl | rfl <;> decide +kernel

theorem generated_ext {g g' : Decl} (hg : g = voidDecl ∨ g = eitherDecl)
    (hg' : g' = voidDecl ∨ g' = eitherDecl) (h : g.ident = g'.ident) : g = g' := by
  have hne : voidDecl.ident ≠ eitherDecl.ident := by decide +kernel
  rcases hg with rfl | rfl <;> rcases hg' with rfl | rfl
  · rfl
  · exact absurd h hne
  · exact absurd h.symm hne
  · rfl

namespace Library

variable {decls own : List Decl}

theorem declared_generated (h : Library decls own) {g : Decl} (hg : g = voidDecl ∨ g = eitherDecl)
    (hm : typeIdent g.name ∈ decls.map (·.ident)) : declared decls g.name = some g := by
  obtain ⟨d, hd, hident, hf⟩ := exists_declared hm
  rcases h.origin d hd with ho | hd
  · exact absurd (hident ▸ generated_ident hg) (h.notGenerated d ho)
  · rwa [generated_ext hd hg hident] at hf

/-- The declaration that is found for a type is the same as its own. -/
theorem declared_own (h : Library decls own) {d : Decl} (ho : d ∈ own)
    (hm : typeIdent d.name ∈ decls.map (·.ident)) :
    ∃ d' ∈ decls, declared decls d.name = some d' ∧ d'.Same d := by
  obtain ⟨d', hd, hident, hf⟩ := exists_declared hm
  have hsame : d'.ident = d.ident := hident
  refine ⟨d', hd, hf, ?_⟩
  rcases h.origin d' hd with ho' | hd
  · exact h.agree d' ho' d ho hsame
  · exact absurd (hsame ▸ generated_ident hd) (h.notGenerated d ho)

theorem declared_variant (h : Library decls own) {head : Head} {ctors : List (Ctor Ty)}
    (ho : .variant head ctors ∈ own) (hm : typeIdent head.name ∈ decls.map (·.ident)) :
    ∃ found, declared decls head.name = some (.variant ⟨found, head.params⟩ ctors) ∧
      .variant ⟨found, head.params⟩ ctors ∈ decls := by
  obtain ⟨d, hd, hf, hs⟩ := h.declared_own ho hm
  cases d with
  | synonym => exact hs.elim
  | variant found ctors' =>
    obtain ⟨hp, rfl⟩ := hs
    rw [← hp]
    exact ⟨found.name, hf, hd⟩

theorem declared_synonym (h : Library decls own) {head : Head} {body : Ty}
    (ho : .synonym head body ∈ own) (hm : typeIdent head.name ∈ decls.map (·.ident)) :
    ∃ found, declared decls head.name = some (.synonym ⟨found, head.params⟩ body) ∧
      .synonym ⟨found, head.params⟩ body ∈ decls := by
  obtain ⟨d, hd, hf, hs⟩ := h.declared_own ho hm
  cases d with
  | variant => exact hs.elim
  | synonym found body' =>
    obtain ⟨hp, rfl⟩ := hs
    rw [← hp]
    exact ⟨found.name, hf, hd⟩

end Library

end TypeDesc
