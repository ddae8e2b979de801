/-
The places where a description declares types, and the walk that collects their
declarations. The places of a tree are nested as its types are
(`ParseTree.sites`), and each has its environment (`Nest.placed`). What
`Gathers` finds are the declarations, each in the environment of its place, of
the places that a walk through the nest enters (`Gathers.entered`).
-/
import TypeDesc.Proofs.Nesting
import TypeDesc.Proofs.Occurrences
import TypeDesc.Proofs.ParseTree

namespace TypeDesc

open Reason (Decl)

/-! ## Places of a tree -/

namespace Declared

/-- The identifier of a declared type. -/
def ident (x : Declared) : String :=
  typeIdent x.name.text

/-- A declared type without its place. -/
def plain (x : Declared) : String × Expr :=
  (x.name.text, x.type)

end Declared

/-- The types that a tree declares where the names `scope` are bound, each with those inside it. -/
def ParseTree.sites : {k : Nonterminal} → ParseTree k → List String → Nest Declared
  | _, .void, _ => .nil
  | _, .unit, _ => .nil
  | _, .mention _, _ => .nil
  | _, .parens inner, scope => inner.sites scope
  | _, .recursive name ctors, scope =>
    .cons ⟨name, .recursive name.text (ctors.meaning (name.text :: scope))⟩
      (ctors.sites (name.text :: scope)) .nil
  | _, .named name body, scope =>
    .cons ⟨name, .named name.text (body.meaning scope)⟩ (body.sites scope) .nil
  | _, .noStars, _ => .nil
  | _, .star next more, scope => (next.sites scope).append (more.sites scope)
  | _, .product first more, scope => (first.sites scope).append (more.sites scope)
  | _, .noPluses, _ => .nil
  | _, .plus next more, scope => (next.sites scope).append (more.sites scope)
  | _, .sum first more, scope => (first.sites scope).append (more.sites scope)
  | _, .bareCtor _, _ => .nil
  | _, .ctor _ payload, scope => payload.sites scope
  | _, .noCtors, _ => .nil
  | _, .lastCtor last, scope => last.sites scope
  | _, .moreCtors first more, scope => (first.sites scope).append (more.sites scope)

/-- The types that a description declares. -/
def SourceTree.sites (t : SourceTree) : Nest Declared :=
  t.body.sites t.paramNames

/-! ## Places of an expression -/

namespace Expr

mutual
/-- The types in an expression with their names, each with those inside it. -/
def nest : Expr → Nest (String × Expr)
  | .sum first second rest => first.nest.append (second.nest.append (nestAll rest))
  | .product first second rest => first.nest.append (second.nest.append (nestAll rest))
  | .recursive name ctors => .cons (name, .recursive name ctors) (nestCtors ctors) .nil
  | .named name body => .cons (name, .named name body) body.nest .nil
  | _ => .nil

/-- The types in expressions. -/
def nestAll : List Expr → Nest (String × Expr)
  | [] => .nil
  | e :: es => e.nest.append (nestAll es)

/-- The types in the payloads of constructors. -/
def nestCtors : List (Ctor Expr) → Nest (String × Expr)
  | [] => .nil
  | ⟨_, e⟩ :: ctors => e.nest.append (nestCtors ctors)
end

theorem nestAll_append (es es' : List Expr) : nestAll (es ++ es') = (nestAll es).append (nestAll es') := by
  induction es with
  | nil => rfl
  | cons e es ih => rw [List.cons_append, nestAll, nestAll, ih, Nest.append_assoc]

@[simp] theorem nestAll_singleton (e : Expr) : nestAll [e] = e.nest := by
  rw [nestAll, nestAll, Nest.append_nil]

/-- What has a name is a single type. -/
theorem nest_of_name {e : Expr} {name : String} (h : e.name? = some name) :
    ∃ inner, e.nest = .cons (name, e) inner .nil := by
  cases e <;> cases h <;> exact ⟨_, rfl⟩

theorem nestCtors_eq (ctors : List (Ctor Expr)) : nestCtors ctors = nestAll (ctors.map (·.payload)) := by
  induction ctors with
  | nil => rfl
  | cons ctor ctors ih => rw [nestCtors, List.map_cons, nestAll, ih]

theorem nest_sumOf (first : Expr) (rest : List Expr) :
    (sumOf first rest).nest = first.nest.append (nestAll rest) := by
  cases rest <;> simp [sumOf, nest, nestAll]

theorem nest_productOf (first : Expr) (rest : List Expr) :
    (productOf first rest).nest = first.nest.append (nestAll rest) := by
  cases rest <;> simp [productOf, nest, nestAll]

end Expr

/-- The types in what a phrase stands for. -/
def Nonterminal.nestIn : (k : Nonterminal) → k.Meaning → Nest (String × Expr)
  | .factor, e | .product, e | .sum, e => Expr.nest e
  | .stars, es | .pluses, es => Expr.nestAll es
  | .ctor, c => c.payload.nest
  | .ctors, cs => Expr.nestCtors cs

/-- **The places of a tree are those of the expression that it means.** -/
theorem ParseTree.nestIn_meaning {k : Nonterminal} (t : ParseTree k) : ∀ scope : List String,
    k.nestIn (t.meaning scope) = (t.sites scope).map Declared.plain := by
  induction t with
  | void | unit | noStars | noPluses | noCtors | bareCtor name => intro scope; rfl
  | mention word =>
    intro scope
    simp only [meaning, Expr.ofName, Nonterminal.nestIn]
    split <;> rfl
  | parens inner ih => exact ih
  | recursive name ctors ih =>
    intro scope
    have h := ih (name.text :: scope)
    simp only [Nonterminal.nestIn] at h
    simp [meaning, sites, Nonterminal.nestIn, Expr.nest, Nest.map, Declared.plain, h]
  | named name body ih =>
    intro scope
    have h := ih scope
    simp only [Nonterminal.nestIn] at h
    simp [meaning, sites, Nonterminal.nestIn, Expr.nest, Nest.map, Declared.plain, h]
  | star next more ihn ihm | plus next more ihn ihm | product next more ihn ihm
  | sum next more ihn ihm | moreCtors next more ihn ihm =>
    intro scope
    have hn := ihn scope
    have hm := ihm scope
    simp only [Nonterminal.nestIn] at hn hm
    simp [meaning, sites, Nonterminal.nestIn, Expr.nestAll, Expr.nestCtors, Expr.nest_productOf,
      Expr.nest_sumOf, Nest.map_append, hn, hm]
  | ctor name payload ih => exact ih
  | lastCtor last ih =>
    intro scope
    have h := ih scope
    simp only [Nonterminal.nestIn] at h
    simp [meaning, sites, Nonterminal.nestIn, Expr.nestCtors, h]

/-! ## Environments -/

/-- A declared type in its environment. -/
structure Site extends Declared where
  env : Env
deriving DecidableEq, Repr

/-- In its environment, the type at the site has the declaration `decl`. -/
structure Site.Declares (s : Site) (decl : Decl) : Prop where
  type : TypeDesc.Declares s.env s.type decl
  name : decl.name = s.name.text

theorem Site.Declares.ident {s : Site} {decl : Decl} (h : s.Declares decl) : decl.ident = s.ident := by
  rw [Decl.ident, h.name, Declared.ident]

/-- The type at the site has a name of its own and a declaration. -/
structure Site.Declarable (s : Site) : Prop where
  notGenerated : s.ident ∉ Reason.generatedIdents
  declares : ∃ decl, s.Declares decl

theorem Site.Declarable.of_wellFormed {scope : List String} {env : Env} {x : Declared}
    (hw : x.type.WellFormed scope) (hl : env.length = scope.length)
    (hn : x.type.name? = some x.name.text) (hname : IsTypeName x.name.text) :
    Site.Declarable ⟨x, env⟩ := by
  obtain ⟨decl, hdecl, hdname⟩ := hw.declares hl hn
  exact ⟨hname.notGenerated, decl, hdecl, hdname⟩

theorem Site.Declares.idents {sites : List Site} {decls : List Decl}
    (h : List.Forall₂ Site.Declares sites decls) : sites.map (·.ident) = decls.map (·.ident) := by
  induction h with
  | nil => rfl
  | cons hdecl _ ih => rw [List.map_cons, List.map_cons, hdecl.ident, ih]

/-- The environment inside the type `e` of the parameters `params`. -/
def Expr.envInside (e : Expr) (params : List String) (env : Env) : Env :=
  match e with
  | .recursive name _ => .enclosing ⟨name, params⟩ :: env
  | _ => env

namespace Nest

/-- The declared types with their environments, where `env` is the outermost. -/
def placed (env : Env) : Nest Declared → Except Fault (Nest Site)
  | .nil => .ok .nil
  | .cons x inner next => do
    let params ← x.type.params env
    let inner ← inner.placed (x.type.envInside params env)
    let next ← next.placed env
    .ok (.cons ⟨x, env⟩ inner next)

theorem placed_append {env : Env} {n k : Nest Declared} {m : Nest Site} :
    (n.append k).placed env = .ok m ↔
      ∃ m₁ m₂, n.placed env = .ok m₁ ∧ k.placed env = .ok m₂ ∧ m = m₁.append m₂ := by
  induction n generalizing m with
  | nil => simp [append, placed, eq_comm]
  | cons x inner next _ ih =>
    simp only [append, placed, bind_eq_ok, Except.ok.injEq]
    constructor
    · rintro ⟨params, hp, inner', hi, next', hn, rfl⟩
      obtain ⟨m₁, m₂, h₁, h₂, rfl⟩ := ih.1 hn
      exact ⟨_, m₂, ⟨params, hp, inner', hi, m₁, h₁, rfl⟩, h₂, rfl⟩
    · rintro ⟨_, m₂, ⟨params, hp, inner', hi, m₁, h₁, rfl⟩, h₂, rfl⟩
      exact ⟨params, hp, inner', hi, _, ih.2 ⟨m₁, m₂, h₁, h₂, rfl⟩, rfl⟩

theorem placed_single {env : Env} {x : Declared} {inner : Nest Declared} {m : Nest Site} :
    (cons x inner nil).placed env = .ok m ↔
      ∃ params inner', x.type.params env = .ok params ∧
        inner.placed (x.type.envInside params env) = .ok inner' ∧ m = .cons ⟨x, env⟩ inner' .nil := by
  simp only [placed, bind_eq_ok, Except.ok.injEq]
  constructor
  · rintro ⟨params, hp, inner', hi, next', rfl, rfl⟩
    exact ⟨params, inner', hp, hi, rfl⟩
  · rintro ⟨params, inner', hp, hi, rfl⟩
    exact ⟨params, hp, inner', hi, _, rfl, rfl⟩

theorem map_toDeclared {env : Env} {n : Nest Declared} {m : Nest Site} (h : n.placed env = .ok m) :
    m.map (·.toDeclared) = n := by
  induction n generalizing env m with
  | nil =>
    cases h
    rfl
  | cons x inner next ihi ihn =>
    simp only [placed, bind_eq_ok, Except.ok.injEq] at h
    obtain ⟨params, -, inner', hi, next', hn, rfl⟩ := h
    rw [map, ihi hi, ihn hn]

/-- What is a single type without its place is a single type. -/
theorem plain_eq_single {n : Nest Declared} {name : String} {e : Expr} {m : Nest (String × Expr)}
    (h : n.map Declared.plain = .cons (name, e) m .nil) :
    ∃ word inner, n = .cons ⟨word, e⟩ inner .nil ∧ word.text = name ∧ inner.map Declared.plain = m := by
  obtain ⟨⟨word, type⟩, inner, rfl, hx, hinner⟩ := map_eq_single h
  obtain ⟨hname, rfl⟩ := Prod.mk.inj hx
  exact ⟨word, inner, rfl, hname, hinner⟩

/-- The types can be placed, and then each of them can be declared. -/
def Settled (n : Nest Declared) (env : Env) : Prop :=
  ∃ m, n.placed env = .ok m ∧ ∀ s ∈ m.opened, s.Declarable

theorem Settled.nil (env : Env) : Settled .nil env :=
  ⟨.nil, rfl, by simp [opened]⟩

theorem Settled.append {n k : Nest Declared} {env : Env} (hn : n.Settled env) (hk : k.Settled env) :
    (n.append k).Settled env := by
  obtain ⟨m, hm, hdecl⟩ := hn
  obtain ⟨m', hm', hdecl'⟩ := hk
  refine ⟨m.append m', placed_append.2 ⟨m, m', hm, hm', rfl⟩, ?_⟩
  rw [opened_append]
  exact List.forall_mem_append.2 ⟨hdecl, hdecl'⟩

theorem Settled.single {x : Declared} {inner : Nest Declared} {env : Env} {params : List String}
    (hp : x.type.params env = .ok params) (hi : inner.Settled (x.type.envInside params env))
    (hx : Site.Declarable ⟨x, env⟩) : (cons x inner .nil).Settled env := by
  obtain ⟨m, hm, hall⟩ := hi
  refine ⟨_, placed_single.2 ⟨params, m, hp, hm, rfl⟩, ?_⟩
  rw [opened_single, List.forall_mem_cons]
  exact ⟨hx, hall⟩

theorem settled_all {es : List Expr} {env : Env}
    (h : ∀ e ∈ es, ∀ n : Nest Declared, n.map Declared.plain = e.nest → n.Settled env) :
    ∀ n : Nest Declared, n.map Declared.plain = Expr.nestAll es → n.Settled env := by
  induction es with
  | nil =>
    intro n hn
    rw [map_eq_nil hn]
    exact .nil env
  | cons e es ih =>
    intro n hn
    rw [List.forall_mem_cons] at h
    rw [Expr.nestAll] at hn
    obtain ⟨k, k', rfl, hk, hk'⟩ := map_eq_append hn
    exact (h.1 k hk).append (ih h.2 k' hk')

end Nest

/-- **The types of a well-formed expression can be placed**, and each has a declaration in its
place. -/
theorem Expr.WellFormed.settled {scope : List String} {e : Expr} (hw : e.WellFormed scope) :
    ∀ {env : Env}, env.length = scope.length → ∀ n : Nest Declared, n.map Declared.plain = e.nest →
      n.Settled env := by
  induction hw with
  | void | unit | var =>
    intro env _ n hn
    rw [Nest.map_eq_nil hn]
    exact .nil env
  | @sum _ a b rest _ _ _ iha ihb ihs | @product _ a b rest _ _ _ iha ihb ihs =>
    intro env hl n hn
    have hall : ∀ e ∈ a :: b :: rest, ∀ n : Nest Declared, n.map Declared.plain = e.nest →
        n.Settled env :=
      List.forall_mem_cons.2 ⟨iha hl, List.forall_mem_cons.2 ⟨ihb hl, fun e he => ihs e he hl⟩⟩
    exact Nest.settled_all hall n hn
  | @recursive scope name ctors hname hd hc hs ih =>
    intro env hl n hn
    have hw : (Expr.recursive name ctors).WellFormed scope := .recursive hname hd hc hs
    obtain ⟨word, inner, rfl, rfl, hinner⟩ := Nest.plain_eq_single hn
    obtain ⟨params, hp⟩ := hw.params_ok hl
    refine .single hp ?_ (.of_wellFormed hw hl rfl hname)
    rw [Expr.nestCtors_eq] at hinner
    refine Nest.settled_all (fun e he => ?_) inner hinner
    obtain ⟨ctor, hm, rfl⟩ := List.mem_map.1 he
    exact ih ctor hm (congrArg Nat.succ hl)
  | @named scope name body hname hb ih =>
    intro env hl n hn
    have hw : (Expr.named name body).WellFormed scope := .named hname hb
    obtain ⟨word, inner, rfl, rfl, hinner⟩ := Nest.plain_eq_single hn
    obtain ⟨params, hp⟩ := hw.params_ok hl
    exact .single hp (ih hl inner hinner) (.of_wellFormed hw hl rfl hname)

/-! ## The walk -/

/-- The declarations that are not generated. -/
def notGenerated (ds : List Decl) : List Decl :=
  ds.filter (·.ident ∉ Reason.generatedIdents)

theorem notGenerated_append (ds ds' : List Decl) :
    notGenerated (ds ++ ds') = notGenerated ds ++ notGenerated ds' :=
  List.filter_append ..

theorem notGenerated_addGenerated (c : Collected) {d : Decl} (h : d.ident ∈ Reason.generatedIdents) :
    notGenerated (c.addGenerated d).1 = [] := by
  refine List.filter_eq_nil_iff.2 fun d' hd => ?_
  rw [Collected.mem_of_addGenerated hd]
  simpa using h

/-- A walk has entered the identifiers that have been collected, generated ones aside. -/
def Collected.Tracks (c : Collected) (known : List String) : Prop :=
  ∀ ident, ident ∉ Reason.generatedIdents → (ident ∈ known ↔ ident ∈ c.idents)

theorem Collected.Tracks.grow {c c' : Collected} {known : List String} {ds : List Decl}
    {sites : List Site} (h : c.Tracks known) (hg : Grows c ds c')
    (hs : List.Forall₂ Site.Declares sites (notGenerated ds)) :
    c'.Tracks (known ++ sites.map (·.ident)) := by
  intro ident hn
  rw [Site.Declares.idents hs, hg.idents, List.mem_append, List.mem_append, List.mem_reverse, h ident hn, or_comm]
  have hmem : ident ∈ (notGenerated ds).map (·.ident) ↔ ident ∈ ds.map (·.ident) := by
    simp only [notGenerated, List.mem_map, List.mem_filter, decide_eq_true_eq]
    constructor
    · rintro ⟨d, ⟨hd, -⟩, rfl⟩
      exact ⟨d, hd, rfl⟩
    · rintro ⟨d, hd, rfl⟩
      exact ⟨d, ⟨hd, hn⟩, rfl⟩
  rw [hmem]

theorem Collected.Tracks.not_mem {c : Collected} {known : List String} {name : String}
    (h : c.Tracks known) (hg : typeIdent name ∉ Reason.generatedIdents)
    (hc : c.contains name = false) : typeIdent name ∉ known := by
  rw [h _ hg, ← Collected.contains_iff, hc]
  simp

theorem Collected.Tracks.mark {c : Collected} {known : List String} {name : String}
    (h : c.Tracks known) (hc : c.contains name = false) :
    (c.mark name).Tracks (known ++ [typeIdent name]) := by
  intro ident hn
  rw [Collected.mark_idents hc, List.mem_append, List.mem_singleton, List.mem_cons, h ident hn, or_comm]

/-- A type that is entered is followed by what is entered inside it. -/
theorem entered_single {s : Site} {inner : Nest Site} {known : List String} {decl : Decl}
    {ds : List Decl} (hs : s.ident ∉ Reason.generatedIdents) (hk : s.ident ∉ known)
    (hd : s.Declares decl)
    (hin : List.Forall₂ Site.Declares (inner.entered (·.ident) (known ++ [s.ident])) (notGenerated ds)) :
    List.Forall₂ Site.Declares ((Nest.cons s inner .nil).entered (·.ident) known)
      (notGenerated (decl :: ds)) := by
  have hown : notGenerated (decl :: ds) = decl :: notGenerated ds :=
    List.filter_cons_of_pos (by simpa [hd.ident] using hs)
  rw [hown, Nest.entered, if_neg hk]
  simpa [Nest.entered] using ⟨hd, hin⟩

/-- **What is collected are the declarations of the places that are entered**, each in its own
environment and in the order of the walk, generated declarations aside. -/
theorem Gathers.entered {env : Env} {es : List Expr} {c c' : Collected} {ds : List Decl}
    (h : Gathers env es c ds c') : ∀ {n : Nest Declared} {m : Nest Site} {known : List String},
      n.map Declared.plain = Expr.nestAll es → n.placed env = .ok m →
      (∀ x ∈ n.opened, x.ident ∉ Reason.generatedIdents) → c.Tracks known →
      List.Forall₂ Site.Declares (m.entered (·.ident) known) (notGenerated ds) := by
  induction h with
  | nil | unit | var =>
    intro n m known hn hp _ _
    rw [Nest.map_eq_nil hn] at hp
    cases hp
    exact .nil
  | append h _ ih ih' =>
    intro n m known hn hp hg hc
    rw [Expr.nestAll_append] at hn
    obtain ⟨k, k', rfl, hk, hk'⟩ := Nest.map_eq_append hn
    obtain ⟨m₁, m₂, h₁, h₂, rfl⟩ := Nest.placed_append.1 hp
    rw [Nest.opened_append, List.forall_mem_append] at hg
    have hfirst := ih hk h₁ hg.1 hc
    have hsecond := ih' hk' h₂ hg.2 (hc.grow h.grows hfirst)
    rw [Nest.entered_append, notGenerated_append]
    exact List.rel_append hfirst hsecond
  | void =>
    intro n m known hn hp _ _
    rw [Nest.map_eq_nil hn] at hp
    cases hp
    rw [notGenerated_addGenerated _ (by decide)]
    exact .nil
  | sum _ ih =>
    intro n m known hn hp hg hc
    rw [notGenerated_append, notGenerated_addGenerated _ (by decide), List.append_nil]
    rw [Expr.nestAll_singleton] at hn
    exact ih hn hp hg hc
  | product _ ih =>
    intro n m known hn hp hg hc
    rw [Expr.nestAll_singleton] at hn
    exact ih hn hp hg hc
  | @known _ e _ name hname hk =>
    intro n m known hn hp hg hc
    obtain ⟨inner, hs⟩ := Expr.nest_of_name hname
    rw [Expr.nestAll_singleton, hs] at hn
    obtain ⟨word, inner', rfl, rfl, -⟩ := Nest.plain_eq_single hn
    obtain ⟨params, m', -, -, rfl⟩ := Nest.placed_single.1 hp
    rw [Nest.opened_single, List.forall_mem_cons] at hg
    have hin : typeIdent word.text ∈ known := (hc _ hg.1).2 (Collected.contains_iff.1 hk)
    simp [Nest.entered, Declared.ident, hin, notGenerated]
  | @recursive env name ctors params variants c ds _ hk hparams hv _ ih =>
    intro n m known hn hp hg hc
    rw [Expr.nestAll_singleton, Expr.nest, Expr.nestCtors_eq] at hn
    obtain ⟨word, inner, rfl, rfl, hinner⟩ := Nest.plain_eq_single hn
    obtain ⟨params', m', hp', hm, rfl⟩ := Nest.placed_single.1 hp
    cases hparams.symm.trans hp'
    rw [Nest.opened_single, List.forall_mem_cons] at hg
    exact entered_single hg.1 (hc.not_mem hg.1 hk) ⟨.recursive hparams hv, rfl⟩ (ih hinner hm hg.2 (hc.mark hk))
  | named hk hparams ht _ ih =>
    intro n m known hn hp hg hc
    rw [Expr.nestAll_singleton, Expr.nest] at hn
    obtain ⟨word, inner, rfl, rfl, hinner⟩ := Nest.plain_eq_single hn
    obtain ⟨params', m', hp', hm, rfl⟩ := Nest.placed_single.1 hp
    rw [Nest.opened_single, List.forall_mem_cons] at hg
    rw [← Expr.nestAll_singleton] at hinner
    exact entered_single hg.1 (hc.not_mem hg.1 hk) ⟨.named hparams ht, rfl⟩ (ih hinner hm hg.2 (hc.mark hk))

end TypeDesc
