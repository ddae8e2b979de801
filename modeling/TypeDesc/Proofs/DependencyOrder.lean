/-
In which order declarations come. They are found on a walk through the
expression from left to right and then listed backwards, so that a declaration
stands after those it mentions only if the walk met it before them.

`dependencies_first_iff` says exactly when that is so, on the expression alone:
no type is met before another type that mentions it. It is not so for every
description without cyclic types (`dependencies_not_first`).
-/
import Mathlib.Logic.Relation
import TypeDesc.Proofs.ClosedModule

namespace TypeDesc

open Reason (Ty Decl)

/-! ## Order in a list of declarations -/

/-- Each declaration stands after those of the other types that it mentions. -/
def DependenciesFirst (decls : List Decl) : Prop :=
  ∀ before d after, decls = before ++ d :: after → ∀ name ∈ d.mentions, typeIdent name ≠ d.ident →
    typeIdent name ∈ before.map (·.ident)

/-- The declaration of the type `x` mentions the other type `y`. -/
def Refers (decls : List Decl) (x y : String) : Prop :=
  x ≠ y ∧ ∃ d ∈ decls, d.ident = x ∧ ∃ name ∈ d.mentions, typeIdent name = y

/-- No type refers to itself through others. -/
def Acyclic (decls : List Decl) : Prop :=
  ∀ x, ¬ Relation.TransGen (Refers decls) x x

theorem Acyclic.of_rank {decls : List Decl} (rank : String → Nat)
    (h : ∀ x y, Refers decls x y → rank y < rank x) : Acyclic decls := by
  intro x hx
  have hlt : ∀ y, Relation.TransGen (Refers decls) x y → rank y < rank x := by
    intro y hy
    induction hy with
    | single hxy => exact h _ _ hxy
    | tail _ hyz ih => exact Nat.lt_trans (h _ _ hyz) ih
  exact Nat.lt_irrefl _ (hlt x hx)

/-- Where dependencies come first there is no cycle: the place in the list goes down along
mentions. -/
theorem DependenciesFirst.acyclic {decls : List Decl} (h : DependenciesFirst decls)
    (hd : (decls.map (·.ident)).Nodup) : Acyclic decls := by
  refine .of_rank (fun x => (decls.map (·.ident)).idxOf x) ?_
  rintro _ y ⟨hne, d, hm, rfl, name, hn, rfl⟩
  obtain ⟨before, after, rfl⟩ := List.append_of_mem hm
  have hmem := h before d after rfl name hn (Ne.symm hne)
  have hnot : d.ident ∉ before.map (·.ident) := by
    rw [List.map_append, List.nodup_append] at hd
    exact fun hm => hd.2.2 _ hm _ (by simp) rfl
  rw [List.map_append, List.idxOf_append_of_mem hmem, List.idxOf_append_of_notMem hnot]
  exact Nat.lt_of_lt_of_le (List.idxOf_lt_length_of_mem hmem) (Nat.le_add_right _ _)

/-! ## The walk over an expression -/

namespace Expr

mutual
/-- The identifiers of the types that the Reason type of an expression mentions; `scope` has that of
each recursive type around it, and nothing for a parameter. -/
def mentioned (scope : List (Option String)) : Expr → List String
  | .void => [Reason.voidDecl.ident]
  | .var index => scope[index]?.join.toList
  | .sum first second rest =>
    Reason.eitherDecl.ident :: (mentioned scope first ++ mentioned scope second ++
      mentionedAll scope rest)
  | .product first second rest =>
    mentioned scope first ++ mentioned scope second ++ mentionedAll scope rest
  | .recursive name _ => [typeIdent name]
  | .named name _ => [typeIdent name]
  | _ => []

/-- The identifiers that the types of expressions mention. -/
def mentionedAll (scope : List (Option String)) : List Expr → List String
  | [] => []
  | e :: es => mentioned scope e ++ mentionedAll scope es
end

end Expr

/-- A type that is met on a walk, and the types that its declaration mentions. -/
structure Meeting where
  ident : String
  mentions : List String
deriving DecidableEq, Repr

namespace Expr

mutual
/-- The types that a walk through an expression meets for the first time, in order, when those of
`known` have been met before. A sum ends with the choice that it is made from; a type is entered
only when it is first met. -/
def met (scope : List (Option String)) : Expr → List String → List Meeting
  | .void, known =>
    if Reason.voidDecl.ident ∈ known then [] else [⟨Reason.voidDecl.ident, []⟩]
  | .sum first second rest, known =>
    let ms := met scope first known
    let ms := ms ++ met scope second (known ++ ms.map (·.ident))
    let ms := ms ++ metAll scope rest (known ++ ms.map (·.ident))
    if Reason.eitherDecl.ident ∈ known ++ ms.map (·.ident) then ms
    else ms ++ [⟨Reason.eitherDecl.ident, []⟩]
  | .product first second rest, known =>
    let ms := met scope first known
    let ms := ms ++ met scope second (known ++ ms.map (·.ident))
    ms ++ metAll scope rest (known ++ ms.map (·.ident))
  | .recursive name ctors, known =>
    if typeIdent name ∈ known then []
    else
      let inner := some (typeIdent name) :: scope
      ⟨typeIdent name, ctors.flatMap fun ctor => ctor.payload.mentioned inner⟩ ::
        metCtors inner ctors (known ++ [typeIdent name])
  | .named name body, known =>
    if typeIdent name ∈ known then []
    else ⟨typeIdent name, body.mentioned scope⟩ :: met scope body (known ++ [typeIdent name])
  | _, _ => []

/-- The types that a walk through expressions meets, one after the other. -/
def metAll (scope : List (Option String)) : List Expr → List String → List Meeting
  | [], _ => []
  | e :: es, known =>
    let ms := met scope e known
    ms ++ metAll scope es (known ++ ms.map (·.ident))

/-- The types that a walk through the payloads of constructors meets, one after the other. -/
def metCtors (scope : List (Option String)) : List (Ctor Expr) → List String → List Meeting
  | [], _ => []
  | ⟨_, e⟩ :: ctors, known =>
    let ms := met scope e known
    ms ++ metCtors scope ctors (known ++ ms.map (·.ident))
end

end Expr

/-! ## The walk finds the declarations -/

/-- The identifier of a type that is being declared around an expression. -/
def Binding.ident? : Binding → Option String
  | .free _ => none
  | .enclosing head => some (typeIdent head.name)

/-- The identifiers in an environment. -/
def Env.idents (env : Env) : List (Option String) :=
  env.map Binding.ident?

/-- The identifiers of the names that a type mentions. -/
def Reason.Ty.idents (t : Ty) : List String :=
  t.applied.map typeIdent

theorem idents_tuple (ts : List Ty) : (Ty.tuple ts).idents = ts.flatMap (·.idents) := by
  have hall : Ty.appliedAll ts = ts.flatMap (·.applied) := by
    induction ts with
    | nil => rfl
    | cons t ts ih => rw [Ty.appliedAll, ih, List.flatMap_cons]
  rw [Ty.idents, Ty.applied, hall, List.map_flatMap]
  rfl

theorem mem_idents_choice {x : String} {t u : Ty} {us : List Ty} :
    x ∈ (choice t (u :: us)).idents ↔
      x = Reason.eitherDecl.ident ∨ x ∈ (t :: u :: us).flatMap (·.idents) := by
  simp only [Ty.idents, List.mem_map, List.mem_flatMap, mem_applied_choice]
  constructor
  · rintro ⟨name, rfl | ⟨v, hv, hn⟩, rfl⟩
    · exact .inl rfl
    · exact .inr ⟨v, hv, name, hn, rfl⟩
  · rintro (rfl | ⟨v, hv, name, hn, rfl⟩)
    · exact ⟨_, .inl rfl, rfl⟩
    · exact ⟨name, .inr ⟨v, hv, hn⟩, rfl⟩

theorem idents_applyTo (name : String) (params : List String) :
    (applyTo name params).idents = [typeIdent name] := by
  simp [Ty.idents]

mutual
theorem toReason_idents {env : Env} {t : Ty} {x : String} :
    (e : Expr) → e.toReason env = .ok t → (x ∈ t.idents ↔ x ∈ e.mentioned env.idents)
  | .void, h => by
    cases h
    rfl
  | .unit, h => by
    cases h
    rfl
  | .var i, h => by
    simp only [Expr.toReason, bind_eq_ok, Except.ok.injEq] at h
    obtain ⟨b, hb, rfl⟩ := h
    have hget := Env.getElem?_of_lookup hb
    have hident : env.idents[i]? = some b.ident? := by rw [Env.idents, List.getElem?_map, hget]; rfl
    rw [Expr.mentioned, hident]
    cases b with
    | free name => rfl
    | enclosing head => rw [Binding.type, idents_applyTo]; rfl
  | .sum a b rest, h => by
    simp only [Expr.toReason, bind_eq_ok, Except.ok.injEq] at h
    obtain ⟨t, ha, u, hb, us, hr, rfl⟩ := h
    simp only [mem_idents_choice, List.flatMap_cons, List.mem_append, toReason_idents a ha,
      toReason_idents b hb, toReasonAll_idents rest hr, Expr.mentioned, List.mem_cons, or_assoc]
  | .product a b rest, h => by
    simp only [Expr.toReason, bind_eq_ok, Except.ok.injEq] at h
    obtain ⟨t, ha, u, hb, us, hr, rfl⟩ := h
    simp only [idents_tuple, List.flatMap_cons, List.mem_append, toReason_idents a ha,
      toReason_idents b hb, toReasonAll_idents rest hr, Expr.mentioned, or_assoc]
  | .recursive name ctors, h => by
    simp only [Expr.toReason, bind_eq_ok, Except.ok.injEq] at h
    obtain ⟨params, -, rfl⟩ := h
    rw [idents_applyTo, Expr.mentioned]
  | .named name body, h => by
    simp only [Expr.toReason, bind_eq_ok, Except.ok.injEq] at h
    obtain ⟨params, -, rfl⟩ := h
    rw [idents_applyTo, Expr.mentioned]
  | .foreign value, h => by simp [Expr.toReason] at h

theorem toReasonAll_idents {env : Env} {ts : List Ty} {x : String} :
    (es : List Expr) → Expr.toReasonAll env es = .ok ts →
      (x ∈ ts.flatMap (·.idents) ↔ x ∈ Expr.mentionedAll env.idents es)
  | [], h => by
    cases h
    simp [Expr.mentionedAll]
  | e :: es, h => by
    simp only [Expr.toReasonAll, bind_eq_ok, Except.ok.injEq] at h
    obtain ⟨t, he, ts, hes, rfl⟩ := h
    rw [List.flatMap_cons, List.mem_append, toReason_idents e he, toReasonAll_idents es hes,
      Expr.mentionedAll, List.mem_append]
end

section

variable {scope : List (Option String)} {known : List String}

theorem metAll_append (es es' : List Expr) :
    Expr.metAll scope (es ++ es') known = Expr.metAll scope es known ++
      Expr.metAll scope es' (known ++ (Expr.metAll scope es known).map (·.ident)) := by
  induction es generalizing known with
  | nil => simp [Expr.metAll]
  | cons e es ih => simp [Expr.metAll, ih]

theorem metAll_single (e : Expr) : Expr.metAll scope [e] known = e.met scope known := by
  simp [Expr.metAll]

theorem metCtors_eq (ctors : List (Ctor Expr)) :
    Expr.metCtors scope ctors known = Expr.metAll scope (ctors.map (·.payload)) known := by
  induction ctors generalizing known with
  | nil => rfl
  | cons ctor ctors ih => rw [Expr.metCtors, ih, List.map_cons, Expr.metAll]

theorem met_sum (a b : Expr) (rest : List Expr) :
    (Expr.sum a b rest).met scope known =
      if Reason.eitherDecl.ident ∈
        known ++ (Expr.metAll scope (a :: b :: rest) known).map (·.ident) then
        Expr.metAll scope (a :: b :: rest) known
      else Expr.metAll scope (a :: b :: rest) known ++ [⟨Reason.eitherDecl.ident, []⟩] := by
  simp [Expr.met, Expr.metAll]

theorem met_product (a b : Expr) (rest : List Expr) :
    (Expr.product a b rest).met scope known = Expr.metAll scope (a :: b :: rest) known := by
  simp [Expr.met, Expr.metAll]

end

/-- The meeting tells what the declaration declares and mentions. -/
structure Meets (d : Decl) (m : Meeting) : Prop where
  ident : d.ident = m.ident
  mentions : ∀ x, x ∈ d.mentions.map typeIdent ↔ x ∈ m.mentions

theorem Meets.idents {ds : List Decl} {ms : List Meeting} (h : List.Forall₂ Meets ds ms) :
    ms.map (·.ident) = ds.map (·.ident) := by
  induction h with
  | nil => rfl
  | cons hm _ ih => rw [List.map_cons, List.map_cons, ih, hm.ident]

theorem Grows.mem_iff {c c' : Collected} {ds : List Decl} (h : Grows c ds c') {known : List String}
    {ms : List Meeting} (hk : ∀ x, x ∈ known ↔ x ∈ c.idents) (hm : List.Forall₂ Meets ds ms) (x : String) :
    x ∈ known ++ ms.map (·.ident) ↔ x ∈ c'.idents := by
  rw [h.idents, Meets.idents hm]
  simp [hk, or_comm]

theorem addGenerated_meets {c : Collected} {d : Decl} {known : List String}
    (hk : ∀ x, x ∈ known ↔ x ∈ c.idents) (hd : d.mentions = []) :
    List.Forall₂ Meets (c.addGenerated d).1 (if d.ident ∈ known then [] else [⟨d.ident, []⟩]) := by
  have hc : c.contains d.name = true ↔ d.ident ∈ known := by
    rw [Collected.contains_iff, hk, Decl.ident]
  rw [Collected.addGenerated]
  split
  next h =>
    rw [if_pos (hc.1 h)]
    exact .nil
  next h =>
    rw [if_neg (mt hc.2 h)]
    exact .cons ⟨rfl, by simp [hd]⟩ .nil

theorem Collected.mem_mark_iff {c : Collected} {name : String} {known : List String}
    (hk : ∀ x, x ∈ known ↔ x ∈ c.idents) (hc : c.contains name = false) (x : String) :
    x ∈ known ++ [typeIdent name] ↔ x ∈ (c.mark name).idents := by
  rw [Collected.mark_idents hc]
  simp [hk, or_comm]

theorem not_mem_known {c : Collected} {name : String} {known : List String}
    (hk : ∀ x, x ∈ known ↔ x ∈ c.idents) (hc : c.contains name = false) :
    typeIdent name ∉ known := by
  rw [hk, ← Collected.contains_iff, hc]
  simp

theorem mem_mentions_variant {env : Env} {head : Head} {ctors : List (Ctor Expr)}
    {variants : List (Ctor Ty)} (h : Expr.toReasonCtors env ctors = .ok variants) (x : String) :
    x ∈ (Decl.variant head variants).mentions.map typeIdent ↔
      x ∈ ctors.flatMap fun ctor => ctor.payload.mentioned env.idents := by
  rw [Decl.mentions, List.map_flatMap]
  rw [toReasonCtors_eq_ok] at h
  induction h with
  | nil => simp
  | cons hone _ ih =>
    rw [List.flatMap_cons, List.flatMap_cons, List.mem_append, List.mem_append, ih,
      ← toReason_idents _ hone.2]
    rfl

/-- **What a walk finds is what it meets.** -/
theorem Gathers.meets {env : Env} {es : List Expr} {c c' : Collected} {ds : List Decl}
    (h : Gathers env es c ds c') {known : List String} (hk : ∀ x, x ∈ known ↔ x ∈ c.idents) :
    List.Forall₂ Meets ds (Expr.metAll env.idents es known) := by
  induction h generalizing known with
  | nil => exact .nil
  | append h h' ih ih' =>
    rw [metAll_append]
    exact List.rel_append (ih hk) (ih' (h.grows.mem_iff hk (ih hk)))
  | unit => exact .nil
  | var => exact .nil
  | void =>
    rw [metAll_single, Expr.met]
    exact addGenerated_meets hk rfl
  | sum h ih =>
    have hgen := addGenerated_meets (h.grows.mem_iff hk (ih hk)) (d := Reason.eitherDecl) rfl
    rw [metAll_single, met_sum]
    have hboth := List.rel_append (ih hk) hgen
    split
    next hm => simpa [hm] using hboth
    next hm => simpa [hm] using hboth
  | product h ih =>
    rw [metAll_single, met_product]
    exact ih hk
  | @known _ e c name hn hc =>
    have hm : typeIdent name ∈ known := (hk _).2 (Collected.contains_iff.1 hc)
    rw [metAll_single]
    cases e <;> simp only [Expr.name?, Option.some.injEq, reduceCtorEq] at hn
    all_goals
      subst hn
      rw [Expr.met, if_pos hm]
      exact .nil
  | recursive hc hp hv h ih =>
    rw [metAll_single, Expr.met, if_neg (not_mem_known hk hc)]
    have hrest := ih (Collected.mem_mark_iff hk hc)
    rw [← metCtors_eq] at hrest
    exact .cons ⟨rfl, mem_mentions_variant hv⟩ hrest
  | @named _ name body params t c ds c' hc hp ht h ih =>
    rw [metAll_single, Expr.met, if_neg (not_mem_known hk hc)]
    have hrest := ih (Collected.mem_mark_iff hk hc)
    rw [metAll_single] at hrest
    exact .cons ⟨rfl, fun x => toReason_idents body ht⟩ hrest

/-! ## When dependencies come first -/

/-- In a closed list, dependencies come first if no declaration mentions a later one. -/
theorem Closed.dependenciesFirst_iff {decls : List Decl} (h : Closed decls) :
    DependenciesFirst decls ↔
      decls.Pairwise fun d d' => d'.ident ∉ d.mentions.map typeIdent := by
  constructor
  · intro hf
    have hsuffix : ∀ after before, decls = before ++ after →
        after.Pairwise fun d d' => d'.ident ∉ d.mentions.map typeIdent := by
      intro after
      induction after with
      | nil => exact fun _ _ => .nil
      | cons d after ih =>
        intro before he
        refine .cons (fun d' hd' hm => ?_) (ih (before ++ [d]) (by simp [he]))
        obtain ⟨name, hn, hident⟩ := List.mem_map.1 hm
        have hd := h.distinct
        rw [he, List.map_append, List.map_cons, List.nodup_append, List.nodup_cons] at hd
        have hne : d'.ident ≠ d.ident := fun heq => hd.2.1.1 (heq ▸ List.mem_map_of_mem hd')
        have hbefore := hf before d after he name hn (by rw [hident]; exact hne)
        rw [hident] at hbefore
        exact hd.2.2 _ hbefore _ (List.mem_cons_of_mem _ (List.mem_map_of_mem hd')) rfl
    exact hsuffix decls [] rfl
  · rintro hp before d after rfl name hn hne
    have hm := h.mentions d (by simp) name hn
    rw [List.map_append, List.map_cons, List.mem_append, List.mem_cons] at hm
    rcases hm with hm | hm | hm
    · exact hm
    · exact absurd hm hne
    · obtain ⟨d', hd', hident⟩ := List.mem_map.1 hm
      have hcons := (List.pairwise_append.1 hp).2.1
      exact absurd (hident ▸ List.mem_map_of_mem hn) ((List.pairwise_cons.1 hcons).1 d' hd')

theorem Meets.pairwise_iff {ds : List Decl} {ms : List Meeting} (h : List.Forall₂ Meets ds ms) :
    (ds.Pairwise fun d d' => d.ident ∉ d'.mentions.map typeIdent) ↔
      ms.Pairwise fun m m' => m.ident ∉ m'.mentions := by
  induction h with
  | nil => simp
  | @cons d m ds ms hm hs ih =>
    have hall : (∀ d' ∈ ds, d.ident ∉ d'.mentions.map typeIdent) ↔
        ∀ m' ∈ ms, m.ident ∉ m'.mentions := by
      clear ih
      induction hs with
      | nil => simp
      | cons hm' _ ih' =>
        rw [List.forall_mem_cons, List.forall_mem_cons, ih', hm'.mentions, hm.ident]
    rw [List.pairwise_cons, List.pairwise_cons, hall, ih]

namespace Description

/-- The types that a walk through the body of a description meets, in order. -/
def meetings (d : Description) : List Meeting :=
  d.body.met (d.params.map fun _ => none) []

/-- No type is met before another type that mentions it. -/
def MetInOrder (d : Description) : Prop :=
  d.meetings.Pairwise fun m m' => m.ident ∉ m'.mentions

instance (d : Description) : Decidable d.MetInOrder :=
  inferInstanceAs (Decidable (List.Pairwise _ _))

end Description

/-- **When dependencies come first.** The declarations of a description that was read stand each
after those it mentions exactly when no type is met before another that mentions it; there is no
cycle among them then. -/
theorem dependencies_first_iff {file source : String} {d : Description} {w : List Report}
    (h : Description.ofSource file source = .ok (d, w)) :
    ∃ decls, d.declarations = .ok decls ∧ (DependenciesFirst decls ↔ d.MetInOrder) ∧
      (d.MetInOrder → Acyclic decls) := by
  obtain ⟨hd, -⟩ := ofSource_sound h
  obtain ⟨ds, c, hdecls, hg⟩ := hd.declarations_gathers
  obtain ⟨decls, hdecls', hgathered⟩ := hd.gathered
  obtain rfl : ds.reverse = decls := by simpa [hdecls] using hdecls'
  have hnone : ∀ x, x ∈ ([] : List String) ↔ x ∈ ({} : Collected).idents := fun _ => .rfl
  have hmeets := hg.meets hnone
  rw [metAll_single, Env.idents, Env.ofParams, List.map_map] at hmeets
  have hiff : DependenciesFirst ds.reverse ↔ d.MetInOrder := by
    rw [hgathered.closed.dependenciesFirst_iff, List.pairwise_reverse]
    exact Meets.pairwise_iff hmeets
  exact ⟨ds.reverse, hdecls, hiff, fun hm => (hiff.2 hm).acyclic hgathered.closed.distinct⟩

/-- Types nested in one another, with both generated types inside. -/
theorem dependencies_first_nested : ∃ d w decls,
    Description.ofSource "nested.tyd" "alias y \x7b alias x \x7b unit + unit \x7d * void \x7d" = .ok (d, w) ∧
      d.declarations = .ok decls ∧ decls.map (·.ident) = ["void", "either", "x", "y"] ∧
      DependenciesFirst decls := by
  obtain ⟨⟨d, w⟩, h, hread⟩ := exists_ok_of_any (Description.ofSource "nested.tyd"
      "alias y \x7b alias x \x7b unit + unit \x7d * void \x7d") (fun x =>
    decide x.1.MetInOrder && x.1.declarations.toOption.map (·.map (·.ident)) ==
      some ["void", "either", "x", "y"]) (by decide +kernel)
  obtain ⟨decls, hdecls, hiff, -⟩ := dependencies_first_iff h
  simp only [hdecls, toOption_ok, Option.map_some, Bool.and_eq_true, decide_eq_true_eq, beq_iff_eq,
    Option.some.injEq] at hread
  exact ⟨d, w, decls, h, hdecls, hread.2, hiff.2 hread.1⟩

/-- **Dependencies do not always come first**, not even without a cycle: a type that is met, and
then mentioned by another, is declared after it. -/
theorem dependencies_not_first : ∃ d w decls,
    Description.ofSource "pair.tyd" "alias x \x7b unit \x7d * alias y \x7b alias x \x7b unit \x7d \x7d" =
        .ok (d, w) ∧
      d.declarations = .ok decls ∧ Acyclic decls ∧ ¬ DependenciesFirst decls := by
  obtain ⟨⟨d, w⟩, h, hread⟩ := exists_ok_of_any (Description.ofSource "pair.tyd"
      "alias x \x7b unit \x7d * alias y \x7b alias x \x7b unit \x7d \x7d") (fun x =>
    x.1.declarations.toOption.any
      (· == [.synonym ⟨"y", []⟩ (.app "x" []), .synonym ⟨"x", []⟩ .unit]))
    (by decide +kernel)
  obtain ⟨decls, hdecls, heq⟩ := exists_ok_of_any _ _ hread
  obtain rfl := beq_iff_eq.1 heq
  refine ⟨d, w, _, h, hdecls, ?_, ?_⟩
  · refine .of_rank (fun ident => if ident = "y" then 1 else 0) ?_
    rintro _ _ ⟨-, decl, hm, rfl, name, hn, rfl⟩
    simp only [List.mem_cons, List.not_mem_nil, or_false] at hm
    rcases hm with rfl | rfl
    · obtain rfl := List.mem_singleton.1 hn
      decide
    · cases hn
  · intro hf
    have hx := hf [] _ _ rfl "x" (by decide) (by decide)
    cases hx

end TypeDesc
