/-
Collecting over many calls, each of which walks one expression under its own
environment. A call that fails leaves what was collected as it was.

One walk finds declarations that are new (`Gathers.fresh`) and marks exactly
these (`Gathers.grows`). Once it has been made, the same expressions give nothing
more, whatever else is collected and whatever stands around them
(`Gathers.again`). A run of calls keeps all of this (`run_marks_what_it_finds`).
-/
import TypeDesc.Proofs.Gathered

namespace TypeDesc

open Reason (Decl)

/-! ## What a walk finds is new -/

/-- The declarations `ds` are new when `c` has been collected, and among each other. -/
structure Fresh (c : Collected) (ds : List Decl) : Prop where
  distinct : (ds.map (·.ident)).Nodup
  unseen : ∀ d ∈ ds, d.ident ∉ c.idents

namespace Fresh

variable {c c₁ : Collected} {ds ds' : List Decl}

theorem nil (c : Collected) : Fresh c [] :=
  ⟨by simp, by simp⟩

theorem single {d : Decl} (h : c.contains d.name = false) : Fresh c [d] := by
  refine ⟨by simp, fun d' hd hm => ?_⟩
  rw [List.mem_singleton.1 hd] at hm
  rw [Collected.contains_iff.2 hm] at h
  cases h

/-- What is new after the first declarations have been collected is new behind them. -/
theorem append (h : Fresh c ds) (hg : Grows c ds c₁) (h' : Fresh c₁ ds') : Fresh c (ds ++ ds') := by
  have hmarked : ∀ d ∈ ds, d.ident ∈ c₁.idents := by
    intro d hd
    rw [hg.idents]
    exact List.mem_append_left _ (List.mem_reverse.2 (List.mem_map_of_mem hd))
  constructor
  · rw [List.map_append, List.nodup_append]
    refine ⟨h.distinct, h'.distinct, fun ident hm ident' hm' heq => ?_⟩
    obtain ⟨d, hd, rfl⟩ := List.mem_map.1 hm
    obtain ⟨d', hd', rfl⟩ := List.mem_map.1 hm'
    exact h'.unseen d' hd' (heq ▸ hmarked d hd)
  · intro d hd hm
    rcases List.mem_append.1 hd with hd | hd
    · exact h.unseen d hd hm
    · exact h'.unseen d hd (hg.mem hm)

theorem addGenerated (c : Collected) (d : Decl) : Fresh c (c.addGenerated d).1 := by
  rw [Collected.addGenerated]
  split
  next => exact nil c
  next h => exact single (by simpa using h)

end Fresh

theorem Gathers.fresh {env : Env} {es : List Expr} {c c' : Collected} {ds : List Decl}
    (h : Gathers env es c ds c') : Fresh c ds := by
  induction h with
  | nil | unit | var | known => exact .nil _
  | append h _ ih ih' => exact ih.append h.grows ih'
  | void => exact .addGenerated _ _
  | sum h ih => exact ih.append h.grows (.addGenerated _ _)
  | product _ ih => exact ih
  | @recursive _ name _ params variants _ _ _ hc _ _ _ ih =>
    have hfirst : Fresh _ [Decl.variant ⟨name, params⟩ variants] := .single hc
    exact hfirst.append (.mark hc) ih
  | @named _ name _ params t _ _ _ hc _ _ _ ih =>
    have hfirst : Fresh _ [Decl.synonym ⟨name, params⟩ t] := .single hc
    exact hfirst.append (.mark hc) ih

/-! ## A second walk finds nothing -/

/-- The expression has nothing left to collect, under any environment. -/
def Expr.Spent (e : Expr) (c : Collected) : Prop :=
  ∀ env, e.collect env c = .ok ([], c)

theorem collectAll_spent {es : List Expr} {c : Collected} (h : ∀ e ∈ es, e.Spent c) (env : Env) :
    Expr.collectAll env es c = .ok ([], c) := by
  induction es with
  | nil => rfl
  | cons e es ih =>
    rw [List.forall_mem_cons] at h
    simp only [Expr.collectAll, h.1 env, ih h.2, ok_bind, List.append_nil]

theorem addGenerated_spent {c : Collected} {d : Decl} (h : d.ident ∈ c.idents) :
    c.addGenerated d = ([], c) := by
  rw [Collected.addGenerated, if_pos (Collected.contains_iff.2 h)]

/-- A type that has been collected is not entered. -/
theorem Expr.Spent.of_name {e : Expr} {name : String} {c : Collected} (hn : e.name? = some name)
    (h : typeIdent name ∈ c.idents) : e.Spent c := by
  have hc : c.contains name = true := Collected.contains_iff.2 h
  intro env
  cases e <;> simp only [Expr.name?, Option.some.injEq, reduceCtorEq] at hn
  all_goals
    subst hn
    simp only [Expr.collect, hc, if_true]

/-- **What has been walked is spent**, also when more has been collected since. -/
theorem Gathers.again {env : Env} {es : List Expr} {c c' c₂ : Collected} {ds : List Decl}
    (h : Gathers env es c ds c') (hc : c'.idents ⊆ c₂.idents) : ∀ e ∈ es, e.Spent c₂ := by
  induction h with
  | nil => simp
  | append h h' ih ih' =>
    intro e he
    rcases List.mem_append.1 he with he | he
    · exact ih (fun ident hm => hc (h'.grows.mem hm)) e he
    · exact ih' hc e he
  | unit | var => exact List.forall_mem_singleton.2 fun env => rfl
  | @void _ c =>
    have hm := hc (c.mem_addGenerated Reason.voidDecl)
    exact List.forall_mem_singleton.2 fun env => by rw [Expr.collect, addGenerated_spent hm]
  | @sum _ a b rest _ _ c' h ih =>
    have hm := hc (c'.mem_addGenerated Reason.eitherDecl)
    have hparts := ih fun ident hi => hc ((Grows.addGenerated c' Reason.eitherDecl).mem hi)
    rw [List.forall_mem_cons, List.forall_mem_cons] at hparts
    refine List.forall_mem_singleton.2 fun env => ?_
    simp only [Expr.collect, hparts.1 env, hparts.2.1 env, collectAll_spent hparts.2.2, ok_bind,
      addGenerated_spent hm, List.append_nil]
  | product _ ih =>
    have hparts := ih hc
    rw [List.forall_mem_cons, List.forall_mem_cons] at hparts
    refine List.forall_mem_singleton.2 fun env => ?_
    simp only [Expr.collect, hparts.1 env, hparts.2.1 env, collectAll_spent hparts.2.2, ok_bind,
      List.append_nil]
  | known hn hk =>
    exact List.forall_mem_singleton.2 (.of_name hn (hc (Collected.contains_iff.1 hk)))
  | recursive hk _ _ h _ =>
    exact List.forall_mem_singleton.2 (.of_name rfl (hc (h.grows.mem (Collected.mem_mark hk))))
  | named hk _ _ h _ =>
    exact List.forall_mem_singleton.2 (.of_name rfl (hc (h.grows.mem (Collected.mem_mark hk))))

/-! ## Runs -/

namespace Collected

/-- What calls find one after the other, and what has been collected after them. A call that fails
finds nothing and leaves what was collected as it was. -/
def run (c : Collected) : List (Env × Expr) → List Decl × Collected
  | [] => ([], c)
  | (env, e) :: calls =>
    match e.collect env c with
    | .ok (ds, c') => (ds ++ (run c' calls).1, (run c' calls).2)
    | .error _ => run c calls

theorem run_append (c : Collected) (calls calls' : List (Env × Expr)) :
    c.run (calls ++ calls') =
      ((c.run calls).1 ++ ((c.run calls).2.run calls').1, ((c.run calls).2.run calls').2) := by
  induction calls generalizing c with
  | nil => rfl
  | cons call calls ih =>
    obtain ⟨env, e⟩ := call
    rw [List.cons_append, run, run]
    cases e.collect env c with
    | error f => exact ih c
    | ok found => simp only [ih, List.append_assoc]

/-- A run adds what one walk would: new declarations, all of them marked. -/
theorem run_grows (c : Collected) (calls : List (Env × Expr)) :
    Grows c (c.run calls).1 (c.run calls).2 ∧ Fresh c (c.run calls).1 := by
  induction calls generalizing c with
  | nil => exact ⟨.refl c, .nil c⟩
  | cons call calls ih =>
    obtain ⟨env, e⟩ := call
    rw [run]
    cases h : e.collect env c with
    | error f => exact ih c
    | ok found =>
      have hwalk := collect_gathers e h
      obtain ⟨hg, hf⟩ := ih found.2
      exact ⟨hwalk.grows.append hg, hwalk.fresh.append hwalk.grows hf⟩

end Collected

/-- **A run marks exactly what it finds, once.** Whatever has been collected before, no two of the
declarations that calls find have one identifier, and none has an identifier from before; in the
end the identifiers are those from before and those of the declarations. An expression that one of
the calls has walked gives nothing more after any further calls, under any environment. -/
theorem run_marks_what_it_finds (c : Collected) (calls : List (Env × Expr)) :
    ((c.run calls).1.map (·.ident)).Nodup ∧
      (∀ d ∈ (c.run calls).1, d.ident ∉ c.idents) ∧
      (∀ ident, ident ∈ (c.run calls).2.idents ↔
        ident ∈ c.idents ∨ ∃ d ∈ (c.run calls).1, d.ident = ident) ∧
      ∀ before env e after, calls = before ++ (env, e) :: after →
        ∀ ds c', e.collect env (c.run before).2 = .ok (ds, c') →
          ∀ env', e.collect env' (c.run calls).2 = .ok ([], (c.run calls).2) := by
  obtain ⟨hg, hf⟩ := c.run_grows calls
  refine ⟨hf.distinct, hf.unseen, fun ident => ?_, ?_⟩
  · rw [hg.idents, List.mem_append, List.mem_reverse, List.mem_map, or_comm]
  · rintro before env e after rfl ds c' h
    have hlater : (c.run (before ++ (env, e) :: after)).2 = (c'.run after).2 := by
      rw [Collected.run_append, Collected.run, h]
    rw [hlater]
    have hkept : c'.idents ⊆ (c'.run after).2.idents := fun ident hm => (c'.run_grows after).1.mem hm
    exact (collect_gathers e h).again hkept e (by simp)

/-- The second call fails and leaves no trace; the third names the type of the first again. -/
example : (({ idents := ["void"] } : Collected).run
    [([], .product (.named "Pair" .void) (.var 0) []),
      ([], .product (.named "Pair" .void) (.named "q" (.var 0)) []),
      ([.free "a"], .named "pair" (.var 0))]).2.idents = ["pair", "void"] := by decide +kernel

end TypeDesc
