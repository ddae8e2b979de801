/-
Parameters that a description does not use. While the body is read, a parameter
is noted as used when a name in it stands for it; afterwards the parameters of
the body are found from the indices that it mentions. The two agree: the warnings
are about the parameters that are left out of the head of the top
(`unused_params_exact`).

The indices that an expression mentions are in ascending order
(`Expr.indices_ascending`), so that among type parameters alone the parameters of
an expression stand in the order of their declaration (`Env.addParams_ofParams`).
-/
import Mathlib.Data.List.Sort
import TypeDesc.Proofs.TreeNotes

namespace TypeDesc

open Reason (Decl)

/-! ## Ascending indices -/

theorem insertIndex_ascending {i : Nat} {is : List Nat} (h : is.Pairwise (· < ·)) :
    (insertIndex i is).Pairwise (· < ·) := by
  induction is with
  | nil => simp [insertIndex]
  | cons j is ih =>
    have hj := List.pairwise_cons.1 h
    rw [insertIndex]
    by_cases hlt : i < j
    · rw [if_pos hlt]
      refine List.pairwise_cons.2 ⟨List.forall_mem_cons.2 ⟨hlt, fun k hk => ?_⟩, h⟩
      exact hlt.trans (hj.1 k hk)
    · rw [if_neg hlt]
      by_cases heq : i = j
      · rw [if_pos heq]
        exact h
      · rw [if_neg heq]
        refine List.pairwise_cons.2 ⟨fun k hk => ?_, ih hj.2⟩
        rcases mem_insertIndex.1 hk with rfl | hk
        · omega
        · exact hj.1 k hk

theorem unionIndices_ascending (is : List Nat) {js : List Nat} (h : js.Pairwise (· < ·)) :
    (unionIndices is js).Pairwise (· < ·) := by
  induction is with
  | nil => exact h
  | cons i is ih => exact insertIndex_ascending ih

theorem leaveBinding_ascending {is : List Nat} (h : is.Pairwise (· < ·)) :
    (leaveBinding is).Pairwise (· < ·) := by
  rw [leaveBinding, List.pairwise_map]
  refine (h.filter _).imp_of_mem fun {i j} hi _ hlt => ?_
  have hpos : 0 < i := by simpa using (List.mem_filter.1 hi).2
  omega

theorem indicesAll_ascending {es : List Expr} {is : List Nat} (h : Expr.indicesAll es = .ok is) :
    is.Pairwise (· < ·) := by
  induction es generalizing is with
  | nil =>
    cases h
    exact .nil
  | cons e es ih =>
    simp only [Expr.indicesAll, bind_eq_ok, Except.ok.injEq] at h
    obtain ⟨is, -, js, hjs, rfl⟩ := h
    exact unionIndices_ascending is (ih hjs)

theorem indicesCtors_ascending {ctors : List (Ctor Expr)} {is : List Nat}
    (h : Expr.indicesCtors ctors = .ok is) : is.Pairwise (· < ·) := by
  induction ctors generalizing is with
  | nil =>
    cases h
    exact .nil
  | cons ctor ctors ih =>
    simp only [Expr.indicesCtors, bind_eq_ok, Except.ok.injEq] at h
    obtain ⟨is, -, js, hjs, rfl⟩ := h
    exact unionIndices_ascending is (ih hjs)

/-- **The indices of an expression are in ascending order.** -/
theorem Expr.indices_ascending : (e : Expr) → {is : List Nat} → e.indices = .ok is →
    is.Pairwise (· < ·)
  | .void, _, h => by
    cases h
    exact .nil
  | .unit, _, h => by
    cases h
    exact .nil
  | .var _, _, h => by
    cases h
    exact List.pairwise_singleton _ _
  | .sum _ _ _, _, h => indicesAll_ascending (indices_operands.1.symm.trans h)
  | .product _ _ _, _, h => indicesAll_ascending (indices_operands.2.symm.trans h)
  | .recursive _ _, _, h => by
    simp only [indices, bind_eq_ok, Except.ok.injEq] at h
    obtain ⟨is, his, rfl⟩ := h
    exact leaveBinding_ascending (indicesCtors_ascending his)
  | .named _ body, _, h => indices_ascending body h
  | .foreign _, _, h => by cases h

/-! ## Parameters among type parameters -/

/-- The items at ascending positions are those that are left when all others are taken out. -/
theorem filterMap_getElem? {α : Type} (xs : List α) {is : List Nat} (h : is.Pairwise (· < ·)) :
    is.filterMap (xs[·]?) = (xs.zipIdx.filter (·.2 ∈ is)).map (·.1) := by
  -- with its position behind it, each item stands in order on either side
  have hpairs : (is.filterMap fun i => xs[i]?.map (·, i)) = xs.zipIdx.filter (·.2 ∈ is) := by
    refine List.Pairwise.eq_of_mem_iff (r := fun a b => a.2 < b.2) ?_ ?_ fun a => ?_
    · refine List.pairwise_filterMap.2 (h.imp fun {i j} hlt a ha b hb => ?_)
      obtain ⟨x, -, rfl⟩ := Option.map_eq_some_iff.1 ha
      obtain ⟨y, -, rfl⟩ := Option.map_eq_some_iff.1 hb
      exact hlt
    · refine List.Pairwise.filter _ ?_
      rw [← List.pairwise_map (f := Prod.snd) (R := (· < ·)), List.zipIdx_map_snd]
      exact List.pairwise_lt_range'
    · obtain ⟨x, i⟩ := a
      simp only [List.mem_filterMap, Option.map_eq_some_iff, Prod.mk.injEq, List.mem_filter,
        List.mk_mem_zipIdx_iff_getElem?, decide_eq_true_eq]
      constructor
      · rintro ⟨j, hj, y, hy, rfl, rfl⟩
        exact ⟨hy, hj⟩
      · rintro ⟨hx, hi⟩
        exact ⟨i, hi, x, hx, rfl, rfl⟩
  rw [← hpairs, List.map_filterMap]
  refine List.filterMap_congr fun i _ => ?_
  cases xs[i]? <;> rfl

theorem Env.addParams_ofParams {params names : List String} {is : List Nat}
    (hb : ∀ i ∈ is, i < params.length) (hn : (names ++ is.filterMap (params[·]?)).Nodup) :
    (Env.ofParams params).addParams names is = .ok (names ++ is.filterMap (params[·]?)) := by
  induction is generalizing names with
  | nil => simp [addParams]
  | cons i is ih =>
    rw [List.forall_mem_cons] at hb
    have hget : params[i]? = some params[i] := List.getElem?_eq_getElem hb.1
    have hlookup : (Env.ofParams params).lookup i = .ok (.free params[i]) :=
      Env.lookup_of_getElem? (by simp [Env.ofParams, hget])
    have hcons : names ++ (i :: is).filterMap (params[·]?) =
        names ++ [params[i]] ++ is.filterMap (params[·]?) := by
      simp [hget]
    rw [hcons] at hn ⊢
    have hnew : params[i] ∉ names := by
      intro hm
      have hdisjoint := (List.nodup_append.1 (List.nodup_append.1 hn).1).2.2
      exact hdisjoint _ hm _ (by simp) rfl
    have hadd : addNew names (Binding.free params[i]).params = names ++ [params[i]] := by
      simp [Binding.params, addNew, hnew]
    rw [addParams, hlookup, ok_bind, hadd, ih hb.2 hn]

/-- **Among type parameters alone, the parameters of an expression are those that it mentions**, in
the order of their declaration. -/
theorem Expr.params_ofParams {params : List String} {e : Expr} {is : List Nat}
    (hi : e.indices = .ok is) (hb : ∀ i ∈ is, i < params.length) (hn : params.Nodup) :
    e.params (.ofParams params) = .ok ((params.zipIdx.filter (·.2 ∈ is)).map (·.1)) := by
  have hsel := filterMap_getElem? params (e.indices_ascending hi)
  have hsub : ((params.zipIdx.filter (·.2 ∈ is)).map (·.1)).Sublist params := by
    have hall := (List.filter_sublist (l := params.zipIdx) (p := (·.2 ∈ is))).map Prod.fst
    rwa [List.zipIdx_map_fst] at hall
  rw [Expr.params, hi, ok_bind, ← hsel]
  exact Env.addParams_ofParams hb (by simpa [hsel] using hsub.nodup hn)

/-! ## Reports on parameters -/

/-- Reports of unused parameters have the code W300, and none that is noted about names has. -/
theorem Notes.OnNames.filter_unused {n : Notes} (h : n.OnNames) (ws : List Word) :
    (n.allReports ws).filter (·.finding.code == "W300") = n.unusedParams ws := by
  have hnames : n.reports.filter (·.finding.code == "W300") = [] := by
    refine List.filter_eq_nil_iff.2 fun report hm hc => ?_
    have hcode := h report hm
    rw [beq_iff_eq.1 hc] at hcode
    exact absurd hcode (by decide)
  have hunused : (n.unusedParams ws).filter (·.finding.code == "W300") = n.unusedParams ws := by
    refine List.filter_eq_self.2 fun report hm => ?_
    obtain ⟨p, -, rfl⟩ := List.mem_map.1 hm
    rfl
  rw [Notes.allReports, List.filter_append, hnames, hunused, List.nil_append]

/-- The parameters that are noted as unused are those whose index the body does not mention. -/
theorem SourceTree.Yields.unusedParams {tree : SourceTree} {d : Description} {w : List Report}
    (h : tree.Yields d w) {is : List Nat} (hm : ∀ i, i ∈ is ↔ d.body.Mentions i) :
    tree.notes.unusedParams tree.params =
      (tree.params.zipIdx.filter (·.2 ∉ is)).map fun param =>
        .located (.unusedParam param.1.text) param.1.span := by
  have hused : ∀ j, j ∈ tree.notes.used ↔ j ∈ is := fun j => by
    rw [hm, ← Description.mem_used, ← h.gist]
    rfl
  rw [Notes.unusedParams]
  congr 1
  refine List.filter_congr fun param _ => ?_
  simp [hused]

/-- Unless the body is the top itself, its synonym ends the module. -/
theorem Description.getLast?_reasonModule {d : Description} {top : String} {decls : List Decl}
    (hnot : d.isTop top = false) (h : d.reasonModule (some top) = .ok decls) :
    ∃ last, d.topDecl top = .ok last ∧ decls.getLast? = some last := by
  simp only [reasonModule, bind_eq_ok, hnot, Bool.false_eq_true, if_false] at h
  obtain ⟨ds, -, h⟩ := h
  split at h
  next => cases h
  next =>
    simp only [bind_eq_ok, mapError_eq_ok, Except.ok.injEq] at h
    obtain ⟨last, hlast, rfl⟩ := h
    exact ⟨last, hlast, by simp⟩

/-- **Warnings about parameters agree with the emitted parameters.** For every description that is
read, there is one warning of the code W300 for each parameter whose index the body does not mention,
in their order, placed at the parameter. The parameters of the body are the others, in their order,
and so are those of the synonym for the body, which ends the module if one is emitted. -/
theorem unused_params_exact {file source : String} {d : Description} {w : List Report}
    (h : Description.ofSource file source = .ok (d, w)) :
    ∃ (tokens : List Token) (tree : SourceTree) (is : List Nat),
      Token.scan file source = .ok tokens ∧ terminalsOf tokens = tree.terminals ∧
      d.params = tree.params.map (·.text) ∧ d.body.indices = .ok is ∧
      w.filter (·.finding.code == "W300") =
        (tree.params.zipIdx.filter (·.2 ∉ is)).map
          (fun param => .located (.unusedParam param.1.text) param.1.span) ∧
      ∃ used, used = (d.params.zipIdx.filter (·.2 ∈ is)).map (·.1) ∧
        d.body.params (.ofParams d.params) = .ok used ∧
        ∀ top, ∃ type, d.topDecl top = .ok (.synonym ⟨top, used⟩ type) ∧
          ∀ decls, d.isTop top = false → d.reasonModule (some top) = .ok decls →
            decls.getLast? = some (.synonym ⟨top, used⟩ type) := by
  obtain ⟨hw, -, -⟩ := ofSource_sound h
  obtain ⟨tokens, tree, hscan, hts, hy⟩ := ofSource_tree h
  obtain ⟨is, his, hm⟩ := hw.body.hasIndices
  have hbound : ∀ i ∈ is, i < d.params.length := fun i hi => hw.body.mentions_lt ((hm i).1 hi)
  have hparams := Expr.params_ofParams his hbound (List.Nodup.of_map _ hw.paramsDistinct)
  have hlen : (Env.ofParams d.params).length = d.params.length := by simp [Env.ofParams]
  obtain ⟨type, htype⟩ := hw.body.toReason_ok hlen
  refine ⟨tokens, tree, is, hscan, hts, hy.params, his, ?_, _, rfl, hparams, fun top => ?_⟩
  · rw [hy.warnings, (SourceTree.notes_onNames hts).filter_unused, hy.unusedParams hm]
  · have htop : d.topDecl top =
        .ok (.synonym ⟨top, (d.params.zipIdx.filter (·.2 ∈ is)).map (·.1)⟩ type) := by
      rw [Description.topDecl, htype, hparams, ok_bind, ok_bind]
    refine ⟨type, htop, fun decls hnot hmodule => ?_⟩
    obtain ⟨last, hlast, hend⟩ := Description.getLast?_reasonModule hnot hmodule
    cases htop.symm.trans hlast
    exact hend

/-- The parameter `a` is mentioned inside a recursive type whose name hides `b`, and `c` not at all. -/
theorem unused_params_exact_shadowed :
    ∃ d w, Description.ofSource "f.tyd" "params a, b, c rec b \x7b X: a * b \x7d" = .ok (d, w) ∧
      (w.filter (·.finding.code == "W300")).map (·.finding) = [.unusedParam "b", .unusedParam "c"] ∧
      d.body.params (.ofParams d.params) = .ok ["a"] ∧
      ∀ top, ∃ type, d.topDecl top = .ok (.synonym ⟨top, ["a"]⟩ type) := by
  obtain ⟨⟨d, w⟩, h, hread⟩ := exists_ok_of_any
    (Description.ofSource "f.tyd" "params a, b, c rec b \x7b X: a * b \x7d") (fun x =>
      (x.2.filter (·.finding.code == "W300")).map (·.finding) ==
        [.unusedParam "b", .unusedParam "c"] && x.1.params == ["a", "b", "c"] &&
      x.1.body.indices.toOption == some [0]) (by decide +kernel)
  simp only [Bool.and_eq_true, beq_iff_eq] at hread
  obtain ⟨⟨hwarn, hparams⟩, hindices⟩ := hread
  obtain ⟨tokens, tree, is, -, -, -, his, -, used, hused, hbody, htop⟩ := unused_params_exact h
  obtain rfl : is = [0] := by simpa [his] using hindices
  obtain rfl : used = ["a"] := by
    rw [hused, hparams]
    decide
  refine ⟨d, w, h, hwarn, hbody, fun top => ?_⟩
  obtain ⟨type, htype, -⟩ := htop top
  exact ⟨type, htype⟩

end TypeDesc
