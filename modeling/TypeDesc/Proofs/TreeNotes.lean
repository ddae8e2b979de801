/-
What is noted while a description is read, told by its tree and by its body. An
accepted source has one tree, from which the description, its names and its
warnings follow (`ofSource_tree`). A parameter is noted as used exactly if the
body mentions its index (`Expr.mem_used_noted`).
-/
import TypeDesc.Proofs.CompileOutcome

namespace TypeDesc

/-! ## The tree of an accepted source -/

/-- The description `d` and the warnings `w` are those of the tree. -/
structure SourceTree.Yields (tree : SourceTree) (d : Description) (w : List Report) : Prop where
  params : d.params = tree.paramNames
  body : d.body = tree.meaning
  names : d.names = tree.notes.declared.map fun x => (x.name.text, x.name.span)
  warnings : w = tree.notes.allReports tree.params
  gist : tree.notes.gist = d.gist

/-- **An accepted source has a tree**, which yields what is read. -/
theorem ofSource_tree {file source : String} {d : Description} {w : List Report}
    (h : Description.ofSource file source = .ok (d, w)) :
    ∃ (tokens : List Token) (tree : SourceTree), Token.scan file source = .ok tokens ∧
      terminalsOf tokens = tree.terminals ∧ tree.Yields d w := by
  simp only [Description.ofSource, bind_eq_ok, mapError_eq_ok] at h
  obtain ⟨tokens, hscan, h⟩ := h
  obtain ⟨ws, n₀, n, ts₁, ts₂, t, rest, rfl, hp, hr, ht, herr, rfl, hparams, hnames⟩ :=
    ofTokens_reads h
  obtain rfl : rest = [] := (scan_endsOnce hscan).last rfl ht
  have hid := scan_identifier hscan
  have hc : n.Clean := fun report hm => herr report (List.mem_append_left _ hm)
  obtain ⟨hts₁, hn₀⟩ := hp.parsed
  obtain ⟨body, hts₂, hbody, hnote⟩ := hr.parsed
  obtain ⟨rfl, -, -⟩ := hp.sound (fun t ht => hid t (by simp [ht])) (hr.clean hc)
  obtain ⟨-, hgist⟩ := hr.sound (fun t ht => hid t (by simp [ht])) hc
  have hnotes : (SourceTree.mk ws body).notes = n := by
    rw [SourceTree.notes, ← hn₀]
    exact hnote
  refine ⟨_, ⟨ws, body⟩, hscan, ?_, hparams, hbody.symm, ?_, by rw [hnotes], ?_⟩
  · simp [SourceTree.terminals, hts₁, hts₂, Token.terminal_mark ht]
  · rw [hnotes]
    exact hnames
  · rw [hnotes]
    exact hgist

/-! ## Used parameters -/

theorem Gist.mem_used_use {g : Gist} {depth index j : Nat} :
    j ∈ (g.use depth index).used ↔ j ∈ g.used ∨ index = depth + j := by
  rw [Gist.use]
  by_cases h : depth ≤ index
  · rw [if_pos h, List.mem_cons, or_comm]
    have hj : j = index - depth ↔ index = depth + j := by omega
    rw [hj]
  · rw [if_neg h]
    have hj : index ≠ depth + j := by omega
    simp [hj]

theorem Gist.used_record (g : Gist) (name : String) (type : Expr) :
    (g.record name type).used = g.used := by
  rw [Gist.record]
  split
  · rfl
  · split
    · rfl
    · split <;> rfl

namespace Expr

mutual
/-- **A parameter is used exactly if its index is mentioned**, seen from inside `depth` recursive
types. -/
theorem mem_used_noted (depth : Nat) {j : Nat} : (e : Expr) → (g : Gist) →
    (j ∈ (e.noted depth g).used ↔ j ∈ g.used ∨ e.Mentions (depth + j))
  | .void, g => ⟨.inl, fun h => h.elim id (by rintro ⟨⟩)⟩
  | .unit, g => ⟨.inl, fun h => h.elim id (by rintro ⟨⟩)⟩
  | .foreign _, g => ⟨.inl, fun h => h.elim id (by rintro ⟨⟩)⟩
  | .var index, g => by
    rw [noted, Gist.mem_used_use, mentions_var, eq_comm]
  | .sum a b rest, g => by
    rw [noted, mem_used_notedAll depth rest, mem_used_noted depth b, mem_used_noted depth a,
      mentions_sum, List.exists_mem_cons_iff, List.exists_mem_cons_iff, or_assoc, or_assoc]
  | .product a b rest, g => by
    rw [noted, mem_used_notedAll depth rest, mem_used_noted depth b, mem_used_noted depth a,
      mentions_product, List.exists_mem_cons_iff, List.exists_mem_cons_iff, or_assoc, or_assoc]
  | .recursive name ctors, g => by
    rw [noted, Gist.used_record, mem_used_notedCtors (depth + 1) ctors, mentions_recursive,
      Nat.add_right_comm]
  | .named name body, g => by
    rw [noted, Gist.used_record, mem_used_noted depth body, mentions_named]

theorem mem_used_notedAll (depth : Nat) {j : Nat} : (es : List Expr) → (g : Gist) →
    (j ∈ (notedAll depth es g).used ↔ j ∈ g.used ∨ ∃ e ∈ es, e.Mentions (depth + j))
  | [], g => by simp [notedAll]
  | e :: es, g => by
    rw [notedAll, mem_used_notedAll depth es, mem_used_noted depth e, List.exists_mem_cons_iff,
      or_assoc]

theorem mem_used_notedCtors (depth : Nat) {j : Nat} : (ctors : List (Ctor Expr)) → (g : Gist) →
    (j ∈ (notedCtors depth ctors g).used ↔
      j ∈ g.used ∨ ∃ ctor ∈ ctors, ctor.payload.Mentions (depth + j))
  | [], g => by simp [notedCtors]
  | ⟨_, e⟩ :: ctors, g => by
    rw [notedCtors, mem_used_notedCtors depth ctors, mem_used_noted depth e,
      List.exists_mem_cons_iff, or_assoc]
end

end Expr

/-- The parameters that are noted as used are those whose index the body mentions. -/
theorem Description.mem_used {d : Description} {j : Nat} : j ∈ d.gist.used ↔ d.body.Mentions j := by
  rw [Description.gist, Expr.mem_used_noted, Nat.zero_add]
  simp

end TypeDesc
