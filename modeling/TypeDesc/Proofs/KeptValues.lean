/-
A value of a TOML document never changes. Headers and keys add to the tables of a
document, and where they meet something, it is a table that they extend or
nothing is read. So a value that names lead to through tables (`Holds`) is there
to the end of the document (`readStatements_keeps`), and is among the entries that
are read (`Holds.lookup`).
-/
import TypeDesc.Proofs.SettingsText

namespace TypeDesc.Toml

/-- Names lead to a value, through tables. -/
inductive Holds (v : Value) : List String → Entries → Prop
  | value {key : String} {entries : Entries} (h : entries.lookup key = some (.value v)) :
    Holds v [key] entries
  | table {key : String} {path : List String} {entries inner : Entries} {mark : Mark}
    (h : entries.lookup key = some (.table mark inner)) (hinner : Holds v path inner) :
    Holds v (key :: path) entries

/-- A change of entries after which every value is where it was. -/
def Keeps (f : Entries → Option Entries) : Prop :=
  ∀ {v : Value} {path : List String} {entries entries' : Entries}, f entries = some entries' →
    Holds v path entries → Holds v path entries'

namespace Entries

/-- Only what is at the key is replaced. -/
theorem lookup_update {f : Option Node → Option Node} {key : String} {entries entries' : Entries}
    (h : update f key entries = some entries') :
    (∀ k ≠ key, entries'.lookup k = entries.lookup k) ∧
      ∃ node, f (entries.lookup key) = some node ∧ entries'.lookup key = some node := by
  induction entries generalizing entries' with
  | nil =>
    obtain ⟨node, hf, rfl⟩ := Option.map_eq_some_iff.1 h
    refine ⟨fun k hk => ?_, node, hf, by simp⟩
    rw [List.lookup_cons, beq_false_of_ne hk]
  | cons entry entries ih =>
    obtain ⟨k₀, node₀⟩ := entry
    rw [update] at h
    split at h
    next heq =>
      subst heq
      obtain ⟨node, hf, rfl⟩ := Option.map_eq_some_iff.1 h
      refine ⟨fun k hk => ?_, node, by simpa using hf, by simp⟩
      rw [List.lookup_cons, List.lookup_cons, beq_false_of_ne hk]
    next hne =>
      obtain ⟨more, hmore, rfl⟩ := Option.map_eq_some_iff.1 h
      obtain ⟨hothers, node, hf, hnode⟩ := ih hmore
      refine ⟨fun k hk => ?_, node, ?_, ?_⟩
      · rw [List.lookup_cons, List.lookup_cons, hothers k hk]
      · rwa [List.lookup_cons, beq_false_of_ne (Ne.symm hne)]
      · rwa [List.lookup_cons, beq_false_of_ne (Ne.symm hne)]

/-- A change at a key keeps values if it refuses a value and keeps those of a table. -/
theorem update_keeps {f : Option Node → Option Node} (hvalue : ∀ v, f (some (.value v)) = none)
    (htable : ∀ mark inner node, f (some (.table mark inner)) = some node →
      ∃ mark' inner', node = .table mark' inner' ∧
        ∀ {v path}, Holds v path inner → Holds v path inner') (key : String) :
    Keeps (update f key) := by
  intro v path entries entries' h hholds
  obtain ⟨hothers, node, hf, hnode⟩ := lookup_update h
  cases hholds with
  | @value k _ hk =>
    by_cases heq : k = key
    · subst heq
      rw [hk, hvalue] at hf
      cases hf
    · exact .value (by rw [hothers k heq, hk])
  | @table k path _ inner mark hk hinner =>
    by_cases heq : k = key
    · subst heq
      rw [hk] at hf
      obtain ⟨mark', inner', rfl, hkeeps⟩ := htable mark inner node hf
      exact .table hnode (hkeeps hinner)
    · exact .table (by rw [hothers k heq, hk]) hinner

theorem define_keeps (v : Value) (key : String) : Keeps (define v key) :=
  update_keeps (fun _ => rfl) (fun _ _ _ h => by cases h) key

theorem defineDotted_keeps (part : Nat) (v : Value) (path : List String) (stem : String) :
    Keeps (defineDotted part v path stem) := by
  induction path with
  | nil => exact define_keeps v stem
  | cons key path ih =>
    refine update_keeps (fun _ => rfl) (fun mark inner node h => ?_) key
    dsimp only at h
    split at h
    next =>
      obtain ⟨inner', hinner, rfl⟩ := Option.map_eq_some_iff.1 h
      exact ⟨_, inner', rfl, fun hholds => ih hinner hholds⟩
    next => cases h

theorem within_keeps {f : Entries → Option Entries} (hf : Keeps f) (path : List String) :
    Keeps (within f path) := by
  induction path with
  | nil => exact hf
  | cons key path ih =>
    refine update_keeps (fun _ => rfl) (fun mark inner node h => ?_) key
    obtain ⟨inner', hinner, rfl⟩ := Option.map_eq_some_iff.1 h
    exact ⟨mark, inner', rfl, fun hholds => ih hinner hholds⟩

theorem openTable_keeps (part : Nat) (key : String) : Keeps (openTable part key) := by
  refine update_keeps (fun _ => rfl) (fun mark inner node h => ?_) key
  dsimp only at h
  split at h
  next =>
    cases h
    exact ⟨_, inner, rfl, id⟩
  next => cases h

theorem openNext_keeps (key : String) : Keeps (openNext key) :=
  update_keeps (fun _ => rfl) (fun _ _ _ h => by cases h) key

end Entries

/-! ## Statements -/

section

variable {v : Value} {path : List String} {d d' : Document} {cs rest : List Char}

theorem openTable_entries {key : Key} (h : d.openTable key = some d')
    (hholds : Holds v path d.entries) : Holds v path d'.entries := by
  obtain ⟨entries, hentries, rfl⟩ := Option.map_eq_some_iff.1 h
  exact Entries.within_keeps (Entries.openTable_keeps _ _) _ hentries hholds

theorem openNext_entries {key : Key} (h : d.openNext key = some d')
    (hholds : Holds v path d.entries) : Holds v path d'.entries := by
  obtain ⟨entries, hentries, rfl⟩ := Option.map_eq_some_iff.1 h
  exact Entries.within_keeps (Entries.openNext_keeps _) _ hentries hholds

theorem readHeader_keeps (h : readHeader d cs = some (d', rest)) (hholds : Holds v path d.entries) :
    Holds v path d'.entries := by
  rw [readHeader] at h
  split at h
  next =>
    simp only [Option.bind_eq_bind, Option.bind_eq_some_iff] at h
    obtain ⟨⟨key, cs₁⟩, -, d₁, hopen, cs₂, -, cs₃, -, heq⟩ := h
    cases heq
    exact openNext_entries hopen hholds
  next =>
    simp only [Option.bind_eq_bind, Option.bind_eq_some_iff] at h
    obtain ⟨⟨key, cs₁⟩, -, d₁, hopen, cs₂, -, heq⟩ := h
    cases heq
    exact openTable_entries hopen hholds

theorem readDefinition_keeps (h : readDefinition d cs = .ok (d', rest))
    (hholds : Holds v path d.entries) : Holds v path d'.entries := by
  simp only [readDefinition, bind_eq_ok, orMalformed_eq_ok] at h
  obtain ⟨⟨key, cs₁⟩, -, cs₂, -, ⟨value, cs₃⟩, -, d₁, hdefine, heq⟩ := h
  cases heq
  obtain ⟨entries, hentries, rfl⟩ := Option.map_eq_some_iff.1 hdefine
  exact Entries.within_keeps (Entries.defineDotted_keeps _ _ _ _) _ hentries hholds

/-- **A statement keeps values.** -/
theorem readStatement_keeps (h : readStatement d cs = .ok (d', rest))
    (hholds : Holds v path d.entries) : Holds v path d'.entries := by
  cases cs with
  | nil =>
    cases h
    exact hholds
  | cons c cs =>
    rw [readStatement] at h
    split at h
    next =>
      cases h
      exact hholds
    next =>
      split at h
      next => exact readHeader_keeps (orMalformed_eq_ok.1 h) hholds
      next => exact readDefinition_keeps h hholds

theorem readStatements_step {fuel : Nat} (h : readStatements (fuel + 1) d cs = .ok d') :
    ∃ d₁ rest, readStatement d (skipSpaces cs) = .ok (d₁, rest) ∧
      (d' = d₁ ∨ ∃ after, readStatements fuel d₁ after = .ok d') := by
  simp only [readStatements, bind_eq_ok, orMalformed_eq_ok] at h
  obtain ⟨⟨d₁, rest⟩, hstatement, cs₂, -, h⟩ := h
  refine ⟨d₁, rest, hstatement, ?_⟩
  cases cs₂ with
  | nil =>
    cases h
    exact .inl rfl
  | cons c cs₂ =>
    dsimp only at h
    split at h
    next => exact .inr ⟨cs₂, h⟩
    next => cases h

/-- **To the end of a document, values are kept.** -/
theorem readStatements_keeps {fuel : Nat} (h : readStatements fuel d cs = .ok d')
    (hholds : Holds v path d.entries) : Holds v path d'.entries := by
  induction fuel generalizing d cs with
  | zero => cases h
  | succ fuel ih =>
    obtain ⟨d₁, rest, hstatement, hrest⟩ := readStatements_step h
    have hkept := readStatement_keeps hstatement hholds
    rcases hrest with rfl | ⟨after, hafter⟩
    · exact hkept
    · exact ih hafter hkept

end

/-! ## Entries that are read -/

theorem lookup_toValues (entries : Entries) (key : String) :
    (Node.toValues entries).lookup key = (entries.lookup key).map Node.toValue := by
  induction entries with
  | nil => rfl
  | cons entry entries ih =>
    obtain ⟨k, node⟩ := entry
    rw [Node.toValues, List.lookup_cons, List.lookup_cons, ih]
    cases key == k <;> rfl

/-- A value in a table of the document is among the entries of that table. -/
theorem Holds.lookup {v : Value} {part key : String} {entries : Entries}
    (h : Holds v [part, key] entries) : ∃ inner,
      (Node.toValues entries).lookup part = some (.table inner) ∧ inner.lookup key = some v := by
  cases h with
  | @table _ _ _ inner mark hpart hinner =>
    refine ⟨Node.toValues inner, by rw [lookup_toValues, hpart]; rfl, ?_⟩
    cases hinner with
    | value hkey =>
      rw [lookup_toValues, hkey]
      rfl
    | table _ hnone => cases hnone

end TypeDesc.Toml
