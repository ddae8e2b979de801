/-
No settings file is a description. The first statement of a TOML document starts
with a character that stands in no description, or reaches one behind its first
name (`Foreign`); and a document without a statement has nothing to read
(`settings_text_rejected`). So a file that governs itself is never taken for one
that can be brought into canonical form.
-/
import TypeDesc.Proofs.Layout
import TypeDesc.Settings

namespace TypeDesc

open Lexeme

/-! ## Lines -/

namespace Text

/-- A carriage return made a line feed. -/
def feed (c : Char) : Char :=
  if c = '\r' then '\n' else c

theorem unifyNewlines_eq (cs : List Char) : unifyNewlines cs = (unifyPairs cs).map feed := by
  fun_induction unifyPairs cs with
  | case1 => rfl
  | case2 cs ih => rw [unifyNewlines, ih]; rfl
  | case3 c cs hne ih => rw [unifyNewlines.eq_3 _ _ hne, ih]; rfl

theorem feed_of_ne {c : Char} (h : c ≠ '\r') : feed c = c :=
  if_neg h

theorem feed_of_word {c : Char} (h : continuesWord c = true) : feed c = c := by
  apply feed_of_ne
  rintro rfl
  revert h
  decide

theorem word_of_feed {c : Char} (h : continuesWord (feed c) = true) : continuesWord c = true := by
  by_cases hc : c = '\r'
  · subst hc
    revert h
    decide
  · rwa [feed_of_ne hc] at h

end Text

/-! ## Characters that stand in no description -/

/-- A character that no description holds outside of its comments. -/
def IsStray (c : Char) : Prop :=
  Text.isBlank c = false ∧ startsWord c = false ∧ TokenKind.marks.lookup c = none ∧ c ≠ '/'

instance (c : Char) : Decidable (IsStray c) := inferInstanceAs (Decidable (_ ∧ _))

theorem IsStray.fits {c : Char} (h : IsStray c) (rest : List Char) : (Lexeme.stray c).Fits rest :=
  ⟨h.1, h.2.1, h.2.2.1, fun hs => h.2.2.2 hs.1⟩

/-- Blanks and at most whole words, and then a character that is in no description. -/
inductive Foreign : List Char → Prop
  | blank {c : Char} {cs : List Char} (hc : Toml.isSpace c = true ∨ c = '\n') (h : Foreign cs) :
    Foreign (c :: cs)
  | word {first : Char} {more rest : List Char} (hf : startsWord first = true)
    (hm : ∀ c ∈ more, continuesWord c = true) (hr : ∀ c ∈ rest.head?, continuesWord c = false)
    (h : Foreign rest) : Foreign (first :: more ++ rest)
  | stray {c : Char} {cs : List Char} (hc : IsStray c) : Foreign (c :: cs)

/-- However its lines end, a foreign text has a stray character. -/
theorem Foreign.pieces {cs : List Char} (h : Foreign cs) :
    ∃ pieces c, Pieces (cs.map Text.feed) pieces ∧ .stray c ∈ pieces := by
  induction h with
  | @blank c cs hc _ ih =>
    obtain ⟨pieces, d, hp, hd⟩ := ih
    have hblank : (Lexeme.blank (Text.feed c)).Fits (cs.map Text.feed) := by
      show Text.isBlank (Text.feed c) = true
      simp only [Toml.isSpace, Bool.or_eq_true, decide_eq_true_eq] at hc
      rcases hc with (rfl | rfl) | rfl <;> decide
    exact ⟨_, d, .cons hblank hp, List.mem_cons_of_mem _ hd⟩
  | @word first more rest hf hm hr _ ih =>
    obtain ⟨pieces, d, hp, hd⟩ := ih
    have hfirst : Text.feed first = first := Text.feed_of_word (startsWord_continuesWord hf)
    have hmore : more.map Text.feed = more :=
      (List.map_congr_left fun c hc => Text.feed_of_word (hm c hc)).trans (List.map_id more)
    have hword : (Lexeme.word first more).Fits (rest.map Text.feed) := by
      refine ⟨hf, hm, ?_⟩
      intro c hc
      rw [List.head?_map] at hc
      obtain ⟨c', hc', rfl⟩ := Option.map_eq_some_iff.1 hc
      rw [Bool.eq_false_iff]
      intro hw
      simpa [hr c' hc'] using Text.word_of_feed hw
    refine ⟨.word first more :: pieces, d, ?_, List.mem_cons_of_mem _ hd⟩
    rw [List.map_append, List.map_cons, hfirst, hmore]
    exact .cons hword hp
  | @stray c cs hc =>
    have hfeed : Text.feed c = c := by
      apply Text.feed_of_ne
      rintro rfl
      exact absurd hc (by decide)
    refine ⟨.stray c :: cut (cs.map Text.feed), c, ?_, List.mem_cons_self⟩
    rw [List.map_cons, hfeed]
    exact .cons (hc.fits _) (pieces_iff.2 rfl)

theorem Foreign.blanks {u cs : List Char} (hu : ∀ c ∈ u, Toml.isSpace c = true) (h : Foreign cs) :
    Foreign (u ++ cs) := by
  induction u with
  | nil => exact h
  | cons c u ih =>
    rw [List.forall_mem_cons] at hu
    exact .blank (.inl hu.1) (ih hu.2)

/-! ## Statements -/

namespace Toml

/-- A text goes on with characters of a kind as long as it can. -/
theorem exists_longest (p : Char → Bool) (cs : List Char) : ∃ u, cs = u ++ cs.dropWhile p ∧
    (∀ c ∈ u, p c = true) ∧ ∀ c ∈ (cs.dropWhile p).head?, p c = false :=
  ⟨cs.takeWhile p, List.takeWhile_append_dropWhile.symm, List.all_eq_true.1 List.all_takeWhile,
    head_dropWhile p cs⟩

theorem isBareChar_ascii {c : Char} (h : isBareChar c = true) : c.toNat < 128 := by
  by_cases hd : c = '-'
  · subst hd
    decide
  · refine continuesWord_ascii ?_
    simp only [isBareChar, continuesWord, hd, Bool.or_eq_true, decide_eq_true_eq, decide_false,
      Bool.or_false, beq_iff_eq] at h ⊢
    exact .inl h

/-- A character of a bare name is one of a word, or stands in no description. -/
theorem isBareChar_cases {c : Char} (h : isBareChar c = true) :
    (startsWord c = true ∨ IsStray c) ∧ (continuesWord c = true ∨ IsStray c) := by
  have hall : ∀ n < 128, isBareChar (Char.ofNat n) = true →
      (startsWord (Char.ofNat n) = true ∨ IsStray (Char.ofNat n)) ∧
        (continuesWord (Char.ofNat n) = true ∨ IsStray (Char.ofNat n)) := by decide
  have hc := hall c.toNat (isBareChar_ascii h)
  rw [Char.ofNat_toNat] at hc
  exact hc h

theorem isQuote_isStray {c : Char} (h : isQuote c = true) : IsStray c := by
  simp only [isQuote, Bool.or_eq_true, decide_eq_true_eq] at h
  rcases h with rfl | rfl <;> decide

/-- A bare name ends where a word does, or holds a character that stands in no description. -/
theorem foreign_bare {name rest : List Char} (hn : ∀ c ∈ name, isBareChar c = true)
    (hr : ∀ c ∈ rest.head?, continuesWord c = false) (h : Foreign rest) : Foreign (name ++ rest) := by
  cases name with
  | nil => exact h
  | cons c name =>
    rw [List.forall_mem_cons] at hn
    rcases (isBareChar_cases hn.1).1 with hstart | hstray
    · -- the word that starts here goes on as long as it can; what follows is left of the name
      obtain ⟨more, hname, hmore, hleft⟩ := exists_longest continuesWord name
      generalize name.dropWhile continuesWord = left at hname hleft
      subst hname
      have hfollows : (∀ d ∈ (left ++ rest).head?, continuesWord d = false) ∧
          Foreign (left ++ rest) := by
        cases left with
        | nil => exact ⟨hr, h⟩
        | cons d left =>
          have hd : continuesWord d = false := hleft d rfl
          have hbare := (isBareChar_cases (hn.2 d (by simp))).2
          rw [hd] at hbare
          exact ⟨hleft, .stray (hbare.resolve_left (by simp))⟩
      rw [List.cons_append, List.append_assoc]
      exact .word hstart hmore hfollows.1 hfollows.2
    · exact .stray hstray

theorem foreign_readName {cs rest : List Char} {name : String} (h : readName cs = some (name, rest))
    (hr : ∀ c ∈ rest.head?, continuesWord c = false) (hf : Foreign rest) : Foreign cs := by
  cases cs with
  | nil => cases h
  | cons c cs =>
    simp only [readName] at h
    split at h
    next hb =>
      cases h
      obtain ⟨name, hcs, hname, -⟩ := exists_longest isBareChar cs
      have hbare := foreign_bare (List.forall_mem_cons.2 ⟨hb, hname⟩) hr hf
      rwa [List.cons_append, ← hcs] at hbare
    next =>
      split at h
      next hq => exact .stray (isQuote_isStray hq)
      next => cases h

/-- Behind the first name of a key comes a dot, or the sign that the key ends with. -/
theorem foreign_readNames {fuel : Nat} {cs rest after : List Char} {names : List String}
    (h : readNames fuel cs = some (names, rest)) (he : expect '=' rest = some after) :
    Foreign cs := by
  cases fuel with
  | zero => cases h
  | succ fuel =>
    simp only [readNames, Option.bind_eq_bind, Option.bind_eq_some_iff] at h
    obtain ⟨⟨name, cs₁⟩, hname, h⟩ := h
    obtain ⟨u, hcs₁, hu, -⟩ := exists_longest isSpace cs₁
    change cs₁ = u ++ skipSpaces cs₁ at hcs₁
    simp only at h
    generalize skipSpaces cs₁ = cs₂ at h hcs₁
    have hsign : ∃ c cs₃, cs₂ = c :: cs₃ ∧ (c = '.' ∨ c = '=') := by
      cases cs₂ with
      | nil =>
        cases h
        cases he
      | cons c cs₃ =>
        refine ⟨c, cs₃, rfl, ?_⟩
        by_cases hdot : c = '.'
        · exact .inl hdot
        · simp only [if_neg hdot] at h
          cases h
          simp only [expect] at he
          split at he
          next heq => exact .inr heq
          next => cases he
    obtain ⟨c, cs₃, rfl, hc⟩ := hsign
    have hstray : Foreign (c :: cs₃) := .stray (by rcases hc with rfl | rfl <;> decide)
    refine foreign_readName hname ?_ (hcs₁ ▸ .blanks hu hstray)
    subst hcs₁
    cases u with
    | nil =>
      intro d hd
      cases hd
      rcases hc with rfl | rfl <;> decide
    | cons d u =>
      intro e he
      cases he
      have hd := hu d (by simp)
      simp only [isSpace, Bool.or_eq_true, decide_eq_true_eq] at hd
      rcases hd with rfl | rfl <;> decide

theorem orMalformed_eq_ok {α : Type} {x : Option α} {a : α} :
    Defect.orMalformed x = .ok a ↔ x = some a := by
  cases x <;> simp [Defect.orMalformed]

theorem foreign_readDefinition {d d' : Document} {cs rest : List Char}
    (h : readDefinition d cs = .ok (d', rest)) : Foreign cs := by
  simp only [readDefinition, bind_eq_ok, orMalformed_eq_ok] at h
  obtain ⟨⟨key, cs₁⟩, hkey, cs₂, hsign, -⟩ := h
  simp only [readKey, Option.bind_eq_bind, Option.bind_eq_some_iff] at hkey
  obtain ⟨⟨names, rest'⟩, hnames, stem, -, heq⟩ := hkey
  cases heq
  exact foreign_readNames hnames hsign

/-- A document is foreign, or there is nothing in it. -/
theorem readStatements_cases {fuel : Nat} {d d' : Document} {cs : List Char}
    (h : readStatements fuel d cs = .ok d') :
    Foreign cs ∨ ∀ c ∈ cs, isSpace c = true ∨ c = '\n' := by
  induction fuel generalizing d cs with
  | zero => cases h
  | succ fuel ih =>
    obtain ⟨u, hcs, hu, -⟩ := exists_longest isSpace cs
    change cs = u ++ skipSpaces cs at hcs
    simp only [readStatements, bind_eq_ok, orMalformed_eq_ok] at h
    generalize skipSpaces cs = rest at h hcs
    subst hcs
    cases rest with
    | nil =>
      right
      intro c hc
      rw [List.append_nil] at hc
      exact .inl (hu c hc)
    | cons c rest =>
      by_cases hc : c = '\n'
      · -- an empty line: what is left is read in the same way
        subst hc
        obtain ⟨_, hstatement, _, hcomment, h⟩ := h
        cases hstatement
        cases hcomment
        rcases ih h with hf | hall
        · exact .inl (.blanks hu (.blank (.inr rfl) hf))
        · right
          intro c hc
          simp only [List.mem_append, List.mem_cons] at hc
          rcases hc with hc | rfl | hc
          · exact .inl (hu c hc)
          · exact .inr rfl
          · exact hall c hc
      · refine .inl (.blanks hu ?_)
        by_cases hhash : c = '#'
        · exact .stray (hhash ▸ by decide)
        by_cases hbracket : c = '['
        · exact .stray (hbracket ▸ by decide)
        obtain ⟨⟨d₁, cs₁⟩, hstatement, -⟩ := h
        have hdefinition : readDefinition d (c :: rest) = .ok (d₁, cs₁) := by
          simpa [readStatement, hc, hhash, hbracket] using hstatement
        exact foreign_readDefinition hdefinition

end Toml

theorem seen_of_blanks {cs : List Char} (h : ∀ c ∈ cs, Text.isBlank c = true) : seen cs = [] := by
  induction cs with
  | nil => rfl
  | cons c cs ih =>
    rw [List.forall_mem_cons] at h
    rw [seen_blank h.1, ih h.2]

/-- Blanks are no description. -/
theorem ofSource_of_blanks {source : String} (h : ∀ c ∈ source.toList, Text.isBlank c = true)
    (file : String) (x : Description × List Report) : Description.ofSource file source ≠ .ok x := by
  obtain ⟨tokens, hscan, hshapes⟩ := @scan_of_seen file source [] (seen_of_blanks h)
  obtain ⟨t, rfl, ht⟩ := List.map_eq_singleton_iff.1 hshapes
  obtain ⟨kind, text, span⟩ := t
  obtain ⟨rfl, rfl⟩ := Prod.mk.inj ht
  rw [Description.ofSource, hscan]
  intro h
  cases h

theorem Toml.read_cases {text : String} {entries : List (String × Toml.Value)}
    (h : Toml.read text = .ok entries) : Foreign (Text.unifyPairs text.toList) ∨
      ∀ c ∈ Text.unifyPairs text.toList, Toml.isSpace c = true ∨ c = '\n' := by
  simp only [Toml.read] at h
  cases hread : Toml.readStatements ((Text.unifyPairs text.toList).length + 1) {}
      (Text.unifyPairs text.toList) with
  | error e =>
    rw [hread] at h
    cases h
  | ok document => exact Toml.readStatements_cases hread

/-- **No settings file is a description.** Whatever is a TOML document is rejected as a
description, however its lines end. -/
theorem settings_text_rejected {text : String} {entries : List (String × Toml.Value)}
    (h : Toml.read text = .ok entries) (file : String) (x : Description × List Report) :
    Description.ofSource file (Text.unified text) ≠ .ok x := by
  rw [Text.unified, Text.unifyNewlines_eq]
  rcases Toml.read_cases h with hf | hall
  · intro hread
    simp only [Description.ofSource, bind_eq_ok, mapError_eq_ok] at hread
    obtain ⟨tokens, hscan, -⟩ := hread
    obtain ⟨pieces, c, hp, hc⟩ := hf.pieces
    have hstray := stray_notMem_of_scan hscan c
    rw [String.toList_ofList, ← pieces_iff.1 hp] at hstray
    exact hstray hc
  · refine ofSource_of_blanks (fun c hc => ?_) file x
    rw [String.toList_ofList, List.mem_map] at hc
    obtain ⟨c, hc, rfl⟩ := hc
    have hblank := hall c hc
    simp only [Toml.isSpace, Bool.or_eq_true, decide_eq_true_eq] at hblank
    rcases hblank with (rfl | rfl) | rfl <;> decide

end TypeDesc
