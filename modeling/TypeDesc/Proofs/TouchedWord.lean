/-
The word that the cursor touches. Of the runs of word characters in a line that
go on in neither direction, exactly one touches a given place, if empty runs
count (`touches_iff`). The editor finds that run at every place but one kind: at
the end of a line it looks from one place before, so that behind a word and one
more character, which is no part of a word, it finds the word, although the
cursor does not touch it (`wordAt_touches_cursor_iff`).
-/
import TypeDesc.Proofs.HoverWords

namespace TypeDesc.Editor

/-! ## Runs in a line -/

/-- The place `i` of the line `cs` is in `word` or at one of its ends, and `word` is a run of word
characters that goes on neither before nor behind. It is empty where no word character is beside
the place. -/
def Touches (cs : List Char) (i : Nat) (word : List Char) : Prop :=
  ∃ left right, cs = left ++ (word ++ right) ∧
    left.length ≤ i ∧ i ≤ left.length + word.length ∧
    (∀ c ∈ word, inWord c = true) ∧
    (∀ c ∈ left.getLast?, inWord c = false) ∧ ∀ c ∈ right.head?, inWord c = false

variable {cs : List Char} {i : Nat} {word : List Char}

/-- The runs before and behind a place make the run that touches it. -/
theorem touches_wordAround (h : i ≤ cs.length) : Touches cs i (wordAround cs i) := by
  have hlength : (cs.take i).reverse.length = i := by simpa using h
  have hbefore : cs.take i = ((cs.take i).reverse.dropWhile inWord).reverse ++
      ((cs.take i).reverse.takeWhile inWord).reverse := by
    rw [← List.reverse_append, List.takeWhile_append_dropWhile, List.reverse_reverse]
  have hsum := congrArg List.length hbefore
  rw [List.length_append, List.length_take_of_le h] at hsum
  refine ⟨((cs.take i).reverse.dropWhile inWord).reverse, (cs.drop i).dropWhile inWord,
    ?_, ?_, ?_, ?_, ?_, head_dropWhile inWord _⟩
  · rw [wordAround, List.append_assoc, List.takeWhile_append_dropWhile, ← List.append_assoc,
      ← hbefore, List.take_append_drop]
  · omega
  · rw [wordAround, List.length_append]
    omega
  · intro c hc
    rcases List.mem_append.1 hc with hc | hc
    · exact List.all_eq_true.1 List.all_takeWhile c (List.mem_reverse.1 hc)
    · exact List.all_eq_true.1 List.all_takeWhile c hc
  · intro c hc
    rw [List.getLast?_reverse] at hc
    exact head_dropWhile inWord _ c hc

/-- **Exactly one run touches a place of a line.** -/
theorem touches_iff : Touches cs i word ↔ i ≤ cs.length ∧ word = wordAround cs i := by
  constructor
  · rintro ⟨left, right, rfl, hfirst, hlast, hword, hleft, hright⟩
    obtain ⟨k, rfl⟩ : ∃ k, i = left.length + k := ⟨i - left.length, by omega⟩
    refine ⟨?_, (wordAround_word hword hleft hright (by omega)).symm⟩
    simp only [List.length_append]
    omega
  · rintro ⟨h, rfl⟩
    exact touches_wordAround h

/-- The run is empty exactly if no word character is beside the place. -/
theorem touches_nil_iff : Touches cs i [] ↔ i ≤ cs.length ∧
    (∀ c ∈ (cs.take i).getLast?, inWord c = false) ∧ ∀ c ∈ (cs.drop i).head?, inWord c = false := by
  constructor
  · rintro ⟨left, right, rfl, hfirst, hlast, -, hleft, hright⟩
    obtain rfl : i = left.length := by simp only [List.length_nil] at hlast; omega
    rw [List.nil_append, List.take_left, List.drop_left]
    exact ⟨by simp, hleft, hright⟩
  · rintro ⟨h, hleft, hright⟩
    exact ⟨cs.take i, cs.drop i, by simp, by simp, by simp [h], by simp, hleft, hright⟩

/-! ## Places of a text -/

/-- The line `cs` of a text, and the place of a character in it: from before the first to behind
the last one. -/
def InLine (source : String) (line character : Int) (cs : List Char) : Prop :=
  0 ≤ line ∧ (Text.splitLines source.toList)[line.toNat]? = some cs ∧
    0 ≤ character ∧ character ≤ cs.length

/-- The word that the cursor touches; outside of the text there is none. -/
def TouchedAt (source : String) (line character : Int) (word : String) : Prop :=
  (∃ cs, InLine source line character cs ∧ Touches cs character.toNat word.toList) ∨
    (¬ ∃ cs, InLine source line character cs) ∧ word = ""

/-- The cursor is at the end of a line whose last character is in no word, but the one before is. -/
def BehindMark (source : String) (line character : Int) : Prop :=
  ∃ front d, InLine source line character (front ++ [d]) ∧ character = front.length + 1 ∧
    inWord d = false ∧ ∃ c ∈ front.getLast?, inWord c = true

section

variable {source : String} {line character : Int}

theorem InLine.unique {cs' : List Char} (h : InLine source line character cs)
    (h' : InLine source line character cs') : cs = cs' :=
  Option.some.inj (h.2.1.symm.trans h'.2.1)

theorem InLine.wordAt (h : InLine source line character cs) :
    wordAt source line character = String.ofList (wordInLine cs character) := by
  rw [Editor.wordAt, if_neg (by have := h.1; omega), h.2.1]

/-- Outside of the text there is no word. -/
theorem wordAt_outside (h : ¬ ∃ cs, InLine source line character cs) :
    wordAt source line character = "" := by
  rw [wordAt]
  split
  next => rfl
  next hline =>
    split
    next cs hcs =>
      have hout : character < 0 ∨ (cs.length : Int) < character := by
        by_contra hin
        exact h ⟨cs, by omega, hcs, by omega, by omega⟩
      have hnil : wordInLine cs character = [] := by
        rw [wordInLine]
        split
        next => rfl
        next => rw [if_neg (by omega), if_neg (by simp; omega)]
      rw [hnil, String.ofList_nil]
    next => rfl

theorem InLine.touchedAt_iff (h : InLine source line character cs) {word : String} :
    TouchedAt source line character word ↔ word.toList = wordAround cs character.toNat := by
  have hlast : character.toNat ≤ cs.length := by have := h.2.2; omega
  constructor
  · rintro (⟨cs', h', ht⟩ | ⟨hno, -⟩)
    · obtain rfl := h.unique h'
      exact (touches_iff.1 ht).2
    · exact absurd ⟨cs, h⟩ hno
  · intro hword
    exact .inl ⟨cs, h, touches_iff.2 ⟨hlast, hword⟩⟩

/-- Every place touches exactly one word. -/
theorem exists_unique_touchedAt (source : String) (line character : Int) :
    ∃! word, TouchedAt source line character word := by
  by_cases hin : ∃ cs, InLine source line character cs
  · obtain ⟨cs, h⟩ := hin
    refine ⟨String.ofList (wordAround cs character.toNat),
      h.touchedAt_iff.2 String.toList_ofList, fun word hword => ?_⟩
    rw [← h.touchedAt_iff.1 hword, String.ofList_toList]
  · refine ⟨"", .inr ⟨hin, rfl⟩, ?_⟩
    rintro word (hword | ⟨-, rfl⟩)
    · exact absurd (hword.imp fun _ h => h.1) hin
    · rfl

/-- No word is touched exactly if no word character is beside the place. -/
theorem touchedAt_empty_iff (source : String) (line character : Int) :
    TouchedAt source line character "" ↔ ∀ cs, InLine source line character cs →
      (∀ c ∈ (cs.take character.toNat).getLast?, inWord c = false) ∧
        ∀ c ∈ (cs.drop character.toNat).head?, inWord c = false := by
  constructor
  · rintro (⟨cs, h, ht⟩ | ⟨hno, -⟩) cs' h'
    · obtain rfl := h.unique h'
      exact (touches_nil_iff.1 ht).2
    · exact absurd ⟨cs', h'⟩ hno
  · intro hall
    by_cases hin : ∃ cs, InLine source line character cs
    · obtain ⟨cs, h⟩ := hin
      have hlast : character.toNat ≤ cs.length := by have := h.2.2; omega
      exact .inl ⟨cs, h, touches_nil_iff.2 ⟨hlast, hall cs h⟩⟩
    · exact .inr ⟨hin, rfl⟩

end

/-! ## The end of a line -/

/-- Around the last character of a line. -/
theorem wordAround_last (front : List Char) (d : Char) :
    wordAround (front ++ [d]) front.length =
      wordAround front front.length ++ if inWord d then [d] else [] := by
  rw [wordAround, wordAround, List.take_left, List.drop_left, List.take_length, List.drop_length,
    List.takeWhile_nil, List.append_nil, List.takeWhile_cons, List.takeWhile_nil]

/-- At the end of a line only what is before counts. -/
theorem wordAround_end (front : List Char) (d : Char) :
    wordAround (front ++ [d]) (front ++ [d]).length =
      if inWord d then wordAround front front.length ++ [d] else [] := by
  simp only [wordAround, List.take_length, List.drop_length, List.takeWhile_nil, List.append_nil,
    List.reverse_append, List.reverse_singleton, List.singleton_append, List.takeWhile_cons]
  split
  next => rw [List.reverse_cons]
  next => rfl

/-- The end of a line touches a run exactly if the last character is in it. -/
theorem wordAround_end_eq_nil_iff (front : List Char) :
    wordAround front front.length = [] ↔ ∀ c ∈ front.getLast?, inWord c = false := by
  rcases List.eq_nil_or_concat front with rfl | ⟨init, c, rfl⟩
  · simp [wordAround]
  · rw [List.concat_eq_append, wordAround_end]
    by_cases hc : inWord c = true
    · simp [hc]
    · simp [hc]

section

variable {source : String} {line character : Int}

/-- Before the end of a line, the word is found. -/
theorem InLine.wordAt_of_lt (h : InLine source line character cs) (hlt : character < cs.length) :
    Editor.wordAt source line character = String.ofList (wordAround cs character.toNat) := by
  rw [h.wordAt, wordInLine, if_neg (by have := h.2.2; omega), if_pos hlt]

/-- At the end of a line, it is looked for one place before. -/
theorem InLine.wordAt_end {front : List Char} {d : Char}
    (h : InLine source line character (front ++ [d])) (hend : character = front.length + 1) :
    Editor.wordAt source line character =
      String.ofList (wordAround (front ++ [d]) front.length) := by
  have hlength : ((front ++ [d]).length : Int) = character := by simp [hend]
  have hback : (character - 1).toNat = front.length := by omega
  rw [h.wordAt, wordInLine, if_neg (by omega), hlength, if_neg (by omega), if_pos (by simp; omega),
    hback]

/-- A place in a line is before its end, or the line is empty, or it ends with a character. -/
theorem InLine.cases (h : InLine source line character cs) :
    character < cs.length ∨ (cs = [] ∧ character = 0) ∨
      ∃ front d, cs = front ++ [d] ∧ character = front.length + 1 := by
  obtain ⟨-, -, hpos, hle⟩ := h
  rcases List.eq_nil_or_concat cs with rfl | ⟨front, d, rfl⟩
  · exact .inr (.inl ⟨rfl, by simp only [List.length_nil] at hle; omega⟩)
  · rw [List.concat_eq_append, List.length_append, List.length_singleton] at hle ⊢
    by_cases hlt : character < (front.length + 1 : Nat)
    · exact .inl hlt
    · exact .inr (.inr ⟨front, d, rfl, by omega⟩)

theorem InLine.behindMark_iff {front : List Char} {d : Char}
    (h : InLine source line character (front ++ [d])) (hend : character = front.length + 1) :
    BehindMark source line character ↔
      inWord d = false ∧ ∃ c ∈ front.getLast?, inWord c = true := by
  constructor
  · rintro ⟨front', d', h', -, hd, hc⟩
    obtain ⟨rfl, heq⟩ := List.append_inj' (h.unique h') rfl
    obtain rfl := (List.cons.inj heq).1
    exact ⟨hd, hc⟩
  · rintro ⟨hd, hc⟩
    exact ⟨front, d, h, hend, hd, hc⟩

theorem InLine.not_behindMark (h : InLine source line character cs)
    (hlt : character < cs.length ∨ cs = []) : ¬ BehindMark source line character := by
  rintro ⟨front, d, h', hend, -⟩
  obtain rfl := h.unique h'
  rw [List.length_append, List.length_singleton] at hlt
  rcases hlt with hlt | hnil
  · omega
  · simp at hnil

end

/-- Around the last character and behind it is the same run, unless that character divides them. -/
theorem wordAround_last_eq_end_iff (front : List Char) (d : Char) :
    wordAround (front ++ [d]) front.length = wordAround (front ++ [d]) (front ++ [d]).length ↔
      ¬ (inWord d = false ∧ ∃ c ∈ front.getLast?, inWord c = true) := by
  rw [wordAround_last, wordAround_end]
  by_cases hd : inWord d = true
  · simp [hd]
  · have hnil := wordAround_end_eq_nil_iff front
    simp only [hd, Bool.false_eq_true, if_false, List.append_nil, hnil]
    simp

/-- **The editor finds the word that the cursor touches, but for one kind of place.** The runs of
word characters that go on in neither direction are the words of a line; each place touches exactly
one of them, which is empty if no word character is beside the place, and outside of the text there
is none. The editor finds this word exactly if the cursor is not at the end of a line behind a
character of a word and one more character, which is none. There the cursor touches no word, and
what is found is the word that it would touch one place before. -/
theorem wordAt_touches_cursor_iff (source : String) (line character : Int) :
    (∃! word, TouchedAt source line character word) ∧
      (TouchedAt source line character "" ↔ ∀ cs, InLine source line character cs →
        (∀ c ∈ (cs.take character.toNat).getLast?, inWord c = false) ∧
          ∀ c ∈ (cs.drop character.toNat).head?, inWord c = false) ∧
      (TouchedAt source line character (wordAt source line character) ↔
        ¬ BehindMark source line character) ∧
      (BehindMark source line character → TouchedAt source line character "" ∧
        wordAt source line character ≠ "" ∧
        TouchedAt source line (character - 1) (wordAt source line character)) := by
  refine ⟨exists_unique_touchedAt source line character,
    touchedAt_empty_iff source line character, ?_⟩
  by_cases hin : ∃ cs, InLine source line character cs
  · obtain ⟨cs, h⟩ := hin
    rcases h.cases with hlt | ⟨rfl, rfl⟩ | ⟨front, d, rfl, hend⟩
    · have hno := h.not_behindMark (.inl hlt)
      rw [h.touchedAt_iff, h.wordAt_of_lt hlt, String.toList_ofList]
      exact ⟨iff_of_true rfl hno, fun hmark => absurd hmark hno⟩
    · have hno := h.not_behindMark (.inr rfl)
      rw [h.touchedAt_iff, h.wordAt, String.toList_ofList]
      exact ⟨iff_of_true rfl hno, fun hmark => absurd hmark hno⟩
    · have hlength : character.toNat = (front ++ [d]).length := by
        rw [List.length_append, List.length_singleton]
        omega
      have hbefore : InLine source line (character - 1) (front ++ [d]) :=
        ⟨h.1, h.2.1, by omega, by have := h.2.2.2; omega⟩
      have hback : (character - 1).toNat = front.length := by omega
      rw [h.touchedAt_iff, h.touchedAt_iff, hbefore.touchedAt_iff, h.behindMark_iff hend,
        h.wordAt_end hend, String.toList_ofList, hlength, hback, wordAround_last_eq_end_iff]
      refine ⟨Iff.rfl, ?_⟩
      rintro ⟨hd, c, hc, hword⟩
      refine ⟨?_, ?_, rfl⟩
      · rw [wordAround_end, hd]
        rfl
      · intro hnil
        have hfront : wordAround front front.length = [] := by
          rw [wordAround_last, hd] at hnil
          simpa using congrArg String.toList hnil
        rw [(wordAround_end_eq_nil_iff front).1 hfront c hc] at hword
        cases hword
  · have hno : ¬ BehindMark source line character := by
      rintro ⟨front, d, h, -⟩
      exact hin ⟨_, h⟩
    exact ⟨iff_of_true (.inr ⟨hin, wordAt_outside hin⟩) hno, fun hmark => absurd hmark hno⟩

/-- **Behind a mark at the end of a line the editor finds a word that the cursor does not touch.** -/
theorem wordAt_behind_mark : wordAt "a(" 0 2 = "a" ∧ ¬ TouchedAt "a(" 0 2 "a" ∧
    TouchedAt "a(" 0 2 "" := by
  have hline : InLine "a(" 0 2 ['a', '('] := ⟨by decide, by decide +kernel, by decide, by decide⟩
  refine ⟨by decide +kernel, ?_, ?_⟩
  · rw [hline.touchedAt_iff]
    decide
  · rw [hline.touchedAt_iff]
    decide

end TypeDesc.Editor
