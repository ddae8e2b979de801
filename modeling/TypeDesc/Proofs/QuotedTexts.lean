/-
What a text between double quotes is read as. A reader takes a body and the quotes
that close it, and no more is read than there is (`readBasic_sound`): an escape
takes more characters than it makes, and a text between three quotes has lost them.
So if the text must be closed before a line feed behind which no two quotes stand
side by side, it is as long as what stands before the last quote only if that is
plain (`readText_bound`), and plain characters are read as they are
(`readText_plain`).
-/
import Mathlib.Data.List.Chain
import TypeDesc.Toml.Text

namespace TypeDesc.Toml

/-! ## Basic texts -/

/-- A character that stands for itself between double quotes. -/
def IsPlainChar (c : Char) : Prop :=
  isLineChar c = true ∧ c ≠ Text.doubleQuote ∧ c ≠ '\\'

instance (c : Char) : Decidable (IsPlainChar c) :=
  inferInstanceAs (Decidable (_ ∧ _ ∧ _))

/-- The quotes that end a basic text. -/
def closing (block : Bool) : List Char :=
  List.replicate (if block then 3 else 1) Text.doubleQuote

theorem pushed_eq_some {c : Char} {reading : Option (List Char × List Char)} {read rest : List Char}
    (h : pushed c reading = some (read, rest)) :
    ∃ more, reading = some (more, rest) ∧ read = c :: more := by
  obtain ⟨⟨more, rest'⟩, hreading, heq⟩ := Option.map_eq_some_iff.1 h
  cases heq
  exact ⟨more, hreading, rfl⟩

/-- What a reader of a basic text takes: a body and the closing quotes. No more is read than there
is, in one line unless the text is a block, and as much only if every character is plain. -/
structure Takes (block : Bool) (state : TextState) (body read : List Char) : Prop where
  length_le : read.length ≤ body.length
  one_line : block = false → '\n' ∉ body
  plain : block = false → state = .plain → read.length = body.length →
    read = body ∧ ∀ c ∈ body, IsPlainChar c

namespace Takes

variable {block : Bool} {state state' : TextState} {c d : Char} {body read : List Char}

/-- A character that nothing is read for. -/
theorem skip (h : Takes block state' body read) (hc : block = false → c ≠ '\n') :
    Takes block state (c :: body) read where
  length_le := Nat.le_succ_of_le h.length_le
  one_line hb := by simpa [h.one_line hb] using (hc hb).symm
  plain _ _ hlength := by
    have hle := h.length_le
    rw [hlength, List.length_cons] at hle
    omega

/-- A character that one is read for. -/
theorem push (h : Takes block .plain body read) (hc : block = false → c ≠ '\n')
    (hplain : block = false → state = .plain → d = c ∧ IsPlainChar c) :
    Takes block state (c :: body) (d :: read) where
  length_le := Nat.succ_le_succ h.length_le
  one_line hb := by simpa [h.one_line hb] using (hc hb).symm
  plain hb hstate hlength := by
    obtain ⟨rfl, hd⟩ := hplain hb hstate
    obtain ⟨rfl, hbody⟩ := h.plain hb rfl (Nat.succ.inj hlength)
    exact ⟨rfl, List.forall_mem_cons.2 ⟨hd, hbody⟩⟩

end Takes

/-- A reader takes what stands before `rest`. -/
def Reads (block : Bool) (state : TextState) (cs read rest : List Char) : Prop :=
  ∃ body, cs = body ++ (closing block ++ rest) ∧ Takes block state body read

/-- Line ends are folded in blocks only. -/
def MayBe (block : Bool) (state : TextState) : Prop :=
  block = false → state ≠ .lineEnd ∧ state ≠ .fold

/-- What is read from `cs` is taken from it. -/
def Sound (block : Bool) (cs : List Char) : Prop :=
  ∀ {state : TextState} {read rest : List Char}, MayBe block state →
    readBasic block state cs = some (read, rest) → Reads block state cs read rest

section

variable {block : Bool} {state state' : TextState} {c d : Char} {cs read rest : List Char}

theorem Sound.skip (hcs : Sound block cs) (hstate : MayBe block state')
    (hc : block = false → c ≠ '\n')
    (h : readBasic block state' cs = some (read, rest)) : Reads block state (c :: cs) read rest := by
  obtain ⟨body, rfl, htakes⟩ := hcs hstate h
  exact ⟨c :: body, rfl, htakes.skip hc⟩

theorem Sound.push (hcs : Sound block cs) (hc : block = false → c ≠ '\n')
    (hplain : block = false → state = .plain → d = c ∧ IsPlainChar c)
    (h : pushed d (readBasic block .plain cs) = some (read, rest)) :
    Reads block state (c :: cs) read rest := by
  obtain ⟨more, hmore, rfl⟩ := pushed_eq_some h
  obtain ⟨body, rfl, htakes⟩ := hcs (fun _ => by simp) hmore
  exact ⟨c :: body, rfl, htakes.push hc hplain⟩

theorem reads_closing : Reads block state (closing block ++ rest) [] rest :=
  ⟨[], rfl, Nat.le_refl _, by simp, fun _ _ _ => ⟨rfl, by simp⟩⟩

/-- A quote closes the text, unless it stands alone in a block. -/
theorem Sound.quote (hcs : Sound block cs)
    (h : (if !block then some ([], cs)
      else if cs.take 2 = [Text.doubleQuote, Text.doubleQuote] then some ([], cs.drop 2)
      else pushed Text.doubleQuote (readBasic block .plain cs)) = some (read, rest)) :
    Reads block state (Text.doubleQuote :: cs) read rest := by
  cases block with
  | false =>
    cases h
    exact reads_closing
  | true =>
    simp only [Bool.not_true, Bool.false_eq_true, if_false] at h
    split at h
    next htake =>
      cases h
      rw [← List.take_append_drop 2 cs, htake]
      exact reads_closing
    next => exact hcs.push (by simp) (by simp) h

/-- A character that is not escaped. -/
theorem Sound.unescaped (hcs : Sound block cs)
    (h : (if c = Text.doubleQuote then
        if !block then some ([], cs)
        else if cs.take 2 = [Text.doubleQuote, Text.doubleQuote] then some ([], cs.drop 2)
        else pushed c (readBasic block .plain cs)
      else if c = '\\' then readBasic block .escape cs
      else if isLineChar c || (block && c = '\n') then pushed c (readBasic block .plain cs)
      else none) = some (read, rest)) :
    Reads block state (c :: cs) read rest := by
  split at h
  next hc =>
    subst hc
    exact hcs.quote h
  next hquote =>
    split at h
    next hc => exact hcs.skip (by simp [MayBe]) (by simp [hc]) h
    next hslash =>
      split at h
      next hc =>
        have hline : block = false → isLineChar c = true := by
          rintro rfl
          simpa using hc
        refine hcs.push (fun hb => ?_) (fun hb _ => ⟨rfl, hline hb, hquote, hslash⟩) h
        rintro rfl
        cases hline hb
      next => cases h

/-- A character behind a backslash. -/
theorem Sound.escaped (hcs : Sound block cs)
    (h : readBasic block .escape (c :: cs) = some (read, rest)) :
    Reads block .escape (c :: cs) read rest := by
  rw [readBasic] at h
  split at h
  next hc => exact hcs.skip (by simp [MayBe]) (by simp [hc]) h
  split at h
  next hc => exact hcs.skip (by simp [MayBe]) (by simp [hc]) h
  split at h
  next hc =>
    obtain ⟨rfl, -⟩ := Bool.and_eq_true_iff.1 hc
    exact hcs.skip (by simp [MayBe]) (by simp) h
  split at h
  next hc =>
    obtain ⟨rfl, -⟩ := Bool.and_eq_true_iff.1 hc
    exact hcs.skip (by simp [MayBe]) (by simp) h
  obtain ⟨d, hd, h⟩ := Option.bind_eq_some_iff.1 h
  refine hcs.push (fun _ => ?_) (by simp) h
  rintro rfl
  cases hd

/-- A digit of a character that is given by its number. -/
theorem Sound.digit {left value : Nat} (hcs : Sound block cs)
    (h : readBasic block (.code left value) (c :: cs) = some (read, rest)) :
    Reads block (.code left value) (c :: cs) read rest := by
  rw [readBasic] at h
  obtain ⟨digit, hdigit, h⟩ := Option.bind_eq_some_iff.1 h
  have hc : c ≠ '\n' := by
    rintro rfl
    cases hdigit
  split at h
  next =>
    obtain ⟨d, -, h⟩ := Option.bind_eq_some_iff.1 h
    exact hcs.push (fun _ => hc) (by simp) h
  next => exact hcs.skip (by simp [MayBe]) (fun _ => hc) h

end

theorem readBasic_sound (block : Bool) (cs : List Char) : Sound block cs := by
  induction cs with
  | nil =>
    intro state read rest _ h
    cases state <;> simp [readBasic] at h
  | cons c cs ih =>
    intro state read rest hstate h
    cases state with
    | escape => exact ih.escaped h
    | code left value => exact ih.digit h
    | plain =>
      simp only [readBasic, reduceCtorEq, decide_false, Bool.false_and, Bool.false_eq_true,
        if_false] at h
      exact ih.unescaped h
    | lineEnd =>
      cases block with
      | false => exact absurd rfl (hstate rfl).1
      | true =>
        rw [readBasic] at h
        split at h
        next => exact ih.skip (by simp [MayBe]) (by simp) h
        split at h
        next => exact ih.skip (by simp [MayBe]) (by simp) h
        next => cases h
    | fold =>
      cases block with
      | false => exact absurd rfl (hstate rfl).2
      | true =>
        simp only [readBasic, decide_true, Bool.true_and] at h
        split at h
        next => exact ih.skip (by simp [MayBe]) (by simp) h
        next => exact ih.unescaped h

/-- A text of plain characters is read as it is. -/
theorem readBasic_plain {cs : List Char} (h : ∀ c ∈ cs, IsPlainChar c) (rest : List Char) :
    readBasic false .plain (cs ++ Text.doubleQuote :: rest) = some (cs, rest) := by
  induction cs with
  | nil => simp [readBasic]
  | cons c cs ih =>
    obtain ⟨⟨hline, hquote, hslash⟩, hcs⟩ := List.forall_mem_cons.1 h
    simp [readBasic, hline, hquote, hslash, ih hcs, pushed]

/-! ## Texts that stand before the end of a line -/

/-- No two quotes stand side by side. -/
def NoPair (cs : List Char) : Prop :=
  cs.IsChain fun a b => ¬ (a = Text.doubleQuote ∧ b = Text.doubleQuote)

instance (cs : List Char) : Decidable (NoPair cs) :=
  inferInstanceAs (Decidable (cs.IsChain _))

theorem NoPair.of_append {a b : List Char} (h : NoPair (a ++ b)) : NoPair b :=
  (List.isChain_append.1 h).2.1

/-- Three quotes stand before a line feed behind which no two do. -/
theorem length_le_of_quotes {before after body rest : List Char} (h : NoPair ('\n' :: after))
    (heq : before ++ '\n' :: after = body ++ (closing true ++ rest)) :
    body.length + 3 ≤ before.length := by
  rcases List.append_eq_append_iff.1 heq with ⟨more, rfl, hmore⟩ | ⟨more, rfl, hmore⟩
  · rw [hmore] at h
    exact absurd ⟨rfl, rfl⟩ (List.isChain_cons_cons.1 h.of_append).1
  · rcases more with _ | ⟨x, _ | ⟨y, _ | ⟨z, more⟩⟩⟩
    · cases hmore
    · cases hmore
    · cases hmore
    · simp only [List.length_append, List.length_cons]
      omega

/-- What is taken in one line stands before a line feed. -/
theorem length_le_of_line {before after body rest : List Char} (h : '\n' ∉ body)
    (heq : before ++ '\n' :: after = body ++ (closing false ++ rest)) :
    body.length + 1 ≤ before.length := by
  rcases List.append_eq_append_iff.1 heq with ⟨more, rfl, hmore⟩ | ⟨more, rfl, hmore⟩
  · cases more with
    | nil => cases hmore
    | cons c more =>
      obtain ⟨rfl, -⟩ := List.cons.inj hmore
      exact absurd (by simp) h
  · cases more with
    | nil => cases hmore
    | cons c more =>
      rw [List.length_append, List.length_cons]
      omega

theorem exists_skipLineEnd (cs : List Char) : ∃ front, cs = front ++ skipLineEnd cs := by
  cases cs with
  | nil => exact ⟨[], rfl⟩
  | cons c cs =>
    rw [skipLineEnd]
    split
    · exact ⟨[c], rfl⟩
    · exact ⟨[], rfl⟩

/-- The quotes that belong to a block stand behind those that close it. -/
theorem withClosingQuotes_eq_some {mark : Char} {reading : Option (List Char × List Char)}
    {whole rest : List Char} (h : withClosingQuotes mark reading = some (whole, rest)) :
    ∃ read extra, reading = some (read, extra ++ rest) ∧ whole = read ++ extra ∧
      extra = List.replicate extra.length mark := by
  obtain ⟨⟨read, rest'⟩, hread, heq⟩ := Option.map_eq_some_iff.1 h
  cases heq
  refine ⟨read, (rest'.take 2).takeWhile (· = mark), ?_, rfl,
    List.eq_replicate_of_mem fun c hc => ?_⟩
  · have hprefix := (List.takeWhile_prefix (· = mark)).trans (List.take_prefix 2 rest')
    rw [List.prefix_iff_eq_append.1 hprefix, hread]
  · simpa using List.all_eq_true.1 List.all_takeWhile c hc

/-- A text between three quotes leaves out those that close it. -/
theorem readBlock_bound {before after rest : List Char} {value : String}
    (hafter : NoPair ('\n' :: after))
    (h : readBlock Text.doubleQuote (before ++ '\n' :: after) = some (value, rest)) :
    value.length + 3 ≤ before.length := by
  rw [readBlock, if_pos rfl] at h
  obtain ⟨⟨whole, rest'⟩, hwhole, heq⟩ := Option.map_eq_some_iff.1 h
  cases heq
  obtain ⟨read, extra, hread, rfl, hextra⟩ := withClosingQuotes_eq_some hwhole
  obtain ⟨body, hbody, htakes⟩ := readBasic_sound _ _ (by simp [MayBe]) hread
  obtain ⟨front, hfront⟩ := exists_skipLineEnd (before ++ '\n' :: after)
  -- the quotes that belong to the text may as well stand before those that close it
  have hquotes : closing true ++ extra = extra ++ closing true := by
    rw [hextra, closing, List.replicate_append_replicate, List.replicate_append_replicate,
      Nat.add_comm]
  have hsplit : before ++ '\n' :: after = (front ++ body ++ extra) ++ (closing true ++ rest) := by
    rw [hfront, hbody, ← List.append_assoc (closing true), hquotes]
    simp only [List.append_assoc]
  have hlength := length_le_of_quotes hafter hsplit
  have hle := htakes.length_le
  rw [String.length_ofList, List.length_append]
  simp only [List.length_append] at hlength
  omega

/-- **A text that is closed before the end of its line is not longer than what stands between the
quotes**, and as long only if every character is plain. -/
theorem readText_bound {cs after rest : List Char} {value : String} (hafter : NoPair ('\n' :: after))
    (h : readText Text.doubleQuote (cs ++ Text.doubleQuote :: '\n' :: after) = some (value, rest)) :
    value.length ≤ cs.length ∧
      (value.length = cs.length → value.toList = cs ∧ ∀ c ∈ cs, IsPlainChar c) := by
  have happend : cs ++ Text.doubleQuote :: '\n' :: after =
      (cs ++ [Text.doubleQuote]) ++ '\n' :: after := by
    simp
  rw [readText] at h
  split at h
  next htake =>
    have htwo : 2 ≤ (cs ++ [Text.doubleQuote]).length := by
      cases cs with
      | nil => cases htake
      | cons c cs => simp
    rw [happend, List.drop_append_of_le_length htwo] at h
    have hblock := readBlock_bound hafter h
    rw [List.length_drop, List.length_append, List.length_singleton] at hblock
    omega
  next =>
    rw [readQuoted, if_pos rfl] at h
    obtain ⟨⟨read, rest'⟩, hread, heq⟩ := Option.map_eq_some_iff.1 h
    cases heq
    obtain ⟨body, hbody, htakes⟩ := readBasic_sound _ _ (by simp [MayBe]) hread
    have hlength := length_le_of_line (htakes.one_line rfl) (happend.symm.trans hbody)
    have hle := htakes.length_le
    rw [List.length_append, List.length_singleton] at hlength
    refine ⟨by rw [String.length_ofList]; omega, fun hvalue => ?_⟩
    rw [String.length_ofList] at hvalue
    obtain ⟨hcs, -⟩ := List.append_inj hbody (by omega)
    obtain ⟨rfl, hplain⟩ := htakes.plain rfl rfl (by omega)
    rw [String.toList_ofList, hcs]
    exact ⟨rfl, hplain⟩

theorem readText_plain {cs : List Char} (h : ∀ c ∈ cs, IsPlainChar c) (rest : List Char) :
    readText Text.doubleQuote (cs ++ Text.doubleQuote :: '\n' :: rest) =
      some (String.ofList cs, '\n' :: rest) := by
  have htake : (cs ++ Text.doubleQuote :: '\n' :: rest).take 2 ≠
      [Text.doubleQuote, Text.doubleQuote] := by
    cases cs with
    | nil =>
      rw [List.nil_append, List.take_succ_cons, List.take_succ_cons, List.take_zero]
      decide
    | cons c cs =>
      obtain ⟨⟨-, hquote, -⟩, -⟩ := List.forall_mem_cons.1 h
      simp [hquote]
  rw [readText, if_neg htake, readQuoted, if_pos rfl, readBasic_plain h]
  rfl

end TypeDesc.Toml
