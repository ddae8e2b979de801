/-
What a text is scanned as, places aside.

`seen` drops the blanks and the comments of a text and keeps the rest in order.
Texts side by side are seen apart unless a word runs on from one into the other
(`seen_append`), and so are the lines of any text (`seen_newline`), so that
moving lines to the right changes nothing (`seen_indented`). A text that
`Spells` certain tokens is scanned as them (`scan_of_seen`).
-/
import TypeDesc.Proofs.WellFormed
import TypeDesc.Text.Block

namespace TypeDesc

/-- The kind and the text of a token. -/
def Token.shape (t : Token) : TokenKind × String :=
  (t.kind, t.text)

/-- What is seen of a lexeme: the shape of its token, nothing for a blank or a comment, and `none`
for a stray character. -/
def Lexeme.seen : Lexeme → List (Option (TokenKind × String))
  | .blank _ | .comment _ => []
  | .word first more => [some (.ofWord (String.ofList (first :: more)), String.ofList (first :: more))]
  | .mark c kind => [some (kind, String.ofList [c])]
  | .stray _ => [none]

/-- What is seen of a text. -/
def seen (cs : List Char) : List (Option (TokenKind × String)) :=
  (Lexeme.cut cs).flatMap Lexeme.seen

/-! ## Cutting -/

namespace Lexeme

theorem cutFrom_eq_cut_drop (skip : Nat) (cs : List Char) : cutFrom skip cs = cut (cs.drop skip) := by
  induction cs generalizing skip with
  | nil => cases skip <;> rfl
  | cons c cs ih =>
    cases skip with
    | zero => rfl
    | succ skip => exact ih skip

theorem cut_cons (c : Char) (cs : List Char) :
    cut (c :: cs) = first c cs :: cut (cs.drop (first c cs).extent) := by
  rw [← cutFrom_eq_cut_drop]
  rfl

/-- Induction along the lexemes of a text. -/
theorem cut_induction {P : List Char → Prop} (nil : P [])
    (cons : ∀ c cs, P (cs.drop (first c cs).extent) → P (c :: cs)) (cs : List Char) : P cs := by
  match cs with
  | [] => exact nil
  | c :: cs => exact cons c cs (cut_induction nil cons (cs.drop (first c cs).extent))
termination_by cs.length
decreasing_by simp only [List.length_drop, List.length_cons]; omega

/-- The lexemes that a text can be cut into. -/
def Genuine : Lexeme → Prop
  | .word first more => startsWord first = true ∧ ∀ c ∈ more, continuesWord c = true
  | .mark c kind => TokenKind.ofMark? c = some kind
  | _ => True

theorem first_genuine (c : Char) (cs : List Char) : (first c cs).Genuine := by
  rw [first]
  split
  next => trivial
  next =>
    split
    next => trivial
    next =>
      split
      next hw => exact ⟨hw, List.all_eq_true.1 (List.all_takeWhile ..)⟩
      next =>
        split
        next hk => exact hk
        next => trivial

theorem extent_first_le (c : Char) (cs : List Char) : (first c cs).extent ≤ cs.length := by
  rw [first]
  split
  next => exact Nat.zero_le _
  next =>
    split
    next h =>
      cases cs with
      | nil => simp at h
      | cons x cs => exact Nat.succ_le_succ (List.takeWhile_sublist _).length_le
    next =>
      split
      next => exact (List.takeWhile_sublist _).length_le
      next => split <;> exact Nat.zero_le _

theorem cut_genuine (cs : List Char) : ∀ lexeme ∈ cut cs, lexeme.Genuine := by
  induction cs using cut_induction with
  | nil => simp [cut, cutFrom]
  | cons c cs ih =>
    rw [cut_cons, List.forall_mem_cons]
    exact ⟨first_genuine c cs, ih⟩

end Lexeme

open Lexeme

theorem seen_cons (c : Char) (cs : List Char) :
    seen (c :: cs) = (first c cs).seen ++ seen (cs.drop (first c cs).extent) := by
  rw [seen, cut_cons, List.flatMap_cons]
  rfl

@[simp] theorem seen_nil : seen [] = [] := rfl

/-! ## The classes of characters -/

theorem continuesWord_ascii {c : Char} (h : continuesWord c = true) : c.toNat < 128 := by
  simp only [continuesWord, Text.isAsciiLetter, Text.isAsciiDigit, Bool.or_eq_true, Bool.and_eq_true,
    decide_eq_true_eq, beq_iff_eq] at h
  rcases h with (((⟨_, h⟩ | ⟨_, h⟩) | ⟨_, h⟩) | rfl) | rfl
  · exact Nat.lt_of_le_of_lt (Char.le_def.1 h) (by decide)
  · exact Nat.lt_of_le_of_lt (Char.le_def.1 h) (by decide)
  · exact Nat.lt_of_le_of_lt (Char.le_def.1 h) (by decide)
  · decide
  · decide

/-- A character of a word is neither a blank nor the start of a comment, and no line ends at it. -/
theorem continuesWord_plain {c : Char} (h : continuesWord c = true) :
    Text.isBlank c = false ∧ c ≠ '/' ∧ Text.isLineBoundary c = false := by
  have hall : ∀ n < 128, continuesWord (Char.ofNat n) = true →
      Text.isBlank (Char.ofNat n) = false ∧ Char.ofNat n ≠ '/' ∧
        Text.isLineBoundary (Char.ofNat n) = false := by decide
  have hc := hall c.toNat (continuesWord_ascii h)
  rw [Char.ofNat_toNat] at hc
  exact hc h

theorem startsWord_continuesWord {c : Char} (h : startsWord c = true) : continuesWord c = true := by
  simp only [startsWord, continuesWord, Bool.or_eq_true] at h ⊢
  rcases h with h | h
  · exact .inl (.inl (.inl h))
  · exact .inl (.inr h)

/-! ## Pieces that are seen apart -/

/-- Whether a word in front of `rest` ends there. -/
def endsWord (rest : List Char) : Bool :=
  rest.head?.all (!continuesWord ·)

/-- Whether no word behind `cs` goes on from there. -/
def startsApart (cs : List Char) : Bool :=
  cs.getLast?.all (!continuesWord ·)

theorem seen_blank {c : Char} (h : Text.isBlank c = true) (cs : List Char) :
    seen (c :: cs) = seen cs := by
  have hf : first c cs = .blank c := by rw [first, if_pos h]
  rw [seen_cons, hf]
  rfl

/-- A run of characters is taken up to the first that does not belong to it. -/
theorem takeWhile_exact {p : Char → Bool} {body rest : List Char} (hbody : ∀ c ∈ body, p c = true)
    (hrest : ∀ c ∈ rest.head?, p c = false) : (body ++ rest).takeWhile p = body := by
  rw [List.takeWhile_append_of_pos hbody]
  cases rest with
  | nil => simp
  | cons c rest =>
    have hc : p c = false := hrest c rfl
    simp [hc]

theorem takeWhile_endsWord {cs : List Char} (hcs : ∀ c ∈ cs, continuesWord c = true)
    (rest : List Char) (hr : endsWord rest = true) : (cs ++ rest).takeWhile continuesWord = cs :=
  takeWhile_exact hcs fun c hc => by simpa using (Option.all_eq_true _ _).1 hr c hc

theorem seen_isName {name : String} (h : IsName name) :
    seen name.toList = [some (.identifier, name)] := by
  obtain ⟨c, cs, hn, hc, hcs⟩ := h.word
  obtain ⟨hb, hs, -⟩ := continuesWord_plain (startsWord_continuesWord hc)
  have hf : first c cs = .word c cs := by
    have ht : cs.takeWhile continuesWord = cs := by simpa using takeWhile_endsWord hcs [] rfl
    simp [first, hb, hs, hc, ht]
  rw [hn, seen_cons, hf, Lexeme.seen, ← hn, String.ofList_toList, h.kind]
  simp [extent]

theorem startsApart_append (a : List Char) {b : List Char} (hb : b ≠ []) :
    startsApart (a ++ b) = startsApart b := by
  rw [startsApart, startsApart, List.getLast?_append, List.getLast?_eq_some_getLast hb, Option.some_or]

theorem startsApart_drop {c : Char} {a : List Char} (h : startsApart (c :: a) = true) (k : Nat) :
    startsApart (a.drop k) = true := by
  rw [startsApart, List.getLast?_drop]
  split
  next => rfl
  next hk =>
    cases a with
    | nil => simp at hk
    | cons x a => simpa [startsApart] using h

/-- The word at the front of a text is the same when another text follows from which it is apart. -/
theorem takeWhile_apart {c : Char} {a b : List Char} (hc : continuesWord c = true)
    (h : endsWord b = true ∨ startsApart (c :: a) = true) :
    (a ++ b).takeWhile continuesWord = a.takeWhile continuesWord := by
  by_cases ha : ∀ x ∈ a, continuesWord x = true
  · have hb : endsWord b = true := by
      refine h.resolve_right fun hl => ?_
      have hlast : continuesWord ((c :: a).getLast (by simp)) = true := by
        rcases List.mem_cons.1 (List.getLast_mem (List.cons_ne_nil c a)) with he | hm
        · rw [he]; exact hc
        · exact ha _ hm
      rw [startsApart, List.getLast?_eq_some_getLast (List.cons_ne_nil c a)] at hl
      simp [hlast] at hl
    have ht : a.takeWhile continuesWord = a := by simpa using takeWhile_endsWord ha [] rfl
    rw [takeWhile_endsWord ha b hb, ht]
  · rw [List.takeWhile_append, if_neg]
    intro hlen
    rw [← (List.takeWhile_sublist continuesWord).eq_of_length hlen] at ha
    exact ha (List.all_eq_true.1 (List.all_takeWhile ..))

theorem first_append {c : Char} {a b : List Char} (hc : c ≠ '/')
    (h : endsWord b = true ∨ startsApart (c :: a) = true) : first c (a ++ b) = first c a := by
  simp only [first, hc, decide_false, Bool.false_and, Bool.false_eq_true, if_false]
  by_cases hw : startsWord c = true
  · rw [takeWhile_apart (startsWord_continuesWord hw) h]
  · simp only [hw, Bool.false_eq_true, if_false]

/-- **Texts without slashes are seen apart** unless a word runs on from one into the other. -/
theorem seen_append {a b : List Char} (hs : '/' ∉ a)
    (h : endsWord b = true ∨ startsApart a = true) : seen (a ++ b) = seen a ++ seen b := by
  induction a using cut_induction with
  | nil => rfl
  | cons c a ih =>
    rw [List.mem_cons, not_or] at hs
    have hrest := ih (fun hm => hs.2 (List.mem_of_mem_drop hm))
      (h.imp_right fun ha => startsApart_drop ha _)
    rw [List.cons_append, seen_cons, first_append (Ne.symm hs.1) h,
      List.drop_append_of_le_length (extent_first_le c a), hrest, seen_cons c a, List.append_assoc]

/-! ## Lines -/

theorem takeWhile_append_stop {p : Char → Bool} {c : Char} (hc : p c = false) (a b : List Char) :
    (a ++ c :: b).takeWhile p = a.takeWhile p := by
  induction a with
  | nil => simp [hc]
  | cons x a ih => simp [List.takeWhile_cons, ih]

theorem first_append_newline (c : Char) (a b : List Char) :
    first c (a ++ '\n' :: b) = first c a := by
  have hh : ((a ++ '\n' :: b).head? = some '/') = (a.head? = some '/') := by
    cases a <;> simp
  simp only [first, hh, takeWhile_append_stop (show continuesWord '\n' = false by decide)]
  cases a with
  | nil => simp
  | cons x a =>
    rw [List.cons_append, List.tail_cons, List.tail_cons, takeWhile_append_stop (by simp)]

/-- **A line feed cuts a text in two.** -/
theorem seen_newline (a b : List Char) : seen (a ++ '\n' :: b) = seen a ++ seen b := by
  induction a using cut_induction with
  | nil => rw [List.nil_append, seen_blank (by decide), seen_nil, List.nil_append]
  | cons c a ih =>
    rw [List.cons_append, seen_cons, first_append_newline,
      List.drop_append_of_le_length (extent_first_le c a), ih, seen_cons c a, List.append_assoc]

namespace Text

theorem splitLines_cons {c : Char} (hc : isLineBoundary c = false) (cs : List Char) :
    splitLines (c :: cs) = consLine c (splitLines cs) := by
  rw [splitLines, if_neg (by simp [hc])]
  rintro cs rfl
  cases hc

theorem splitLines_newline {a : List Char} (ha : ∀ c ∈ a, isLineBoundary c = false) (b : List Char) :
    splitLines (a ++ '\n' :: b) = a :: splitLines b := by
  induction a with
  | nil => simp [splitLines, isLineBoundary]
  | cons c a ih =>
    rw [List.forall_mem_cons] at ha
    rw [List.cons_append, splitLines_cons ha.1, ih ha.2, consLine]

theorem splitLines_line {a : List Char} (ha : ∀ c ∈ a, isLineBoundary c = false) (hne : a ≠ []) :
    splitLines a = [a] := by
  induction a with
  | nil => exact absurd rfl hne
  | cons c a ih =>
    rw [List.forall_mem_cons] at ha
    rw [splitLines_cons ha.1]
    cases a with
    | nil => simp [splitLines_nil, consLine]
    | cons x a => rw [ih ha.2 (by simp), consLine]

theorem mem_of_mem_consLine {c x : Char} {line : List Char} {lines : List (List Char)}
    (hl : line ∈ consLine c lines) (hx : x ∈ line) : x = c ∨ ∃ line' ∈ lines, x ∈ line' := by
  cases lines with
  | nil =>
    simp only [consLine, List.mem_singleton] at hl
    subst hl
    exact .inl (List.mem_singleton.1 hx)
  | cons line' lines =>
    rcases List.mem_cons.1 hl with rfl | hl
    · rcases List.mem_cons.1 hx with rfl | hx
      · exact .inl rfl
      · exact .inr ⟨line', List.mem_cons_self, hx⟩
    · exact .inr ⟨line, List.mem_cons_of_mem _ hl, hx⟩

theorem mem_of_mem_splitLines {x : Char} {cs line : List Char} (hl : line ∈ splitLines cs)
    (hx : x ∈ line) : x ∈ cs := by
  induction cs using splitLines.induct generalizing line with
  | case1 => simp [splitLines] at hl
  | case2 cs ih =>
    rw [splitLines] at hl
    rcases List.mem_cons.1 hl with rfl | hl
    · cases hx
    · exact List.mem_cons_of_mem _ (List.mem_cons_of_mem _ (ih hl hx))
  | case3 c cs hne hb ih =>
    rw [splitLines.eq_3 _ _ hne, if_pos hb] at hl
    rcases List.mem_cons.1 hl with rfl | hl
    · cases hx
    · exact List.mem_cons_of_mem _ (ih hl hx)
  | case4 c cs hne hb ih =>
    rw [splitLines.eq_3 _ _ hne, if_neg hb] at hl
    rcases mem_of_mem_consLine hl hx with rfl | ⟨line', hl, hx⟩
    · exact List.mem_cons_self
    · exact List.mem_cons_of_mem _ (ih hl hx)

end Text

/-- A text is seen line by line. -/
theorem seen_lines (cs : List Char) (h : ∀ c ∈ cs, Text.isLineBoundary c = true → c = '\n') :
    seen cs = (Text.splitLines cs).flatMap seen := by
  by_cases hn : '\n' ∈ cs
  · obtain ⟨a, b, rfl, ha⟩ := List.eq_append_cons_of_mem hn
    have hplain : ∀ c ∈ a, Text.isLineBoundary c = false := fun c hc =>
      Bool.eq_false_iff.2 fun hb => ha (h c (by simp [hc]) hb ▸ hc)
    rw [seen_newline, Text.splitLines_newline hplain, List.flatMap_cons,
      seen_lines b fun c hc => h c (by simp [hc])]
  · have hplain : ∀ c ∈ cs, Text.isLineBoundary c = false := fun c hc =>
      Bool.eq_false_iff.2 fun hb => hn (h c hc hb ▸ hc)
    cases cs with
    | nil => rw [Text.splitLines_nil]; rfl
    | cons c cs => simp [Text.splitLines_line hplain]
termination_by cs.length
decreasing_by simp only [‹cs = _›, List.length_append, List.length_cons]; omega

theorem seen_blanks (n : Nat) (cs : List Char) : seen (List.replicate n ' ' ++ cs) = seen cs := by
  induction n with
  | zero => rfl
  | succ n ih => rw [List.replicate_succ, List.cons_append, seen_blank (by decide), ih]

theorem seen_joinLines (texts : List String) :
    seen (Text.joinWith "\n" texts).toList = texts.flatMap fun text => seen text.toList := by
  induction texts using Text.joinWith.induct with
  | case1 => rfl
  | case2 text => simp [Text.joinWith]
  | case3 text texts hne ih =>
    rw [Text.joinWith.eq_3 _ _ _ hne, List.flatMap_cons, ← ih]
    simp [seen_newline]

/-! ## Plain texts -/

/-- A character that is no slash, and at which no line ends unless it is a line feed. -/
def IsPlain (c : Char) : Prop :=
  c ≠ '/' ∧ (Text.isLineBoundary c = true → c = '\n')

instance (c : Char) : Decidable (IsPlain c) := inferInstanceAs (Decidable (_ ∧ _))

theorem continuesWord_isPlain {c : Char} (h : continuesWord c = true) : IsPlain c := by
  obtain ⟨-, hs, hl⟩ := continuesWord_plain h
  exact ⟨hs, fun hb => by rw [hl] at hb; cases hb⟩

/-- A text of plain characters. -/
def Plain (text : String) : Prop :=
  ∀ c ∈ text.toList, IsPlain c

-- by name: a search may find that there are finitely many characters, and try them all
instance (text : String) : Decidable (Plain text) :=
  List.decidableBAll IsPlain text.toList

namespace Plain

theorem append {a b : String} (ha : Plain a) (hb : Plain b) : Plain (a ++ b) := by
  intro c hc
  rw [String.toList_append, List.mem_append] at hc
  exact hc.elim (ha c) (hb c)

theorem of_isName {name : String} (h : IsName name) : Plain name := by
  obtain ⟨c, cs, hn, hc, hcs⟩ := h.word
  intro x hx
  rw [hn, List.mem_cons] at hx
  rcases hx with rfl | hx
  · exact continuesWord_isPlain (startsWord_continuesWord hc)
  · exact continuesWord_isPlain (hcs x hx)

theorem joinWith {sep : String} (hs : Plain sep) {texts : List String}
    (ht : ∀ text ∈ texts, Plain text) : Plain (Text.joinWith sep texts) := by
  induction texts using Text.joinWith.induct with
  | case1 => exact fun c hc => by cases hc
  | case2 text => exact ht text (by simp)
  | case3 text texts hne ih =>
    rw [Text.joinWith.eq_3 _ _ _ hne]
    exact ((ht text (by simp)).append hs).append (ih fun text' h => ht text' (by simp [h]))

theorem indented {text : String} (h : Plain text) (n : Int) : Plain (Text.indented text n) := by
  refine joinWith (by decide) fun line hl => ?_
  simp only [Text.lines, List.map_map, List.mem_map, Function.comp] at hl
  obtain ⟨cs, hcs, rfl⟩ := hl
  have hl : Plain (String.ofList cs) := fun c hc =>
    h c (Text.mem_of_mem_splitLines hcs (by simpa using hc))
  have hb : Plain (Text.blanks n) := fun c hc => by
    simp only [Text.blanks, String.toList_ofList, List.mem_replicate] at hc
    rw [hc.2]
    decide
  split
  next => exact hl
  next => exact hb.append hl

end Plain

/-- **Indenting changes nothing that is seen.** -/
theorem seen_indented {text : String} (h : Plain text) (n : Int) :
    seen (Text.indented text n).toList = seen text.toList := by
  have hline : ∀ line, seen (if line = "" then line else Text.blanks n ++ line).toList =
      seen line.toList := by
    intro line
    split
    next => rfl
    next => simp [Text.blanks, seen_blanks]
  rw [Text.indented, seen_joinLines, List.flatMap_map]
  simp only [hline]
  rw [Text.lines, List.flatMap_map, seen_lines _ fun c hc => (h c hc).2]
  simp

/-! ## Texts of known tokens -/

/-- A plain text in which the tokens of the given shapes are seen. -/
structure Spells (text : String) (shapes : List (TokenKind × String)) : Prop where
  plain : Plain text
  seen : seen text.toList = shapes.map some

instance (text : String) (shapes : List (TokenKind × String)) : Decidable (Spells text shapes) :=
  decidable_of_iff (Plain text ∧ TypeDesc.seen text.toList = shapes.map some)
    ⟨fun h => ⟨h.1, h.2⟩, fun h => ⟨h.plain, h.seen⟩⟩

namespace Spells

variable {a b : String} {sa sb : List (TokenKind × String)}

theorem name {name : String} (h : IsName name) : Spells name [(.identifier, name)] :=
  ⟨.of_isName h, seen_isName h⟩

theorem append (ha : Spells a sa) (hb : Spells b sb)
    (h : endsWord b.toList = true ∨ startsApart a.toList = true) : Spells (a ++ b) (sa ++ sb) := by
  refine ⟨ha.plain.append hb.plain, ?_⟩
  have hs : '/' ∉ a.toList := fun hm => (ha.plain _ hm).1 rfl
  rw [String.toList_append, seen_append hs h, ha.seen, hb.seen, List.map_append]

theorem ne_nil {shape : TokenKind × String} (h : Spells a (shape :: sa)) : a.toList ≠ [] := by
  intro he
  have hs := h.seen
  rw [he] at hs
  cases hs

theorem indented (ha : Spells a sa) (n : Int) : Spells (Text.indented a n) sa :=
  ⟨ha.plain.indented n, by rw [seen_indented ha.plain, ha.seen]⟩

end Spells

/-! ## Tokens -/

theorem Scanned.ofLexemes_seen (file : String) (p : Position) {lexemes : List Lexeme}
    {shapes : List (TokenKind × String)} (h : lexemes.flatMap Lexeme.seen = shapes.map some) :
    (ofLexemes file p lexemes).reports = [] ∧
      (ofLexemes file p lexemes).tokens.map Token.shape = shapes ++ [(.endOfInput, "")] := by
  induction lexemes generalizing p shapes with
  | nil =>
    obtain rfl : shapes = [] := by simpa using h.symm
    exact ⟨rfl, rfl⟩
  | cons lexeme lexemes ih =>
    rw [List.flatMap_cons] at h
    cases lexeme with
    | blank c => exact ih _ h
    | comment body => exact ih _ h
    | stray c =>
      cases shapes <;> simp [Lexeme.seen] at h
    | word first more =>
      cases shapes with
      | nil => simp [Lexeme.seen] at h
      | cons shape shapes =>
        simp only [Lexeme.seen, List.singleton_append, List.map_cons, List.cons.injEq,
          Option.some.injEq] at h
        obtain ⟨hr, ht⟩ := ih (p.afterAll (Lexeme.word first more).text) h.2
        exact ⟨hr, by rw [← h.1]; exact congrArg _ ht⟩
    | mark c kind =>
      cases shapes with
      | nil => simp [Lexeme.seen] at h
      | cons shape shapes =>
        simp only [Lexeme.seen, List.singleton_append, List.map_cons, List.cons.injEq,
          Option.some.injEq] at h
        obtain ⟨hr, ht⟩ := ih (p.afterAll (Lexeme.mark c kind).text) h.2
        exact ⟨hr, by rw [← h.1]; exact congrArg _ ht⟩

/-- **A text of tokens is scanned as them**, whatever blanks and comments stand between. -/
theorem scan_of_seen (file : String) {source : String} {shapes : List (TokenKind × String)}
    (h : seen source.toList = shapes.map some) :
    ∃ tokens, Token.scan file source = .ok tokens ∧
      tokens.map Token.shape = shapes ++ [(.endOfInput, "")] := by
  obtain ⟨hr, ht⟩ := Scanned.ofLexemes_seen file .start h
  refine ⟨_, ?_, ht⟩
  simp only [Token.scan, hr, List.isEmpty_nil, if_true]

theorem ofMark?_ne_identifier {c : Char} : TokenKind.ofMark? c ≠ some .identifier := by
  unfold TokenKind.ofMark?
  split <;> simp

theorem Lexeme.Genuine.isName {lexeme : Lexeme} (hl : lexeme.Genuine) {file : String} {p : Position}
    {t : Token} (ht : t ∈ lexeme.token? file p) (hk : t.kind = .identifier) : IsName t.text := by
  cases lexeme with
  | blank | comment | stray => cases ht
  | word first more =>
    cases ht
    exact ⟨⟨first, more, String.toList_ofList, hl⟩, hk⟩
  | mark c kind =>
    cases ht
    cases hk
    exact absurd hl ofMark?_ne_identifier

theorem Scanned.ofLexemes_identifier {file : String} {p : Position} {lexemes : List Lexeme}
    (hl : ∀ lexeme ∈ lexemes, lexeme.Genuine) :
    ∀ t ∈ (ofLexemes file p lexemes).tokens, t.kind = .identifier → IsName t.text := by
  induction lexemes generalizing p with
  | nil =>
    intro t ht hk
    rw [List.mem_singleton.1 ht] at hk
    cases hk
  | cons lexeme lexemes ih =>
    rw [List.forall_mem_cons] at hl
    intro t ht hk
    rcases List.mem_append.1 ht with ht | ht
    · exact hl.1.isName (Option.mem_toList.1 ht) hk
    · exact ih hl.2 t ht hk

/-- An identifier among the tokens of a text is a name. -/
theorem scan_identifier {file source : String} {tokens : List Token}
    (h : Token.scan file source = .ok tokens) :
    ∀ t ∈ tokens, t.kind = .identifier → IsName t.text := by
  simp only [Token.scan] at h
  split at h
  next =>
    cases h
    exact Scanned.ofLexemes_identifier (cut_genuine _)
  next => cases h

end TypeDesc
