/-
Reading comes to an end.

The last token of a list stays in view, so that taking it brings the reader no
nearer to the end of the list. What runs down there is the patience of the
reader: how often a token of that kind can still fit (`Reader.patience`). A mark
that closes fits once for each open level, any other token at most twice, and
only an opening parenthesis fits again and again (`opening_fits_forever`). With
any other last token all runs are short, and reading gives the answer at which
its run ends (`reading_ends`): the bound on how often the last token is taken is
never met.
-/
import Mathlib.Logic.Relation
import TypeDesc.Proofs.CompileOutcome

namespace TypeDesc

/-! ## How often a token can fit -/

/-- Whether a token of the kind closes levels. -/
def TokenKind.closes : TokenKind → Bool
  | .closeParen | .closeBrace => true
  | _ => false

/-- How often a token of a kind can be taken in a row from a focus on, not counting the levels that
it closes: not at all where such a token has led, twice for the name of a parameter that is also
taken for the body, and otherwise once. -/
def Focus.patience : TokenKind → Focus → Nat
  | .paramsKeyword, .paramName => 0
  | .recKeyword, .recName => 0
  | .aliasKeyword, .bodyName => 0
  | .void, .operator _ | .unit, .operator _ => 0
  | .closeParen, .operator _ | .closeBrace, .operator _ => 0
  | .plus, .operand | .star, .operand | .colon, .operand | .openBrace, .operand => 0
  | .openBrace, .ctorName _ | .comma, .ctorName _ => 0
  | .comma, .paramName => 0
  | .identifier, .operator _ | .identifier, .recOpen _ | .identifier, .bodyOpen _ => 0
  | .identifier, .ctorEnd .. => 0
  | .identifier, .paramName => 2
  | _, _ => 1

theorem Focus.patience_le (kind : TokenKind) (focus : Focus) : focus.patience kind ≤ 2 := by
  unfold Focus.patience
  split <;> omega

namespace Reader

/-- How often a token of a kind can be taken in a row. -/
def patience (kind : TokenKind) (r : Reader) : Nat :=
  r.focus.patience kind + if kind.closes then r.levels.length else 0

theorem patience_le (kind : TokenKind) (r : Reader) : r.patience kind ≤ r.levels.length + 2 := by
  have hfocus := r.focus.patience_le kind
  unfold patience
  split <;> omega

/-- What a token that fits does to a reader: it opens at most one level, and it uses up patience,
unless it is an opening parenthesis. -/
structure Spends (t : Token) (r r' : Reader) : Prop where
  levels : r'.levels.length ≤ r.levels.length + 1
  less : t.kind ≠ .openParen → r'.patience t.kind < r.patience t.kind

section

variable {r r' : Reader} {t : Token}

theorem Spends.once (hlevels : r'.levels.length ≤ r.levels.length)
    (h : r'.focus.patience t.kind < r.focus.patience t.kind) : r.Spends t r' where
  levels := by omega
  less _ := by
    rw [patience, patience]
    split <;> omega

theorem Spends.opening (hkind : t.kind.closes = false)
    (hlevels : r'.levels.length ≤ r.levels.length + 1)
    (h : r'.focus.patience t.kind < r.focus.patience t.kind) : r.Spends t r' where
  levels := hlevels
  less _ := by simpa [patience, hkind] using h

theorem Spends.closing (hkind : t.kind.closes = true)
    (hlevels : r'.levels.length < r.levels.length)
    (h : r'.focus.patience t.kind = 0) : r.Spends t r' where
  levels := by omega
  less _ := by
    rw [patience, patience, if_pos hkind, if_pos hkind]
    omega

theorem operand_spends (hf : r.focus = .start ∨ r.focus = .paramEnd ∨ r.focus = .operand)
    (hs : r.operand t = .next r') : r.Spends t r' := by
  simp only [operand] at hs
  split at hs <;> cases hs
  case h_4 hk => exact ⟨by simp [enter], fun hne => absurd hk hne⟩
  all_goals
    rename_i hk
    refine .once (Nat.le_refl _) ?_
    rcases hf with hf | hf | hf <;> simp [Focus.patience, resolve, hk, hf]

theorem beginBody_spends (hf : r.focus = .start ∨ r.focus = .paramEnd)
    (hs : r.beginBody t = .next r') : r.Spends t r' := by
  have h := operand_spends (r := { r with bodyStart := some t.span }) (hf.imp_right .inl) hs
  exact ⟨h.levels, h.less⟩

/-- Behind a constructor, a comma leads to the next one and a brace to the end of the type. -/
theorem afterCtor_next {type : OpenType} {ctor : String} {payload : Expr}
    (hs : r.afterCtor type ctor payload t = .next r') :
    r'.levels = r.levels ∧ r'.focus.patience t.kind = 0 ∧
      (t.kind = .comma ∨ t.kind = .closeBrace) := by
  simp only [afterCtor] at hs
  split at hs <;> cases hs
  next hk => exact ⟨rfl, by rw [hk]; rfl, .inl hk⟩
  next hk => exact ⟨rfl, by rw [hk]; rfl, .inr hk⟩

theorem closing_spends {last : Expr} (hf : r.focus = .operator last)
    (hs : r.closing last t = .next r') : r.Spends t r' := by
  simp only [Reader.closing] at hs
  split at hs
  next => split at hs <;> cases hs
  next outer levels hl =>
    split at hs <;> cases hs
    next hk => exact .closing (by rw [hk]; rfl) (by simp [leave, hl]) (by rw [hk]; rfl)
  next type ctor outer levels hl =>
    obtain ⟨hlevels, hzero, hk⟩ := afterCtor_next hs
    have hless : r'.levels.length < r.levels.length := by simp [hlevels, leave, hl]
    rcases hk with hk | hk
    · exact .once (Nat.le_of_lt hless) (by rw [hzero, hk, hf]; exact Nat.one_pos)
    · exact .closing (by rw [hk]; rfl) hless hzero
  next name outer levels hl =>
    split at hs <;> cases hs
    next hk =>
      exact .closing (by rw [hk]; rfl) (by simp [closeBody, leave, hl]) (by rw [hk]; rfl)

/-- **A token that fits uses up patience**, at every focus. -/
theorem step_spends (hs : r.step t = .next r') : r.Spends t r' := by
  cases hf : r.focus with
  | start =>
    simp only [step, hf] at hs
    split at hs
    next hk =>
      cases hs
      exact .once (Nat.le_refl _) (by simp [Focus.patience, hk, hf])
    next => exact beginBody_spends (.inl hf) hs
  | paramName =>
    simp only [step, hf] at hs
    split at hs <;> cases hs
    next hk => exact .once (Nat.le_refl _) (by simp [Focus.patience, addParam, hk, hf])
  | paramEnd =>
    simp only [step, hf] at hs
    split at hs
    next hk =>
      cases hs
      exact .once (Nat.le_refl _) (by simp [Focus.patience, hk, hf])
    next => exact beginBody_spends (.inr hf) hs
  | operand =>
    simp only [step, hf] at hs
    exact operand_spends (.inr (.inr hf)) hs
  | operator last =>
    simp only [step, hf] at hs
    split at hs
    next hk =>
      cases hs
      exact .once (Nat.le_refl _) (by simp [Focus.patience, hk, hf])
    next hk =>
      cases hs
      exact .once (Nat.le_refl _) (by simp [Focus.patience, hk, hf])
    next => exact closing_spends hf hs
  | recName | bodyName =>
    simp only [step, hf] at hs
    split at hs <;> cases hs
    next hk => exact .once (Nat.le_refl _) (by simp [Focus.patience, hk, hf])
  | recOpen name =>
    simp only [step, hf] at hs
    split at hs <;> cases hs
    next hk => exact .once (Nat.le_refl _) (by simp [Focus.patience, hk, hf])
  | bodyOpen name =>
    simp only [step, hf] at hs
    split at hs <;> cases hs
    next hk =>
      exact .opening (by rw [hk]; rfl) (Nat.le_refl _) (by simp [Focus.patience, enter, hk, hf])
  | ctorName type =>
    simp only [step, hf] at hs
    split at hs <;> cases hs
    next hk => exact .once (Nat.le_refl _) (by simp [Focus.patience, closeType, hk, hf])
    next hk => exact .once (Nat.le_refl _) (by simp [Focus.patience, hk, hf])
  | ctorEnd type ctor =>
    simp only [step, hf] at hs
    split at hs
    next hk =>
      cases hs
      exact .opening (by rw [hk]; rfl) (Nat.le_refl _) (by simp [Focus.patience, enter, hk, hf])
    next =>
      obtain ⟨hlevels, hzero, hk⟩ := afterCtor_next hs
      refine .once (Nat.le_of_eq (congrArg List.length hlevels)) ?_
      rw [hzero, hf]
      rcases hk with hk | hk <;> simp [Focus.patience, hk]

end

/-! ## Runs of the reader -/

/-- A reader before a token, with the place of the token before and the tokens behind. -/
structure View where
  reader : Reader
  last : Span
  token : Token
  rest : List Token

namespace View

/-- The view once the token is taken: the next one stands before the reader, or the same again if
there is no other. -/
def after (v : View) (r : Reader) : View :=
  match v.rest with
  | [] => { v with reader := r }
  | t :: ts => ⟨r, v.token.span, t, ts⟩

/-- The token fits, and reading goes on behind it. -/
def Moves (v v' : View) : Prop :=
  ∃ r, v.reader.step v.token = .next r ∧ v' = v.after r

/-- The answer, if reading ends at the token. -/
def answer? (file : String) (v : View) :
    Option (Except (List Report) (Description × List Report)) :=
  match v.reader.step v.token with
  | .next _ => none
  | .done body => some (v.reader.finish file body v.last)
  | .stop expected => some (.error (v.reader.stopped expected v.token))

/-- The last token of the list. -/
def final (v : View) : Token :=
  (v.token :: v.rest).getLast (List.cons_ne_nil _ _)

/-- How many tokens can still be taken. Each token before the last one may open a level, which the
last one may close. -/
def room (v : View) : Nat :=
  match v.rest with
  | [] => v.reader.patience v.token.kind
  | ts => 2 * ts.length + v.reader.levels.length + 2

theorem room_le (v : View) : v.room ≤ 2 * v.rest.length + v.reader.levels.length + 2 := by
  unfold room
  split
  next hrest =>
    have hpatience := v.reader.patience_le v.token.kind
    rw [hrest, List.length_nil]
    omega
  next => exact Nat.le_refl _

/-- **A token that is taken uses up room**, also where it is the last. -/
theorem Moves.room_lt {v v' : View} (h : v.Moves v') (hv : v.final.kind ≠ .openParen) :
    v'.room < v.room ∧ v'.final = v.final := by
  obtain ⟨r, hs, rfl⟩ := h
  have hspends := step_spends hs
  obtain ⟨reader, last, token, rest⟩ := v
  cases rest with
  | nil => exact ⟨hspends.less hv, rfl⟩
  | cons t ts =>
    have hroom := room_le ⟨r, token.span, t, ts⟩
    have hlevels := hspends.levels
    simp only [after, room, final, List.length_cons] at hroom hlevels ⊢
    exact ⟨by omega, by simp⟩

/-- A run takes no more tokens than there is room for. -/
theorem length_le_room {v : View} {vs : List View} (hv : v.final.kind ≠ .openParen)
    (h : List.IsChain Moves (v :: vs)) : vs.length ≤ v.room := by
  induction vs generalizing v with
  | nil => exact Nat.zero_le _
  | cons v' vs ih =>
    obtain ⟨hmoves, hrun⟩ := List.isChain_cons_cons.1 h
    obtain ⟨hless, hfinal⟩ := hmoves.room_lt hv
    have hlength := ih (hfinal ▸ hv) hrun
    rw [List.length_cons]
    omega

end View

/-- An opening parenthesis in the last place, where a type must start, fits any number of times. -/
theorem opening_fits_forever {v : View} (hf : v.reader.focus = .operand)
    (hk : v.token.kind = .openParen) (hrest : v.rest = []) (n : Nat) :
    ∃ vs, vs.length = n ∧ List.IsChain View.Moves (v :: vs) := by
  induction n generalizing v with
  | zero => exact ⟨[], rfl, .singleton v⟩
  | succ n ih =>
    have hmoves : v.Moves { v with reader := v.reader.enter .parens } :=
      ⟨v.reader.enter .parens, by simp [step, operand, hf, hk], by simp [View.after, hrest]⟩
    obtain ⟨vs, hlength, hrun⟩ := ih (v := { v with reader := v.reader.enter .parens }) rfl hk hrest
    exact ⟨_ :: vs, by rw [List.length_cons, hlength], List.isChain_cons_cons.2 ⟨hmoves, hrun⟩⟩

/-! ## The answer of a run -/

open Relation (ReflTransGen)

/-- With a bound above the patience of the reader, the last token is taken until it does not fit. -/
theorem takeAgain_ends {t : Token} (last : Span) (hopen : t.kind ≠ .openParen)
    (hend : t.kind ≠ .endOfInput) {bound : Nat} : ∀ {r : Reader}, r.patience t.kind < bound →
    ∃ r' expected, ReflTransGen View.Moves ⟨r, last, t, []⟩ ⟨r', last, t, []⟩ ∧
      r'.step t = .stop expected ∧ r.takeAgain t bound = r'.stopped expected t := by
  induction bound with
  | zero => exact fun h => absurd h (Nat.not_lt_zero _)
  | succ bound ih =>
    intro r hbound
    cases hs : r.step t with
    | next r' =>
      have hless := (step_spends hs).less hopen
      have hbound' : r'.patience t.kind < bound := by omega
      obtain ⟨r'', expected, hrun, hstop, htake⟩ := ih hbound'
      refine ⟨r'', expected, .head ⟨r', hs, rfl⟩ hrun, hstop, ?_⟩
      rw [takeAgain, hs]
      exact htake
    | stop expected => exact ⟨r, expected, .refl, hs, by rw [takeAgain, hs]⟩
    | done body => exact absurd (step_done hs).1 hend

/-- **A run ends with the answer that is given.** The induction is on the tokens behind the first;
only in the last place does it need the bound. -/
theorem run_ends (file : String) {ts : List Token} : ∀ (r : Reader) (last : Span) (t : Token),
    (View.final ⟨r, last, t, ts⟩).kind ≠ .openParen →
    ∃ v, ReflTransGen View.Moves ⟨r, last, t, ts⟩ v ∧
      v.answer? file = some (run file r last t ts) := by
  induction ts with
  | nil =>
    intro r last t hopen
    cases hs : r.step t with
    | next r' =>
      have hkind : t.kind ≠ .openParen := hopen
      have hend : t.kind ≠ .endOfInput := fun hk => step_endOfInput hk hs
      have hpatience := r'.patience_le t.kind
      have hbound : r'.patience t.kind < r'.levels.length + 3 := by omega
      obtain ⟨r'', expected, hrun, hstop, htake⟩ := takeAgain_ends last hkind hend hbound
      refine ⟨⟨r'', last, t, []⟩, .head ⟨r', hs, rfl⟩ hrun, ?_⟩
      simp only [View.answer?, hstop, run, hs, htake]
    | stop expected => exact ⟨_, .refl, by simp only [View.answer?, run, hs]⟩
    | done body => exact ⟨_, .refl, by simp only [View.answer?, run, hs]⟩
  | cons t' ts ih =>
    intro r last t hopen
    cases hs : r.step t with
    | next r' =>
      obtain ⟨v, hrun, hanswer⟩ := ih r' t.span t' (by simpa [View.final] using hopen)
      refine ⟨v, .head ⟨r', hs, rfl⟩ hrun, ?_⟩
      rw [hanswer]
      simp only [run, hs]
    | stop expected => exact ⟨_, .refl, by simp only [View.answer?, run, hs]⟩
    | done body => exact ⟨_, .refl, by simp only [View.answer?, run, hs]⟩

/-- Reading tokens comes to an end. In whatever state the reader is before them, no run takes more
tokens than twice those behind the first, the open levels and two more; and the run from the start
comes to a view in which reading ends, with the answer that is given for the tokens. -/
def ReachesEnd (file : String) : List Token → Prop
  | [] => False
  | t :: ts =>
    (∀ r last vs, List.IsChain View.Moves (⟨r, last, t, ts⟩ :: vs) →
      vs.length ≤ 2 * ts.length + r.levels.length + 2) ∧
    ∃ v answer, ReflTransGen View.Moves ⟨{}, t.span, t, ts⟩ v ∧ v.answer? file = some answer ∧
      Description.ofTokens file (t :: ts) = answer.mapError .rejected

theorem reachesEnd_of_last (file : String) {ts : List Token} {t : Token}
    (h : t.kind ≠ .openParen) : ReachesEnd file (ts ++ [t]) := by
  cases htokens : ts ++ [t] with
  | nil => simp at htokens
  | cons t₁ rest =>
    have hopen : ∀ r last, (View.final ⟨r, last, t₁, rest⟩).kind ≠ .openParen := by
      intro r last
      simpa [View.final, ← htokens] using h
    obtain ⟨v, hrun, hanswer⟩ := run_ends file {} t₁.span t₁ (hopen _ _)
    refine ⟨fun r last vs hchain => ?_, v, _, hrun, hanswer, rfl⟩
    exact Nat.le_trans (View.length_le_room (hopen r last) hchain) (View.room_le _)

end Reader

open Reader

/-- **Reading ends.** Tokens of which there is at least one, and of which the last is no opening
parenthesis, are read to an end, whether or not an end of input is among them; so are the tokens of
every source. -/
theorem reading_ends (file : String) :
    (∀ tokens : List Token, tokens ≠ [] → (∀ t ∈ tokens.getLast?, t.kind ≠ .openParen) →
      ReachesEnd file tokens) ∧
    ∀ source tokens, Token.scan file source = .ok tokens → ReachesEnd file tokens := by
  constructor
  · intro tokens hne hlast
    rw [← List.dropLast_append_getLast hne]
    exact reachesEnd_of_last file (hlast _ (List.getLast?_eq_some_getLast hne))
  · intro source tokens hscan
    obtain ⟨ts, eof, rfl, hk, -⟩ := scan_endsOnce hscan
    exact reachesEnd_of_last file (by simp [hk])

/-- A brace in the last place closes both types that are open, and then does not fit. -/
theorem reading_ends_last_brace :
    ∃ tokens eof, Token.scan "x.tyd" "alias a\x7balias b\x7bunit\x7d" = .ok (tokens ++ [eof]) ∧
      tokens ≠ [] ∧ (∀ t ∈ tokens.getLast?, t.kind ≠ .openParen) ∧
      ReachesEnd "x.tyd" tokens ∧ ReachesEnd "x.tyd" (tokens ++ [eof]) ∧
      Description.ofTokens "x.tyd" tokens =
        .error (.rejected [.located (.unexpected .endOfInput "\x7d") ⟨"x.tyd", 1, 21, 1, 21⟩]) := by
  have hscan : Token.scan "x.tyd" "alias a\x7balias b\x7bunit\x7d" = .ok
      ([⟨.aliasKeyword, "alias", ⟨"x.tyd", 1, 1, 1, 5⟩⟩,
        ⟨.identifier, "a", ⟨"x.tyd", 1, 7, 1, 7⟩⟩,
        ⟨.openBrace, "\x7b", ⟨"x.tyd", 1, 8, 1, 8⟩⟩,
        ⟨.aliasKeyword, "alias", ⟨"x.tyd", 1, 9, 1, 13⟩⟩,
        ⟨.identifier, "b", ⟨"x.tyd", 1, 15, 1, 15⟩⟩,
        ⟨.openBrace, "\x7b", ⟨"x.tyd", 1, 16, 1, 16⟩⟩,
        ⟨.unit, "unit", ⟨"x.tyd", 1, 17, 1, 20⟩⟩,
        ⟨.closeBrace, "\x7d", ⟨"x.tyd", 1, 21, 1, 21⟩⟩] ++
        [⟨.endOfInput, "", ⟨"x.tyd", 1, 22, 1, 22⟩⟩]) := by
    decide +kernel
  have hlast : ∀ t ∈ (some ⟨.closeBrace, "\x7d", ⟨"x.tyd", 1, 21, 1, 21⟩⟩ : Option Token),
      t.kind ≠ .openParen := by
    decide
  exact ⟨_, _, hscan, by simp, hlast, (reading_ends "x.tyd").1 _ (by simp) hlast,
    (reading_ends "x.tyd").2 _ _ hscan, by decide +kernel⟩

end TypeDesc
