/-
A suggestion for an unknown name fixes that error and no other.

The suggestion is a name in scope, hence the text of a token before, and another
word may take the place of a word: the text with the suggestion is scanned as the
same tokens but one (`scan_replaced`). That one is a known name in place of an
unknown one, so that its error is all that is taken away
(`suggestion_fixes_own_error`).
-/
import TypeDesc.Diagnostic.Excerpt
import TypeDesc.Proofs.Places
import TypeDesc.Proofs.SourceOutcome
import TypeDesc.Proofs.UnknownNames
import TypeDesc.Proofs.WordPlaces

namespace TypeDesc

open Lexeme Reader Text

/-! ## A text with a word replaced -/

/-- The text with `new` for what a span of one line covers: line feeds end lines, and both columns
are included. -/
def Span.replaced (source new : List Char) (s : Span) : List Char :=
  let lines := feedLines source
  let line := lines.getD (s.startLine.toNat - 1) []
  ['\n'].intercalate (lines.set (s.startLine.toNat - 1)
    (line.take (s.startCol.toNat - 1) ++ new ++ line.drop s.endCol.toNat))

theorem Text.intercalate_feedLines (cs : List Char) : ['\n'].intercalate (feedLines cs) = cs := by
  induction cs with
  | nil => rfl
  | cons c cs ih =>
    obtain ⟨line, lines, hlines⟩ := List.exists_cons_of_ne_nil (feedLines_ne_nil cs)
    rw [hlines] at ih
    rw [feedLines, hlines]
    split
    next hc => rw [List.intercalate_cons_cons, ih, hc]; rfl
    next =>
      rw [consLine]
      cases lines with
      | nil => simpa using congrArg (c :: ·) ih
      | cons next lines =>
        rw [List.intercalate_cons_cons] at ih ⊢
        exact congrArg (c :: ·) ih

theorem Text.place_natCast (length n : Nat) : place length (n : Int) = min length n := by
  rw [place, if_neg (by omega), Int.toNat_natCast]

section

variable (file : String) (pre : List Char) {cs rest : List Char} {new : String}
  (hne : cs ≠ []) (hcs : '\n' ∉ cs) (hnew : '\n' ∉ new.toList)
include hne hcs hnew

/-- What follows a text, within a line, is replaced where it stands. -/
theorem Span.replaced_behind : (Span.behind file pre cs).replaced (pre ++ (cs ++ rest)) new.toList =
    pre ++ (new.toList ++ rest) := by
  obtain ⟨init, last, first, more, hpre, -, hlines⟩ := feedLines_around pre rest
  have hend : ((last.length + 1 : Nat) + (cs.length : Int) - 1).toNat =
      last.length + cs.length := by
    omega
  rw [← intercalate_feedLines (pre ++ (new.toList ++ rest)), hlines hnew]
  simp only [Span.behind, replaced, Position.behind_eq hpre, Int.toNat_natCast, if_neg hne,
    hlines hcs, hend, Nat.add_sub_cancel]
  simp

/-- The line that is shown for a suggestion is the line of the text with it. -/
theorem Span.patchedLine?_behind : ∃ line,
    Diagnostic.patchedLine? (fun _ => (feedLines (pre ++ (cs ++ rest))).map .ofList)
        (.behind file pre cs) new = some line ∧
      (feedLines (pre ++ (new.toList ++ rest)))[(Span.behind file pre cs).startLine.toNat - 1]? =
        some line.toList := by
  obtain ⟨init, last, first, more, hpre, -, hlines⟩ := feedLines_around pre rest
  have hstart : ((last.length + 1 : Nat) : Int) - 1 = (last.length : Nat) := by omega
  have hend : ((last.length + 1 : Nat) : Int) + cs.length - 1 =
      (last.length + cs.length : Nat) := by
    omega
  refine ⟨.ofList (last ++ (new.toList ++ first)), ?_, ?_⟩
  · have hline : Sources.line? (fun _ => (feedLines (pre ++ (cs ++ rest))).map .ofList) file
        (init.length + 1 : Nat) = some (.ofList (last ++ (cs ++ first))) := by
      rw [Sources.line?, if_pos (by omega), hlines hcs]
      simp
    simp only [Diagnostic.patchedLine?, Span.behind, Position.behind_eq hpre, hline, if_neg hne,
      hstart, hend, takeTo, dropTo, place_natCast, Span.onOneLine, beq_self_eq_true, if_true]
    simp [String.append_assoc]
  · simp [Span.behind, Position.behind_eq hpre, hlines hnew]

end

theorem IsName.newline_notMem {name : String} (h : IsName name) : '\n' ∉ name.toList := by
  obtain ⟨first, more, hword, hfirst, hmore⟩ := h.word
  have hfits : (Lexeme.word first more).Fits [] := ⟨hfirst, hmore, by simp⟩
  rw [hword]
  exact hfits.newline_notMem (by simp)

/-- The line that is shown for a name in place of a name of a text is the line of the new text. -/
theorem scan_patchedLine? {file source name : String} {us vs : List Token} {t : Token}
    (h : Token.scan file source = .ok (us ++ t :: vs)) (ht : t.kind = .identifier)
    (hname : IsName name) : ∃ line,
      Diagnostic.patchedLine? (fun _ => (feedLines source.toList).map .ofList) t.span name =
        some line ∧
      (feedLines (t.span.replaced source.toList name.toList))[t.span.startLine.toNat - 1]? =
        some line.toList := by
  obtain ⟨before, first, more, after, hp, -, -, hspan, -⟩ := scan_split h ht
  have hline : '\n' ∉ first :: more := hp.word_fits.newline_notMem (by simp)
  rw [hspan, ← hp.around_word, Span.replaced_behind file _ (by simp) hline hname.newline_notMem]
  exact Span.patchedLine?_behind file _ (by simp) hline hname.newline_notMem

/-- **A name in place of a name is the only token that changes.** -/
theorem scan_replaced {file source name : String} {us vs : List Token} {t : Token}
    (h : Token.scan file source = .ok (us ++ t :: vs)) (ht : t.kind = .identifier)
    (hname : IsName name) :
    ∃ tokens, Token.scan file (.ofList (t.span.replaced source.toList name.toList)) = .ok tokens ∧
      tokens.map Token.shape = (us ++ { t with text := name } :: vs).map Token.shape := by
  obtain ⟨before, first, more, after, hp, hn, -, hspan, hus, hvs⟩ := scan_split h ht
  obtain ⟨first', more', hword, hfirst, hmore⟩ := hname.word
  have hp' := hp.replace_word hn hfirst hmore
  have hn' : ∀ c, .stray c ∉ before ++ .word first' more' :: after := by simpa using hn
  have hreplaced : t.span.replaced source.toList name.toList =
      textAll before ++ (first' :: more' ++ textAll after) := by
    rw [hspan, ← hp.around_word, ← hword]
    exact Span.replaced_behind file _ (by simp) (hp.word_fits.newline_notMem (by simp))
      hname.newline_notMem
  have hword' : (Lexeme.word first' more').seen = [some (.identifier, name)] := by
    rw [Lexeme.seen, ← hword, String.ofList_toList, hname.kind]
  obtain ⟨shapes, hshapes⟩ := exists_shapes hn'
  have hseen : seen (textAll before ++ (first' :: more' ++ textAll after)) = shapes.map some := by
    rw [seen, ← pieces_iff.1 hp', hshapes]
  obtain ⟨tokens, hscan, htokens⟩ := scan_of_seen file
    (show seen (String.ofList (t.span.replaced source.toList name.toList)).toList = _ by
      rw [String.toList_ofList, hreplaced, hseen])
  have hall : ((us ++ { t with text := name } :: vs).map Token.shape).map some =
      before.flatMap Lexeme.seen ++ some (.identifier, name) ::
        (after.flatMap Lexeme.seen ++ [some (.endOfInput, "")]) := by
    rw [← hus, ← hvs, ← ht, List.map_map, List.map_append]
    rfl
  refine ⟨tokens, hscan, (List.map_inj_right fun _ _ => Option.some.inj).1 ?_⟩
  rw [hall, htokens, List.map_append, ← hshapes, List.flatMap_append, List.flatMap_cons, hword']
  simp

/-! ## The errors that are left -/

/-- Tokens that differ in places only lead to errors that differ in places only. -/
theorem errorsOf_displaced_eq (file : String) {tokens tokens' : List Token} (hne : tokens ≠ [])
    (h : tokens.map Token.shape = tokens'.map Token.shape) :
    (errorsOf (Description.ofTokens file tokens)).map (·.diagnostic.displaced) =
      (errorsOf (Description.ofTokens file tokens')).map (·.diagnostic.displaced) := by
  have hfilter : ∀ reports : List Report,
      (reports.filter (·.isError)).map (·.diagnostic.displaced) =
        ((reports.map (·.displaced)).filter (·.isError)).map (·.diagnostic) := by
    intro reports
    rw [List.filter_map, List.map_map]
    exact List.map_congr_left fun report _ => report.diagnostic_displaced.symm
  obtain ⟨t, ts, rfl⟩ := List.exists_cons_of_ne_nil hne
  obtain ⟨t', ts', rfl⟩ : ∃ t' ts', tokens' = t' :: ts' := by
    refine List.exists_cons_of_ne_nil fun hnil => ?_
    rw [hnil] at h
    cases h
  rcases ofTokens_displaced_eq h file file with ⟨d, d', w, w', hok, hok', -, hw⟩ |
    ⟨rs, rs', herr, herr', hrs⟩
  · rw [hok, hok', errorsOf, errorsOf, reportsOf, reportsOf, hfilter, hfilter, hw]
  · rw [herr, herr', errorsOf, errorsOf, reportsOf, reportsOf, hfilter, hfilter, hrs]

/-- There are no errors exactly if the source is read. -/
theorem errorsOf_eq_nil_iff {file source : String} :
    errorsOf (Description.ofSource file source) = [] ↔
      ∃ x, Description.ofSource file source = .ok x := by
  rcases ofSource_outcome file source with ⟨d, w, hok, hw⟩ | ⟨reports, herr, report, hm, hreport⟩
  · rw [hok, errorsOf, reportsOf]
    simpa using hw
  · rw [herr, errorsOf, reportsOf]
    simpa using ⟨report, hm, hreport⟩

/-- **A suggestion fixes its own error, and that alone.** Let a text be scanned but rejected, with
a report on an unknown name for which a name is suggested. The text with the suggestion in place of
what the report points at has the same tokens but that one, and that token is the name suggested.
Its errors are those of the other reports, places aside, so that it is read if there are none. The
line that is shown for the suggestion is that of the new text. -/
theorem suggestion_fixes_own_error {file source : String} {tokens : List Token}
    {before after : List Report} {report : Report} {label : Label} {suggestion : Suggestion}
    (hscan : Token.scan file source = .ok tokens)
    (hrejected : Description.ofSource file source = .error (.rejected (before ++ report :: after)))
    (hcode : report.diagnostic.code = "E201") (hlabel : label ∈ report.diagnostic.labels)
    (hsuggestion : suggestion ∈ report.diagnostic.suggestions) :
    let fixed := String.ofList (label.span.replaced source.toList suggestion.replacement.toList)
    (∃ us t vs tokens', tokens = us ++ t :: vs ∧ t.kind = .identifier ∧ t.span = label.span ∧
      Token.scan file fixed = .ok tokens' ∧
      tokens'.map Token.shape =
        (us ++ { t with text := suggestion.replacement } :: vs).map Token.shape) ∧
    (errorsOf (Description.ofSource file fixed)).map (·.diagnostic.displaced) =
      ((before ++ after).filter (·.isError)).map (·.diagnostic.displaced) ∧
    ((∃ x, Description.ofSource file fixed = .ok x) ↔
      ∀ other ∈ before ++ after, other.isError = false) ∧
    ∃ line, Diagnostic.patchedLine? (fun _ => (feedLines source.toList).map .ofList) label.span
        suggestion.replacement = some line ∧
      (feedLines fixed.toList)[label.span.startLine.toNat - 1]? = some line.toList := by
  intro fixed
  have hend := scan_endsOnce hscan
  have hsource : Description.ofSource file source = Description.ofTokens file tokens := by
    simp only [Description.ofSource, hscan, mapError_ok, ok_bind]
  have hreports : reportsOf (Description.ofTokens file tokens) = before ++ report :: after := by
    rw [← hsource, hrejected, reportsOf]
  obtain ⟨us, t, vs, r, rfl, htakes, hm, ht, hunknown, hbefore, rfl⟩ :=
    exists_unknown file hend hreports hcode
  have hspan : label.span = t.span := congrArg Label.span (List.mem_singleton.1 hlabel)
  -- the suggestion is a name in scope, and so the text of a token before
  have hscope := unknown_suggestion hsuggestion
  have hname : IsName suggestion.replacement := by
    obtain ⟨t', ht', hk, htext⟩ := takes_names htakes _ (List.mem_append_right _ hscope)
    rw [← htext]
    exact scan_identifier hscan t' (List.mem_append_left _ ht') hk
  obtain ⟨tokens', hscan', htokens'⟩ := scan_replaced hscan ht hname
  obtain ⟨line, hshown, hline⟩ := scan_patchedLine? hscan ht hname
  rw [← hspan] at hscan' hshown hline
  have hfixed : Description.ofSource file fixed = Description.ofTokens file tokens' := by
    simp only [fixed, Description.ofSource, hscan', mapError_ok, ok_bind]
  have herrors : (errorsOf (Description.ofSource file fixed)).map (·.diagnostic.displaced) =
      ((before ++ after).filter (·.isError)).map (·.diagnostic.displaced) := by
    obtain ⟨errors, hall, hleft⟩ := errorsOf_known file hend htakes hm ht hunknown hscope
    have hafter : errors = after.filter (·.isError) := by
      rw [errorsOf, hreports, List.filter_append, Notes.errors, hbefore,
        List.filter_cons_of_pos rfl] at hall
      exact (List.cons.inj (List.append_cancel_left hall)).2.symm
    rw [hfixed, ← errorsOf_displaced_eq file (by simp) htokens'.symm, hleft, hafter,
      List.filter_append, Notes.errors, hbefore]
  refine ⟨⟨us, t, vs, tokens', rfl, ht, hspan.symm, hscan', htokens'⟩, herrors, ?_, line, hshown,
    ?_⟩
  · rw [← errorsOf_eq_nil_iff, ← List.map_eq_nil_iff, herrors, List.map_eq_nil_iff,
      List.filter_eq_nil_iff]
    simp only [Bool.not_eq_true]
  · rw [String.toList_ofList]
    exact hline

/-- A suggestion that is one of two, between a parameter and a constructor given twice and an end
that comes too early. -/
theorem suggestion_fixes_own_error_among_others : ∃ before report after,
    Description.ofSource "x.tyd"
        "params item, Item\nrec list \x7b Cons: itme * lst, cons \x7d +" =
      .error (.rejected (before ++ report :: after)) ∧
    report.finding = .unknownVariable "itme" (some "item") ∧
    (before ++ after).map (·.finding.code) = ["E202", "E201", "E204", "E200"] ∧
    (errorsOf (Description.ofSource "x.tyd"
        "params item, Item\nrec list \x7b Cons: item * lst, cons \x7d +")).map
        (·.diagnostic.displaced) =
      ((before ++ after).filter (·.isError)).map (·.diagnostic.displaced) := by
  generalize hsource : "params item, Item\nrec list \x7b Cons: itme * lst, cons \x7d +" = source
  have hrejected : Description.ofSource "x.tyd" source = .error (.rejected
      ([.located (.duplicateParam "Item" "item") ⟨"x.tyd", 1, 14, 1, 17⟩] ++
        .located (.unknownVariable "itme" (some "item")) ⟨"x.tyd", 2, 18, 2, 21⟩ ::
        [.located (.unknownVariable "lst" (some "list")) ⟨"x.tyd", 2, 25, 2, 27⟩,
          .located (.duplicateCtor "cons" "list") ⟨"x.tyd", 2, 30, 2, 33⟩,
          .located (.unexpected .typeStart "") ⟨"x.tyd", 2, 38, 2, 38⟩])) := by
    subst hsource
    decide +kernel
  obtain ⟨tokens, hscan, -⟩ := exists_ok_of_any (Token.scan "x.tyd" source) (fun _ => true)
    (by subst hsource; decide +kernel)
  have hfixed : String.ofList ((Span.mk "x.tyd" 2 18 2 21).replaced source.toList "item".toList) =
      "params item, Item\nrec list \x7b Cons: item * lst, cons \x7d +" := by
    subst hsource
    decide +kernel
  obtain ⟨-, herrors, -⟩ := suggestion_fixes_own_error hscan hrejected rfl List.mem_cons_self
    List.mem_cons_self
  rw [← hfixed]
  exact ⟨_, _, _, hrejected, rfl, rfl, herrors⟩

end TypeDesc
