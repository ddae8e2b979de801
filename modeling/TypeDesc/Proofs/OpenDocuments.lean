/-
What a session knows after any events and requests: of each address the last
text that was read there, unless the document has been closed since, and nothing
else (`open_documents_are_last_texts`).

A request changes the document at its own address only, and only if it opens,
changes or closes it (`get?_step_idle`); an event with a text that cannot be
presented to an editor leaves everything as it was. So what is at an address is
told by the last request that settled it there (`get?_after_iff`), and the other
requests are answered from that document alone (`answer_congr`).
-/
import TypeDesc.Editor.Session
import TypeDesc.Proofs.GrammarExact
import TypeDesc.Proofs.Translation

namespace TypeDesc.Editor

/-! ## Reading a document -/

/-- All places of the span, as editors count them, fit in 31 bits. -/
def InReach (span : Span) : Prop :=
  ∀ i ∈ [span.startLine - 1, span.startCol - 1, span.endLine - 1, span.endCol],
    0 ≤ i ∧ i ≤ 2147483647

/-- Editors can be shown all that is reported about the text. -/
def Presentable (address text : String) : Prop :=
  ∀ report ∈ reportsOf (Description.ofSource address text), ∀ span ∈ report.span, InReach span

/-- The document holds the text, what it describes if it is accepted, and one notice for each report
about it. -/
structure Document.Reads (document : Document) (address text : String) : Prop where
  source : document.source = text
  description : document.description = (Description.ofSource address text).toOption.map (·.1)
  notices : List.Forall₂ (fun report notice => Notice.ofDiagnostic report.diagnostic = .ok notice)
    (reportsOf (Description.ofSource address text)) document.notices

theorem place_ok_iff {line character : Int} :
    (∃ p, place line character = .ok p) ↔
      (0 ≤ line ∧ line ≤ 2147483647) ∧ 0 ≤ character ∧ character ≤ 2147483647 := by
  have hcond : (acceptable line && acceptable character) = true ↔
      (0 ≤ line ∧ line ≤ 2147483647) ∧ 0 ≤ character ∧ character ≤ 2147483647 := by
    simp only [acceptable, Bool.and_eq_true, decide_eq_true_eq]
    rfl
  rw [← hcond, place]
  split <;> simp_all

theorem place_eq_ok {line character : Int} {p : Place} (h : place line character = .ok p) :
    p = ⟨line, character⟩ := by
  rw [place] at h
  split at h
  next => exact (Except.ok.inj h).symm
  next => cases h

theorem ofSpan_ok_iff {span : Span} : (∃ range, Range.ofSpan span = .ok range) ↔ InReach span := by
  simp only [Range.ofSpan, Range.ofColumns, Range.between, Option.getD_some, bind_eq_ok,
    Except.ok.injEq, InReach, List.forall_mem_cons]
  constructor
  · rintro ⟨_, start, hstart, stop, hstop, -⟩
    obtain ⟨hline, hcol⟩ := place_ok_iff.1 ⟨start, hstart⟩
    obtain ⟨hline', hcol'⟩ := place_ok_iff.1 ⟨stop, hstop⟩
    exact ⟨hline, hcol, hline', hcol', by simp⟩
  · rintro ⟨hline, hcol, hline', hcol', -⟩
    obtain ⟨start, hstart⟩ := place_ok_iff.2 ⟨hline, hcol⟩
    obtain ⟨stop, hstop⟩ := place_ok_iff.2 ⟨hline', hcol'⟩
    exact ⟨_, start, hstart, stop, hstop, rfl⟩

/-- The notice of a report stands at its place, if it has one. -/
theorem notice_ok_iff {report : Report} :
    (∃ notice, Notice.ofDiagnostic report.diagnostic = .ok notice) ↔
      ∀ span ∈ report.span, InReach span := by
  obtain ⟨finding, place⟩ := report
  cases place with
  | none => simp [Notice.ofDiagnostic, Report.diagnostic]
  | some span =>
    simp only [Option.mem_def, Option.some.injEq, forall_eq', ← ofSpan_ok_iff]
    simp [Notice.ofDiagnostic, Report.diagnostic, bind_eq_ok]

theorem noticesOf_eq_ok {reports : List Report} {notices : List Notice} :
    noticesOf (reports.map (·.diagnostic)) = .ok notices ↔
      List.Forall₂ (fun report notice => Notice.ofDiagnostic report.diagnostic = .ok notice)
        reports notices := by
  induction reports generalizing notices with
  | nil => simp [noticesOf, eq_comm]
  | cons report reports ih =>
    simp only [List.map_cons, noticesOf, bind_eq_ok, Except.ok.injEq, ih,
      List.forall₂_cons_left_iff]
    constructor
    · rintro ⟨notice, hn, notices, hns, rfl⟩
      exact ⟨notice, notices, hn, hns, rfl⟩
    · rintro ⟨notice, notices, hn, hns, rfl⟩
      exact ⟨notice, hn, notices, hns, rfl⟩

theorem read_eq (address text : String) :
    Document.read address text =
      (noticesOf ((reportsOf (Description.ofSource address text)).map (·.diagnostic)) >>= fun notices =>
        .ok ⟨text, (Description.ofSource address text).toOption.map (·.1), notices⟩) := by
  rw [Document.read]
  cases Description.ofSource address text with
  | ok read => rfl
  | error e => cases e <;> rfl

theorem read_eq_ok {address text : String} {document : Document} :
    Document.read address text = .ok document ↔ document.Reads address text := by
  simp only [read_eq, bind_eq_ok, noticesOf_eq_ok, Except.ok.injEq]
  constructor
  · rintro ⟨notices, hn, rfl⟩
    exact ⟨rfl, rfl, hn⟩
  · rintro ⟨hs, hd, hn⟩
    refine ⟨document.notices, hn, ?_⟩
    rw [← hd, ← hs]

/-- A text can be presented exactly when reading it gives a document. -/
theorem presentable_iff {address text : String} :
    Presentable address text ↔ ∃ document : Document, document.Reads address text := by
  constructor
  · intro h
    obtain ⟨notices, hn⟩ := exists_forall₂ fun report hm => notice_ok_iff.2 (h report hm)
    exact ⟨⟨text, _, notices⟩, rfl, rfl, hn⟩
  · rintro ⟨document, -, -, hn⟩ report hm
    obtain ⟨notice, -, hnotice⟩ := forall₂_mem hn hm
    exact notice_ok_iff.1 ⟨notice, hnotice⟩

theorem read_error {address text : String} (h : ¬ Presentable address text) :
    ∃ e, Document.read address text = .error e := by
  cases hread : Document.read address text with
  | error e => exact ⟨e, rfl⟩
  | ok document => exact absurd (presentable_iff.2 ⟨document, read_eq_ok.1 hread⟩) h

/-! ## Documents by address -/

namespace Session

theorem get?_erase_self (s : Session) (address : String) : (s.erase address).get? address = none := by
  rw [get?, erase, List.lookup_eq_none_iff]
  intro entry he
  have hne : entry.1 ≠ address := by simpa using (List.mem_filter.1 he).2
  simpa using hne.symm

theorem get?_erase_other (s : Session) {address other : String} (h : other ≠ address) :
    (s.erase other).get? address = s.get? address := by
  obtain ⟨documents⟩ := s
  simp only [get?, erase]
  induction documents with
  | nil => rfl
  | cons entry documents ih =>
    obtain ⟨key, document⟩ := entry
    by_cases hk : key = other
    · have hne : (address == key) = false := by simp [hk, Ne.symm h]
      rw [List.filter_cons_of_neg (by simp [hk]), List.lookup_cons, hne, ih]
    · rw [List.filter_cons_of_pos (by simp [hk]), List.lookup_cons, List.lookup_cons, ih]

theorem get?_insert_self (s : Session) (address : String) (document : Document) :
    (s.insert address document).get? address = some document := by
  simp [get?, insert]

theorem get?_insert_other (s : Session) {address other : String} (h : other ≠ address)
    (document : Document) : (s.insert other document).get? address = s.get? address := by
  have hne : (address == other) = false := by simp [Ne.symm h]
  rw [← get?_erase_other s h]
  simp only [get?, insert, List.lookup_cons, hne]

end Session

/-! ## Requests -/

namespace Request

/-- The event gives the document at the address a text: opening gives its own, a change gives the
last of its texts, or the empty text if it has none. -/
inductive Gives : Request → String → String → Prop
  | opened {address text} : Gives (.opened address text) address text
  | changed {address text earlier} : Gives (.changed address (earlier ++ [text])) address text
  | emptied {address} : Gives (.changed address []) address ""

/-- The request settles what is at the address: it gives a text that can be presented, or closes
the document. -/
def Settles (r : Request) (address : String) : Prop :=
  r = .closed address ∨ ∃ text, r.Gives address text ∧ Presentable address text

/-- The request asks about the document at the address. -/
inductive Asks : Request → String → Prop
  | hover {address line character} : Asks (.hover address line character) address
  | symbols {address} : Asks (.symbols address) address
  | format {address} : Asks (.format address) address

theorem Gives.unique {r : Request} {address text text' : String} (h : r.Gives address text)
    (h' : r.Gives address text') : text = text' := by
  cases h with
  | opened => cases h'; rfl
  | @changed _ _ earlier =>
    generalize hc : earlier ++ [text] = changes at h'
    cases h' with
    | changed => exact List.singleton_inj.1 (List.append_inj' hc rfl).2
    | emptied => simp at hc
  | emptied =>
    generalize hc : ([] : List String) = changes at h'
    cases h' with
    | changed => simp at hc
    | emptied => rfl

end Request

namespace Session

/-- The session after a request; one that fails leaves it as it was. -/
def step (s : Session) (r : Request) : Session :=
  match s.answer r with
  | .ok (_, s') => s'
  | .error _ => s

/-- The session after requests; it starts with no document. -/
def after (requests : List Request) : Session :=
  requests.foldl step {}

theorem after_snoc (requests : List Request) (r : Request) :
    after (requests ++ [r]) = (after requests).step r := by
  simp [after]

variable {r : Request} {address text : String} (s : Session)

/-- An event that gives a text is answered from the text alone. -/
theorem answer_gives (h : r.Gives address text) : s.answer r = s.update address text := by
  cases h with
  | opened => rfl
  | changed => simp [answer, lastText]
  | emptied => rfl

theorem answer_reads {document : Document} (h : r.Gives address text)
    (hread : document.Reads address text) :
    s.answer r = .ok (.publish address document.notices, s.insert address document) := by
  rw [answer_gives s h, update, read_eq_ok.2 hread]
  rfl

theorem answer_refused (h : r.Gives address text) (hp : ¬ Presentable address text) :
    ∃ e, s.answer r = .error (.place e) := by
  obtain ⟨e, he⟩ := read_error hp
  refine ⟨e, ?_⟩
  rw [answer_gives s h, update, he]
  rfl

/-- An event with a text that can be presented leaves what was read. -/
theorem get?_step_gives {document : Document} (h : r.Gives address text)
    (hread : document.Reads address text) : (s.step r).get? address = some document := by
  rw [step, answer_reads s h hread]
  exact get?_insert_self s address document

theorem get?_step_closed : (s.step (.closed address)).get? address = none :=
  get?_erase_self s address

/-- A request that asks changes nothing. -/
theorem step_asks (h : r.Asks address) : s.step r = s := by
  have hanswer : ∀ reply s', s.answer r = .ok (reply, s') → s' = s := by
    intro reply s' hok
    cases h with
    | hover =>
      simp only [answer, bind_eq_ok] at hok
      obtain ⟨cursor, -, hok⟩ := hok
      split at hok
      next => cases hok; rfl
      next =>
        simp only [bind_eq_ok, Except.ok.injEq, Prod.mk.injEq] at hok
        obtain ⟨_, -, -, hs⟩ := hok
        exact hs.symm
    | symbols | format =>
      simp only [answer] at hok
      split at hok
      next => cases hok; rfl
      next =>
        simp only [bind_eq_ok, Except.ok.injEq, Prod.mk.injEq] at hok
        obtain ⟨_, -, -, hs⟩ := hok
        exact hs.symm
  rw [step]
  split
  next reply s' hok => exact hanswer reply s' hok
  next => rfl

theorem step_refused (h : r.Gives address text) (hp : ¬ Presentable address text) :
    s.step r = s := by
  obtain ⟨e, he⟩ := answer_refused s h hp
  rw [step, he]

/-- A request that does not settle an address leaves what is there. -/
theorem get?_step_idle (h : ¬ r.Settles address) : (s.step r).get? address = s.get? address := by
  -- an event that gives a text gives it to another address, or the text cannot be presented
  have hevent : ∀ {other text}, r.Gives other text → (s.step r).get? address = s.get? address := by
    intro other text hg
    by_cases hp : Presentable other text
    · have hne : other ≠ address := by
        rintro rfl
        exact h (.inr ⟨text, hg, hp⟩)
      obtain ⟨document, hread⟩ := presentable_iff.1 hp
      rw [step, answer_reads s hg hread]
      exact get?_insert_other s hne document
    · rw [step_refused s hg hp]
  cases r with
  | opened other text => exact hevent .opened
  | changed other changes =>
    rcases List.eq_nil_or_concat changes with rfl | ⟨earlier, text, rfl⟩
    · exact hevent .emptied
    · rw [List.concat_eq_append] at hevent ⊢
      exact hevent .changed
  | closed other =>
    refine get?_erase_other s ?_
    rintro rfl
    exact h (.inl rfl)
  | hover other line character => rw [step_asks s .hover]
  | symbols other => rw [step_asks s .symbols]
  | format other => rw [step_asks s .format]

/-- A request that asks is answered from the document at its address. -/
theorem answer_congr (h : r.Asks address) {s s' : Session} (hs : s.get? address = s'.get? address) :
    (s.answer r).map (·.1) = (s'.answer r).map (·.1) := by
  cases h with
  | @hover _ line character =>
    simp only [answer, hs]
    cases place line character with
    | error e => rfl
    | ok cursor =>
      simp only [mapError_ok, ok_bind]
      cases s'.get? address with
      | none => rfl
      | some document =>
        simp only
        cases document.hover cursor <;> rfl
  | symbols =>
    simp only [answer, hs]
    cases s'.get? address with
    | none => rfl
    | some document =>
      simp only
      cases document.symbols <;> rfl
  | format =>
    simp only [answer, hs]
    cases s'.get? address with
    | none => rfl
    | some document =>
      simp only
      cases document.format <;> rfl

end Session

/-! ## The last text -/

/-- The text is the last that the document at the address was given and that could be presented;
nothing has settled the address since. -/
def LastText (address : String) (requests : List Request) (text : String) : Prop :=
  ∃ before r later, requests = before ++ r :: later ∧ r.Gives address text ∧
    Presentable address text ∧ ∀ r' ∈ later, ¬ r'.Settles address

/-- A place in a list with one more element behind it is the last, or stands before that element. -/
theorem snoc_eq_iff {α : Type} {as before later : List α} {a b : α} :
    as ++ [a] = before ++ b :: later ↔
      (as = before ∧ a = b ∧ later = []) ∨
        ∃ later', later = later' ++ [a] ∧ as = before ++ b :: later' := by
  rcases List.eq_nil_or_concat later with rfl | ⟨later, last, rfl⟩
  · simp
  · have hsplit : before ++ b :: (later ++ [last]) = before ++ b :: later ++ [last] := by simp
    rw [List.concat_eq_append, hsplit]
    constructor
    · intro h
      obtain ⟨hfirst, hlast⟩ := List.append_inj' h rfl
      cases hlast
      exact .inr ⟨later, rfl, hfirst⟩
    · rintro (⟨-, -, hnil⟩ | ⟨later', hlast, rfl⟩)
      · simp at hnil
      · simp [hlast]

theorem LastText.snoc_iff {address text : String} {requests : List Request} {r : Request} :
    LastText address (requests ++ [r]) text ↔
      (r.Gives address text ∧ Presentable address text) ∨
        (¬ r.Settles address ∧ LastText address requests text) := by
  constructor
  · rintro ⟨before, r', later, heq, hg, hp, hlater⟩
    rcases snoc_eq_iff.1 heq with ⟨-, rfl, -⟩ | ⟨later, rfl, rfl⟩
    · exact .inl ⟨hg, hp⟩
    · rw [List.forall_mem_append, List.forall_mem_singleton] at hlater
      exact .inr ⟨hlater.2, before, r', later, rfl, hg, hp, hlater.1⟩
  · rintro (⟨hg, hp⟩ | ⟨hr, before, r', later, rfl, hg, hp, hlater⟩)
    · exact ⟨requests, r, [], rfl, hg, hp, by simp⟩
    · refine ⟨before, r', later ++ [r], by simp, hg, hp, ?_⟩
      rw [List.forall_mem_append, List.forall_mem_singleton]
      exact ⟨hlater, hr⟩

/-- **What is at an address is what its last text was read as.** -/
theorem Session.get?_after_iff (requests : List Request) (address : String) (document : Document) :
    (after requests).get? address = some document ↔
      ∃ text, LastText address requests text ∧ document.Reads address text := by
  induction requests using List.reverseRecOn with
  | nil =>
    constructor
    · intro h
      cases h
    · rintro ⟨text, ⟨before, r, later, heq, -⟩, -⟩
      simp at heq
  | append_singleton requests r ih =>
    rw [after_snoc]
    simp only [LastText.snoc_iff]
    by_cases hs : r.Settles address
    · simp only [hs, not_true, false_and, or_false]
      rcases hs with rfl | ⟨text, hg, hp⟩
      · rw [get?_step_closed]
        constructor
        · intro h
          cases h
        · rintro ⟨text, ⟨hg, -⟩, -⟩
          cases hg
      · obtain ⟨read, hread⟩ := presentable_iff.1 hp
        rw [get?_step_gives _ hg hread, Option.some.injEq]
        constructor
        · rintro rfl
          exact ⟨text, ⟨hg, hp⟩, hread⟩
        · rintro ⟨text', ⟨hg', -⟩, hread'⟩
          rw [hg'.unique hg, ← read_eq_ok, read_eq_ok.2 hread] at hread'
          exact Except.ok.inj hread'
    · rw [get?_step_idle _ hs, ih]
      have hnone : ∀ text, ¬ (r.Gives address text ∧ Presentable address text) :=
        fun text h => hs (.inr ⟨text, h⟩)
      simp only [hs, hnone, not_false_eq_true, true_and, false_or]

/-- **A session is the last texts of its documents.** After any requests, what is at an address is
what the last text given there was read as, unless the document has been closed since. An event
that gives a text publishes the notices about that text at its address; if the text cannot be
presented, it fails and nothing changes. A request that asks changes nothing, and its answer is the
same after any other requests that leave the same last text at its address. -/
theorem open_documents_are_last_texts (requests : List Request) (address : String) :
    (∀ document, (Session.after requests).get? address = some document ↔
      ∃ text, LastText address requests text ∧ document.Reads address text) ∧
    (∀ r text, r.Gives address text →
      (Presentable address text → ∃ document : Document, document.Reads address text ∧
        ((Session.after requests).answer r).map (·.1) = .ok (.publish address document.notices)) ∧
      (¬ Presentable address text →
        (∃ e, (Session.after requests).answer r = .error (.place e)) ∧
          Session.after (requests ++ [r]) = Session.after requests)) ∧
    ∀ r, r.Asks address → Session.after (requests ++ [r]) = Session.after requests ∧
      ∀ requests', (∀ text, LastText address requests text ↔ LastText address requests' text) →
        ((Session.after requests).answer r).map (·.1) =
          ((Session.after requests').answer r).map (·.1) := by
  refine ⟨Session.get?_after_iff requests address, fun r text hg => ⟨?_, ?_⟩, fun r ha => ⟨?_, ?_⟩⟩
  · intro hp
    obtain ⟨document, hread⟩ := presentable_iff.1 hp
    exact ⟨document, hread, by rw [Session.answer_reads _ hg hread]; rfl⟩
  · intro hp
    rw [Session.after_snoc]
    exact ⟨Session.answer_refused _ hg hp, Session.step_refused _ hg hp⟩
  · rw [Session.after_snoc, Session.step_asks _ ha]
  · intro requests' hlast
    refine Session.answer_congr ha (Option.ext fun document => ?_)
    rw [Session.get?_after_iff, Session.get?_after_iff]
    simp only [hlast]

end TypeDesc.Editor
