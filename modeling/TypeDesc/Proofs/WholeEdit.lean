/-
What editors make of the edit that formats a document.

An editor ends lines at line feeds and carriage returns only, and counts the
characters of a line in the units of an encoding. A line past the last is the
end of the document, a character past the end of a line the end of that line
(`offset`). The edit ends in the line after the last one that any boundary
ends. Editors count no more lines than that, so that the place is the end of
the document for all of them (`offset_past_lines`), and the edit replaces all
(`format_edit_replaces_document`).
-/
import TypeDesc.Proofs.OpenDocuments
import TypeDesc.Proofs.RoundTrip

namespace TypeDesc.Editor

/-! ## Edits as editors apply them -/

/-- The units in which an editor counts the characters of a line. -/
inductive Encoding
  | utf8
  | utf16
  | utf32
deriving DecidableEq, Repr

/-- The number of units of a character. -/
def Encoding.units (c : Char) : Encoding → Nat
  | .utf8 => c.utf8Size
  | .utf16 => if c.toNat < 0x10000 then 1 else 2
  | .utf32 => 1

/-- The number of characters of a document before a place: a carriage return and line feed end a
line together, a line past the last is the end of the document, and a character past the end of
a line is the end of that line. -/
def offset (e : Encoding) : List Char → Nat → Nat → Nat
  | [], _, _ => 0
  | c :: cs, 0, character =>
    if c = '\n' ∨ c = '\r' ∨ character < e.units c then 0
    else offset e cs 0 (character - e.units c) + 1
  | c :: cs, line + 1, character =>
    if c = '\n' ∨ c = '\r' ∧ cs.head? ≠ some '\n' then offset e cs line character + 1
    else offset e cs (line + 1) character + 1

/-- The characters of a document before a place. -/
def Place.offset (e : Encoding) (source : String) (p : Place) : Nat :=
  Editor.offset e source.toList p.line.toNat p.character.toNat

/-- The document with a new text for a range. -/
def Range.applied (e : Encoding) (source : String) (range : Range) (text : String) : String :=
  .ofList (source.toList.take (range.start.offset e source) ++ text.toList ++
    source.toList.drop (range.stop.offset e source))

/-! ## The whole document -/

variable {e : Encoding}

theorem offset_zero (cs : List Char) : offset e cs 0 0 = 0 := by
  cases cs with
  | nil => rfl
  | cons c cs =>
    have hpos : 0 < e.units c := by
      cases e with
      | utf8 => exact c.utf8Size_pos
      | utf16 => simp only [Encoding.units]; split <;> omega
      | utf32 => exact Nat.one_pos
    rw [offset, if_pos (.inr (.inr hpos))]

/-- **Past the lines of a text is its end**: each boundary of an editor is one of the text. -/
theorem offset_past_lines {cs : List Char} {line : Nat} (h : (Text.splitLines cs).length ≤ line)
    (character : Nat) : offset e cs line character = cs.length := by
  induction cs using Text.splitLines.induct generalizing line with
  | case1 => cases line <;> rfl
  | case2 cs ih =>
    rw [Text.splitLines, List.length_cons] at h
    obtain ⟨line, rfl⟩ : ∃ n, line = n + 1 := ⟨line - 1, by omega⟩
    have hrest : offset e cs line character = cs.length := ih (by omega)
    simp [offset, hrest]
  | case3 c cs hne hb ih =>
    rw [Text.splitLines.eq_3 _ _ hne, if_pos hb, List.length_cons] at h
    obtain ⟨line, rfl⟩ : ∃ n, line = n + 1 := ⟨line - 1, by omega⟩
    rw [offset]
    split
    next => rw [ih (by omega), List.length_cons]
    next => rw [ih (by omega), List.length_cons]
  | case4 c cs hne hb ih =>
    rw [Text.splitLines.eq_3 _ _ hne, if_neg hb] at h
    have hlength : (Text.splitLines cs).length ≤ line ∧ 0 < line := by
      cases hlines : Text.splitLines cs with
      | nil => simpa [hlines, Text.consLine, Nat.one_le_iff_ne_zero, Nat.pos_iff_ne_zero] using h
      | cons first rest =>
        simp only [hlines, Text.consLine, List.length_cons] at h ⊢
        omega
    obtain ⟨line, rfl⟩ : ∃ n, line = n + 1 := ⟨line - 1, by omega⟩
    have hplain : ¬ (c = '\n' ∨ c = '\r' ∧ cs.head? ≠ some '\n') := by
      rintro (rfl | ⟨rfl, -⟩) <;> exact hb (by decide)
    rw [offset, if_neg hplain, ih hlength.1, List.length_cons]

/-- The edit of a formatting request ranges over the whole document. -/
theorem wholeRange_applied {document : Document} {range : Range}
    (h : document.wholeRange = .ok range) (e : Encoding) (text : String) :
    range.applied e document.source text = text := by
  simp only [Document.wholeRange, Range.between, bind_eq_ok, Except.ok.injEq] at h
  obtain ⟨start, hstart, stop, hstop, rfl⟩ := h
  have hfirst : start.offset e document.source = 0 := by
    rw [place_eq_ok hstart]
    exact offset_zero _
  have hlast : stop.offset e document.source = document.source.toList.length := by
    rw [place_eq_ok hstop]
    exact offset_past_lines (by simp [Text.lines]) _
  rw [Range.applied, hfirst, hlast, List.take_zero, List.drop_length, List.nil_append,
    List.append_nil, String.ofList_toList]

/-- What a formatting request answers by an edit is the canonical text. -/
theorem format_eq_edit {document : Document} {range : Range} {text : String}
    (h : document.format = .ok (.edit range text)) :
    ∃ d, document.description = some d ∧ d.print Document.width = .ok text ∧
      document.wholeRange = .ok range := by
  rw [Document.format] at h
  cases hd : document.description with
  | none => rw [hd] at h; cases h
  | some d =>
    simp only [hd, bind_eq_ok, mapError_eq_ok] at h
    obtain ⟨printed, hprint, h⟩ := h
    split at h
    next => cases h
    next =>
      simp only [bind_eq_ok, mapError_eq_ok, Except.ok.injEq, Reply.edit.injEq] at h
      obtain ⟨_, hrange, rfl, rfl⟩ := h
      exact ⟨d, rfl, hprint, hrange⟩

/-- A document that holds its canonical text has nothing to format. -/
theorem format_canonical {document : Document} {d : Description}
    (hd : document.description = some d) (hprint : d.print Document.width = .ok document.source) :
    document.format = .ok .nothing := by
  simp only [Document.format, hd, hprint, mapError_ok, ok_bind, if_true]

/-- **Formatting replaces the whole document.** If the answer about a document that was read is an
edit, its text is the canonical text of the description, and an editor that applies it is left with
exactly that text, in whatever units it counts. That text is read as a description again, at any
address, and then there is nothing to format. -/
theorem format_edit_replaces_document {address source : String} {document : Document}
    {range : Range} {text : String} (hread : Document.read address source = .ok document)
    (h : document.format = .ok (.edit range text)) (e : Encoding) (address' : String) :
    (∃ d, document.description = some d ∧ d.print Document.width = .ok text) ∧
      range.applied e source text = text ∧
      (∃ d w, Description.ofSource address' text = .ok (d, w) ∧
        ∀ document' : Document, document'.source = text → document'.description = some d →
          document'.format = .ok .nothing) ∧
      ∀ (s : Session) (r : Request), r.Gives address' (range.applied e source text) →
        Presentable address' text →
        (s.step r).answer (.format address') = .ok (.nothing, s.step r) := by
  obtain ⟨hsource, hdescription, -⟩ := read_eq_ok.1 hread
  obtain ⟨d, hd, hprint, hrange⟩ := format_eq_edit h
  have happlied : range.applied e source text = text := hsource ▸ wholeRange_applied hrange e text
  obtain ⟨w, hof⟩ : ∃ w, Description.ofSource address source = .ok (d, w) := by
    rw [hd] at hdescription
    cases hof : Description.ofSource address source with
    | error e => rw [hof] at hdescription; cases hdescription
    | ok read =>
      rw [hof] at hdescription
      cases hdescription
      exact ⟨read.2, rfl⟩
  obtain ⟨hwell, -, -⟩ := ofSource_sound hof
  obtain ⟨text', d', w', hprint', hof', hparams, hbody⟩ :=
    hwell.reads_back Document.width address'
  obtain rfl : text = text' := Except.ok.inj (hprint.symm.trans hprint')
  have hcanonical : d'.print Document.width = .ok text := by
    rw [← hprint, Description.print, Description.print, hparams, hbody]
  have hnothing : ∀ document' : Document, document'.source = text →
      document'.description = some d' → document'.format = .ok .nothing := by
    rintro document' rfl hd'
    exact format_canonical hd' hcanonical
  refine ⟨⟨d, hd, hprint⟩, happlied, ⟨d', w', hof', hnothing⟩, fun s r hgives hp => ?_⟩
  rw [happlied] at hgives
  obtain ⟨document', hreads⟩ := presentable_iff.1 hp
  have hanswer : document'.format = .ok .nothing :=
    hnothing document' hreads.source (by rw [hreads.description, hof']; rfl)
  simp only [Session.answer, Session.get?_step_gives s hgives hreads, hanswer, ok_bind]

/-- A comment in which some boundaries end lines, with a character of two units. -/
theorem format_edit_replaces_document_comment : ∃ document range d w,
    Document.read "x.tyd" "unit//😀\r*unit\u2028\r\n" = .ok document ∧
      document.format = .ok (.edit range "unit\n") ∧ range.stop = ⟨3, 0⟩ ∧
      range.applied .utf16 "unit//😀\r*unit\u2028\r\n" "unit\n" = "unit\n" ∧
      Description.ofSource "y.tyd" "unit\n" = .ok (d, w) ∧
      (Document.mk "unit\n" (some d) []).format = .ok .nothing := by
  obtain ⟨document, hread, hedit⟩ := exists_ok_of_any
    (Document.read "x.tyd" "unit//😀\r*unit\u2028\r\n")
    (·.format.toOption.any (· == .edit ⟨⟨0, 0⟩, ⟨3, 0⟩⟩ "unit\n")) (by decide +kernel)
  obtain ⟨reply, h, hreply⟩ := exists_ok_of_any _ _ hedit
  obtain rfl := beq_iff_eq.1 hreply
  obtain ⟨-, happlied, ⟨d, w, hof, hnothing⟩, -⟩ :=
    format_edit_replaces_document hread h .utf16 "y.tyd"
  exact ⟨document, _, d, w, hread, h, rfl, happlied, hof, hnothing ⟨_, _, _⟩ rfl rfl⟩

end TypeDesc.Editor
