/-
Texts and files in canonical form. `tidied` is what formatting makes of a stored
text: the canonical text of the description that it is read as, unless it is
that already, or is no description. Tidying a text again changes nothing
(`tidied_tidied`), and what a text compiles to stays the same
(`compile_tidied`). A tree whose files are tidied one by one (`FileTree.tidyAll`)
keeps its outline, and nothing but the texts of those files changes.
-/
import TypeDesc.Proofs.SettingsText
import TypeDesc.Proofs.SourceOutcome
import TypeDesc.Proofs.TreeOutline

namespace TypeDesc

/-! ## Lines -/

theorem Text.unifyNewlines_of_plain {cs : List Char} (h : '\r' ∉ cs) : unifyNewlines cs = cs := by
  fun_induction unifyNewlines cs with
  | case1 => rfl
  | case2 cs ih => simp at h
  | case3 c cs hne ih =>
    rw [List.mem_cons, not_or] at h
    rw [if_neg (Ne.symm h.1), ih h.2]

/-- The lines of a canonical text end with line feeds. -/
theorem Text.unified_of_plain {text : String} (h : Plain text) : unified text = text := by
  have hreturn : '\r' ∉ text.toList := fun hm => absurd ((h _ hm).2 (by decide)) (by decide)
  rw [unified, unifyNewlines_of_plain hreturn, String.ofList_toList]

/-! ## Descriptions -/

section

variable {file source : String} {d : Description} {w : List Report}

/-- A source is read as the same description under any name. -/
theorem ofSource_renamed (h : Description.ofSource file source = .ok (d, w)) (file' : String) :
    ∃ d' w', Description.ofSource file' source = .ok (d', w') ∧ d'.params = d.params ∧
      d'.body = d.body := by
  have hscan : ∃ tokens, Token.scan file source = .ok tokens := by
    simp only [Description.ofSource, bind_eq_ok, mapError_eq_ok] at h
    obtain ⟨tokens, hscan, -⟩ := h
    exact ⟨tokens, hscan⟩
  obtain ⟨tokens, hscan⟩ := hscan
  obtain ⟨shapes, hshapes⟩ := exists_shapes (stray_notMem_of_scan hscan)
  obtain ⟨tokens₁, hscan₁, htokens₁⟩ := scan_of_seen file hshapes
  obtain ⟨tokens', hscan', htokens'⟩ := scan_of_seen file' hshapes
  rcases ofSource_displaced_eq hscan₁ hscan' (htokens₁.trans htokens'.symm) with
    ⟨d₁, d', w₁, w', h₁, h', heq, -⟩ | ⟨rs, rs', h₁, -⟩
  · rw [h] at h₁
    cases h₁
    have hparams : d.displaced.params = d'.displaced.params := congrArg Description.params heq
    have hbody : d.displaced.body = d'.displaced.body := congrArg Description.body heq
    exact ⟨d', w', h', hparams.symm, hbody.symm⟩
  · rw [h] at h₁
    cases h₁

/-- What is warned of is told by the parameters and the body. -/
theorem warnings_unplaced (h : Description.ofSource file source = .ok (d, w))
    {file' source' : String} {d' : Description} {w' : List Report}
    (h' : Description.ofSource file' source' = .ok (d', w')) (hp : d'.params = d.params)
    (hb : d'.body = d.body) : w'.map (·.unplaced) = w.map (·.unplaced) := by
  obtain ⟨-, -, hw⟩ := ofSource_sound h
  obtain ⟨-, -, hw'⟩ := ofSource_sound h'
  have hgist : d'.gist = d.gist := by rw [Description.gist, Description.gist, hb]
  have hfindings : d'.findings = d.findings := by
    rw [Description.findings, Description.findings, hgist, hp]
  exact unplaced_eq_of_finding (by rw [hw', hw, hfindings])

end

/-! ## Texts -/

/-- What formatting makes of a stored text. -/
def tidied (width : Text.Width) (stored : String) : String :=
  match Description.ofSource "" (Text.unified stored) with
  | .error _ => stored
  | .ok (d, _) =>
    match d.print width with
    | .error _ => stored
    | .ok text => if text = Text.unified stored then stored else text

section

variable {width : Text.Width} {file stored text : String} {d : Description} {w : List Report}

theorem tidied_of_rejected {e : ReadError}
    (h : Description.ofSource file (Text.unified stored) = .error e) :
    tidied width stored = stored := by
  delta tidied
  cases hread : Description.ofSource "" (Text.unified stored) with
  | error e => rfl
  | ok x =>
    obtain ⟨d', w', h', -⟩ := ofSource_renamed hread file
    rw [h] at h'
    cases h'

theorem tidied_of_read (h : Description.ofSource file (Text.unified stored) = .ok (d, w))
    (hprint : d.print width = .ok text) :
    tidied width stored = if text = Text.unified stored then stored else text := by
  obtain ⟨d', w', h', hp, hb⟩ := ofSource_renamed h ""
  have hprint' : d'.print width = .ok text := by
    rw [← hprint, Description.print, Description.print, hp, hb]
  delta tidied
  simp only [h', hprint']

theorem unified_of_print (h : Description.ofSource file (Text.unified stored) = .ok (d, w))
    (hprint : d.print width = .ok text) : Text.unified text = text := by
  obtain ⟨text', hprint', hw⟩ := (ofSource_sound h).1.print_writes width
  rw [hprint] at hprint'
  cases hprint'
  exact Text.unified_of_plain hw.plain

/-- A text that is tidied is, line ends aside, the canonical text of what it is read as. -/
theorem unified_tidied (h : Description.ofSource file (Text.unified stored) = .ok (d, w))
    (hprint : d.print width = .ok text) : Text.unified (tidied width stored) = text := by
  rw [tidied_of_read h hprint]
  split
  next heq => exact heq.symm
  next => exact unified_of_print h hprint

/-- **Tidying is idempotent.** -/
theorem tidied_tidied (width : Text.Width) (stored : String) :
    tidied width (tidied width stored) = tidied width stored := by
  rcases ofSource_outcome "" (Text.unified stored) with ⟨d, w, h, -⟩ | ⟨reports, h, -⟩
  · obtain ⟨text, d', w', hprint, h', hp, hb⟩ := (ofSource_sound h).1.reads_back width ""
    have hprint' : d'.print width = .ok text := by
      rw [← hprint, Description.print, Description.print, hp, hb]
    have hunified := unified_tidied h hprint
    rw [← hunified] at h'
    rw [tidied_of_read h' hprint', if_pos hunified.symm]
  · rw [tidied_of_rejected h, tidied_of_rejected h]

/-- **A tidied text compiles to the same**, places aside, under any settings and any name. -/
theorem compile_tidied (width : Text.Width) (stored : String) (settings : OutputSettings)
    (file : String) :
    ((settings.compile file (Text.unified (tidied width stored))).mapError (·.unplaced)).map
        withoutPlaces =
      ((settings.compile file (Text.unified stored)).mapError (·.unplaced)).map withoutPlaces := by
  rcases ofSource_outcome file (Text.unified stored) with ⟨d, w, h, -⟩ | ⟨reports, h, -⟩
  · obtain ⟨text, d', w', hprint, h', hp, hb⟩ := (ofSource_sound h).1.reads_back width file
    rw [unified_tidied h hprint]
    exact settingsCompile_unplaced h h' hp hb (warnings_unplaced h h' hp hb)
  · rw [tidied_of_rejected h]

end

/-! ## Trees -/

/-- An entry with its text tidied. -/
def Entry.tidied (width : Text.Width) : Entry → Entry
  | .file (.text stored) => .file (.text (TypeDesc.tidied width stored))
  | e => e

@[simp] theorem Entry.tidied_tidied (width : Text.Width) (e : Entry) :
    (e.tidied width).tidied width = e.tidied width := by
  rcases e with ⟨_ | _⟩ | _
  · simp [Entry.tidied, TypeDesc.tidied_tidied]
  · rfl
  · rfl

namespace FileTree

theorem setIn_self {loc : Location} {e : Entry} {entries : List (Location × Entry)}
    (h : entries.lookup loc = some e) : setIn loc e entries = entries := by
  induction entries with
  | nil => cases h
  | cons entry entries ih =>
    obtain ⟨l, old⟩ := entry
    by_cases hl : l = loc
    · subst hl
      obtain rfl : old = e := by simpa [List.lookup_cons] using h
      simp [setIn]
    · have hne : (loc == l) = false := by simp [Ne.symm hl]
      rw [List.lookup_cons, hne] at h
      rw [setIn, if_neg hl, ih h]

/-- Writing a text where it is already changes nothing. -/
theorem set_self {t : FileTree} {loc : Location} {content : Content}
    (h : t.get? loc = some (.file content)) : t.set loc (.file content) = t := by
  unfold get? at h
  split at h
  next => cases h
  next => exact congrArg FileTree.mk (setIn_self h)

/-- The tree with the text at a location tidied. -/
def tidyAt (width : Text.Width) (t : FileTree) (loc : Location) : FileTree :=
  match t.get? loc with
  | some (.file (.text stored)) => t.set loc (.file (.text (tidied width stored)))
  | _ => t

/-- The tree with the texts at some locations tidied. -/
def tidyAll (width : Text.Width) (t : FileTree) (locs : List Location) : FileTree :=
  locs.foldl (tidyAt width) t

theorem tidyAt_text {t : FileTree} {loc : Location} {stored : String}
    (h : t.get? loc = some (.file (.text stored))) (width : Text.Width) :
    t.tidyAt width loc = t.set loc (.file (.text (tidied width stored))) := by
  rw [tidyAt, h]

variable (width : Text.Width) (t : FileTree)

theorem tidyAt_cases (loc : Location) :
    (∃ stored, t.get? loc = some (.file (.text stored)) ∧
      t.tidyAt width loc = t.set loc (.file (.text (tidied width stored)))) ∨
    (t.get? loc).map (Entry.tidied width) = t.get? loc ∧ t.tidyAt width loc = t := by
  unfold tidyAt
  rcases t.get? loc with _ | ⟨_ | _⟩ | _
  · exact .inr ⟨rfl, rfl⟩
  · exact .inl ⟨_, rfl, rfl⟩
  · exact .inr ⟨rfl, rfl⟩
  · exact .inr ⟨rfl, rfl⟩

@[simp] theorem outline_tidyAt (loc : Location) : (t.tidyAt width loc).outline = t.outline := by
  rcases t.tidyAt_cases width loc with ⟨stored, hget, heq⟩ | ⟨-, heq⟩
  · rw [heq, outline_set hget]
  · rw [heq]

theorem get?_tidyAt (loc l : Location) : (t.tidyAt width loc).get? l =
    if l = loc then (t.get? l).map (Entry.tidied width) else t.get? l := by
  rcases t.tidyAt_cases width loc with ⟨stored, hget, heq⟩ | ⟨hsame, heq⟩
  · rw [heq]
    by_cases hl : l = loc
    · subst hl
      have hne : l ≠ [] := by
        rintro rfl
        cases hget
      rw [if_pos rfl, get?_set_self t hne, hget]
      rfl
    · rw [if_neg hl, get?_set_other t hl]
  · rw [heq]
    split
    next hl => rw [hl, hsame]
    next => rfl

@[simp] theorem outline_tidyAll (locs : List Location) :
    (t.tidyAll width locs).outline = t.outline := by
  induction locs generalizing t with
  | nil => rfl
  | cons loc locs ih => exact (ih _).trans (t.outline_tidyAt width loc)

/-- Nothing but the texts at the locations changes, and these are tidied. -/
theorem get?_tidyAll (locs : List Location) (l : Location) : (t.tidyAll width locs).get? l =
    if l ∈ locs then (t.get? l).map (Entry.tidied width) else t.get? l := by
  induction locs generalizing t with
  | nil => rfl
  | cons loc locs ih =>
    have hstep : (t.tidyAll width (loc :: locs)).get? l =
        ((t.tidyAt width loc).tidyAll width locs).get? l := rfl
    rw [hstep, ih, get?_tidyAt]
    by_cases hl : l = loc
    · -- what is at a location that is named twice is tidied twice, which is as good as once
      have htwice : ((t.get? l).map (Entry.tidied width)).map (Entry.tidied width) =
          (t.get? l).map (Entry.tidied width) := by
        cases t.get? l <;> simp
      simp only [hl, if_true, List.mem_cons, true_or] at htwice ⊢
      rw [htwice, ite_self]
    · simp only [hl, if_false, List.mem_cons, false_or]

/-- A text that is tidy is not changed again. -/
theorem tidyAt_tidyAll {locs : List Location} {loc : Location} (hm : loc ∈ locs) :
    (t.tidyAll width locs).tidyAt width loc = t.tidyAll width locs := by
  have hget := t.get?_tidyAll width locs loc
  rw [if_pos hm] at hget
  rcases (t.tidyAll width locs).tidyAt_cases width loc with ⟨stored, htext, heq⟩ | ⟨-, heq⟩
  · have htidy : tidied width stored = stored := by
      rw [htext] at hget
      obtain ⟨e, -, he⟩ := Option.map_eq_some_iff.1 hget.symm
      have htwice := e.tidied_tidied width
      rw [he] at htwice
      simpa [Entry.tidied] using htwice
    rw [heq, htidy, set_self htext]
  · exact heq

theorem tidyAll_of_fixed {t : FileTree} {locs : List Location}
    (h : ∀ loc ∈ locs, t.tidyAt width loc = t) : t.tidyAll width locs = t := by
  induction locs with
  | nil => rfl
  | cons loc locs ih =>
    rw [List.forall_mem_cons] at h
    show (t.tidyAt width loc).tidyAll width locs = t
    rw [h.1, ih h.2]

/-- **Tidying a tree is idempotent.** -/
theorem tidyAll_tidyAll (locs : List Location) :
    (t.tidyAll width locs).tidyAll width locs = t.tidyAll width locs :=
  tidyAll_of_fixed width fun _ hm => t.tidyAt_tidyAll width hm

/-! ## Reading files -/

/-- The text of what is at a location. -/
def storedText : Option Entry → Except FileError String
  | none => .error .notFound
  | some .directory => .error .isDirectory
  | some (.file (.bytes _)) => .error .notText
  | some (.file (.text value)) => .ok value

theorem readStored_eq (here : Location) (p : Path) :
    t.readStored here p = (t.locate here p >>= fun loc => storedText (t.get? loc)) := by
  simp only [readStored, lookup]
  cases t.locate here p with
  | error e => rfl
  | ok loc =>
    simp only [ok_bind]
    rcases t.get? loc with _ | ⟨_ | _⟩ | _ <;> rfl

theorem read_eq (here : Location) (p : Path) :
    t.read here p = (t.readStored here p).map Text.unified := by
  rw [read]
  cases t.readStored here p <;> rfl

theorem storedText_tidied (e : Option Entry) :
    storedText (e.map (Entry.tidied width)) = (storedText e).map (tidied width) := by
  rcases e with _ | ⟨_ | _⟩ | _ <;> rfl

theorem locate_tidyAll (locs : List Location) (here : Location) (p : Path) :
    (t.tidyAll width locs).locate here p = t.locate here p := by
  rw [locate_congr (t.outline_tidyAll width locs)]

/-- Where the text is tidied, this is what is read. -/
theorem readStored_tidyAll_of_mem {here loc : Location} {p : Path} {locs : List Location}
    (h : t.locate here p = .ok loc) (hm : loc ∈ locs) :
    (t.tidyAll width locs).readStored here p = (t.readStored here p).map (tidied width) := by
  rw [readStored_eq, readStored_eq, locate_tidyAll, h]
  simp only [ok_bind, get?_tidyAll, if_pos hm]
  exact storedText_tidied width _

/-- A file that is read after tidying holds what it held, or that tidied. -/
theorem readStored_tidyAll (locs : List Location) (here : Location) (p : Path) :
    (t.tidyAll width locs).readStored here p = t.readStored here p ∨
      (t.tidyAll width locs).readStored here p = (t.readStored here p).map (tidied width) := by
  cases h : t.locate here p with
  | error e =>
    left
    rw [readStored_eq, readStored_eq, locate_tidyAll, h]
    rfl
  | ok loc =>
    by_cases hm : loc ∈ locs
    · exact .inr (t.readStored_tidyAll_of_mem width h hm)
    · left
      rw [readStored_eq, readStored_eq, locate_tidyAll, h]
      simp only [ok_bind, get?_tidyAll, if_neg hm]

end FileTree

end TypeDesc
