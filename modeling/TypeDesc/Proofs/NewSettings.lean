/-
The settings file of a new project gives its name back. Each line of the file does
to the document what it is meant to do (`Changes`), and the name stands between
quotes as it is. What has been read for it is the name of the project to the end
of the file (`name_of_ofText`), and is never longer than what was written, so that
the name is read as it is exactly if no character of it means anything between
quotes (`newSettings_name_iff`). The other settings are then the usual ones
(`ofText_newSettings`).
-/
import TypeDesc.Project.Scaffold
import TypeDesc.Proofs.KeptValues
import TypeDesc.Proofs.QuotedTexts

namespace TypeDesc

/-! ## Line ends in a name -/

namespace Text

theorem unifyPairs_append (a : List Char) {b : List Char} (hb : b.head? ≠ some '\n') :
    unifyPairs (a ++ b) = unifyPairs a ++ unifyPairs b := by
  induction a using unifyPairs.induct with
  | case1 => rfl
  | case2 a ih => rw [List.cons_append, List.cons_append, unifyPairs, ih, unifyPairs]; rfl
  | case3 c a hne ih =>
    have hlone : ∀ rest, c = '\r' → a ++ b = '\n' :: rest → False := by
      intro rest hc hrest
      cases a with
      | nil => exact hb (by rw [← List.nil_append b, hrest]; rfl)
      | cons x a => exact hne a hc (by rw [(List.cons.inj hrest).1])
    rw [List.cons_append, unifyPairs.eq_3 _ _ hlone, ih, unifyPairs.eq_3 _ _ hne]
    rfl

theorem unifyPairs_append_of_notMem {a : List Char} (h : '\r' ∉ a) (b : List Char) :
    unifyPairs (a ++ b) = a ++ unifyPairs b := by
  induction a with
  | nil => rfl
  | cons c a ih =>
    rw [List.mem_cons, not_or] at h
    rw [List.cons_append, unifyPairs.eq_3 _ _ fun _ hc => absurd hc.symm h.1, ih h.2,
      List.cons_append]

theorem unifyPairs_eq {cs : List Char} (h : '\r' ∉ cs) : unifyPairs cs = cs := by
  simpa [unifyPairs] using unifyPairs_append_of_notMem h []

theorem length_unifyPairs_le (cs : List Char) : (unifyPairs cs).length ≤ cs.length ∧
    ((unifyPairs cs).length = cs.length → unifyPairs cs = cs) := by
  induction cs using unifyPairs.induct with
  | case1 => exact ⟨Nat.le_refl _, fun _ => rfl⟩
  | case2 cs ih =>
    rw [unifyPairs]
    simp only [List.length_cons]
    exact ⟨by omega, fun h => by omega⟩
  | case3 c cs hne ih =>
    rw [unifyPairs.eq_3 _ _ hne]
    simp only [List.length_cons]
    exact ⟨by omega, fun h => by rw [ih.2 (by omega)]⟩

end Text

/-! ## The document -/

namespace Project

/-- The settings file up to the name. -/
def settingsStart : List Char :=
  "[package]\nname = \"".toList

/-- The lines that follow the name in the settings file of a new project. -/
def settingsLines : List String :=
  ["version = \"0.1.0\"", "", "[output]", "top_name = \"t\"", "emit_top = true", "line_width = 80",
    "out_dir = \"build\"", "", "[style]", "color = true"]

/-- Lines, each with the line feed that ends it. -/
def ended : List String → List Char
  | [] => []
  | line :: lines => line.toList ++ '\n' :: ended lines

/-- The document once the first header has been read. -/
def packageDocument : Toml.Document :=
  ⟨[("package", .table .opened [])], ["package"], 1⟩

/-- The document once the name has been read. -/
def namedDocument (value : String) : Toml.Document :=
  ⟨[("package", .table .opened [("name", .value (.text value))])], ["package"], 1⟩

theorem newSettings_toList (name : String) : (newSettings name).toList =
    settingsStart ++ (name.toList ++ Text.doubleQuote :: '\n' :: ended settingsLines) := by
  have htexts : ∀ a b c d e : String, (a ++ b ++ c ++ d ++ e).toList =
      a.toList ++ (b.toList ++ (c.toList ++ (d.toList ++ e.toList))) := by
    simp
  have hend : "\"\nversion = \"0.1.0\"\n\n".toList ++
      ("[output]\ntop_name = \"t\"\nemit_top = true\nline_width = 80\nout_dir = \"build\"\n\n".toList ++
        "[style]\ncolor = true\n".toList) = Text.doubleQuote :: '\n' :: ended settingsLines := by
    decide +kernel
  delta newSettings settingsStart
  rw [htexts, hend]

theorem noPair_settingsLines : Toml.NoPair ('\n' :: ended settingsLines) := by
  decide +kernel

/-! ## Lines of the document -/

/-- What a line does to a document when `rest` follows it. -/
def Changes (line : String) (rest : List Char) (f : Toml.Document → Option Toml.Document) : Prop :=
  ∀ d, Toml.readStatement d (Toml.skipSpaces (line.toList ++ '\n' :: rest)) =
    Toml.Defect.orMalformed ((f d).map fun d' => (d', '\n' :: rest))

theorem Changes.readStatements {line : String} {rest : List Char} {d d' : Toml.Document}
    {f : Toml.Document → Option Toml.Document} (h : Changes line rest f) (hd : f d = some d')
    (fuel : Nat) : Toml.readStatements (fuel + 1) d (line.toList ++ '\n' :: rest) =
      Toml.readStatements fuel d' rest := by
  rw [Toml.readStatements, h d, hd]
  rfl

theorem changes_nothing (rest : List Char) : Changes "" rest some :=
  fun _ => rfl

theorem changes_header {line name : String} {rest inner : List Char}
    (hline : Toml.skipSpaces (line.toList ++ '\n' :: rest) = '[' :: inner)
    (hinner : Toml.expect '[' inner = none)
    (hkey : Toml.readKey (Toml.skipSpaces inner) = some (⟨[], name⟩, ']' :: '\n' :: rest)) :
    Changes line rest fun d => d.openTable ⟨[], name⟩ := by
  intro d
  have hend : Toml.expect ']' (']' :: '\n' :: rest) = some ('\n' :: rest) := rfl
  rw [hline]
  change Toml.Defect.orMalformed (Toml.readHeader d inner) = _
  simp only [Toml.readHeader, hinner, hkey, Option.bind_eq_bind, Option.bind_some, hend]
  cases d.openTable ⟨[], name⟩ <;> rfl

theorem changes_definition {line name : String} {value : Toml.Value} (written : String)
    {rest : List Char}
    (hline : ∀ d, Toml.readStatement d (Toml.skipSpaces (line.toList ++ '\n' :: rest)) =
      Toml.readDefinition d (line.toList ++ '\n' :: rest))
    (hkey : Toml.readKey (line.toList ++ '\n' :: rest) =
      some (⟨[], name⟩, '=' :: ' ' :: (written.toList ++ '\n' :: rest)))
    (hspaces : Toml.skipSpaces (' ' :: (written.toList ++ '\n' :: rest)) =
      written.toList ++ '\n' :: rest)
    (hvalue : ∀ fuel, Toml.readValue (fuel + 1) (written.toList ++ '\n' :: rest) =
      .ok (value, '\n' :: rest)) :
    Changes line rest fun d => d.define ⟨[], name⟩ value := by
  intro d
  have hsign : Toml.expect '=' ('=' :: ' ' :: (written.toList ++ '\n' :: rest)) =
      some (' ' :: (written.toList ++ '\n' :: rest)) := rfl
  simp only [hline, Toml.readDefinition, hkey, Toml.Defect.orMalformed, ok_bind, hsign, hspaces,
    hvalue]
  cases d.define ⟨[], name⟩ value <;> rfl

theorem package_line (rest : List Char) :
    Changes "[package]" rest fun d => d.openTable ⟨[], "package"⟩ :=
  changes_header rfl rfl rfl

theorem version_line (rest : List Char) : Changes "version = \"0.1.0\"" rest fun d =>
    d.define ⟨[], "version"⟩ (.text "0.1.0") :=
  changes_definition "\"0.1.0\"" (fun _ => rfl) rfl rfl fun _ => rfl

theorem output_line (rest : List Char) :
    Changes "[output]" rest fun d => d.openTable ⟨[], "output"⟩ :=
  changes_header rfl rfl rfl

theorem topName_line (rest : List Char) : Changes "top_name = \"t\"" rest fun d =>
    d.define ⟨[], "top_name"⟩ (.text "t") :=
  changes_definition "\"t\"" (fun _ => rfl) rfl rfl fun _ => rfl

theorem emitTop_line (rest : List Char) : Changes "emit_top = true" rest fun d =>
    d.define ⟨[], "emit_top"⟩ (.boolean true) :=
  changes_definition "true" (fun _ => rfl) rfl rfl fun _ => rfl

/-- Two digits may be the start of a date, so that it matters what follows the line. -/
theorem lineWidth_line (c : Char) (rest : List Char) :
    Changes "line_width = 80" (c :: rest) fun d => d.define ⟨[], "line_width"⟩ (.integer 80) :=
  changes_definition "80" (fun _ => rfl) rfl rfl fun _ => rfl

theorem outDir_line (rest : List Char) : Changes "out_dir = \"build\"" rest fun d =>
    d.define ⟨[], "out_dir"⟩ (.text "build") :=
  changes_definition "\"build\"" (fun _ => rfl) rfl rfl fun _ => rfl

theorem style_line (rest : List Char) :
    Changes "[style]" rest fun d => d.openTable ⟨[], "style"⟩ :=
  changes_header rfl rfl rfl

theorem color_line (rest : List Char) : Changes "color = true" rest fun d =>
    d.define ⟨[], "color"⟩ (.boolean true) :=
  changes_definition "true" (fun _ => rfl) rfl rfl fun _ => rfl

/-- The document of a new project. -/
def namedSettings (value : String) : Toml.Document :=
  ⟨[("package", .table .opened [("name", .value (.text value)),
      ("version", .value (.text "0.1.0"))]),
    ("output", .table .opened [("top_name", .value (.text "t")),
      ("emit_top", .value (.boolean true)), ("line_width", .value (.integer 80)),
      ("out_dir", .value (.text "build"))]),
    ("style", .table .opened [("color", .value (.boolean true))])], ["style"], 3⟩

/-- The lines that follow the name are read as they are meant. -/
theorem readStatements_settingsLines (value : String) (fuel : Nat) :
    Toml.readStatements (fuel + 11) (namedDocument value) (ended settingsLines) =
      .ok (namedSettings value) := by
  refine ((version_line _).readStatements rfl _).trans ?_
  refine ((changes_nothing _).readStatements rfl _).trans ?_
  refine ((output_line _).readStatements rfl _).trans ?_
  refine ((topName_line _).readStatements rfl _).trans ?_
  refine ((emitTop_line _).readStatements rfl _).trans ?_
  refine ((lineWidth_line _ _).readStatements rfl _).trans ?_
  refine ((outDir_line _).readStatements rfl _).trans ?_
  refine ((changes_nothing _).readStatements rfl _).trans ?_
  refine ((style_line _).readStatements rfl _).trans ?_
  refine ((color_line _).readStatements rfl _).trans ?_
  rfl

/-! ## The name -/

/-- The name is what is read between the quotes. -/
theorem readStatement_name (cs : List Char) :
    Toml.readStatement packageDocument ("name = \"".toList ++ cs) =
      (Toml.Defect.orMalformed (Toml.readText Text.doubleQuote cs)).map fun x =>
        (namedDocument x.1, x.2) := by
  have hkey : Toml.readKey ("name = \"".toList ++ cs) =
      some (⟨[], "name"⟩, "= \"".toList ++ cs) := rfl
  have hvalue : ∀ fuel, Toml.readValue (fuel + 1) (Text.doubleQuote :: cs) =
      Toml.Defect.orMalformed ((Toml.readText Text.doubleQuote cs).map fun x =>
        (.text x.1, x.2)) := fun _ => rfl
  change Toml.readDefinition packageDocument ("name = \"".toList ++ cs) = _
  rw [Toml.readDefinition, hkey]
  change (Toml.readValue _ (Text.doubleQuote :: cs) >>= _) = _
  rw [hvalue]
  cases Toml.readText Text.doubleQuote cs with
  | none => rfl
  | some x => rfl

theorem readStatements_settingsStart (fuel : Nat) (cs : List Char) :
    Toml.readStatements (fuel + 1) {} (settingsStart ++ cs) =
      Toml.readStatements fuel packageDocument ("name = \"".toList ++ cs) :=
  (package_line _).readStatements rfl _

theorem readStatements_name {cs rest : List Char} {value : String}
    (h : Toml.readText Text.doubleQuote cs = some (value, '\n' :: rest)) (fuel : Nat) :
    Toml.readStatements (fuel + 2) {} (settingsStart ++ cs) =
      Toml.readStatements fuel (namedDocument value) rest := by
  have hstart : Toml.skipSpaces ("name = \"".toList ++ cs) = "name = \"".toList ++ cs := rfl
  rw [readStatements_settingsStart, Toml.readStatements, hstart, readStatement_name, h]
  rfl

theorem unifyPairs_newSettings (name : String) : Text.unifyPairs (newSettings name).toList =
    settingsStart ++
      (Text.unifyPairs name.toList ++ Text.doubleQuote :: '\n' :: ended settingsLines) := by
  have hstart : '\r' ∉ settingsStart := by decide +kernel
  have hend : '\r' ∉ Text.doubleQuote :: '\n' :: ended settingsLines := by decide +kernel
  have hquote : (Text.doubleQuote :: '\n' :: ended settingsLines).head? ≠ some '\n' := by
    rw [List.head?_cons]
    decide
  rw [newSettings_toList, Text.unifyPairs_append_of_notMem hstart,
    Text.unifyPairs_append _ hquote, Text.unifyPairs_eq hend]

/-- What the settings of a new project are meant to be. -/
def settingsNamed (name : String) : Settings :=
  { package := { name := .text name, version := .text "0.1.0" } }

/-- **A plain name is read as it is, and the other settings are the usual ones.** -/
theorem ofText_newSettings {name : String} (h : ∀ c ∈ name.toList, Toml.IsPlainChar c) :
    Settings.ofText (newSettings name) = .ok (settingsNamed name) := by
  have hname : '\r' ∉ name.toList := fun hmem => absurd (h _ hmem) (by decide)
  have hunified := unifyPairs_newSettings name
  rw [Text.unifyPairs_eq hname] at hunified
  -- there are enough lines for the reader to come to the end
  obtain ⟨fuel, hfuel⟩ : ∃ fuel,
      (Text.unifyPairs (newSettings name).toList).length + 1 = fuel + 13 := by
    have hstart : settingsStart.length = 18 := rfl
    rw [hunified, List.length_append, hstart]
    exact Nat.exists_eq_add_of_le' (by omega)
  have hread : Toml.readStatements (fuel + 13) {} (settingsStart ++
      (name.toList ++ Text.doubleQuote :: '\n' :: ended settingsLines)) =
        .ok (namedSettings name) := by
    rw [readStatements_name (Toml.readText_plain h _), String.ofList_toList,
      readStatements_settingsLines]
  rw [Settings.ofText, Toml.read, hfuel, hunified, hread]
  rfl

theorem holds_name {cs : List Char} {fuel : Nat} {d : Toml.Document}
    (h : Toml.readStatements fuel {} (settingsStart ++ cs) = .ok d) :
    ∃ value rest, Toml.readText Text.doubleQuote cs = some (value, rest) ∧
      Toml.Holds (.text value) ["package", "name"] d.entries := by
  cases fuel with
  | zero => cases h
  | succ fuel =>
    rw [readStatements_settingsStart] at h
    cases fuel with
    | zero => cases h
    | succ fuel =>
      obtain ⟨d₁, rest, hname, hlater⟩ := Toml.readStatements_step h
      have hstart : Toml.skipSpaces ("name = \"".toList ++ cs) = "name = \"".toList ++ cs := rfl
      rw [hstart, readStatement_name] at hname
      cases hread : Toml.readText Text.doubleQuote cs with
      | none =>
        rw [hread] at hname
        cases hname
      | some x =>
        rw [hread] at hname
        cases hname
        have hholds : Toml.Holds (.text x.1) ["package", "name"] (namedDocument x.1).entries :=
          .table rfl (.value rfl)
        refine ⟨x.1, x.2, rfl, ?_⟩
        rcases hlater with rfl | ⟨after, hafter⟩
        · exact hholds
        · exact Toml.readStatements_keeps hafter hholds

/-- What is read between the quotes is the name of the project. -/
theorem name_of_ofText {cs : List Char} {text : String} {s : Settings}
    (htext : Text.unifyPairs text.toList = settingsStart ++ cs) (h : Settings.ofText text = .ok s) :
    ∃ value rest, Toml.readText Text.doubleQuote cs = some (value, rest) ∧
      s.package.name = .text value := by
  simp only [Settings.ofText, bind_eq_ok, mapError_eq_ok, Settings.ofEntries] at h
  obtain ⟨entries, hread, package, hpackage, output, -, style, -, heq⟩ := h
  cases heq
  rw [Toml.read, htext] at hread
  cases hdocument : Toml.readStatements ((settingsStart ++ cs).length + 1) {}
      (settingsStart ++ cs) with
  | error e =>
    rw [hdocument] at hread
    cases hread
  | ok d =>
    rw [hdocument] at hread
    cases hread
    obtain ⟨value, rest, hvalue, hholds⟩ := holds_name hdocument
    obtain ⟨inner, hinner, hlookup⟩ := hholds.lookup
    rw [Settings.sectionEntries, hinner] at hpackage
    cases hpackage
    exact ⟨value, rest, hvalue, by rw [hlookup]; rfl⟩

/-- **A name is read as it is exactly if every character of it is plain.** -/
theorem newSettings_name_iff (name : String) :
    (∃ s, Settings.ofText (newSettings name) = .ok s ∧ s.package.name = .text name) ↔
      ∀ c ∈ name.toList, Toml.IsPlainChar c := by
  refine ⟨?_, fun h => ⟨_, ofText_newSettings h, rfl⟩⟩
  rintro ⟨s, hs, hname⟩
  obtain ⟨value, rest, hread, hvalue⟩ := name_of_ofText (unifyPairs_newSettings name) hs
  obtain rfl : value = name := by
    rw [hvalue] at hname
    exact Toml.Value.text.inj hname
  obtain ⟨hle, hplain⟩ := Toml.readText_bound noPair_settingsLines hread
  obtain ⟨hle', heq⟩ := Text.length_unifyPairs_le value.toList
  rw [String.length_toList] at hle' heq
  have hlength := Nat.le_antisymm hle' hle
  rw [heq hlength] at hplain
  exact (hplain (by rw [String.length_toList])).2

end Project

end TypeDesc
