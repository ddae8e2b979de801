/-
A new project can be built. Starting one makes its directory of descriptions,
which therefore holds nothing but the description that is written there, and
leaves the settings file with the name of the project in it (`scaffold_started`).
So a build compiles that one description without a report, and succeeds if there
is room for its output (`Started.build_iff`). What is read from the settings file
is the name that was given exactly if its characters mean nothing between quotes
(`new_project_builds_iff`).
-/
import TypeDesc.Proofs.NewSettings
import TypeDesc.Proofs.RootedTrees

namespace TypeDesc

/-! ## Texts of paths -/

theorem Text.joinWith_concat (sep : String) {texts : List String} (h : texts ≠ []) (text : String) :
    joinWith sep (texts ++ [text]) = joinWith sep texts ++ (sep ++ text) := by
  induction texts with
  | nil => exact absurd rfl h
  | cons first texts ih =>
    cases texts with
    | nil => simp [joinWith, String.append_assoc]
    | cons second texts =>
      have hrest := ih (List.cons_ne_nil _ _)
      simp only [List.cons_append, joinWith] at hrest ⊢
      rw [hrest]
      simp only [String.append_assoc]

theorem Path.child_text {p : Path} (h : p.names ≠ []) (name : String) :
    (p.child name).text = p.text ++ ("/" ++ name) := by
  simp only [text, child, Text.joinWith_concat "/" h]
  split
  · rw [String.append_assoc]
  · simp [h]

theorem FileTree.checkText_eq_ok {text : String} :
    checkText text = .ok () ↔ '\x00' ∉ text.toList ∧ text.utf8ByteSize < pathBytesLimit := by
  rw [checkText]
  split
  next hmem => simp [List.contains_iff_mem.1 hmem]
  next hmem =>
    rw [List.contains_iff_mem] at hmem
    split
    next hsize => simp [Nat.not_lt.2 hsize]
    next hsize => simp [hmem, Nat.not_le.1 hsize]

theorem FileTree.locate_child {t : FileTree} {p : Path} {loc : Location} {name : String}
    (h : t.follow [] p.names = .ok loc) (hdir : t.get? loc = some .directory)
    (hname : step loc name = .ok (loc ++ [name])) (htext : checkText (p.child name).text = .ok ()) :
    t.locate [] (p.child name) = .ok (loc ++ [name]) := by
  rw [locate, htext, ok_bind, ite_self, Path.child, follow_concat h hdir, hname]

namespace Project

/-! ## Files of a new project -/

theorem locationOf_child (p : Path) {name : String} (h : name ≠ "..") :
    locationOf (p.child name) = locationOf p ++ [name] := by
  rw [locationOf, Path.child, Location.advance_concat, if_neg h]
  rfl

variable {t t' : FileTree}

/-- A tree with texts put in their places, one after the other. -/
def withTexts (t : FileTree) : List (Path × String) → FileTree
  | [] => t
  | (place, text) :: files => withTexts (t.set (locationOf place) (.file (.text text))) files

/-- **Writing files** puts them in their places. -/
theorem writeFiles_eq_ok {files : List (Path × String)} (ht : t.Rooted)
    (h : writeFiles t files = (t', .ok ())) :
    t' = withTexts t files ∧ t.Grows t' (files.map fun x => locationOf x.1) ∧
      ∀ x ∈ files, t'.locate [] x.1 = .ok (locationOf x.1) := by
  induction files generalizing t with
  | nil =>
    obtain rfl : t = t' := congrArg Prod.fst h
    exact ⟨rfl, .refl t, by simp⟩
  | cons first files ih =>
    obtain ⟨place, text⟩ := first
    rw [writeFiles] at h
    split at h
    next written hwritten =>
      obtain ⟨loc, hloc, hdir, rfl⟩ := FileTree.write_eq_ok hwritten
      obtain rfl := locate_eq_locationOf hloc
      obtain ⟨heq, hgrows, hrest⟩ := ih (ht.write hwritten) h
      have hall := (FileTree.grows_set hdir _).trans hgrows
      exact ⟨heq, hall,
        List.forall_mem_cons.2 ⟨FileTree.locate_of_grows hall hloc, hrest⟩⟩
    next => cases congrArg Prod.snd h

/-- What starting a project does: its directory of descriptions is new. -/
theorem scaffold_eq_ok {here : Location} {name : String} {dir : Path}
    (h : scaffold t here name = (t', .ok dir)) :
    dir.absolute = true ∧ (∃ e, t.lookup [] dir = .error e) ∧ ∃ made,
      t.makeDirectories [] false (dir.child "src") = (made, .ok ()) ∧
      writeFiles made (newFiles dir name) = (t', .ok ()) := by
  have habsolute : ((Path.mk true here).join (.ofText name)).absolute = true := by
    rw [Path.join]
    split
    next hroot => exact hroot
    next => rfl
  unfold scaffold at h
  extract_lets d at h
  replace habsolute : d.absolute = true := habsolute
  clear_value d
  split at h
  next => cases congrArg Prod.snd h
  next => cases congrArg Prod.snd h
  next e _ hlookup =>
    split at h
    next => cases congrArg Prod.snd h
    next made hmade =>
      split at h
      next => cases congrArg Prod.snd h
      next written hwritten =>
        cases h
        exact ⟨habsolute, ⟨e, hlookup⟩, made, hmade, hwritten⟩

/-- What starting a project leaves behind in its directory. -/
structure Started (t : FileTree) (dir : Path) (name : String) : Prop where
  absolute : dir.absolute = true
  named : dir.names ≠ []
  leads : t.follow [] dir.names = .ok (locationOf dir)
  directory : t.get? (locationOf dir) = some .directory
  text : FileTree.checkText ((dir.child "src").child "main.tyd").text = .ok ()
  sourceDir : t.get? (locationOf dir ++ ["src"]) = some .directory
  sources : t.below (locationOf dir ++ ["src"]) = [["main.tyd"]]
  description : t.get? (locationOf dir ++ ["src", "main.tyd"]) = some (.file (.text newDescription))
  settings : t.get? (locationOf dir ++ [Settings.fileName]) =
    some (.file (.text (newSettings name)))

theorem withTexts_newFiles (t : FileTree) (dir : Path) (name : String) :
    withTexts t (newFiles dir name) =
      (((t.set (locationOf dir ++ [Settings.fileName]) (.file (.text (newSettings name)))).set
        (locationOf dir ++ ["src", "main.tyd"]) (.file (.text newDescription))).set
        (locationOf dir ++ [".gitignore"]) (.file (.text newIgnored))).set
        (locationOf dir ++ ["README.md"]) (.file (.text (newReadme name))) := by
  have hsettings : Settings.fileName ≠ ".." := by decide
  simp only [newFiles, withTexts]
  rw [locationOf_child _ hsettings, locationOf_child _ (by decide), locationOf_child _ (by decide),
    locationOf_child _ (by decide), locationOf_child _ (by decide), List.append_assoc]
  rfl

section

variable {dir : Path} {name : String}

/-- What the files of a new project are, once they have been written. -/
theorem get?_withTexts_newFiles (t : FileTree) (dir : Path) (name : String) :
    (withTexts t (newFiles dir name)).get? (locationOf dir ++ [Settings.fileName]) =
        some (.file (.text (newSettings name))) ∧
      (withTexts t (newFiles dir name)).get? (locationOf dir ++ ["src", "main.tyd"]) =
        some (.file (.text newDescription)) := by
  have hne : ∀ {a b : Location}, a ≠ b → locationOf dir ++ a ≠ locationOf dir ++ b :=
    fun hab h => hab (List.append_cancel_left h)
  rw [withTexts_newFiles]
  constructor
  · rw [FileTree.get?_set_other _ (hne (by decide)), FileTree.get?_set_other _ (hne (by decide)),
      FileTree.get?_set_other _ (hne (by decide)), FileTree.get?_set_self _ (by simp)]
  · rw [FileTree.get?_set_other _ (hne (by decide)), FileTree.get?_set_other _ (hne (by decide)),
      FileTree.get?_set_self _ (by simp)]

/-- Of the files of a new project, one lies in the directory of descriptions. -/
theorem below_withTexts_newFiles (h : t.below (locationOf dir ++ ["src"]) = []) (name : String) :
    (withTexts t (newFiles dir name)).below (locationOf dir ++ ["src"]) = [["main.tyd"]] := by
  have hbelow : ∀ names : Location,
      (locationOf dir ++ ["src"]).below? (locationOf dir ++ names) = Location.below? ["src"] names :=
    fun names => Location.below?_append _ _ _
  rw [withTexts_newFiles, FileTree.below_set_of_none (by rw [hbelow]; rfl),
    FileTree.below_set_of_none (by rw [hbelow]; rfl)]
  have hsettings : (t.set (locationOf dir ++ [Settings.fileName])
      (.file (.text (newSettings name)))).below (locationOf dir ++ ["src"]) = [] := by
    rw [FileTree.below_set_of_none (by rw [hbelow]; rfl), h]
  rw [FileTree.below_set_of_some (by rw [hbelow]; rfl) (by simp [hsettings]), hsettings]
  rfl

/-- The directory of descriptions is new when the files are written, and so is what is above it
where nothing was. -/
theorem scaffold_files {here : Location} (ht : t.Rooted)
    (h : scaffold t here name = (t', .ok dir)) : ∃ above : FileTree, above.Rooted ∧
      above.get? (locationOf dir ++ ["src"]) = none ∧
      (∀ {loc}, (∀ front, front <+: dir.names → loc ≠ Location.advance [] front) →
        above.get? loc = t.get? loc) ∧
      t' = withTexts (above.set (locationOf dir ++ ["src"]) .directory) (newFiles dir name) ∧
      t'.get? (locationOf dir ++ ["src"]) = some .directory ∧
      t'.locate [] ((dir.child "src").child "main.tyd") =
        .ok (locationOf ((dir.child "src").child "main.tyd")) := by
  obtain ⟨-, -, made, hmade, hfiles⟩ := scaffold_eq_ok h
  obtain ⟨above, habove, hmake, hothers⟩ := FileTree.makeDirectories_child hmade
  obtain ⟨loc, hloc, hnone, rfl⟩ := FileTree.makeDirectory_eq_ok hmake
  obtain rfl : loc = locationOf dir ++ ["src"] :=
    (locate_eq_locationOf hloc).trans (locationOf_child dir (by decide))
  have hrooted := (habove ht).set ((habove ht).locate_dropLast hloc) (by simp [hnone]) .directory
  obtain ⟨heq, hgrows, hplaces⟩ := writeFiles_eq_ok hrooted hfiles
  exact ⟨above, habove ht, hnone, hothers, heq,
    hgrows.directories (above.get?_set_self (by simp) _),
    hplaces ((dir.child "src").child "main.tyd", newDescription) (by simp [newFiles])⟩

/-- **Starting a project** leaves its files behind, and its directory of descriptions holds one. -/
theorem scaffold_started {here : Location} (ht : t.Rooted)
    (h : scaffold t here name = (t', .ok dir)) : Started t' dir name := by
  obtain ⟨habsolute, ⟨e, hlookup⟩, -⟩ := scaffold_eq_ok h
  obtain ⟨above, habove, hnone, -, rfl, hsrc, hmain⟩ := scaffold_files ht h
  simp only [FileTree.locate, bind_eq_ok, ite_self] at hmain
  obtain ⟨⟨⟩, htext, hmain⟩ := hmain
  obtain ⟨src, hleads, -, -⟩ := FileTree.follow_concat_eq_ok rfl hmain
  obtain ⟨loc, hleads, hdirectory, -⟩ := FileTree.follow_concat_eq_ok rfl hleads
  obtain rfl : loc = locationOf dir := FileTree.follow_eq_advance hleads
  have hempty : (above.set (locationOf dir ++ ["src"]) .directory).below
      (locationOf dir ++ ["src"]) = [] := by
    rw [FileTree.below_set_of_none (by rw [Location.below?_append]; rfl),
      habove.below_eq_nil (by simp [hnone])]
  exact {
    absolute := habsolute
    named := by
      intro hnil
      obtain rfl : dir = ⟨true, []⟩ := by rw [← habsolute, ← hnil]
      cases hlookup
    leads := hleads
    directory := hdirectory
    text := htext
    sourceDir := hsrc
    sources := below_withTexts_newFiles hempty name
    description := (get?_withTexts_newFiles _ dir name).2
    settings := (get?_withTexts_newFiles _ dir name).1 }

/-! ## Reading a new project -/

/-- A source that is compiled without a report is so whatever its file is called. -/
theorem compile_any_file {settings : OutputSettings} {file source text : String}
    (h : settings.compile file source = .ok (text, [])) (file' : String) :
    settings.compile file' source = .ok (text, []) := by
  have hread := h
  simp only [OutputSettings.compile, Description.ofSource, bind_eq_ok, mapError_eq_ok] at hread
  obtain ⟨-, ⟨tokens, hscan, -⟩, -⟩ := hread
  obtain ⟨shapes, hseen⟩ := exists_shapes (stray_notMem_of_scan hscan)
  obtain ⟨tokens₁, hscan₁, hshapes₁⟩ := scan_of_seen file hseen
  obtain ⟨tokens₂, hscan₂, hshapes₂⟩ := scan_of_seen file' hseen
  have hsame := settingsCompile_displaced_eq hscan₂ hscan₁ (hshapes₂.trans hshapes₁.symm) settings
  rw [h] at hsame
  cases hfile : settings.compile file' source with
  | error e =>
    rw [hfile] at hsame
    cases hsame
  | ok x =>
    rw [hfile] at hsame
    obtain ⟨htext, hwarnings⟩ := Prod.mk.inj (Except.ok.inj hsame)
    exact congrArg Except.ok (Prod.ext htext (List.map_eq_nil_iff.1 hwarnings))

/-- The description of a new project is compiled without a report. -/
theorem compile_newDescription : ∃ text, ∀ file,
    ({} : OutputSettings).compile file newDescription = .ok (text, []) := by
  obtain ⟨⟨text, warnings⟩, hcompile, hreports⟩ := exists_ok_of_any
    (({} : OutputSettings).compile "" newDescription) (·.2.isEmpty) (by decide +kernel)
  obtain rfl : warnings = [] := List.isEmpty_iff.1 hreports
  exact ⟨text, compile_any_file hcompile⟩

namespace Started

variable (h : Started t dir name)
include h

theorem dir_eq : (⟨true, dir.names⟩ : Path) = dir := by
  rw [← h.absolute]

/-- A path into the directory can be followed if its text is not too long. -/
theorem checkText_iff (b : String) : FileTree.checkText (dir.text ++ b) = .ok () ↔
    '\x00' ∉ b.toList ∧ dir.text.utf8ByteSize + b.utf8ByteSize < FileTree.pathBytesLimit := by
  have htext := h.text
  rw [Path.child_text (by simp [Path.child]), Path.child_text h.named, String.append_assoc,
    FileTree.checkText_eq_ok, String.toList_append, List.mem_append, not_or] at htext
  rw [FileTree.checkText_eq_ok, String.toList_append, List.mem_append, not_or,
    and_iff_right htext.1.1, String.utf8ByteSize_append]

/-- The texts of paths into the directory that are no longer than the one to the description. -/
theorem checkText_of_le {b : String} (hb : '\x00' ∉ b.toList) (hsize : b.utf8ByteSize ≤ 13) :
    FileTree.checkText (dir.text ++ b) = .ok () := by
  have htext := h.text
  rw [Path.child_text (by simp [Path.child]), Path.child_text h.named, String.append_assoc,
    h.checkText_iff] at htext
  have hmain : ("/" ++ "src" ++ ("/" ++ "main.tyd")).utf8ByteSize = 13 := by decide
  rw [hmain] at htext
  rw [h.checkText_iff]
  exact ⟨hb, by omega⟩

/-- The settings file can be read. -/
theorem load_eq :
    Settings.load t dir.names = (Settings.ofText (newSettings name)).mapError .settings := by
  have hloc : t.locate [] (dir.child Settings.fileName) =
      .ok (locationOf dir ++ [Settings.fileName]) :=
    FileTree.locate_child h.leads h.directory rfl (by
      rw [Path.child_text h.named]
      exact h.checkText_of_le (by decide) (by decide))
  have hread : t.readStored [] ⟨true, dir.names ++ [Settings.fileName]⟩ =
      .ok (newSettings name) := by
    rw [← h.absolute]
    change t.readStored [] (dir.child Settings.fileName) = _
    rw [FileTree.readStored_eq, hloc, ok_bind, h.settings]
    rfl
  rw [Settings.load, hread, mapError_ok, ok_bind]

theorem locate_src : t.locate [] (dir.child "src") = .ok (locationOf dir ++ ["src"]) :=
  FileTree.locate_child h.leads h.directory rfl (by
    rw [Path.child_text h.named]
    exact h.checkText_of_le (by decide) (by decide))

theorem sourceDir_eq : Project.sourceDir t [] dir = dir.child "src" := by
  have hdirectory : t.isDirectory [] (dir.child "src") = true := by
    simp only [FileTree.isDirectory, FileTree.lookup, h.locate_src, ok_bind, h.sourceDir]
  rw [Project.sourceDir, if_pos hdirectory]

/-- The one description is what is found. -/
theorem found_eq (s : Settings) :
    (Project.mk dir.names s).found t = [(dir.child "src").child "main.tyd"] := by
  rw [found, h.dir_eq, Project.sources, h.sourceDir_eq, FileTree.search_eq h.locate_src, h.sources]
  rfl

theorem read_description : t.read [] ((dir.child "src").child "main.tyd") = .ok newDescription := by
  have hunified : Text.unified newDescription = newDescription := by decide +kernel
  have hloc : t.locate [] ((dir.child "src").child "main.tyd") =
      .ok (locationOf dir ++ ["src", "main.tyd"]) := by
    have hsrc : t.follow [] (dir.child "src").names = .ok (locationOf dir ++ ["src"]) :=
      FileTree.follow_concat h.leads h.directory "src"
    rw [FileTree.locate_child hsrc h.sourceDir rfl h.text, List.append_assoc]
    rfl
  rw [FileTree.read_eq, FileTree.readStored_eq, hloc, ok_bind, h.description]
  exact congrArg Except.ok hunified

omit h in
theorem target_newDescription (dir : Path) :
    target dir (.ofText "build") (dir.child "src") ((dir.child "src").child "main.tyd") =
      (dir.child "build").child "main.re" := by
  have hout : Path.ofText "build" = ⟨false, ["build"]⟩ := by decide
  have hending : Path.withEnding "main.tyd" outputEnding = "main.re" := by decide
  simp [target, hout, Path.join, Path.child, Path.replaceEnding, hending]

theorem compiled_eq {s : Settings} (hs : s.output = {}) : ∃ text,
    (Project.mk dir.names s).compiled? t =
      .ok ⟨[], [((dir.child "build").child "main.re", text)]⟩ := by
  obtain ⟨text, htext⟩ := compile_newDescription
  have hout : ({} : OutputSettings).directory = .ok "build" := rfl
  refine ⟨text, ?_⟩
  rw [compiled?, h.found_eq, h.dir_eq, h.sourceDir_eq]
  simp only [compileAll, h.read_description, hs, htext, hout, mapError_ok, ok_bind, List.nil_append,
    target_newDescription]

/-- What a build of the project does: it writes one text. -/
theorem build_eq {s : Settings} (hs : s.output = {}) : ∃ text, ∀ {t' outputs},
    (Project.mk dir.names s).build t = (t', .ok (.built outputs [])) ↔
      outputs = [(dir.child "build").child "main.re"] ∧
        writeOne t ((dir.child "build").child "main.re") text = (t', .ok ()) := by
  obtain ⟨text, hcompiled⟩ := h.compiled_eq hs
  refine ⟨text, fun {t' outputs} => ?_⟩
  rw [Project.build_eq (by simp [h.found_eq]), hcompiled]
  simp only [finish, List.any_nil, Bool.false_eq_true, if_false, writeAll]
  generalize writeOne t _ text = written
  obtain ⟨t₁, _ | ⟨⟨⟩⟩⟩ := written
  · simp
  · simp [and_comm, eq_comm]

end Started

/-! ## Room for the output -/

/-- There is room for the text of a new project: its place has no text that is too long, and
nothing is in the way. -/
structure RoomForOutput (t : FileTree) (dir : Path) : Prop where
  text : ((dir.child "build").child "main.re").text.utf8ByteSize < FileTree.pathBytesLimit
  directory : ∀ content, t.get? (locationOf (dir.child "build")) ≠ some (.file content)
  file : t.get? (locationOf ((dir.child "build").child "main.re")) ≠ some .directory

theorem RoomForOutput.of_writeOne {text : String}
    (h : writeOne t ((dir.child "build").child "main.re") text = (t', .ok ())) :
    RoomForOutput t dir := by
  obtain ⟨hgrows, hloc, hfile⟩ := writeOne_grows h
  simp only [FileTree.locate, bind_eq_ok, ite_self] at hloc
  obtain ⟨⟨⟩, htext, hfollow⟩ := hloc
  obtain ⟨loc, hleads, hdirectory, -⟩ := FileTree.follow_concat_eq_ok rfl hfollow
  obtain rfl : loc = locationOf (dir.child "build") := FileTree.follow_eq_advance hleads
  rw [locationOf_child (dir.child "build") (by decide)] at hgrows hfile
  refine ⟨?_, fun content hcontent => ?_, fun hdir => ?_⟩
  · exact (FileTree.checkText_eq_ok.1 htext).2
  · have hkept := hgrows.file (by simp) hcontent
    rw [hdirectory] at hkept
    cases hkept
  · rw [locationOf_child (dir.child "build") (by decide)] at hdir
    rw [hgrows.directories hdir] at hfile
    cases hfile

/-- Where there is room, the text can be written. -/
theorem Started.writeOne (h : Started t dir name) (hroom : RoomForOutput t dir) (text : String) :
    ∃ t', Project.writeOne t ((dir.child "build").child "main.re") text = (t', .ok ()) := by
  have hbuild : locationOf (dir.child "build") = locationOf dir ++ ["build"] :=
    locationOf_child dir (by decide)
  have hfile := hroom.file
  rw [locationOf_child (dir.child "build") (by decide), hbuild] at hfile
  have hloc : t.locate [] (dir.child "build") = .ok (locationOf dir ++ ["build"]) :=
    FileTree.locate_child h.leads h.directory rfl (by
      rw [Path.child_text h.named]
      exact h.checkText_of_le (by decide) (by decide))
  obtain ⟨made, hmade, hdirectory, hothers⟩ :=
    FileTree.exists_ensureDirectory hloc (hbuild ▸ hroom.directory)
  have hleads : made.follow [] (dir.child "build").names = .ok (locationOf dir ++ ["build"]) :=
    FileTree.follow_of_grows (FileTree.ensureDirectory_grows hmade)
      (FileTree.follow_concat h.leads h.directory "build")
  have htext : FileTree.checkText ((dir.child "build").child "main.re").text = .ok () := by
    have hsize := hroom.text
    rw [Path.child_text (by simp [Path.child]), Path.child_text h.named,
      String.append_assoc] at hsize ⊢
    rw [String.utf8ByteSize_append] at hsize
    exact (h.checkText_iff _).2 ⟨by decide, hsize⟩
  have hlast : made.locate [] ((dir.child "build").child "main.re") =
      .ok (locationOf dir ++ ["build"] ++ ["main.re"]) :=
    FileTree.locate_child hleads hdirectory rfl htext
  have hparent : ((dir.child "build").child "main.re").parent = dir.child "build" := by
    simp [Path.parent, Path.child]
  rw [← hothers _ (by simp)] at hfile
  rw [Project.writeOne, hparent, FileTree.makeDirectories_of_ensure hmade]
  simp only [FileTree.write, hlast, ok_bind]
  exact ⟨_, rfl⟩

/-- **A build of a new project** succeeds without a report exactly if there is room. -/
theorem Started.build_iff (h : Started t dir name) {s : Settings} (hs : s.output = {}) :
    (∃ t' outputs, (Project.mk dir.names s).build t = (t', .ok (.built outputs []))) ↔
      RoomForOutput t dir := by
  obtain ⟨text, hbuild⟩ := h.build_eq hs
  constructor
  · rintro ⟨t', outputs, hbuilt⟩
    exact .of_writeOne (hbuild.1 hbuilt).2
  · intro hroom
    obtain ⟨t', hwritten⟩ := h.writeOne hroom text
    exact ⟨t', _, hbuild.2 ⟨rfl, hwritten⟩⟩

/-- Nothing was in the directory of a new project, if its path does not go up: whatever has an entry
in it would have been found. -/
theorem get?_of_scaffold {here : Location} (ht : t.Rooted) (h : scaffold t here name = (t', .ok dir))
    (hup : ".." ∉ dir.names) {names : Location} (hne : names ≠ []) :
    t.get? (dir.names ++ names) = none := by
  have hstarted := scaffold_started ht h
  obtain ⟨-, ⟨e, hlookup⟩, -⟩ := scaffold_eq_ok h
  by_contra hget
  have hdirectory := ht.above hne hget
  have hfollow : t.follow [] dir.names = .ok dir.names :=
    ht.follow (fun part hpart => FileTree.step_of_follow hstarted.leads hpart fun hdots =>
      hup (hdots ▸ hpart)) (by simp [hdirectory])
  have htext : FileTree.checkText dir.text = .ok () := by
    simpa using hstarted.checkText_of_le (b := "") (by decide) (by decide)
  simp only [FileTree.lookup, FileTree.locate, htext, ok_bind, ite_self, hfollow, hdirectory,
    reduceCtorEq] at hlookup

/-- Starting a project puts nothing where its output goes. -/
theorem get?_output_of_scaffold {here : Location} (ht : t.Rooted)
    (h : scaffold t here name = (t', .ok dir)) (hup : ".." ∉ dir.names) (names : Location) :
    t'.get? (dir.names ++ "build" :: names) = none := by
  have hbefore := get?_of_scaffold ht h hup (List.cons_ne_nil "build" names)
  obtain ⟨above, -, -, hothers, rfl, -⟩ := scaffold_files ht h
  have hdir : locationOf dir = dir.names := Location.advance_of_notMem hup []
  have hne : ∀ names' : Location, names'.head? ≠ some "build" →
      dir.names ++ "build" :: names ≠ dir.names ++ names' := by
    intro names' hhead heq
    rw [← List.append_cancel_left heq] at hhead
    exact hhead rfl
  -- the directories above have shorter locations
  have habove : ∀ front, front <+: dir.names →
      dir.names ++ "build" :: names ≠ Location.advance [] front := by
    rintro front ⟨more, hmore⟩ heq
    rw [Location.advance_of_notMem fun hmem => hup (hmore ▸ List.mem_append_left _ hmem)] at heq
    have hlength := congrArg List.length heq
    rw [← hmore] at hlength
    simp at hlength
  rw [withTexts_newFiles, hdir, FileTree.get?_set_other _ (hne _ (by decide)),
    FileTree.get?_set_other _ (hne _ (by decide)), FileTree.get?_set_other _ (hne _ (by decide)),
    FileTree.get?_set_other _ (hne _ (by decide)), FileTree.get?_set_other _ (hne _ (by decide)),
    hothers habove, hbefore]

theorem room_iff {here : Location} (ht : t.Rooted) (h : scaffold t here name = (t', .ok dir))
    (hup : ".." ∉ dir.names) : RoomForOutput t' dir ↔
      ((dir.child "build").child "main.re").text.utf8ByteSize < FileTree.pathBytesLimit := by
  have hdir : locationOf dir = dir.names := Location.advance_of_notMem hup []
  have hnone := get?_output_of_scaffold ht h hup
  refine ⟨RoomForOutput.text, fun hsize => ⟨hsize, fun content => ?_, ?_⟩⟩
  · rw [locationOf_child dir (by decide), hdir, hnone]
    simp
  · rw [locationOf_child _ (by decide), locationOf_child dir (by decide), hdir, List.append_assoc]
    change t'.get? (dir.names ++ "build" :: ["main.re"]) ≠ _
    rw [hnone]
    simp

end

end Project

/-- **A new project loads and builds** exactly if every character of its name stands for itself
between quotes and there is room for the output. Where the path of the project does not go up, there
is room unless the path of the output is too long. -/
theorem new_project_builds_iff {t t' : FileTree} {here : Location} {name : String} {dir : Path}
    (ht : t.Rooted) (h : Project.scaffold t here name = (t', .ok dir)) :
    ((∃ s, Settings.load t' dir.names = .ok s ∧ s.package.name = .text name ∧ s.output = {} ∧
        s.style = {} ∧ ∃ t'' outputs,
          (Project.mk dir.names s).build t' = (t'', .ok (.built outputs []))) ↔
      (∀ c ∈ name.toList, Toml.IsPlainChar c) ∧ Project.RoomForOutput t' dir) ∧
    (".." ∉ dir.names → (Project.RoomForOutput t' dir ↔
      ((dir.child "build").child "main.re").text.utf8ByteSize < FileTree.pathBytesLimit)) := by
  have hstarted := Project.scaffold_started ht h
  refine ⟨⟨?_, ?_⟩, Project.room_iff ht h⟩
  · rintro ⟨s, hload, hname, houtput, -, hbuilt⟩
    rw [hstarted.load_eq, mapError_eq_ok] at hload
    exact ⟨(Project.newSettings_name_iff name).1 ⟨s, hload, hname⟩,
      (hstarted.build_iff houtput).1 hbuilt⟩
  · rintro ⟨hplain, hroom⟩
    refine ⟨Project.settingsNamed name, ?_, rfl, rfl, rfl, (hstarted.build_iff rfl).2 hroom⟩
    rw [hstarted.load_eq, Project.ofText_newSettings hplain, mapError_ok]

/-- A project with a blank and a quote in its name, in a new directory beside a file that is in
nobody's way. -/
theorem new_project_builds_beside :
    let t : FileTree := ⟨[(["w"], .directory), (["w", "build"], .file (.text ""))]⟩
    let dir : Path := ⟨true, ["w", "lib", "it\x27s new"]⟩
    t.Rooted ∧ ∃ t' s, Project.scaffold t ["w"] "lib/it\x27s new" = (t', .ok dir) ∧
      Settings.load t' dir.names = .ok s ∧ s.package.name = .text "lib/it\x27s new" ∧
      s.output = {} ∧ s.style = {} ∧ ∃ t'' outputs,
        (Project.mk dir.names s).build t' = (t'', .ok (.built outputs [])) := by
  intro t dir
  have ht : t.Rooted := by decide
  have hdir : (Project.scaffold t ["w"] "lib/it\x27s new").2 = .ok dir := by
    decide +kernel
  have hscaffold := (Prod.eta _).symm.trans (congrArg _ hdir)
  obtain ⟨hbuilds, hroom⟩ := new_project_builds_iff ht hscaffold
  have hplain : ("lib/it\x27s new".toList.all fun c => decide (Toml.IsPlainChar c)) = true := by
    decide
  obtain ⟨s, hs⟩ := hbuilds.2 ⟨fun c hc => of_decide_eq_true (List.all_eq_true.1 hplain c hc),
    (hroom (by decide)).2 (by decide +kernel)⟩
  exact ⟨ht, _, s, hscaffold, hs⟩

/-- **A double quote in the name ends it**, and the settings of the project cannot be read. -/
theorem new_project_unreadable :
    let dir : Path := ⟨true, ["a\"b"]⟩
    ∃ t', Project.scaffold {} [] "a\"b" = (t', .ok dir) ∧
      ∀ s, Settings.load t' dir.names ≠ .ok s := by
  intro dir
  have hdir : (Project.scaffold {} [] "a\"b").2 = .ok dir := by decide +kernel
  have hnone : (Settings.ofText (Project.newSettings "a\"b")).toOption.isNone = true := by
    decide +kernel
  have hscaffold := (Prod.eta _).symm.trans (congrArg _ hdir)
  refine ⟨_, hscaffold, fun s hs => ?_⟩
  rw [(Project.scaffold_started (by decide) hscaffold).load_eq, mapError_eq_ok] at hs
  rw [hs] at hnone
  cases hnone

end TypeDesc
