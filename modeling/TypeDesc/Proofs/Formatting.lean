/-
Formatting is a projection on file trees. One file after the other is tidied
(`formatFiles_step`), so a run on a path leaves the tree with the files that it
matches tidied (`formatFiles_run`); tidying again changes nothing, and a tree
that is tidy gives nothing to tell (`formatFiles_check_run`). What is generated
from the files stays the same, since the trees are alike (`alike_formatted`).
-/
import TypeDesc.Proofs.GeneratedText
import TypeDesc.Proofs.GovernedFiles

namespace TypeDesc

namespace FileTree

variable {t : FileTree} {here : Location} {p : Path} {source : String}

/-- What can be read is a text at the location that the path leads to. -/
theorem read_eq_ok (h : t.read here p = .ok source) : ∃ loc stored, t.locate here p = .ok loc ∧
    t.get? loc = some (.file (.text stored)) ∧ source = Text.unified stored := by
  rw [read_eq, readStored_eq] at h
  cases hloc : t.locate here p with
  | error e =>
    rw [hloc] at h
    cases h
  | ok loc =>
    rw [hloc, ok_bind] at h
    rcases hget : t.get? loc with _ | ⟨stored | _⟩ | _ <;> rw [hget] at h <;> cases h
    exact ⟨loc, stored, rfl, hget, rfl⟩

/-- A file that can be read can still be read after tidying. -/
theorem read_tidyAll (width : Text.Width) (locs : List Location) (h : t.read here p = .ok source) :
    ∃ source', (t.tidyAll width locs).read here p = .ok source' := by
  rw [read_eq] at h ⊢
  cases hstored : t.readStored here p with
  | error e =>
    rw [hstored] at h
    cases h
  | ok stored =>
    rcases t.readStored_tidyAll width locs here p with heq | heq <;> rw [heq, hstored]
    · exact ⟨_, rfl⟩
    · exact ⟨_, rfl⟩

end FileTree

namespace Work

variable {around : Surroundings} {s : Settings} {width : Int}
  (hw : s.output.lineWidth = .integer width) {path : Path} {desk : Desk} {source : String}
  (hread : desk.files.read around.here path = .ok source) (paths : List Path)
include hw hread

/-- **Formatting one file** tidies it, and goes on with the others. -/
theorem formatFiles_step : ∃ loc out err, desk.files.locate around.here path = .ok loc ∧
    (formatFiles around s false (path :: paths)).run desk =
      (formatFiles around s false paths).run
        ⟨desk.files.tidyAt (.columns width) loc, out, err⟩ := by
  obtain ⟨loc, stored, hloc, hget, rfl⟩ := FileTree.read_eq_ok hread
  have htidy := FileTree.tidyAt_text hget (.columns width)
  refine ⟨loc, ?_⟩
  rw [formatFiles, run_bind_ok (run_readFile_ok hread)]
  rcases OutputSettings.canonical_cases hw path.text (Text.unified stored) with
    ⟨d, w, text, hsource, hprint, hcanonical⟩ | ⟨reports, hsource, hcanonical⟩
  · rw [tidied_of_read hsource hprint] at htidy
    by_cases hsame : text = Text.unified stored
    · -- the canonical text is there already, perhaps with other line ends: nothing is written
      rw [if_pos hsame, FileTree.set_self hget] at htidy
      refine ⟨desk.out, desk.err, hloc, ?_⟩
      rw [hcanonical, htidy]
      simp only [hsame, if_true]
    · rw [if_neg hsame] at htidy
      have hwrite : desk.files.write around.here path text =
          .ok (desk.files.tidyAt (.columns width) loc) := by
        rw [FileTree.write, hloc, htidy]
        simp only [ok_bind, hget]
      refine ⟨desk.out ++ shown around ("formatted " ++ path.text ++ "\n"), desk.err, hloc, ?_⟩
      have hchange : (change fun t => t.write around.here path text).run desk =
          (.ok (), { desk with files := desk.files.tidyAt (.columns width) loc }) :=
        run_change_ok hwrite
      rw [hcanonical]
      simp only [hsame, if_false, Bool.false_eq_true]
      rw [run_bind_ok hchange]
      rfl
  · rw [tidied_of_rejected hsource, FileTree.set_self hget] at htidy
    obtain ⟨err, htell⟩ := run_tellOnDisk around s.style.color.isYes reports desk
    refine ⟨desk.out, err, hloc, ?_⟩
    rw [hcanonical, htidy]
    exact run_bind_ok htell

/-- A file that is tidy already is not told, and the others are looked at. -/
theorem formatFiles_check_step {loc : Location} (hloc : desk.files.locate around.here path = .ok loc)
    (hfixed : desk.files.tidyAt (.columns width) loc = desk.files) :
    ∃ err, (formatFiles around s true (path :: paths)).run desk =
      (formatFiles around s true paths).run { desk with err } := by
  obtain ⟨loc', stored, hloc', hget, rfl⟩ := FileTree.read_eq_ok hread
  obtain rfl : loc' = loc := Except.ok.inj (hloc'.symm.trans hloc)
  have htidy : tidied (.columns width) stored = stored := by
    have hsame := desk.files.get?_tidyAt (.columns width) loc' loc'
    rw [hfixed, if_pos rfl, hget] at hsame
    simpa [Entry.tidied] using hsame.symm
  rw [formatFiles, run_bind_ok (run_readFile_ok hread)]
  rcases OutputSettings.canonical_cases hw path.text (Text.unified stored) with
    ⟨d, w, text, hsource, hprint, hcanonical⟩ | ⟨reports, hsource, hcanonical⟩
  · have hsame : text = Text.unified stored := by
      rw [← unified_tidied hsource hprint, htidy]
    refine ⟨desk.err, ?_⟩
    rw [hcanonical]
    simp only [hsame, if_true]
  · obtain ⟨err, htell⟩ := run_tellOnDisk around s.style.color.isYes reports desk
    refine ⟨err, ?_⟩
    rw [hcanonical]
    exact run_bind_ok htell

omit hread

/-- **Formatting files** tidies them. -/
theorem formatFiles_run {paths : List Path} {desk : Desk}
    (hread : ∀ path ∈ paths, ∃ source, desk.files.read around.here path = .ok source) :
    ∃ out err, (formatFiles around s false paths).run desk =
      (.ok false, ⟨desk.files.tidyAll (.columns width) (desk.files.targets around.here paths),
        out, err⟩) := by
  induction paths generalizing desk with
  | nil => exact ⟨desk.out, desk.err, rfl⟩
  | cons path paths ih =>
    rw [List.forall_mem_cons] at hread
    obtain ⟨source, hsource⟩ := hread.1
    obtain ⟨loc, out, err, hloc, hstep⟩ := formatFiles_step hw hsource paths
    -- the other files are where they were, and can still be read
    have hrest : ∀ path ∈ paths, ∃ source,
        (desk.files.tidyAt (.columns width) loc).read around.here path = .ok source := by
      intro path hm
      obtain ⟨source, hsource⟩ := hread.2 path hm
      exact FileTree.read_tidyAll (.columns width) [loc] hsource
    obtain ⟨out', err', hrun⟩ :=
      @ih ⟨desk.files.tidyAt (.columns width) loc, out, err⟩ hrest
    refine ⟨out', err', ?_⟩
    rw [hstep, hrun, FileTree.targets_congr (desk.files.outline_tidyAt (.columns width) loc),
      FileTree.targets_cons hloc]
    rfl

/-- Of files that are tidy already, none is told. -/
theorem formatFiles_check_run {paths : List Path} {desk : Desk}
    (hread : ∀ path ∈ paths, ∃ source, desk.files.read around.here path = .ok source)
    (hfixed : ∀ loc ∈ desk.files.targets around.here paths,
      desk.files.tidyAt (.columns width) loc = desk.files) :
    ∃ err, (formatFiles around s true paths).run desk = (.ok false, { desk with err }) := by
  induction paths generalizing desk with
  | nil => exact ⟨desk.err, rfl⟩
  | cons path paths ih =>
    rw [List.forall_mem_cons] at hread
    obtain ⟨source, hsource⟩ := hread.1
    obtain ⟨loc, stored, hloc, -⟩ := FileTree.read_eq_ok hsource
    rw [FileTree.targets_cons hloc, List.forall_mem_cons] at hfixed
    obtain ⟨err, hstep⟩ := formatFiles_check_step hw hsource paths hloc hfixed.1
    obtain ⟨err', hrun⟩ := @ih { desk with err } hread.2 hfixed.2
    exact ⟨err', hstep.trans hrun⟩

omit hw

/-- Formatting a path is formatting the files that it matches. -/
theorem run_format_eq {t : FileTree} (hgov : Settings.governing t around.here path = .ok s)
    (checkOnly : Bool) : (format around path checkOnly false).run { files := t } =
      (if (t.matched around.here path).isEmpty then complain around "no .tyd files found"
        else formatFiles around s checkOnly (t.matched around.here path) >>= fun any =>
          if any then throw (.exit 1) else pure ()).run { files := t } := by
  have hsettings : (settingsFor around path).run { files := t } = (.ok s, { files := t }) :=
    run_settingsFor_ok hgov
  rw [format, run_bind_ok hsettings]
  simp only [Bool.false_eq_true, if_false]
  rw [run_get_bind]
  rfl

/-- Formatting a path ends well when formatting the files that it matches does. -/
theorem run_format {t : FileTree} (hgov : Settings.governing t around.here path = .ok s)
    {checkOnly : Bool} {files : FileTree} {out err : String}
    (hrun : (formatFiles around s checkOnly (t.matched around.here path)).run { files := t } =
      (.ok false, ⟨files, out, err⟩)) :
    ∃ err, (format around path checkOnly false).run { files := t } =
      (.ok (), ⟨files, out, err⟩) := by
  rw [run_format_eq hgov]
  cases hfound : t.matched around.here path with
  | nil =>
    rw [hfound] at hrun
    cases hrun
    exact run_complain around _ _
  | cons p paths =>
    rw [hfound] at hrun
    refine ⟨err, ?_⟩
    simp only [List.isEmpty_cons, Bool.false_eq_true, if_false]
    rw [run_bind_ok hrun]
    rfl

end Work

/-! ## Command lines -/

section

variable {around : Surroundings} {t t' : FileTree} {items : List String} {command : Command}

theorem runLine_eq (hline : Command.ofLine (t.lookupText around.here) items = .ok command)
    {files : FileTree} {out err : String}
    (hrun : (Work.perform around command).run { files := t } = (.ok (), ⟨files, out, err⟩)) :
    runLine around items t = { code := 0, out, err, files } := by
  simp only [runLine, hline, hrun]

theorem runLine_files (hline : Command.ofLine (t.lookupText around.here) items = .ok command) :
    (runLine around items t).files =
      ((Work.perform around command).run { files := t }).2.files := by
  simp only [runLine, hline]
  rcases (Work.perform around command).run { files := t } with ⟨(_ | _) | _, desk⟩ <;> rfl

/-- Command lines whose runs have the same product. -/
theorem runLine_sameProduct (hline : Command.ofLine (t.lookupText around.here) items = .ok command)
    (hline' : Command.ofLine (t'.lookupText around.here) items = .ok command)
    {output : Option String}
    (h : Work.SameProduct around.here output ((Work.perform around command).run { files := t })
      ((Work.perform around command).run { files := t' })) :
    (runLine around items t').code = (runLine around items t).code ∧
      (runLine around items t').failure = (runLine around items t).failure ∧
      (runLine around items t').out = (runLine around items t).out ∧
      ((runLine around items t).code = 0 → ∀ file ∈ output, file ≠ "" →
        (runLine around items t').files.read around.here (.ofText file) =
          (runLine around items t).files.read around.here (.ofText file)) := by
  simp only [runLine, hline, hline']
  generalize (Work.perform around command).run { files := t } = run at h ⊢
  generalize (Work.perform around command).run { files := t' } = run' at h ⊢
  obtain ⟨r, desk⟩ := run
  obtain ⟨r', desk'⟩ := run'
  obtain ⟨hending, hearly, hout, hfile⟩ := h
  obtain rfl : r' = r := hending
  rcases r' with (code | failure) | _
  · refine ⟨rfl, rfl, hout, ?_⟩
    rintro rfl
    exact absurd rfl hearly
  · exact ⟨rfl, rfl, hout, nofun⟩
  · exact ⟨rfl, rfl, hout, fun _ => hfile rfl⟩

end

/-! ## Formatted trees -/

namespace FileTree

/-- The tree with the files that a path matches tidied. -/
def formatted (width : Text.Width) (here : Location) (path : Path) (t : FileTree) : FileTree :=
  t.tidyAll width (t.targets here (t.matched here path))

variable (width : Text.Width) (here : Location) (path : Path) (t : FileTree)

@[simp] theorem outline_formatted : (t.formatted width here path).outline = t.outline :=
  t.outline_tidyAll width _

/-- After formatting, a path matches the same files in the same places. -/
theorem targets_formatted :
    (t.formatted width here path).targets here ((t.formatted width here path).matched here path) =
      t.targets here (t.matched here path) := by
  have h := t.outline_formatted width here path
  rw [matched_congr h, targets_congr h]

/-- **Formatting is idempotent.** -/
theorem formatted_formatted :
    (t.formatted width here path).formatted width here path = t.formatted width here path := by
  rw [formatted, targets_formatted]
  exact t.tidyAll_tidyAll width _

variable {width here path t}

/-- What can be read before formatting can be read after it. -/
theorem readable_formatted
    (h : ∀ p ∈ t.matched here path, ∃ source, t.read here p = .ok source) (width : Text.Width) :
    ∀ p ∈ (t.formatted width here path).matched here path,
      ∃ source, (t.formatted width here path).read here p = .ok source := by
  intro p hp
  rw [matched_congr (t.outline_formatted width here path)] at hp
  obtain ⟨source, hsource⟩ := h p hp
  exact read_tidyAll width _ hsource

/-- A matched file that is a description holds its canonical text after formatting. -/
theorem read_formatted {p : Path} {source : String} {d : Description} {w : List Report}
    (hp : p ∈ t.matched here path) (hread : t.read here p = .ok source)
    (hd : Description.ofSource p.text source = .ok (d, w)) (width : Text.Width) :
    ∃ text, d.print width = .ok text ∧ (t.formatted width here path).read here p = .ok text := by
  obtain ⟨text, hprint, -⟩ := (ofSource_sound hd).1.print_writes width
  obtain ⟨loc, stored, hloc, hget, rfl⟩ := read_eq_ok hread
  have hstored : t.readStored here p = .ok stored := by
    rw [readStored_eq, hloc, ok_bind, hget]
    rfl
  have hm : loc ∈ t.targets here (t.matched here path) := mem_targets.2 ⟨p, hp, hloc⟩
  refine ⟨text, hprint, ?_⟩
  rw [formatted, read_eq, t.readStored_tidyAll_of_mem width hloc hm, hstored]
  exact congrArg Except.ok (unified_tidied hd hprint)

/-- What formatting changes is a matched file that is a description. -/
theorem matched_of_changed
    (hread : ∀ p ∈ t.matched here path, ∃ source, t.read here p = .ok source) {loc : Location}
    (hne : (t.formatted width here path).get? loc ≠ t.get? loc) :
    ∃ p ∈ t.matched here path, t.locate here p = .ok loc ∧ ∃ source d w,
      t.read here p = .ok source ∧ Description.ofSource p.text source = .ok (d, w) := by
  rw [formatted, get?_tidyAll] at hne
  split at hne
  next hm =>
    obtain ⟨p, hp, hloc⟩ := mem_targets.1 hm
    obtain ⟨source, hsource⟩ := hread p hp
    refine ⟨p, hp, hloc, source, ?_⟩
    obtain ⟨loc', stored, hloc', hget, rfl⟩ := read_eq_ok hsource
    obtain rfl : loc' = loc := Except.ok.inj (hloc'.symm.trans hloc)
    rcases ofSource_outcome p.text (Text.unified stored) with ⟨d, w, hd, -⟩ | ⟨reports, hd, -⟩
    · exact ⟨d, w, hsource, hd⟩
    · rw [hget] at hne
      refine absurd ?_ hne
      simp only [Option.map_some, Entry.tidied, tidied_of_rejected hd]
  next => exact absurd rfl hne

end FileTree

/-- A tree is alike before and after formatting. -/
theorem alike_formatted {t : FileTree} {here : Location} {path : Path} {s : Settings}
    (hgov : Settings.governing t here path = .ok s) (width : Text.Width) :
    Alike here t (t.formatted width here path) := by
  refine ⟨t.outline_formatted width here path, governing_tidyAll hgov width here, fun p => ?_⟩
  rw [FileTree.formatted, FileTree.read_eq, FileTree.read_eq]
  rcases t.readStored_tidyAll width (t.targets here (t.matched here path)) here p with heq | heq <;>
    rw [heq]
  · cases t.readStored here p with
    | error e => exact .inl ⟨e, rfl, rfl⟩
    | ok stored => exact .inr ⟨_, _, rfl, rfl, fun _ _ => rfl⟩
  · cases t.readStored here p with
    | error e => exact .inl ⟨e, rfl, rfl⟩
    | ok stored =>
      exact .inr ⟨Text.unified stored, Text.unified (tidied width stored), rfl, rfl,
        compile_tidied width stored⟩

/-! ## Formatting -/

section

variable {around : Surroundings} {t : FileTree} {path : String} {s : Settings} {width : Int}
  (hgov : Settings.governing t around.here (.ofText path) = .ok s)
  (hwidth : s.output.lineWidth = .integer width)
  (hread : ∀ p ∈ t.matched around.here (.ofText path), ∃ source, t.read around.here p = .ok source)
include hgov hwidth hread

/-- **A command line that asks to format a path** leaves the tree formatted. -/
theorem runLine_format {items : List String}
    (hline : Command.ofLine (t.lookupText around.here) items = .ok (.format path false false)) :
    ∃ out err, runLine around items t =
      { code := 0, out, err, files := t.formatted (.columns width) around.here (.ofText path) } := by
  have hfiles : ∃ out err, (Work.formatFiles around s false (t.matched around.here (.ofText path))).run
      { files := t } =
        (.ok false, ⟨t.formatted (.columns width) around.here (.ofText path), out, err⟩) :=
    Work.formatFiles_run hwidth hread
  obtain ⟨out, err, hfiles⟩ := hfiles
  obtain ⟨err', hrun⟩ := Work.run_format hgov hfiles
  exact ⟨out, err', runLine_eq hline hrun⟩

/-- A command line that asks which files are not formatted is told of none, if the tree is. -/
theorem runLine_check {items : List String}
    (hline : Command.ofLine (t.lookupText around.here) items = .ok (.format path true false))
    (hfixed : ∀ loc ∈ t.targets around.here (t.matched around.here (.ofText path)),
      t.tidyAt (.columns width) loc = t) :
    (runLine around items t).out = "" ∧ (runLine around items t).code = 0 := by
  have hfiles : ∃ err, (Work.formatFiles around s true (t.matched around.here (.ofText path))).run
      { files := t } = (.ok false, ⟨t, "", err⟩) :=
    Work.formatFiles_check_run hwidth hread hfixed
  obtain ⟨err, hfiles⟩ := hfiles
  obtain ⟨err', hrun⟩ := Work.run_format hgov hfiles
  rw [runLine_eq hline hrun]
  exact ⟨rfl, rfl⟩

end

/-- **Formatting is a projection.** Let all files that a path matches be texts that can be read, and
the width of lines that governs the path be a whole number. Then formatting the path succeeds. Each
matched file that is read as a description holds its canonical text afterwards, line ends aside, and no
other entry of the tree changes. Whatever is generated ends in the same way, with the same output
and the same text in the file that is asked for. Formatting again changes nothing, and asking
afterwards which files are not formatted tells of none, and succeeds. To ask never changes a file,
in whatever tree. -/
theorem formatting_is_projection (around : Surroundings) (t : FileTree) (items : List String)
    (path : String) (s : Settings) (width : Int)
    (hline : Command.ofLine (t.lookupText around.here) items = .ok (.format path false false))
    (hgov : Settings.governing t around.here (.ofText path) = .ok s)
    (hwidth : s.output.lineWidth = .integer width)
    (hread : ∀ p ∈ t.matched around.here (.ofText path),
      ∃ source, t.read around.here p = .ok source) :
    let run := runLine around items t
    run.code = 0 ∧ run.failure = none ∧
      (∀ p ∈ t.matched around.here (.ofText path), ∀ source d w,
        t.read around.here p = .ok source → Description.ofSource p.text source = .ok (d, w) →
        ∃ text, d.print (.columns width) = .ok text ∧ run.files.read around.here p = .ok text) ∧
      (∀ loc, run.files.get? loc ≠ t.get? loc →
        ∃ p ∈ t.matched around.here (.ofText path), t.locate around.here p = .ok loc ∧
          ∃ source d w, t.read around.here p = .ok source ∧
            Description.ofSource p.text source = .ok (d, w)) ∧
      (∀ genItems file options,
        Command.ofLine (t.lookupText around.here) genItems = .ok (.gen file options) →
        (runLine around genItems run.files).code = (runLine around genItems t).code ∧
          (runLine around genItems run.files).failure = (runLine around genItems t).failure ∧
          (runLine around genItems run.files).out = (runLine around genItems t).out ∧
          ((runLine around genItems t).code = 0 → ∀ output ∈ options.output, output ≠ "" →
            (runLine around genItems run.files).files.read around.here (.ofText output) =
              (runLine around genItems t).files.read around.here (.ofText output))) ∧
      (runLine around items run.files).files = run.files ∧
      (∀ checkItems,
        Command.ofLine (run.files.lookupText around.here) checkItems =
          .ok (.format path true false) →
        (runLine around checkItems run.files).out = "" ∧
          (runLine around checkItems run.files).code = 0) ∧
      ∀ around' t' checkItems path' fromInput,
        Command.ofLine (t'.lookupText around'.here) checkItems =
          .ok (.format path' true fromInput) →
        (runLine around' checkItems t').files = t' := by
  obtain ⟨out, err, hrun⟩ := runLine_format hgov hwidth hread hline
  have halike := alike_formatted hgov (.columns width)
  have hgov' := (halike.governing (.ofText path)).trans hgov
  have hread' := FileTree.readable_formatted hread (.columns width)
  intro run
  have hfiles : run.files = t.formatted (.columns width) around.here (.ofText path) := by
    rw [show run = _ from hrun]
  rw [hfiles]
  refine ⟨by rw [show run = _ from hrun], by rw [show run = _ from hrun], ?_, ?_, ?_, ?_, ?_, ?_⟩
  · intro p hp source d w hsource hd
    exact FileTree.read_formatted hp hsource hd (.columns width)
  · intro loc hne
    exact FileTree.matched_of_changed hread hne
  · intro genItems file options hgen
    have hgen' := (FileTree.ofLine_congr halike.outline around.here genItems).trans hgen
    exact runLine_sameProduct hgen hgen' (Work.gen_alike file options halike)
  · have hline' := (FileTree.ofLine_congr halike.outline around.here items).trans hline
    obtain ⟨out', err', hrun'⟩ := runLine_format hgov' hwidth hread' hline'
    rw [hrun']
    exact t.formatted_formatted (.columns width) around.here (.ofText path)
  · intro checkItems hcheck
    refine runLine_check hgov' hwidth hread' hcheck ?_
    rw [FileTree.targets_formatted]
    exact fun loc hm => t.tidyAt_tidyAll (.columns width) hm
  · intro around' t' checkItems path' fromInput hcheck
    rw [runLine_files hcheck]
    exact Work.format_keepsFiles around' (.ofText path') fromInput { files := t' }

/-- A project with narrow lines, a file to format, one that is no description, and one that is
formatted already. -/
theorem formatting_is_projection_mixed :
    let t : FileTree := ⟨[(["p"], .directory),
      (["p", "typegen.toml"], .file (.text "[output]\nline_width = 12\n")),
      (["p", "a.tyd"], .file (.text "rec t \x7b A: unit, B: t \x7d\r\n")),
      (["p", "b.tyd"], .file (.text "%\r")), (["p", "c.tyd"], .file (.text "unit\n"))]⟩
    let run := runLine {} ["format", "p"] t
    run.code = 0 ∧ (runLine {} ["format", "p"] run.files).files = run.files ∧
      (runLine {} ["format", "--check", "p"] run.files).out = "" ∧
      (runLine {} ["format", "--check", "p"] run.files).code = 0 ∧
      (runLine {} ["gen", "p/a.tyd"] run.files).out = (runLine {} ["gen", "p/a.tyd"] t).out := by
  intro t run
  have hline : Command.ofLine (t.lookupText []) ["format", "p"] = .ok (.format "p" false false) := by
    decide +kernel
  have hgen : Command.ofLine (t.lookupText []) ["gen", "p/a.tyd"] = .ok (.gen "p/a.tyd" {}) := by
    decide +kernel
  have hcheck : Command.ofLine (run.files.lookupText []) ["format", "--check", "p"] =
      .ok (.format "p" true false) := by
    decide +kernel
  obtain ⟨s, hgov, hwidth⟩ : ∃ s, Settings.governing t [] (.ofText "p") = .ok s ∧
      s.output.lineWidth = .integer 12 := by
    obtain ⟨s, hgov, hnarrow⟩ := exists_ok_of_any (Settings.governing t [] (.ofText "p")) (fun s =>
      match s.output.lineWidth with
      | .integer width => width == 12
      | _ => false) (by decide +kernel)
    refine ⟨s, hgov, ?_⟩
    split at hnarrow
    next width hwidth => rw [hwidth, beq_iff_eq.1 hnarrow]
    next => cases hnarrow
  have hmatched : t.matched [] (.ofText "p") =
      [⟨false, ["p", "a.tyd"]⟩, ⟨false, ["p", "b.tyd"]⟩, ⟨false, ["p", "c.tyd"]⟩] := by
    decide +kernel
  have hread : ∀ p ∈ t.matched [] (.ofText "p"), ∃ source, t.read [] p = .ok source := by
    rw [hmatched]
    simp only [List.forall_mem_cons]
    exact ⟨⟨"rec t \x7b A: unit, B: t \x7d\n", by decide +kernel⟩, ⟨"%\n", by decide +kernel⟩,
      ⟨"unit\n", by decide +kernel⟩, by simp⟩
  obtain ⟨hcode, -, -, -, hgenerated, hagain, hchecked, -⟩ :=
    formatting_is_projection {} t ["format", "p"] "p" s 12 hline hgov hwidth hread
  obtain ⟨hout, hexit⟩ := hchecked ["format", "--check", "p"] hcheck
  exact ⟨hcode, hagain, hout, hexit, (hgenerated _ _ _ hgen).2.2.1⟩

end TypeDesc
