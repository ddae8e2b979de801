/-
The text that is generated from a file depends on the settings that govern the
file, and on what the file compiles to, places aside. So trees of one outline
that agree in these (`Alike`) are not told apart by generation: it ends in the
same way, writes the same output, and the same text to a file that is asked for
(`gen_alike`).
-/
import TypeDesc.Proofs.TreeWriting
import TypeDesc.Proofs.WorkRuns

namespace TypeDesc

namespace FileTree

variable {t t' : FileTree} {here loc : Location} {p : Path}

/-! ## Writing -/

theorem follow_set {l : Location} {names : List String} (hl : t.get? l ≠ some .directory)
    (h : t.follow here names = .ok loc) (e : Entry) : (t.set l e).follow here names = .ok loc := by
  induction names generalizing here with
  | nil => exact h
  | cons name names ih =>
    cases names with
    | nil => exact h
    | cons name' names =>
      simp only [follow, bind_eq_ok] at h ⊢
      obtain ⟨next, hstep, h⟩ := h
      refine ⟨next, hstep, ?_⟩
      -- the way leads through directories, and at `l` there is none
      by_cases hnext : next = l
      · subst hnext
        rcases hget : t.get? next with _ | _ | _ <;> simp_all
      · rw [get?_set_other t hnext]
        rcases hget : t.get? next with _ | _ | _ <;> rw [hget] at h
        · cases h
        · cases h
        · exact ih h

/-- A text that has been written is what is read. -/
theorem read_of_write {value : String} {written : FileTree}
    (h : t.write here p value = .ok written) : written.read here p = .ok (Text.unified value) := by
  obtain ⟨loc, hloc, hfile, rfl⟩ := write_eq_ok h
  have hne : loc ≠ [] := by
    rintro rfl
    exact hfile rfl
  have hloc' : (t.set loc (.file (.text value))).locate here p = .ok loc := by
    simp only [locate, bind_eq_ok] at hloc ⊢
    obtain ⟨checked, hcheck, hfollow⟩ := hloc
    exact ⟨checked, hcheck, follow_set hfile hfollow _⟩
  rw [read_eq, readStored_eq, hloc', ok_bind, get?_set_self t hne]
  rfl

theorem get?_directory_iff (h : t'.outline = t.outline) (loc : Location) :
    t'.get? loc = some .directory ↔ t.get? loc = some .directory := by
  have hget : (t'.get? loc).map Entry.outline = (t.get? loc).map Entry.outline := by
    rw [← get?_outline, h, get?_outline]
  generalize t'.get? loc = e' at hget ⊢
  generalize t.get? loc = e at hget ⊢
  rcases e with _ | ⟨_ | _⟩ | _ <;> rcases e' with _ | ⟨_ | _⟩ | _ <;> simp_all [Entry.outline]

theorem write_of_file {value : String} (hloc : t.locate here p = .ok loc)
    (hfile : t.get? loc ≠ some .directory) :
    t.write here p value = .ok (t.set loc (.file (.text value))) := by
  rw [write, hloc, ok_bind]
  split
  next hget => exact absurd hget hfile
  next => rfl

/-- In trees of one outline the same can be written. -/
theorem write_outline (h : t'.outline = t.outline) (here : Location) (p : Path) (value : String) :
    (∃ e, t.write here p value = .error e ∧ t'.write here p value = .error e) ∨
    ∃ written written', t.write here p value = .ok written ∧
      t'.write here p value = .ok written' := by
  have hlocate : t'.locate here p = t.locate here p := by rw [locate_congr h]
  cases hloc : t.locate here p with
  | error e =>
    rw [write, write, hlocate, hloc]
    exact .inl ⟨e, rfl, rfl⟩
  | ok loc =>
    by_cases hdir : t.get? loc = some .directory
    · rw [write, write, hlocate, hloc]
      simp only [ok_bind, hdir, (get?_directory_iff h loc).2 hdir]
      exact .inl ⟨.isDirectory, rfl, rfl⟩
    · have hdir' : t'.get? loc ≠ some .directory := mt (get?_directory_iff h loc).1 hdir
      exact .inr ⟨_, _, write_of_file hloc hdir, write_of_file (hlocate.trans hloc) hdir'⟩

end FileTree

/-- Compiling ends alike, places aside. -/
theorem compile_cases_of_unplaced {x x' : Except SourceError (String × List Report)}
    (h : (x'.mapError (·.unplaced)).map withoutPlaces = (x.mapError (·.unplaced)).map withoutPlaces) :
    (∃ text w w', x = .ok (text, w) ∧ x' = .ok (text, w')) ∨
    (∃ rs rs', x = .error (.rejected rs) ∧ x' = .error (.rejected rs')) ∨
    ∃ failure, x = .error (.failed failure) ∧ x' = .error (.failed failure) := by
  rcases x with e | ⟨text, w⟩ <;> rcases x' with e' | ⟨text', w'⟩
  · have herr : e'.unplaced = e.unplaced := Except.error.inj h
    cases e with
    | rejected rs =>
      cases e' with
      | rejected rs' => exact .inr (.inl ⟨rs, rs', rfl, rfl⟩)
      | failed failure => cases herr
    | failed failure =>
      cases e' with
      | rejected rs' => cases herr
      | failed failure' =>
        cases herr
        exact .inr (.inr ⟨failure, rfl, rfl⟩)
  · cases h
  · cases h
  · have htext : text' = text := congrArg Prod.fst (Except.ok.inj h)
    exact .inl ⟨text, w, w', rfl, by rw [htext]⟩

/-- Trees of one outline with the same settings, whose files compile to the same. -/
structure Alike (here : Location) (t t' : FileTree) : Prop where
  outline : t'.outline = t.outline
  governing : ∀ p, Settings.governing t' here p = Settings.governing t here p
  compile : ∀ p, (∃ e, t.read here p = .error e ∧ t'.read here p = .error e) ∨
    ∃ source source', t.read here p = .ok source ∧ t'.read here p = .ok source' ∧
      ∀ (settings : OutputSettings) (file : String),
        ((settings.compile file source').mapError (·.unplaced)).map withoutPlaces =
          ((settings.compile file source).mapError (·.unplaced)).map withoutPlaces

/-! ## Generation -/

namespace Work

variable {around : Surroundings} {t t' : FileTree} {s : Settings} {source : String}
  (file : String) (options : GenOptions)

/-- What becomes of a text that has been generated. -/
def deliver (around : Surroundings) (color : Bool) (output : Option String) (text : String) :
    Work Unit :=
  match output with
  | some output =>
    if output = "" then gen.emit around color text
    else do
      change fun t => t.write around.here (.ofText output) text
      say around ("wrote " ++ output)
  | none => gen.emit around color text

/-- What becomes of what a source compiles to. -/
def conclude (around : Surroundings) (sources : Sources) (color : Bool) (output : Option String) :
    Except SourceError (String × List Report) → Work Unit
  | .error (.failed failure) => throw (.failed failure)
  | .error (.rejected reports) => do
    tell around sources color reports
    throw (.exit 1)
  | .ok (text, warnings) => do
    tell around sources color warnings
    deliver around color output text

theorem run_gen_ungoverned {e : Failure}
    (hs : Settings.governing t around.here (.ofText file) = .error e) :
    (gen around file options).run { files := t } = (.error (.failed e), { files := t }) := by
  have hsettings : (settingsFor around (.ofText file)).run { files := t } =
      (.error (.failed e), { files := t }) := run_settingsFor_error hs
  rw [gen]
  exact run_bind_error hsettings

section

variable (hs : Settings.governing t around.here (.ofText file) = .ok s)
include hs

theorem run_gen_unread {e : FileError} (hread : t.read around.here (.ofText file) = .error e) :
    (gen around file options).run { files := t } =
      (.error (.failed (.file e)), { files := t }) := by
  have hsettings : (settingsFor around (.ofText file)).run { files := t } =
      (.ok s, { files := t }) := run_settingsFor_ok hs
  have hfile : (readFile around (.ofText file)).run { files := t } =
      (.error (.failed (.file e)), { files := t }) := run_readFile_error hread
  rw [gen, run_bind_ok hsettings]
  exact run_bind_error hfile

/-- Generation reads its file, compiles it, and concludes. -/
theorem run_gen (hread : t.read around.here (.ofText file) = .ok source) :
    (gen around file options).run { files := t } =
      (conclude around (fun name => if name = file then Text.lines source else [])
        (options.color.getD s.style.color.isYes) options.output
        ((override s.output options).compile file source)).run { files := t } := by
  have hsettings : (settingsFor around (.ofText file)).run { files := t } =
      (.ok s, { files := t }) := run_settingsFor_ok hs
  have hfile : (readFile around (.ofText file)).run { files := t } =
      (.ok source, { files := t }) := run_readFile_ok hread
  rw [gen, run_bind_ok hsettings]
  dsimp only
  rw [run_bind_ok hfile]
  rcases (override s.output options).compile file source with (_ | _) | ⟨text, warnings⟩
  · rfl
  · rfl
  · rfl

end

/-! ## Alike -/

/-- What two runs have in common: how they end, what they put out, and, if all went well, what is
then in the file that was asked for. To end early is not to succeed. -/
structure SameProduct (here : Location) (output : Option String)
    (run run' : Except Ending Unit × Desk) : Prop where
  ending : run'.1 = run.1
  early : run.1 ≠ .error (.exit 0)
  out : run'.2.out = run.2.out
  file : run.1 = .ok () → ∀ file ∈ output, file ≠ "" →
    run'.2.files.read here (.ofText file) = run.2.files.read here (.ofText file)

theorem deliver_alike (h : t'.outline = t.outline) (color : Bool) (output : Option String)
    (text err err' : String) :
    SameProduct around.here output ((deliver around color output text).run ⟨t, "", err⟩)
      ((deliver around color output text).run ⟨t', "", err'⟩) := by
  cases output with
  | none => exact ⟨rfl, nofun, rfl, nofun⟩
  | some output =>
    by_cases hempty : output = ""
    · subst hempty
      refine ⟨rfl, nofun, rfl, fun _ file hfile hne => ?_⟩
      exact absurd (Option.some.inj hfile).symm hne
    · simp only [deliver, if_neg hempty]
      rcases FileTree.write_outline h around.here (.ofText output) text with
        ⟨e, hwrite, hwrite'⟩ | ⟨written, written', hwrite, hwrite'⟩
      · have hchange : ∀ {t : FileTree} (err : String),
            t.write around.here (.ofText output) text = .error e →
            (change fun t => t.write around.here (.ofText output) text).run ⟨t, "", err⟩ =
              (.error (.failed (.file e)), ⟨t, "", err⟩) := fun _ h => run_change_error h
        rw [run_bind_error (hchange err hwrite), run_bind_error (hchange err' hwrite')]
        exact ⟨rfl, nofun, rfl, nofun⟩
      · have hchange : ∀ {t written : FileTree} (err : String),
            t.write around.here (.ofText output) text = .ok written →
            (change fun t => t.write around.here (.ofText output) text).run ⟨t, "", err⟩ =
              (.ok (), ⟨written, "", err⟩) := fun _ h => run_change_ok h
        rw [run_bind_ok (hchange err hwrite), run_bind_ok (hchange err' hwrite')]
        refine ⟨rfl, nofun, rfl, fun _ file hfile _ => ?_⟩
        cases hfile
        exact (FileTree.read_of_write hwrite').trans (FileTree.read_of_write hwrite).symm

theorem conclude_alike (h : t'.outline = t.outline)
    {x x' : Except SourceError (String × List Report)}
    (hx : (x'.mapError (·.unplaced)).map withoutPlaces =
      (x.mapError (·.unplaced)).map withoutPlaces)
    (sources sources' : Sources) (color : Bool) (output : Option String) :
    SameProduct around.here output ((conclude around sources color output x).run { files := t })
      ((conclude around sources' color output x').run { files := t' }) := by
  rcases compile_cases_of_unplaced hx with
    ⟨text, w, w', rfl, rfl⟩ | ⟨rs, rs', rfl, rfl⟩ | ⟨failure, rfl, rfl⟩
  · obtain ⟨err, htell⟩ := run_tell around sources color w { files := t }
    obtain ⟨err', htell'⟩ := run_tell around sources' color w' { files := t' }
    rw [conclude, conclude, run_bind_ok htell, run_bind_ok htell']
    exact deliver_alike h color output text err err'
  · obtain ⟨err, htell⟩ := run_tell around sources color rs { files := t }
    obtain ⟨err', htell'⟩ := run_tell around sources' color rs' { files := t' }
    rw [conclude, conclude, run_bind_ok htell, run_bind_ok htell']
    exact ⟨rfl, nofun, rfl, nofun⟩
  · exact ⟨rfl, nofun, rfl, nofun⟩

/-- **Generation does not tell trees apart that are alike.** -/
theorem gen_alike (h : Alike around.here t t') :
    SameProduct around.here options.output ((gen around file options).run { files := t })
      ((gen around file options).run { files := t' }) := by
  have hgov := h.governing (.ofText file)
  cases hs : Settings.governing t around.here (.ofText file) with
  | error e =>
    rw [run_gen_ungoverned file options hs, run_gen_ungoverned file options (hgov.trans hs)]
    exact ⟨rfl, nofun, rfl, nofun⟩
  | ok s =>
    have hs' := hgov.trans hs
    rcases h.compile (.ofText file) with ⟨e, hread, hread'⟩ | ⟨source, source', hread, hread', hsame⟩
    · rw [run_gen_unread file options hs hread, run_gen_unread file options hs' hread']
      exact ⟨rfl, nofun, rfl, nofun⟩
    · rw [run_gen file options hs hread, run_gen file options hs' hread']
      exact conclude_alike h.outline (hsame _ file) _ _ _ _

end Work

end TypeDesc
