/-
What the work of a command does to its desk: one lemma for each kind of step,
and two for steps one after the other. Reports go to the messages and nowhere
else (`run_tell`). Most steps keep the files (`KeepsFiles`), and so do commands
that are made of them.
-/
import TypeDesc.Command.Run
import TypeDesc.Proofs.Outcome

namespace TypeDesc

namespace Work

/-! ## Steps -/

section

variable {α β : Type} {x : Work α} {f : α → Work β} {desk desk' : Desk}

theorem run_bind_ok {a : α} (h : x.run desk = (.ok a, desk')) :
    (x >>= f).run desk = (f a).run desk' := by
  show (let (r, d) := x.run desk; ExceptT.bindCont f r d) = _
  rw [h]
  rfl

theorem run_bind_error {e : Ending} (h : x.run desk = (.error e, desk')) :
    (x >>= f).run desk = (.error e, desk') := by
  show (let (r, d) := x.run desk; ExceptT.bindCont f r d) = _
  rw [h]
  rfl

theorem run_get_bind {f : Desk → Work α} : ((get : Work Desk) >>= f).run desk = (f desk).run desk :=
  rfl

end

section

variable {around : Surroundings} {desk : Desk} {p : Path}

theorem run_readFile_ok {source : String} (h : desk.files.read around.here p = .ok source) :
    (readFile around p).run desk = (.ok source, desk) := by
  rw [readFile, run_get_bind, h]
  rfl

theorem run_readFile_error {e : FileError} (h : desk.files.read around.here p = .error e) :
    (readFile around p).run desk = (.error (.failed (.file e)), desk) := by
  rw [readFile, run_get_bind, h]
  rfl

theorem run_settingsFor_ok {s : Settings} (h : Settings.governing desk.files around.here p = .ok s) :
    (settingsFor around p).run desk = (.ok s, desk) := by
  rw [settingsFor, run_get_bind, h]
  rfl

theorem run_settingsFor_error {e : Failure}
    (h : Settings.governing desk.files around.here p = .error e) :
    (settingsFor around p).run desk = (.error (.failed e), desk) := by
  rw [settingsFor, run_get_bind, h]
  rfl

theorem run_change_ok {f : FileTree → Except FileError FileTree} {files : FileTree}
    (h : f desk.files = .ok files) : (change f).run desk = (.ok (), { desk with files }) := by
  rw [change, run_get_bind, h]
  rfl

theorem run_change_error {f : FileTree → Except FileError FileTree} {e : FileError}
    (h : f desk.files = .error e) : (change f).run desk = (.error (.failed (.file e)), desk) := by
  rw [change, run_get_bind, h]
  rfl

end

theorem run_complain (around : Surroundings) (line : String) (desk : Desk) :
    ∃ err, (complain around line).run desk = (.ok (), { desk with err }) :=
  ⟨_, rfl⟩

/-- Reports go to the messages. -/
theorem run_tell (around : Surroundings) (sources : Sources) (color : Bool) (reports : List Report)
    (desk : Desk) :
    ∃ err, (tell around sources color reports).run desk = (.ok (), { desk with err }) := by
  induction reports generalizing desk with
  | nil => exact ⟨desk.err, rfl⟩
  | cons report reports ih =>
    obtain ⟨err, h⟩ := run_complain around (report.diagnostic.render sources color) desk
    rw [tell, run_bind_ok h]
    exact ih { desk with err }

theorem run_tellOnDisk (around : Surroundings) (color : Bool) (reports : List Report) (desk : Desk) :
    ∃ err, (tellOnDisk around color reports).run desk = (.ok (), { desk with err }) := by
  rw [tellOnDisk, run_get_bind]
  exact run_tell around (linesOnDisk around desk.files) color reports desk

/-! ## Work that keeps the files -/

/-- However it ends, the work leaves all files as they are. -/
def KeepsFiles {α : Type} (x : Work α) : Prop :=
  ∀ desk, (x.run desk).2.files = desk.files

namespace KeepsFiles

variable {α β : Type} {x : Work α} {f : α → Work β}

theorem pure (a : α) : KeepsFiles (Pure.pure a : Work α) := fun _ => rfl

theorem throw (e : Ending) : KeepsFiles (MonadExcept.throw e : Work α) := fun _ => rfl

theorem get : KeepsFiles (MonadState.get : Work Desk) := fun _ => rfl

theorem bind (hx : KeepsFiles x) (hf : ∀ a, KeepsFiles (f a)) : KeepsFiles (x >>= f) := by
  intro desk
  have hfirst := hx desk
  rcases hrun : x.run desk with ⟨_ | a, desk'⟩
  · rw [run_bind_error hrun]
    rwa [hrun] at hfirst
  · rw [run_bind_ok hrun, hf a desk']
    rwa [hrun] at hfirst

theorem attempt (x : Except Failure α) : KeepsFiles (Work.attempt x) := by
  intro desk
  cases x <;> rfl

theorem readFile (around : Surroundings) (p : Path) : KeepsFiles (Work.readFile around p) :=
  get.bind fun _ => attempt _

theorem settingsFor (around : Surroundings) (p : Path) : KeepsFiles (Work.settingsFor around p) :=
  get.bind fun _ => attempt _

theorem demandText (around : Surroundings) (p : Path) : KeepsFiles (Work.demandText around p) := by
  refine get.bind fun desk => ?_
  split
  next => exact throw _
  next => exact pure ()

theorem tellOnDisk (around : Surroundings) (color : Bool) (reports : List Report) :
    KeepsFiles (Work.tellOnDisk around color reports) := by
  intro desk
  obtain ⟨err, h⟩ := run_tellOnDisk around color reports desk
  rw [h]

theorem complain (around : Surroundings) (line : String) :
    KeepsFiles (Work.complain around line) := fun _ => rfl

theorem say (around : Surroundings) (line : String) : KeepsFiles (Work.say around line) :=
  fun _ => rfl

theorem putRaw (text : String) : KeepsFiles (Work.putRaw text) := fun _ => rfl

end KeepsFiles

theorem formatFiles_keepsFiles (around : Surroundings) (settings : Settings) (paths : List Path) :
    KeepsFiles (formatFiles around settings true paths) := by
  induction paths with
  | nil => exact .pure false
  | cons path paths ih =>
    refine (KeepsFiles.readFile around path).bind fun source => ?_
    split
    next failure _ => exact .throw _
    next reports _ => exact (KeepsFiles.tellOnDisk around _ reports).bind fun _ => ih
    next text _ =>
      split
      next => exact ih
      next => exact (KeepsFiles.say around _).bind fun _ => ih.bind fun _ => .pure true

theorem formatInput_keepsFiles (around : Surroundings) (settings : Settings) (checkOnly : Bool) :
    KeepsFiles (formatInput around settings checkOnly) := by
  unfold formatInput
  extract_lets source
  split
  next failure _ => exact .throw _
  next reports _ =>
    exact (KeepsFiles.demandText around _).bind fun _ =>
      (KeepsFiles.tellOnDisk around _ reports).bind fun _ => .throw _
  next text _ =>
    split
    next =>
      split
      next => exact .throw _
      next => exact .pure ()
    next => exact .putRaw text

/-- **Asking which files are not formatted changes no file**, whatever is in the way. -/
theorem format_keepsFiles (around : Surroundings) (path : Path) (fromInput : Bool) :
    KeepsFiles (format around path true fromInput) := by
  refine (KeepsFiles.settingsFor around path).bind fun settings => ?_
  split
  next => exact formatInput_keepsFiles around settings true
  next =>
    refine KeepsFiles.get.bind fun desk => ?_
    extract_lets files found
    split
    next => exact .complain around _
    next =>
      refine (formatFiles_keepsFiles around settings _).bind fun any => ?_
      cases any with
      | true => exact .throw _
      | false => exact .pure ()

end Work

end TypeDesc
