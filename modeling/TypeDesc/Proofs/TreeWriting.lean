/-
What writing texts does to a tree of files. Making directories only adds some
where nothing was, and writing a text changes the file that its place leads to
(`writeOne_grows`). No directory is lost on the way, so that every path leads
where it led before (`locate_of_grows`). After texts have been written one after
the other, each place holds its own unless another text went to the same file
(`writeAll_holds`), and nothing else has changed (`writeAll_grows`).
-/
import TypeDesc.Proofs.GovernedFiles

namespace TypeDesc

namespace FileTree

/-- One tree grows into another: directories stay, and apart from the given locations the only
entries that are new are directories. -/
structure Grows (t t' : FileTree) (locs : List Location) : Prop where
  directories : ∀ {loc}, t.get? loc = some .directory → t'.get? loc = some .directory
  others : ∀ {loc}, loc ∉ locs →
    t'.get? loc = t.get? loc ∨ t.get? loc = none ∧ t'.get? loc = some .directory

namespace Grows

variable {t t' t'' : FileTree} {locs locs' : List Location}

theorem refl (t : FileTree) : t.Grows t [] :=
  ⟨id, fun _ => .inl rfl⟩

theorem trans (h : t.Grows t' locs) (h' : t'.Grows t'' locs') : t.Grows t'' (locs ++ locs') where
  directories := fun hd => h'.directories (h.directories hd)
  others := by
    intro loc hm
    rw [List.mem_append, not_or] at hm
    rcases h.others hm.1 with heq | ⟨hnone, hdir⟩
    · rw [← heq]
      exact h'.others hm.2
    · exact .inr ⟨hnone, h'.directories hdir⟩

/-- A file that is not among the locations stays. -/
theorem file (h : t.Grows t' locs) {loc : Location} (hm : loc ∉ locs) {content : Content}
    (hf : t.get? loc = some (.file content)) : t'.get? loc = some (.file content) := by
  rcases h.others hm with heq | ⟨hnone, -⟩
  · rw [heq, hf]
  · rw [hf] at hnone
    cases hnone

end Grows

/-! ## Paths -/

section

variable {t t' : FileTree} {here loc : Location} {locs : List Location}

theorem follow_of_grows (hg : t.Grows t' locs) {names : List String}
    (h : t.follow here names = .ok loc) : t'.follow here names = .ok loc := by
  induction names generalizing here with
  | nil => exact h
  | cons name names ih =>
    cases names with
    | nil => exact h
    | cons name' names =>
      simp only [follow, bind_eq_ok] at h ⊢
      obtain ⟨next, hstep, h⟩ := h
      refine ⟨next, hstep, ?_⟩
      split at h
      next => cases h
      next => cases h
      next hdir =>
        rw [hg.directories hdir]
        exact ih h

/-- **A path leads where it led before.** -/
theorem locate_of_grows (hg : t.Grows t' locs) {p : Path} (h : t.locate here p = .ok loc) :
    t'.locate here p = .ok loc := by
  simp only [locate, bind_eq_ok] at h ⊢
  obtain ⟨done, hcheck, h⟩ := h
  exact ⟨done, hcheck, follow_of_grows hg h⟩

end

/-! ## Directories -/

section

variable {t t' : FileTree} {here : Location} {mayExist : Bool}

/-- Setting an entry changes its location only. -/
theorem grows_set {loc : Location} (h : t.get? loc ≠ some .directory) (e : Entry) :
    t.Grows (t.set loc e) [loc] where
  directories := by
    intro l hd
    have hl : l ≠ loc := fun he => h (he ▸ hd)
    rw [t.get?_set_other hl, hd]
  others := fun hl => .inl (t.get?_set_other (by simpa using hl) e)

theorem grows_set_directory {loc : Location} (h : t.get? loc = none) :
    t.Grows (t.set loc .directory) [] where
  directories := (grows_set (by simp [h]) .directory).directories
  others := by
    intro l _
    by_cases hl : l = loc
    · have hne : loc ≠ [] := by
        rintro rfl
        cases h
      rw [hl]
      exact .inr ⟨h, t.get?_set_self hne .directory⟩
    · exact .inl (t.get?_set_other hl .directory)

theorem ensureDirectory_grows {p : Path} (h : t.ensureDirectory here mayExist p = (t', .ok ())) :
    t.Grows t' [] := by
  rw [ensureDirectory] at h
  cases hmake : t.makeDirectory here p with
  | ok made =>
    rw [hmake] at h
    obtain rfl : made = t' := congrArg Prod.fst h
    simp only [makeDirectory, bind_eq_ok] at hmake
    obtain ⟨loc, -, hmake⟩ := hmake
    split at hmake
    next => cases hmake
    next hnone =>
      cases hmake
      exact grows_set_directory hnone
  | error e =>
    rw [hmake] at h
    dsimp only at h
    split at h
    next =>
      obtain rfl : t = t' := congrArg Prod.fst h
      exact .refl t
    next => cases congrArg Prod.snd h

theorem ensureNames_grows {absolute : Bool} {names : List String}
    (h : t.ensureNames here absolute mayExist names = (t', .ok ())) : t.Grows t' [] := by
  induction names generalizing mayExist t' with
  | nil => exact ensureDirectory_grows h
  | cons name names ih =>
    rw [ensureNames] at h
    split at h
    next =>
      split at h
      next above habove => exact (ih habove).trans (ensureDirectory_grows h)
      next stopped hstopped => exact absurd h (hstopped t')
    next => exact ensureDirectory_grows h

/-! ## Texts -/

theorem write_eq_ok {p : Path} {text : String} (h : t.write here p text = .ok t') :
    ∃ loc, t.locate here p = .ok loc ∧ t.get? loc ≠ some .directory ∧
      t' = t.set loc (.file (.text text)) := by
  simp only [write, bind_eq_ok] at h
  obtain ⟨loc, hloc, h⟩ := h
  split at h
  next => cases h
  next hfile => exact ⟨loc, hloc, hfile, (Except.ok.inj h).symm⟩

end

end FileTree

namespace Project

variable {t t' : FileTree}

/-- The location of a place: nothing can be in the way when something has been written there. -/
def locationOf (place : Path) : Location :=
  Location.advance [] place.names

theorem locate_eq_locationOf {place : Path} {loc : Location} (h : t.locate [] place = .ok loc) :
    loc = locationOf place := by
  rw [FileTree.locate_eq_advance h, ite_self, locationOf]

/-- **Writing one text** changes the file at its place, and may add directories. -/
theorem writeOne_grows {place : Path} {text : String} (h : writeOne t place text = (t', .ok ())) :
    t.Grows t' [locationOf place] ∧ t'.locate [] place = .ok (locationOf place) ∧
      t'.get? (locationOf place) = some (.file (.text text)) := by
  rw [writeOne] at h
  split at h
  next => cases congrArg Prod.snd h
  next made hmade =>
    split at h
    next => cases congrArg Prod.snd h
    next written hwritten =>
      obtain rfl : written = t' := congrArg Prod.fst h
      obtain ⟨loc, hloc, hdir, rfl⟩ := FileTree.write_eq_ok hwritten
      obtain rfl := locate_eq_locationOf hloc
      have hne : locationOf place ≠ [] := by
        intro hnil
        rw [hnil] at hdir
        exact hdir rfl
      have hset := FileTree.grows_set hdir (.file (.text text))
      exact ⟨(FileTree.ensureNames_grows hmade).trans hset,
        FileTree.locate_of_grows hset hloc, made.get?_set_self hne _⟩

variable {texts : List (Path × String)}

/-- **Writing texts** changes nothing but their files, and may add directories. Each place leads to
its file afterwards. -/
theorem writeAll_grows (h : writeAll t texts = (t', .ok ())) :
    t.Grows t' (texts.map fun x => locationOf x.1) ∧
      ∀ x ∈ texts, t'.locate [] x.1 = .ok (locationOf x.1) := by
  induction texts generalizing t with
  | nil =>
    obtain rfl : t = t' := congrArg Prod.fst h
    exact ⟨.refl t, by simp⟩
  | cons first texts ih =>
    obtain ⟨place, text⟩ := first
    rw [writeAll] at h
    split at h
    next t₁ hone =>
      obtain ⟨hgrows, hloc, -⟩ := writeOne_grows hone
      obtain ⟨hgrows', hrest⟩ := ih h
      exact ⟨hgrows.trans hgrows',
        List.forall_mem_cons.2 ⟨FileTree.locate_of_grows hgrows' hloc, hrest⟩⟩
    next stopped hstopped => exact absurd h (hstopped t')

/-- **Each place holds its text**, if no two texts for the same file differ. A file stays as it was
written, or is written again with the same text. -/
theorem writeAll_holds (h : writeAll t texts = (t', .ok ()))
    (hsame : ∀ x ∈ texts, ∀ y ∈ texts, locationOf x.1 = locationOf y.1 → x.2 = y.2) :
    ∀ x ∈ texts, t'.get? (locationOf x.1) = some (.file (.text x.2)) := by
  induction texts generalizing t with
  | nil => simp
  | cons first texts ih =>
    obtain ⟨place, text⟩ := first
    rw [writeAll] at h
    split at h
    next t₁ hone =>
      obtain ⟨-, -, hholds⟩ := writeOne_grows hone
      have hrest := ih h fun x hx y hy =>
        hsame x (List.mem_cons_of_mem _ hx) y (List.mem_cons_of_mem _ hy)
      refine List.forall_mem_cons.2 ⟨?_, hrest⟩
      by_cases hagain : ∃ y ∈ texts, locationOf y.1 = locationOf place
      · obtain ⟨y, hy, heq⟩ := hagain
        have htext := hsame (place, text) List.mem_cons_self y (List.mem_cons_of_mem _ hy) heq.symm
        show t'.get? (locationOf place) = some (.file (.text text))
        rw [← heq, hrest y hy]
        exact congrArg _ (congrArg _ (congrArg _ htext.symm))
      · have hlater : locationOf place ∉ texts.map fun x => locationOf x.1 := by
          simpa using hagain
        exact (writeAll_grows h).1.file hlater hholds
    next stopped hstopped => exact absurd h (hstopped t')

end Project

end TypeDesc
