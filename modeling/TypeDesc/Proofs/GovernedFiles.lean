/-
Which files are formatted, and that the settings of a project are not among
those that change. A file is found by the ending of its name, which the settings
file does not have. Only a path that leads to a settings file itself is matched
by it; it is then governed by that very file, and what can be read as settings
is no description (`settings_text_rejected`). So the same settings govern every
path before and after (`governing_tidyAll`).
-/
import TypeDesc.Project.Build
import TypeDesc.Proofs.Tidied

namespace TypeDesc

/-! ## Where paths lead -/

namespace Location

theorem advance_concat (here : Location) (names : List String) (name : String) :
    advance here (names ++ [name]) =
      if name = ".." then (advance here names).dropLast else advance here names ++ [name] := by
  induction names generalizing here with
  | nil => rfl
  | cons first names ih => exact ih _

theorem advance_of_notMem {names : List String} (h : ".." ∉ names) (here : Location) :
    advance here names = here ++ names := by
  induction names generalizing here with
  | nil => exact (List.append_nil here).symm
  | cons name names ih =>
    rw [List.mem_cons, not_or] at h
    rw [advance, if_neg (Ne.symm h.1), ih h.2, List.append_assoc, List.singleton_append]

theorem notMem_advance {here : Location} (h : ".." ∉ here) (names : List String) :
    ".." ∉ advance here names := by
  induction names generalizing here with
  | nil => exact h
  | cons name names ih =>
    rw [advance]
    split
    next => exact ih fun hm => h ((List.dropLast_subset here) hm)
    next hname => exact ih (by simpa [h] using Ne.symm hname)

theorem upward_eq_cons (names : List String) : ∃ above, upward names = names.reverse :: above := by
  cases names with
  | nil => exact ⟨[], rfl⟩
  | cons name names => exact ⟨upward names, rfl⟩

end Location

namespace FileTree

variable {t : FileTree} {here loc : Location}

theorem step_eq {name : String} (h : step here name = .ok loc) :
    loc = if name = ".." then here.dropLast else here ++ [name] := by
  unfold step at h
  split at h
  next hup =>
    rw [if_pos hup]
    exact (Except.ok.inj h).symm
  next hup =>
    split at h
    next => cases h
    next =>
      rw [if_neg hup]
      exact (Except.ok.inj h).symm

theorem follow_eq_advance {names : List String} (h : t.follow here names = .ok loc) :
    loc = Location.advance here names := by
  induction names generalizing here with
  | nil => exact (Except.ok.inj h).symm
  | cons name names ih =>
    cases names with
    | nil => exact step_eq h
    | cons name' names =>
      simp only [follow, bind_eq_ok] at h
      obtain ⟨next, hstep, h⟩ := h
      rw [Location.advance, ← step_eq hstep]
      split at h
      next => cases h
      next => cases h
      next => exact ih h

theorem locate_eq_advance {p : Path} (h : t.locate here p = .ok loc) :
    loc = Location.advance (if p.absolute then [] else here) p.names := by
  simp only [locate, bind_eq_ok] at h
  obtain ⟨-, -, h⟩ := h
  exact follow_eq_advance h

/-- A path to a file of a given name belongs to the directory of that file. -/
theorem nearest_self {p : Path} {dir : Location} {name : String} {content : Content}
    (h : t.locate here p = .ok (dir ++ [name]))
    (hget : t.get? (dir ++ [name]) = some (.file content)) : t.nearest here name p = some dir := by
  obtain ⟨above, hup⟩ := Location.upward_eq_cons dir.reverse
  rw [List.reverse_reverse] at hup
  simp only [nearest, ← locate_eq_advance h, hget, List.dropLast_concat, hup]
  rw [List.find?_cons_of_pos (by simp [hget])]

/-! ## Files to format -/

/-- The files that a path asks to be formatted: itself, or the descriptions below it. -/
def matched (t : FileTree) (here : Location) (path : Path) : List Path :=
  if t.isDirectory here path then t.search here Project.sourceEnding path else [path]

/-- The locations that paths lead to. -/
def targets (t : FileTree) (here : Location) (paths : List Path) : List Location :=
  paths.filterMap fun p => (t.locate here p).toOption

theorem mem_targets {paths : List Path} :
    loc ∈ t.targets here paths ↔ ∃ p ∈ paths, t.locate here p = .ok loc := by
  have hok : ∀ p, (t.locate here p).toOption = some loc ↔ t.locate here p = .ok loc := by
    intro p
    cases t.locate here p <;> simp [Except.toOption]
  simp only [targets, List.mem_filterMap, hok]

theorem targets_cons {p : Path} (h : t.locate here p = .ok loc) (paths : List Path) :
    t.targets here (p :: paths) = loc :: t.targets here paths := by
  rw [targets, List.filterMap_cons, h]
  rfl

theorem matched_congr {t' : FileTree} (h : t'.outline = t.outline) (here : Location) (path : Path) :
    t'.matched here path = t.matched here path := by
  rw [matched, matched, isDirectory_congr h, search_congr h]

theorem targets_congr {t' : FileTree} (h : t'.outline = t.outline) (here : Location)
    (paths : List Path) : t'.targets here paths = t.targets here paths := by
  rw [targets, targets, locate_congr h]

theorem search_ending {ending : String} {dir p : Path} (h : p ∈ t.search here ending dir) :
    ∃ above name, p.names = above ++ [name] ∧ endsWith ending name = true := by
  rw [search] at h
  split at h
  next => cases h
  next loc _ =>
    obtain ⟨names, hm, rfl⟩ := List.mem_map.1 h
    have hending := (List.mem_filter.1 (Location.mem_sort.1 hm)).2
    rcases List.eq_nil_or_concat names with rfl | ⟨above, name, rfl⟩
    · cases hending
    · rw [List.concat_eq_append] at hending ⊢
      refine ⟨dir.names ++ above, name, by simp, ?_⟩
      simpa [hasEnding] using hending

/-- Of the files that a path matches, only itself can be a settings file. -/
theorem eq_of_matched_settings {path p : Path} {dir : Location} (hp : p ∈ t.matched here path)
    (hloc : t.locate here p = .ok (dir ++ [Settings.fileName])) : p = path := by
  rw [matched] at hp
  split at hp
  next =>
    obtain ⟨above, name, hnames, hending⟩ := search_ending hp
    have hup : name ≠ ".." := by
      rintro rfl
      exact absurd hending (by decide)
    have hlast := locate_eq_advance hloc
    rw [hnames, Location.advance_concat, if_neg hup] at hlast
    obtain rfl : Settings.fileName = name := by simpa using (List.append_inj' hlast rfl).2
    exact absurd hending (by decide)
  next => exact List.mem_singleton.1 hp

end FileTree

/-! ## Settings -/

section

variable {t : FileTree} {here : Location} {path : Path} {s : Settings}

theorem Settings.load_eq_ok {dir : Location} (h : Settings.load t dir = .ok s)
    (hup : ".." ∉ dir) : ∃ text entries,
      t.get? (dir ++ [fileName]) = some (.file (.text text)) ∧ Toml.read text = .ok entries := by
  simp only [load, bind_eq_ok, mapError_eq_ok, FileTree.readStored_eq, ofText] at h
  obtain ⟨text, ⟨loc, hloc, hget⟩, entries, hentries, -⟩ := h
  have hplain : ".." ∉ dir ++ [fileName] := by
    simpa [hup] using (by decide : ".." ≠ fileName)
  have hplace : loc = dir ++ [fileName] :=
    (FileTree.locate_eq_advance hloc).trans (Location.advance_of_notMem hplain [])
  rw [hplace] at hget
  refine ⟨text, entries, ?_, hentries⟩
  rcases hentry : t.get? (dir ++ [fileName]) with _ | ⟨_ | _⟩ | _ <;> rw [hentry] at hget <;>
    cases hget
  rfl

/-- A settings file that governs itself is not tidied. -/
theorem settings_tidied (hgov : Settings.governing t here path = .ok s) {dir : Location}
    (hup : ".." ∉ dir) (hm : dir ++ [Settings.fileName] ∈ t.targets here (t.matched here path))
    (width : Text.Width) :
    (t.get? (dir ++ [Settings.fileName])).map (Entry.tidied width) =
      t.get? (dir ++ [Settings.fileName]) := by
  obtain ⟨p, hp, hloc⟩ := FileTree.mem_targets.1 hm
  obtain rfl := FileTree.eq_of_matched_settings hp hloc
  rcases hget : t.get? (dir ++ [Settings.fileName]) with _ | content | _
  · rfl
  · have hnearest := FileTree.nearest_self hloc hget
    rw [Settings.governing, hnearest] at hgov
    obtain ⟨text, entries, htext, hread⟩ := Settings.load_eq_ok hgov hup
    rw [hget] at htext
    cases htext
    have htidy : tidied width text = text := by
      rcases ofSource_outcome "" (Text.unified text) with ⟨d, w, h, -⟩ | ⟨reports, h, -⟩
      · exact absurd h (settings_text_rejected hread "" (d, w))
      · exact tidied_of_rejected h
    simp only [Option.map_some, Entry.tidied, htidy]
  · rfl

/-- **Formatting keeps the settings that govern**, whatever path they govern. -/
theorem governing_tidyAll (hgov : Settings.governing t here path = .ok s) (width : Text.Width)
    (here' : Location) (p : Path) :
    Settings.governing (t.tidyAll width (t.targets here (t.matched here path))) here' p =
      Settings.governing t here' p := by
  generalize hlocs : t.targets here (t.matched here path) = locs
  have hnearest : (t.tidyAll width locs).nearest here' Settings.fileName p =
      t.nearest here' Settings.fileName p :=
    FileTree.nearest_congr (t.outline_tidyAll width locs) here' Settings.fileName p
  have hload : ∀ dir, Settings.load (t.tidyAll width locs) dir = Settings.load t dir := by
    intro dir
    have hstored : (t.tidyAll width locs).readStored [] ⟨true, dir ++ [Settings.fileName]⟩ =
        t.readStored [] ⟨true, dir ++ [Settings.fileName]⟩ := by
      rw [FileTree.readStored_eq, FileTree.readStored_eq, FileTree.locate_tidyAll]
      cases hloc : t.locate [] ⟨true, dir ++ [Settings.fileName]⟩ with
      | error e => rfl
      | ok loc =>
        have hplace : loc = Location.advance [] dir ++ [Settings.fileName] := by
          have h := FileTree.locate_eq_advance hloc
          simpa [Location.advance_concat, (by decide : Settings.fileName ≠ "..")] using h
        have hsame : (t.tidyAll width locs).get? loc = t.get? loc := by
          rw [FileTree.get?_tidyAll]
          split
          next hm =>
            rw [hplace, ← hlocs] at hm
            rw [hplace]
            exact settings_tidied hgov (Location.notMem_advance (by simp) dir) hm width
          next => rfl
        simp only [ok_bind, hsame]
    rw [Settings.load, Settings.load, hstored]
  simp only [Settings.governing, hnearest, hload]

end

end TypeDesc
