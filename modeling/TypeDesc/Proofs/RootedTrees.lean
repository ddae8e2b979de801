/-
Trees in which every entry lies in a directory (`Rooted`). Making directories and
writing texts keep a tree so (`Rooted.ensureNames`, `Rooted.write`). In such a tree
nothing lies below what is no directory (`Rooted.below_eq_nil`), and a location
that has an entry can be reached (`Rooted.follow`). Directories are made only where
the names of a path lead on the way (`ensureNames_other`).
-/
import Mathlib.Data.List.Induction
import TypeDesc.Proofs.BuiltOutputs

namespace TypeDesc

theorem Location.ne_nil_of_below? {dir loc names : Location} (h : dir.below? loc = some names) :
    names ≠ [] := by
  induction dir generalizing loc with
  | nil => cases loc <;> cases h; simp
  | cons a dir ih =>
    cases loc with
    | nil => cases h
    | cons b loc =>
      rw [below?] at h
      split at h
      next => exact ih h
      next => cases h

theorem Location.below?_append (dir a b : Location) : (dir ++ a).below? (dir ++ b) = a.below? b := by
  induction dir with
  | nil => rfl
  | cons name dir ih => simpa [below?] using ih

namespace FileTree

/-! ## Entries in directories -/

/-- Every entry lies in a directory. -/
def Rooted (t : FileTree) : Prop :=
  ∀ entry ∈ t.entries, t.get? entry.1.dropLast = some .directory

instance (t : FileTree) : Decidable t.Rooted :=
  inferInstanceAs (Decidable (∀ entry ∈ t.entries, _))

section

variable {t t' : FileTree} {here loc : Location}

theorem get?_ne_none {entry : Location × Entry} (h : entry ∈ t.entries) : t.get? entry.1 ≠ none := by
  rw [get?]
  split
  · simp
  · rw [← Option.isSome_iff_ne_none, List.lookup_isSome_iff]
    exact ⟨entry, h, beq_self_eq_true _⟩

namespace Rooted

theorem dropLast (h : t.Rooted) (hget : t.get? loc ≠ none) :
    t.get? loc.dropLast = some .directory := by
  by_cases hnil : loc = []
  · rw [hnil]
    rfl
  · rw [get?, if_neg hnil, ← Option.isSome_iff_ne_none, List.lookup_isSome_iff] at hget
    obtain ⟨entry, hentry, hkey⟩ := hget
    rw [eq_of_beq hkey]
    exact h entry hentry

/-- What has an entry below it is a directory. -/
theorem above (h : t.Rooted) {names : Location} (hne : names ≠ [])
    (hget : t.get? (loc ++ names) ≠ none) : t.get? loc = some .directory := by
  induction names using List.reverseRecOn with
  | nil => exact absurd rfl hne
  | append_singleton names name ih =>
    have hlast := h.dropLast hget
    rw [← List.append_assoc, List.dropLast_concat] at hlast
    by_cases hnames : names = []
    · rwa [hnames, List.append_nil] at hlast
    · exact ih hnames (by simp [hlast])

/-- An entry in a directory may be set. -/
theorem set (h : t.Rooted) (hloc : t.get? loc.dropLast = some .directory)
    (hget : t.get? loc ≠ some .directory) (e : Entry) : (t.set loc e).Rooted := by
  have hkeys : ∀ {entries : List (Location × Entry)} {entry : Location × Entry},
      entry ∈ setIn loc e entries → entry.1 = loc ∨ entry ∈ entries := by
    intro entries entry hentry
    induction entries with
    | nil => exact .inl (by rw [List.mem_singleton.1 hentry])
    | cons first entries ih =>
      rw [setIn] at hentry
      split at hentry
      next hfirst =>
        rcases List.mem_cons.1 hentry with rfl | hentry
        · exact .inl hfirst
        · exact .inr (List.mem_cons_of_mem _ hentry)
      next =>
        rcases List.mem_cons.1 hentry with rfl | hentry
        · exact .inr List.mem_cons_self
        · exact (ih hentry).imp_right (List.mem_cons_of_mem _)
  intro entry hentry
  refine (grows_set hget e).directories ?_
  rcases hkeys hentry with hkey | hold
  · rw [hkey, hloc]
  · exact h entry hold

/-- A path leads into a directory. -/
theorem follow_dropLast (h : t.Rooted) {names : List String}
    (hhere : t.get? here = some .directory) (hfollow : t.follow here names = .ok loc) :
    t.get? loc.dropLast = some .directory := by
  induction names generalizing here with
  | nil =>
    cases hfollow
    exact h.dropLast (by simp [hhere])
  | cons name names ih =>
    cases names with
    | nil =>
      have hup : t.get? here.dropLast = some .directory := h.dropLast (by simp [hhere])
      rw [step_eq hfollow]
      split
      · exact h.dropLast (by simp [hup])
      · rw [List.dropLast_concat, hhere]
    | cons name' names =>
      simp only [FileTree.follow, bind_eq_ok] at hfollow
      obtain ⟨next, -, hnext⟩ := hfollow
      split at hnext
      next => cases hnext
      next => cases hnext
      next hdir => exact ih hdir hnext

theorem locate_dropLast (h : t.Rooted) {p : Path} (hloc : t.locate [] p = .ok loc) :
    t.get? loc.dropLast = some .directory := by
  simp only [locate, bind_eq_ok, ite_self] at hloc
  obtain ⟨-, -, hfollow⟩ := hloc
  exact h.follow_dropLast rfl hfollow

end Rooted

/-! ## Making directories and writing texts -/

theorem makeDirectory_eq_ok {p : Path} (h : t.makeDirectory here p = .ok t') :
    ∃ loc, t.locate here p = .ok loc ∧ t.get? loc = none ∧ t' = t.set loc .directory := by
  simp only [makeDirectory, bind_eq_ok] at h
  obtain ⟨loc, hloc, h⟩ := h
  split at h
  next => cases h
  next hnone =>
    cases h
    exact ⟨loc, hloc, hnone, rfl⟩

/-- What making a directory may do: nothing, or the directory is new. -/
theorem ensureDirectory_cases {mayExist : Bool} {p : Path} {outcome : Except (FileError × Path) Unit}
    (h : t.ensureDirectory here mayExist p = (t', outcome)) :
    t' = t ∨ t.makeDirectory here p = .ok t' := by
  rw [ensureDirectory] at h
  cases hmake : t.makeDirectory here p with
  | ok made =>
    rw [hmake] at h
    exact .inr (congrArg Except.ok (congrArg Prod.fst h))
  | error e =>
    rw [hmake] at h
    dsimp only at h
    split at h <;> exact .inl (congrArg Prod.fst h).symm

theorem makeDirectory_of_ensure {p : Path} (h : t.ensureDirectory here false p = (t', .ok ())) :
    t.makeDirectory here p = .ok t' := by
  rw [ensureDirectory] at h
  cases hmake : t.makeDirectory here p with
  | ok made =>
    rw [hmake] at h
    exact congrArg Except.ok (congrArg Prod.fst h)
  | error e =>
    rw [hmake] at h
    simp at h

theorem makeDirectories_of_ensure {mayExist : Bool} {p : Path}
    (h : t.ensureDirectory here mayExist p = (t', .ok ())) :
    t.makeDirectories here mayExist p = (t', .ok ()) := by
  rw [makeDirectories]
  cases hnames : p.names.reverse with
  | nil =>
    rw [List.reverse_eq_nil_iff] at hnames
    rw [ensureNames, ← hnames, h]
  | cons name names =>
    rw [ensureNames, ← hnames, List.reverse_reverse, h]

/-- A directory can be made where there is no file, if one that is there is enough. -/
theorem exists_ensureDirectory {p : Path} (hloc : t.locate here p = .ok loc)
    (hfile : ∀ content, t.get? loc ≠ some (.file content)) :
    ∃ made, t.ensureDirectory here true p = (made, .ok ()) ∧ made.get? loc = some .directory ∧
      ∀ l, l ≠ loc → made.get? l = t.get? l := by
  cases hget : t.get? loc with
  | none =>
    have hne : loc ≠ [] := by
      rintro rfl
      cases hget
    have hmake : t.makeDirectory here p = .ok (t.set loc .directory) := by
      simp only [makeDirectory, hloc, ok_bind, hget]
    exact ⟨t.set loc .directory, by rw [ensureDirectory, hmake], t.get?_set_self hne _,
      fun l hl => t.get?_set_other hl _⟩
  | some e =>
    cases e with
    | file content => exact absurd hget (hfile content)
    | directory =>
      have hmake : t.makeDirectory here p = .error .alreadyExists := by
        simp only [makeDirectory, hloc, ok_bind, hget]
      have hdir : t.isDirectory here p = true := by
        simp only [isDirectory, lookup, hloc, ok_bind, hget]
      exact ⟨t, by simp [ensureDirectory, hmake, hdir], hget, fun _ _ => rfl⟩

namespace Rooted

theorem ensureDirectory (h : t.Rooted) {mayExist : Bool} {p : Path}
    {outcome : Except (FileError × Path) Unit}
    (hmake : t.ensureDirectory [] mayExist p = (t', outcome)) : t'.Rooted := by
  rcases ensureDirectory_cases hmake with rfl | hmade
  · exact h
  · obtain ⟨loc, hloc, hnone, rfl⟩ := makeDirectory_eq_ok hmade
    exact h.set (h.locate_dropLast hloc) (by simp [hnone]) _

theorem ensureNames (h : t.Rooted) {absolute mayExist : Bool} {names : List String}
    {outcome : Except (FileError × Path) Unit}
    (hmake : t.ensureNames [] absolute mayExist names = (t', outcome)) : t'.Rooted := by
  induction names generalizing mayExist t' outcome with
  | nil => exact h.ensureDirectory hmake
  | cons name names ih =>
    rw [FileTree.ensureNames] at hmake
    split at hmake
    next =>
      split at hmake
      next above habove => exact (ih habove).ensureDirectory hmake
      next => exact ih hmake
    next => exact h.ensureDirectory hmake

theorem write (h : t.Rooted) {p : Path} {text : String} (hwrite : t.write [] p text = .ok t') :
    t'.Rooted := by
  obtain ⟨loc, hloc, hdir, rfl⟩ := write_eq_ok hwrite
  exact h.set (h.locate_dropLast hloc) hdir _

end Rooted

theorem ensureDirectory_other {mayExist : Bool} {p : Path}
    {outcome : Except (FileError × Path) Unit}
    (h : t.ensureDirectory [] mayExist p = (t', outcome))
    (hloc : loc ≠ Location.advance [] p.names) : t'.get? loc = t.get? loc := by
  rcases ensureDirectory_cases h with rfl | hmade
  · rfl
  · obtain ⟨l, hl, -, rfl⟩ := makeDirectory_eq_ok hmade
    rw [locate_eq_advance hl, ite_self]
    exact t.get?_set_other hloc _

/-- Making directories changes nothing but what the names lead to on the way. -/
theorem ensureNames_other {absolute mayExist : Bool} {names : List String}
    {outcome : Except (FileError × Path) Unit}
    (h : t.ensureNames [] absolute mayExist names = (t', outcome))
    (hloc : ∀ front, front <:+ names → loc ≠ Location.advance [] front.reverse) :
    t'.get? loc = t.get? loc := by
  have hself := hloc names List.suffix_rfl
  induction names generalizing mayExist t' outcome with
  | nil => exact ensureDirectory_other h hself
  | cons name names ih =>
    have habove : ∀ front, front <:+ names → loc ≠ Location.advance [] front.reverse :=
      fun front hfront => hloc front (hfront.trans (List.suffix_cons name names))
    rw [ensureNames] at h
    split at h
    next =>
      split at h
      next above hmade =>
        rw [ensureDirectory_other h hself]
        exact ih hmade habove (habove names List.suffix_rfl)
      next => exact ih h habove (habove names List.suffix_rfl)
    next => exact ensureDirectory_other h hself

/-- A new directory is made after those above it. -/
theorem makeDirectories_child {p : Path} {name : String}
    (h : t.makeDirectories [] false (p.child name) = (t', .ok ())) :
    ∃ above : FileTree, (t.Rooted → above.Rooted) ∧
      above.makeDirectory [] (p.child name) = .ok t' ∧
      ∀ {loc}, (∀ front, front <+: p.names → loc ≠ Location.advance [] front) →
        above.get? loc = t.get? loc := by
  have hnames : (name :: p.names.reverse).reverse = p.names ++ [name] := by simp
  rw [makeDirectories, Path.child, List.reverse_append, List.reverse_singleton,
    List.singleton_append, ensureNames] at h
  simp only [hnames] at h
  split at h
  next =>
    split at h
    next above habove =>
      refine ⟨above, fun ht => ht.ensureNames habove, makeDirectory_of_ensure h, fun hloc => ?_⟩
      refine ensureNames_other habove fun front hfront => hloc _ ?_
      rw [← List.reverse_reverse p.names]
      exact List.reverse_prefix.2 hfront
    next stopped hstopped => exact absurd h (hstopped t')
  next => exact ⟨t, id, makeDirectory_of_ensure h, fun _ => rfl⟩

/-! ## Following paths -/

/-- Behind a directory, one more name is one more step. -/
theorem follow_concat {names : List String} (h : t.follow here names = .ok loc)
    (hdir : t.get? loc = some .directory) (name : String) :
    t.follow here (names ++ [name]) = step loc name := by
  induction names generalizing here with
  | nil =>
    cases h
    rfl
  | cons first names ih =>
    cases names with
    | nil =>
      change step here first = .ok loc at h
      simp only [List.cons_append, List.nil_append, FileTree.follow, h, ok_bind, hdir]
    | cons second names =>
      simp only [FileTree.follow, bind_eq_ok] at h
      obtain ⟨next, hstep, h⟩ := h
      split at h
      next => cases h
      next => cases h
      next hnext =>
        simp only [List.cons_append, FileTree.follow, hstep, ok_bind, hnext]
        exact ih h

/-- What stands before the last name is a directory. -/
theorem follow_concat_eq_ok {names : List String} {name : String} {last : Location}
    (hhere : t.get? here = some .directory) (h : t.follow here (names ++ [name]) = .ok last) :
    ∃ loc, t.follow here names = .ok loc ∧ t.get? loc = some .directory ∧
      step loc name = .ok last := by
  induction names generalizing here with
  | nil => exact ⟨here, rfl, hhere, h⟩
  | cons first names ih =>
    cases names with
    | nil =>
      simp only [List.cons_append, List.nil_append, FileTree.follow, bind_eq_ok] at h
      obtain ⟨next, hstep, h⟩ := h
      split at h
      next => cases h
      next => cases h
      next hnext => exact ⟨next, hstep, hnext, h⟩
    | cons second names =>
      simp only [List.cons_append, FileTree.follow, bind_eq_ok] at h
      obtain ⟨next, hstep, h⟩ := h
      split at h
      next => cases h
      next => cases h
      next hnext =>
        obtain ⟨loc, hloc, hdir, hlast⟩ := ih hnext h
        refine ⟨loc, ?_, hdir, hlast⟩
        simp only [FileTree.follow, hstep, ok_bind, hnext]
        exact hloc

/-- A name that leads somewhere in some tree does so in every tree. -/
theorem step_of_follow {t' : FileTree} {here' : Location} {names : List String}
    (h : t'.follow here' names = .ok loc) {name : String} (hname : name ∈ names)
    (hup : name ≠ "..") (here : Location) : step here name = .ok (here ++ [name]) := by
  have hfits : ∀ {here' loc}, step here' name = .ok loc → step here name = .ok (here ++ [name]) := by
    intro here' loc hstep
    rw [step, if_neg hup] at hstep ⊢
    split at hstep
    next => cases hstep
    next hsize => rw [if_neg hsize]
  induction names generalizing here' with
  | nil => cases hname
  | cons first names ih =>
    cases names with
    | nil =>
      obtain rfl := List.mem_singleton.1 hname
      exact hfits h
    | cons second names =>
      simp only [FileTree.follow, bind_eq_ok] at h
      obtain ⟨next, hstep, h⟩ := h
      rcases List.mem_cons.1 hname with rfl | hname
      · exact hfits hstep
      · split at h
        next => cases h
        next => cases h
        next => exact ih h hname

/-- An entry of a rooted tree can be reached by its own names. -/
theorem Rooted.follow (h : t.Rooted) {names : List String}
    (hstep : ∀ name ∈ names, ∀ here, step here name = .ok (here ++ [name]))
    (hget : t.get? (here ++ names) ≠ none) : t.follow here names = .ok (here ++ names) := by
  induction names generalizing here with
  | nil => rw [List.append_nil]; rfl
  | cons first names ih =>
    obtain ⟨hfirst, hnames⟩ := List.forall_mem_cons.1 hstep
    cases names with
    | nil => exact hfirst here
    | cons second names =>
      rw [List.append_cons] at hget ⊢
      simp only [FileTree.follow, hfirst, ok_bind, h.above (List.cons_ne_nil _ _) hget]
      exact ih hnames hget

/-! ## What lies below a directory -/

/-- The names that lead from a location to the entries below it. -/
def below (t : FileTree) (loc : Location) : List Location :=
  t.entries.filterMap fun entry => loc.below? entry.1

theorem search_eq {dir : Path} (h : t.locate here dir = .ok loc) (ending : String) :
    t.search here ending dir = (Location.sort ((t.below loc).filter (hasEnding ending))).map
      fun names => ⟨dir.absolute, dir.names ++ names⟩ := by
  rw [search, h]
  rfl

theorem Rooted.below_eq_nil (h : t.Rooted) (hget : t.get? loc ≠ some .directory) :
    t.below loc = [] := by
  rw [below, List.filterMap_eq_nil_iff]
  intro entry hentry
  cases hbelow : loc.below? entry.1 with
  | none => rfl
  | some names =>
    have hentry' := get?_ne_none hentry
    rw [Location.eq_of_below? hbelow] at hentry'
    exact absurd (h.above (Location.ne_nil_of_below? hbelow) hentry') hget

theorem below_set_of_none {l : Location} (h : loc.below? l = none) (e : Entry) :
    (t.set l e).below loc = t.below loc := by
  have hentries : ∀ entries : List (Location × Entry),
      (setIn l e entries).filterMap (fun entry => loc.below? entry.1) =
        entries.filterMap fun entry => loc.below? entry.1 := by
    intro entries
    induction entries with
    | nil => simp [setIn, h]
    | cons first entries ih =>
      rw [setIn]
      split
      next hfirst => simp only [List.filterMap_cons, hfirst]
      next => simp only [List.filterMap_cons, ih]
  exact hentries t.entries

theorem below_set_of_some {l names : Location} (h : loc.below? l = some names)
    (hnew : names ∉ t.below loc) (e : Entry) : (t.set l e).below loc = t.below loc ++ [names] := by
  have hentries : ∀ entries : List (Location × Entry),
      names ∉ entries.filterMap (fun entry => loc.below? entry.1) →
      (setIn l e entries).filterMap (fun entry => loc.below? entry.1) =
        entries.filterMap (fun entry => loc.below? entry.1) ++ [names] := by
    intro entries hnew
    induction entries with
    | nil => simp [setIn, h]
    | cons first entries ih =>
      rw [setIn]
      split
      next hfirst =>
        refine absurd (List.mem_filterMap.2 ⟨first, List.mem_cons_self, ?_⟩) hnew
        rw [hfirst, h]
      next =>
        have hrest : names ∉ entries.filterMap fun entry => loc.below? entry.1 := by
          intro hmem
          obtain ⟨entry, hentry, heq⟩ := List.mem_filterMap.1 hmem
          exact hnew (List.mem_filterMap.2 ⟨entry, List.mem_cons_of_mem _ hentry, heq⟩)
        rw [List.filterMap_cons, List.filterMap_cons, ih hrest]
        cases loc.below? first.1 <;> rfl
  exact hentries t.entries hnew

end

end FileTree

end TypeDesc
