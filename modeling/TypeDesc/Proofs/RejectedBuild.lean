/-
A build that cannot be finished changes nothing. All sources are compiled before
anything is written, and a text is written only when no report is an error
(`Project.build`). So it is enough that every source that is rejected brings an
error into the reports, wherever it stands among the others, and that reading
goes through all sources or stops (`compileAll_readable`,
`compileAll_unreadable`).
-/
import Mathlib.Data.String.Basic
import TypeDesc.Project.Build
import TypeDesc.Proofs.SourceOutcome

namespace TypeDesc

/-! ## The order of sources -/

namespace Location

theorem le_total (a b : Location) : le a b = true ∨ le b a = true := by
  induction a generalizing b with
  | nil => exact .inl rfl
  | cons x a ih =>
    cases b with
    | nil => exact .inr rfl
    | cons y b =>
      by_cases hxy : x = y
      · subst hxy
        simpa [le] using ih b
      · rcases lt_or_gt_of_ne hxy with h | h
        · exact .inl (by simp [le, hxy, h])
        · exact .inr (by simp [le, Ne.symm hxy, h])

theorem le_trans {a b c : Location} (hab : le a b = true) (hbc : le b c = true) : le a c = true := by
  induction a generalizing b c with
  | nil => rfl
  | cons x a ih =>
    cases b with
    | nil => simp [le] at hab
    | cons y b =>
      cases c with
      | nil => simp [le] at hbc
      | cons z c =>
        simp only [le] at hab hbc ⊢
        by_cases hxy : x = y
        · subst hxy
          rw [if_pos rfl] at hab
          by_cases hxz : x = z
          · subst hxz
            rw [if_pos rfl] at hbc ⊢
            exact ih hab hbc
          · rwa [if_neg hxz] at hbc ⊢
        · rw [if_neg hxy, decide_eq_true_eq] at hab
          have hxz : x < z := by
            by_cases hyz : y = z
            · exact hyz ▸ hab
            · rw [if_neg hyz, decide_eq_true_eq] at hbc
              exact lt_trans hab hbc
          rw [if_neg hxz.ne, decide_eq_true_eq]
          exact hxz

theorem le_append (dir a b : Location) : le (dir ++ a) (dir ++ b) = le a b := by
  induction dir with
  | nil => rfl
  | cons x dir ih => simpa [le] using ih

theorem insert_ordered (loc : Location) {locs : List Location}
    (h : locs.Pairwise fun a b => le a b = true) :
    (insert loc locs).Pairwise fun a b => le a b = true := by
  induction locs with
  | nil => simp [insert]
  | cons l locs ih =>
    rw [List.pairwise_cons] at h
    rw [insert]
    split
    next hle =>
      refine List.pairwise_cons.2 ⟨?_, List.pairwise_cons.2 h⟩
      refine List.forall_mem_cons.2 ⟨hle, fun b hb => le_trans hle (h.1 b hb)⟩
    next hle =>
      refine List.pairwise_cons.2 ⟨fun b hb => ?_, ih h.2⟩
      rcases mem_insert.1 hb with rfl | hb
      · exact (le_total _ _).resolve_left hle
      · exact h.1 b hb

theorem sort_ordered (locs : List Location) : (sort locs).Pairwise fun a b => le a b = true := by
  induction locs with
  | nil => exact .nil
  | cons loc locs ih => exact insert_ordered loc ih

end Location

/-- Entries are found in the order of their names. -/
theorem FileTree.search_ordered (t : FileTree) (here : Location) (ending : String) (dir : Path) :
    (t.search here ending dir).Pairwise fun a b => Location.le a.names b.names = true := by
  rw [FileTree.search]
  split
  next => exact .nil
  next loc hloc =>
    rw [List.pairwise_map]
    refine (Location.sort_ordered _).imp fun {a b} hab => ?_
    show Location.le (dir.names ++ a) (dir.names ++ b) = true
    rwa [Location.le_append]

/-! ## Compiling all sources -/

namespace Project

theorem found_ordered (p : Project) (t : FileTree) :
    (p.found t).Pairwise fun a b => Location.le a.names b.names = true := by
  unfold found sources
  exact t.search_ordered [] sourceEnding _

/-- What a source holds can be read as text. -/
def Readable (t : FileTree) (source : Path) : Prop :=
  ∃ content, t.read [] source = .ok content

/-- The source can be read, but not compiled. -/
def Rejects (p : Project) (t : FileTree) (source : Path) : Prop :=
  ∃ content reports, t.read [] source = .ok content ∧
    p.settings.output.compile source.text content = .error (.rejected reports)

/-- What is reported about a source: the reports that reject it, or the warnings about it. -/
def reportsAt (p : Project) (t : FileTree) (source : Path) : List Report :=
  match t.read [] source with
  | .error _ => []
  | .ok content =>
    match p.settings.output.compile source.text content with
    | .ok (_, warnings) => warnings
    | .error (.rejected reports) => reports
    | .error (.failed _) => []

variable {p : Project} {t : FileTree}

section

variable {source : Path} {content : String} (hread : t.read [] source = .ok content)
include hread

theorem reportsAt_compiled {text : String} {warnings : List Report}
    (h : p.settings.output.compile source.text content = .ok (text, warnings)) :
    p.reportsAt t source = warnings := by
  rw [reportsAt, hread]
  simp only [h]

theorem reportsAt_rejected {reports : List Report}
    (h : p.settings.output.compile source.text content = .error (.rejected reports)) :
    p.reportsAt t source = reports := by
  rw [reportsAt, hread]
  simp only [h]

end

section

variable (hs : p.settings.Typed) (dir srcDir : Path)
include hs

/-- Sources that can all be read are all compiled, and all that is reported is kept. -/
theorem compileAll_readable {sources : List Path} (h : ∀ source ∈ sources, Readable t source) :
    ∃ texts, compileAll t p.settings.output dir srcDir sources =
      .ok ⟨sources.flatMap (p.reportsAt t), texts⟩ := by
  obtain ⟨out, hout⟩ := hs.outDir
  have hdirectory : p.settings.output.directory = .ok out := by
    rw [OutputSettings.directory, hout]
    rfl
  induction sources with
  | nil => exact ⟨[], rfl⟩
  | cons source sources ih =>
    rw [List.forall_mem_cons] at h
    obtain ⟨content, hread⟩ := h.1
    obtain ⟨texts, hrest⟩ := ih h.2
    rcases hs.compile_cases source.text content with ⟨text, warnings, hc, -⟩ | ⟨reports, hc, -⟩
    · have hat := reportsAt_compiled hread hc
      refine ⟨(target dir (.ofText out) srcDir source, text) :: texts, ?_⟩
      simp only [compileAll, hread, hc, hdirectory, hrest, mapError_ok, ok_bind, List.flatMap_cons, hat]
    · have hat := reportsAt_rejected hread hc
      refine ⟨texts, ?_⟩
      simp only [compileAll, hread, hc, hrest, mapError_ok, ok_bind, List.flatMap_cons, hat]

/-- The first source that cannot be read ends the work. -/
theorem compileAll_unreadable {sources : List Path} {source : Path} (hm : source ∈ sources)
    (h : ¬ Readable t source) :
    ∃ e, compileAll t p.settings.output dir srcDir sources = .error (.file e) := by
  induction sources with
  | nil => simp at hm
  | cons first sources ih =>
    cases hread : t.read [] first with
    | error e => exact ⟨e, by simp only [compileAll, hread, mapError_error, error_bind]⟩
    | ok content =>
      have hm' : source ∈ sources := by
        rcases List.mem_cons.1 hm with heq | hm
        · exact absurd ⟨content, heq ▸ hread⟩ h
        · exact hm
      obtain ⟨e, hrest⟩ := ih hm'
      obtain ⟨out, hout⟩ := hs.outDir
      have hdirectory : p.settings.output.directory = .ok out := by
        rw [OutputSettings.directory, hout]
        rfl
      refine ⟨e, ?_⟩
      rcases hs.compile_cases first.text content with ⟨text, warnings, hc, -⟩ | ⟨reports, hc, -⟩
      · simp only [compileAll, hread, hc, hdirectory, hrest, mapError_ok, ok_bind, error_bind]
      · simp only [compileAll, hread, hc, hrest, mapError_ok, ok_bind, error_bind]

end

theorem finish_of_error {reports : List Report} (h : reports.any (·.isError) = true)
    (texts : List (Path × String)) : finish t (.ok ⟨reports, texts⟩) = (t, .ok (.rejected reports)) := by
  rw [finish, if_pos h]

-- what is found is generalized first: unfolding it would search the tree
theorem build_of_none (hnone : p.found t = []) : p.build t = (t, .ok .noSources) := by
  unfold build
  generalize p.found t = found at hnone ⊢
  subst hnone
  rfl

theorem build_eq (hne : p.found t ≠ []) : p.build t = finish t (p.compiled? t) := by
  unfold build
  generalize p.found t = found at hne ⊢
  cases found with
  | nil => exact absurd rfl hne
  | cons source sources => rfl

end Project

/-- **A build that fails writes nothing.** If one of the sources of a project, wherever it stands
among the others, cannot be read or is rejected, the build leaves every file and directory as it
is. If all sources can be read, the build is rejected, with all that is reported about each source,
in the order of their names. -/
theorem failed_build_writes_nothing (p : Project) (t : FileTree) (hs : p.settings.Typed)
    (source : Path) (hm : source ∈ p.found t)
    (hfail : ¬ Project.Readable t source ∨ p.Rejects t source) :
    (p.build t).1 = t ∧
      (p.found t).Pairwise (fun a b => Location.le a.names b.names = true) ∧
      ((∀ other ∈ p.found t, Project.Readable t other) →
        (p.build t).2 = .ok (.rejected ((p.found t).flatMap (p.reportsAt t)))) := by
  have hne : p.found t ≠ [] := List.ne_nil_of_mem hm
  rw [Project.build_eq hne]
  by_cases hall : ∀ other ∈ p.found t, Project.Readable t other
  · have hreject : p.Rejects t source := hfail.resolve_left fun hr => hr (hall source hm)
    obtain ⟨content, reports, hread, hcompile⟩ := hreject
    have hat := Project.reportsAt_rejected hread hcompile
    -- a source that is rejected brings an error into the reports
    have herror : ((p.found t).flatMap (p.reportsAt t)).any (·.isError) = true := by
      rcases hs.compile_cases source.text content with ⟨text, warnings, hc, -⟩ |
        ⟨reports', hc, report, hreport, herr⟩
      · rw [hcompile] at hc
        cases hc
      · rw [hcompile] at hc
        cases hc
        exact List.any_eq_true.2 ⟨report, List.mem_flatMap.2 ⟨source, hm, hat ▸ hreport⟩, herr⟩
    obtain ⟨texts, hcompiled⟩ := Project.compileAll_readable hs ⟨true, p.dir⟩
      (Project.sourceDir t [] ⟨true, p.dir⟩) hall
    rw [Project.compiled?, hcompiled, Project.finish_of_error herror]
    exact ⟨rfl, p.found_ordered t, fun _ => rfl⟩
  · obtain ⟨other, hother, hunreadable⟩ : ∃ other ∈ p.found t, ¬ Project.Readable t other := by
      simpa using hall
    obtain ⟨e, hcompiled⟩ := Project.compileAll_unreadable hs ⟨true, p.dir⟩
      (Project.sourceDir t [] ⟨true, p.dir⟩) hother hunreadable
    rw [Project.compiled?, hcompiled]
    exact ⟨rfl, p.found_ordered t, fun h => absurd h hall⟩

theorem failed_build_writes_nothing_between :
    let p : Project := ⟨["p"], {}⟩
    let t : FileTree := ⟨[(["p"], .directory), (["p", "a.tyd"], .file (.text "unit")),
      (["p", "b.tyd"], .file (.text "%")), (["p", "c.tyd"], .file (.text "params a\r\nunit"))]⟩
    (p.build t).1 = t ∧
      (p.build t).2 = .ok (.rejected ((p.found t).flatMap (p.reportsAt t))) := by
  intro p t
  have htyped : p.settings.Typed :=
    ⟨⟨_, rfl⟩, ⟨_, rfl⟩, ⟨_, rfl⟩, ⟨_, rfl⟩, ⟨_, rfl⟩, ⟨_, rfl⟩, ⟨_, rfl⟩⟩
  have hfound : p.found t =
      [⟨true, ["p", "a.tyd"]⟩, ⟨true, ["p", "b.tyd"]⟩, ⟨true, ["p", "c.tyd"]⟩] := by
    decide +kernel
  have hread : ∀ source ∈ p.found t, Project.Readable t source := by
    rw [hfound]
    simp only [List.forall_mem_cons]
    exact ⟨⟨"unit", by decide +kernel⟩, ⟨"%", by decide +kernel⟩,
      ⟨"params a\nunit", by decide +kernel⟩, by simp⟩
  have hreject : p.Rejects t ⟨true, ["p", "b.tyd"]⟩ :=
    ⟨"%", _, by decide +kernel, OutputSettings.compile_of_rejected (by cbv)⟩
  obtain ⟨hsame, -, hall⟩ := failed_build_writes_nothing p t htyped ⟨true, ["p", "b.tyd"]⟩
    (by simp [hfound]) (.inr hreject)
  exact ⟨hsame, hall hread⟩

end TypeDesc
