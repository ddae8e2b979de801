/-
What a build that succeeds leaves behind. The text of a source goes to the place
that its names have below the directory of the output, with another ending. All
sources keep their own places but two: a name that is only an ending has none to
replace, so that `.tyd` and `.tyd.tyd` in one directory both go to `.tyd.re`
(`withEnding_inj`). Without such a pair each place holds the text of its own
source; everything else stays as it was in any case (`build_keeps_outputs_iff`).
-/
import TypeDesc.Proofs.RejectedBuild
import TypeDesc.Proofs.TreeWriting

namespace TypeDesc

/-! ## Names -/

namespace Path

theorem endsWith_source {name : String} (h : FileTree.endsWith Project.sourceEnding name = true) :
    ∃ stem : List Char, name.toList = stem ++ ['.', 't', 'y', 'd'] := by
  have hprefix : ['d', 'y', 't', '.'] <+: name.toList.reverse := List.isPrefixOf_iff_prefix.1 h
  obtain ⟨rest, hrest⟩ := hprefix
  refine ⟨rest.reverse, ?_⟩
  rw [← List.reverse_reverse name.toList, ← hrest]
  simp

/-- The ending of a source is replaced, unless there is nothing before it. -/
theorem withEnding_source {name : String} {stem : List Char}
    (h : name.toList = stem ++ ['.', 't', 'y', 'd']) :
    (withEnding name Project.outputEnding).toList =
      (if stem = [] then ['.', 't', 'y', 'd'] else stem) ++ ['.', 'r', 'e'] := by
  have hending : ending name = if stem = [] then "" else ".tyd" := by
    rw [ending, h]
    simp
  have hlength : name.length = stem.length + 4 := by
    rw [← String.length_toList, h]
    simp
  rw [withEnding, hending, hlength, h, String.toList_append, String.toList_ofList]
  by_cases hs : stem = []
  · subst hs
    rfl
  · simp only [if_neg hs]
    rw [show stem.length + 4 - ".tyd".length = stem.length from Nat.add_sub_cancel ..,
      List.take_left]
    rfl

/-- **Which sources go to the same place**: besides equal ones, one that is only an ending and the
one with that ending twice. -/
theorem withEnding_inj {a b : String} (ha : FileTree.endsWith Project.sourceEnding a = true)
    (hb : FileTree.endsWith Project.sourceEnding b = true)
    (h : withEnding a Project.outputEnding = withEnding b Project.outputEnding) :
    a = b ∨ (a = ".tyd" ∧ b = ".tyd.tyd") ∨ (a = ".tyd.tyd" ∧ b = ".tyd") := by
  obtain ⟨s, hs⟩ := endsWith_source ha
  obtain ⟨u, hu⟩ := endsWith_source hb
  have heq := congrArg String.toList h
  rw [withEnding_source hs, withEnding_source hu] at heq
  have hstem := List.append_cancel_right heq
  have hname : ∀ {x y : String}, x.toList = y.toList → x = y := String.toList_inj.1
  by_cases hs' : s = []
  · by_cases hu' : u = []
    · exact .inl (hname (by rw [hs, hu, hs', hu']))
    · rw [if_pos hs', if_neg hu'] at hstem
      exact .inr (.inl ⟨hname (by rw [hs, hs']; rfl), hname (by rw [hu, ← hstem]; rfl)⟩)
  · by_cases hu' : u = []
    · rw [if_neg hs', if_pos hu'] at hstem
      exact .inr (.inr ⟨hname (by rw [hs, hstem]; rfl), hname (by rw [hu, hu']; rfl)⟩)
    · rw [if_neg hs', if_neg hu'] at hstem
      exact .inl (hname (by rw [hs, hu, hstem]))

end Path

/-! ## Sources and their places -/

/-- No entry of the tree has the name that leads to the directory above. -/
def FileTree.Proper (t : FileTree) : Prop :=
  ∀ entry ∈ t.entries, ".." ∉ entry.1

theorem Location.advance_append (here : Location) (names names' : List String) :
    advance here (names ++ names') = advance (advance here names) names' := by
  induction names generalizing here with
  | nil => rfl
  | cons name names ih => exact ih _

theorem Location.eq_of_below? {dir loc names : Location} (h : dir.below? loc = some names) :
    loc = dir ++ names := by
  induction dir generalizing loc with
  | nil => cases loc <;> cases h; rfl
  | cons a dir ih =>
    cases loc with
    | nil => cases h
    | cons b loc =>
      rw [below?] at h
      split at h
      next hab => rw [ih h, hab, List.cons_append]
      next => cases h

namespace Project

variable {p : Project} {t : FileTree}

/-- Where a project has its sources. -/
def root (p : Project) (t : FileTree) : Path :=
  sourceDir t [] ⟨true, p.dir⟩

/-- Where the text of a source goes when the directory of the output is `out`. -/
def outputOf (p : Project) (t : FileTree) (out : String) (source : Path) : Path :=
  target ⟨true, p.dir⟩ (.ofText out) (p.root t) source

/-- A source stands below the directory of the sources, and its name has the ending of sources. -/
theorem mem_found (ht : t.Proper) {source : Path} (h : source ∈ p.found t) :
    ∃ above name, source = ⟨(p.root t).absolute, (p.root t).names ++ (above ++ [name])⟩ ∧
      FileTree.endsWith sourceEnding name = true ∧ ".." ∉ above := by
  unfold found sources FileTree.search at h
  split at h
  next => cases h
  next loc hloc =>
    obtain ⟨names, hm, rfl⟩ := List.mem_map.1 h
    obtain ⟨hbelow, hending⟩ := List.mem_filter.1 (Location.mem_sort.1 hm)
    obtain ⟨entry, hentry, hnames⟩ := List.mem_filterMap.1 hbelow
    have hup : ".." ∉ names := by
      intro hmem
      refine ht entry hentry ?_
      rw [Location.eq_of_below? hnames]
      exact List.mem_append_right _ hmem
    rcases List.eq_nil_or_concat names with rfl | ⟨above, name, rfl⟩
    · cases hending
    · rw [List.concat_eq_append] at hending hup ⊢
      exact ⟨above, name, rfl, by simpa [FileTree.hasEnding] using hending,
        fun hmem => hup (List.mem_append_left _ hmem)⟩

/-- A text goes to the same names below the directory of the output, with another ending. -/
theorem outputOf_eq (out : String) (above : List String) (name : String) :
    p.outputOf t out ⟨(p.root t).absolute, (p.root t).names ++ (above ++ [name])⟩ =
      ⟨((⟨true, p.dir⟩ : Path).join (.ofText out)).absolute,
        ((⟨true, p.dir⟩ : Path).join (.ofText out)).names ++
          (above ++ [Path.withEnding name outputEnding])⟩ := by
  simp [outputOf, target, Path.join, Path.replaceEnding]

theorem withEnding_ne_up {name : String} (h : FileTree.endsWith sourceEnding name = true) :
    Path.withEnding name outputEnding ≠ ".." := by
  obtain ⟨stem, hstem⟩ := Path.endsWith_source h
  intro hup
  have htext := Path.withEnding_source hstem
  rw [hup] at htext
  have hlength := congrArg List.length htext
  rw [List.length_append] at hlength
  have hshort : "..".toList.length = 2 := rfl
  simp only [hshort, List.length_cons, List.length_nil] at hlength
  omega

theorem locationOf_outputOf {above : List String} {name : String}
    (hname : FileTree.endsWith sourceEnding name = true) (hup : ".." ∉ above) (out : String) :
    locationOf (p.outputOf t out ⟨(p.root t).absolute, (p.root t).names ++ (above ++ [name])⟩) =
      locationOf ((⟨true, p.dir⟩ : Path).join (.ofText out)) ++
        (above ++ [Path.withEnding name outputEnding]) := by
  have hplain : ".." ∉ above ++ [Path.withEnding name outputEnding] := by
    simpa [hup] using (withEnding_ne_up hname).symm
  rw [outputOf_eq, locationOf, Location.advance_append, Location.advance_of_notMem hplain]
  rfl

/-- Two sources in one directory of which one is only an ending, and the other that ending twice. -/
def Collide (a b : Path) : Prop :=
  ∃ dir : Path, (a = dir.child ".tyd" ∧ b = dir.child ".tyd.tyd") ∨
    (a = dir.child ".tyd.tyd" ∧ b = dir.child ".tyd")

/-- **Sources go to different files**, unless they collide. -/
theorem eq_or_collide (ht : t.Proper) {a b : Path} (ha : a ∈ p.found t) (hb : b ∈ p.found t)
    {out : String} (h : locationOf (p.outputOf t out a) = locationOf (p.outputOf t out b)) :
    a = b ∨ Collide a b := by
  obtain ⟨above, x, hxa, hx, hup⟩ := mem_found ht ha
  obtain ⟨above', y, hyb, hy, hup'⟩ := mem_found ht hb
  rw [hxa, hyb, locationOf_outputOf hx hup, locationOf_outputOf hy hup'] at h
  obtain ⟨habove, hlast⟩ := List.append_inj' (List.append_cancel_left h)
    (by simp only [List.length_singleton])
  have hchild : ∀ name, (⟨(p.root t).absolute, (p.root t).names ++ (above' ++ [name])⟩ : Path) =
      Path.child ⟨(p.root t).absolute, (p.root t).names ++ above'⟩ name := by
    intro name
    rw [Path.child, List.append_assoc]
  rw [hxa, hyb, habove, hchild x, hchild y]
  rcases Path.withEnding_inj hx hy (List.cons.inj hlast).1 with heq | ⟨hxe, hye⟩ | ⟨hxe, hye⟩
  · exact .inl (by rw [heq])
  · exact .inr ⟨_, .inl ⟨by rw [hxe], by rw [hye]⟩⟩
  · exact .inr ⟨_, .inr ⟨by rw [hxe], by rw [hye]⟩⟩

/-- Sources that collide go to the same place. -/
theorem outputOf_collide (ht : t.Proper) {dir : Path} (h : dir.child ".tyd" ∈ p.found t)
    (out : String) :
    p.outputOf t out (dir.child ".tyd") = p.outputOf t out (dir.child ".tyd.tyd") := by
  obtain ⟨above, name, heq, -⟩ := mem_found ht h
  obtain ⟨habsolute, hnames⟩ := Path.mk.inj heq
  rw [← List.append_assoc] at hnames
  obtain ⟨hdir, -⟩ := List.append_inj' hnames rfl
  have hchild : ∀ name, dir.child name =
      ⟨(p.root t).absolute, (p.root t).names ++ (above ++ [name])⟩ := by
    intro name
    rw [Path.child, habsolute, hdir, List.append_assoc]
  have hending : Path.withEnding ".tyd" outputEnding = Path.withEnding ".tyd.tyd" outputEnding := by
    decide +kernel
  rw [hchild, hchild, outputOf_eq, outputOf_eq, hending]

end Project

/-! ## Compiling -/

theorem Description.error_of_reasonModule {d : Description} {top : Option String} {report : Report}
    (h : d.reasonModule top = .error (.rejected report)) : report.isError = true := by
  rw [reasonModule] at h
  cases hdecls : d.declarations with
  | error e => rw [hdecls] at h; cases h
  | ok decls =>
    rw [hdecls, mapError_ok, ok_bind] at h
    cases top with
    | none => cases h
    | some top =>
      dsimp only at h
      split at h
      next => cases h
      next =>
        split at h
        next => cases h; rfl
        next => cases hlast : d.topDecl top <;> rw [hlast] at h <;> cases h

/-- A source that is rejected is rejected for an error. -/
theorem OutputSettings.error_of_rejected {s : OutputSettings} {file source : String}
    {reports : List Report} (h : s.compile file source = .error (.rejected reports)) :
    ∃ report ∈ reports, report.isError = true := by
  rcases ofSource_outcome file source with ⟨d, warnings, hread, -⟩ | ⟨reports', hread, hex⟩
  · rw [compile, hread, mapError_ok, ok_bind] at h
    dsimp only at h
    cases htop : s.top? with
    | error m => rw [htop] at h; cases h
    | ok top =>
      rw [htop, mapError_ok, ok_bind] at h
      rcases hmod : d.reasonModule top with (report | fault) | decls
      · rw [hmod] at h
        cases h
        exact ⟨report, by simp, Description.error_of_reasonModule hmod⟩
      · rw [hmod] at h
        cases h
      -- with a module, only the width of lines and the printing are left, and neither rejects
      · rw [hmod, mapError_ok, ok_bind] at h
        cases hwidth : s.width (decls.any (·.usesWidth)) with
        | error m => rw [hwidth] at h; cases h
        | ok width =>
          rw [hwidth, mapError_ok, ok_bind] at h
          cases hprint : Reason.printModule width decls <;> rw [hprint] at h <;> cases h
  · rw [compile_of_rejected hread] at h
    cases h
    exact hex

namespace Project

variable {p : Project} {t t' : FileTree}

/-- The source can be read, and the text is what it compiles to. -/
def Compiles (p : Project) (t : FileTree) (source : Path) (text : String) : Prop :=
  ∃ content warnings, t.read [] source = .ok content ∧
    p.settings.output.compile source.text content = .ok (text, warnings)

theorem Compiles.unique {source : Path} {text text' : String} (h : p.Compiles t source text)
    (h' : p.Compiles t source text') : text = text' := by
  obtain ⟨content, warnings, hread, hc⟩ := h
  obtain ⟨content', warnings', hread', hc'⟩ := h'
  obtain rfl := Except.ok.inj (hread.symm.trans hread')
  exact congrArg Prod.fst (Except.ok.inj (hc.symm.trans hc'))

/-- **Without an error among the reports, every source has been compiled**, and its text goes to
its place. -/
theorem compileAll_eq_ok {dir root : Path} {sources : List Path} {compiled : Compiled}
    (h : compileAll t p.settings.output dir root sources = .ok compiled)
    (hno : compiled.reports.any (·.isError) = false) :
    List.Forall₂ (fun source x => p.Compiles t source x.2 ∧
      ∃ out, p.settings.output.directory = .ok out ∧ x.1 = target dir (.ofText out) root source)
      sources compiled.texts := by
  induction sources generalizing compiled with
  | nil =>
    cases h
    exact .nil
  | cons source sources ih =>
    simp only [compileAll, bind_eq_ok, mapError_eq_ok] at h
    obtain ⟨content, hread, h⟩ := h
    rcases hc : p.settings.output.compile source.text content with (reports | failure) | ⟨text, warnings⟩
    · simp only [hc, bind_eq_ok, Except.ok.injEq] at h
      obtain ⟨rest, -, rfl⟩ := h
      obtain ⟨report, hm, herror⟩ := OutputSettings.error_of_rejected hc
      have hany : (reports ++ rest.reports).any (·.isError) = true :=
        List.any_eq_true.2 ⟨report, List.mem_append_left _ hm, herror⟩
      cases hany.symm.trans hno
    · simp only [hc] at h
      cases h
    · simp only [hc, bind_eq_ok, mapError_eq_ok, Except.ok.injEq] at h
      obtain ⟨out, hout, rest, hrest, rfl⟩ := h
      have hno' : rest.reports.any (·.isError) = false := by
        rw [List.any_append, Bool.or_eq_false_iff] at hno
        exact hno.2
      exact .cons ⟨⟨content, warnings, hread, hc⟩, out, hout, rfl⟩ (ih hrest hno')

/-- What a build that succeeds has done. -/
theorem build_eq_built {outputs : List Path} {reports : List Report}
    (h : p.build t = (t', .ok (.built outputs reports))) :
    ∃ out texts, p.settings.output.directory = .ok out ∧ outputs = texts.map (·.1) ∧
      List.Forall₂ (fun source x => p.Compiles t source x.2 ∧ x.1 = p.outputOf t out source)
        (p.found t) texts ∧ writeAll t texts = (t', .ok ()) := by
  by_cases hne : p.found t = []
  · rw [build_of_none hne] at h
    cases congrArg Prod.snd h
  rw [build_eq hne] at h
  cases hcompiled : p.compiled? t with
  | error failure =>
    rw [hcompiled] at h
    cases congrArg Prod.snd h
  | ok compiled =>
    rw [hcompiled, finish] at h
    split at h
    next => cases congrArg Prod.snd h
    next hno =>
      have hall := compileAll_eq_ok hcompiled (by simpa using hno)
      split at h
      next => cases congrArg Prod.snd h
      next written hwrite =>
        obtain rfl : written = t' := congrArg Prod.fst h
        have hresult := congrArg Prod.snd h
        cases hresult
        cases hout : p.settings.output.directory with
        | error m =>
          obtain ⟨source, hm⟩ := List.exists_mem_of_ne_nil _ hne
          obtain ⟨x, -, -, out, hout', -⟩ := forall₂_mem hall hm
          cases hout.symm.trans hout'
        | ok out =>
          refine ⟨out, compiled.texts, rfl, rfl, hall.imp fun source x hx => ⟨hx.1, ?_⟩, hwrite⟩
          obtain ⟨-, out', hout', hplace⟩ := hx
          obtain rfl := Except.ok.inj (hout.symm.trans hout')
          exact hplace

end Project

/-- **A build keeps all outputs unless two sources collide.** When a build succeeds, every source
has been read and compiled, and its text has a place. The places of different sources differ, and
each holds exactly the text of its own source afterwards, if and only if no directory has both
a source whose name is only the ending and one whose name is that ending twice. In any case nothing
changes at other locations, but that directories may have been added where nothing was. -/
theorem build_keeps_outputs_iff {p : Project} {t t' : FileTree} {outputs : List Path}
    {reports : List Report} (ht : t.Proper)
    (h : p.build t = (t', .ok (.built outputs reports))) :
    ∃ out, p.settings.output.directory = .ok out ∧
      outputs = (p.found t).map (p.outputOf t out) ∧
      (∀ source ∈ p.found t, ∃ text, p.Compiles t source text) ∧
      ((∀ dir : Path, ¬ (dir.child ".tyd" ∈ p.found t ∧ dir.child ".tyd.tyd" ∈ p.found t)) ↔
        (∀ a ∈ p.found t, ∀ b ∈ p.found t, p.outputOf t out a = p.outputOf t out b → a = b) ∧
          ∀ source ∈ p.found t, ∀ text, p.Compiles t source text →
            t'.readStored [] (p.outputOf t out source) = .ok text) ∧
      ∀ loc, (∀ output ∈ outputs, t'.locate [] output ≠ .ok loc) →
        t'.get? loc = t.get? loc ∨ t.get? loc = none ∧ t'.get? loc = some .directory := by
  obtain ⟨out, texts, hout, rfl, hall, hwrite⟩ := Project.build_eq_built h
  obtain ⟨hgrows, hlocate⟩ := Project.writeAll_grows hwrite
  refine ⟨out, hout, ?_, fun source hm => ?_, ⟨fun hno => ?_, ?_⟩, fun loc hloc => ?_⟩
  · have hplaces : List.Forall₂ (· = ·) (texts.map (·.1)) ((p.found t).map (p.outputOf t out)) := by
      rw [List.forall₂_map_left_iff, List.forall₂_map_right_iff]
      exact hall.flip.imp fun x source hx => hx.2
    exact List.forall₂_eq_eq_eq ▸ hplaces
  · obtain ⟨x, -, hx, -⟩ := forall₂_mem hall hm
    exact ⟨x.2, hx⟩
  -- without a collision, sources whose texts go to the same file are the same source
  · have hinj : ∀ a ∈ p.found t, ∀ b ∈ p.found t,
        Project.locationOf (p.outputOf t out a) = Project.locationOf (p.outputOf t out b) →
        a = b := by
      intro a ha b hb heq
      refine (Project.eq_or_collide ht ha hb heq).resolve_right ?_
      rintro ⟨dir, ⟨rfl, rfl⟩ | ⟨rfl, rfl⟩⟩
      · exact hno dir ⟨ha, hb⟩
      · exact hno dir ⟨hb, ha⟩
    refine ⟨fun a ha b hb heq => hinj a ha b hb (congrArg _ heq), fun source hm text hc => ?_⟩
    have hholds := Project.writeAll_holds hwrite fun x hx y hy heq => by
      obtain ⟨a, ha, hca, hxa⟩ := forall₂_mem hall.flip hx
      obtain ⟨b, hb, hcb, hyb⟩ := forall₂_mem hall.flip hy
      rw [hxa, hyb] at heq
      obtain rfl := hinj a ha b hb heq
      exact hca.unique hcb
    obtain ⟨x, hx, hcx, hplace⟩ := forall₂_mem hall hm
    rw [FileTree.readStored_eq, ← hplace, hlocate x hx, ok_bind, hholds x hx, hcx.unique hc]
    rfl
  · rintro ⟨hinj, -⟩ dir ⟨ha, hb⟩
    have heq := hinj _ ha _ hb (Project.outputOf_collide ht ha out)
    have hnames := congrArg Path.names heq
    simp [Path.child] at hnames
  · refine hgrows.others fun hm => ?_
    obtain ⟨x, hx, rfl⟩ := List.mem_map.1 hm
    exact hloc x.1 (List.mem_map_of_mem hx) (hlocate x hx)

/-- A name that is only an ending, and one with two dots in a directory of its own, when the output
goes to a directory beside the project. -/
theorem build_keeps_outputs_beside :
    let p : Project := ⟨["p"], { output := { outDir := .text "../out" } }⟩
    let t : FileTree := ⟨[(["p"], .directory), (["p", ".tyd"], .file (.text "unit")),
      (["p", "d"], .directory), (["p", "d", "x.y.tyd"], .file (.text "void"))]⟩
    t.Proper ∧ ∃ t' outputs, p.build t = (t', .ok (.built outputs [])) ∧
      outputs = (p.found t).map (p.outputOf t "../out") ∧
      (∀ dir : Path, ¬ (dir.child ".tyd" ∈ p.found t ∧ dir.child ".tyd.tyd" ∈ p.found t)) ∧
      (∀ a ∈ p.found t, ∀ b ∈ p.found t,
        p.outputOf t "../out" a = p.outputOf t "../out" b → a = b) ∧
      ∀ source ∈ p.found t, ∀ text, p.Compiles t source text →
        t'.readStored [] (p.outputOf t "../out" source) = .ok text := by
  intro p t
  have ht : t.Proper := by simp [FileTree.Proper, t]
  have hbuilt : (p.build t).2 = .ok (.built [⟨true, ["p", "..", "out", ".tyd.re"]⟩,
      ⟨true, ["p", "..", "out", "d", "x.y.re"]⟩] []) := by
    dsimp only [p, t]
    rfl
  have hfound : p.found t = [⟨true, ["p", ".tyd"]⟩, ⟨true, ["p", "d", "x.y.tyd"]⟩] := by
    decide +kernel
  have hno : ∀ dir : Path,
      ¬ (dir.child ".tyd" ∈ p.found t ∧ dir.child ".tyd.tyd" ∈ p.found t) := by
    rintro dir ⟨-, htwice⟩
    have hlast : ∀ source ∈ p.found t, source.names.getLast? ≠ some ".tyd.tyd" := by
      rw [hfound]
      decide
    exact hlast _ htwice (by simp [Path.child])
  obtain ⟨out, hout, houtputs, -, hiff, -⟩ :=
    build_keeps_outputs_iff ht ((Prod.eta _).symm.trans (congrArg _ hbuilt))
  obtain rfl : "../out" = out := Except.ok.inj hout
  exact ⟨ht, _, _, (Prod.eta _).symm.trans (congrArg _ hbuilt), houtputs, hno, hiff.1 hno⟩

/-- **Two sources may share a place**, and then only the text of one of them is left. -/
theorem build_loses_output :
    let p : Project := ⟨["p"], {}⟩
    let t : FileTree := ⟨[(["p"], .directory), (["p", ".tyd"], .file (.text "unit")),
      (["p", ".tyd.tyd"], .file (.text "void"))]⟩
    let place : Path := ⟨true, ["p", "build", ".tyd.re"]⟩
    t.Proper ∧ p.found t = [⟨true, ["p", ".tyd"]⟩, ⟨true, ["p", ".tyd.tyd"]⟩] ∧
      (p.build t).2 = .ok (.built [place, place] []) ∧
      p.Compiles t ⟨true, ["p", ".tyd"]⟩ "type t = unit;\n" ∧
      (p.build t).1.readStored [] place = .ok "type void;\n\ntype t = void;\n" := by
  refine ⟨by simp [FileTree.Proper], by decide +kernel, by rfl, ?_, by decide +kernel⟩
  exact ⟨"unit", [], by decide +kernel, by rfl⟩

end TypeDesc
