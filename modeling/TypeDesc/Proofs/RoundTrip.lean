/-
Reading inverts printing. The canonical text of a description that was read, at
any width, is read as the same description, places aside, with the same
warnings; so the canonical text is its own canonical text, and compiling it
gives what compiling the source gives (`canonical_text_reads_back`).
-/
import TypeDesc.Project.Failure
import TypeDesc.Proofs.Source
import TypeDesc.Proofs.Written

namespace TypeDesc

open Reading

/-! ## Parameters -/

theorem Notes.checkParam_eq {n : Notes} {earlier : List Word} {w : Word}
    (h : ∀ param ∈ earlier, typeIdent param.text ≠ typeIdent w.text) :
    n.checkParam earlier w = n := by
  have hnone : earlier.find? (fun param => typeIdent param.text == typeIdent w.text) = none := by
    simpa using h
  rw [Notes.checkParam, hnone]

/-- Names with commas between them are read behind the parameters `ws`, to which a name can be
added once the tokens `before` have been read. -/
theorem ReadsParams.of_joined {names : List String} {ws : List Word} {before ts : List Token}
    {n n' : Notes} (hne : names ≠ [])
    (hbefore : ∀ w : Token, w.kind = .identifier →
      (∀ param ∈ ws, typeIdent param.text ≠ typeIdent w.text) →
      ReadsParams (ws ++ [w.word]) {} (before ++ [w]))
    (hd : ((ws.map (·.text) ++ names).map typeIdent).Nodup)
    (h : joined Reading.name .comma names n ts n') :
    ∃ ws', ws'.map (·.text) = names ∧ ReadsParams (ws ++ ws') {} (before ++ ts) := by
  induction names generalizing ws before ts n with
  | nil => exact absurd rfl hne
  | cons name names ih =>
    have hfresh : ∀ param ∈ ws, typeIdent param.text ≠ typeIdent name := by
      intro param hm
      rw [List.map_append, List.nodup_append] at hd
      exact hd.2.2 _ (List.mem_map_of_mem (List.mem_map_of_mem hm)) _ (by simp)
    cases names with
    | nil =>
      obtain ⟨w, rfl, hw, rfl, -⟩ := h
      exact ⟨[w.word], rfl, hbefore w hw hfresh⟩
    | cons name' names =>
      obtain ⟨_, _, ts, rfl, ⟨_, _, _, rfl, ⟨w, rfl, hw, rfl, rfl⟩, c, rfl, hc, rfl⟩, h⟩ := h
      have hp := hbefore w hw hfresh
      have hnext : ∀ w' : Token, w'.kind = .identifier →
          (∀ param ∈ ws ++ [w.word], typeIdent param.text ≠ typeIdent w'.text) →
          ReadsParams (ws ++ [w.word] ++ [w'.word]) {} (before ++ [w, c] ++ [w']) := by
        intro w' hw' hf
        have hmore := ReadsParams.more hp (by simp) hc hw'
        rw [Notes.checkParam_eq (w := w'.word) hf] at hmore
        simpa using hmore
      obtain ⟨ws', hws', hr⟩ := ih (by simp) hnext (by simpa [Token.word] using hd) h
      exact ⟨w.word :: ws', by simp [hws', Token.word], by simpa using hr⟩

/-- The parameters of a description, which leave the notes as they are. -/
def Reading.params (names : List String) : Reading := fun n ts n' =>
  n' = n ∧ ∃ ws : List Word, ws.map (·.text) = names ∧ ReadsParams ws {} ts

theorem Reading.name_joined_eq {names : List String} {n n' : Notes} {ts : List Token}
    (h : joined Reading.name .comma names n ts n') : n' = n := by
  induction names generalizing n ts with
  | nil => exact h.2
  | cons name names ih =>
    cases names with
    | nil => exact h.choose_spec.2.2.2
    | cons name' names =>
      obtain ⟨_, _, _, -, ⟨_, _, _, -, ⟨_, -, -, -, rfl⟩, _, -, -, rfl⟩, h⟩ := h
      exact ih h

theorem Writes.params {names : List String} (hne : names ≠ []) (hn : ∀ name ∈ names, IsName name)
    (hd : (names.map typeIdent).Nodup) :
    Writes ("params " ++ Text.commaSeparated names) (.params names) := by
  have hnames : List.Forall₂ (fun name text => Writes text (.name name)) names names :=
    List.forall₂_same.2 fun name hm => .name (hn name hm)
  have hlist := Writes.joined (show Spells ", " [(.comma, ",")] by decide) (by decide) (by decide)
    hnames
  have hhead := Writes.token (show Spells "params " [(.paramsKeyword, "params")] by decide)
  refine (hhead.seq hlist (.inr (by decide))).imp ?_
  rintro n _ n' ⟨_, _, ts, rfl, ⟨k, rfl, hk, rfl⟩, h⟩
  have hfirst : ∀ w : Token, w.kind = .identifier →
      (∀ param ∈ ([] : List Word), typeIdent param.text ≠ typeIdent w.text) →
      ReadsParams ([] ++ [w.word]) {} ([k] ++ [w]) := fun w hw _ => .first hk hw
  obtain ⟨ws, hws, hr⟩ := ReadsParams.of_joined hne hfirst (by simpa using hd) h
  exact ⟨n', name_joined_eq h, ws, hws, hr⟩

/-! ## Descriptions -/

namespace Description.WellFormed

variable {d : Description} (hd : d.WellFormed) (width : Text.Width)
include hd

/-- The canonical text of a description writes its parameters and then its body. -/
theorem print_writes : ∃ text, d.print width = .ok text ∧
    Writes text ((Reading.params d.params).seq (d.body.reading d.params [] .sum)) := by
  obtain ⟨text, hp, hw⟩ := hd.body.written hd.params (List.nil_append _).symm width 0
  rw [List.nil_append] at hp
  refine ⟨_, by rw [Description.print, hp]; rfl, Writes.newline ?_⟩
  split
  next hnil =>
    rw [List.isEmpty_iff] at hnil
    refine hw.imp fun n ts n' hr => ⟨n', n, [], ts, rfl, ⟨rfl, [], hnil ▸ rfl, .none⟩, hr⟩
  next hne =>
    have hparams := (Writes.params (mt List.isEmpty_iff.2 hne) hd.params hd.paramsDistinct).newline
    refine hparams.seq hw (.inr ?_)
    rw [String.toList_append, startsApart_append _ (by decide)]
    decide

/-- **A well-formed description is what its canonical text is read as.** -/
theorem reads_back (file : String) : ∃ text d' w, d.print width = .ok text ∧
    Description.ofSource file text = .ok (d', w) ∧ d'.params = d.params ∧ d'.body = d.body := by
  obtain ⟨text, hp, shapes, hs, hr⟩ := hd.print_writes width
  obtain ⟨tokens, hscan, hshapes⟩ := scan_of_seen file hs.seen
  obtain ⟨ts, last, rfl, hts, hlast⟩ := List.map_eq_append_iff.1 hshapes
  obtain ⟨t, rfl, ht⟩ := List.map_eq_singleton_iff.1 hlast
  obtain ⟨n, n₀, ts₁, ts₂, rfl, ⟨rfl, ws, hws, hparams⟩, hbody, hgist⟩ := hr ts hts {}
  rw [← hws] at hbody
  have hg : n.gist = d.gist := hgist
  have hf : (n.allReports ws).map (·.finding) = d.findings := by
    rw [Notes.allReports_finding, hg, hws]
    rfl
  have herr : ∀ report ∈ n.allReports ws, report.isError = false := by
    intro report hm
    have hfinding := hd.findings report.finding (hf ▸ List.mem_map_of_mem hm)
    simpa [Report.isError] using hfinding
  obtain ⟨d', hread, hparams', hbody', -⟩ :=
    ofTokens_of_reads file hparams hbody (congrArg Prod.fst ht) herr
  have hsource : Description.ofSource file text = .ok (d', n.allReports ws) := by
    rw [Description.ofSource, hscan]
    exact hread
  exact ⟨text, d', n.allReports ws, hp, hsource, hparams'.trans hws, hbody'⟩

end Description.WellFormed

/-! ## Places aside -/

/-- A report without its place. -/
def Report.unplaced (r : Report) : Report :=
  { r with span := none }

/-- An error of emission without places. -/
def EmitError.unplaced : EmitError → EmitError
  | .rejected report => .rejected report.unplaced
  | .fault f => .fault f

/-- An error of compiling a source without places. -/
def CompileError.unplaced : CompileError → CompileError
  | .rejected reports => .rejected (reports.map (·.unplaced))
  | e => e

/-- An error of compiling a source of a project without places. -/
def SourceError.unplaced : SourceError → SourceError
  | .rejected reports => .rejected (reports.map (·.unplaced))
  | e => e

/-- A text and its warnings without places. -/
def withoutPlaces (x : String × List Report) : String × List Report :=
  (x.1, x.2.map (·.unplaced))

theorem mapError_eq_mapError {ε ε' α : Type} {f : ε → ε'} {x y : Except ε α}
    (h : x.mapError f = y.mapError f) :
    (∃ a, x = .ok a ∧ y = .ok a) ∨ ∃ e e', x = .error e ∧ y = .error e' ∧ f e = f e' := by
  cases x <;> cases y <;> simp_all

theorem unplaced_eq_of_finding {w w' : List Report} (h : w.map (·.finding) = w'.map (·.finding)) :
    w.map (·.unplaced) = w'.map (·.unplaced) := by
  have hcomp : ∀ w : List Report, w.map (·.unplaced) = (w.map (·.finding)).map (⟨·, none⟩) := by
    simp [Report.unplaced]
  rw [hcomp, hcomp, h]

theorem CompileError.ofEmit_unplaced {e e' : EmitError} (h : e.unplaced = e'.unplaced) :
    (ofEmit e).unplaced = (ofEmit e').unplaced := by
  cases e <;> cases e' <;> simp_all [EmitError.unplaced, ofEmit, unplaced]

theorem SourceError.ofEmit_unplaced {e e' : EmitError} (h : e.unplaced = e'.unplaced) :
    (ofEmit e).unplaced = (ofEmit e').unplaced := by
  cases e <;> cases e' <;> simp_all [EmitError.unplaced, ofEmit, unplaced]

section

variable {d d' : Description} {w w' : List Report}

/-- The Reason module of a description is told by its parameters and its body. -/
theorem reasonModule_unplaced (hp : d'.params = d.params) (hb : d'.body = d.body)
    (top : Option String) :
    (d'.reasonModule top).mapError (·.unplaced) = (d.reasonModule top).mapError (·.unplaced) := by
  have hdecls : d'.declarations = d.declarations := by
    rw [Description.declarations, Description.declarations, hp, hb]
  have htop : ∀ name, d'.isTop name = d.isTop name := fun name => by
    rw [Description.isTop, Description.isTop, hb]
  have hlast : ∀ name, d'.topDecl name = d.topDecl name := fun name => by
    rw [Description.topDecl, Description.topDecl, hp, hb]
  simp only [Description.reasonModule, hdecls, htop, hlast]
  cases d.declarations with
  | error f => rfl
  | ok decls =>
    cases top with
    | none => rfl
    | some name =>
      simp only [mapError_ok, ok_bind]
      split
      next => rfl
      next =>
        split
        next => rfl
        next => rfl

theorem compile_unplaced {options : EmitOptions} {file file' source source' : String}
    (h : Description.ofSource file source = .ok (d, w))
    (h' : Description.ofSource file' source' = .ok (d', w')) (hp : d'.params = d.params)
    (hb : d'.body = d.body) (hw : w'.map (·.unplaced) = w.map (·.unplaced)) :
    ((compile options file' source').mapError (·.unplaced)).map withoutPlaces =
      ((compile options file source).mapError (·.unplaced)).map withoutPlaces := by
  simp only [compile, h, h', mapError_ok, ok_bind, Description.emit]
  rcases mapError_eq_mapError (reasonModule_unplaced hp hb options.top) with
    ⟨decls, hd', hd⟩ | ⟨e', e, hd', hd, he⟩
  · simp only [hd, hd', ok_bind]
    cases Reason.printModule options.width decls with
    | error f => rfl
    | ok text => simp [Except.map, withoutPlaces, hw]
  · simp only [hd, hd', error_bind, mapError_error, Except.map, CompileError.ofEmit_unplaced he]

theorem settingsCompile_unplaced {settings : OutputSettings} {file file' source source' : String}
    (h : Description.ofSource file source = .ok (d, w))
    (h' : Description.ofSource file' source' = .ok (d', w')) (hp : d'.params = d.params)
    (hb : d'.body = d.body) (hw : w'.map (·.unplaced) = w.map (·.unplaced)) :
    ((settings.compile file' source').mapError (·.unplaced)).map withoutPlaces =
      ((settings.compile file source).mapError (·.unplaced)).map withoutPlaces := by
  simp only [OutputSettings.compile, h, h', mapError_ok, ok_bind]
  cases settings.top? with
  | error m => rfl
  | ok top =>
    simp only [mapError_ok, ok_bind]
    rcases mapError_eq_mapError (reasonModule_unplaced hp hb top) with
      ⟨decls, hd', hd⟩ | ⟨e', e, hd', hd, he⟩
    · simp only [hd, hd', mapError_ok, ok_bind]
      cases settings.width (decls.any (·.usesWidth)) with
      | error m => rfl
      | ok width =>
        simp only [mapError_ok, ok_bind]
        cases Reason.printModule width decls with
        | error f => rfl
        | ok text => simp [Except.map, withoutPlaces, hw]
    · simp only [hd, hd', error_bind, mapError_error, Except.map,
        SourceError.ofEmit_unplaced he]

end

/-- **Reading inverts printing.** Whatever a source is read as, its canonical text at any width is
read as that too, places aside, with the same warnings; it is its own canonical text, and it
compiles to what the source compiles to under any options and under any settings. -/
theorem canonical_text_reads_back (file file' : String) (width : Text.Width) {source : String}
    {d : Description} {w : List Report} (h : Description.ofSource file source = .ok (d, w)) :
    ∃ text d' w', d.print width = .ok text ∧ Description.ofSource file' text = .ok (d', w') ∧
      d'.params = d.params ∧ d'.body = d.body ∧ d'.names.map (·.1) = d.names.map (·.1) ∧
      w'.map (·.unplaced) = w.map (·.unplaced) ∧ d'.print width = .ok text ∧
      (∀ options, ((compile options file' text).mapError (·.unplaced)).map withoutPlaces =
        ((compile options file source).mapError (·.unplaced)).map withoutPlaces) ∧
      ∀ settings : OutputSettings,
        ((settings.compile file' text).mapError (·.unplaced)).map withoutPlaces =
          ((settings.compile file source).mapError (·.unplaced)).map withoutPlaces := by
  obtain ⟨hd, hnames, hw⟩ := ofSource_sound h
  obtain ⟨text, d', w', hprint, h', hp, hb⟩ := hd.reads_back width file'
  obtain ⟨-, hnames', hw'⟩ := ofSource_sound h'
  have hgist : d'.gist = d.gist := by rw [Description.gist, Description.gist, hb]
  have hfindings : d'.findings = d.findings := by
    rw [Description.findings, Description.findings, hgist, hp]
  have hreports : w'.map (·.unplaced) = w.map (·.unplaced) :=
    unplaced_eq_of_finding (by rw [hw', hw, hfindings])
  have hprint' : d'.print width = .ok text := by
    rw [← hprint, Description.print, Description.print, hp, hb]
  exact ⟨text, d', w', hprint, h', hp, hb, by rw [hnames', hnames, hgist], hreports, hprint',
    fun _ => compile_unplaced h h' hp hb hreports,
    fun _ => settingsCompile_unplaced h h' hp hb hreports⟩

/-- A source with two warnings, whose recursive type shadows the one around it, on narrow lines. -/
theorem canonical_text_reads_back_shadowed : ∃ d w text d' w',
    Description.ofSource "t.tyd" "params a, b\nrec t \x7b A: (a) * rec t \x7b B: t \x7d, \x7d" = .ok (d, w) ∧
      w.length = 2 ∧ d.print (.columns 12) = .ok text ∧
      Description.ofSource "t.tyd" text = .ok (d', w') ∧ d'.body = d.body ∧
      w'.map (·.unplaced) = w.map (·.unplaced) := by
  obtain ⟨⟨d, w⟩, h, hlen⟩ := exists_ok_of_any
    (Description.ofSource "t.tyd" "params a, b\nrec t \x7b A: (a) * rec t \x7b B: t \x7d, \x7d")
    (·.2.length == 2) (by decide +kernel)
  obtain ⟨text, d', w', hprint, h', -, hb, -, hw, -⟩ :=
    canonical_text_reads_back "t.tyd" "t.tyd" (.columns 12) h
  exact ⟨d, w, text, d', w', h, beq_iff_eq.1 hlen, hprint, h', hb, hw⟩

end TypeDesc
