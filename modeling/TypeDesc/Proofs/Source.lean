/-
What holds of every description that is read from a text: its parameters are
names of different identifiers and its body is well formed in them
(`Description.WellFormed`), and its declared names and its warnings are told by
the parameters and the body alone (`ofSource_sound`).
-/
import TypeDesc.Proofs.Accepted
import TypeDesc.Proofs.Scanned

namespace TypeDesc

namespace Description

/-- What is noted about the names in the body of a description. -/
def gist (d : Description) : Gist :=
  d.body.noted 0 ⟨[], [], []⟩

/-- The findings about a description, in order: those about its types, then those about
parameters that are not mentioned. -/
def findings (d : Description) : List Finding :=
  d.gist.findings ++
    (d.params.zipIdx.filter fun (_, i) => !d.gist.used.contains i).map fun (name, _) =>
      .unusedParam name

/-- A description as it is read without an error. -/
structure WellFormed (d : Description) : Prop where
  params : ∀ name ∈ d.params, IsName name
  paramsDistinct : (d.params.map typeIdent).Nodup
  body : d.body.WellFormed d.params
  findings : ∀ finding ∈ d.findings, finding.severity ≠ .error

end Description

theorem Notes.Clean.checkParam {n : Notes} {earlier : List Word} {w : Word}
    (h : (n.checkParam earlier w).Clean) :
    n.Clean ∧ (∀ param ∈ earlier, typeIdent param.text ≠ typeIdent w.text) ∧
      n.checkParam earlier w = n := by
  simp only [Notes.checkParam] at h ⊢
  split at h
  next => exact absurd rfl (of_report h).2
  next hf => exact ⟨h, by simpa using hf, rfl⟩

/-- Parameters that are read without an error leave no notes. -/
theorem ReadsParams.sound {ws : List Word} {n : Notes} {ts : List Token} (h : ReadsParams ws n ts)
    (hts : ∀ t ∈ ts, t.kind = .identifier → IsName t.text) (hc : n.Clean) :
    n = {} ∧ (∀ w ∈ ws, IsName w.text) ∧ (ws.map fun w => typeIdent w.text).Nodup := by
  induction h with
  | none => exact ⟨rfl, by simp, by simp⟩
  | @first k w hk hw =>
    obtain ⟨-, -, hsame⟩ := hc.checkParam
    exact ⟨hsame, by simpa [Token.word] using hts w (by simp) hw, by simp⟩
  | @more ws n ts c w hp hne hk hw ih =>
    obtain ⟨hc', hd, hsame⟩ := hc.checkParam
    obtain ⟨hn, hws, hnd⟩ := ih (fun t ht => hts t (by simp [ht])) hc'
    refine ⟨hsame.trans hn, ?_, ?_⟩
    · simp only [List.mem_append, List.mem_singleton]
      rintro _ (hm | rfl)
      · exact hws _ hm
      · exact hts w (by simp) hw
    · rw [List.map_append, List.nodup_append]
      refine ⟨hnd, by simp, ?_⟩
      simp only [List.mem_map, List.mem_singleton]
      rintro _ ⟨param, hm, rfl⟩ _ ⟨_, rfl, rfl⟩
      exact hd param hm

/-- The findings of the reports on a description are told by its parameters and its gist. -/
theorem Notes.allReports_finding (n : Notes) (ws : List Word) :
    (n.allReports ws).map (·.finding) = n.gist.findings ++
      ((ws.map (·.text)).zipIdx.filter fun (_, i) => !n.gist.used.contains i).map fun (name, _) =>
        .unusedParam name := by
  simp only [Notes.allReports, Notes.unusedParams, Notes.gist, List.map_append, List.map_map,
    List.zipIdx_map, List.filter_map, Function.comp_def, Report.located]
  rfl

/-- **Every description that is read is well formed**, and tells its names and warnings itself. -/
theorem ofSource_sound {file source : String} {d : Description} {w : List Report}
    (h : Description.ofSource file source = .ok (d, w)) :
    d.WellFormed ∧ d.names.map (·.1) = d.gist.declared.map (·.1) ∧
      w.map (·.finding) = d.findings := by
  simp only [Description.ofSource, bind_eq_ok, mapError_eq_ok] at h
  obtain ⟨tokens, hscan, h⟩ := h
  obtain ⟨ws, n₀, n, ts₁, ts₂, t, rest, rfl, hp, hr, -, herr, rfl, hparams, hnames⟩ := ofTokens_reads h
  have hid := scan_identifier hscan
  have hc : n.Clean := fun report hm => herr report (List.mem_append_left _ hm)
  obtain ⟨rfl, hws, hnd⟩ := hp.sound (fun t ht => hid t (by simp [ht])) (hr.clean hc)
  obtain ⟨hbody, hgist⟩ := hr.sound (fun t ht => hid t (by simp [ht])) hc
  have hg : n.gist = d.gist := hgist
  have hf : (n.allReports ws).map (·.finding) = d.findings := by
    rw [Notes.allReports_finding, hg, ← hparams]
    rfl
  refine ⟨⟨?_, ?_, ?_, ?_⟩, ?_, hf⟩
  · rw [hparams]
    simpa using hws
  · rw [hparams]
    simpa [Function.comp_def] using hnd
  · rw [hparams]
    exact hbody
  · intro finding hm
    rw [← hf] at hm
    obtain ⟨report, hr, rfl⟩ := List.mem_map.1 hm
    simpa [Report.isError] using herr report hr
  · rw [hnames, ← hg]
    simp [Notes.gist, Function.comp_def]

end TypeDesc
