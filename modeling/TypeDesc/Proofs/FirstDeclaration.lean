/-
Which of several types with one name is declared. The reader lists a type where
it ends, and so lists the first that is closed; the declarations are collected by
a walk that enters types from the outside, and passes over those whose name has
been entered. The two choose the same type for all names exactly if only listed
types stand around listed ones (`first_closed_emitted_iff`). They differ for a
type inside one of the same name (`first_closed_not_emitted`).
-/
import TypeDesc.Proofs.SiteNotes

namespace TypeDesc

open Reason (Decl)

/-! ## Listed types -/

namespace Description

/-- The site is the one that the description lists for its name. -/
def Lists (d : Description) (s : Site) : Prop :=
  (s.name.text, s.name.span) ∈ d.names

instance (d : Description) (s : Site) : Decidable (d.Lists s) :=
  inferInstanceAs (Decidable ((s.name.text, s.name.span) ∈ d.names))

/-- Around listed types stand listed types only. -/
def ListsOutward (d : Description) (sites : Nest Site) : Prop :=
  ∀ pair ∈ sites.nested, d.Lists pair.2 → d.Lists pair.1

instance (d : Description) (sites : Nest Site) : Decidable (d.ListsOutward sites) :=
  inferInstanceAs (Decidable (∀ pair ∈ sites.nested, d.Lists pair.2 → d.Lists pair.1))

end Description

/-- The sites are those of the tree, and their spans tell them apart. -/
structure SourceTree.Places (tree : SourceTree) (sites : Nest Site) : Prop where
  toDeclared : sites.map (·.toDeclared) = tree.sites
  spans : (sites.opened.map (·.name.span)).Nodup

namespace SourceTree.Places

variable {tree : SourceTree} {sites : Nest Site} {d : Description} {w : List Report} {s s' : Site}
  (hp : tree.Places sites)
include hp

theorem eq_of_span (hs : s ∈ sites.opened) (hs' : s' ∈ sites.opened)
    (h : s.name.span = s'.name.span) : s = s' :=
  List.inj_on_of_nodup_map hp.spans hs hs' h

theorem nodup : sites.opened.Nodup :=
  .of_map _ hp.spans

theorem exists_site {x : Declared} (hx : x ∈ tree.sites.opened) :
    ∃ s ∈ sites.opened, s.toDeclared = x := by
  rw [← hp.toDeclared, Nest.opened_map] at hx
  exact List.mem_map.1 hx

theorem mem_opened (hs : s ∈ sites.opened) : s.toDeclared ∈ tree.sites.opened := by
  rw [← hp.toDeclared, Nest.opened_map]
  exact List.mem_map_of_mem hs

/-- What is noted has a site. -/
theorem exists_noted {x : Declared} (hx : x ∈ tree.notes.declared) :
    ∃ s ∈ sites.opened, s.toDeclared = x :=
  hp.exists_site (Nest.mem_closed.1 (tree.mem_declared.1 hx).mem)

theorem noted_iff (hs : s ∈ sites.opened) :
    s.toDeclared ∈ tree.notes.declared ↔ IsFirst (·.ident) sites.closed s := by
  rw [tree.mem_declared, ← hp.toDeclared, Nest.closed_map]
  refine IsFirst.map_iff fun s' hs' heq => ?_
  exact hp.eq_of_span (Nest.mem_closed.1 hs') hs (congrArg (·.name.span) heq)

theorem lists_iff_noted (hy : tree.Yields d w) (hs : s ∈ sites.opened) :
    d.Lists s ↔ s.toDeclared ∈ tree.notes.declared := by
  rw [Description.Lists, hy.names, List.mem_map]
  constructor
  · rintro ⟨x, hx, heq⟩
    obtain ⟨s', hs', rfl⟩ := hp.exists_noted hx
    rwa [← hp.eq_of_span hs' hs (Prod.mk.inj heq).2]
  · exact fun h => ⟨s.toDeclared, h, rfl⟩

/-- **A site is listed exactly if it is the first of its identifier that is closed.** -/
theorem lists_iff (hy : tree.Yields d w) (hs : s ∈ sites.opened) :
    d.Lists s ↔ IsFirst (·.ident) sites.closed s :=
  (hp.lists_iff_noted hy hs).trans (hp.noted_iff hs)

/-- Every listed name is that of one site. -/
theorem exists_listed (hy : tree.Yields d w) {entry : String × Span} (h : entry ∈ d.names) :
    ∃ s ∈ sites.opened, (s.name.text, s.name.span) = entry := by
  rw [hy.names] at h
  obtain ⟨x, hx, rfl⟩ := List.mem_map.1 h
  obtain ⟨s, hs, rfl⟩ := hp.exists_noted hx
  exact ⟨s, hs, rfl⟩

/-- **A site is reported exactly if the listed one of its name has another type.** -/
theorem reported_iff (hy : tree.Yields d w) (hs : s ∈ sites.opened) :
    .located (.redeclared s.name.text) s.name.span ∈ w ↔
      ∃ first ∈ sites.opened, d.Lists first ∧ first.name.text = s.name.text ∧ first.type ≠ s.type := by
  have hw : Report.located (.redeclared s.name.text) s.name.span ∈ w ↔
      Report.located (.redeclared s.name.text) s.name.span ∈ tree.notes.reports := by
    rw [hy.warnings, Notes.allReports, List.mem_append]
    refine or_iff_left fun hm => ?_
    simp [Notes.unusedParams, Report.located] at hm
  rw [hw, tree.mem_reports rfl]
  constructor
  · rintro ⟨x, hx, ⟨y, hy', hname, htype⟩, heq⟩
    obtain ⟨s', hs', rfl⟩ := hp.exists_site hx
    simp only [Report.located, Report.mk.injEq, Option.some.injEq] at heq
    obtain rfl := hp.eq_of_span hs hs' heq.2
    have hm := List.mem_of_find?_eq_some hy'
    obtain ⟨first, hfirst, rfl⟩ := hp.exists_noted hm
    exact ⟨first, hfirst, (hp.lists_iff_noted hy hfirst).2 hm, hname, htype⟩
  · rintro ⟨first, hfirst, hl, hname, htype⟩
    have hf := tree.mem_declared.1 ((hp.lists_iff_noted hy hfirst).1 hl)
    have hident : first.ident = s.ident := congrArg typeIdent hname
    refine ⟨s.toDeclared, hp.mem_opened hs, ⟨first.toDeclared, ?_, hname, htype⟩, rfl⟩
    rw [tree.first?_eq, ← hident]
    exact hf

end SourceTree.Places

/-! ## Emitted types -/

/-- The sites that the walk through a description enters. -/
def Nest.reached (sites : Nest Site) : List Site :=
  sites.entered (·.ident) []

/-- What is emitted for a tree: the declarations of the sites that are reached. -/
structure Emission (tree : SourceTree) (d : Description) (w : List Report) (sites : Nest Site)
    (decls : List Decl) : Prop where
  yields : tree.Yields d w
  placed : tree.sites.placed (.ofParams d.params) = .ok sites
  places : tree.Places sites
  declarations : d.declarations = .ok decls
  distinct : (decls.map (·.ident)).Nodup
  emitted : List.Forall₂ Site.Declares sites.reached (notGenerated decls.reverse)

theorem ofSource_emission {file source : String} {d : Description} {w : List Report}
    (h : Description.ofSource file source = .ok (d, w)) :
    ∃ tokens tree sites decls, Token.scan file source = .ok tokens ∧
      terminalsOf tokens = tree.terminals ∧ Emission tree d w sites decls := by
  obtain ⟨hd, -, -⟩ := ofSource_sound h
  obtain ⟨tokens, tree, hscan, hts, hy⟩ := ofSource_tree h
  have hl : (Env.ofParams d.params).length = d.params.length := by simp [Env.ofParams]
  have hnest : tree.sites.map Declared.plain = d.body.nest := by
    rw [hy.body]
    exact (tree.body.nestIn_meaning tree.paramNames).symm
  obtain ⟨sites, hplaced, hdeclarable⟩ := hd.body.settled hl tree.sites hnest
  have hmap := Nest.map_toDeclared hplaced
  have hspans := tree.sites_spans hscan hts
  rw [← hmap, Nest.opened_map, List.map_map] at hspans
  have hplaces : tree.Places sites := ⟨hmap, hspans⟩
  obtain ⟨ds, c, hds, hg⟩ := hd.declarations_gathers
  obtain ⟨decls, hdecls, hgathered⟩ := hd.gathered
  obtain rfl : ds.reverse = decls := Except.ok.inj (hds.symm.trans hdecls)
  have hown : ∀ x ∈ tree.sites.opened, x.ident ∉ Reason.generatedIdents := by
    intro x hx
    obtain ⟨s, hs, rfl⟩ := hplaces.exists_site hx
    exact (hdeclarable s hs).notGenerated
  refine ⟨tokens, tree, sites, ds.reverse, hscan, hts, hy, hplaced, hplaces, hdecls,
    hgathered.closed.distinct, ?_⟩
  rw [List.reverse_reverse]
  rw [← Expr.nestAll_singleton] at hnest
  exact hg.entered hnest hplaced hown fun _ _ => Iff.rfl

namespace Emission

variable {tree : SourceTree} {d : Description} {w : List Report} {sites : Nest Site}
  {decls : List Decl} {s : Site} (h : Emission tree d w sites decls)
include h

/-- The declaration of a name whose type is reached is that of the type in its place. -/
theorem declares_reached (hs : s ∈ sites.reached) :
    ∃ decl, s.Declares decl ∧ ∀ decl', decl' ∈ decls ∧ decl'.name = s.name.text ↔ decl' = decl := by
  obtain ⟨decl, hm, hdecl⟩ := forall₂_mem h.emitted hs
  have hmem : decl ∈ decls := List.mem_reverse.1 (List.mem_of_mem_filter hm)
  refine ⟨decl, hdecl, fun decl' => ⟨fun ⟨hm', hname⟩ => ?_, ?_⟩⟩
  · have hident : decl'.ident = decl.ident := by rw [Decl.ident, hname, ← hdecl.name, Decl.ident]
    exact List.inj_on_of_nodup_map h.distinct hm' hmem hident
  · rintro rfl
    exact ⟨hmem, hdecl.name⟩

theorem reached_iff (hs : s ∈ sites.opened) (hl : d.Lists s) : s ∈ sites.reached ↔
    ∀ outer, (outer, s) ∈ sites.nested → outer ∈ sites.reached ∧ outer.ident ≠ s.ident :=
  Nest.first_entered_iff h.places.nodup ((h.places.lists_iff h.yields hs).1 hl)

theorem all_reached_iff : (∀ s ∈ sites.opened, d.Lists s → s ∈ sites.reached) ↔
    d.ListsOutward sites := by
  have hfirst : (∀ s ∈ sites.opened, d.Lists s → s ∈ sites.reached) ↔
      ∀ s, IsFirst (·.ident) sites.closed s → s ∈ sites.entered (·.ident) [] := by
    constructor
    · intro hall s hs
      have hm := Nest.mem_closed.1 hs.mem
      exact hall s hm ((h.places.lists_iff h.yields hm).2 hs)
    · exact fun hall s hs hl => hall s ((h.places.lists_iff h.yields hs).1 hl)
  rw [hfirst, Nest.firsts_entered_iff h.places.nodup]
  constructor
  · intro hall ⟨outer, inner⟩ hm hl
    obtain ⟨ho, hi⟩ := Nest.nested_mem hm
    rw [h.places.lists_iff h.yields ho]
    exact hall outer inner hm ((h.places.lists_iff h.yields hi).1 hl)
  · intro hall outer inner hm hf
    obtain ⟨ho, hi⟩ := Nest.nested_mem hm
    rw [← h.places.lists_iff h.yields ho]
    exact hall (outer, inner) hm ((h.places.lists_iff h.yields hi).2 hf)

/-- If all listed types are reached, none that is reported is. -/
theorem reached_not_reported (hall : ∀ s ∈ sites.opened, d.Lists s → s ∈ sites.reached)
    (hs : s ∈ sites.reached) : .located (.redeclared s.name.text) s.name.span ∉ w := by
  intro hr
  obtain ⟨first, hm, hl, hname, htype⟩ :=
    (h.places.reported_iff h.yields (Nest.opened_of_entered hs)).1 hr
  have hident : first.ident = s.ident := congrArg typeIdent hname
  exact htype (congrArg (·.type) (Nest.eq_of_entered (hall first hm hl) hs hident))

end Emission

/-- **When the first type of each name is the one that is emitted.** The types of every description
that is read have different spans, and each listed name is that of one of them. The declarations are
those of the types that are reached, in their own environments and in this order. A listed type is
reached exactly if the types around it are, with other identifiers; it then has the only declaration
of its name. All listed types are reached exactly if only listed types stand around them. A type is
reported as declared again if the listed one of its name differs from it. If only listed types stand
around listed ones, then each listed name has one declaration, that of the listed type in its
environment, and no reported type is emitted. -/
theorem first_closed_emitted_iff {file source : String} {d : Description} {w : List Report}
    (h : Description.ofSource file source = .ok (d, w)) :
    ∃ (tokens : List Token) (tree : SourceTree) (sites : Nest Site) (decls : List Decl),
      Token.scan file source = .ok tokens ∧ terminalsOf tokens = tree.terminals ∧
      tree.sites.placed (.ofParams d.params) = .ok sites ∧ d.declarations = .ok decls ∧
      (sites.opened.map (·.name.span)).Nodup ∧
      (∀ entry ∈ d.names, ∃ s ∈ sites.opened, (s.name.text, s.name.span) = entry) ∧
      List.Forall₂ Site.Declares sites.reached (notGenerated decls.reverse) ∧
      (∀ s ∈ sites.opened, d.Lists s → (s ∈ sites.reached ↔
        ∀ outer, (outer, s) ∈ sites.nested → outer ∈ sites.reached ∧ outer.ident ≠ s.ident)) ∧
      (∀ s ∈ sites.reached, ∃ decl, s.Declares decl ∧
        ∀ decl', decl' ∈ decls ∧ decl'.name = s.name.text ↔ decl' = decl) ∧
      ((∀ s ∈ sites.opened, d.Lists s → s ∈ sites.reached) ↔ d.ListsOutward sites) ∧
      (∀ s ∈ sites.opened, .located (.redeclared s.name.text) s.name.span ∈ w ↔
        ∃ first ∈ sites.opened, d.Lists first ∧ first.name.text = s.name.text ∧
          first.type ≠ s.type) ∧
      (d.ListsOutward sites →
        (∀ entry ∈ d.names, ∃ s ∈ sites.opened, (s.name.text, s.name.span) = entry ∧
          ∃ decl, s.Declares decl ∧ ∀ decl', decl' ∈ decls ∧ decl'.name = entry.1 ↔ decl' = decl) ∧
        ∀ s ∈ sites.reached, .located (.redeclared s.name.text) s.name.span ∉ w) := by
  obtain ⟨tokens, tree, sites, decls, hscan, hts, he⟩ := ofSource_emission h
  refine ⟨tokens, tree, sites, decls, hscan, hts, he.placed, he.declarations, he.places.spans,
    fun entry hm => he.places.exists_listed he.yields hm, he.emitted, fun s => he.reached_iff,
    fun s => he.declares_reached, he.all_reached_iff, fun s => he.places.reported_iff he.yields,
    fun hout => ?_⟩
  have hall := he.all_reached_iff.2 hout
  refine ⟨fun entry hm => ?_, fun s hs => he.reached_not_reported hall hs⟩
  obtain ⟨s, hs, rfl⟩ := he.places.exists_listed he.yields hm
  exact ⟨s, hs, rfl, he.declares_reached (hall s hs hm)⟩

/-- A type with another inside it, and a second one of the same name, which is reported. -/
theorem first_closed_emitted_nested : ∃ d w tokens tree sites,
    Description.ofSource "p.tyd" "alias p \x7b rec q \x7b X \x7d \x7d * alias p \x7b unit \x7d" =
      .ok (d, w) ∧
    Token.scan "p.tyd" "alias p \x7b rec q \x7b X \x7d \x7d * alias p \x7b unit \x7d" = .ok tokens ∧
    terminalsOf tokens = SourceTree.terminals tree ∧
    tree.sites.placed (.ofParams d.params) = .ok sites ∧
    sites.opened.map (·.name.text) = ["p", "q", "p"] ∧ w.map (·.finding) = [.redeclared "p"] ∧
    d.ListsOutward sites ∧ (∀ s ∈ sites.opened, d.Lists s → s ∈ sites.reached) ∧
    ∃ decls, d.declarations = .ok decls ∧
      (∀ entry ∈ d.names, ∃ s ∈ sites.opened, (s.name.text, s.name.span) = entry ∧
        ∃ decl, s.Declares decl ∧ ∀ decl', decl' ∈ decls ∧ decl'.name = entry.1 ↔ decl' = decl) ∧
      ∀ s ∈ sites.reached, .located (.redeclared s.name.text) s.name.span ∉ w := by
  obtain ⟨sample, hsample⟩ : ∃ sample : SourceTree, sample = ⟨[],
      .sum (.product
        (.named ⟨"p", ⟨"p.tyd", 1, 7, 1, 7⟩⟩
          (.sum (.product (.recursive ⟨"q", ⟨"p.tyd", 1, 15, 1, 15⟩⟩
            (.lastCtor (.bareCtor ⟨"X", ⟨"p.tyd", 1, 19, 1, 19⟩⟩))) .noStars) .noPluses))
        (.star (.named ⟨"p", ⟨"p.tyd", 1, 33, 1, 33⟩⟩
          (.sum (.product .unit .noStars) .noPluses)) .noStars)) .noPluses⟩ := ⟨_, rfl⟩
  generalize hsource : "alias p \x7b rec q \x7b X \x7d \x7d * alias p \x7b unit \x7d" = source
  obtain ⟨⟨d, w⟩, h, hread⟩ := exists_ok_of_any (Description.ofSource "p.tyd" source) (fun x =>
    (Token.scan "p.tyd" source).toOption.any (terminalsOf · == sample.terminals) &&
    x.2.map (·.finding) == [.redeclared "p"] &&
    (sample.sites.placed (.ofParams x.1.params)).toOption.any fun sites =>
      decide (x.1.ListsOutward sites) && sites.opened.map (·.name.text) == ["p", "q", "p"])
    (by subst hsample hsource; decide +kernel)
  obtain ⟨tokens, tree, sites, decls, hscan, hts, hplaced, hdecls, -, -, -, -, -, hiff, -, hall⟩ :=
    first_closed_emitted_iff h
  simp only [hscan, toOption_ok, Option.any_some, Bool.and_eq_true, beq_iff_eq] at hread
  obtain ⟨⟨hterminals, hw⟩, hsites⟩ := hread
  obtain rfl : tree = sample := SourceTree.ext_terminals (hts.symm.trans hterminals)
  simp only [hplaced, toOption_ok, Option.any_some, Bool.and_eq_true, decide_eq_true_eq,
    beq_iff_eq] at hsites
  exact ⟨d, w, tokens, tree, sites, h, hscan, hts, hplaced, hsites.2, hw, hsites.1,
    hiff.2 hsites.1, decls, hdecls, hall hsites.1⟩

/-- **A type inside one of the same name ends first and is not emitted**: the inner type is listed, and
the outer one is reported as declared again, but it is the one whose declaration is emitted. -/
theorem first_closed_not_emitted : ∃ d w tokens tree sites decls,
    Description.ofSource "x.tyd" "alias x \x7b alias x \x7b unit \x7d \x7d" = .ok (d, w) ∧
    Token.scan "x.tyd" "alias x \x7b alias x \x7b unit \x7d \x7d" = .ok tokens ∧
    terminalsOf tokens = SourceTree.terminals tree ∧
    tree.sites.placed (.ofParams d.params) = .ok sites ∧ d.declarations = .ok decls ∧
    (∃ s ∈ sites.opened, d.Lists s ∧ ∃ decl, s.Declares decl ∧ decl ∉ decls) ∧
    ∃ s ∈ sites.opened, .located (.redeclared s.name.text) s.name.span ∈ w ∧
      ∃ decl, s.Declares decl ∧ decl ∈ decls := by
  obtain ⟨outer, houter⟩ : ∃ s : Site, s =
    ⟨⟨⟨"x", ⟨"x.tyd", 1, 7, 1, 7⟩⟩, .named "x" (.named "x" .unit)⟩, []⟩ := ⟨_, rfl⟩
  obtain ⟨inner, hinner⟩ : ∃ s : Site, s =
    ⟨⟨⟨"x", ⟨"x.tyd", 1, 17, 1, 17⟩⟩, .named "x" .unit⟩, []⟩ := ⟨_, rfl⟩
  generalize hsource : "alias x \x7b alias x \x7b unit \x7d \x7d" = source
  obtain ⟨⟨d, w⟩, h, hread⟩ := exists_ok_of_any (Description.ofSource "x.tyd" source) (fun x =>
    (Token.scan "x.tyd" source).toOption.any
      (terminalsOf · == [.mark .aliasKeyword, .name outer.name, .mark .openBrace,
        .mark .aliasKeyword, .name inner.name, .mark .openBrace, .mark .unit, .mark .closeBrace,
        .mark .closeBrace, .mark .endOfInput]) &&
    x.1.params == [] && x.1.names == [(inner.name.text, inner.name.span)] &&
    x.2 == [.located (.redeclared outer.name.text) outer.name.span] &&
    x.1.declarations.toOption == some [.synonym ⟨"x", []⟩ (.app "x" [])])
    (by subst houter hinner hsource; decide +kernel)
  obtain ⟨tokens, tree, sites, decls, hscan, hts, he⟩ := ofSource_emission h
  simp only [hscan, he.declarations, toOption_ok, Option.any_some, Bool.and_eq_true,
    beq_iff_eq, Option.some.injEq] at hread
  obtain ⟨⟨⟨⟨hterminals, hparams⟩, hnames⟩, rfl⟩, rfl⟩ := hread
  obtain rfl : tree = ⟨[], .sum (.product (.named outer.name (.sum (.product (.named inner.name
      (.sum (.product .unit .noStars) .noPluses)) .noStars) .noPluses)) .noStars) .noPluses⟩ :=
    SourceTree.ext_terminals (hts.symm.trans hterminals)
  obtain rfl : Nest.cons outer (.cons inner .nil .nil) .nil = sites := by
    have hplaced := he.placed
    rw [hparams] at hplaced
    subst houter hinner
    exact Except.ok.inj hplaced
  have hinside : inner.Declares (.synonym ⟨"x", []⟩ .unit) := by
    subst hinner
    exact ⟨.named rfl rfl, rfl⟩
  have houtside : outer.Declares (.synonym ⟨"x", []⟩ (.app "x" [])) := by
    subst houter
    exact ⟨.named rfl rfl, rfl⟩
  refine ⟨d, _, tokens, _, _, _, h, hscan, hts, he.placed, he.declarations, ?_, ?_⟩
  · exact ⟨inner, by simp [Nest.opened], by simp [Description.Lists, hnames], _, hinside, by simp⟩
  · exact ⟨outer, by simp [Nest.opened], by simp, _, houtside, by simp⟩

end TypeDesc
