/-
Which names are declared. The walk through a description enters a type where it
is first met and passes over everything inside it elsewhere. Without a report of
a redeclaration nothing is lost by this: types of one identifier are then the
same expression, and what stands in one of them also stands in the one that was
entered (`Survey.mentioned_declared`). So the declared names are those that the
description lists, as they are spelled there, and those of the generated types
that it needs (`declared_names_exact`).
-/
import TypeDesc.Proofs.DependencyOrder
import TypeDesc.Proofs.EmittedTypes

namespace TypeDesc

open Reason (Ty Decl voidDecl eitherDecl)

/-! ## What stands in an expression -/

/-- The expression `e` stands somewhere in `root`. -/
inductive Expr.Contains (root : Expr) : Expr → Prop
  | root : Contains root root
  | sum {a b rest e} (h : Contains root (.sum a b rest)) (he : e ∈ a :: b :: rest) :
    Contains root e
  | product {a b rest e} (h : Contains root (.product a b rest)) (he : e ∈ a :: b :: rest) :
    Contains root e
  | payload {name ctors ctor} (h : Contains root (.recursive name ctors)) (hc : ctor ∈ ctors) :
    Contains root ctor.payload
  | body {name body} (h : Contains root (.named name body)) : Contains root body

theorem Part.contains {env₀ env : Env} {root e : Expr} (h : Part env₀ root env e) :
    root.Contains e := by
  induction h with
  | root => exact .root
  | sum _ he ih => exact .sum ih he
  | product _ he ih => exact .product ih he
  | payload _ _ hc ih => exact .payload ih hc
  | body _ ih => exact .body ih

/-- Whatever stands in a well-formed expression stands there in some environment. -/
theorem Expr.Contains.part {scope : List String} {env₀ : Env} {root e : Expr}
    (h : root.Contains e) (hw : root.WellFormed scope) (hl : env₀.length = scope.length) :
    ∃ env, Part env₀ root env e := by
  induction h with
  | root => exact ⟨env₀, .root⟩
  | sum _ he ih =>
    obtain ⟨env, hp⟩ := ih
    exact ⟨env, hp.sum he⟩
  | product _ he ih =>
    obtain ⟨env, hp⟩ := ih
    exact ⟨env, hp.product he⟩
  | payload _ hc ih =>
    obtain ⟨env, hp⟩ := ih
    obtain ⟨scope, hw, hl⟩ := hp.wellFormed hw hl
    obtain ⟨params, hparams⟩ := hw.params_ok hl
    exact ⟨_, hp.payload hparams hc⟩
  | body _ ih =>
    obtain ⟨env, hp⟩ := ih
    exact ⟨env, hp.body⟩

/-! ## What a walk declares -/

/-- **Each declaration that a walk finds is that of a part**, or a generated one for a part. -/
theorem Gathers.parts {env₀ env : Env} {root : Expr} {es : List Expr} {c c' : Collected}
    {ds : List Decl} (h : Gathers env es c ds c') (hp : ∀ e ∈ es, Part env₀ root env e) :
    ∀ decl ∈ ds, (∃ env e, Part env₀ root env e ∧ Declares env e decl) ∨
      (decl = voidDecl ∧ ∃ env, Part env₀ root env .void) ∨
      (decl = eitherDecl ∧ ∃ env a b rest, Part env₀ root env (.sum a b rest)) := by
  induction h with
  | nil | unit | var | known => simp
  | append _ _ ih ih' =>
    rw [List.forall_mem_append] at hp ⊢
    exact ⟨ih hp.1, ih' hp.2⟩
  | void =>
    intro decl hm
    exact .inr (.inl ⟨Collected.mem_of_addGenerated hm, _, List.forall_mem_singleton.1 hp⟩)
  | @sum _ a b rest _ _ _ _ ih =>
    have hsum := List.forall_mem_singleton.1 hp
    refine List.forall_mem_append.2 ⟨ih fun e he => hsum.sum he, fun decl hm => ?_⟩
    exact .inr (.inr ⟨Collected.mem_of_addGenerated hm, _, a, b, rest, hsum⟩)
  | product _ ih =>
    have hproduct := List.forall_mem_singleton.1 hp
    exact ih fun e he => hproduct.product he
  | recursive _ hparams hv _ ih =>
    have hrec := List.forall_mem_singleton.1 hp
    refine List.forall_mem_cons.2 ⟨.inl ⟨_, _, hrec, .recursive hparams hv⟩, ih fun e he => ?_⟩
    obtain ⟨ctor, hc, rfl⟩ := List.mem_map.1 he
    exact hrec.payload hparams hc
  | named _ hparams ht _ ih =>
    have hnamed := List.forall_mem_singleton.1 hp
    refine List.forall_mem_cons.2 ⟨.inl ⟨_, _, hnamed, .named hparams ht⟩, ih ?_⟩
    exact List.forall_mem_singleton.2 hnamed.body

/-! ## What an expression mentions -/

mutual
/-- What an expression mentions by itself, it mentions whatever its variables stand for. -/
theorem mentioned_of_nil {scope : List (Option String)} {x : String} :
    (e : Expr) → x ∈ e.mentioned [] → x ∈ e.mentioned scope
  | .void, h => h
  | .unit, h => h
  | .var _, h => by simp [Expr.mentioned] at h
  | .sum a b rest, h => by
    simp only [Expr.mentioned, List.mem_cons, List.mem_append] at h ⊢
    exact h.imp_right fun h => h.imp (fun h => h.imp (mentioned_of_nil a) (mentioned_of_nil b))
      (mentionedAll_of_nil rest)
  | .product a b rest, h => by
    simp only [Expr.mentioned, List.mem_append] at h ⊢
    exact h.imp (fun h => h.imp (mentioned_of_nil a) (mentioned_of_nil b)) (mentionedAll_of_nil rest)
  | .recursive _ _, h => h
  | .named _ _, h => h
  | .foreign _, h => h

theorem mentionedAll_of_nil {scope : List (Option String)} {x : String} :
    (es : List Expr) → x ∈ Expr.mentionedAll [] es → x ∈ Expr.mentionedAll scope es
  | [], h => h
  | e :: es, h => by
    simp only [Expr.mentionedAll, List.mem_append] at h ⊢
    exact h.imp (mentioned_of_nil e) (mentionedAll_of_nil es)
end

theorem mem_mentionedAll {scope : List (Option String)} {x : String} {es : List Expr} :
    x ∈ Expr.mentionedAll scope es ↔ ∃ e ∈ es, x ∈ e.mentioned scope := by
  induction es with
  | nil => simp [Expr.mentionedAll]
  | cons e es ih => simp [Expr.mentionedAll, ih]

/-- What an operand mentions, a sum or a product of it does. -/
theorem mentioned_operand {scope : List (Option String)} {x : String} {a b e : Expr}
    {rest : List Expr} (he : e ∈ a :: b :: rest) (hx : x ∈ e.mentioned scope) :
    x ∈ (Expr.sum a b rest).mentioned scope ∧ x ∈ (Expr.product a b rest).mentioned scope := by
  have hall := mem_mentionedAll.2 ⟨e, he, hx⟩
  simp only [Expr.mentionedAll, ← List.append_assoc] at hall
  exact ⟨List.mem_cons_of_mem _ hall, hall⟩

/-! ## Declared names -/

namespace Description

variable {d : Description} {decls own : List Decl} {env : Env} {e : Expr} {name : String}

/-- Without a redeclaration, the listed names are those of the types in the body. -/
theorem listed_iff (hd : d.WellFormed) (hu : d.gist.Unmixed) :
    name ∈ d.gist.declared.map (·.1) ↔ ∃ env e, d.Part env e ∧ e.name? = some name := by
  have hr := d.body.noted_records 0 (d.params.map .param) ⟨[], [], []⟩
  constructor
  · intro hm
    obtain ⟨p, hp, rfl⟩ := List.mem_map.1 hm
    have hmem := (hr.origin p hp).resolve_left (by simp)
    obtain ⟨o, ho, rfl⟩ := List.mem_map.1 hmem
    rw [← Env.binders_ofParams] at ho
    obtain ⟨env, hpart, hn, -⟩ :=
      hd.body.part_of_occurrence (by simp [Env.ofParams]) .root o ho
    exact ⟨env, o.type, hpart, hn⟩
  · rintro ⟨env, e, hpart, hn⟩
    have hmem := (hr.unmixed hu).2 (name, e) (List.mem_map.2 ⟨_, hpart.occurs hn, rfl⟩)
    exact List.mem_map.2 ⟨_, hmem, rfl⟩

namespace Survey

section

variable (hs : d.Survey decls own)
include hs

/-- What has the identifier of a generated type is that type. -/
theorem eq_generated {decl g : Decl} (hm : decl ∈ decls) (hg : g = voidDecl ∨ g = eitherDecl)
    (hi : decl.ident = g.ident) : decl = g := by
  rcases hs.origin decl hm with ho | hdecl
  · exact absurd (hi ▸ generated_ident hg) (hs.notGenerated decl ho)
  · exact generated_ext hdecl hg hi

theorem generated_mem {g : Decl} (hg : g = voidDecl ∨ g = eitherDecl)
    (hi : g.ident ∈ decls.map (·.ident)) : g ∈ decls := by
  obtain ⟨decl, hm, hident⟩ := List.mem_map.1 hi
  exact hs.eq_generated hm hg hident ▸ hm

end

variable (hs : d.Survey decls own) (hd : d.WellFormed) (hu : d.gist.Unmixed)
include hs hd hu

/-- What is declared for a type is a declaration of the same expression, perhaps in another place. -/
theorem declares_same (h : d.Part env e) (hn : e.name? = some name)
    (hi : typeIdent name ∈ decls.map (·.ident)) :
    ∃ decl ∈ decls, decl.name = name ∧ ∃ env', Declares env' e decl := by
  obtain ⟨found, hm, hident⟩ := List.mem_map.1 hi
  obtain ⟨decl, hdecl, rfl⟩ := hd.part_declares h hn
  rcases hs.origin found hm with ho | hg
  · obtain ⟨env', e', h', hdecl'⟩ := (hs.mem_own_iff hd).1 ho
    obtain rfl := h'.type_eq h hu hdecl'.name? hn hident
    have hname : found.name = decl.name := Option.some.inj (hdecl'.name?.symm.trans hn)
    exact ⟨found, hm, hname, env', hdecl'⟩
  · have hown := (hs.mem_own_iff hd).2 ⟨env, e, h, hdecl⟩
    have hi : decl.ident = found.ident := hident.symm
    exact absurd (hi ▸ generated_ident hg) (hs.notGenerated decl hown)

/-- **Whatever a part mentions is declared.** A part stands in a type; that type is declared, be it
from another place, and its declaration mentions what its parts mention. -/
theorem mentioned_declared (h : d.Part env e) : ∀ x ∈ e.mentioned [], x ∈ decls.map (·.ident) := by
  induction h with
  | root =>
    intro x hx
    have hl : (Env.ofParams d.params).length = d.params.length := by simp [Env.ofParams]
    obtain ⟨t, ht⟩ := hd.body.toReason_ok hl
    obtain ⟨y, hy, rfl⟩ := List.mem_map.1 ((toReason_idents d.body ht).2 (mentioned_of_nil _ hx))
    exact hs.gathered.body t ht y hy
  | sum _ he ih => exact fun x hx => ih x (mentioned_operand he hx).1
  | product _ he ih => exact fun x hx => ih x (mentioned_operand he hx).2
  | @payload _ name ctors params ctor h _ hc ih =>
    intro x hx
    have hi := ih (typeIdent name) (by simp [Expr.mentioned])
    obtain ⟨decl, hm, -, env', hdecl⟩ := hs.declares_same hd hu h rfl hi
    cases hdecl with
    | @recursive _ _ params' variants _ hv =>
      have hmem : x ∈ (Decl.variant ⟨name, params'⟩ variants).mentions.map typeIdent :=
        (mem_mentions_variant hv x).2
          (List.mem_flatMap.2 ⟨ctor, hc, mentioned_of_nil ctor.payload hx⟩)
      obtain ⟨y, hy, rfl⟩ := List.mem_map.1 hmem
      exact hs.gathered.closed.mentions _ hm y hy
  | @body _ name body h ih =>
    intro x hx
    have hi := ih (typeIdent name) (by simp [Expr.mentioned])
    obtain ⟨decl, hm, -, env', hdecl⟩ := hs.declares_same hd hu h rfl hi
    cases hdecl with
    | named _ ht =>
      obtain ⟨y, hy, rfl⟩ := List.mem_map.1 ((toReason_idents body ht).2 (mentioned_of_nil _ hx))
      exact hs.gathered.closed.mentions _ hm y hy

/-- **Every listed name is declared**, as it is spelled. -/
theorem listed_declared (h : name ∈ d.gist.declared.map (·.1)) : ∃ decl ∈ decls, decl.name = name := by
  obtain ⟨env, e, hpart, hn⟩ := (listed_iff hd hu).1 h
  have hx : typeIdent name ∈ e.mentioned [] := by
    cases e <;> cases hn <;> simp [Expr.mentioned]
  obtain ⟨decl, hm, hname, -⟩ :=
    hs.declares_same hd hu hpart hn (hs.mentioned_declared hd hu hpart _ hx)
  exact ⟨decl, hm, hname⟩

end Survey

theorem printDeclaration_some {decl : Decl} (hdecls : d.declarations = .ok decls)
    (htext : ∀ decl ∈ decls, decl.HasText) (hm : decl ∈ decls) (width : Text.Width) :
    ∃ text, d.printDeclaration width decl.name = .ok (some text) := by
  cases hf : decls.find? (·.name == decl.name) with
  | none => exact absurd (List.find?_eq_none.1 hf decl hm) (by simp)
  | some found =>
    obtain ⟨text, ht⟩ := htext found (List.mem_of_find?_eq_some hf) width
    exact ⟨text, by simp only [printDeclaration, hdecls, hf, ht, ok_bind]⟩

end Description

/-- **Nothing declared is dropped, and nothing else appears.** A description that was read without a
report of a redeclaration has declarations of different names. The names are those that the
description lists, in their spelling, and void if it contains void, and either if it contains a sum.
The declarations of void and either are the generated ones, and each listed name has a declaration
that can be printed. -/
theorem declared_names_exact {file source : String} {d : Description} {w : List Report}
    (h : Description.ofSource file source = .ok (d, w))
    (hw : ∀ report ∈ w, report.finding.code ≠ "W301") :
    ∃ decls, d.declarations = .ok decls ∧ (decls.map (·.name)).Nodup ∧
      (∀ name, name ∈ decls.map (·.name) ↔ name ∈ d.names.map (·.1) ∨
        (name = "void" ∧ d.body.Contains .void) ∨
        (name = "either" ∧ ∃ a b rest, d.body.Contains (.sum a b rest))) ∧
      (∀ decl ∈ decls, (decl.name = "void" → decl = voidDecl) ∧
        (decl.name = "either" → decl = eitherDecl)) ∧
      ∀ name ∈ d.names.map (·.1), ∀ width, ∃ text,
        d.printDeclaration width name = .ok (some text) := by
  obtain ⟨hd, hnames, -⟩ := ofSource_sound h
  have hu := unmixed_of_warnings h hw
  have hl : (Env.ofParams d.params).length = d.params.length := by simp [Env.ofParams]
  obtain ⟨decls, own, hs⟩ := hd.survey
  obtain ⟨ds, c, hds, hg⟩ := hd.declarations_gathers
  obtain rfl : ds.reverse = decls := Except.ok.inj (hds.symm.trans hs.declarations)
  refine ⟨ds.reverse, hds, ?_, fun name => ?_, fun decl hm => ⟨fun hn => ?_, fun hn => ?_⟩, ?_⟩
  · have hdistinct := hs.gathered.closed.distinct
    rw [show ds.reverse.map (·.ident) = (ds.reverse.map (·.name)).map typeIdent by simp [Decl.ident]]
      at hdistinct
    exact List.Nodup.of_map _ hdistinct
  · rw [hnames]
    constructor
    · intro hm
      obtain ⟨decl, hdecl, rfl⟩ := List.mem_map.1 hm
      rcases hg.parts (List.forall_mem_singleton.2 .root) decl (List.mem_reverse.1 hdecl) with
        ⟨env, e, hp, hdecl⟩ | ⟨rfl, env, hp⟩ | ⟨rfl, env, a, b, rest, hp⟩
      · exact .inl ((Description.listed_iff hd hu).2 ⟨env, e, hp, hdecl.name?⟩)
      · exact .inr (.inl ⟨rfl, hp.contains⟩)
      · exact .inr (.inr ⟨rfl, a, b, rest, hp.contains⟩)
    · rintro (hm | ⟨rfl, hc⟩ | ⟨rfl, a, b, rest, hc⟩)
      · obtain ⟨decl, hm, hname⟩ := hs.listed_declared hd hu hm
        exact List.mem_map.2 ⟨decl, hm, hname⟩
      · obtain ⟨env, hp⟩ := hc.part hd.body hl
        have hi := hs.mentioned_declared hd hu hp voidDecl.ident (by simp [Expr.mentioned])
        exact List.mem_map.2 ⟨voidDecl, hs.generated_mem (.inl rfl) hi, rfl⟩
      · obtain ⟨env, hp⟩ := hc.part hd.body hl
        have hi := hs.mentioned_declared hd hu hp eitherDecl.ident (by simp [Expr.mentioned])
        exact List.mem_map.2 ⟨eitherDecl, hs.generated_mem (.inr rfl) hi, rfl⟩
  · exact hs.eq_generated hm (.inl rfl) (by rw [Decl.ident, hn]; rfl)
  · exact hs.eq_generated hm (.inr rfl) (by rw [Decl.ident, hn]; rfl)
  · intro name hm width
    rw [hnames] at hm
    obtain ⟨decl, hdecl, rfl⟩ := hs.listed_declared hd hu hm
    exact Description.printDeclaration_some hds hs.gathered.hasText hdecl width

/-- A type that stands twice, with a type inside it that stands nowhere else. -/
theorem declared_names_exact_shared : ∃ d w decls,
    Description.ofSource "shared.tyd"
        "rec P \x7b X: alias q \x7b void \x7d \x7d * (unit + rec P \x7b X: alias q \x7b void \x7d \x7d)" =
      .ok (d, w) ∧
    (∀ report ∈ w, report.finding.code ≠ "W301") ∧ d.declarations = .ok decls ∧
    decls.map (·.name) = ["either", "void", "q", "P"] ∧
    (∀ name, name ∈ decls.map (·.name) ↔ name ∈ d.names.map (·.1) ∨
      (name = "void" ∧ d.body.Contains .void) ∨
      (name = "either" ∧ ∃ a b rest, d.body.Contains (.sum a b rest))) ∧
    ∀ width, ∃ text, d.printDeclaration width "P" = .ok (some text) := by
  obtain ⟨⟨d, w⟩, h, hread⟩ := exists_ok_of_any (Description.ofSource "shared.tyd"
      "rec P \x7b X: alias q \x7b void \x7d \x7d * (unit + rec P \x7b X: alias q \x7b void \x7d \x7d)") (fun x =>
    x.2.isEmpty && x.1.names.map (·.1) == ["q", "P"] &&
    x.1.declarations.toOption.map (·.map (·.name)) == some ["either", "void", "q", "P"])
    (by decide +kernel)
  simp only [Bool.and_eq_true, beq_iff_eq, List.isEmpty_iff] at hread
  obtain ⟨⟨rfl, hnames⟩, hdecls⟩ := hread
  obtain ⟨decls, hd, -, hiff, -, hprint⟩ := declared_names_exact h (by simp)
  rw [hd] at hdecls
  exact ⟨d, [], decls, h, by simp, hd, Option.some.inj hdecls, hiff,
    hprint "P" (by rw [hnames]; simp)⟩

end TypeDesc
