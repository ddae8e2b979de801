/-
The text of a module tells its declarations.

A declaration is printed as a head and items, which are trees of words: the type
of a synonym, or the constructors of a variant. The items stand on one line or on
a line each; both can be read in one way only (`declText_inj`), so that modules
with the same text, at whatever widths, have the same declarations up to
identifiers (`module_text_tells_declarations`).
-/
import TypeDesc.Proofs.TypeText

namespace TypeDesc

open Lexeme (startsWord continuesWord)
open Reason (Ty Decl)
open WordTree (stops Ends listed)

/-! ## Declarations with words for names -/

/-- A head whose names are words. -/
structure Head.Worded (head : Head) : Prop where
  name : IsWord head.name
  params : ∀ param ∈ head.params, IsWord param

/-- A constructor whose name is a word that starts with a letter. -/
structure Ctor.Worded (ctor : Ctor Ty) : Prop where
  name : IsWord ctor.name
  letter : startsWithLetter ctor.name = true
  payload : ctor.payload.Worded True False

/-- A declaration whose names are words and whose tuples have at least two items. No declared type
that is applied to nothing in it has the identifier of unit. -/
inductive Reason.Decl.Worded : Decl → Prop
  | synonym {head : Head} {body : Ty} (hh : head.Worded) (hb : body.Worded True False) :
    Worded (.synonym head body)
  | variant {head : Head} {ctors : List (Ctor Ty)} (hh : head.Worded)
    (hc : ∀ ctor ∈ ctors, ctor.Worded) : Worded (.variant head ctors)

/-- A head with identifiers in the place of names. -/
def Head.spelled (head : Head) : Head :=
  ⟨typeIdent head.name, head.params.map typeIdent⟩

/-- A constructor with identifiers in the place of names. -/
def Ctor.spelled (ctor : Ctor Ty) : Ctor Ty :=
  ⟨ctorIdent ctor.name, ctor.payload.spelled⟩

/-- A declaration with identifiers in the place of names. -/
def Reason.Decl.spelled : Decl → Decl
  | .synonym head body => .synonym head.spelled body.spelled
  | .variant head ctors => .variant head.spelled (ctors.map (·.spelled))

theorem spaced_pair {a b : String} (ha : a ≠ "") (hb : b ≠ "") :
    Text.spaced [a, b] = a ++ " " ++ b := by
  simp [Text.spaced, Text.joinWith, ha, hb]

/-! ## Heads -/

namespace Head

variable {head head' : Head}

/-- A head is printed like the type applied to its parameters. -/
def tree (head : Head) : WordTree :=
  (applyTo head.name head.params).tree

theorem Worded.applied (h : head.Worded) : (applyTo head.name head.params).Worded False True :=
  .applyTo h.name h.params fun _ _ => trivial

theorem spelled_applied (head : Head) : (applyTo head.name head.params).spelled =
    applyTo head.spelled.name head.spelled.params := by
  rw [applyTo, Ty.spelled, Ty.spelledAll_eq, applyTo, List.map_map]
  simp only [spelled, List.map_map]
  rfl

/-- A head is told by its tree. -/
theorem Worded.spelled_eq (h : head.Worded) (h' : head'.Worded) (heq : head.tree = head'.tree) :
    head.spelled = head'.spelled := by
  have htype : applyTo head.spelled.name head.spelled.params =
      applyTo head'.spelled.name head'.spelled.params := by
    rw [← spelled_applied, ← spelled_applied, ← h.applied.type_tree False.elim fun _ => rfl,
      ← h'.applied.type_tree False.elim fun _ => rfl]
    exact congrArg _ heq
  obtain ⟨hname, hparams⟩ := Ty.app.inj htype
  rw [List.map_inj_right fun _ _ => Ty.var.inj] at hparams
  rw [Head.spelled, Head.spelled, Head.mk.injEq]
  exact ⟨hname, hparams⟩

theorem printHead_eq (head : Head) :
    ∃ text, (applyTo head.name head.params).print = .ok text ∧
      Reason.printHead head = Text.spaced ["type", text] := by
  have hvars : ∀ params : List String,
      Ty.printAll (params.map .var) = .ok (params.map varIdent) := by
    intro params
    induction params with
    | nil => rfl
    | cons param params ih =>
      rw [List.map_cons, Ty.printAll, ih]
      rfl
  obtain ⟨name, params⟩ := head
  simp only [applyTo, Ty.print, hvars, ok_bind, Reason.printHead]
  cases params with
  | nil => exact ⟨typeIdent name, rfl, by simp⟩
  | cons param params => exact ⟨_, rfl, rfl⟩

theorem Worded.print (h : head.Worded) :
    (Reason.printHead head).toList = "type ".toList ++ head.tree.text := by
  obtain ⟨text, hp, hhead⟩ := printHead_eq head
  obtain ⟨text', hp', htext⟩ := h.applied.print
  obtain rfl : text = text' := Except.ok.inj (hp.symm.trans hp')
  have hne : text ≠ "" := by
    rintro rfl
    obtain ⟨c, cs, hword, -⟩ := h.name.typeIdent
    rw [applyTo, Ty.tree, WordTree.text_eq, hword] at htext
    cases htext
  rw [hhead, spaced_pair (by decide) hne, String.toList_append, htext]
  rfl

end Head

/-! ## Constructors -/

/-- What is printed behind the name of a constructor that carries `payload`. -/
def Reason.Ty.carried : Ty → List WordTree
  | .unit => []
  | .tuple items => items.map (·.tree)
  | payload => [payload.tree]

/-- The payload of a constructor with certain types behind its name. -/
def payloadOf : List Ty → Ty
  | [] => .unit
  | [payload] => payload
  | items => .tuple items

namespace Ctor

variable {ctor ctor' : Ctor Ty}

/-- What is printed of a constructor. -/
def tree (ctor : Ctor Ty) : WordTree :=
  .node (ctorIdent ctor.name).toList ctor.payload.carried

theorem Worded.legible (h : ctor.Worded) : ctor.tree.Legible := by
  obtain ⟨c, cs, hword, hc, -, hcs⟩ := h.name.ctorIdent h.letter
  refine .node ?_ ?_
  · rw [hword]
    exact List.forall_mem_cons.2 ⟨startsWord_continuesWord hc, hcs⟩
  · have hlegible := h.payload.legible
    cases hp : ctor.payload with
    | unit => simp [Ty.carried]
    | tuple items =>
      rw [hp, Ty.tree, Ty.treeAll_eq] at hlegible
      cases hlegible with
      | node _ hi => exact hi
    | var | app | foreign =>
      rw [hp] at hlegible
      simpa [Ty.carried] using hlegible

theorem Worded.print (h : ctor.Worded) :
    ∃ text, Reason.printCtor ctor = .ok text ∧ text.toList = ctor.tree.text := by
  obtain ⟨name, payload⟩ := ctor
  obtain ⟨text, hp, htext⟩ := h.payload.print
  rw [tree, WordTree.text_eq]
  have hsingle : (ctorIdent name ++ Text.parenthesized text).toList =
      (ctorIdent name).toList ++ WordTree.arguments [payload.tree] := by
    rw [String.toList_append, Text.parenthesized, String.toList_append, String.toList_append, htext]
    rfl
  cases h.payload with
  | unit => exact ⟨ctorIdent name, rfl, (List.append_nil _).symm⟩
  | @tuple items =>
    refine ⟨ctorIdent name ++ text, by simp only [Reason.printCtor, hp, ok_bind], ?_⟩
    rw [String.toList_append, htext, Ty.tree, Ty.treeAll_eq, WordTree.text_eq, List.nil_append]
    rfl
  | var | app => exact ⟨_, by simp only [Reason.printCtor, hp, ok_bind], hsingle⟩

/-- What a constructor carries is told by what is printed behind its name: a tuple there has at
least two items. -/
theorem Worded.payload_eq (h : ctor.Worded) :
    payloadOf (ctor.payload.carried.map (·.type .unit)) = ctor.payload.spelled := by
  obtain ⟨name, payload⟩ := ctor
  have hp := h.payload.type_tree (fun _ => rfl) False.elim
  cases h.payload with
  | unit => rfl
  | @tuple items hlen hi =>
    have hitems : items.map (fun t => t.tree.type .unit) = items.map (·.spelled) :=
      List.map_congr_left fun t ht => (hi t ht).type_tree (fun _ => rfl) False.elim
    rw [Ty.carried, List.map_map, Ty.spelled, Ty.spelledAll_eq, ← hitems]
    cases items with
    | nil => exact absurd hlen (by decide)
    | cons t items =>
      cases items with
      | nil => exact absurd hlen (by simp)
      | cons u items => rfl
  | var | app => exact hp

end Ctor

namespace WordTree

/-- The constructor that a tree tells. -/
def ctor : WordTree → Ctor Ty
  | .node word items => ⟨String.ofList word, payloadOf (items.map (·.type .unit))⟩

/-- Whether the word of a tree is in upper case. -/
def upper : WordTree → Bool
  | .node word _ => word.head?.any (·.isUpper)

end WordTree

theorem Ctor.Worded.ctor_tree {ctor : Ctor Ty} (h : ctor.Worded) :
    ctor.tree.ctor = ctor.spelled := by
  rw [tree, WordTree.ctor, String.ofList_toList, h.payload_eq]
  rfl

theorem Ctor.Worded.upper {ctor : Ctor Ty} (h : ctor.Worded) : ctor.tree.upper = true := by
  obtain ⟨c, cs, hword, -, hc, -⟩ := h.name.ctorIdent h.letter
  rw [tree, WordTree.upper, hword]
  exact hc

theorem Reason.Ty.Worded.upper {unit named : Prop} {t : Ty} (h : t.Worded unit named) :
    t.tree.upper = false := by
  cases h with
  | unit => rfl
  | tuple => rfl
  | var =>
    rw [tree, varIdent_toList]
    rfl
  | app hn =>
    obtain ⟨c, cs, hword, -, hc, -⟩ := hn.typeIdent
    rw [tree, WordTree.upper, hword]
    exact hc

/-- No type is printed like constructors: these are in upper case, and types are not. -/
theorem Ctor.trees_ne_type {ctors : List (Ctor Ty)} {body : Ty}
    (hc : ∀ ctor ∈ ctors, ctor.Worded) (hb : body.Worded True False) :
    ctors.map (·.tree) ≠ [body.tree] := by
  intro heq
  obtain ⟨ctor, rfl, htree⟩ := List.map_eq_singleton_iff.1 heq
  have hup := (hc ctor (by simp)).upper
  rw [htree, hb.upper] at hup
  cases hup

/-! ## One declaration -/

/-- What is printed behind the head of a declaration. -/
def Reason.Decl.items : Decl → List WordTree
  | .synonym _ body => [body.tree]
  | .variant _ ctors => ctors.map (·.tree)

/-- The text of items behind a head, on one line or, if it is broken, on a line each. -/
def itemsText (broken : Bool) : List WordTree → List Char
  | [] => []
  | x :: xs =>
    if broken then ' ' :: '=' :: listed ['\n', ' ', ' ', '|', ' '] (x :: xs)
    else ' ' :: '=' :: ' ' :: (x.text ++ listed [' ', '|', ' '] xs)

/-- The text of a declaration. -/
def declText (broken : Bool) (head : WordTree) (items : List WordTree) : List Char :=
  ['t', 'y', 'p', 'e', ' '] ++ (head.text ++ (itemsText broken items ++ [';']))

section

variable {broken broken' : Bool} {head head' : WordTree} {items items' : List WordTree}
  {r r' : List Char}

/-- **Items are read in one way only**, on one line or on several. -/
theorem itemsText_inj (hi : ∀ x ∈ items, x.Legible) (hi' : ∀ x ∈ items', x.Legible)
    (h : itemsText broken items ++ ';' :: r = itemsText broken' items' ++ ';' :: r') :
    items = items' ∧ r = r' := by
  have hblank : stops ' ' = true := by decide
  have hfeed : stops '\n' = true := by decide
  have hsemi : stops ';' = true := by decide
  cases items with
  | nil =>
    cases items' with
    | nil => exact ⟨rfl, (List.cons.inj h).2⟩
    | cons y ys => cases broken' <;> simp [itemsText] at h
  | cons x xs =>
    cases items' with
    | nil => cases broken <;> simp [itemsText] at h
    | cons y ys =>
      cases broken with
      | false =>
        cases broken' with
        | false =>
          rw [List.forall_mem_cons] at hi hi'
          simp only [itemsText, Bool.false_eq_true, if_false, List.cons_append, List.append_assoc,
            List.cons.injEq, true_and] at h
          obtain ⟨rfl, hrest⟩ := hi.1.readable hi'.1 (.listed hblank hsemi _ _ _)
            (.listed hblank hsemi _ _ _) h
          obtain ⟨rfl, rfl⟩ := WordTree.listed_inj hblank hsemi (by decide)
            (fun x hx => (hi.2 x hx).readable) hi'.2 hrest
          exact ⟨rfl, rfl⟩
        | true => simp [itemsText] at h
      | true =>
        cases broken' with
        | false => simp [itemsText] at h
        | true =>
          simp only [itemsText, if_true, List.cons_append, List.cons.injEq, true_and] at h
          exact WordTree.listed_inj hfeed hsemi (by decide) (fun x hx => (hi x hx).readable) hi' h

theorem itemsText_ends (broken : Bool) (items : List WordTree) (r : List Char) :
    Ends (itemsText broken items ++ ';' :: r) := by
  cases items with
  | nil => exact .cons (by decide) r
  | cons x xs => cases broken <;> exact .cons (by decide) _

/-- **A declaration is read in one way only**, whatever follows it. -/
theorem declText_inj (hh : head.Legible) (hh' : head'.Legible) (hi : ∀ x ∈ items, x.Legible)
    (hi' : ∀ x ∈ items', x.Legible)
    (h : declText broken head items ++ r = declText broken' head' items' ++ r') :
    head = head' ∧ items = items' ∧ r = r' := by
  simp only [declText, List.append_assoc, List.cons_append, List.nil_append, List.cons.injEq,
    true_and] at h
  obtain ⟨rfl, hrest⟩ := hh.readable hh' (itemsText_ends _ _ _) (itemsText_ends _ _ _) h
  obtain ⟨rfl, rfl⟩ := itemsText_inj hi hi' hrest
  exact ⟨rfl, rfl, rfl⟩

end

/-- A legible tree stands on one line. -/
theorem WordTree.Legible.oneLine {x : WordTree} (h : x.Legible) :
    ∀ c ∈ x.text, Text.isLineBoundary c = false := by
  induction h with
  | @node word items hw _ ih =>
    rw [text_eq, List.forall_mem_append]
    refine ⟨fun c hc => (continuesWord_plain (hw c hc)).2.2, ?_⟩
    cases items with
    | nil => simp [arguments]
    | cons x xs =>
      rw [List.forall_mem_cons] at ih
      rw [arguments, closing_eq, List.forall_mem_cons, List.forall_mem_append,
        List.forall_mem_append]
      refine ⟨by decide, ih.1, fun c hc => ?_, List.forall_mem_cons.2 ⟨by decide, by simp⟩⟩
      have hsep : ∀ c ∈ [',', ' '], Text.isLineBoundary c = false := by
        rw [List.forall_mem_cons, List.forall_mem_cons]
        exact ⟨by decide, by decide, by simp⟩
      obtain ⟨y, hy, hmem⟩ := List.mem_flatMap.1 hc
      rcases List.mem_append.1 hmem with hc | hc
      · exact hsep c hc
      · exact ih.2 y hy c hc

theorem indented_line {text : String} (h : ∀ c ∈ text.toList, Text.isLineBoundary c = false)
    (hne : text ≠ "") (n : Int) : Text.indented text n = Text.blanks n ++ text := by
  have hcs : text.toList ≠ [] := by simpa using hne
  rw [Text.indented, Text.lines, Text.splitLines_line h hcs]
  simp [Text.joinWith, hne]

/-- A group stands on one line, or each of its items on a line of its own. -/
theorem grouped_cases (width : Text.Width) (head : String) (items : List String)
    (sep tail : String) :
    Text.grouped width head items sep tail =
        Text.spaced [head, Text.joinWith (" " ++ sep ++ " ") items] ++ tail ∨
      Text.grouped width head items sep tail =
        Text.joinWith "\n" (head :: items.map fun item => Text.indented (sep ++ " " ++ item) 2) ++
          tail := by
  simp only [Text.grouped]
  split
  · exact .inl rfl
  · exact .inr rfl

theorem grouped_toList (width : Text.Width) {head : String} {tree : WordTree} {texts : List String}
    {x : WordTree} {xs : List WordTree} (hhead : head.toList = "type ".toList ++ tree.text)
    (hlegible : ∀ y ∈ x :: xs, y.Legible) (hne : x.text ≠ [])
    (htexts : texts.map (·.toList) = (x :: xs).map (·.text)) :
    ∃ broken, (Text.grouped width (head ++ " =") texts "|" ";").toList =
      declText broken tree (x :: xs) := by
  have hlines : texts.map (fun item => Text.indented ("|" ++ " " ++ item) 2) =
      texts.map fun item => "  | " ++ item := by
    refine List.map_congr_left fun item hm => ?_
    obtain ⟨y, hy, htext⟩ := List.mem_map.1 (htexts ▸ List.mem_map_of_mem hm)
    have hline : ∀ c ∈ ("|" ++ " " ++ item).toList, Text.isLineBoundary c = false := by
      have hbar : ("|" ++ " ").toList = ['|', ' '] := by decide
      rw [String.toList_append, ← htext, hbar, List.forall_mem_append, List.forall_mem_cons,
        List.forall_mem_cons]
      exact ⟨⟨by decide, by decide, by simp⟩, (hlegible y hy).oneLine⟩
    rw [indented_line hline (by simp), ← String.append_assoc]
    rfl
  rcases grouped_cases width (head ++ " =") texts "|" ";" with hflat | hbroken
  · refine ⟨false, ?_⟩
    rw [hflat]
    cases texts with
    | nil => cases htexts
    | cons text texts =>
      rw [List.map_cons, List.map_cons, List.cons.injEq] at htexts
      have hjoin : (Text.joinWith (" " ++ "|" ++ " ") (text :: texts)).toList =
          x.text ++ listed [' ', '|', ' '] xs := by
        rw [joinWith_toList, htexts.1]
        exact congrArg _ (flatMap_toList htexts.2 [' ', '|', ' '])
      have hsome : Text.joinWith (" " ++ "|" ++ " ") (text :: texts) ≠ "" := by
        intro hempty
        rw [hempty] at hjoin
        exact hne (List.append_eq_nil_iff.1 hjoin.symm).1
      rw [spaced_pair (by simp) hsome]
      simp only [String.toList_append, hhead, hjoin, declText, itemsText, Bool.false_eq_true,
        if_false, List.append_assoc, List.cons_append]
      rfl
  · refine ⟨true, ?_⟩
    have hlist : ((texts.map fun item => "  | " ++ item).flatMap fun text =>
        "\n".toList ++ text.toList) = listed ['\n', ' ', ' ', '|', ' '] (x :: xs) := by
      rw [List.flatMap_map, ← flatMap_toList htexts]
      congr 1
      funext text
      rw [String.toList_append]
      rfl
    rw [hbroken, String.toList_append, hlines, joinWith_toList, hlist, String.toList_append, hhead]
    simp only [declText, itemsText, if_true, List.append_assoc]
    rfl

theorem printCtors_trees {ctors : List (Ctor Ty)} (h : ∀ ctor ∈ ctors, ctor.Worded) :
    ∃ texts, Reason.printCtors ctors = .ok texts ∧
      texts.map (·.toList) = (ctors.map (·.tree)).map (·.text) := by
  induction ctors with
  | nil => exact ⟨[], rfl, rfl⟩
  | cons ctor ctors ih =>
    rw [List.forall_mem_cons] at h
    obtain ⟨text, hp, htext⟩ := h.1.print
    obtain ⟨texts, hps, htexts⟩ := ih h.2
    refine ⟨text :: texts, by simp only [Reason.printCtors, hp, hps, ok_bind], ?_⟩
    rw [List.map_cons, htext, htexts]
    rfl

namespace Reason.Decl

variable {d d' : Decl}

theorem Worded.head (h : d.Worded) : d.head.Worded := by
  cases h with
  | synonym hh _ => exact hh
  | variant hh _ => exact hh

theorem Worded.items (h : d.Worded) : ∀ x ∈ d.items, x.Legible := by
  cases h with
  | synonym _ hb => simpa [Decl.items] using hb.legible
  | variant _ hc => exact List.forall_mem_map.2 fun ctor hm => (hc ctor hm).legible

/-- **A declaration has a text, that of its trees**, broken or not. -/
theorem Worded.print (h : d.Worded) (width : Text.Width) :
    ∃ text broken, d.print width = .ok text ∧
      text.toList = declText broken d.head.tree d.items := by
  have hhead := h.head.print
  cases h with
  | @synonym head body _ hb =>
    obtain ⟨text, hp, htext⟩ := hb.print
    refine ⟨_, false, by rw [Decl.print, hp, ok_bind], ?_⟩
    simp only [String.toList_append, htext, declText, Decl.items, itemsText, Bool.false_eq_true,
      if_false, WordTree.listed_nil, List.append_nil]
    rw [show (printHead head).toList = _ from hhead]
    simp only [List.append_assoc, List.cons_append]
    rfl
  | @variant head ctors _ hc =>
    obtain ⟨texts, hp, htexts⟩ := printCtors_trees hc
    cases ctors with
    | nil =>
      refine ⟨_, false, rfl, ?_⟩
      rw [String.toList_append, show (printHead head).toList = _ from hhead, List.append_assoc]
      rfl
    | cons ctor ctors =>
      have hctor := hc ctor (by simp)
      obtain ⟨c, cs, hword, -⟩ := hctor.name.ctorIdent hctor.letter
      have hne : ctor.tree.text ≠ [] := by
        rw [Ctor.tree, WordTree.text_eq, hword]
        simp
      have hlegible : ∀ x ∈ ctor.tree :: ctors.map (·.tree), x.Legible :=
        List.forall_mem_map (l := ctor :: ctors) |>.2 fun ctor hm => (hc ctor hm).legible
      obtain ⟨broken, htext⟩ := grouped_toList width hhead hlegible hne htexts
      refine ⟨_, broken, ?_, htext⟩
      rw [Decl.print.eq_3 _ _ _ (by simp), hp, ok_bind]
      rfl

/-- **The head and the items of a declaration tell it.** -/
theorem Worded.spelled_eq (h : d.Worded) (h' : d'.Worded) (hhead : d.head.tree = d'.head.tree)
    (hitems : d.items = d'.items) : d.spelled = d'.spelled := by
  have hspelled := h.head.spelled_eq h'.head hhead
  cases h with
  | @synonym head body _ hb =>
    cases h' with
    | @synonym head' body' _ hb' =>
      have htree : body.tree = body'.tree := List.singleton_inj.1 hitems
      have hbody : body.spelled = body'.spelled := by
        rw [← hb.type_tree (fun _ => rfl) False.elim, ← hb'.type_tree (fun _ => rfl) False.elim,
          htree]
      rw [spelled, spelled, hbody]
      exact congrArg (Decl.synonym · _) hspelled
    | variant _ hc => exact absurd hitems.symm (Ctor.trees_ne_type hc hb)
  | @variant head ctors _ hc =>
    cases h' with
    | synonym _ hb => exact absurd hitems (Ctor.trees_ne_type hc hb)
    | @variant head' ctors' _ hc' =>
      have htold : ∀ {ctors : List (Ctor Ty)}, (∀ ctor ∈ ctors, ctor.Worded) →
          ctors.map (·.spelled) = (ctors.map (·.tree)).map (·.ctor) := by
        intro ctors hc
        rw [List.map_map]
        exact List.map_congr_left fun ctor hm => (hc ctor hm).ctor_tree.symm
      have hctors : ctors.map (·.spelled) = ctors'.map (·.spelled) := by
        rw [htold hc, htold hc']
        exact congrArg _ hitems
      rw [spelled, spelled, hctors]
      exact congrArg (Decl.variant · _) hspelled

end Reason.Decl

/-! ## Modules -/

/-- `Blocks ds cs`: the declarations `ds` are printed one after the other, each behind an empty
line, and then the line ends. -/
inductive Blocks : List Decl → List Char → Prop
  | nil : Blocks [] ['\n']
  | cons {d : Decl} {ds : List Decl} {cs : List Char} (broken : Bool) (h : Blocks ds cs) :
    Blocks (d :: ds) ('\n' :: '\n' :: (declText broken d.head.tree d.items ++ cs))

/-- **Blocks are read one by one**, whether each is broken or not. -/
theorem Blocks.spelled_eq {ds ds' : List Decl} {cs : List Char} (h : Blocks ds cs)
    (h' : Blocks ds' cs) (hd : ∀ d ∈ ds, d.Worded) (hd' : ∀ d ∈ ds', d.Worded) :
    ds.map (·.spelled) = ds'.map (·.spelled) := by
  induction h generalizing ds' with
  | nil =>
    cases h' with
    | nil => rfl
  | @cons d ds cs broken h ih =>
    -- the text of `h'` has to be a variable for its cases; the equation keeps what it is
    generalize htext : '\n' :: '\n' :: (declText broken d.head.tree d.items ++ cs) = text at h'
    cases h' with
    | nil => cases htext
    | @cons d' ds' cs' broken' h' =>
      rw [List.forall_mem_cons] at hd hd'
      simp only [List.cons.injEq, true_and] at htext
      obtain ⟨hhead, hitems, rfl⟩ := declText_inj hd.1.head.applied.legible
        hd'.1.head.applied.legible hd.1.items hd'.1.items htext
      rw [List.map_cons, List.map_cons, hd.1.spelled_eq hd'.1 hhead hitems, ih h' hd.2 hd'.2]

/-- A declaration starts with its keyword, so that no more than one line is empty. -/
theorem Blocks.head {ds : List Decl} {cs : List Char} (h : Blocks ds ('\n' :: '\n' :: cs)) :
    cs.head? = some 't' := by
  cases h with
  | cons broken h => rfl

theorem printDecls_blocks (width : Text.Width) {ds : List Decl} (h : ∀ d ∈ ds, d.Worded) :
    ∃ texts, Reason.printDecls width ds = .ok texts ∧ (∀ text ∈ texts, text ≠ "") ∧
      Blocks ds ((texts.flatMap fun text => '\n' :: '\n' :: text.toList) ++ ['\n']) := by
  induction ds with
  | nil => exact ⟨[], rfl, by simp, .nil⟩
  | cons d ds ih =>
    rw [List.forall_mem_cons] at h
    obtain ⟨text, broken, hp, htext⟩ := h.1.print width
    obtain ⟨texts, hps, hne, hblocks⟩ := ih h.2
    have hsome : text ≠ "" := by
      rintro rfl
      cases htext
    refine ⟨text :: texts, by simp only [Reason.printDecls, hp, hps, ok_bind],
      List.forall_mem_cons.2 ⟨hsome, hne⟩, ?_⟩
    rw [List.flatMap_cons, htext, List.append_assoc]
    exact .cons broken hblocks

/-- The text of a module: nothing but the end of a line, or the blocks without the first empty
line. -/
theorem printModule_blocks (width : Text.Width) {ds : List Decl} (h : ∀ d ∈ ds, d.Worded) :
    ∃ text, Reason.printModule width ds = .ok text ∧
      (ds = [] ∧ text.toList = ['\n'] ∨ Blocks ds ('\n' :: '\n' :: text.toList)) := by
  obtain ⟨texts, hp, hne, hblocks⟩ := printDecls_blocks width h
  have hfilter : texts.filter (· ≠ "") = texts := List.filter_eq_self.2 (by simpa using hne)
  refine ⟨_, by rw [Reason.printModule, hp, ok_bind], ?_⟩
  rw [Text.stacked, hfilter, String.toList_append]
  cases texts with
  | nil =>
    cases hblocks with
    | nil => exact .inl ⟨rfl, rfl⟩
  | cons text texts =>
    refine .inr ?_
    rw [joinWith_toList]
    rw [List.flatMap_cons] at hblocks
    exact hblocks

/-- **The text of a module tells its declarations**, at whatever widths modules are printed. -/
theorem module_text_tells_declarations {ds ds' : List Decl} (hd : ∀ d ∈ ds, d.Worded)
    (hd' : ∀ d ∈ ds', d.Worded) (width width' : Text.Width) :
    ∃ text text', Reason.printModule width ds = .ok text ∧
      Reason.printModule width' ds' = .ok text' ∧
      (text = text' → ds.map (·.spelled) = ds'.map (·.spelled)) := by
  obtain ⟨text, hp, hblocks⟩ := printModule_blocks width hd
  obtain ⟨text', hp', hblocks'⟩ := printModule_blocks width' hd'
  refine ⟨text, text', hp, hp', fun heq => ?_⟩
  subst heq
  rcases hblocks with ⟨rfl, htext⟩ | hblocks
  · rcases hblocks' with ⟨rfl, -⟩ | hblocks'
    · rfl
    · have hstart := hblocks'.head
      rw [htext] at hstart
      cases hstart
  · rcases hblocks' with ⟨rfl, htext⟩ | hblocks'
    · have hstart := hblocks.head
      rw [htext] at hstart
      cases hstart
    · exact hblocks.spelled_eq hblocks' hd hd'

/-- The type of lists under the given names. -/
def listDecl (name nil cons : String) : Decl :=
  .variant ⟨name, ["a"]⟩ [⟨nil, .unit⟩, ⟨cons, .tuple [.var "a", .app name [.var "a"]]⟩]

/-- Two spellings of the type of lists, one of them printed on a line that just has room. -/
theorem module_text_tells_declarations_list :
    (∀ d ∈ [listDecl "List" "nil" "Cons"], d.Worded) ∧
      (∀ d ∈ [listDecl "list" "Nil" "cons"], d.Worded) ∧
      ∃ text, Reason.printModule (.columns 41) [listDecl "List" "nil" "Cons"] = .ok text ∧
        Reason.printModule .unbounded [listDecl "list" "Nil" "cons"] = .ok text ∧
        (listDecl "List" "nil" "Cons").spelled = (listDecl "list" "Nil" "cons").spelled := by
  have ha : (Ty.var "a").Worded True False := .var (by decide +kernel)
  have hlist : ∀ {name nil cons : String}, IsWord name → IsWord nil ∧ startsWithLetter nil = true →
      IsWord cons ∧ startsWithLetter cons = true → ∀ d ∈ [listDecl name nil cons], d.Worded := by
    intro name nil cons hname hnil hcons d hd
    rw [List.mem_singleton.1 hd]
    have happ : (Ty.app name [.var "a"]).Worded True False :=
      .app hname (by simp) (by simpa using ha)
    have htuple : (Ty.tuple [.var "a", .app name [.var "a"]]).Worded True False :=
      .tuple (by simp) (by simpa using ⟨ha, happ⟩)
    refine .variant ⟨hname, by simpa using (by decide +kernel : IsWord "a")⟩ ?_
    simpa using ⟨⟨hnil.1, hnil.2, .unit trivial⟩, hcons.1, hcons.2, htuple⟩
  have hd := hlist (show IsWord "List" by decide +kernel)
    (show IsWord "nil" ∧ _ by decide +kernel) (show IsWord "Cons" ∧ _ by decide +kernel)
  have hd' := hlist (show IsWord "list" by decide +kernel)
    (show IsWord "Nil" ∧ _ by decide +kernel) (show IsWord "cons" ∧ _ by decide +kernel)
  obtain ⟨text, text', hp, hp', htold⟩ :=
    module_text_tells_declarations hd hd' (.columns 41) .unbounded
  have hsame : (Reason.printModule (.columns 41) [listDecl "List" "nil" "Cons"]).toOption =
      (Reason.printModule .unbounded [listDecl "list" "Nil" "cons"]).toOption := by decide +kernel
  rw [hp, hp'] at hsame
  obtain rfl : text = text' := Option.some.inj hsame
  exact ⟨hd, hd', text, hp, hp', List.singleton_inj.1 (htold rfl)⟩

end TypeDesc
