/-
The text of a type tells the type.

What is printed of a type is a tree of words with parentheses around their items
(`Reason.Ty.tree`), and the text of such a tree can be read in one way only,
whatever follows it (`WordTree.Legible.readable`). A tree tells its type, names
aside that make the same identifier (`Reason.Ty.Worded.type_tree`), unless unit has
to be told from a declared type of that identifier.
-/
import TypeDesc.Expr.Reason
import TypeDesc.Proofs.Outcome
import TypeDesc.Proofs.Pieces
import TypeDesc.Reason.Printer

namespace TypeDesc

open Lexeme (startsWord continuesWord)

/-! ## Trees of words -/

/-- A word, which may be empty, and the items that stand behind it in parentheses. -/
inductive WordTree
  | node (word : List Char) (items : List WordTree)

namespace WordTree

mutual
/-- The text of a tree. A word without items has no parentheses. -/
def text : WordTree → List Char
  | .node word [] => word
  | .node word (x :: xs) => word ++ '(' :: (x.text ++ closing xs)

/-- The text of the items behind the first, with the parenthesis that closes them. -/
def closing : List WordTree → List Char
  | [] => [')']
  | x :: xs => ',' :: ' ' :: (x.text ++ closing xs)
end

/-- The texts of trees, each behind `sep`. -/
def listed (sep : List Char) (xs : List WordTree) : List Char :=
  xs.flatMap fun x => sep ++ x.text

@[simp] theorem listed_nil (sep : List Char) : listed sep [] = [] := rfl

@[simp] theorem listed_cons (sep : List Char) (x : WordTree) (xs : List WordTree) :
    listed sep (x :: xs) = sep ++ (x.text ++ listed sep xs) := by
  rw [listed, List.flatMap_cons, List.append_assoc]
  rfl

theorem closing_eq (xs : List WordTree) : closing xs = listed [',', ' '] xs ++ [')'] := by
  induction xs with
  | nil => rfl
  | cons x xs ih =>
    rw [closing, ih, listed_cons]
    simp

/-- A tree whose words consist of characters that go on with a word. -/
inductive Legible : WordTree → Prop
  | node {word : List Char} {items : List WordTree} (hw : ∀ c ∈ word, continuesWord c = true)
    (hi : ∀ x ∈ items, Legible x) : Legible (.node word items)

/-- A tree ends in front of `c`. -/
def stops (c : Char) : Bool :=
  !continuesWord c && c ≠ '('

/-- A tree ends in front of `r`. -/
def Ends (r : List Char) : Prop :=
  ∀ c ∈ r.head?, stops c = true

/-- The tree is read from any text that starts with its own, if it ends there. -/
def Readable (x : WordTree) : Prop :=
  ∀ {y : WordTree} {r r' : List Char}, y.Legible → Ends r → Ends r' →
    x.text ++ r = y.text ++ r' → x = y ∧ r = r'

theorem Ends.cons {c : Char} (hc : stops c = true) (r : List Char) : Ends (c :: r) := by
  intro x hx
  obtain rfl : c = x := by simpa using hx
  exact hc

theorem Ends.listed {s stop : Char} (hs : stops s = true) (hstop : stops stop = true)
    (sep r : List Char) (xs : List WordTree) : Ends (listed (s :: sep) xs ++ stop :: r) := by
  cases xs with
  | nil => exact .cons hstop r
  | cons x xs => exact .cons hs _

/-- **Trees in a row are read one by one** up to the character that stops them. -/
theorem listed_inj {s stop : Char} (hs : stops s = true) (hstop : stops stop = true)
    (hne : s ≠ stop) {sep : List Char} {xs : List WordTree} (hx : ∀ x ∈ xs, x.Readable) :
    ∀ {ys : List WordTree} {r r' : List Char}, (∀ y ∈ ys, y.Legible) →
      listed (s :: sep) xs ++ stop :: r = listed (s :: sep) ys ++ stop :: r' →
      xs = ys ∧ r = r' := by
  induction xs with
  | nil =>
    intro ys r r' _ h
    cases ys with
    | nil => exact ⟨rfl, (List.cons.inj h).2⟩
    | cons y ys => exact absurd (List.cons.inj h).1.symm hne
  | cons x xs ih =>
    intro ys r r' hy h
    cases ys with
    | nil => exact absurd (List.cons.inj h).1 hne
    | cons y ys =>
      rw [List.forall_mem_cons] at hx hy
      simp only [listed_cons, List.append_assoc, List.append_cancel_left_eq] at h
      obtain ⟨rfl, hrest⟩ := hx.1 hy.1 (.listed hs hstop _ _ _) (.listed hs hstop _ _ _) h
      obtain ⟨rfl, rfl⟩ := ih hx.2 hy.2 hrest
      exact ⟨rfl, rfl⟩

/-- What stands behind the word of a tree. -/
def arguments : List WordTree → List Char
  | [] => []
  | x :: xs => '(' :: (x.text ++ closing xs)

theorem text_eq (word : List Char) (items : List WordTree) :
    (node word items).text = word ++ arguments items := by
  cases items with
  | nil => rw [text, arguments, List.append_nil]
  | cons x xs => rw [text, arguments]

theorem arguments_stop {r : List Char} (hr : Ends r) (items : List WordTree) :
    ∀ c ∈ (arguments items ++ r).head?, continuesWord c = false := by
  cases items with
  | nil =>
    intro c hc
    have hstop := hr c hc
    simp only [stops, Bool.and_eq_true, Bool.not_eq_true'] at hstop
    exact hstop.1
  | cons x xs =>
    intro c hc
    obtain rfl : '(' = c := by simpa [arguments] using hc
    decide

/-- **A legible tree can be read in one way only.** Its word runs up to the first other character,
and its items are read one by one. -/
theorem Legible.readable {x : WordTree} (hx : x.Legible) : x.Readable := by
  induction hx with
  | @node word items hw _ ih =>
    intro y r r' hy hr hr' h
    cases hy with
    | @node word' items' hw' hi' =>
      rw [text_eq, text_eq, List.append_assoc, List.append_assoc] at h
      -- both words are the run of word characters that the common text starts with
      have hword : word = word' := by
        rw [← takeWhile_exact hw (arguments_stop hr items), h,
          takeWhile_exact hw' (arguments_stop hr' items')]
      subst hword
      rw [List.append_cancel_left_eq] at h
      cases items with
      | nil =>
        cases items' with
        | nil => exact ⟨rfl, h⟩
        | cons y ys =>
          have hstop := hr '(' (by rw [show r = _ from h]; rfl)
          simp [stops] at hstop
      | cons x xs =>
        cases items' with
        | nil =>
          have hstop := hr' '(' (by rw [show r' = _ from h.symm]; rfl)
          simp [stops] at hstop
        | cons y ys =>
          rw [List.forall_mem_cons] at ih hi'
          simp only [arguments, closing_eq, List.cons_append, List.append_assoc, List.nil_append,
            List.cons.injEq, true_and] at h
          have hcomma : stops ',' = true := by decide
          have hparen : stops ')' = true := by decide
          obtain ⟨rfl, hrest⟩ := ih.1 hi'.1 (.listed hcomma hparen _ _ _)
            (.listed hcomma hparen _ _ _) h
          obtain ⟨rfl, rfl⟩ := listed_inj hcomma hparen (by decide) ih.2 hi'.2 hrest
          exact ⟨rfl, rfl⟩

end WordTree

/-! ## Words -/

/-- A text that is scanned as one word. -/
def IsWord (name : String) : Prop :=
  ∃ c cs, name.toList = c :: cs ∧ startsWord c = true ∧ ∀ x ∈ cs, continuesWord x = true

instance (name : String) : Decidable (IsWord name) :=
  match h : name.toList with
  | [] => .isFalse fun ⟨_, _, hname, _⟩ => List.cons_ne_nil _ _ (hname.symm.trans h)
  | c :: cs =>
    decidable_of_iff ((startsWord c && cs.all continuesWord) = true) <| by
      rw [Bool.and_eq_true, List.all_eq_true]
      constructor
      · exact fun hw => ⟨c, cs, h, hw⟩
      · rintro ⟨c', cs', h', hw⟩
        cases h.symm.trans h'
        exact hw

/-- What lower case makes of the start of a word. -/
theorem toLower_startsWord {c : Char} (h : startsWord c = true) :
    Text.lowerChar c = [c.toLower] ∧ startsWord c.toLower = true ∧ c.toLower.isUpper = false := by
  have hascii : c.toNat < 128 := continuesWord_ascii (startsWord_continuesWord h)
  have hall : ∀ n < 128, startsWord (Char.ofNat n) = true →
      startsWord (Char.ofNat n).toLower = true ∧ (Char.ofNat n).toLower.isUpper = false := by decide
  have hc := hall c.toNat hascii
  rw [Char.ofNat_toNat] at hc
  exact ⟨if_pos hascii, hc h⟩

/-- What upper case makes of a letter. -/
theorem toUpper_letter {c : Char} (h : startsWord c = true) (hl : Text.isAsciiLetter c = true) :
    Text.upperChar c = [c.toUpper] ∧ startsWord c.toUpper = true ∧ c.toUpper.isUpper = true := by
  have hascii : c.toNat < 128 := continuesWord_ascii (startsWord_continuesWord h)
  have hall : ∀ n < 128, Text.isAsciiLetter (Char.ofNat n) = true →
      startsWord (Char.ofNat n).toUpper = true ∧ (Char.ofNat n).toUpper.isUpper = true := by decide
  have hc := hall c.toNat hascii
  rw [Char.ofNat_toNat] at hc
  exact ⟨if_pos hascii, hc hl⟩

theorem mapFirst_toList {f : Char → List Char} {name : String} {c : Char} {cs : List Char}
    (h : name.toList = c :: cs) : (mapFirst f name).toList = f c ++ cs := by
  rw [mapFirst, h]
  exact String.toList_ofList

namespace IsWord

variable {name : String}

/-- The identifier of a type is a word, and not in upper case. -/
theorem typeIdent (h : IsWord name) : ∃ c cs, (typeIdent name).toList = c :: cs ∧
    startsWord c = true ∧ c.isUpper = false ∧ ∀ x ∈ cs, continuesWord x = true := by
  obtain ⟨c, cs, hname, hc, hcs⟩ := h
  obtain ⟨hlower, hstart, hup⟩ := toLower_startsWord hc
  have hmap : (mapFirst Text.lowerChar name).toList = c.toLower :: cs := by
    rw [mapFirst_toList hname, hlower]
    rfl
  unfold TypeDesc.typeIdent
  by_cases hr : mapFirst Text.lowerChar name ∈ reservedWords
  · refine ⟨c.toLower, cs ++ ['_'], ?_, hstart, hup, ?_⟩
    · simp only [hr, if_true, String.toList_append, hmap]
      rfl
    · intro x hx
      rcases List.mem_append.1 hx with hx | hx
      · exact hcs x hx
      · rw [List.mem_singleton.1 hx]
        decide
  · refine ⟨c.toLower, cs, ?_, hstart, hup, hcs⟩
    simp only [hr, if_false, hmap]

/-- The identifier of a constructor is a word in upper case. -/
theorem ctorIdent (h : IsWord name) (hl : startsWithLetter name = true) :
    ∃ c cs, (ctorIdent name).toList = c :: cs ∧ startsWord c = true ∧ c.isUpper = true ∧
      ∀ x ∈ cs, continuesWord x = true := by
  obtain ⟨c, cs, hname, hc, hcs⟩ := h
  rw [startsWithLetter, hname] at hl
  obtain ⟨hupper, hstart, hup⟩ := toUpper_letter hc hl
  refine ⟨c.toUpper, cs, ?_, hstart, hup, hcs⟩
  rw [TypeDesc.ctorIdent, mapFirst_toList hname, hupper]
  rfl

theorem typeIdent_continues (h : IsWord name) :
    ∀ x ∈ (TypeDesc.typeIdent name).toList, continuesWord x = true := by
  obtain ⟨c, cs, hname, hc, -, hcs⟩ := h.typeIdent
  rw [hname]
  exact List.forall_mem_cons.2 ⟨startsWord_continuesWord hc, hcs⟩

end IsWord

theorem varIdent_toList (name : String) :
    (varIdent name).toList = '\x27' :: (typeIdent name).toList := by
  rw [varIdent, String.toList_append]
  rfl

/-! ## Types -/

namespace Reason.Ty

mutual
/-- A type with the identifiers that its names make in their place. -/
def spelled : Ty → Ty
  | .unit => .unit
  | .tuple items => .tuple (spelledAll items)
  | .var name => .var (typeIdent name)
  | .app name args => .app (typeIdent name) (spelledAll args)
  | .foreign value => .foreign value

/-- `spelled` on every type of a list. -/
def spelledAll : List Ty → List Ty
  | [] => []
  | t :: ts => spelled t :: spelledAll ts
end

mutual
/-- What is printed of a type. -/
def tree : Ty → WordTree
  | .unit => .node "unit".toList []
  | .tuple items => .node [] (treeAll items)
  | .var name => .node (varIdent name).toList []
  | .app name args => .node (typeIdent name).toList (treeAll args)
  | .foreign _ => .node [] []

/-- `tree` on every type of a list. -/
def treeAll : List Ty → List WordTree
  | [] => []
  | t :: ts => tree t :: treeAll ts
end

theorem spelledAll_eq (ts : List Ty) : spelledAll ts = ts.map spelled := by
  induction ts with
  | nil => rfl
  | cons t ts ih => rw [spelledAll, ih, List.map_cons]

theorem treeAll_eq (ts : List Ty) : treeAll ts = ts.map tree := by
  induction ts with
  | nil => rfl
  | cons t ts ih => rw [treeAll, ih, List.map_cons]

/-- The names in a type are words, and its tuples have at least two items. Unit occurs only if
`unit` holds, and a declared type without arguments whose identifier is that of unit only if
`named` holds. -/
inductive Worded (unit named : Prop) : Ty → Prop
  | unit (hu : unit) : Worded unit named .unit
  | tuple {items : List Ty} (hlen : 2 ≤ items.length) (hi : ∀ t ∈ items, Worded unit named t) :
    Worded unit named (.tuple items)
  | var {name : String} (hn : IsWord name) : Worded unit named (.var name)
  | app {name : String} {args : List Ty} (hn : IsWord name)
    (hb : args = [] → typeIdent name = "unit" → named) (ha : ∀ t ∈ args, Worded unit named t) :
    Worded unit named (.app name args)

variable {unit named : Prop} {t t' : Ty}

theorem Worded.applyTo {name : String} {params : List String} (hn : IsWord name)
    (hp : ∀ param ∈ params, IsWord param) (hb : params = [] → typeIdent name = "unit" → named) :
    (applyTo name params).Worded unit named := by
  refine .app hn (fun hnil => hb (List.map_eq_nil_iff.1 hnil)) fun t ht => ?_
  obtain ⟨param, hm, rfl⟩ := List.mem_map.1 ht
  exact .var (hp param hm)

theorem Worded.legible (h : t.Worded unit named) : t.tree.Legible := by
  induction h with
  | unit =>
    have hword : "unit".toList.all continuesWord = true := by decide
    exact .node (List.all_eq_true.1 hword) (by simp)
  | tuple _ _ ih =>
    rw [tree, treeAll_eq]
    exact .node (by simp) (List.forall_mem_map.2 ih)
  | var hn =>
    rw [tree, varIdent_toList]
    exact .node (List.forall_mem_cons.2 ⟨by decide, hn.typeIdent_continues⟩) (by simp)
  | app hn _ _ ih =>
    rw [tree, treeAll_eq]
    exact .node hn.typeIdent_continues (List.forall_mem_map.2 ih)

end Reason.Ty

/-! ## What is printed -/

theorem joinWith_toList (sep text : String) (texts : List String) :
    (Text.joinWith sep (text :: texts)).toList =
      text.toList ++ texts.flatMap fun text => sep.toList ++ text.toList := by
  induction texts generalizing text with
  | nil => simp [Text.joinWith]
  | cons next texts ih =>
    rw [Text.joinWith, String.toList_append, String.toList_append, ih, List.flatMap_cons,
      List.append_assoc, List.append_assoc]
    simp

theorem flatMap_toList {texts : List String} {xs : List WordTree}
    (h : texts.map (·.toList) = xs.map (·.text)) (sep : List Char) :
    (texts.flatMap fun text => sep ++ text.toList) = WordTree.listed sep xs := by
  have hmap := congrArg (List.map fun cs => sep ++ cs) h
  rw [List.map_map, List.map_map] at hmap
  rw [WordTree.listed, List.flatMap_def, List.flatMap_def]
  exact congrArg List.flatten hmap

namespace Reason.Ty

variable {unit named : Prop} {t t' : Ty}

theorem printAll_tree {ts : List Ty}
    (h : ∀ t ∈ ts, ∃ text, t.print = .ok text ∧ text.toList = t.tree.text) :
    ∃ texts, printAll ts = .ok texts ∧ texts.map (·.toList) = (treeAll ts).map (·.text) := by
  induction ts with
  | nil => exact ⟨[], rfl, rfl⟩
  | cons t ts ih =>
    rw [List.forall_mem_cons] at h
    obtain ⟨⟨text, hp, htext⟩, hts⟩ := h
    obtain ⟨texts, hps, htexts⟩ := ih hts
    refine ⟨text :: texts, by simp only [printAll, hp, hps, ok_bind], ?_⟩
    rw [treeAll, List.map_cons, List.map_cons, htext, htexts]

/-- Texts in parentheses with commas between them are the items of a tree. -/
theorem parenthesized_toList {texts : List String} {x : WordTree} {xs : List WordTree}
    (h : texts.map (·.toList) = (x :: xs).map (·.text)) :
    (Text.parenthesized (Text.commaSeparated texts)).toList = WordTree.arguments (x :: xs) := by
  cases texts with
  | nil => cases h
  | cons text texts =>
    rw [List.map_cons, List.map_cons, List.cons.injEq] at h
    rw [Text.parenthesized, Text.commaSeparated, String.toList_append, String.toList_append,
      joinWith_toList, flatMap_toList h.2, h.1, WordTree.arguments, WordTree.closing_eq,
      ← List.append_assoc x.text]
    rfl

/-- **A type has a text, that of its tree.** -/
theorem Worded.print (h : t.Worded unit named) :
    ∃ text, t.print = .ok text ∧ text.toList = t.tree.text := by
  induction h with
  | unit => exact ⟨"unit", rfl, rfl⟩
  | @tuple items hlen _ ih =>
    obtain ⟨texts, hp, htexts⟩ := printAll_tree ih
    cases items with
    | nil => simp at hlen
    | cons t ts =>
      refine ⟨_, by rw [Ty.print, hp, ok_bind], ?_⟩
      rw [treeAll] at htexts
      rw [parenthesized_toList htexts, tree, treeAll, WordTree.text_eq, List.nil_append]
  | @var name => exact ⟨varIdent name, rfl, rfl⟩
  | @app name args _ _ _ ih =>
    obtain ⟨texts, hp, htexts⟩ := printAll_tree ih
    cases args with
    | nil =>
      cases texts with
      | nil => exact ⟨typeIdent name, by rw [Ty.print, hp]; rfl, rfl⟩
      | cons => cases htexts
    | cons t ts =>
      cases texts with
      | nil => cases htexts
      | cons text texts =>
        refine ⟨_, by rw [Ty.print, hp]; rfl, ?_⟩
        rw [treeAll] at htexts
        rw [String.toList_append, parenthesized_toList htexts, tree, treeAll, WordTree.text_eq]

end Reason.Ty

/-! ## What a tree tells -/

open Reason (Ty)

namespace WordTree

mutual
/-- The type that a tree tells, names as they are spelled, if `u` is what the word of unit means. -/
def type (u : Ty) : WordTree → Ty
  | .node word items =>
    if word = [] then .tuple (types u items)
    else if word.head? = some '\x27' then .var (String.ofList word.tail)
    else if word = "unit".toList ∧ items.isEmpty = true then u
    else .app (String.ofList word) (types u items)

/-- `type` on every tree of a list. -/
def types (u : Ty) : List WordTree → List Ty
  | [] => []
  | x :: xs => type u x :: types u xs
end

theorem types_eq (u : Ty) (xs : List WordTree) : types u xs = xs.map (type u) := by
  induction xs with
  | nil => rfl
  | cons x xs ih => rw [types, ih, List.map_cons]

end WordTree

namespace Reason.Ty

variable {unit named : Prop} {t t' : Ty}

theorem types_treeAll {u : Ty} {ts : List Ty} (h : ∀ t ∈ ts, t.tree.type u = t.spelled) :
    WordTree.types u (treeAll ts) = spelledAll ts := by
  rw [WordTree.types_eq, treeAll_eq, spelledAll_eq, List.map_map]
  exact List.map_congr_left h

/-- **A tree tells its type**, if the word of unit has one meaning in it. -/
theorem Worded.type_tree {u : Ty} (hu : unit → u = .unit) (hn : named → u = .app "unit" [])
    (h : t.Worded unit named) : t.tree.type u = t.spelled := by
  induction h with
  | unit hunit =>
    rw [tree, WordTree.type, if_neg (by decide), if_neg (by decide), if_pos ⟨rfl, rfl⟩]
    exact hu hunit
  | tuple _ _ ih => rw [tree, WordTree.type, if_pos rfl, spelled, types_treeAll ih]
  | @var name hn =>
    rw [tree, varIdent_toList, WordTree.type, if_neg (by simp), if_pos List.head?_cons,
      List.tail_cons, String.ofList_toList, spelled]
  | @app name args hname hb _ ih =>
    obtain ⟨c, cs, hword, hc, -⟩ := hname.typeIdent
    have hquote : c ≠ '\x27' := by
      intro he
      rw [he] at hc
      revert hc
      decide
    rw [tree, WordTree.type, if_neg (by simp [hword]), if_neg (by simpa [hword] using hquote),
      spelled]
    split
    next hword =>
      obtain ⟨hunit, hargs⟩ := hword
      have hident : typeIdent name = "unit" := String.toList_inj.1 hunit
      have hnil : args = [] := by
        cases args with
        | nil => rfl
        | cons => cases hargs
      rw [hn (hb hnil hident), hident, hnil]
      rfl
    next => rw [String.ofList_toList, types_treeAll ih]

/-- **Types with the same text are the same up to identifiers**, unless both unit and a declared
type like it may occur. -/
theorem Worded.spelled_eq_of_print (hboth : ¬ (unit ∧ named)) (h : t.Worded unit named)
    (h' : t'.Worded unit named) (heq : t.print = t'.print) : t.spelled = t'.spelled := by
  obtain ⟨text, hp, htext⟩ := h.print
  obtain ⟨text', hp', htext'⟩ := h'.print
  obtain rfl : text = text' := Except.ok.inj (hp.symm.trans (heq.trans hp'))
  have hend : WordTree.Ends [] := by simp [WordTree.Ends]
  have htree : t.tree = t'.tree := by
    have hread : t.tree.text ++ [] = t'.tree.text ++ [] := by rw [← htext, ← htext']
    exact (h.legible.readable h'.legible hend hend hread).1
  -- the word of unit is given the one meaning that it can have here
  by_cases hunit : unit
  · have hu : named → Ty.unit = .app "unit" [] := fun hn => absurd ⟨hunit, hn⟩ hboth
    rw [← h.type_tree (fun _ => rfl) hu, ← h'.type_tree (fun _ => rfl) hu, htree]
  · have hu : unit → Ty.app "unit" [] = .unit := fun hu => absurd hu hunit
    rw [← h.type_tree hu fun _ => rfl, ← h'.type_tree hu fun _ => rfl, htree]

end Reason.Ty

end TypeDesc
