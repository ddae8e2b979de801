/-
Items nested in items, and two orders in which one of several items with the same
key comes first. Items are closed from the inside, so that an item comes behind
those inside it (`Nest.closed`). A walk enters items from the outside and passes
over an item, with all that is inside it, if it has entered one with the same key
(`Nest.entered`).

The first item of a key that is closed need not be the one that is entered. It is
exactly if all items around it are entered and have other keys
(`Nest.first_entered_iff`), and it is so for all keys exactly if only such first
items stand around them (`Nest.firsts_entered_iff`).
-/
import Mathlib.Data.List.Nodup
import Mathlib.Data.List.Perm.Basic

namespace TypeDesc

/-! ## First items of a list -/

/-- `a` is the first item of its key in the list. -/
def IsFirst {α : Type} (key : α → String) (l : List α) (a : α) : Prop :=
  l.find? (key · == key a) = some a

namespace IsFirst

variable {α : Type} {key : α → String} {l m : List α} {a b : α}

theorem mem (h : IsFirst key l a) : a ∈ l :=
  List.mem_of_find?_eq_some h

theorem unique (h : IsFirst key l a) (h' : IsFirst key l b) (hk : key a = key b) : a = b := by
  rw [IsFirst, hk] at h
  exact Option.some.inj (h.symm.trans h')

theorem of_mem (h : a ∈ l) : ∃ f, IsFirst key l f ∧ key f = key a := by
  cases hf : l.find? (key · == key a) with
  | none => exact absurd (List.find?_eq_none.1 hf a h) (by simp)
  | some f =>
    have hk : key f = key a := by simpa using List.find?_some hf
    exact ⟨f, by rw [IsFirst, hk, hf], hk⟩

theorem left (h : IsFirst key (l ++ m) a) (ha : a ∈ l) : IsFirst key l a := by
  obtain ⟨f, hf, hk⟩ : ∃ f, IsFirst key l f ∧ key f = key a := of_mem ha
  rw [IsFirst, List.find?_append, ← hk, hf, Option.some_or] at h
  rw [← Option.some.inj h]
  exact hf

theorem right (h : IsFirst key (l ++ m) a) (ha : a ∉ l) :
    (∀ x ∈ l, key x ≠ key a) ∧ IsFirst key m a := by
  rw [IsFirst, List.find?_append] at h
  cases hf : l.find? (key · == key a) with
  | none =>
    rw [hf, Option.none_or] at h
    exact ⟨by simpa using hf, h⟩
  | some f =>
    rw [hf, Option.some_or] at h
    exact absurd (Option.some.inj h ▸ List.mem_of_find?_eq_some hf) ha

/-- The first item of its key is the first of a mapped list, where no other is mapped to the same. -/
theorem map_iff {β : Type} {f : β → α} {l : List β} {b : β} (hf : ∀ x ∈ l, f x = f b → x = b) :
    IsFirst key (l.map f) (f b) ↔ IsFirst (fun x => key (f x)) l b := by
  rw [IsFirst, IsFirst, List.find?_map, Option.map_eq_some_iff]
  constructor
  · rintro ⟨x, hx, hfx⟩
    rwa [hf x (List.mem_of_find?_eq_some hx) hfx] at hx
  · exact fun hb => ⟨b, hb, rfl⟩

end IsFirst

/-! ## Nested items -/

/-- Items in a row, each with those inside it. -/
inductive Nest (α : Type)
  | nil
  | cons (item : α) (inner next : Nest α)
deriving DecidableEq, Repr

namespace Nest

variable {α β : Type}

/-- The items of one row behind those of another. -/
def append : Nest α → Nest α → Nest α
  | .nil, m => m
  | .cons a inner next, m => .cons a inner (next.append m)

/-- Every item replaced, with the nesting kept. -/
def map (f : α → β) : Nest α → Nest β
  | .nil => .nil
  | .cons a inner next => .cons (f a) (inner.map f) (next.map f)

/-- The items from left to right, each before those inside it. -/
def opened : Nest α → List α
  | .nil => []
  | .cons a inner next => a :: (inner.opened ++ next.opened)

/-- The items from left to right, each behind those inside it. -/
def closed : Nest α → List α
  | .nil => []
  | .cons a inner next => inner.closed ++ a :: next.closed

/-- The pairs of an item and one inside it. -/
def nested : Nest α → List (α × α)
  | .nil => []
  | .cons a inner next => inner.opened.map (a, ·) ++ (inner.nested ++ next.nested)

/-- The items that a walk enters after it has entered items with the keys `known`. -/
def entered (key : α → String) : Nest α → List String → List α
  | .nil, _ => []
  | .cons a inner next, known =>
    if key a ∈ known then next.entered key known
    else
      let inside := inner.entered key (known ++ [key a])
      a :: (inside ++ next.entered key (known ++ key a :: inside.map key))

@[simp] theorem append_nil (n : Nest α) : n.append .nil = n := by
  induction n with
  | nil => rfl
  | cons a inner next _ ih => rw [append, ih]

theorem append_assoc (n m k : Nest α) : (n.append m).append k = n.append (m.append k) := by
  induction n with
  | nil => rfl
  | cons a inner next _ ih => simp only [append, ih]

theorem opened_single (a : α) (inner : Nest α) : (cons a inner nil).opened = a :: inner.opened := by
  simp [opened]

theorem opened_append (n m : Nest α) : (n.append m).opened = n.opened ++ m.opened := by
  induction n with
  | nil => rfl
  | cons a inner next _ ih => simp [append, opened, ih]

theorem closed_append (n m : Nest α) : (n.append m).closed = n.closed ++ m.closed := by
  induction n with
  | nil => rfl
  | cons a inner next _ ih => simp [append, closed, ih]

theorem map_append (f : α → β) (n m : Nest α) : (n.append m).map f = (n.map f).append (m.map f) := by
  induction n with
  | nil => rfl
  | cons a inner next _ ih => rw [append, map, map, append, ih]

theorem opened_map (f : α → β) (n : Nest α) : (n.map f).opened = n.opened.map f := by
  induction n with
  | nil => rfl
  | cons a inner next ihi ihn => simp [map, opened, ihi, ihn]

theorem closed_map (f : α → β) (n : Nest α) : (n.map f).closed = n.closed.map f := by
  induction n with
  | nil => rfl
  | cons a inner next ihi ihn => simp [map, closed, ihi, ihn]

theorem map_eq_nil {f : α → β} {n : Nest α} (h : n.map f = .nil) : n = .nil := by
  cases n with
  | nil => rfl
  | cons a inner next => cases h

/-- What maps to a single item is a single item. -/
theorem map_eq_single {f : α → β} {n : Nest α} {b : β} {m : Nest β} (h : n.map f = .cons b m .nil) :
    ∃ a inner, n = .cons a inner .nil ∧ f a = b ∧ inner.map f = m := by
  cases n with
  | nil => cases h
  | cons a inner next =>
    simp only [map, cons.injEq] at h
    obtain ⟨ha, hinner, hnext⟩ := h
    exact ⟨a, inner, by rw [map_eq_nil hnext], ha, hinner⟩

/-- What maps to a row behind another is a row behind another. -/
theorem map_eq_append {f : α → β} {n : Nest α} {m m' : Nest β} (h : n.map f = m.append m') :
    ∃ k k' : Nest α, n = k.append k' ∧ k.map f = m ∧ k'.map f = m' := by
  induction m generalizing n with
  | nil => exact ⟨.nil, n, rfl, rfl, h⟩
  | cons b inner next _ ih =>
    cases n with
    | nil => cases h
    | cons a inner' next' =>
      simp only [map, append, cons.injEq] at h
      obtain ⟨rfl, hinner, hnext⟩ := h
      obtain ⟨k, k', rfl, hk, hk'⟩ := ih hnext
      exact ⟨.cons a inner' k, k', rfl, by rw [map, hinner, hk], hk'⟩

theorem closed_perm_opened (n : Nest α) : n.closed.Perm n.opened := by
  induction n with
  | nil => exact .nil
  | cons a inner next ihi ihn =>
    rw [closed, opened]
    exact List.perm_middle.trans ((ihi.append ihn).cons a)

theorem mem_closed {n : Nest α} {a : α} : a ∈ n.closed ↔ a ∈ n.opened :=
  n.closed_perm_opened.mem_iff

theorem nested_mem {n : Nest α} {a b : α} (h : (a, b) ∈ n.nested) : a ∈ n.opened ∧ b ∈ n.opened := by
  induction n with
  | nil => cases h
  | cons c inner next ihi ihn =>
    simp only [nested, List.mem_append, List.mem_map, Prod.mk.injEq] at h
    simp only [opened, List.mem_cons, List.mem_append]
    rcases h with ⟨x, hx, rfl, rfl⟩ | h | h
    · exact ⟨.inl rfl, .inr (.inl hx)⟩
    · exact ⟨.inr (.inl (ihi h).1), .inr (.inl (ihi h).2)⟩
    · exact ⟨.inr (.inr (ihn h).1), .inr (.inr (ihn h).2)⟩

theorem nested_sublist {n : Nest α} {a b : α} (h : (a, b) ∈ n.nested) : [a, b].Sublist n.opened := by
  induction n with
  | nil => cases h
  | cons c inner next ihi ihn =>
    simp only [nested, List.mem_append, List.mem_map, Prod.mk.injEq] at h
    rw [opened]
    rcases h with ⟨x, hx, rfl, rfl⟩ | h | h
    · exact ((List.singleton_sublist.2 hx).trans (List.sublist_append_left _ _)).cons_cons _
    · exact ((ihi h).trans (List.sublist_append_left _ _)).cons _
    · exact ((ihn h).trans (List.sublist_append_right _ _)).cons _

/-! ## What is entered -/

section

variable {key : α → String} {n : Nest α} {known : List String} {a b : α}

theorem entered_append (n m : Nest α) (known : List String) :
    (n.append m).entered key known =
      n.entered key known ++ m.entered key (known ++ (n.entered key known).map key) := by
  induction n generalizing known with
  | nil => simp [append, entered]
  | cons a inner next _ ih =>
    rw [append, entered, entered]
    split
    · exact ih known
    · simp [ih]

theorem opened_of_entered (h : a ∈ n.entered key known) : a ∈ n.opened := by
  induction n generalizing known with
  | nil => cases h
  | cons b inner next ihi ihn =>
    rw [entered] at h
    rw [opened, List.mem_cons, List.mem_append]
    split at h
    · exact .inr (.inr (ihn h))
    · rw [List.mem_cons, List.mem_append] at h
      exact h.imp_right fun h => h.imp ihi ihn

theorem entered_fresh (h : a ∈ n.entered key known) : key a ∉ known := by
  induction n generalizing known with
  | nil => cases h
  | cons b inner next ihi ihn =>
    rw [entered] at h
    split at h
    next => exact ihn h
    next hb =>
      rw [List.mem_cons, List.mem_append] at h
      rcases h with rfl | h | h
      · exact hb
      · exact fun hm => ihi h (List.mem_append_left _ hm)
      · exact fun hm => ihn h (List.mem_append_left _ hm)

/-- **No key is entered twice.** -/
theorem entered_nodup : ((n.entered key known).map key).Nodup := by
  induction n generalizing known with
  | nil => exact .nil
  | cons b inner next ihi ihn =>
    rw [entered]
    split
    · exact ihn
    · rw [List.map_cons, List.map_append, List.nodup_cons, List.nodup_append]
      refine ⟨fun hm => ?_, ihi, ihn, fun x hx y hy hxy => ?_⟩
      · rcases List.mem_append.1 hm with hm | hm
        · obtain ⟨a, ha, hk⟩ := List.mem_map.1 hm
          exact entered_fresh ha (by simp [hk])
        · obtain ⟨a, ha, hk⟩ := List.mem_map.1 hm
          exact entered_fresh ha (by simp [hk])
      · obtain ⟨a, ha, rfl⟩ := List.mem_map.1 hy
        exact entered_fresh ha (List.mem_append_right _ (List.mem_cons_of_mem _ (hxy ▸ hx)))

theorem eq_of_entered (ha : a ∈ n.entered key known) (hb : b ∈ n.entered key known)
    (hk : key a = key b) : a = b :=
  List.inj_on_of_nodup_map entered_nodup ha hb hk

/-- The items of a row, apart from one another. -/
theorem nodup_opened_cons {inner next : Nest α} (h : (Nest.cons a inner next).opened.Nodup) :
    a ∉ inner.opened ∧ a ∉ next.opened ∧ inner.opened.Nodup ∧ next.opened.Nodup ∧
      ∀ x ∈ inner.opened, x ∉ next.opened := by
  rw [opened, List.nodup_cons, List.mem_append, not_or, List.nodup_append] at h
  obtain ⟨⟨hai, han⟩, hi, hn, hdisjoint⟩ := h
  exact ⟨hai, han, hi, hn, fun x hx hx' => hdisjoint x hx x hx' rfl⟩

/-- Inside an item, a walk goes on if it has not entered one with the same key. -/
theorem entered_inner_iff {c : α} {inner next : Nest α} (hn : (cons c inner next).opened.Nodup)
    (ha : a ∈ inner.opened) : a ∈ (cons c inner next).entered key known ↔
      key c ∉ known ∧ a ∈ inner.entered key (known ++ [key c]) := by
  obtain ⟨hci, -, -, -, hdisjoint⟩ := nodup_opened_cons hn
  have hnext : ∀ known, a ∉ next.entered key known :=
    fun known h => hdisjoint a ha (opened_of_entered h)
  have hne : a ≠ c := fun h => hci (h ▸ ha)
  rw [entered]
  split
  next hc => simp [hc, hnext]
  next hc => simp [hc, hnext, hne]

/-- Behind an item, a walk goes on with the keys that it has entered up to there. -/
theorem entered_next_iff {c : α} {inner next : Nest α} (hn : (cons c inner next).opened.Nodup)
    (ha : a ∈ next.opened) : a ∈ (cons c inner next).entered key known ↔
      a ∈ next.entered key (known ++ ((cons c inner nil).entered key known).map key) := by
  obtain ⟨-, hcn, -, -, hdisjoint⟩ := nodup_opened_cons hn
  have hfirst : a ∉ (cons c inner nil).entered key known := by
    intro h
    have hm := opened_of_entered h
    rw [opened_single, List.mem_cons] at hm
    rcases hm with rfl | hm
    · exact hcn ha
    · exact hdisjoint a hm ha
  have hsplit : (cons c inner next).entered key known =
      (cons c inner nil).entered key known ++
        next.entered key (known ++ ((cons c inner nil).entered key known).map key) :=
    entered_append (cons c inner nil) next known
  rw [hsplit, List.mem_append, or_iff_right hfirst]

/-- **All items around an item that is entered are entered.** -/
theorem entered_outward (hn : n.opened.Nodup) (h : (a, b) ∈ n.nested)
    (hb : b ∈ n.entered key known) : a ∈ n.entered key known := by
  induction n generalizing known with
  | nil => cases h
  | cons c inner next ihi ihn =>
    obtain ⟨-, -, hi, hx, -⟩ := nodup_opened_cons hn
    simp only [nested, List.mem_append, List.mem_map, Prod.mk.injEq] at h
    rcases h with ⟨x, hx, rfl, rfl⟩ | h | h
    · rw [entered, if_neg ((entered_inner_iff hn hx).1 hb).1]
      exact List.mem_cons_self
    · obtain ⟨hai, hbi⟩ := nested_mem h
      obtain ⟨hc, hb⟩ := (entered_inner_iff hn hbi).1 hb
      exact (entered_inner_iff hn hai).2 ⟨hc, ihi hi h hb⟩
    · obtain ⟨han, hbn⟩ := nested_mem h
      exact (entered_next_iff hn han).2 (ihn hx h ((entered_next_iff hn hbn).1 hb))

/-- The first item of its key that is closed is entered if those around it are, and have other
keys. -/
theorem first_entered (hn : n.opened.Nodup) (hf : IsFirst key n.closed b) (hk : key b ∉ known)
    (ha : ∀ a, (a, b) ∈ n.nested → a ∈ n.entered key known ∧ key a ≠ key b) :
    b ∈ n.entered key known := by
  induction n generalizing known with
  | nil => cases hf.mem
  | cons c inner next ihi ihn =>
    obtain ⟨-, hcn, hi, hx, hdisjoint⟩ := nodup_opened_cons hn
    have hm := mem_closed.1 hf.mem
    rw [opened, List.mem_cons, List.mem_append] at hm
    simp only [nested, List.mem_append, List.mem_map, Prod.mk.injEq] at ha
    rw [closed, List.append_cons] at hf
    rcases hm with rfl | hm | hm
    · rw [entered, if_neg hk]
      exact List.mem_cons_self
    · -- `c` stands around `b`, so it is entered
      obtain ⟨hc, hne⟩ := ha c (.inl ⟨b, hm, rfl, rfl⟩)
      have hnew : key c ∉ known := entered_fresh hc
      have hkb : key b ∉ known ++ [key c] := by
        simpa [hk] using Ne.symm hne
      have hfirst := (hf.left (List.mem_append_left _ (mem_closed.2 hm))).left (mem_closed.2 hm)
      refine (entered_inner_iff hn hm).2 ⟨hnew, ihi hi hfirst hkb fun a hab => ?_⟩
      obtain ⟨hentered, hne⟩ := ha a (.inr (.inl hab))
      exact ⟨((entered_inner_iff hn (nested_mem hab).1).1 hentered).2, hne⟩
    · -- no item before those of `next` has the key of `b`
      have hbi : b ∉ inner.closed ++ [c] := by
        rw [List.mem_append, List.mem_singleton, not_or]
        exact ⟨fun hb => hdisjoint b (mem_closed.1 hb) hm, fun hb => hcn (hb ▸ hm)⟩
      obtain ⟨hother, hfirst⟩ := hf.right hbi
      have hkb : key b ∉ known ++ ((cons c inner nil).entered key known).map key := by
        rw [List.mem_append, not_or]
        refine ⟨hk, fun hb => ?_⟩
        obtain ⟨x, hx, hxk⟩ := List.mem_map.1 hb
        exact hother x (mem_closed.2 (opened_of_entered hx)) hxk
      refine (entered_next_iff hn hm).2 (ihn hx hfirst hkb fun a hab => ?_)
      obtain ⟨hentered, hne⟩ := ha a (.inr (.inr hab))
      exact ⟨(entered_next_iff hn (nested_mem hab).1).1 hentered, hne⟩

/-- What stands around an item is opened before it. -/
theorem nested_before {before after : List α} (hn : n.opened.Nodup)
    (hs : n.opened = before ++ b :: after) (h : (a, b) ∈ n.nested) : a ∈ before := by
  have hpair := nested_sublist h
  rw [hs] at hpair hn
  obtain ⟨l, l', heq, hl, hl'⟩ := List.sublist_append_iff.1 hpair
  cases l with
  | nil =>
    have hb : b ∉ after := (List.nodup_cons.1 (List.nodup_append.1 hn).2.1).1
    rw [List.nil_append] at heq
    rw [← heq] at hl'
    cases hl' with
    | cons _ hl' => exact absurd (hl'.subset (by simp)) hb
    | cons_cons _ hl' => exact absurd (hl'.subset (by simp)) hb
  | cons x l =>
    obtain ⟨rfl, -⟩ := List.cons.inj heq
    exact hl.subset List.mem_cons_self

theorem nested_ne (hn : n.opened.Nodup) (h : (a, b) ∈ n.nested) : a ≠ b := by
  have hpair := (nested_sublist h).nodup hn
  simpa using hpair

/-- **When the first item of a key is the one that is entered**: exactly if all items around it are
entered and have other keys. -/
theorem first_entered_iff (hn : n.opened.Nodup) (hf : IsFirst key n.closed b) :
    b ∈ n.entered key [] ↔ ∀ a, (a, b) ∈ n.nested → a ∈ n.entered key [] ∧ key a ≠ key b := by
  constructor
  · intro hb a hab
    have ha := entered_outward hn hab hb
    exact ⟨ha, fun hk => nested_ne hn hab (eq_of_entered ha hb hk)⟩
  · exact first_entered hn hf (by simp)

/-- What is entered is the first of its key, if all first items are entered. -/
theorem isFirst_of_entered (h : ∀ b, IsFirst key n.closed b → b ∈ n.entered key [])
    (ha : a ∈ n.entered key []) : IsFirst key n.closed a := by
  obtain ⟨f, hf, hk⟩ : ∃ f, IsFirst key n.closed f ∧ key f = key a :=
    IsFirst.of_mem (mem_closed.2 (opened_of_entered ha))
  rwa [eq_of_entered (h f hf) ha hk] at hf

/-- If all items around first items are first items, a first item is entered: by the place where it
is opened, since those around it are opened before it. -/
theorem entered_of_firsts_around (hn : n.opened.Nodup)
    (h : ∀ a b, (a, b) ∈ n.nested → IsFirst key n.closed b → IsFirst key n.closed a)
    (before : List α) : ∀ b after, n.opened = before ++ b :: after → IsFirst key n.closed b →
      b ∈ n.entered key [] := by
  induction hlen : before.length using Nat.strongRecOn generalizing before with
  | ind k ih =>
    intro b after hsplit hf
    refine (first_entered_iff hn hf).2 fun a hab => ?_
    have hfa := h a b hab hf
    refine ⟨?_, fun hk => nested_ne hn hab (hfa.unique hf hk)⟩
    obtain ⟨before', after', rfl⟩ := List.append_of_mem (nested_before hn hsplit hab)
    have hlt : before'.length < k := by
      rw [List.length_append, List.length_cons] at hlen
      omega
    exact ih _ hlt before' rfl a (after' ++ b :: after) (by simp [hsplit]) hfa

/-- **When the first items of all keys are those that are entered**: exactly if all items around
them are first items. -/
theorem firsts_entered_iff (hn : n.opened.Nodup) :
    (∀ b, IsFirst key n.closed b → b ∈ n.entered key []) ↔
      ∀ a b, (a, b) ∈ n.nested → IsFirst key n.closed b → IsFirst key n.closed a := by
  constructor
  · intro h a b hab hf
    exact isFirst_of_entered h (entered_outward hn hab (h b hf))
  · intro h b hf
    obtain ⟨before, after, hsplit⟩ := List.append_of_mem (mem_closed.1 hf.mem)
    exact entered_of_firsts_around hn h before b after hsplit hf

end

end Nest

end TypeDesc
