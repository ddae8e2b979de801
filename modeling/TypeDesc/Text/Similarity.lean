/-
The names most like a misspelt one. Two texts are compared by the characters they
share in order: the longest block common to both is found, then the same is done
with what stands to its left and to its right in both. The likeness is twice the
number of shared characters over the length of both texts, and a name is offered
when it reaches three fifths.

In a word of two hundred characters or more, a character that fills over a
hundredth of the word does not start a block; it may only widen one.
-/

namespace TypeDesc.Text

/-- The length of the run that `a` and `b` start with in common, made of characters that `keep`. -/
def commonRun (keep : Char → Bool) : List Char → List Char → Nat
  | a :: as, b :: bs => if a = b && keep b then commonRun keep as bs + 1 else 0
  | _, _ => 0

/-- A block common to two texts: where it starts in each, and its length. -/
structure Overlap where
  left : Nat
  right : Nat
  size : Nat

/-- The first of the longest blocks of kept characters common to `a` and `b`, by its start in `a`
and then in `b`; an empty block at the start of both if there is none. -/
def longestBlock (keep : Char → Bool) (a b : List Char) : Overlap :=
  (List.range a.length).foldl (fun best i =>
    (List.range b.length).foldl (fun best j =>
      let size := commonRun keep (a.drop i) (b.drop j)
      if best.size < size then ⟨i, j, size⟩ else best) best) ⟨0, 0, 0⟩

/-- A block made as wide as the texts agree on both its sides. -/
def Overlap.widen (block : Overlap) (a b : List Char) : Overlap :=
  let before := commonRun (fun _ => true) (a.take block.left).reverse (b.take block.right).reverse
  let after := commonRun (fun _ => true) (a.drop (block.left + block.size))
    (b.drop (block.right + block.size))
  ⟨block.left - before, block.right - before, before + block.size + after⟩

/-- The number of characters that `a` and `b` share. The bound on the number of nested blocks is
the length of `a`, since each block takes a character of it. -/
def sharedWithin (keep : Char → Bool) : Nat → List Char → List Char → Nat
  | 0, _, _ => 0
  | bound + 1, a, b =>
    let block := (longestBlock keep a b).widen a b
    if block.size = 0 then 0
    else
      sharedWithin keep bound (a.take block.left) (b.take block.right) + block.size +
        sharedWithin keep bound (a.drop (block.left + block.size))
          (b.drop (block.right + block.size))

/-- Whether a character of `word` may start a block. -/
def startsBlock (word : List Char) (c : Char) : Bool :=
  word.length < 200 || word.count c ≤ word.length / 100 + 1

/-- The number of characters that `name` shares with `word`. -/
def shared (name word : List Char) : Nat :=
  sharedWithin (startsBlock word) name.length name word

/-- A name with its likeness to a word, the fraction `2 * shared / total`. -/
structure Likeness where
  name : String
  shared : Nat
  total : Nat

/-- How like `word` the name is. -/
def likeness (word name : String) : Likeness :=
  ⟨name, shared name.toList word.toList, name.length + word.length⟩

/-- Whether the likeness is at least three fifths. -/
def Likeness.close (l : Likeness) : Bool :=
  l.total == 0 || 10 * l.shared ≥ 3 * l.total

/-- Whether `l` comes before `m`: it is less like the word, or as like and its name is smaller. -/
def Likeness.below (l m : Likeness) : Bool :=
  let x := l.shared * m.total
  let y := m.shared * l.total
  x < y || (x == y && l.name < m.name)

/-- Puts `l` after the likenesses that it comes below. -/
def Likeness.insert (l : Likeness) : List Likeness → List Likeness
  | [] => [l]
  | m :: ms => if l.below m then m :: insert l ms else l :: m :: ms

/-- Likenesses from the greatest down. -/
def Likeness.ranked : List Likeness → List Likeness
  | [] => []
  | l :: ls => insert l (ranked ls)

/-- The names of `names` that are close to `word`, the most alike first, at most `count` of them. -/
def closest (count : Nat) (word : String) (names : List String) : List String :=
  ((Likeness.ranked ((names.map (likeness word)).filter Likeness.close)).take count).map (·.name)

/-- The name of `names` most like `word`, if one is close to it. -/
def closest? (word : String) (names : List String) : Option String :=
  (closest 1 word names).head?

end TypeDesc.Text
