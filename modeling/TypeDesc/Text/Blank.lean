/-
Blanks: the characters that separate words, in every script. A description may
hold any of them between two tokens.
-/

namespace TypeDesc.Text

/-- The code points of the blanks: the ASCII controls that move the print position or separate
records, the plain, no-break and typographic spaces, and the line and paragraph separators. -/
def blankPoints : List Nat :=
  [0x20, 0x0a, 0x09, 0x0d, 0x0b, 0x0c, 0x1c, 0x1d, 0x1e, 0x1f, 0x85, 0xa0, 0x1680,
    0x2000, 0x2001, 0x2002, 0x2003, 0x2004, 0x2005, 0x2006, 0x2007, 0x2008, 0x2009, 0x200a,
    0x2028, 0x2029, 0x202f, 0x205f, 0x3000]

/-- Whether `c` is a blank. -/
def isBlank (c : Char) : Bool :=
  blankPoints.contains c.toNat

end TypeDesc.Text
