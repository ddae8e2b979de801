/-
Tokens of a description: keywords, operators, punctuation, identifiers and the
end of the input. A token keeps its text and its place.
-/
import TypeDesc.Span

namespace TypeDesc

/-- The kinds of token. -/
inductive TokenKind
  | paramsKeyword
  | recKeyword
  | aliasKeyword
  | void
  | unit
  | plus
  | star
  | openParen
  | closeParen
  | openBrace
  | closeBrace
  | comma
  | colon
  | identifier
  | endOfInput
deriving DecidableEq, Repr

/-- A token. -/
structure Token where
  kind : TokenKind
  text : String
  span : Span
deriving DecidableEq, Repr

/-- A word of a description that names something, with its place. -/
structure Word where
  text : String
  span : Span
deriving DecidableEq, Repr

/-- The word that a token holds. -/
def Token.word (t : Token) : Word :=
  ⟨t.text, t.span⟩

namespace TokenKind

/-- The kind of a word: the five keywords are their own kinds. -/
def ofWord : String → TokenKind
  | "params" => .paramsKeyword
  | "rec" => .recKeyword
  | "alias" => .aliasKeyword
  | "void" => .void
  | "unit" => .unit
  | _ => .identifier

/-- The kind of a punctuation character. -/
def ofMark? : Char → Option TokenKind
  | '+' => some .plus
  | '*' => some .star
  | '(' => some .openParen
  | ')' => some .closeParen
  | '\x7b' => some .openBrace
  | '\x7d' => some .closeBrace
  | ',' => some .comma
  | ':' => some .colon
  | _ => none

end TokenKind

end TypeDesc
