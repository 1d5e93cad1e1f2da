import MacroRelay.Source.Position

/-!
# Tokens

A token carries the blanks and comments in front of it, so that rendering a run of tokens
gives back their source text byte for byte.
-/

namespace MacroRelay

inductive TokenKind where
  | invalid
  | eof
  /-- Identifiers and keywords alike. -/
  | ident
  | number
  | string
  | punct
deriving DecidableEq, Inhabited

def TokenKind.all : List TokenKind := [.invalid, .eof, .ident, .number, .string, .punct]

def TokenKind.name : TokenKind → Text
  | .invalid => "invalid"
  | .eof => "eof"
  | .ident => "ident"
  | .number => "number"
  | .string => "string"
  | .punct => "punct"

inductive TriviaKind where
  | space
  | newline
  | lineComment
deriving DecidableEq, Inhabited

structure Trivia where
  kind : TriviaKind
  span : FileSpan
  text : Text
deriving DecidableEq, Inhabited

structure Token where
  kind : TokenKind
  span : FileSpan
  text : Text
  leading : List Trivia
deriving DecidableEq, Inhabited

namespace Token

def isIdent (t : Token) : Bool :=
  t.kind == .ident

def isPunct (t : Token) (text : Text) : Bool :=
  t.kind == .punct && t.text == text

def leadingText (t : Token) : Text :=
  t.leading.flatMap (·.text)

def fullText (t : Token) : Text :=
  t.leadingText ++ t.text

def render (ts : List Token) : Text :=
  ts.flatMap fullText

end Token

end MacroRelay
