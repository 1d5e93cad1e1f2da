import MacroRelay.Token.Basic

/-!
# Cutting text into tokens

First the text is cut into lexemes, each the longest of its class at its place; then they get
their positions, and trivia joins the token after it. Every byte ends up in exactly one
lexeme. Bytes outside printable ASCII are invalid tokens of one byte, except inside string
literals and comments.
-/

namespace MacroRelay

namespace Lexer

def isBlank (b : UInt8) : Bool :=
  b == 0x20 || b == 0x09 || b == 0x0D

def isIdentStart (b : UInt8) : Bool :=
  b == 0x5F || Text.isLower b || Text.isUpper b

def isIdentContinue (b : UInt8) : Bool :=
  isIdentStart b || Text.isDigit b

def isQuote (b : UInt8) : Bool :=
  b == 0x22 || b == 0x27

/-- Operators of two bytes; all other punctuation is a single byte. -/
def operators : List Text :=
  ["::", "=>", "->", "==", "!=", "<=", ">=", "&&", "||", "..", "+=", "-=", "*=", "/="]

def run (p : UInt8 → Bool) (t : Text) : Nat :=
  (t.takeWhile p).length

/-- Trivia that starts with `b`: its kind and the number of bytes after the first. -/
def trivia? (b : UInt8) (rest : Text) : Option (TriviaKind × Nat) :=
  if isBlank b then some (.space, run isBlank rest)
  else if b = Text.newline then some (.newline, run (· == Text.newline) rest)
  else if b = 0x2F ∧ rest.head? = some 0x2F then some (.lineComment, run (· != Text.newline) rest)
  else none

/-- Reads a literal after its opening quote: whether it is closed, and the bytes it takes on
top of `taken`. A backslash takes the next byte with it, whatever it is; a line feed ends the
literal unclosed. -/
def literal (quote : UInt8) (taken : Nat) : Text → TokenKind × Nat
  | [] => (.invalid, taken)
  | b :: rest =>
    if b = 0x5C then
      match rest with
      | [] => (.invalid, taken + 1)
      | _ :: rest => literal quote (taken + 2) rest
    else if b = quote then (.string, taken + 1)
    else if b = Text.newline then (.invalid, taken)
    else literal quote (taken + 1) rest

/-- The token that starts with `b`: its kind and the number of bytes after the first. -/
def token (b : UInt8) (rest : Text) : TokenKind × Nat :=
  if isIdentStart b then (.ident, run isIdentContinue rest)
  else if Text.isDigit b then (.number, run isIdentContinue rest)
  else if isQuote b then literal b 0 rest
  else if operators.contains (b :: rest.take 1) then (.punct, 1)
  else if b < 0x20 || 0x7F ≤ b then (.invalid, 0)
  else (.punct, 0)

end Lexer

inductive Lexeme where
  | trivia : TriviaKind → Text → Lexeme
  | token : TokenKind → Text → Lexeme
deriving DecidableEq

namespace Lexeme

def text : Lexeme → Text
  | .trivia _ text | .token _ text => text

/-- The lexeme that starts with `b`, and how many bytes follow its first. -/
def front (b : UInt8) (rest : Text) : Lexeme × Nat :=
  match Lexer.trivia? b rest with
  | some (kind, extra) => (.trivia kind (b :: rest.take extra), extra)
  | none =>
    let (kind, extra) := Lexer.token b rest
    (.token kind (b :: rest.take extra), extra)

def scanOnto (done : List Lexeme) (t : Text) : List Lexeme :=
  match t with
  | [] => done.reverse
  | b :: rest =>
    let (lexeme, extra) := front b rest
    scanOnto (lexeme :: done) (rest.drop extra)
termination_by t.length
decreasing_by simp only [List.length_drop, List.length_cons]; omega

def scan (t : Text) : List Lexeme :=
  scanOnto [] t

end Lexeme

namespace Token

/-- Places lexemes one after another from `start`. The list ends with an empty end token that
carries the trivia after the last one. `held` is trivia waiting for its token, newest first. -/
def placeOnto (done : List Token) (file : FileId) (start : Offset) (held : List Trivia) :
    List Lexeme → List Token
  | [] => (⟨.eof, ⟨file, start, start⟩, [], held.reverse⟩ :: done).reverse
  | .trivia kind text :: rest =>
    let span := Span.of start text
    placeOnto done file span.stop (⟨kind, ⟨file, span⟩, text⟩ :: held) rest
  | .token kind text :: rest =>
    let span := Span.of start text
    placeOnto (⟨kind, ⟨file, span⟩, text, held.reverse⟩ :: done) file span.stop [] rest

/-- The tokens of `text`, whose first byte has offset `base` in its file. -/
def lex (file : FileId) (base : Offset) (text : Text) : List Token :=
  placeOnto [] file base [] (Lexeme.scan text)

end Token

end MacroRelay
