import MacroRelay.Token.Basic

/-!
# Nodes

A node is a contiguous run of tokens with a pointer that survives parsing the same text
again. The pointer covers the tokens without the trivia in front of the first one.
-/

namespace MacroRelay

inductive NodeKind where
  | tokens
  | item
  | attribute
  | attributeArgs
  | inlineCall
  | inlineArgs
deriving DecidableEq, Inhabited

def NodeKind.code : NodeKind → Nat
  | .tokens => 0
  | .item => 1
  | .attribute => 2
  | .attributeArgs => 3
  | .inlineCall => 4
  | .inlineArgs => 5

structure NodePointer where
  kind : NodeKind
  span : FileSpan
deriving DecidableEq, Inhabited

structure Node where
  pointer : NodePointer
  tokens : List Token
deriving DecidableEq, Inhabited

namespace Node

/-- A node without tokens points at the start of the first file. -/
def of (kind : NodeKind) (tokens : List Token) : Node :=
  match tokens.head?, tokens.getLast? with
  | some first, some last =>
    ⟨⟨kind, first.span.file, first.span.span.start, last.span.span.stop⟩, tokens⟩
  | _, _ => ⟨⟨kind, 0, 0, 0⟩, tokens⟩

def file (n : Node) : FileId := n.pointer.span.file

/-- With the trivia between and before the tokens. -/
def text (n : Node) : Text := Token.render n.tokens

def span (n : Node) : Span := n.pointer.span.span

end Node

end MacroRelay
