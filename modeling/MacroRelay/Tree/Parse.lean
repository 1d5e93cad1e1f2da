import MacroRelay.Text.Quoted
import MacroRelay.Token.Lexer
import MacroRelay.Tree.Group
import MacroRelay.Tree.Node

/-!
# Items and inline calls

An item is any number of attributes followed by a body; only the attributes have structure
here. An inline call is a path, `!` and one delimiter group, and nothing after it.
-/

namespace MacroRelay

inductive ParseError where
  | empty
  | attributesOnly
  | attributeUnclosed : FileSpan → ParseError
  | attributeUnnamed : FileSpan → ParseError
  | attributeUnexpected : Text → Text → ParseError
  | attributeArgsUnclosed : Text → ParseError
  | attributeTrailing : Text → ParseError
  | inlineExpected
  | inlineUndelimited : Text → ParseError
  | inlineUnclosed : Text → ParseError
  | inlineTrailing : Text → ParseError
deriving DecidableEq

namespace ParseError

def isEmpty : ParseError → Bool
  | .empty | .attributesOnly => true
  | _ => false

def isUnclosed : ParseError → Bool
  | .attributeUnclosed _ | .attributeArgsUnclosed _ | .inlineUnclosed _ => true
  | _ => false

def message : ParseError → Text
  | .empty => "empty input"
  | .attributesOnly => "attributes without an item: empty input"
  | .attributeUnclosed at_ => "attribute at " ++ at_.text ++ ": unclosed delimiter"
  | .attributeUnnamed at_ => "attribute at " ++ at_.text ++ ": expected a name"
  | .attributeUnexpected name found =>
    "attribute " ++ name.quoted ++ ": unexpected " ++ found.quoted
  | .attributeArgsUnclosed name => "attribute " ++ name.quoted ++ ": unclosed delimiter"
  | .attributeTrailing name => "attribute " ++ name.quoted ++ ": trailing tokens after arguments"
  | .inlineExpected => "inline macro: expected `name!(...)`"
  | .inlineUndelimited name =>
    "inline macro " ++ name.quoted ++ ": expected a delimiter after `!`"
  | .inlineUnclosed name => "inline macro " ++ name.quoted ++ ": unclosed delimiter"
  | .inlineTrailing name => "inline macro " ++ name.quoted ++ ": trailing tokens after arguments"

end ParseError

namespace Token

def beforeEnd (ts : List Token) : List Token :=
  match ts.getLast? with
  | some last => if last.kind = .eof then ts.dropLast else ts
  | none => ts

/-- Reads identifiers joined by `::` onto `name`, which holds what was read before. A `::`
that no identifier follows is left in the rest. -/
def pathOnto (name : Text) : List Token → Text × List Token
  | [] => (name, [])
  | t :: rest =>
    if t.isIdent then
      match rest with
      | colons :: next :: rest =>
        if colons.isPunct "::" && next.isIdent then
          pathOnto (name ++ t.text ++ "::") (next :: rest)
        else (name ++ t.text, colons :: next :: rest)
      | rest => (name ++ t.text, rest)
    else (name, t :: rest)

/-- The path at the front, blanks dropped; empty if there is none. -/
def path (ts : List Token) : Text × List Token :=
  pathOnto [] ts

end Token

structure Attribute where
  node : Node
  name : Text
  /-- With the parentheses. -/
  args : Option Node
  /-- The tokens of the attribute inside its item: the first one and how many. -/
  first : Nat
  count : Nat
deriving DecidableEq, Inhabited

namespace Attribute

/-- Collects the token texts between commas; empty entries are dropped. -/
def entriesOnto (names : List Text) (current : Text) : List Token → List Text
  | [] => (if current = [] then names else current :: names).reverse
  | t :: rest =>
    if t.isPunct "," then
      entriesOnto (if current = [] then names else current :: names) [] rest
    else entriesOnto names (current ++ t.text) rest

def deriveNames (a : Attribute) : List Text :=
  match a.args with
  | some args =>
    if a.name = Text.ofString "derive" ∧ 2 ≤ args.tokens.length then
      entriesOnto [] [] (args.tokens.drop 1).dropLast
    else []
  | none => []

/-- Reads `# [ path ( args ) ]`, given with both brackets. -/
def parse (first : Nat) (ts : List Token) : Except ParseError Attribute :=
  let node := Node.of .attribute ts
  let (name, rest) := Token.path (ts.drop 2).dropLast
  if name = [] then
    .error (.attributeUnnamed (ts.head?.elim default (·.span)))
  else match rest with
    | [] => .ok ⟨node, name, none, first, ts.length⟩
    | next :: _ =>
      if !next.isPunct "(" then .error (.attributeUnexpected name next.text)
      else match Token.groupLength? rest with
        | none => .error (.attributeArgsUnclosed name)
        | some n =>
          if n = rest.length then
            .ok ⟨node, name, some (Node.of .attributeArgs rest), first, ts.length⟩
          else .error (.attributeTrailing name)

end Attribute

structure Item where
  node : Node
  attributes : List Attribute
deriving DecidableEq, Inhabited

namespace Item

/-- Reads attributes from the token numbered `at_` on, until something else stands there. -/
def attributesOnto (done : List Attribute) (at_ : Nat) (ts : List Token) :
    Except ParseError (List Attribute) :=
  match ts with
  | [] => if at_ = 0 then .error .empty else .error .attributesOnly
  | [_] => .ok done.reverse
  | hash :: bracket :: rest =>
    if hash.isPunct "#" && bracket.isPunct "[" then
      match Token.groupLength? (bracket :: rest) with
      | none => .error (.attributeUnclosed hash.span)
      | some n => do
        let a ← Attribute.parse at_ (hash :: (bracket :: rest).take n)
        attributesOnto (a :: done) (at_ + n + 1) ((bracket :: rest).drop n)
    else .ok done.reverse
termination_by ts.length
decreasing_by simp only [List.length_drop, List.length_cons]; omega

def ofTokens (ts : List Token) : Except ParseError Item := do
  return ⟨Node.of .item ts, ← attributesOnto [] 0 ts⟩

def parse (file : FileId) (base : Offset) (text : Text) : Except ParseError Item :=
  ofTokens (Token.beforeEnd (Token.lex file base text))

/-- The item's tokens without those of one of its attributes. -/
def without (item : Item) (a : Attribute) : Node :=
  Node.of .item (item.node.tokens.take a.first ++ item.node.tokens.drop (a.first + a.count))

end Item

structure InlineCall where
  node : Node
  name : Text
  /-- With the delimiters. -/
  args : Node
deriving DecidableEq, Inhabited

namespace InlineCall

def ofTokens (ts : List Token) : Except ParseError InlineCall :=
  if ts = [] then .error .empty
  else
    let (name, rest) := Token.path ts
    match rest with
    | bang :: next :: rest =>
      if name = [] ∨ bang.isPunct "!" = false then .error .inlineExpected
      else if next.opens?.isNone then .error (.inlineUndelimited name)
      else match Token.groupLength? (next :: rest) with
        | none => .error (.inlineUnclosed name)
        | some n =>
          if n = rest.length + 1 then
            .ok ⟨Node.of .inlineCall ts, name, Node.of .inlineArgs (next :: rest)⟩
          else .error (.inlineTrailing name)
    | _ => .error .inlineExpected

def parse (file : FileId) (base : Offset) (text : Text) : Except ParseError InlineCall :=
  ofTokens (Token.beforeEnd (Token.lex file base text))

end InlineCall

end MacroRelay
