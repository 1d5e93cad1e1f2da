import MacroRelay.Token.Basic

/-!
# Delimiter groups

A group runs from an opening delimiter to the one that closes it. Inside, every opener starts
a nested group, and a closer that does not close the innermost open group is an ordinary
token.
-/

namespace MacroRelay

inductive Delimiter where
  | paren
  | bracket
  | brace
deriving DecidableEq

namespace Delimiter

def opening : Delimiter → Text
  | .paren => "("
  | .bracket => "["
  | .brace => "\x7b"

def closing : Delimiter → Text
  | .paren => ")"
  | .bracket => "]"
  | .brace => "\x7d"

end Delimiter

namespace Token

def opens? (t : Token) : Option Delimiter :=
  [Delimiter.paren, .bracket, .brace].find? fun d => t.isPunct d.opening

def closes (t : Token) (d : Delimiter) : Bool :=
  t.isPunct d.closing

/-- Counts tokens, on top of `count`, up to the one that closes the outermost of the open
groups, innermost first. -/
def closeCount? (openGroups : List Delimiter) (count : Nat) : List Token → Option Nat
  | [] => none
  | t :: rest =>
    match t.opens?, openGroups with
    | some d, _ => closeCount? (d :: openGroups) (count + 1) rest
    | none, [] => closeCount? [] (count + 1) rest
    | none, d :: outer =>
      if t.closes d then
        if outer.isEmpty then some (count + 1) else closeCount? outer (count + 1) rest
      else closeCount? openGroups (count + 1) rest

/-- The number of tokens in the group at the front of the list. -/
def groupLength? (ts : List Token) : Option Nat :=
  closeCount? [] 0 ts

end Token

end MacroRelay
