import MacroRelay.Text.Basic

/-!
# TOML documents as written

A document is a list of statements. What they build together is another matter: two
statements that are fine on their own may contradict each other.
-/

namespace MacroRelay.Toml

abbrev Key := List Text

mutual
inductive Expr where
  | text : Text → Expr
  | integer : Int → Expr
  | float : Text → Expr
  | boolean : Bool → Expr
  | datetime : Text → Expr
  | array : Items → Expr
  | inline : Fields → Expr
inductive Items where
  | nil
  | cons : Expr → Items → Items
inductive Fields where
  | nil
  | cons : Key → Expr → Fields → Fields
end

instance : Inhabited Expr := ⟨.boolean false⟩

def Items.reverseOnto : Items → Items → Items
  | .nil, done => done
  | .cons item rest, done => reverseOnto rest (.cons item done)

def Fields.reverseOnto : Fields → Fields → Fields
  | .nil, done => done
  | .cons key item rest, done => reverseOnto rest (.cons key item done)

inductive Statement where
  | table : Key → Statement
  /-- A header in double brackets, which starts a new row. -/
  | row : Key → Statement
  | assign : Key → Expr → Statement

def isBare (b : UInt8) : Bool :=
  Text.isDigit b || Text.isLower b || Text.isUpper b || b == 0x5F || b == 0x2D

def escapeByte (b : UInt8) : Text :=
  match b with
  | 0x22 => "\\\""
  | 0x5C => "\\\\"
  | 0x08 => "\\b"
  | 0x09 => "\\t"
  | 0x0A => "\\n"
  | 0x0C => "\\f"
  | 0x0D => "\\r"
  | _ => if b < 0x20 ∨ b = 0x7F then "\\u00" ++ Text.hexByte b else [b]

/-- A part is put in quotes unless it is bare. -/
def partText (part : Text) : Text :=
  if part ≠ [] ∧ part.all isBare then part else "\"" ++ part.flatMap escapeByte ++ "\""

def Key.text (k : Key) : Text :=
  Text.joined "." (k.map partText)

end MacroRelay.Toml
