import MacroRelay.Text.Json

/-!
# JSON documents

Documents are written on many lines, two blanks deeper for every level.
-/

namespace MacroRelay

inductive JsonValue where
  | null
  | number (n : Nat)
  | text (t : Text)
  | list (items : List JsonValue)
  | record (fields : List (Text × JsonValue))

namespace JsonValue

def margin (depth : Nat) : Text :=
  Text.newline :: List.replicate (2 * depth) 0x20

mutual

def written (depth : Nat) : JsonValue → Text
  | .null => "null"
  | .number n => Text.decimal n
  | .text t => t.json
  | .list [] => "[]"
  | .list (item :: rest) => "[" ++ writtenItems (depth + 1) (item :: rest) ++ margin depth ++ "]"
  | .record [] => "\x7b\x7d"
  | .record (field :: rest) => "\x7b" ++ writtenFields (depth + 1) (field :: rest) ++ margin depth ++ "\x7d"

def writtenItems (depth : Nat) : List JsonValue → Text
  | [] => []
  | [item] => margin depth ++ written depth item
  | item :: rest => margin depth ++ written depth item ++ "," ++ writtenItems depth rest

def writtenFields (depth : Nat) : List (Text × JsonValue) → Text
  | [] => []
  | [(name, value)] => margin depth ++ name.json ++ ": " ++ written depth value
  | (name, value) :: rest =>
    margin depth ++ name.json ++ ": " ++ written depth value ++ "," ++ writtenFields depth rest

end

def document (j : JsonValue) : Text :=
  j.written 0 ++ [Text.newline]

def texts (names : Option (List Text)) : JsonValue :=
  match names with
  | none => .null
  | some names => .list (names.map .text)

end JsonValue

end MacroRelay
