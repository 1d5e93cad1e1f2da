import MacroRelay.Text.Json
import MacroRelay.Trace.Event

/-!
# Events as lines

An event is written as one line of plain text for people, or as one JSON object for tools.
-/

namespace MacroRelay.Trace

def Kind.mark (k : Kind) : Text :=
  if k = spanBegin then "→"
  else if k = spanEnd then "←"
  else if k = point then "•"
  else if k = failure then "!"
  else ""

def seqColumn (n : UInt64) : Text :=
  let digits := Text.decimal n.toNat
  List.replicate (6 - digits.length) 0x20 ++ digits

def Event.plain (e : Event) : Text :=
  let detail : Text := if e.detail = [] then "" else " (" ++ e.detail ++ ")"
  let notes : Text :=
    if e.extras = [] then ""
    else " \x7b" ++ Text.joined ", " (e.extras.map fun (k, v) => k ++ [0x3D] ++ v) ++ "\x7d"
  let indent : Text := if e.parentId = 0 then "" else "  "
  Text.ofString "[" ++ seqColumn e.seq ++ "] " ++ indent ++ e.kind.mark ++ " " ++ e.scope.name ++ ":" ++
    e.name ++ detail ++ notes ++ [Text.newline]

def jsonObject (fields : List (Text × Text)) : Text :=
  "\x7b" ++ Text.joined "," (fields.map fun (k, v) => k.json ++ [0x3A] ++ v) ++ "\x7d"

def yearOutOfRange : Text :=
  "json: error calling MarshalJSON for type *time.Time: year outside of range [0,9999]"

/-- Span ids, details and notes are left out when empty. A time without a year of four digits
leaves only a note of that failure. -/
def Event.json (e : Event) : Text :=
  let number (n : UInt64) : Text := Text.decimal n.toNat
  let field (empty : Bool) (key : Text) (value : Text) : List (Text × Text) :=
    if empty then [] else [(key, value)]
  let stamp (time : Text) : List (Text × Text) := [("time", time.json), ("seq", number e.seq)]
  let name : List (Text × Text) := [("name", e.name.json)]
  let labels : List (Text × Text) := [("kind", e.kind.name.json), ("scope", e.scope.name.json)]
  let line : Text := match e.time.text? with
    | none => "\x7b\"kind\":\"error\",\"detail\":" ++ yearOutOfRange.quoted ++ "\x7d"
    | some time => jsonObject (
        stamp time ++
        field (e.spanId == 0) "span_id" (number e.spanId) ++
        field (e.parentId == 0) "parent_id" (number e.parentId) ++
        name ++
        field e.detail.isEmpty "detail" e.detail.json ++
        field e.extras.isEmpty "extra" (jsonObject (e.extras.map fun (k, v) => (k, v.json))) ++
        labels)
  line ++ [Text.newline]

def Event.line (e : Event) (f : Format) : Text :=
  if f = Format.json then e.json else e.plain

end MacroRelay.Trace
