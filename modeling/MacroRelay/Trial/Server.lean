import MacroRelay.Text.Quoted
import MacroRelay.Wire.Call
import MacroRelay.Wire.Gen1
import MacroRelay.Wire.Gen2
import MacroRelay.Wire.Method

/-!
# A macro server for trials

The server expands by fixed rules in both generations. An attribute is written as a comment in
front of the item, a derive as one line for each name, and an inline call as its name with an
ending. Replies to a method can be scripted instead.
-/

namespace MacroRelay

/-- What a server does with a request. -/
inductive Reply where
  | result : Text → Reply
  | failure : Text → Reply
  | silence
  | hangUp

structure MacroServer where
  catalogue : Gen2.CatalogueResult := {}
  /-- The replies to come for a method; the last one stays. -/
  scripts : List (Text × List Reply) := []
  received : Array Request := #[]

inductive ServerError where
  | unknownMethod : Text → ServerError
  | badParams

def ServerError.message : ServerError → Text
  | .unknownMethod method => "unknown method " ++ method.quoted
  | .badParams => "decode params: malformed data"

namespace MacroServer

def identity : Gen2.HandshakeResult := { serverVersion := "testkit", fingerprint := "testkit-fingerprint" }

def attributeText (name args item : Text) : Text :=
  "// " ++ name ++ args ++ [Text.newline] ++ item

def deriveText (names : List Text) : Text :=
  names.flatMap fun name => Text.ofString "impl " ++ name ++ " for item;\n"

def inlineText (name args : Text) : Text :=
  name ++ "_expanded" ++ args

/-- One token with all of the text, or nothing for no text. -/
def whole (t : Text) : Gen2.Result :=
  if t = [] then {} else { stream := { tokens := some [⟨t, ⟨0, Width.of t⟩⟩] } }

def wholeText (t : Text) : Gen1.Result :=
  { stream := { value := t } }

def decode (c : Codec α) (params : Option Text) : Except ServerError α :=
  match c.decode? (params.getD []) with
  | some a => .ok a
  | none => .error .badParams

/-- The result of a method by the fixed rules. -/
def expand (catalogue : Gen2.CatalogueResult) (params : Option Text) : Method → Except ServerError Text
  | .handshake => .ok (Gen2.HandshakeResult.codec.write identity)
  | .catalogue => .ok (Gen2.CatalogueResult.codec.write catalogue)
  | .expand .second .attribute => do
    let r ← decode Gen2.AttributeRequest.codec params
    return Gen2.Result.codec.write (whole (attributeText r.attr r.args.text r.item.text))
  | .expand .second .derive => do
    let r ← decode Gen2.DeriveRequest.codec params
    return Gen2.Result.codec.write (whole (deriveText r.derives.items))
  | .expand .second .inline => do
    let r ← decode Gen2.InlineRequest.codec params
    return Gen2.Result.codec.write (whole (inlineText r.name r.args.text))
  | .expand .first .attribute => do
    let r ← decode Gen1.AttributeRequest.codec params
    return Gen1.Result.codec.write (wholeText (attributeText r.attr r.args.value r.item.value))
  | .expand .first .derive => do
    let r ← decode Gen1.DeriveRequest.codec params
    return Gen1.Result.codec.write (wholeText (deriveText r.derives.items))
  | .expand .first .inline => do
    let r ← decode Gen1.InlineRequest.codec params
    return Gen1.Result.codec.write (wholeText (inlineText r.name r.args.value))

def ruled (s : MacroServer) (r : Request) : Reply :=
  let result := match Method.ofName? r.method with
    | some m => expand s.catalogue r.params m
    | none => .error (.unknownMethod r.method)
  match result with
  | .ok t => .result t
  | .error e => .failure e.message

def handle (s : MacroServer) (r : Request) : MacroServer × Reply :=
  let s := { s with received := s.received.push r }
  match s.scripts.lookup r.method with
  | some (reply :: rest) =>
    let left := if rest.isEmpty then [reply] else rest
    ({ s with scripts := s.scripts.map fun (m, rs) => (m, if m = r.method then left else rs) }, reply)
  | _ => (s, s.ruled r)

def count (s : MacroServer) (method : Text) : Nat :=
  (s.received.toList.filter (·.method == method)).length

end MacroServer

end MacroRelay
