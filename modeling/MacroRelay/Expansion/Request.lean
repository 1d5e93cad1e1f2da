import MacroRelay.Expansion.Stream
import MacroRelay.Wire.Method

/-!
# Requests for an expansion

A request is always made in the shape of the second generation. For a package of the first
generation it steps down on its way out, and the answer steps up on its way in.
-/

namespace MacroRelay

inductive Expansion where
  | attribute : Gen2.AttributeRequest → Expansion
  | derive : Gen2.DeriveRequest → Expansion
  | inline : Gen2.InlineRequest → Expansion

namespace Expansion

def key : Expansion → Key
  | .attribute r => .attribute r.key
  | .derive r => .derive r.key
  | .inline r => .inline r.key

def shape (e : Expansion) : Shape := e.key.shape

def method (e : Expansion) (g : Generation) : Method := .expand g e.shape

def params (e : Expansion) (g : Generation) : Text :=
  match e, g with
  | .attribute r, .second => Gen2.AttributeRequest.codec.write r
  | .derive r, .second => Gen2.DeriveRequest.codec.write r
  | .inline r, .second => Gen2.InlineRequest.codec.write r
  | .attribute r, .first => Gen1.AttributeRequest.codec.write r.downgrade
  | .derive r, .first => Gen1.DeriveRequest.codec.write r.downgrade
  | .inline r, .first => Gen1.InlineRequest.codec.write r.downgrade

/-- The answer of a server of the generation; no result is an empty answer. -/
def answer? (g : Generation) (raw : Option Text) : Option Gen2.Result :=
  match g, raw with
  | .second, none => some {}
  | .second, some t => Gen2.Result.codec.decode? t
  | .first, none => some (Gen1.Result.upgrade {})
  | .first, some t => (Gen1.Result.codec.decode? t).map Gen1.Result.upgrade

end Expansion

end MacroRelay
