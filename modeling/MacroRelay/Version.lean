import MacroRelay.Text.Paint

/-!
# Versions

A version of three numeric parts is shown with each part in a colour of its own.
-/

namespace MacroRelay

namespace Version

def current : Text := "0.3.0-dev"

/-- What a build without a commit or a date says about them. -/
def unknown : Text := "unknown"

def protocols : List UInt8 := [1, 2]

/-- Colours the three parts in front of a `-` or `+`; a version of another form stays plain. -/
def coloured (version : Text) : Text :=
  let core := version.takeWhile fun b => b != 0x2D && b != 0x2B
  match Text.splitAt 0x2E core with
  | [major, minor, patch] =>
    (Paint.bold 33).apply major ++ "." ++ (Paint.bold 32).apply minor ++ "." ++
      (Paint.bold 34).apply patch ++ version.drop core.length
  | _ => version

end Version

end MacroRelay
