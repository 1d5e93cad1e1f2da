import MacroRelay.CommandLine.Integer

/-!
# Flags

A flag is given as `--name value` or `--name=value`; a switch needs no value. Flags and other
arguments may be mixed up to a bare `--`.
-/

namespace MacroRelay.CommandLine

inductive FlagKind where
  | text
  | switch
  | integer
deriving DecidableEq

structure Flag where
  name : Text
  kind : FlagKind := .text
  short : Option UInt8 := none
  usage : Text := []
deriving DecidableEq

inductive FlagError where
  | badForm (argument : Text)
  | unknown (name : Text)
  | unknownShort (short : UInt8) (cluster : Text)
  | needsValue (name : Text)
  | badSwitch (flag : Flag) (value : Text)
  | badInteger (flag : Flag) (value : Text) (fault : IntegerFault)
deriving DecidableEq

def Flag.shown (flag : Flag) : Text :=
  match flag.short with
  | some s => "-" ++ [s] ++ ", --" ++ flag.name
  | none => "--" ++ flag.name

/-- The character that the first byte of the shown short flag stands for. -/
def shortShown (b : UInt8) : Text :=
  let n := if b < 0x80 then b.toNat else if b < 0xC0 then 0xC2 else 0xC3
  if n = 0x27 then "'\\''" else if n = 0x22 then "'\"'" else "'" ++ Text.escapedScalar n ++ "'"

def FlagError.message : FlagError → Text
  | .badForm argument => "bad flag syntax: " ++ argument
  | .unknown name => "unknown flag: --" ++ name
  | .unknownShort short cluster => "unknown shorthand flag: " ++ shortShown short ++ " in -" ++ cluster
  | .needsValue name => "flag needs an argument: --" ++ name
  | .badSwitch flag value => "invalid argument " ++ value.quoted ++ " for " ++ flag.shown.quoted ++
      " flag: strconv.ParseBool: parsing " ++ value.quoted ++ ": invalid syntax"
  | .badInteger flag value fault => "invalid argument " ++ value.quoted ++ " for " ++ flag.shown.quoted ++
      " flag: strconv.ParseInt: parsing " ++ value.quoted ++ ": " ++ fault.message

def yes : List Text := ["1", "t", "T", "TRUE", "true", "True"]

def no : List Text := ["0", "f", "F", "FALSE", "false", "False"]

def switch? (t : Text) : Option Bool :=
  if yes.contains t then some true else if no.contains t then some false else none

/-- Refuses a value that does not fit the kind of the flag. -/
def Flag.check (flag : Flag) (value : Text) : Except FlagError Unit :=
  match flag.kind with
  | .text => .ok ()
  | .switch => if (switch? value).isSome then .ok () else .error (.badSwitch flag value)
  | .integer =>
    match Integer.parse value with
    | .ok _ => .ok ()
    | .error fault => .error (.badInteger flag value fault)

structure Arguments where
  given : List (Text × Text) := []
  rest : List Text := []
deriving DecidableEq

namespace Arguments

/-- The last value counts. -/
def value? (a : Arguments) (name : Text) : Option Text :=
  (a.given.reverse.lookup name)

def text (a : Arguments) (name default : Text) : Text :=
  (a.value? name).getD default

def isOn (a : Arguments) (name : Text) : Bool :=
  ((a.value? name).bind switch?).getD false

def integer? (a : Arguments) (name : Text) : Option Int :=
  (a.value? name).bind fun t => (Integer.parse t).toOption

end Arguments

def dash : UInt8 := 0x2D

def equals : UInt8 := 0x3D

def isLong (argument : Text) : Bool := [dash, dash].isPrefixOf argument

def isFlag (argument : Text) : Bool := argument.head? == some dash

def trueText : Text := "true"

/-- What starts a setting of a test run, which this program takes no notice of. -/
def testMark : Text := "test."

/-- Reads a cluster of one-letter switches; one may end with `=value`, and a setting of a test
run ends the cluster. -/
def parseShort (flags : List Flag) : Text → Except FlagError (List (Text × Text))
  | [] => .ok []
  | c :: rest =>
    if testMark.isPrefixOf (c :: rest) then .ok []
    else match flags.find? (·.short == some c) with
    | none => .error (.unknownShort c (c :: rest))
    | some flag =>
      match rest with
      | 0x3D :: v :: value => do
        flag.check (v :: value)
        return [(flag.name, v :: value)]
      | _ => do
        flag.check trueText
        return (flag.name, trueText) :: (← parseShort flags rest)

def splitLong (argument : Text) : Text × Option Text :=
  let body := argument.drop 2
  let name := body.takeWhile (· != equals)
  (name, if name.length < body.length then some (body.drop (name.length + 1)) else none)

def longFlag (flags : List Flag) (argument : Text) : Except FlagError (Flag × Option Text) :=
  let (name, value?) := splitLong argument
  if name = [] ∨ name.head? = some dash then .error (.badForm argument)
  else match flags.find? (·.name == name) with
    | none => .error (.unknown name)
    | some flag => .ok (flag, value?)

def giving (flag : Flag) (value : Text) (a : Arguments) : Arguments :=
  { a with given := (flag.name, value) :: a.given }

def parse (flags : List Flag) : List Text → Except FlagError Arguments
  | [] => .ok {}
  | argument :: others =>
    if argument = [dash, dash] then .ok { rest := others }
    else if isLong argument then do
      let (flag, value?) ← longFlag flags argument
      match value?, flag.kind with
      | some value, _ =>
        flag.check value
        return giving flag value (← parse flags others)
      | none, .switch => return giving flag trueText (← parse flags others)
      | none, _ =>
        match others with
        | [] => throw (.needsValue flag.name)
        | value :: others =>
          flag.check value
          return giving flag value (← parse flags others)
    else if isFlag argument ∧ 1 < argument.length then do
      let given ← parseShort flags (argument.drop 1)
      let a ← parse flags others
      return { a with given := given ++ a.given }
    else do
      let a ← parse flags others
      return { a with rest := argument :: a.rest }

end MacroRelay.CommandLine
