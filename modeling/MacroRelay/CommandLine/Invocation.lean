import MacroRelay.CommandLine.Command
import MacroRelay.Text.Distance

/-!
# Invocations

The words among the arguments lead down the tree of commands as far as they name one. What is
left goes to the command that was reached.
-/

namespace MacroRelay.CommandLine

/-- Whether the next argument belongs to this one. An unknown flag is taken to need a value. -/
def takesNext (flags : List Flag) (argument : Text) : Bool :=
  let isSwitch (flag? : Option Flag) := (flag?.map fun flag => flag.kind == .switch).getD false
  !List.contains argument equals &&
    if isLong argument then !isSwitch (flags.find? (·.name == argument.drop 2))
    else isFlag argument && argument.length == 2 &&
      !isSwitch (flags.find? fun flag => flag.short.isSome && flag.short == argument[1]?)

def words (flags : List Flag) : List Text → List Text
  | [] => []
  | argument :: others =>
    if argument = [dash, dash] then []
    else if takesNext flags argument then
      match others with
      | _ :: next :: others => words flags (next :: others)
      | _ => []
    else if argument = [] ∨ isFlag argument then words flags others
    else argument :: words flags others

def without (flags : List Flag) (word : Text) : List Text → List Text
  | [] => []
  | argument :: others =>
    if argument = [dash, dash] then argument :: others
    else if takesNext flags argument then
      match others with
      | [] => [argument]
      | value :: others => argument :: value :: without flags word others
    else if argument = word then others
    else argument :: without flags word others

/-- No path down the tree is longer than the number of arguments. -/
def descend : Nat → Command → List Text → Command × List Text
  | 0, c, arguments => (c, arguments)
  | n + 1, c, arguments =>
    match words c.flags arguments with
    | [] => (c, arguments)
    | word :: _ =>
      match c.child? word with
      | none => (c, arguments)
      | some child => descend n child (without c.flags word arguments)

def locate (arguments : List Text) : Command × List Text :=
  descend arguments.length .root arguments

/-- The commands a mistyped word may have meant: close in spelling, or continued. -/
def suggestions (word : Text) : List Text :=
  ((Command.root.children.filter (· != .help)).map Command.name).filter fun name =>
    Text.distance word.lowercase name ≤ 2 || word.lowercase.isPrefixOf name

inductive UsageError where
  | noSuchCommand (word : Text)
  | flag (e : FlagError)
  | unexpected (argument : Text) (c : Command)
  | tooFew (least received : Nat)
deriving DecidableEq

def UsageError.message : UsageError → Text
  | .noSuchCommand word =>
    let lines : Text := (suggestions word).flatMap fun name => 0x09 :: name ++ [Text.newline]
    let hint : Text := if lines = [] then [] else "\n\nDid you mean this?\n" ++ lines
    "unknown command " ++ word.quoted ++ " for " ++ Command.root.path.quoted ++ hint
  | .flag e => e.message
  | .unexpected argument c => "unknown command " ++ argument.quoted ++ " for " ++ c.path.quoted
  | .tooFew least received =>
    "requires at least " ++ Text.decimal least ++ " arg(s), only received " ++ Text.decimal received

/-- What stands on the line below the message. -/
def UsageError.advice : UsageError → Text
  | .noSuchCommand _ => "Run '" ++ Command.root.path ++ " --help' for usage.\n"
  | _ => []

inductive Invocation where
  | run (c : Command) (a : Arguments)
  | help (c : Command)
  | version
deriving DecidableEq

def checkArity (c : Command) (a : Arguments) : Except UsageError Unit :=
  match c.arity, a.rest with
  | .none, argument :: _ => .error (.unexpected argument c)
  | .atLeast n, rest => if rest.length < n then .error (.tooFew n rest.length) else .ok ()
  | _, _ => .ok ()

/-- Help goes before everything but mistakes in flags. -/
def Invocation.ofArguments (arguments : List Text) : Except UsageError Invocation :=
  let (c, arguments) := locate arguments
  match c, words c.flags arguments with
  | .root, word :: _ => .error (.noSuchCommand word)
  | c, _ =>
    match parse c.allFlags arguments with
    | .error e => .error (.flag e)
    | .ok a =>
      if a.isOn "help" then .ok (.help c)
      else if c = .root ∧ a.isOn "version" then .ok .version
      else if !c.runs then .ok (.help c)
      else match checkArity c a with
        | .error e => .error e
        | .ok () => .ok (.run c a)

end MacroRelay.CommandLine
