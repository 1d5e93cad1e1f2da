import MacroRelay.CommandLine.Flag
import MacroRelay.Relay.Batch

/-!
# Commands

The commands form a tree. A command takes its own flags and the lasting flags of everything
above it.
-/

namespace MacroRelay.CommandLine

inductive Command where
  | root
  | catalogue
  | expand
  | expandFiles (mode : ExpandMode)
  | cache
  | cacheClear
  | version
  | help
  | completion
deriving DecidableEq

/-- How many arguments a command takes besides flags. -/
inductive Arity where
  | any
  | none
  | atLeast (n : Nat)
deriving DecidableEq

namespace Command

def name : Command → Text
  | .root => "macrobridge"
  | .catalogue => "catalogue"
  | .expand => "expand"
  | .expandFiles mode => mode.name
  | .cache => "cache"
  | .cacheClear => "clear"
  | .version => "version"
  | .help => "help"
  | .completion => "completion"

/-- In the order of suggestions. -/
def children : Command → List Command
  | .root => [.catalogue, .expand, .cache, .version, .help, .completion]
  | .expand => [.expandFiles .attr, .expandFiles .derive, .expandFiles .inline]
  | .cache => [.cacheClear]
  | _ => []

def lineage : Command → List Command
  | .root => [.root]
  | .expandFiles mode => [.root, .expand, .expandFiles mode]
  | .cacheClear => [.root, .cache, .cacheClear]
  | c => [.root, c]

def path (c : Command) : Text :=
  Text.joined " " (c.lineage.map name)

def arity : Command → Arity
  | .catalogue | .cacheClear | .version => .none
  | .expandFiles _ => .atLeast 1
  | _ => .any

def runs : Command → Bool
  | .catalogue | .cacheClear | .version | .expandFiles _ => true
  | _ => false

def lastingFlags : Command → List Flag
  | .root => [
      { name := "config", usage := "path to macrobridge.toml (default: search upwards)" },
      { name := "color", usage := "colorize output (auto|on|off)" },
      { name := "timings", kind := .switch, usage := "show timing information" },
      { name := "trace", usage := "trace output file (- for stderr)" },
      { name := "trace-level", usage := "trace level (off|error|session|process|debug)" },
      { name := "trace-mode", usage := "trace storage mode (stream|ring|both)" },
      { name := "trace-ring-size", kind := .integer, usage := "trace ring buffer capacity" }]
  | .expand => [
      { name := "package", usage := "only consult this macro package" },
      { name := "edition", usage := "language edition passed to macros" },
      { name := "mappings", kind := .switch, usage := "print where each generated line comes from" }]
  | _ => []

def ownFlags : Command → List Flag
  | .catalogue => [{ name := "format", usage := "output format (text|json)" }]
  | .version => [
      { name := "full", kind := .switch, usage := "include commit and build date" },
      { name := "format", usage := "output format (pretty|json)" }]
  | _ => []

def flags (c : Command) : List Flag :=
  c.ownFlags ++ c.lineage.flatMap lastingFlags

def helpFlag : Flag :=
  { name := "help", kind := .switch, short := some 0x68, usage := "show this text" }

def versionFlag : Flag :=
  { name := "version", kind := .switch, short := some 0x76, usage := "show the version" }

def allFlags (c : Command) : List Flag :=
  helpFlag :: (if c = .root then [versionFlag] else []) ++ c.flags

def child? (c : Command) (name : Text) : Option Command :=
  c.children.find? (·.name == name)

def summary : Command → Text
  | .root => "Procedural macro bridge"
  | .catalogue => "List the macros each package declares"
  | .expand => "Expand macros found in source files"
  | .expandFiles .attr => "Expand the first macro attribute of each item"
  | .expandFiles .derive => "Expand the macro derives of each item"
  | .expandFiles .inline => "Expand an inline macro call in each file"
  | .cache => "Manage the expansion cache"
  | .cacheClear => "Drop every cached expansion"
  | .version => "Show build information"
  | .help => "Show help for a command"
  | .completion => "Complete words in a shell"

def helpRow (head body : Text) : Text :=
  let blanks : Text := List.replicate (22 - head.length) 0x20
  "  " ++ head ++ blanks ++ "  " ++ body ++ "\n"

def helpText (c : Command) : Text :=
  let rows : Text := c.children.flatMap fun child => helpRow child.name child.summary
  let commands : Text := if rows = [] then [] else "\nCommands:\n" ++ rows
  let flags : Text := c.allFlags.flatMap fun flag => helpRow flag.shown flag.usage
  c.summary ++ "\n\nUsage:\n  " ++ c.path ++ " [flags]\n" ++
    commands ++ "\nFlags:\n" ++ flags

end Command

end MacroRelay.CommandLine
