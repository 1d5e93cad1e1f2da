import MacroRelay.Text.Quoted
import MacroRelay.Text.Sorted

/-!
# Suites of plugins

A suite is what is installed for one package: plugins that handle annotated items, in order,
and at most one plugin for each name of an inline call.
-/

namespace MacroRelay

structure Plugin (π : Type) where
  attributes : List Text
  derives : List Text
  executables : List Text
  handler : π

structure Suite (π ι : Type) where
  plugins : List (Plugin π) := []
  inline : List (Text × ι) := []

inductive SuiteFault where
  | boundTwice (name : Text)
deriving DecidableEq

def SuiteFault.message : SuiteFault → Text
  | .boundTwice name => "plugin: inline macro " ++ name.quoted ++ " bound twice"

namespace Suite

variable {π ι : Type}

def addPlugin (s : Suite π ι) (p : Plugin π) : Suite π ι :=
  { s with plugins := s.plugins ++ [p] }

def inline? (s : Suite π ι) (name : Text) : Option ι :=
  s.inline.lookup name

def bindInline (s : Suite π ι) (name : Text) (p : ι) : Except SuiteFault (Suite π ι) :=
  if (s.inline? name).isSome then .error (.boundTwice name)
  else .ok { s with inline := s.inline ++ [(name, p)] }

/-- Takes over bindings one by one up to the first name that is bound already. -/
def bindAll (s : Suite π ι) : List (Text × ι) → Suite π ι × Option SuiteFault
  | [] => (s, none)
  | (name, p) :: rest =>
    match s.bindInline name p with
    | .ok s => s.bindAll rest
    | .error fault => (s, some fault)

def sortedInline (s : Suite π ι) : List (Text × ι) :=
  s.inline.mergeSort fun a b => !Text.before b.1 a.1

/-- Adds all of another suite. Its plugins stay added if a name turns out to be bound. -/
def merge (s other : Suite π ι) : Suite π ι × Option SuiteFault :=
  { s with plugins := s.plugins ++ other.plugins }.bindAll other.sortedInline

def inlineNames (s : Suite π ι) : List Text :=
  s.sortedInline.map (·.1)

def declaredAttributes (s : Suite π ι) : List Text :=
  Text.distinct (s.plugins.flatMap (·.attributes))

def declaredDerives (s : Suite π ι) : List Text :=
  Text.distinct (s.plugins.flatMap (·.derives))

def recognizes (s : Suite π ι) (name : Text) : Bool :=
  Text.listed s.declaredAttributes name

end Suite

end MacroRelay
