import MacroRelay.Settings.Connection
import MacroRelay.Source.FileTree
import MacroRelay.Text.Quoted
import MacroRelay.Toml.Decode

/-!
# The settings file

Settings come from the nearest `macrobridge.toml` at or above a directory, over the defaults.
Paths in the file are taken from the directory of the file.
-/

namespace MacroRelay

structure ServerSettings where
  command : List Text := []
  dir : Text := []
  env : List Text := []
  /-- A catalogue for work without a server. -/
  catalogue : Text := []
deriving DecidableEq

structure CacheSettings where
  memoSize : Int := 1024
  disk : Bool := false
  dir : Text := []
deriving DecidableEq

structure TraceSettings where
  level : Text := "off"
  mode : Text := "both"
  output : Text := []
  ringSize : Int := 4096
deriving DecidableEq

structure Settings where
  server : ServerSettings := {}
  connection : ConnectionSettings := ⟨3, "100ms", "5s", "10s", "30s"⟩
  cache : CacheSettings := {}
  trace : TraceSettings := {}
  /-- Where the settings were found; empty for the defaults. -/
  path : Text := []
deriving DecidableEq

inductive SettingsError where
  | unsearchable (path : Text) (fault : FileFault)
  | unreadable (path : Text) (fault : FileFault)
  | malformed (path : Text)
  | unknownKey (path : Text) (key : Toml.Key)
  | connection (path : Text) (cause : ConnectionError)
deriving DecidableEq

def SettingsError.message : SettingsError → Text
  | .unsearchable path fault => "failed to stat " ++ path.quoted ++ ": " ++ fault.message
  | .unreadable path fault => path ++ ": failed to parse TOML: " ++ fault.message
  | .malformed path => path ++ ": failed to parse TOML: toml: malformed data"
  | .unknownKey path key => path ++ ": unknown key " ++ (Toml.Key.text key).quoted
  | .connection path cause => path ++ ": " ++ cause.message

namespace Settings

def fileName : Text := "macrobridge.toml"

def int64? (v : Toml.Value) : Option Int :=
  v.integer? Int64.minValue.toInt (Int64.maxValue.toInt + 1)

def serverFields : List (Toml.Field ServerSettings) :=
  [⟨"command", fun s v => do return { s with command := ← v.texts? }⟩,
    ⟨"dir", fun s v => do return { s with dir := ← v.text? }⟩,
    ⟨"env", fun s v => do return { s with env := ← v.texts? }⟩,
    ⟨"catalogue", fun s v => do return { s with catalogue := ← v.text? }⟩]

def connectionFields : List (Toml.Field ConnectionSettings) :=
  [⟨"max_restarts", fun s v => do return { s with maxRestarts := Int64.ofInt (← int64? v) }⟩,
    ⟨"backoff", fun s v => do return { s with backoff := ← v.text? }⟩,
    ⟨"max_backoff", fun s v => do return { s with maxBackoff := ← v.text? }⟩,
    ⟨"handshake_timeout", fun s v => do return { s with handshakeTimeout := ← v.text? }⟩,
    ⟨"request_timeout", fun s v => do return { s with requestTimeout := ← v.text? }⟩]

def cacheFields : List (Toml.Field CacheSettings) :=
  [⟨"memo_size", fun s v => do return { s with memoSize := ← int64? v }⟩,
    ⟨"disk", fun s v => do return { s with disk := ← v.boolean? }⟩,
    ⟨"dir", fun s v => do return { s with dir := ← v.text? }⟩]

def traceFields : List (Toml.Field TraceSettings) :=
  [⟨"level", fun s v => do return { s with level := ← v.text? }⟩,
    ⟨"mode", fun s v => do return { s with mode := ← v.text? }⟩,
    ⟨"output", fun s v => do return { s with output := ← v.text? }⟩,
    ⟨"ring_size", fun s v => do return { s with ringSize := ← int64? v }⟩]

structure Section where
  name : Text
  decode? : Toml.Table → Settings → Option (Settings × List Text)

def sections : List Section :=
  [⟨"server", fun t s => do
      let (r, keys) ← t.decode? serverFields s.server
      return ({ s with server := r }, keys)⟩,
    ⟨"connection", fun t s => do
      let (r, keys) ← t.decode? connectionFields s.connection
      return ({ s with connection := r }, keys)⟩,
    ⟨"cache", fun t s => do
      let (r, keys) ← t.decode? cacheFields s.cache
      return ({ s with cache := r }, keys)⟩,
    ⟨"trace", fun t s => do
      let (r, keys) ← t.decode? traceFields s.trace
      return ({ s with trace := r }, keys)⟩]

def findSection? (key : Text) : Option Section :=
  (sections.find? (·.name == key)).or (sections.find? fun s => Toml.sameIgnoringCase s.name key)

def decode? (root : Toml.Table) : Option (Settings × List Toml.Key) :=
  root.foldlM (fun (settings, taken) (key, value) =>
    match findSection? key with
    | none => some (settings, taken)
    | some sec => do
      let (settings, keys) ← sec.decode? (← value.table?) settings
      return (settings, [key] :: keys.map (fun k => [key, k]) ++ taken)) (({} : Settings), [])

/-- A relative path is taken from the directory of the file. -/
def locate (base path : Text) : Text :=
  if path = [] ∨ Path.isAbsolute path then path else Path.join [base, path]

def anchored (s : Settings) (path : Text) : Settings :=
  let base := Path.parent path
  { s with
    path
    server := { s.server with
      dir := locate base s.server.dir
      catalogue := locate base s.server.catalogue }
    cache := { s.cache with dir := locate base s.cache.dir } }

/-- Settings that say nothing, not even the defaults. -/
def blank : Settings where
  connection := ⟨0, [], [], [], []⟩
  cache := { memoSize := 0 }
  trace := ⟨[], [], [], 0⟩

/-- Settings as they are handed out, and what is wrong with them. -/
structure Loaded where
  settings : Settings
  error? : Option SettingsError
deriving DecidableEq

def Loaded.result (l : Loaded) : Except SettingsError Settings :=
  match l.error? with
  | some e => .error e
  | none => .ok l.settings

def parse (path t : Text) : Loaded :=
  match Toml.Document.parse? t with
  | none => ⟨blank, some (.malformed path)⟩
  | some document =>
    match decode? document.root with
    | none => ⟨blank, some (.malformed path)⟩
    | some (settings, taken) =>
      match document.keys.find? (!taken.contains ·) with
      | some key => ⟨blank, some (.unknownKey path key)⟩
      | none =>
        let settings := settings.anchored path
        match settings.connection.validate with
        | .error cause => ⟨blank, some (.connection path cause)⟩
        | .ok _ => ⟨settings, none⟩

def loaded (files : FileSystem) (path : Text) : Loaded :=
  match files.read path with
  | .error fault => ⟨blank, some (.unreadable path fault)⟩
  | .ok t => parse path t

def load (files : FileSystem) (path : Text) : Except SettingsError Settings :=
  (loaded files path).result

/-- Where the settings file of a directory is looked for. -/
def candidate (dir : Text) : Text := Path.join [dir, fileName]

/-- The first candidate, from the inside out, that is there or cannot be looked at. -/
def search (files : FileSystem) : List Text → Except SettingsError (Option Text)
  | [] => .ok none
  | dir :: rest =>
    match files.stat (candidate dir) with
    | .ok _ => .ok (some (candidate dir))
    | .error fault =>
      if fault.isNotFound then search files rest else .error (.unsearchable (candidate dir) fault)

/-- Searches from a directory up to the root. -/
def find (files : FileSystem) (start : Text) : Except SettingsError (Option Text) :=
  let dir := Path.against files.workingDirectory start
  search files (dir :: (FileTree.ancestors dir).reverse)

/-- The nearest settings file, or the defaults if there is none. -/
def discovered (files : FileSystem) (start : Text) : Loaded :=
  match find files start with
  | .error e => ⟨blank, some e⟩
  | .ok none => ⟨{}, none⟩
  | .ok (some path) => loaded files path

def discover (files : FileSystem) (start : Text) : Except SettingsError Settings :=
  (discovered files start).result

end Settings

end MacroRelay
