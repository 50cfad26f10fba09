/-
Settings.  They come from the tree of values in a configuration file, over which
environment variables can put single values.  What is not given keeps its
default; what is given must have the right kind.
-/
import SeriesWire.Config.Value

namespace SeriesWire

structure LoggingSettings where
  logDir : String := "logs"
  stdoutLevel : String := "info"
  fileLevel : String := "debug"
  /-- Level of this library's own log targets. -/
  codecLevel : String := "debug"
  deriving DecidableEq, Repr

structure CodecSettings where
  /-- First size of a payload buffer, in bytes. -/
  initialPayloadCapacity : Nat := 65536
  /-- Least growth of a payload buffer that runs out of room. -/
  payloadExtendStep : Nat := 65536
  /-- Name of the compression of result batches. -/
  resultCompression : String := "lz4"
  deriving DecidableEq, Repr

structure Settings where
  logging : LoggingSettings := {}
  codec : CodecSettings := {}
  deriving DecidableEq, Repr

inductive SettingsFault
  | missingFile
  | wrongKind (key : String)
  deriving DecidableEq, Repr

namespace Settings

/-- The setting called `key`, the one at index `i` where settings come in order,
or its default where none is given. -/
def get (v : ConfigValue) (i : Nat) (key : String) (read : ConfigValue → Option α)
    (otherwise : α) : Except SettingsFault α :=
  match v.setting? i key with
  | none => .ok otherwise
  | some given =>
    match read given with
    | some a => .ok a
    | none => .error (.wrongKind key)

def readLogging (v : ConfigValue) : Except SettingsFault LoggingSettings := do
  let d : LoggingSettings := {}
  return {
    logDir := ← get v 0 "log_dir" ConfigValue.text? d.logDir
    stdoutLevel := ← get v 1 "stdout_level" ConfigValue.text? d.stdoutLevel
    fileLevel := ← get v 2 "file_level" ConfigValue.text? d.fileLevel
    codecLevel := ← get v 3 "codec_level" ConfigValue.text? d.codecLevel }

def readCodec (v : ConfigValue) : Except SettingsFault CodecSettings := do
  let d : CodecSettings := {}
  return {
    initialPayloadCapacity :=
      ← get v 0 "initial_payload_capacity" ConfigValue.number? d.initialPayloadCapacity
    payloadExtendStep := ← get v 1 "payload_extend_step" ConfigValue.number? d.payloadExtendStep
    resultCompression := ← get v 2 "result_compression" ConfigValue.text? d.resultCompression }

/-- Read settings off a tree.  Keys that are not known here are ignored. -/
def ofConfig (root : ConfigValue) : Except SettingsFault Settings := do
  let logging ← get root 0 "logging" ConfigValue.section? (.table [])
  let codec ← get root 1 "codec" ConfigValue.section? (.table [])
  return { logging := ← readLogging logging, codec := ← readCodec codec }

/-- Lay values over a tree.  Each key can be a path. -/
def overlay (root : ConfigValue) (entries : List (String × ConfigValue)) : ConfigValue :=
  entries.foldl (fun root (key, v) => ConfigValue.set v (ConfigPath.ofKey key) root) root

/-- A letter in lower case.  Beyond ASCII only the Kelvin sign falls to an ASCII
letter, and no key that is known here has any other. -/
def lower (c : Char) : Char := if c = '\u212a' then 'k' else c.toLower

/-- What the name of an environment variable must begin with, in lower case. -/
def variablePrefix : List Char := "kwproto__".toList

/-- Two underscores separate keys like a dot. -/
def dotted : List Char → List Char
  | '_' :: '_' :: rest => '.' :: dotted rest
  | c :: rest => c :: dotted rest
  | [] => []

/-- The key that a variable sets, if it is one of ours.  Case does not matter. -/
def variableKey? (name : String) : Option String :=
  let name := name.toList.map lower
  if variablePrefix.isPrefixOf name then
    some (String.ofList (dotted (name.drop variablePrefix.length)))
  else none

def ofEnvironment (environment : List (String × String)) : List (String × ConfigValue) :=
  environment.filterMap fun (name, value) => (variableKey? name).map (·, .text value)

/-- The tree that a file holds, whose outermost keys can be paths. -/
def tree (file : ConfigValue) : Except SettingsFault ConfigValue :=
  match file with
  | .table es => .ok (overlay (.table []) es)
  | _ => .error (.wrongKind "")

def ofFile : Option ConfigValue → Except SettingsFault Settings
  | none => .error .missingFile
  | some file => do ofConfig (← tree file)

def load (file : Option ConfigValue) (environment : List (String × String)) :
    Except SettingsFault Settings := do
  let root ← tree (file.getD (.table []))
  ofConfig (overlay root (ofEnvironment environment))

end Settings
end SeriesWire
