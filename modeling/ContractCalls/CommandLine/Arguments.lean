/-
Arguments of the command line.

Arguments are read from left to right.  What cannot be read, or asks for
information about the tool, ends the reading where it stands.
-/
import ContractCalls.Text.Blank

namespace ContractCalls.CommandLine

open Text

/-- An argument that is given or not. -/
inductive Flag where
  | emitCallGraph
  | emitListing
  | declaredOnly
  | includeShadowed
  | noExternalCalls
  | noLibraryCalls
  | noModifiers
  | noBaseConstructors
  | includeSolidityCalls
  /-- Failures are recorded in the report and the run goes on. -/
  | noFail
  | verbose
deriving DecidableEq, Repr

namespace Flag

/-- The name of a flag. -/
def name : Flag → String
  | .emitCallGraph => "emit-callgraph"
  | .emitListing => "emit-ir"
  | .declaredOnly => "declared-only"
  | .includeShadowed => "include-shadowed"
  | .noExternalCalls => "no-external-calls"
  | .noLibraryCalls => "no-library-calls"
  | .noModifiers => "no-modifiers"
  | .noBaseConstructors => "no-base-constructors"
  | .includeSolidityCalls => "include-solidity-calls"
  | .noFail => "no-fail"
  | .verbose => "verbose"

def all : List Flag :=
  [.emitCallGraph, .emitListing, .declaredOnly, .includeShadowed, .noExternalCalls,
    .noLibraryCalls, .noModifiers, .noBaseConstructors, .includeSolidityCalls, .noFail, .verbose]

/-- The flag means something only if the report goes to a file. -/
def needsOutput : Flag → Bool
  | .emitCallGraph | .emitListing => true
  | _ => false

end Flag

/-- An argument with a value. -/
inductive Setting where
  /-- A file with one target per line. -/
  | targetsFile
  /-- The file for the report. -/
  | output
  /-- The directory for the bundles of the external functions. -/
  | bundleDirectory
  /-- The visibilities to report, between commas. -/
  | onlyVisibility
  | compilerVersion
  | compilerBinary
deriving DecidableEq, Repr

namespace Setting

/-- The name of a setting. -/
def name : Setting → String
  | .targetsFile => "targets-file"
  | .output => "output"
  | .bundleDirectory => "dump-external-dir"
  | .onlyVisibility => "only-visibility"
  | .compilerVersion => "vyper-version"
  | .compilerBinary => "vyper-bin"

def all : List Setting :=
  [.targetsFile, .output, .bundleDirectory, .onlyVisibility, .compilerVersion, .compilerBinary]

/-- The value is a path, which cannot be empty. -/
def isPath : Setting → Bool
  | .targetsFile | .output | .bundleDirectory | .compilerBinary => true
  | .onlyVisibility | .compilerVersion => false

/-- The setting may be given more than once. -/
def isRepeatable : Setting → Bool
  | .onlyVisibility => true
  | _ => false

end Setting

/-- Arguments that were read. -/
structure Arguments where
  targets : List String
  flags : List Flag
  settings : List (Setting × String)
deriving DecidableEq, Repr

/-- Why the reading of arguments ends early. -/
inductive Stop where
  /-- The arguments ask for a text about the tool. -/
  | information
  /-- The arguments cannot be read. -/
  | misuse
deriving DecidableEq, Repr

namespace Arguments

/-- No arguments. -/
def empty : Arguments := ⟨[], [], []⟩

/-- The flag is given. -/
def has (a : Arguments) (flag : Flag) : Bool := a.flags.contains flag

/-- The values of a setting, in order. -/
def valuesOf (a : Arguments) (setting : Setting) : List String :=
  (a.settings.filter (·.1 == setting)).map Prod.snd

/-- The value of a setting. -/
def value? (a : Arguments) (setting : Setting) : Option String := (a.valuesOf setting).head?

/-! ## Adding arguments -/

def addTarget (a : Arguments) (target : String) : Arguments :=
  { a with targets := a.targets ++ [target] }

/-- Adds a flag that is not given yet. -/
def addFlag (a : Arguments) (flag : Flag) : Except Stop Arguments :=
  if a.has flag then .error .misuse else .ok { a with flags := a.flags ++ [flag] }

/-- Adds a setting. -/
def addSetting (a : Arguments) (setting : Setting) (value : String) : Except Stop Arguments :=
  if (setting.isPath && value.isEmpty) ||
      (!setting.isRepeatable && (a.value? setting).isSome) then .error .misuse
  else .ok { a with settings := a.settings ++ [(setting, value)] }

/-! ## Reading -/

/-- The forms of one argument. -/
inductive Token where
  /-- All that follows are targets. -/
  | separator
  /-- A name behind two dashes, and a value behind an equals sign. -/
  | long (name : String) (value : Option String)
  /-- Letters behind one dash. -/
  | short (letters : List Char)
  | plain (text : String)
deriving DecidableEq, Repr

/-- The form of an argument.  A dash alone is plain. -/
def Token.ofString (text : String) : Token :=
  match text.toList with
  | ['-', '-'] => .separator
  | '-' :: '-' :: name =>
      match splitFirst? (· == '=') name with
      | some (name, value) => .long (String.ofList name) (some (String.ofList value))
      | none => .long (String.ofList name) none
  | '-' :: letter :: letters => .short (letter :: letters)
  | _ => .plain text

/-- The arguments so far, and the setting whose value comes next. -/
abbrev Partial := Arguments × Option Setting

/-- Reads a name behind two dashes. -/
def readLong (a : Arguments) (name : String) (value : Option String) : Except Stop Partial :=
  match Flag.all.find? (·.name == name), Setting.all.find? (·.name == name), value with
  | some flag, _, none => do return (← a.addFlag flag, none)
  | none, some setting, some value => do return (← a.addSetting setting value, none)
  | none, some setting, none => .ok (a, some setting)
  | none, none, none =>
      .error (if name == "help" || name == "version" then .information else .misuse)
  | _, _, some _ => .error .misuse

/-- Reads letters behind one dash; the rest of a group behind a setting is its value. -/
def readShort (a : Arguments) : List Char → Except Stop Partial
  | [] => .ok (a, none)
  | 'v' :: rest =>
      match a.addFlag .verbose with
      | .ok a => readShort a rest
      | .error stop => .error stop
  | ['o'] => .ok (a, some .output)
  | 'o' :: '=' :: value => do return (← a.addSetting .output (String.ofList value), none)
  | 'o' :: value => do return (← a.addSetting .output (String.ofList value), none)
  | 'h' :: _ | 'V' :: _ => .error .information
  | _ => .error .misuse

/-- Reads one argument that is not the separator. -/
def readToken (state : Partial) (token : Token) : Except Stop Partial :=
  match state, token with
  | (a, some setting), .plain value => do return (← a.addSetting setting value, none)
  | (a, none), .plain target => .ok (a.addTarget target, none)
  | (a, none), .long name value => readLong a name value
  | (a, none), .short letters => readShort a letters
  | _, _ => .error .misuse

/-- Reads arguments from left to right. -/
def readFrom (state : Partial) : List String → Except Stop Arguments
  | [] =>
      match state with
      | (a, none) => .ok a
      | (_, some _) => .error .misuse
  | text :: rest =>
      match state, Token.ofString text with
      | (a, none), .separator => .ok { a with targets := a.targets ++ rest }
      | state, token =>
          match readToken state token with
          | .ok next => readFrom next rest
          | .error stop => .error stop

/-- The arguments of a command line. -/
def read (texts : List String) : Except Stop Arguments := do
  let a ← readFrom (empty, none) texts
  if a.flags.any Flag.needsOutput && (a.value? .output).isNone then .error .misuse
  else .ok a

/-- How the tool is called. -/
def usage : String :=
  let settings := Setting.all.map fun s => "  --" ++ s.name ++ " <value>\n"
  let flags := Flag.all.map fun f => "  --" ++ f.name ++ "\n"
  "Usage: callsight [options] [targets]\n\nOptions:\n" ++ String.join (settings ++ flags)

end Arguments

end ContractCalls.CommandLine
