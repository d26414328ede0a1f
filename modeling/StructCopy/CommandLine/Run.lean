/-
  CommandLine/Run: carrying out the arguments on a disk.

  A run reads from the disk that it is given and ends with an exit status, the texts
  on the two output streams and a changed disk.  It also tells which paths it looked
  at, so that a disk need not hold more than a run looks at.  No other program is ever
  started: formatting the generated file fails as it does where the formatter is not
  installed.
-/
import StructCopy.CommandLine.Arguments
import StructCopy.CommandLine.Variables
import StructCopy.Config.Check
import StructCopy.Files.Disk
import StructCopy.Generator
import StructCopy.Json
import StructCopy.Module.Loading

set_option autoImplicit false

namespace StructCopy.CommandLine

open StructCopy.Files (FileError Disk)
open StructCopy.Module (BuildEnv GoModule)

/-! ## Outcomes -/

/-- How a run ends. -/
structure Outcome where
  code : Nat
  stdout : String
  stderr : String
  disk : Disk
  /-- the files and directories that the run looked at -/
  looked : List Files.Path

/-- What becomes of a command: a text for standard output and a changed disk, or the message for
an error; and the paths that it looked at. -/
abbrev Action (α : Type) : Type :=
  ExceptT String (StateM (List Files.Path)) α

/-- Looks at a path. -/
def look (p : Files.Path) : Action Unit :=
  modify (· ++ [p])

/-- Goes on with a value, or ends with the message for an error. -/
def orFail {ε α : Type} (message : ε → String) : Except ε α → Action α
  | .ok a => return a
  | .error e => throw (message e)

/-- What an error is about, in quotation marks, and the error. -/
def about (doing : String) (p : Files.Path) (message : String) : String :=
  doing ++ " '" ++ p.text ++ "': " ++ message

/-! ## Commands -/

/-- The text of a document. -/
def documentText (disk : Disk) (p : Files.Path) : Action String := do
  look p
  orFail (fun e => about "error reading" p e.message) (disk.read p)

/-- The module with a root directory. -/
def locate (disk : Disk) (root : Files.Path) : Action GoModule := do
  look (root.joinText "go.mod")
  orFail (fun e => about "error locating Go module at" root e.message)
    (GoModule.discover disk.source root)

/-- Looks at the directories of the packages that a session asked for. -/
def lookForPackages (m : GoModule) (env : BuildEnv) (paths : List String) : Action Unit :=
  modify (· ++ paths.flatMap (m.candidateDirs env))

/-- Puts the generated file where the document wants it. -/
def place (disk : Disk) (file : Files.Path) (code : String) : Action Disk := do
  look file
  let disk ← match file.parent? with
    | some dir =>
      orFail (fun e => about "error creating" dir e.message) (disk.ensureDirectories dir)
    | none => pure disk
  orFail (fun e => about "error writing" file e.message) (disk.write file code)

/-- The summary of a written file. -/
def summary (format : Format) (functions : Nat) (file : Files.Path) : String :=
  match format with
  | .text => "Generated " ++ toString functions ++ " mapping function(s) in " ++ file.text ++ "\n"
  | .json => (Json.Value.object [("functions", .number functions),
      ("output", .string file.text)]).compact ++ "\n"

/-- Carries out `generate`. -/
def generate (disk : Disk) (env : BuildEnv) (inv : Invocation) (config : Files.Path)
    (conversions : Option Files.Path) (root : Files.Path) (stdout gofmt : Bool) :
    Action (String × Disk) := do
  let text ← documentText disk config
  let document ← orFail (fun e => about "error in" config e.message) (MappingConfig.ofText text)
  let rules ← match conversions with
    | some p => do
      let text ← documentText disk p
      orFail (fun e => about "error in" p e.message) (conversionRules text)
    | none => pure []
  let m ← locate disk root
  let (result, session) := (Session.fresh (m.loader disk.source env)).generate document rules
  lookForPackages m env session.cache.asked
  let code ← orFail (fun e => "generation failed: " ++ e.message) result
  if gofmt then throw ("gofmt failed: cannot run gofmt: " ++ FileError.notFound.message)
  if stdout then return (code, disk)
  let file := (⟨document.filePath⟩ : Files.Path).joinText document.fileName
  let disk ← place disk file code
  return (if inv.quiet then "" else summary inv.format document.mappings.length file, disk)

/-- A field in the output of `inspect`. -/
def fieldJson (f : StructField) : Json.Value :=
  .object [("name", .string f.name), ("tag", .string f.tag),
    ("type", .object [("type", .string f.type.text),
      ("imports", .array (f.type.imports.map .string))])]

/-- Carries out `inspect`. A dot is the root of the module. -/
def inspect (disk : Disk) (env : BuildEnv) (module type : String) (root : Files.Path) :
    Action (String × Disk) := do
  let m ← locate disk root
  let key : TypeKey := ⟨if module = "." then "" else module, type⟩
  let (result, session) := (Session.fresh (m.loader disk.source env)).inspect key
  lookForPackages m env session.cache.asked
  let fields ← orFail GenerateError.message result
  return ((Json.Value.array (fields.map fieldJson)).pretty "" ++ "\n", disk)

/-- Carries out a command. -/
def carryOut (disk : Disk) (env : BuildEnv) (inv : Invocation) : Action (String × Disk) :=
  match inv.command with
  | .generate config conversions root stdout gofmt =>
    generate disk env inv ⟨config⟩ (conversions.map Files.Path.mk) ⟨root⟩ stdout gofmt
  | .inspect module type root => inspect disk env module type ⟨root⟩

/-! ## Runs -/

/-- The message for an error, on standard error. -/
def errorText (inv : Invocation) (message : String) : String :=
  if inv.quiet then ""
  else
    match inv.format with
    | .text => message ++ "\n"
    | .json => (Json.Value.object [("error", .string message)]).compact ++ "\n"

/-- The name and the version. -/
def versionText : String := "structmap 0.1.0\n"

/-- How the command is used. -/
def helpText : String :=
  "Go struct mapping generator\n\n" ++
    "Usage: structmap [--output text|json] [--quiet] [--verbose] COMMAND\n\n" ++
    "Commands:\n" ++
    "  generate --config FILE [--conversions FILE] [--root DIR] [--stdout] [--gofmt]\n" ++
    "  inspect MODULE TYPE [--root DIR]\n"

/-- Carries out the arguments. -/
def run (disk : Disk) (env : BuildEnv) (args : List String) : Outcome :=
  match readArguments args with
  | .error .usage => ⟨2, "", helpText, disk, []⟩
  | .error .help => ⟨0, helpText, "", disk, []⟩
  | .error .version => ⟨0, versionText, "", disk, []⟩
  | .ok inv =>
    match (carryOut disk env inv).run.run [] with
    | (.ok (output, changed), looked) => ⟨0, output, "", changed, looked⟩
    | (.error message, looked) => ⟨1, "", errorText inv message, disk, looked⟩

end StructCopy.CommandLine
