/-
  CommandLine/Arguments: what the arguments ask for.

  Switches that hold for all commands may stand before or behind the name of the
  command; behind it they outrank those before.  A switch may be given once at each of
  the two levels.  The first argument that cannot stand where it stands, or asks for
  help or for the version, settles the outcome.
-/

set_option autoImplicit false

namespace StructCopy.CommandLine

/-! ## Switches -/

/-- The form of reports. -/
inductive Format where
  | text
  | json
  deriving DecidableEq, Repr

/-- What a switch takes. -/
inductive Takes where
  | nothing
  | path
  | format
  deriving DecidableEq, Repr

/-- The format with a name. -/
def format? : String → Option Format
  | "text" => some .text
  | "json" => some .json
  | _ => none

/-- A value that a switch may take. A path is not empty. -/
def Takes.accepts : Takes → String → Bool
  | .nothing, _ => true
  | .path, value => !value.isEmpty
  | .format, value => (format? value).isSome

/-- A switch, by its name behind two dashes and its letter behind one. -/
structure Switch where
  name : String
  letter : Option Char
  takes : Takes
  deriving DecidableEq, Repr

/-- A level of the command line: its switches, how many operands it has, and whether the first
operand is the name of a command. -/
structure Level where
  switches : List Switch
  operands : Nat
  leadsOn : Bool
  deriving DecidableEq, Repr

/-- The switches that hold for all commands. The log that `verbose` asks for is no part of the
output. -/
def commonSwitches : List Switch :=
  [⟨"output", none, .format⟩, ⟨"quiet", none, .nothing⟩, ⟨"verbose", some 'v', .nothing⟩]

/-- The level before the name of a command. -/
def mainLevel : Level :=
  ⟨commonSwitches, 0, true⟩

/-- The level behind `generate`. -/
def generateLevel : Level :=
  ⟨commonSwitches ++ [⟨"config", some 'c', .path⟩, ⟨"conversions", none, .path⟩,
    ⟨"root", none, .path⟩, ⟨"stdout", none, .nothing⟩, ⟨"gofmt", none, .nothing⟩], 0, false⟩

/-- The level behind `inspect`. -/
def inspectLevel : Level :=
  ⟨commonSwitches ++ [⟨"root", none, .path⟩], 2, false⟩

/-! ## Reading a level -/

/-- Why there is nothing to be carried out. -/
inductive Halt where
  | usage
  | help
  | version
  deriving DecidableEq, Repr

/-- What has been given at a level. -/
structure Given where
  values : List (String × String)
  operands : List String
  deriving DecidableEq, Repr

/-- Nothing given yet. -/
def Given.nothing : Given :=
  ⟨[], []⟩

/-- The value of a switch. -/
def Given.value? (g : Given) (name : String) : Option String :=
  g.values.lookup name

/-- A switch has been given. -/
def Given.has (g : Given) (name : String) : Bool :=
  (g.value? name).isSome

/-- One more switch, which may not be there yet. -/
def Given.add (g : Given) (s : Switch) (value : String) : Except Halt Given :=
  if g.has s.name || !s.takes.accepts value then .error .usage
  else .ok { g with values := g.values ++ [(s.name, value)] }

/-- One more operand, if the level has room for it. -/
def Given.addOperand (g : Given) (level : Level) (text : String) : Except Halt Given :=
  if g.operands.length < level.operands then .ok { g with operands := g.operands ++ [text] }
  else .error .usage

/-- The switch with a letter. -/
def Level.byLetter (level : Level) (c : Char) : Except Halt Switch :=
  if c = 'h' then .error .help
  else if c = 'V' ∧ level.leadsOn then .error .version
  else
    match level.switches.find? fun s => s.letter == some c with
    | some s => .ok s
    | none => .error .usage

/-- The switch with a name. -/
def Level.byName (level : Level) (name : String) : Except Halt Switch :=
  if name = "help" then .error .help
  else if name = "version" ∧ level.leadsOn then .error .version
  else
    match level.switches.find? fun s => s.name == name with
    | some s => .ok s
    | none => .error .usage

/-- Switches by their letters in one argument. The first one that takes a value takes the rest of
the argument, without an equals sign in front, or is returned if nothing is left for it. -/
def readLetters (level : Level) (g : Given) : List Char → Except Halt (Given × Option Switch)
  | [] => .ok (g, none)
  | c :: cs => do
    let s ← level.byLetter c
    if s.takes = .nothing then readLetters level (← g.add s "") cs
    else
      match cs with
      | [] => return (g, some s)
      | '=' :: value => return (← g.add s (String.ofList value), none)
      | value => return (← g.add s (String.ofList value), none)

/-- A switch by its name, with the value behind an equals sign. The switch is returned if its
value is still to come. -/
def readName (level : Level) (g : Given) (text : List Char) :
    Except Halt (Given × Option Switch) := do
  let name := String.ofList (text.takeWhile (· != '='))
  match text.dropWhile (· != '=') with
  | _ :: value =>
    if name = "help" ∨ name = "version" then throw .usage
    let s ← level.byName name
    if s.takes = .nothing then throw .usage
    return (← g.add s (String.ofList value), none)
  | [] =>
    let s ← level.byName name
    if s.takes = .nothing then return (← g.add s "", none)
    else return (g, some s)

/-- Reads an argument that holds switches; any other argument is none of its business. -/
def readSwitches? (level : Level) (g : Given) (arg : String) :
    Option (Except Halt (Given × Option Switch)) :=
  match arg.toList with
  | '-' :: '-' :: text => some (readName level g text)
  | '-' :: c :: cs => some (readLetters level g (c :: cs))
  | _ => none

/-- An argument that cannot be the value of a switch before it. -/
def looksLikeSwitch (arg : String) : Bool :=
  match arg.toList with
  | '-' :: _ :: _ => true
  | _ => false

/-- Reads the arguments of a level. Behind two dashes all are operands. At the level that leads
on, the name of the command and the arguments behind it are returned. -/
def readLevel (level : Level) (g : Given) :
    List String → Except Halt (Given × Option (String × List String))
  | [] => .ok (g, none)
  | arg :: args =>
    if arg = "--" then do
      let g ← args.foldlM (fun g arg => g.addOperand level arg) g
      return (g, none)
    else
      match readSwitches? level g arg with
      | none =>
        if level.leadsOn then .ok (g, some (arg, args))
        else do
          let g ← g.addOperand level arg
          readLevel level g args
      | some (.error halt) => .error halt
      | some (.ok (g, none)) => readLevel level g args
      | some (.ok (g, some s)) =>
        match args with
        | [] => .error .usage
        | value :: args =>
          if looksLikeSwitch value then .error .usage
          else do
            let g ← g.add s value
            readLevel level g args

/-! ## Commands -/

/-- What is to be done. -/
inductive Command where
  /-- writes the file that a mapping document asks for, or prints it -/
  | generate (config : String) (conversions : Option String) (root : String)
    (stdout gofmt : Bool)
  /-- prints the fields of a type -/
  | inspect (module type root : String)
  deriving DecidableEq, Repr

/-- A command and how to report. -/
structure Invocation where
  format : Format
  quiet : Bool
  command : Command
  deriving DecidableEq, Repr

/-- The command behind `generate`. -/
def generateCommand (g : Given) : Except Halt Command :=
  match g.value? "config" with
  | some config => .ok (.generate config (g.value? "conversions") ((g.value? "root").getD ".")
      (g.has "stdout") (g.has "gofmt"))
  | none => .error .usage

/-- The command behind `inspect`. -/
def inspectCommand (g : Given) : Except Halt Command :=
  match g.operands with
  | [module, type] => .ok (.inspect module type ((g.value? "root").getD "."))
  | _ => .error .usage

/-- Reads the arguments behind the name of a command. -/
def readCommand (before : Given) (level : Level) (command : Given → Except Halt Command)
    (args : List String) : Except Halt Invocation := do
  let (g, _) ← readLevel level .nothing args
  let format := ((g.value? "output").or (before.value? "output")).bind format?
  return ⟨format.getD .text, g.has "quiet" || before.has "quiet", ← command g⟩

/-- Reads all arguments. -/
def readArguments (args : List String) : Except Halt Invocation := do
  let (g, command) ← readLevel mainLevel .nothing args
  match command with
  | some ("generate", args) => readCommand g generateLevel generateCommand args
  | some ("inspect", args) => readCommand g inspectLevel inspectCommand args
  | some ("help", []) => throw .help
  | some ("help", [topic]) =>
    throw (if topic ∈ ["generate", "inspect", "help"] then .help else .usage)
  | _ => throw .usage

end StructCopy.CommandLine
