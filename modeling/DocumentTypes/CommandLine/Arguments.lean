/-!
The arguments of the command line. `build` prints the declared types of a document, `check`
evaluates all of their fields. Options may stand before or after the source; after `--` everything
is a source.
-/

set_option autoImplicit false

namespace DocumentTypes.CommandLine

inductive Format where
  | sdl
  | json
deriving DecidableEq, Repr

def Format.ofName? (name : String) : Option Format :=
  if name = "sdl" then some .sdl else if name = "json" then some .json else none

structure BuildOptions where
  source : String
  /-- The types to print; all declared ones if there are none. -/
  only : List String
  format : Format
  isPretty : Bool
  output : Option String
deriving DecidableEq, Repr

structure CheckOptions where
  source : String
  asJson : Bool
deriving DecidableEq, Repr

inductive Command where
  | build (options : BuildOptions)
  | check (options : CheckOptions)
deriving DecidableEq, Repr

/-- What the arguments ask for. -/
inductive Invocation where
  | run (command : Command)
  | version
  | help
  | misuse
deriving DecidableEq, Repr

/-- One item of the arguments of a command. -/
inductive Item where
  | flag (name : String)
  | option (name value : String)
  | positional (value : String)
  | unknown
deriving DecidableEq, Repr

/-- Whether an argument cannot be the value of the option in front of it. -/
def isDashed (arg : String) : Bool :=
  arg.startsWith "-" && arg ≠ "-"

/-- A long argument without its dashes: its name, and the value after an equals sign. -/
def splitLong (arg : String) : String × Option String :=
  let cs := (arg.drop 2).toString.toList
  let name := String.ofList (cs.takeWhile (· ≠ '='))
  match cs.dropWhile (· ≠ '=') with
  | [] => (name, none)
  | _ :: value => (name, some (String.ofList value))

/-- The flag of a letter. -/
def flagOfLetter? (c : Char) : Option String :=
  if c = 'v' then some "verbose"
  else if c = 'V' then some "version"
  else if c = 'h' then some "help"
  else none

/-- The items for a group of letters, up to the first unknown one. -/
def lettersItems (flags : List String) : List Char → List Item
  | [] => []
  | c :: rest =>
    match flagOfLetter? c with
    | none => [.unknown]
    | some name => if name ∈ flags then .flag name :: lettersItems flags rest else [.unknown]

/-- Splits arguments into items. An item that is not understood is the last one. -/
def items (flags options : List String) : List String → List Item
  | [] => []
  | arg :: rest =>
    if arg = "--" then rest.map .positional
    else if arg.startsWith "--" then
      match splitLong arg with
      | (name, some value) =>
        if name ∈ options then .option name value :: items flags options rest else [.unknown]
      | (name, none) =>
        if name ∈ flags then .flag name :: items flags options rest
        else if name ∈ options then
          match rest with
          | [] => [.unknown]
          | value :: more =>
            if isDashed value then [.unknown]
            else .option name value :: items flags options more
        else [.unknown]
    else if isDashed arg then
      lettersItems flags (arg.toList.drop 1) ++ items flags options rest
    else .positional arg :: items flags options rest

/-- The values read so far. A value that may be given once is not given twice. -/
structure Gathered where
  source : Option String
  flags : List String
  only : List String
  format : Option Format
  output : Option String

/-- Reads the items of a command, in order. A request for help or an item that does not fit ends the
reading. -/
def gather (g : Gathered) : List Item → Except Invocation Gathered
  | [] => .ok g
  | .unknown :: _ => .error .misuse
  | .flag name :: rest =>
    if name = "help" then .error .help
    else if name ∈ g.flags then .error .misuse
    else gather { g with flags := name :: g.flags } rest
  | .positional value :: rest =>
    if g.source.isSome then .error .misuse else gather { g with source := some value } rest
  | .option name value :: rest =>
    if name = "only" then gather { g with only := g.only ++ [value] } rest
    else if name = "format" then
      match g.format, Format.ofName? value with
      | none, some format => gather { g with format := some format } rest
      | _, _ => .error .misuse
    else if g.output.isSome ∨ value.isEmpty then .error .misuse
    else gather { g with output := some value } rest

/-- Reads the arguments of a command that takes the given flags and options. -/
def readCommand (flags options : List String) (make : String → Gathered → Command)
    (args : List String) : Invocation :=
  match gather ⟨none, [], [], none, none⟩ (items ("verbose" :: "help" :: flags) options args) with
  | .error invocation => invocation
  | .ok g =>
    match g.source with
    | none => .misuse
    | some source => .run (make source g)

def readBuild : List String → Invocation :=
  readCommand ["pretty"] ["only", "format", "output"] fun source g ↦
    .build ⟨source, g.only, g.format.getD .sdl, g.flags.contains "pretty", g.output⟩

def readCheck : List String → Invocation :=
  readCommand ["json"] [] fun source g ↦ .check ⟨source, g.flags.contains "json"⟩

/-- Reads the arguments of a request for help, which may be about one command. -/
def readHelp : List String → Invocation
  | [] => .help
  | [name] => if name ∈ ["build", "check", "help"] then .help else .misuse
  | _ => .misuse

/-- What the flags in front of a command ask for, if they end the reading. `isVerbose` says that
the flag was given before. -/
def leadingFlags (isVerbose : Bool) : List Item → Except Invocation Bool
  | [] => .ok isVerbose
  | .flag "version" :: _ => .error .version
  | .flag "help" :: _ => .error .help
  | .flag _ :: rest => if isVerbose then .error .misuse else leadingFlags true rest
  | _ => .error .misuse

/-- Reads the arguments, after flags that stand in front of the command. -/
def readAfter (isVerbose : Bool) : List String → Invocation
  | [] => .misuse
  | arg :: rest =>
    if isDashed arg then
      match leadingFlags isVerbose (items ["verbose", "version", "help"] [] [arg]) with
      | .error invocation => invocation
      | .ok isVerbose => if arg = "--" then .misuse else readAfter isVerbose rest
    else if arg = "build" then readBuild rest
    else if arg = "check" then readCheck rest
    else if arg = "help" then readHelp rest
    else .misuse

/-- Reads the arguments. -/
def read (args : List String) : Invocation :=
  readAfter false args

end DocumentTypes.CommandLine
