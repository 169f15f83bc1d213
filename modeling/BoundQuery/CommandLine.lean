import BoundQuery.Request

/-!
# The command line

The program compiles one request file or checks several. `CommandLine.parse` reads the arguments.

Options stand before or after the command. A long option takes its value from behind an equals sign
or from the next argument, a short one also from the characters right behind it; a next argument
that looks like an option is no value. An option that is given on both sides of the command counts
as it is given behind it; given twice on one side it is an error. Behind `--` everything is a file.
-/

namespace BoundQuery

/-- How a compiled statement is written. -/
inductive Layout where
  | compact
  | pretty
  deriving DecidableEq, Repr

namespace Layout

def named? (name : String) : Option Layout :=
  match name with
  | "json" => some .compact
  | "pretty" => some .pretty
  | _ => none

/-- A document in a layout. -/
def write (layout : Layout) (json : Json) : String :=
  match layout with
  | .compact => json.compact
  | .pretty => json.pretty

end Layout

/-- What the program is asked to do. -/
inductive Command where
  | compile (file : String) (layout : Layout) (output : Option String)
  | check (files : List String)
  deriving DecidableEq, Repr

/-- A command and the options that every command has. -/
structure CommandLine where
  overrides : Overrides
  color : String
  command : Command
  deriving DecidableEq

namespace CommandLine

/-- Why arguments give no command: they ask for the version or for help, or cannot be understood. -/
inductive Stop where
  | version
  | help
  | usage
  deriving DecidableEq, Repr

/-- The options of the program. Being verbose changes no answer. -/
inductive Switch where
  | verbose
  | version
  | help
  | color
  | entityAlias
  | entity
  | layout
  | output
  deriving DecidableEq, Repr

/-- Where an option stands: before the command, or behind one of the commands. -/
inductive Place where
  | front
  | compile
  | check
  deriving DecidableEq, Repr

/-- The option of a long name. -/
def Place.long? (place : Place) (name : String) : Option Switch :=
  match place, name with
  | _, "verbose" => some .verbose
  | _, "help" => some .help
  | _, "color" => some .color
  | _, "alias" => some .entityAlias
  | _, "entity" => some .entity
  | .front, "version" => some .version
  | .compile, "format" => some .layout
  | .compile, "output" => some .output
  | _, _ => none

/-- The option of a letter. -/
def Place.short? (place : Place) (letter : Char) : Option Switch :=
  match place, letter with
  | _, 'v' => some .verbose
  | _, 'h' => some .help
  | .front, 'V' => some .version
  | .compile, 'f' => some .layout
  | .compile, 'o' => some .output
  | _, _ => none

/-- What the arguments on one side of the command give. -/
structure Given where
  verbose : Bool
  values : List (Switch × String)
  files : List String

namespace Given

def empty : Given := ⟨false, [], []⟩

def value? (given : Given) (switch : Switch) : Option String := given.values.lookup switch

/-- Takes up an option with its value. -/
def withValue (given : Given) (switch : Switch) (value : String) : Except Stop Given :=
  if (given.value? switch).isSome then .error .usage
  else .ok { given with values := given.values ++ [(switch, value)] }

/-- Takes up an option: one without a value at once, any other is still to get its value. -/
def withSwitch (given : Given) (switch : Switch) : Except Stop (Given × Option Switch) :=
  match switch with
  | .version => .error .version
  | .help => .error .help
  | .verbose => if given.verbose then .error .usage else .ok ({ given with verbose := true }, none)
  | _ => .ok (given, some switch)

def withFiles (given : Given) (files : List String) : Given :=
  { given with files := given.files ++ files }

end Given

/-- Reads a long option: the characters behind the two dashes. -/
def readLong (place : Place) (given : Given) (cs : List Char) :
    Except Stop (Given × Option Switch) := do
  let name := cs.takeWhile (· ≠ '=')
  match place.long? (String.ofList name) with
  | none => .error .usage
  | some switch =>
      match cs.drop name.length with
      | [] => given.withSwitch switch
      | _ :: value =>
          match switch with
          | .version | .help | .verbose => .error .usage
          | _ => return (← given.withValue switch (String.ofList value), none)

/-- Reads short options: the characters behind one dash. -/
def readShorts (place : Place) (given : Given) : List Char → Except Stop (Given × Option Switch)
  | [] => .ok (given, none)
  | letter :: rest =>
      match place.short? letter with
      | none => .error .usage
      | some switch => do
          match ← given.withSwitch switch, rest with
          | (given, none), rest => readShorts place given rest
          | (given, some switch), [] => return (given, some switch)
          | (given, some switch), c :: more =>
              let value := if c = '=' then more else c :: more
              return (← given.withValue switch (String.ofList value), none)

/-- An argument that cannot be a value. -/
def looksLikeSwitch (argument : String) : Bool :=
  match argument.toList with
  | '-' :: _ :: _ => true
  | _ => false

/-- Reads the arguments on one side of the command. `pending` is an option that still lacks its
value. Before the command, reading ends at the command's name; the arguments from there on are the
second answer. -/
def readSide (place : Place) (given : Given) (pending : Option Switch) :
    List String → Except Stop (Given × List String)
  | [] => if pending.isSome then .error .usage else .ok (given, [])
  | argument :: rest =>
      match pending with
      | some switch =>
          if looksLikeSwitch argument then .error .usage
          else do readSide place (← given.withValue switch argument) none rest
      | none =>
          match argument.toList with
          | ['-', '-'] =>
              if place = .front then .error .usage else .ok (given.withFiles rest, [])
          | '-' :: '-' :: cs => do
              let (given, pending) ← readLong place given cs
              readSide place given pending rest
          | '-' :: c :: cs => do
              let (given, pending) ← readShorts place given (c :: cs)
              readSide place given pending rest
          | _ =>
              if place = .front then .ok (given, argument :: rest)
              else readSide place (given.withFiles [argument]) none rest

/-- The layout where no option asks for one. -/
def standardLayout : Layout := .pretty

/-- The colour setting where no option gives one. -/
def standardColor : String := "auto"

/-- The command `compile` of what was given behind it. -/
def compileCommand (given : Given) : Except Stop Command := do
  let layout ← match given.value? .layout with
    | none => pure standardLayout
    | some name =>
        match Layout.named? name with
        | some layout => pure layout
        | none => .error .usage
  let output := given.value? .output
  match given.files with
  | [file] =>
      if file = "" || output = some "" then .error .usage
      else .ok (.compile file layout output)
  | _ => .error .usage

/-- The command `check` of what was given behind it. -/
def checkCommand (given : Given) : Except Stop Command :=
  if given.files.isEmpty || given.files.contains "" then .error .usage else .ok (.check given.files)

/-- A command with the options of both its sides. -/
def ofSides (front behind : Given) (command : Command) : CommandLine :=
  let value? (switch : Switch) := (behind.value? switch).or (front.value? switch)
  ⟨⟨value? .entityAlias, value? .entity⟩, (value? .color).getD standardColor, command⟩

/-- Reads the arguments of the program. -/
def parse (arguments : List String) : Except Stop CommandLine := do
  let (front, rest) ← readSide .front .empty none arguments
  match rest with
  | "compile" :: rest => do
      let (behind, _) ← readSide .compile .empty none rest
      return ofSides front behind (← compileCommand behind)
  | "check" :: rest => do
      let (behind, _) ← readSide .check .empty none rest
      return ofSides front behind (← checkCommand behind)
  | "help" :: _ => .error .help
  | _ => .error .usage

/-- Whether output is coloured; where the setting leaves it open, a terminal decides. -/
def colors (line : CommandLine) (terminal : Bool) : Bool :=
  match line.color.toLower with
  | "always" => true
  | "never" => false
  | _ => terminal

end CommandLine

end BoundQuery
