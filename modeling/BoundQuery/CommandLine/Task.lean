import BoundQuery.CommandLine

/-!
# What the program does

A command reads files and answers with an exit code and two texts; `compile` may also have to save
its result, and then its answer depends on whether that succeeds. `CommandLine.task` decides all of
this from the contents of the files, so that nothing is left to do but to read, save and print.
-/

namespace BoundQuery

/-- The answer of the program. -/
structure Response where
  exitCode : Nat
  output : String
  errors : String
  deriving DecidableEq, Repr

/-- Why a file was not saved. -/
inductive SaveError where
  | create (reason : String)
  | write (reason : String)

/-- What is left to do for a command: answer, or save a text and then answer. -/
inductive Task where
  | answer (response : Response)
  | save (path content : String) (reply : Except SaveError Unit → Response)

/-- The contents of files by their paths, or the reason why one cannot be read. -/
abbrev Files := String → Except String String

/-- The request in a file. -/
def Request.ofFile (files : Files) (path : String) : Except Failure Request :=
  match files path with
  | .error reason =>
      .error ((Failure.ofMessage reason).within ("Failed to read request file: " ++ path))
  | .ok text =>
      match Request.ofText text with
      | .ok request => .ok request
      | .error failure => .error (failure.within ("Failed to parse request file: " ++ path))

/-- The statement that the request in a file asks for. -/
def Request.compileFile (files : Files) (overrides : Overrides) (path : String)
    (read : PatternReader := Pattern.search?) : Except Failure Query := do
  (override overrides (← ofFile files path)).compile read

namespace Response

/-- The answer to a command that failed. -/
def ofFailure (colors : Bool) (failure : Failure) : Response :=
  ⟨failure.exitCode, "", failure.render colors ++ "\n"⟩

/-- A line that reports success. -/
def successLine (colors : Bool) (message : String) : String :=
  Paint.boldGreen.apply colors "Success:" ++ " " ++ message ++ "\n"

/-- The answer after a result was to be saved. -/
def ofSaving (colors : Bool) (path : String) : Except SaveError Unit → Response
  | .ok () => ⟨0, "", successLine colors ("Output written to " ++ path)⟩
  | .error (.create reason) => ofFailure colors
      ((Failure.ofMessage reason).within ("Failed to create output file: " ++ path))
  | .error (.write reason) => ofFailure colors
      ((Failure.ofMessage reason).within ("Failed to write to output file: " ++ path))

/-- What a request compiles to, in short. -/
def summary (query : Query) : String :=
  "(" ++ query.parameters.style.text ++ " mode, " ++ toString query.parameters.values.length ++
    " parameter(s), " ++ toString query.paging.length ++ " injector(s))"

/-- The line about one checked file, and what there is to say about its failure. -/
def checkLine (colors : Bool) (path : String) : Except Failure Query → String × String
  | .ok query =>
      (Paint.boldGreen.apply colors "✓" ++ " " ++ path ++ " " ++ summary query ++ "\n", "")
  | .error failure =>
      (Paint.boldRed.apply colors "✗" ++ " " ++ path ++ "\n", failure.render colors ++ "\n")

/-- The answer to a check of files with given results. -/
def ofChecks (colors : Bool) (results : List (String × Except Failure Query)) : Response :=
  let lines := results.map fun (path, result) => checkLine colors path result
  let failed := results.countP fun (_, result) => !result.isOk
  let output := String.join (lines.map Prod.fst) ++ "\n"
  let errors := String.join (lines.map Prod.snd)
  let total := toString results.length
  if failed = 0 then ⟨0, output ++ successLine colors (total ++ " request(s) compile"), errors⟩
  else
    let last := ofFailure colors
      (.ofMessage (toString failed ++ " of " ++ total ++ " request(s) failed"))
    ⟨last.exitCode, output, errors ++ last.errors⟩

end Response

namespace CommandLine

/-- What is to be done for a command line. -/
def task (line : CommandLine) (colors : Bool) (files : Files)
    (read : PatternReader := Pattern.search?) : Task :=
  match line.command with
  | .check paths =>
      .answer (.ofChecks colors
        (paths.map fun path => (path, Request.compileFile files line.overrides path read)))
  | .compile file layout output =>
      match Request.compileFile files line.overrides file read with
      | .error failure => .answer (.ofFailure colors failure)
      | .ok query =>
          let content := layout.write query.encode
          match output with
          | none => .answer ⟨0, content ++ "\n", ""⟩
          | some path => .save path content (Response.ofSaving colors path)

/-- The files that a command line reads. -/
def inputs (line : CommandLine) : List String :=
  match line.command with
  | .compile file _ _ => [file]
  | .check files => files

/-- The program's name and version. -/
def versionText : String := "jpqlc 0.1.0"

/-- The short account of how the program is called. -/
def usageText : String :=
  "Usage: jpqlc [--alias ALIAS] [--entity ENTITY] [--color WHEN] [-v] COMMAND\n" ++
    "Commands:\n" ++
    "  compile FILE [-f json|pretty] [-o OUTPUT]\n" ++
    "  check FILE...\n"

/-- The answer to arguments that give no command. -/
def Stop.response : Stop → Response
  | .version => ⟨0, versionText ++ "\n", ""⟩
  | .help => ⟨0, usageText, ""⟩
  | .usage => ⟨2, "", usageText⟩

end CommandLine

end BoundQuery
