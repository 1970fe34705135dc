import OrderedGrammar.Command.Run

/-!
The program: its arguments are read as a request, the files that the request names are read from the
file system, and the report is written out.
-/

open OrderedGrammar OrderedGrammar.Command

/-- The kind of error that the system met. -/
def fileError (e : IO.Error) : FileError :=
  match e with
  | .inappropriateType _ code _ => if code = 20 then .notADirectory else .isDirectory
  | .invalidArgument _ _ _ => .nameTooLong
  | .permissionDenied _ _ _ => .denied
  | _ => .notFound

/-- The bytes of a file. -/
def readBytes (path : String) : IO (Except FileError ByteArray) := do
  try
    return .ok (← IO.FS.readBinFile path)
  catch e =>
    return .error (fileError e)

/-- The paths that a request reads. -/
def OrderedGrammar.Command.Request.paths : Request → List String
  | .check path _ => [tidyPath path]
  | .parse path (.file input) _ _ => [tidyPath path, input]
  | .parse path _ _ _ => [tidyPath path]
  | .points (.file input) _ => [input]
  | .points _ _ => []

/-- The files of a request, each read once. -/
def readFiles (r : Request) : IO Files := do
  let found ← r.paths.mapM fun path => do return (path, ← readBytes path)
  return fun path => (found.lookup path).getD (.error .notFound)

/-- What is said about a crash. -/
def OrderedGrammar.Command.Crash.message : Crash → String
  | .notText => "a file is not text in UTF-8"
  | .nullInPath => "a path holds a null character"
  | .noValue => "an option has no value"
  | .evaluation .depthExceeded => "the grammar nests too deeply"
  | .evaluation e => e.message
  | .description e => e.message
  | .points e => e.message

/-- How the program is called. -/
def usage : String :=
  "usage: check FILE [-D] | parse FILE (--text TEXT | --input FILE) [--complete] [-D] | " ++
    "points (--text TEXT | --input FILE) [-D]"

/-- Reads the arguments, runs the request and writes the report. -/
def main (args : List String) : IO UInt32 := do
  match Request.ofArguments args with
  | .error r =>
    if r = .help then IO.println usage else IO.eprintln usage
    return r.code.toUInt32
  | .ok request =>
    match request.run (← readFiles request) with
    | .ok report =>
      (← IO.getStderr).putStr (written report.errors)
      (← IO.getStdout).putStr (written report.output)
      return report.code.toUInt32
    | .error c =>
      IO.eprintln c.message
      return 1
