import OrderedGrammar.Text.Class

/-!
Arguments of the command line. The first operand names a command, and what follows is read by that
command's options. Long options may be shortened as far as they stay distinct and may carry a value
after `=`; flags of one letter may be run together. Two dashes end the options. A shortened option
that stands for several is refused before anything is done. Arguments that nothing asks for are only
refused at the end, so a request for help that comes after them is still granted.
-/

namespace OrderedGrammar.Command

/-- Why nothing is run: help was asked for, or the arguments make no sense. -/
inductive Refusal
  | help
  | usage
  deriving DecidableEq

/-- The exit code of a refusal. -/
def Refusal.code : Refusal → Nat
  | help => 0
  | usage => 2

/-- The commands. -/
inductive Kind
  | check | parse | points
  deriving DecidableEq

/-- What an option is about. -/
inductive Choice
  | help | debug | complete | text | input
  deriving DecidableEq

/-- Choices that come with a value. -/
def Choice.takesValue : Choice → Bool
  | text => true
  | input => true
  | _ => false

/-- Where the text to match comes from. Two dashes are no value: an option to which they are
attached is given, but stands for nothing that could be read. -/
inductive TextSource
  | text (s : String)
  | file (path : String)
  | noText
  | noFile
  deriving DecidableEq

namespace TextSource

/-- The source that the value of an option names. -/
def ofText (value : String) : TextSource := if value = "--" then noText else text value

/-- The source that the value of an option for files names. -/
def ofFile (value : String) : TextSource := if value = "--" then noFile else file value

/-- The source is a file. -/
def isFile : TextSource → Bool
  | file _ => true
  | noFile => true
  | _ => false

end TextSource

/-- A command with all that it needs. -/
inductive Request
  | check (file : String) (debug : Bool)
  | parse (file : String) (source : TextSource) (complete debug : Bool)
  | points (source : TextSource) (debug : Bool)
  deriving DecidableEq

namespace Kind

/-- The name of a command, in full. -/
def named? (name : String) : Option Kind :=
  if name = "check" then some check
  else if name = "parse" then some parse
  else if name = "points" then some points
  else none

/-- Whether a command works on a grammar file. -/
def takesFile : Kind → Bool
  | points => false
  | _ => true

/-- The options of a command. -/
def options : Kind → List (List Char × Choice)
  | check => [("-h".toList, .help), ("--help".toList, .help), ("-D".toList, .debug),
      ("--debug".toList, .debug)]
  | parse => [("-h".toList, .help), ("--help".toList, .help), ("--text".toList, .text),
      ("--input".toList, .input), ("--complete".toList, .complete), ("-D".toList, .debug),
      ("--debug".toList, .debug)]
  | points => [("-h".toList, .help), ("--help".toList, .help), ("--text".toList, .text),
      ("--input".toList, .input), ("-D".toList, .debug), ("--debug".toList, .debug)]

end Kind

/-- The options before the command. -/
def topOptions : List (List Char × Choice) := [("-h".toList, .help), ("--help".toList, .help)]

/-! ### Single arguments -/

/-- What an argument is taken for. An option may have a value attached, after an equals sign or
directly. -/
inductive Reading
  | operand
  | unknown
  | ambiguous
  | option (name : List Char) (choice : Choice) (attached : Option (List Char))
  deriving DecidableEq

/-- What stands before the first equals sign, and the value after it. -/
def splitEquals (arg : List Char) : List Char × Option (List Char) :=
  let (name, rest) := arg.span (· != '=')
  match rest with
  | _ :: value => (name, some value)
  | [] => (name, none)

/-- A minus sign and digits with at most one point, which a digit must follow. -/
def isNegativeNumber (arg : List Char) : Bool :=
  match arg with
  | '-' :: body =>
    let body := if body.getLast? = some '\n' then body.dropLast else body
    let (whole, rest) := body.span Text.isDecimalDigit
    match rest with
    | [] => !whole.isEmpty
    | '.' :: fraction => !fraction.isEmpty && fraction.all Text.isDecimalDigit
    | _ => false
  | _ => false

/-- The options that an argument may stand for without being one: long options that it begins, or an
option of one letter with more behind it. -/
def candidates (options : List (List Char × Choice)) (arg : List Char) :
    List (List Char × Choice × Option (List Char)) :=
  match arg with
  | '-' :: '-' :: _ =>
    let (name, attached) := splitEquals arg
    (options.filter fun o => name.isPrefixOf o.1).map fun o => (o.1, o.2, attached)
  | dash :: letter :: rest =>
    (options.filter fun o => o.1 == [dash, letter]).map fun o => (o.1, o.2, some rest)
  | _ => []

/-- What an argument that opens with a dash and more is taken for. -/
def interpretDashed (options : List (List Char × Choice)) (arg : List Char) : Reading :=
  match options.lookup arg with
  | some choice => .option arg choice none
  | none =>
    let (name, attached) := splitEquals arg
    match attached, options.lookup name with
    | some a, some choice => .option name choice (some a)
    | _, _ =>
      match candidates options arg with
      | [(name, choice, attached)] => .option name choice attached
      | _ :: _ => .ambiguous
      | [] => if isNegativeNumber arg || arg.contains ' ' then .operand else .unknown

/-- An argument is an operand unless it opens with a dash that more follows; negative numbers and
arguments with spaces are operands too, if no option claims them. -/
def interpret (options : List (List Char × Choice)) (arg : String) : Reading :=
  match arg.toList with
  | '-' :: c :: rest => interpretDashed options ('-' :: c :: rest)
  | _ => .operand

/-- A shortened option among the arguments that stands for several; behind two dashes there are no
options. -/
def hasAmbiguous (options : List (List Char × Choice)) (args : List String) : Bool :=
  (args.takeWhile (· != "--")).any fun arg => interpret options arg == .ambiguous

/-- What an option does: settings in order, or a value to be looked for in the next argument. -/
inductive Use
  | settings (list : List (Choice × List Char))
  | wantsValue (choice : Choice)
  deriving DecidableEq

/-- Flags run together: each letter after the first flag must be a flag itself. -/
def cluster (options : List (List Char × Choice)) (letters : List Char) :
    Except Refusal (List (Choice × List Char)) :=
  letters.mapM fun c =>
    match options.lookup ['-', c] with
    | some choice => .ok (choice, [])
    | none => .error .usage

/-- How an option is used, given what is attached to it: a flag of one letter takes further letters,
other flags nothing. -/
def use (options : List (List Char × Choice)) (name : List Char) (choice : Choice) :
    Option (List Char) → Except Refusal Use
  | none => .ok (if choice.takesValue then .wantsValue choice else .settings [(choice, [])])
  | some value =>
    if choice.takesValue then .ok (.settings [(choice, value)])
    else if name.length = 2 && !value.isEmpty then
      (cluster options value).map fun more => .settings ((choice, []) :: more)
    else .error .usage

/-! ### All arguments -/

/-- What the arguments of a command have given so far. -/
structure Given where
  file : Option String := none
  source : Option TextSource := none
  complete : Bool := false
  debug : Bool := false
  /-- There were arguments that nothing asks for. -/
  leftOver : Bool := false
  deriving DecidableEq

namespace Given

/-- A text and an input file exclude one another; of two of a kind the last one counts. -/
def set (g : Given) (choice : Choice) (value : List Char) : Except Refusal Given :=
  match choice with
  | .help => .error .help
  | .debug => .ok { g with debug := true }
  | .complete => .ok { g with complete := true }
  | .text =>
    if g.source.any TextSource.isFile then .error .usage
    else .ok { g with source := some (.ofText (String.ofList value)) }
  | .input =>
    if g.source.any (!·.isFile) then .error .usage
    else .ok { g with source := some (.ofFile (String.ofList value)) }

/-- Settings in order. -/
def setAll (g : Given) : List (Choice × List Char) → Except Refusal Given
  | [] => .ok g
  | (choice, value) :: rest => do (← g.set choice value).setAll rest

/-- The command still waits for its file. -/
def wantsFile (g : Given) (kind : Kind) : Bool := kind.takesFile && g.file.isNone

/-- Arguments after two dashes, none of which is an option. -/
def afterDashes (g : Given) (kind : Kind) (rest : List String) : Given :=
  match rest with
  | file :: more =>
    if g.wantsFile kind then { g with file := some file, leftOver := g.leftOver || !more.isEmpty }
    else { g with leftOver := true }
  | [] => { g with leftOver := true }

/-- The arguments of a command, one after the other. Two dashes right after the file belong to it.
-/
def read (kind : Kind) : List String → Given → Except Refusal Given
  | [], g => .ok g
  | arg :: rest, g =>
    if arg = "--" then .ok (g.afterDashes kind rest)
    else match interpret kind.options arg with
      | .operand =>
        if g.wantsFile kind then
          match rest with
          | "--" :: more => .ok { g with file := some arg, leftOver := g.leftOver || !more.isEmpty }
          | _ => read kind rest { g with file := some arg }
        else read kind rest { g with leftOver := true }
      | .unknown => read kind rest { g with leftOver := true }
      | .ambiguous => .error .usage
      | .option name choice attached =>
        match use kind.options name choice attached with
        | .error r => .error r
        | .ok (.settings list) =>
          match g.setAll list with
          | .error r => .error r
          | .ok g => read kind rest g
        | .ok (.wantsValue choice) =>
          match rest with
          | value :: rest =>
            if value ≠ "--" ∧ interpret kind.options value = .operand then
              match g.set choice value.toList with
              | .error r => .error r
              | .ok g => read kind rest g
            else .error .usage
          | [] => .error .usage

/-- The request, if nothing is missing and nothing is left over. -/
def request (g : Given) (kind : Kind) : Except Refusal Request :=
  if g.leftOver then .error .usage
  else match kind, g.file, g.source with
    | .check, some file, _ => .ok (.check file g.debug)
    | .parse, some file, some source => .ok (.parse file source g.complete g.debug)
    | .points, _, some source => .ok (.points source g.debug)
    | _, _, _ => .error .usage

end Given

/-- A command by its name, and the arguments that follow. -/
def readCommand (name : String) (rest : List String) (leftOver : Bool) : Except Refusal Request :=
  match Kind.named? name with
  | none => .error .usage
  | some kind =>
    if hasAmbiguous kind.options rest then .error .usage
    else do (← Given.read kind rest { leftOver }).request kind

/-- All arguments: options before the command, the command, and its own arguments. Two dashes are no
command. -/
def readArguments (leftOver : Bool) : List String → Except Refusal Request
  | [] => .error .usage
  | arg :: rest =>
    if arg = "--" then .error .usage
    else match interpret topOptions arg with
      | .operand => readCommand arg rest leftOver
      | .unknown => readArguments true rest
      | .ambiguous => .error .usage
      | .option name choice attached =>
        match use topOptions name choice attached with
        | .error r => .error r
        | .ok _ => .error .help

/-- The request that arguments make. -/
def Request.ofArguments (args : List String) : Except Refusal Request := readArguments false args

end OrderedGrammar.Command
