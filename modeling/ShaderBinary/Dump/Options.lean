/-!
# The options of the dump tool

What the dump tool is asked to do, and how that is read from its arguments. Short options may be
joined, as in `-sw`, and the value of an option may stand in the same argument or in the next one.
The argument `--` ends the options: what follows names the input, even if it starts with a dash.
-/

namespace ShaderBinary
namespace Dump

/-- What the dump tool is asked to do. -/
structure Options where
  /-- The path of the module. -/
  input : String
  /-- Whether debug instructions are removed first. -/
  strip : Bool
  /-- Whether the module is verified. -/
  verify : Bool
  /-- Whether the words of every instruction are shown. -/
  words : Bool
  /-- The path to which the module is written back. -/
  output? : Option String
deriving DecidableEq

namespace Options

/-- Why arguments are refused. -/
inductive Problem
  /-- An option that does not exist, or a second input. -/
  | unexpected (argument : String)
  /-- An option that was given before. -/
  | repeated (name : String)
  /-- An option or an input without a value. -/
  | noValue (name : String)
  /-- There is no input. -/
  | noInput
deriving DecidableEq

/-- What is said about refused arguments. -/
def Problem.message : Problem → String
  | unexpected argument => s!"unexpected argument '{argument}' found"
  | repeated name => s!"the argument '{name}' cannot be used multiple times"
  | noValue name => s!"a value is required for '{name}' but none was supplied"
  | noInput => "the following required arguments were not provided:\n  <INPUT>"

/-- Options as far as arguments have been read. -/
structure Partial where
  input? : Option String
  strip : Bool
  verify : Bool
  words : Bool
  output? : Option String

namespace Partial

/-- Debug instructions are to be removed. -/
def withStrip (soFar : Partial) : Except Problem Partial :=
  if soFar.strip then .error (.repeated "--strip") else .ok { soFar with strip := true }

/-- The module is not to be verified. -/
def withoutVerify (soFar : Partial) : Except Problem Partial :=
  if soFar.verify then .ok { soFar with verify := false } else .error (.repeated "--no-verify")

/-- Words are to be shown. -/
def withWords (soFar : Partial) : Except Problem Partial :=
  if soFar.words then .error (.repeated "--words") else .ok { soFar with words := true }

/-- The module is to be written to this path. -/
def withOutput (soFar : Partial) (path : String) : Except Problem Partial :=
  if soFar.output?.isSome then .error (.repeated "--output <OUTPUT>")
  else if path.isEmpty then .error (.noValue "--output <OUTPUT>")
  else .ok { soFar with output? := some path }

/-- The module is to be read from this path. -/
def withInput (soFar : Partial) (path : String) : Except Problem Partial :=
  if soFar.input?.isSome then .error (.unexpected path)
  else if path.isEmpty then .error (.noValue "<INPUT>")
  else .ok { soFar with input? := some path }

end Partial

/-- What one argument does: it is complete in itself, or expects a path for the output next. -/
inductive Step
  | complete (soFar : Partial)
  | awaitsOutput (soFar : Partial)

/-- Reads joined short options. -/
def readShort (soFar : Partial) : List Char → Except Problem Step
  | [] => .ok (.complete soFar)
  | 's' :: later => soFar.withStrip.bind (readShort · later)
  | 'w' :: later => soFar.withWords.bind (readShort · later)
  | ['o'] => .ok (.awaitsOutput soFar)
  | 'o' :: '=' :: path => (soFar.withOutput (String.ofList path)).map .complete
  | 'o' :: path => (soFar.withOutput (String.ofList path)).map .complete
  | c :: _ => .error (.unexpected (String.ofList ['-', c]))

/-- Reads a long option: its name, and what follows the name. -/
def readLong (soFar : Partial) (name : String) : List Char → Except Problem Step
  | [] =>
    match name with
    | "strip" => soFar.withStrip.map .complete
    | "no-verify" => soFar.withoutVerify.map .complete
    | "words" => soFar.withWords.map .complete
    | "output" => .ok (.awaitsOutput soFar)
    | _ => .error (.unexpected ("--" ++ name))
  | _ :: path =>
    match name with
    | "output" => (soFar.withOutput (String.ofList path)).map .complete
    | _ => .error (.unexpected ("--" ++ name))

/-- Reads one argument before `--`. A dash alone is a path. -/
def readArgument (soFar : Partial) (argument : String) : Except Problem Step :=
  match argument.toList with
  | '-' :: '-' :: long =>
    readLong soFar (String.ofList (long.takeWhile (· ≠ '='))) (long.dropWhile (· ≠ '='))
  | '-' :: first :: later => readShort soFar (first :: later)
  | _ => (soFar.withInput argument).map .complete

/-- Whether an argument is an option, and so cannot be the value of the option before it. -/
def isOption (argument : String) : Bool :=
  match argument.toList with
  | '-' :: _ :: _ => true
  | _ => false

/-- Reads all arguments in order. -/
def readAll : Partial → List String → Except Problem Partial
  | soFar, [] => .ok soFar
  | soFar, "--" :: paths => paths.foldlM Partial.withInput soFar
  | soFar, argument :: later =>
    match readArgument soFar argument, later with
    | .error problem, _ => .error problem
    | .ok (.complete next), later => readAll next later
    | .ok (.awaitsOutput _), [] => .error (.noValue "--output <OUTPUT>")
    | .ok (.awaitsOutput next), path :: later =>
      if isOption path then .error (.noValue "--output <OUTPUT>")
      else
        match next.withOutput path with
        | .error problem => .error problem
        | .ok next => readAll next later

/-- The options that arguments stand for. -/
def ofArguments (arguments : List String) : Except Problem Options :=
  match readAll ⟨none, false, true, false, none⟩ arguments with
  | .error problem => .error problem
  | .ok ⟨none, _, _, _, _⟩ => .error .noInput
  | .ok ⟨some input, strip, verify, words, output?⟩ => .ok ⟨input, strip, verify, words, output?⟩

end Options

end Dump
end ShaderBinary
