/-!
# HookTrace.Build.CommandLine

The command line of the build tool: which command is asked for, and with which options.

* `Options.parse`: the options of a build. The value of an option that stands in an argument of
  its own is looked at only when the next option or the end is reached, so that an unknown
  argument in between is found first.
* `Command.parse`: the whole command line.
-/

namespace HookTrace.Build

inductive Target where
  | littleEndian
  | bigEndian
deriving DecidableEq

namespace Target

def name : Target → String
  | littleEndian => "bpfel-unknown-none"
  | bigEndian => "bpfeb-unknown-none"

def ofName? (name : String) : Option Target :=
  [littleEndian, bigEndian].find? (·.name == name)

end Target

/-- Why the arguments do not name a command: help is asked for, or they are wrong. -/
inductive Stop where
  | help
  | missingCommand
  | unknownCommand
  | unknownArgument
  | repeatedOption
  | missingValue
  | invalidValue
  | unexpectedValue
deriving DecidableEq

namespace Stop

def message : Stop → String
  | help => "usage: build-ebpf [--target <TARGET>] [--regenerate] | codegen"
  | missingCommand => "a command is required"
  | unknownCommand => "there is no such command"
  | unknownArgument => "there is no such argument"
  | repeatedOption => "an option is given more than once"
  | missingValue => "an option lacks its value"
  | invalidValue => "invalid target"
  | unexpectedValue => "an option takes no value"

/-- Asking for help is no error. -/
def exitCode : Stop → UInt8
  | help => 0
  | _ => 2

end Stop

structure Options where
  target : Target := .littleEndian
  /-- Whether bindings are generated even if there are some. -/
  regenerate : Bool := false
deriving DecidableEq

namespace Options

/-- The value of the target option as far as it has been read. -/
inductive Awaited where
  | nothing
  | value
  | given (text : String)

structure Progress where
  target : Option Target := none
  regenerate : Bool := false
  awaited : Awaited := .nothing

namespace Progress

def setTarget (progress : Progress) (text : String) : Except Stop Progress :=
  if progress.target.isSome then .error .repeatedOption
  else
    match Target.ofName? text with
    | some target => .ok { progress with target := some target, awaited := .nothing }
    | none => .error .invalidValue

/-- Looks at the value that is still open. -/
def settle (progress : Progress) : Except Stop Progress :=
  match progress.awaited with
  | .nothing => .ok progress
  | .value => .error .missingValue
  | .given text => progress.setTarget text

def long (progress : Progress) (name : String) (value : Option String) : Except Stop Progress :=
  match name, value with
  | "target", some text => do (← progress.settle).setTarget text
  | "target", none => do return { ← progress.settle with awaited := .value }
  | "regenerate", none => do
    let progress ← progress.settle
    if progress.regenerate then throw .repeatedOption
    return { progress with regenerate := true }
  | "help", none => do
    let _ ← progress.settle
    throw .help
  | "regenerate", some _ => .error .unexpectedValue
  | "help", some _ => .error .unexpectedValue
  | _, _ => .error .unknownArgument

/-- Takes options by their letters, of which only that for help is known. -/
def short (progress : Progress) (letters : List Char) : Except Stop Progress :=
  match letters with
  | 'h' :: _ => do
    let _ ← progress.settle
    throw .help
  | _ => .error .unknownArgument

/-- Takes an argument that is no option: the value that is awaited. -/
def plain (progress : Progress) (text : String) : Except Stop Progress :=
  match progress.awaited with
  | .value => .ok { progress with awaited := .given text }
  | _ => .error .unknownArgument

end Progress

inductive Form where
  /-- Two dashes alone; no option follows. -/
  | separator
  | long (name : String) (value : Option String)
  | short (letters : List Char)
  | plain

/-- Splits at the first equals sign. -/
def splitValue (chars : List Char) : String × Option String :=
  match chars.dropWhile (· ≠ '=') with
  | [] => (String.ofList chars, none)
  | _ :: value => (String.ofList (chars.takeWhile (· ≠ '=')), some (String.ofList value))

def Form.of (argument : String) : Form :=
  match argument.toList with
  | ['-', '-'] => .separator
  | '-' :: '-' :: chars =>
    let (name, value) := splitValue chars
    .long name value
  | '-' :: c :: chars => .short (c :: chars)
  | _ => .plain

def readAll (progress : Progress) : List String → Except Stop Progress
  | [] => progress.settle
  | argument :: rest =>
    match Form.of argument with
    | .separator => if rest.isEmpty then progress.settle else .error .unknownArgument
    | .long name value => do readAll (← progress.long name value) rest
    | .short letters => do readAll (← progress.short letters) rest
    | .plain => do readAll (← progress.plain argument) rest

def parse (arguments : List String) : Except Stop Options := do
  let progress ← readAll {} arguments
  return { target := progress.target.getD .littleEndian, regenerate := progress.regenerate }

end Options

inductive Command where
  | build (options : Options)
  | generate
deriving DecidableEq

namespace Command

def parseNothing : List String → Except Stop Unit
  | [] => .ok ()
  | argument :: rest =>
    match Options.Form.of argument with
    | .separator => if rest.isEmpty then .ok () else .error .unknownArgument
    | .long "help" none => .error .help
    | .long "help" (some _) => .error .unexpectedValue
    | .short ('h' :: _) => .error .help
    | _ => .error .unknownArgument

/-- What help is asked for about: the tool, or one of its commands. -/
def parseHelp : List String → Stop
  | [] => .help
  | [name] => if ["build-ebpf", "codegen", "help"].contains name then .help else .unknownCommand
  | _ => .unknownCommand

def parse : List String → Except Stop Command
  | [] => .error .missingCommand
  | "build-ebpf" :: rest => do return .build (← Options.parse rest)
  | "codegen" :: rest => do
    parseNothing rest
    return .generate
  | "help" :: rest => .error (parseHelp rest)
  | argument :: rest =>
    match Options.Form.of argument with
    | .separator => .error (if rest.isEmpty then .missingCommand else .unknownArgument)
    | .long "help" none => .error .help
    | .short ('h' :: _) => .error .help
    | .plain => .error .unknownCommand
    | _ => .error .unknownArgument

end Command

end HookTrace.Build
