import SocketRpc.CommandLine.Options
/-!
# Reading the command line

* Arguments are read from left to right. A setting whose value has not been looked at yet is pending:
  it is looked at when the next option or the method comes, or at the end.
* What is pending is not looked at any more before an argument that is not known.
* `--` makes all that follows positional; `-` alone is a value or the method.
-/

namespace SocketRpc.CommandLine

inductive Stop
  | usage (error : UsageError)
  | version
  | help

structure State where
  given : Given
  pending : Option (Setting × Option String)
  positional : Bool

namespace State

def start : State := ⟨{}, none, false⟩

def resolve (s : State) : Except Stop State :=
  match s.pending with
  | none => .ok s
  | some (setting, none) => .error (.usage (.missingValue setting))
  | some (setting, some value) =>
    match s.given.set setting value with
    | .ok given => .ok { s with given, pending := none }
    | .error error => .error (.usage error)

def takeSetting (s : State) (setting : Setting) (attached : Option String) : Except Stop State := do
  let s ← s.resolve
  match attached with
  | none => .ok { s with pending := some (setting, none) }
  | some value =>
    match s.given.set setting value with
    | .ok given => .ok { s with given }
    | .error error => .error (.usage error)

def takePlain (s : State) (shown : String) (attached : Option String)
    (take : State → Except Stop State) : Except Stop State :=
  match attached with
  | some value => .error (.usage (.unexpectedValue value shown))
  | none => s.resolve >>= take

def takeFlag (flag : Flag) (s : State) : Except Stop State :=
  match s.given.setFlag flag with
  | .ok given => .ok { s with given }
  | .error error => .error (.usage error)

def takeLong (s : State) (name : String) (attached : Option String) : Except Stop State :=
  match Setting.all.find? (·.name = name), Flag.all.find? (·.name = name) with
  | some setting, _ => s.takeSetting setting attached
  | none, some flag => s.takePlain flag.shown attached (takeFlag flag)
  | none, none =>
    if name = "version" then s.takePlain "--version" attached fun _ => .error .version
    else if name = "help" then s.takePlain "--help" attached fun _ => .error .help
    else .error (.usage (.unexpectedArgument ("--" ++ name)))

def takeShort (s : State) (letter : Char) (rest : List Char) : Except Stop State :=
  match letter with
  | 'p' =>
    match rest with
    | [] => s.takeSetting .params none
    | '=' :: value => s.takeSetting .params (some (String.ofList value))
    | value => s.takeSetting .params (some (String.ofList value))
  | 'V' => s.resolve >>= fun _ => .error .version
  | 'h' => s.resolve >>= fun _ => .error .help
  | _ => .error (.usage (.unexpectedArgument (String.ofList ['-', letter])))

def takePositional (s : State) (argument : String) : Except Stop State :=
  match s.given.method with
  | some _ => .error (.usage (.unexpectedArgument argument))
  | none => do
    let s ← s.resolve
    return { s with given := { s.given with method := some argument } }

def takeValue (s : State) (argument : String) : Except Stop State :=
  match s.pending with
  | some (setting, none) => .ok { s with pending := some (setting, some argument) }
  | _ => s.takePositional argument

def take (s : State) (argument : String) : Except Stop State :=
  if s.positional then s.takePositional argument
  else match argument.toList with
    | ['-', '-'] => .ok { s with positional := true }
    | '-' :: '-' :: long =>
      let name := String.ofList (long.takeWhile (· ≠ '='))
      match long.dropWhile (· ≠ '=') with
      | [] => s.takeLong name none
      | _ :: value => s.takeLong name (some (String.ofList value))
    | '-' :: letter :: rest => s.takeShort letter rest
    | _ => s.takeValue argument

def takeAll (s : State) : List String → Except Stop State
  | [] => .ok s
  | argument :: rest =>
    match s.take argument with
    | .ok next => next.takeAll rest
    | .error stop => .error stop

end State

def parse (environment : String → Option String) (arguments : List String) :
    Except Stop Arguments := do
  let read ← State.start.takeAll arguments
  let read ← read.resolve
  match read.given.addEnvironment environment Setting.all with
  | .error error => .error (.usage error)
  | .ok given =>
    match given.complete with
    | .ok arguments => .ok arguments
    | .error error => .error (.usage error)

end SocketRpc.CommandLine
