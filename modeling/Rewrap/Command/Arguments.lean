import Rewrap.Path.Basic

/-! # Command-line arguments

A command line names one command with its own switches and argument. Some switches go with every
command and can stand before or after its name; what stands after the name counts more. -/

namespace Rewrap.Command

/-! ## Commands and switches -/

/-- What the tool can be told to do. -/
inductive Verb where
  | scan
  | migrate
  | preview
  | history
  | revert
  | clean
deriving DecidableEq

/-- What a command line can be given besides the command and its argument. -/
inductive Switch where
  | localState
  | format
  | summary
  | exclude
  | config
  | verbose
  | apply
  | limit
  | force
  | keepDays
  | help
  | version
deriving DecidableEq

def Verb.ofName? (name : String) : Option Verb :=
  [("scan", scan), ("migrate", migrate), ("rewrite", preview), ("history", history),
    ("revert", revert), ("clean", clean)].lookup name

/-- Whether the command needs an argument. -/
def Verb.takesArgument : Verb → Bool
  | .history | .clean => false
  | _ => true

/-- Whether the command takes the text as its argument. Paths are not empty. -/
def Verb.accepts (v : Verb) (argument : String) : Bool :=
  match v with
  | .revert => true
  | _ => !argument.isEmpty

namespace Switch

/-- The name after two hyphens. -/
def name : Switch → String
  | .localState => "local-state"
  | .format => "format"
  | .summary => "summary"
  | .exclude => "exclude"
  | .config => "config"
  | .verbose => "verbose"
  | .apply => "apply"
  | .limit => "limit"
  | .force => "force"
  | .keepDays => "keep-days"
  | .help => "help"
  | .version => "version"

/-- The letter after one hyphen. -/
def letter? : Switch → Option Char
  | .verbose => some 'v'
  | .limit => some 'n'
  | .help => some 'h'
  | .version => some 'V'
  | _ => none

def takesValue : Switch → Bool
  | .format | .exclude | .config | .limit | .keepDays => true
  | _ => false

/-- Whether the switch can be given more than once. -/
def isRepeatable : Switch → Bool
  | .exclude => true
  | _ => false

/-- The switches that go with every command. -/
def common : List Switch := [.localState, .format, .summary, .exclude, .config, .verbose, .help]

/-- The switches that can stand before the command's name, or after it. -/
def allowed : Option Verb → List Switch
  | none => .version :: common
  | some .migrate => .apply :: common
  | some .history => .limit :: common
  | some .revert => .force :: common
  | some .clean => .keepDays :: common
  | some _ => common

end Switch

/-! ## Numbers -/

/-- The number that decimal digits stand for. -/
def natOf? (digits : List Char) : Option Nat :=
  if digits.isEmpty || !digits.all Char.isDigit then none
  else some (digits.foldl (fun n c => n * 10 + (c.toNat - '0'.toNat)) 0)

/-- A count: digits, perhaps after a plus sign. -/
def countOf? (s : String) : Option Nat :=
  let n := match s.toList with
    | '+' :: digits => natOf? digits
    | digits => natOf? digits
  n.filter (· < UInt64.size)

/-- A number of days: digits, perhaps after a sign. -/
def daysOf? (s : String) : Option Nat :=
  match s.toList with
  | '+' :: digits => (natOf? digits).filter (· < UInt32.size)
  | '-' :: digits => (natOf? digits).filter (· == 0)
  | digits => (natOf? digits).filter (· < UInt32.size)

/-- Whether the switch takes the text as its value. -/
def Switch.accepts (s : Switch) (value : String) : Bool :=
  match s with
  | .config => !value.isEmpty
  | .limit => (countOf? value).isSome
  | .keepDays => (daysOf? value).isSome
  | _ => true

/-! ## Reading -/

/-- Why reading ends early: for the help text, for the version, or because the command line is
wrong. -/
inductive Stop where
  | help
  | version
  | wrong
deriving DecidableEq

/-- What has been read on one side of the command's name: the switches with their values, the
argument, the switch whose value comes next, and whether only arguments can follow. -/
structure Reading where
  verb : Option Verb
  switches : List (Switch × String) := []
  argument : Option String := none
  awaiting : Option Switch := none
  argumentsOnly : Bool := false

namespace Reading

/-- The values that a switch was given. -/
def values (r : Reading) (s : Switch) : List String :=
  (r.switches.filter (·.1 == s)).map Prod.snd

/-- Takes a switch with its value. -/
def take (r : Reading) (s : Switch) (value : String) : Except Stop Reading :=
  match s with
  | .help => .error .help
  | .version => .error .version
  | s =>
      if !s.accepts value || (!s.isRepeatable && !(r.values s).isEmpty) then .error .wrong
      else .ok { r with switches := r.switches ++ [(s, value)], awaiting := none }

/-- Takes the argument. -/
def takeArgument (r : Reading) (argument : String) : Except Stop Reading :=
  match r.verb with
  | some v =>
      if v.takesArgument && r.argument.isNone && v.accepts argument then
        .ok { r with argument := some argument }
      else .error .wrong
  | none => .error .wrong

/-- Takes a switch by its name, with the value that follows an equals sign, if any. -/
def takeNamed (r : Reading) (name : String) (value : Option String) : Except Stop Reading :=
  match (Switch.allowed r.verb).find? (·.name == name) with
  | none => .error .wrong
  | some s =>
      match s.takesValue, value with
      | true, some value => r.take s value
      | true, none => .ok { r with awaiting := some s }
      | false, some _ => .error .wrong
      | false, none => r.take s ""

/-- Takes switches by their letters. What follows the letter of a switch with a value is the value,
perhaps after an equals sign. -/
def takeLetters (r : Reading) : List Char → Except Stop Reading
  | [] => .ok r
  | c :: cs =>
      match (Switch.allowed r.verb).find? (·.letter? == some c) with
      | none => .error .wrong
      | some s =>
          if s.takesValue then
            match cs with
            | [] => .ok { r with awaiting := some s }
            | '=' :: value => r.take s (String.ofList value)
            | value => r.take s (String.ofList value)
          else do takeLetters (← r.take s "") cs

/-- Takes one word. The value that a switch waits for does not begin with a hyphen, except for a
hyphen alone. -/
def word (r : Reading) (w : String) : Except Stop Reading :=
  if r.argumentsOnly then r.takeArgument w
  else
    match w.toList, r.awaiting with
    | '-' :: _ :: _, some _ => .error .wrong
    | _, some s => r.take s w
    | ['-', '-'], none => .ok { r with argumentsOnly := true }
    | '-' :: '-' :: named, none =>
        let value := match named.dropWhile (· != '=') with
          | '=' :: value => some (String.ofList value)
          | _ => none
        r.takeNamed (String.ofList (named.takeWhile (· != '='))) value
    | '-' :: c :: cs, none => r.takeLetters (c :: cs)
    | _, none => r.takeArgument w

/-- Takes the words after the command's name, and gives what was read if nothing is missing. -/
def words (r : Reading) (ws : List String) : Except Stop Reading := do
  let r ← ws.foldlM word r
  match r.verb with
  | some v =>
      if r.awaiting.isSome || (v.takesArgument && r.argument.isNone) then .error .wrong else .ok r
  | none => .error .wrong

end Reading

/-- What the words after `help` ask for. -/
def helpFor (ws : List String) : Stop :=
  match ws with
  | [] => .help
  | [w] => if (Verb.ofName? w).isSome || w == "help" then .help else .wrong
  | _ => .wrong

/-- Takes the words up to the command's name and then those after it. -/
def readLine (r : Reading) : List String → Except Stop (Reading × Reading)
  | [] => .error .wrong
  | w :: ws =>
      if r.argumentsOnly || r.awaiting.isSome then do readLine (← r.word w) ws
      else if w == "help" then .error (helpFor ws)
      else
        match Verb.ofName? w with
        | some v => do return (r, ← ({ verb := some v } : Reading).words ws)
        | none => do readLine (← r.word w) ws

/-! ## Command lines -/

/-- A command with its argument and its own switches. -/
inductive Invocation where
  | scan (root : Path)
  | migrate (root : Path) (apply : Bool)
  | preview (file : Path)
  | history (limit : Nat)
  | revert (id : String) (force : Bool)
  | clean (keepDays : Nat)
deriving DecidableEq

/-- A command with the switches that go with every command. -/
structure CommandLine where
  invocation : Invocation
  localState : Bool := false
  format : String := "default"
  summary : Bool := false
  exclude : List String := []
  config : Option Path := none
  verbose : Bool := false
deriving DecidableEq

/-- The values of a switch: those after the command's name, or if there are none those before it. -/
def valuesOf (before after : Reading) (s : Switch) : List String :=
  if (after.values s).isEmpty then before.values s else after.values s

/-- The command that the words after its name give. -/
def invocationOf (r : Reading) : Except Stop Invocation :=
  let has (s : Switch) : Bool := !(r.values s).isEmpty
  match r.verb, r.argument with
  | some .scan, some root => .ok (.scan ⟨root⟩)
  | some .migrate, some root => .ok (.migrate ⟨root⟩ (has .apply))
  | some .preview, some file => .ok (.preview ⟨file⟩)
  | some .history, _ => .ok (.history (((r.values .limit).head?.bind countOf?).getD 10))
  | some .revert, some id => .ok (.revert id (has .force))
  | some .clean, _ => .ok (.clean (((r.values .keepDays).head?.bind daysOf?).getD 30))
  | _, _ => .error .wrong

/-- The command line that the words make up. -/
def CommandLine.ofWords (ws : List String) : Except Stop CommandLine := do
  let (before, after) ← readLine { verb := none } ws
  let values := valuesOf before after
  let has (s : Switch) : Bool := !(values s).isEmpty
  return {
    invocation := ← invocationOf after
    localState := has .localState
    format := (values .format).head?.getD "default"
    summary := has .summary
    exclude := values .exclude
    config := (values .config).head?.map Path.mk
    verbose := has .verbose }

end Rewrap.Command
