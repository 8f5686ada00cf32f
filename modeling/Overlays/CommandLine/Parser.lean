import Overlays.CommandLine.Switch

/-!
Reading a command line argument by argument, first up to the verb and then behind it. A value or an operand is
looked at only when the next argument that is no operand comes, or the end; so of two faults the one that is found
first on that walk counts.
-/

set_option autoImplicit false
set_option relaxedAutoImplicit false

namespace Overlays.CommandLine

/-- What is given in front of the verb or behind it. -/
structure Given where
  stateFile : Option String
  user : Option UserArg
  flags : List Switch
  operands : List String
  operations : List CommitOperation
deriving DecidableEq

namespace Given

def nothing : Given := ⟨none, none, [], [], []⟩

def hasNoSwitch (g : Given) : Bool := g.stateFile.isNone && g.user.isNone && g.flags.isEmpty

/-- Takes the value of a switch, which may be given only once. -/
def withValue (g : Given) (s : Switch) (value : String) : Except Usage Given :=
  match s with
  | .user =>
    if g.user.isSome then .error .repeated
    else match UserArg.parse value with
      | .ok user => .ok { g with user := some user }
      | .error cause => .error (.badUser cause)
  | _ =>
    if g.stateFile.isSome then .error .repeated
    else if value = "" then .error .valueMissing
    else .ok { g with stateFile := some value }

/-- Takes a switch without a value, which may be given only once. -/
def withFlag (g : Given) (s : Switch) : Except Usage Given :=
  match s with
  | .help => .error .help
  | .version => .error .version
  | s => if s ∈ g.flags then .error .repeated else .ok { g with flags := s :: g.flags }

/-- Takes operands. Those of a commit must be operations. -/
def withOperands (g : Given) (verb : Option Verb) (words : List String) : Except Usage Given := do
  let operations ←
    if verb = some .commit then (words.mapM CommitOperation.parse).mapError .badOperation else .ok []
  return { g with operands := g.operands ++ words, operations := g.operations ++ operations }

def command (g : Given) (verb : Verb) : Except Usage Command :=
  match verb, g.operands with
  | .list, [] => .ok (.list none)
  | .list, package :: _ => .ok (.list (some package))
  | .enable, package :: _ => .ok (.setEnabled true package)
  | .disable, package :: _ => .ok (.setEnabled false package)
  | .enableExclusive, package :: _ => .ok (.enableExclusive (g.flags.contains .category) package)
  | .setPriority, package :: place :: _ => .ok (.setPriority package (.ofWord place))
  | .lookup, loaded :: resource :: _ => .ok (.lookup (g.flags.contains .verbose) loaded resource)
  | .commit, _ :: _ => .ok (.commit g.operations)
  | _, _ => .error .operandMissing

end Given

/-- What is read but not looked at yet. -/
inductive Pending where
  | nothing
  /-- A switch that is still without a value, or has one. -/
  | value (s : Switch) (value : Option String)
  | operands (words : List String)
deriving DecidableEq

/-- How far reading has come. -/
structure Progress where
  given : Given
  pending : Pending
  /-- Whether only operands follow. -/
  isTrailing : Bool
deriving DecidableEq

namespace Progress

/-- Before the first argument. -/
def start : Progress := ⟨.nothing, .nothing, false⟩

/-- Whether the last switch waits for its value. -/
def awaitsValue (p : Progress) : Bool :=
  match p.pending with
  | .value _ none => true
  | _ => false

def operandCount (p : Progress) : Nat :=
  p.given.operands.length + match p.pending with
    | .operands words => words.length
    | _ => 0

def settle (verb : Option Verb) (p : Progress) : Except Usage Given :=
  match p.pending with
  | .nothing => .ok p.given
  | .value _ none => .error .valueMissing
  | .value s (some value) => p.given.withValue s value
  | .operands words => p.given.withOperands verb words

/-- Goes on with what is given, after everything pending is settled. -/
def settled (verb : Option Verb) (p : Progress) (f : Given → Except Usage Given) (next : Pending) :
    Except Usage Progress := do
  let given ← f (← p.settle verb)
  return ⟨given, next, p.isTrailing⟩

/-- A switch that takes a value, with the value attached or still to come. -/
def option (verb : Option Verb) (p : Progress) (s : Switch) : Option String → Except Usage Progress
  | some value => p.settled verb (·.withValue s value) .nothing
  | none => p.settled verb .ok (.value s none)

def flag (verb : Option Verb) (p : Progress) (s : Switch) : Except Usage Progress :=
  p.settled verb (·.withFlag s) .nothing

/-- An operand. Where no operand can be it is taken for a verb, except for a verb behind two dashes. -/
def operand (verb : Option Verb) (p : Progress) (word : String) : Except Usage Progress :=
  match verb with
  | none => .error (if p.isTrailing && isVerbWord word then .unknownArgument else .unknownVerb)
  | some v =>
    if v.admits p.operandCount then
      match p.pending with
      | .operands words => .ok { p with pending := .operands (words ++ [word]) }
      | _ => p.settled verb .ok (.operands [word])
    else .error .unknownArgument

/-- A word that is no switch: the value that a switch waits for, or else an operand. -/
def word (verb : Option Verb) (p : Progress) (word : String) : Except Usage Progress :=
  match p.pending with
  | .value s none => .ok { p with pending := .value s (some word) }
  | _ => p.operand verb word

/-- A switch by name, perhaps with a value behind an equals sign. -/
def long (verb : Option Verb) (p : Progress) (cs : List Char) : Except Usage Progress :=
  let (name, value) := match splitAtFirst? '=' cs with
    | some (name, value) => (String.ofList name, some (String.ofList value))
    | none => (String.ofList cs, none)
  match Switch.ofName? verb name with
  | none => .error .unknownArgument
  | some s =>
    if s.takesValue then p.option verb s value
    else if value.isSome then .error .unexpectedValue
    else p.flag verb s

/-- Switches by letter. A value follows its letter directly or behind an equals sign. -/
def letters (verb : Option Verb) (p : Progress) : List Char → Except Usage Progress
  | [] => .ok p
  | c :: cs =>
    match Switch.ofLetter? verb c with
    | none => .error .unknownArgument
    | some s =>
      if s.takesValue then
        p.option verb s <| match cs with
          | [] => none
          | '=' :: value => some (String.ofList value)
          | value => some (String.ofList value)
      else do letters verb (← p.flag verb s) cs

def step (verb : Option Verb) (p : Progress) (arg : String) : Except Usage Progress :=
  if p.isTrailing then p.operand verb arg
  else match arg.toList with
    | ['-', '-'] => .ok { p with isTrailing := true }
    | '-' :: '-' :: cs => p.long verb cs
    | '-' :: c :: cs => p.letters verb (c :: cs)
    | _ => p.word verb arg

end Progress

/-- What help is given on the words behind `help`: on a verb, or on `help` itself. -/
def help : List String → Usage
  | [] => .help
  | [word] => if isVerbWord word then .help else .unknownVerb
  | _ => .unknownVerb

/-- Reads up to the verb, and leaves what is behind it. -/
def front (p : Progress) : List String → Except Usage (Progress × Option (Verb × List String))
  | [] => .ok (p, none)
  | arg :: rest =>
    if p.isTrailing || p.awaitsValue then do front (← p.step none arg) rest
    else if arg = helpWord then .error (help rest)
    else match Verb.ofWord? arg with
      | some verb => .ok (p, some (verb, rest))
      | none => do front (← p.step none arg) rest

def back (verb : Verb) (args : List String) : Except Usage Given := do
  (← args.foldlM (Progress.step (some verb)) .start).settle (some verb)

/-- What is asked for by a verb and the switches in front of it and behind it; those behind it count more. -/
def invocation (before behind : Given) (command : Command) : Invocation where
  stateFile := behind.stateFile <|> before.stateFile
  debug := behind.flags.contains .debug || before.flags.contains .debug
  noColor := behind.flags.contains .noColor || before.flags.contains .noColor
  user := behind.user
  command := command

def parse (args : List String) : Except Usage Invocation := do
  match ← front .start args with
  | (p, none) =>
    let given ← p.settle none
    .error (if given.hasNoSwitch then .nothingGiven else .verbMissing)
  | (p, some (verb, rest)) =>
    let behind ← back verb rest
    let command ← behind.command verb
    return invocation (← p.settle none) behind command

end Overlays.CommandLine
