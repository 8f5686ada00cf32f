import Overlays.CommandLine.Basic

set_option autoImplicit false
set_option relaxedAutoImplicit false

namespace Overlays.CommandLine

/-- What a command line can ask for by name. -/
inductive Verb where
  | list
  | enable
  | disable
  | enableExclusive
  | setPriority
  | lookup
  | commit
deriving DecidableEq, Inhabited

namespace Verb

def all : List Verb := [.list, .enable, .disable, .enableExclusive, .setPriority, .lookup, .commit]

def word : Verb → String
  | .list => "list"
  | .enable => "enable"
  | .disable => "disable"
  | .enableExclusive => "enable-exclusive"
  | .setPriority => "set-priority"
  | .lookup => "lookup"
  | .commit => "commit"

def ofWord? (word : String) : Option Verb := all.find? (·.word = word)

/-- Whether one more operand may follow that many. -/
def admits (v : Verb) (count : Nat) : Bool :=
  match v with
  | .list | .enable | .disable | .enableExclusive => count < 1
  | .setPriority | .lookup => count < 2
  | .commit => true

end Verb

def helpWord : String := "help"

def isVerbWord (word : String) : Bool := word = helpWord || (Verb.ofWord? word).isSome

/-- What can be switched on or given a value by name. -/
inductive Switch where
  | stateFile
  | debug
  | noColor
  | user
  | category
  | verbose
  | help
  | version
deriving DecidableEq, Inhabited

namespace Switch

def name : Switch → String
  | .stateFile => "state-file"
  | .debug => "debug"
  | .noColor => "no-color"
  | .user => "user"
  | .category => "category"
  | .verbose => "verbose"
  | .help => "help"
  | .version => "version"

def letter? : Switch → Option Char
  | .stateFile => some 's'
  | .help => some 'h'
  | .version => some 'V'
  | .debug | .noColor | .user | .category | .verbose => none

def takesValue : Switch → Bool
  | .stateFile | .user => true
  | .debug | .noColor | .category | .verbose | .help | .version => false

/-- The switches behind a verb, or in front of all verbs. -/
def known : Option Verb → List Switch
  | none => [.stateFile, .debug, .noColor, .help, .version]
  | some .enableExclusive => [.stateFile, .debug, .noColor, .help, .user, .category]
  | some .lookup => [.stateFile, .debug, .noColor, .help, .user, .verbose]
  | some _ => [.stateFile, .debug, .noColor, .help, .user]

def ofName? (verb : Option Verb) (name : String) : Option Switch := (known verb).find? (·.name = name)

def ofLetter? (verb : Option Verb) (c : Char) : Option Switch := (known verb).find? (·.letter? = some c)

end Switch

/-- Why a command line asks for no command. -/
inductive Usage where
  | help
  | version
  /-- Nothing is given at all. -/
  | nothingGiven
  | verbMissing
  | unknownVerb
  | unknownArgument
  | operandMissing
  | valueMissing
  | badUser (cause : BadUserNumber)
  | badOperation (cause : CommitOperationError)
  | repeated
  /-- A switch that takes no value is given one. -/
  | unexpectedValue
deriving DecidableEq

namespace Usage

/-- Whether nothing is wrong: help or the version is asked for. -/
def isWelcome : Usage → Bool
  | .help | .version => true
  | _ => false

def complaint? : Usage → Option String
  | .badUser cause => some cause.message
  | .badOperation cause => some cause.message
  | _ => none

end Usage

end Overlays.CommandLine
