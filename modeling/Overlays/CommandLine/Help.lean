import Overlays.CommandLine.Switch

set_option autoImplicit false
set_option relaxedAutoImplicit false

namespace Overlays.CommandLine

def programName : String := "overlay-cli"

def versionText : String := programName ++ " 0.1.0\n"

/-- The operands of a verb, the optional ones in brackets. -/
def operandNames : Verb → String
  | .list => "[PACKAGE]"
  | .enable | .disable => "<PACKAGE>"
  | .enableExclusive => "[--category] <PACKAGE>"
  | .setPriority => "<PACKAGE> <lowest|highest|PARENT>"
  | .lookup => "[--verbose] <PACKAGE_TO_LOAD> <RESOURCE>"
  | .commit => "<enable=PACKAGE|disable=PACKAGE>..."

def usageText : String :=
  "Usage: " ++ programName ++ " [-s|--state-file PATH] [--debug] [--no-color] COMMAND\n\nCommands:\n"
    ++ String.join (Verb.all.map fun v => "  " ++ v.word ++ " [--user USER] " ++ operandNames v ++ "\n")

def helpText : String :=
  "Lists, enables and orders overlay packages.\n\n" ++ usageText
    ++ "\n-h, --help prints this text, -V, --version prints the version.\n"

def Usage.message (u : Usage) : String :=
  match u with
  | .help | .version => ""
  | .nothingGiven | .verbMissing => "a command is needed"
  | .unknownVerb => "there is no such command"
  | .unknownArgument => "an argument is not expected here"
  | .operandMissing => "an argument is missing"
  | .valueMissing => "a value is missing"
  | .badUser cause => cause.message
  | .badOperation cause => cause.message
  | .repeated => "an option is given twice"
  | .unexpectedValue => "a flag takes no value"

end Overlays.CommandLine
