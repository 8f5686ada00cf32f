import Overlays.Text.Numeral

/-!
Messages to the person at the terminal. A line is put together from pieces, of which some are text and some switch
styles on and off, so that it can be said of a line what is left when the styles are taken away.
-/

set_option autoImplicit false
set_option relaxedAutoImplicit false

namespace Overlays

/-- What a terminal can show. -/
structure Terminal where
  hasEmoji : Bool
  hasStyles : Bool
deriving DecidableEq, Inhabited

/-- Whether a language setting promises emoji: it must end in the name of an encoding that has them. -/
def languageHasEmoji (language : String) : Bool :=
  "UTF-8".toList.isSuffixOf (language.toList.map Char.toUpper)

/-- What a message is for. -/
inductive MessageKind where
  | error
  | info
  | success
  | suggestion
deriving DecidableEq, Inhabited

/-- A message. -/
structure Message where
  kind : MessageKind
  text : String
deriving DecidableEq

/-- A piece of a line. -/
inductive Piece where
  | text (s : String)
  /-- Switches a style on, or all styles off when the code is zero. -/
  | style (code : Nat)
deriving DecidableEq

def Piece.sent : Piece → String
  | .text s => s
  | .style code => "\x1b[" ++ Text.Numeral.natText code ++ "m"

namespace MessageKind

/-- The sign in front of a message, in letters where the terminal has no emoji. -/
def sign (hasEmoji : Bool) : MessageKind → String
  | .error => if hasEmoji then "❌ " else "[E] "
  | .info => if hasEmoji then "ℹ️ " else "[I] "
  | .success => if hasEmoji then "✅ " else "OK "
  | .suggestion => if hasEmoji then "✨" else "[S] "

/-- The styles of a kind: a color, and weight for what needs attention. -/
def styles : MessageKind → List Nat
  | .error => [31, 1]
  | .info => [34]
  | .success => [32]
  | .suggestion => [33, 1]

end MessageKind

namespace Message

def error (text : String) : Message := ⟨.error, text⟩

def info (text : String) : Message := ⟨.info, text⟩

def success (text : String) : Message := ⟨.success, text⟩

def suggestion (text : String) : Message := ⟨.suggestion, text⟩

/-- A text between styles, if the terminal has them. -/
def styled (terminal : Terminal) (styles : List Nat) (text : String) : List Piece :=
  if terminal.hasStyles then styles.map .style ++ [.text text, .style 0] else [.text text]

/-- The pieces of a message's line. With colors a suggestion is announced as one; without, the text just follows
the sign. -/
def pieces (terminal : Terminal) (useColors : Bool) (m : Message) : List Piece :=
  let sign := Piece.text (m.kind.sign terminal.hasEmoji)
  if useColors then
    match m.kind with
    | .suggestion =>
      [sign, .text " "] ++ styled terminal m.kind.styles "Suggestion" ++ [.text ": ", .text m.text]
    | _ => sign :: styled terminal m.kind.styles m.text
  else [sign, .text m.text]

def line (terminal : Terminal) (useColors : Bool) (m : Message) : String :=
  String.join ((m.pieces terminal useColors).map Piece.sent)

end Message

end Overlays
