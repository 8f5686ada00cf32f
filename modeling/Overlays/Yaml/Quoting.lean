import Overlays.Yaml.Plain

set_option autoImplicit false
set_option relaxedAutoImplicit false

namespace Overlays.Yaml.Quoting

/-- Whether a character ends a line in a text that is to be written. -/
def isLineEnd (c : Char) : Bool := isBreak c || c == '\r' || c == '\u0085'

def isGap (c : Char) : Bool := isSpace c || isLineEnd c

/-- Whether a text is over or goes on with a blank or a line end. -/
def beginsWithGap (cs : List Char) : Bool := cs.head?.all isGap

/-- Whether a character may be written as it is. -/
def isPrintable (c : Char) : Bool :=
  let n := c.toNat
  n == 0x0A || (0x20 ≤ n && n ≤ 0x7E) || (0xA0 ≤ n && n ≤ 0xFFFD && n != 0xFEFF) || 0x10000 ≤ n

/-- Whether a character of one class is directly followed by one of another. -/
def hasPair (p q : Char → Bool) : List Char → Bool
  | c :: d :: cs => (p c && q d) || hasPair p q (d :: cs)
  | _ => false

def isMultiline (cs : List Char) : Bool := cs.any isLineEnd

def hasTokenStart : List Char → Bool
  | '-' :: '-' :: '-' :: _ => true
  | '.' :: '.' :: '.' :: _ => true
  | c :: cs =>
    "#,[]\x7b\x7d&*!|>'\"%@`".toList.contains c || ((c == '?' || c == ':' || c == '-') && beginsWithGap cs)
  | [] => false

/-- Whether a colon before a gap or a number sign behind one ends a plain text. `isAfterGap` tells whether a gap
stands before the text. -/
def hasInnerMark (isAfterGap : Bool) : List Char → Bool
  | [] => false
  | c :: cs =>
    (c == ':' && beginsWithGap cs) || (c == '#' && isAfterGap) || hasInnerMark (isGap c) cs

/-- Whether all characters may be written as they are, and no line ends with a space. -/
def isClean (cs : List Char) : Bool := cs.all isPrintable && !hasPair (· == ' ') isLineEnd cs

/-- Whether a text can be written without any marks around it. -/
def plainAllowed (cs : List Char) : Bool :=
  isClean cs && !isMultiline cs && cs.head? != some ' ' && cs.getLast? != some ' ' && !hasTokenStart cs
    && match cs with
      | [] => false
      | c :: cs => !hasInnerMark (isGap c) cs

/-- Whether a text can be written between single quotes. -/
def singleAllowed (cs : List Char) : Bool := isClean cs && !hasPair isLineEnd (· == ' ') cs

/-- Whether a text can be written as the lines of a block. -/
def literalAllowed (cs : List Char) : Bool := !cs.isEmpty && isClean cs && cs.getLast? != some ' '

/-- The way in which a scalar is written when `wanted` is wished for: the next one that keeps the text. -/
def settle (wanted : Style) (cs : List Char) : Style :=
  match wanted with
  | .plain => if plainAllowed cs then .plain else if singleAllowed cs then .singleQuoted else .doubleQuoted
  | .singleQuoted => if singleAllowed cs then .singleQuoted else .doubleQuoted
  | .literal => if literalAllowed cs then .literal else .doubleQuoted
  | .doubleQuoted => .doubleQuoted
  | .folded => .doubleQuoted

/-- The way of writing that is wished for: blocks for texts with line feeds, quotes for those that would be read
as something else. -/
def wanted (s : String) : Style :=
  if s.toList.contains '\n' then .literal else if Plain.isAmbiguous s then .singleQuoted else .plain

/-- `count` spaces. -/
def spaces (count : Nat) : List Char := List.replicate count ' '

def indented (isLineStart : Bool) (indent : Nat) : List Char := if isLineStart then spaces indent else []

/-- A text between single quotes, its quotes written twice. Line ends are separators only; the line behind one
is indented. -/
def singleBody (indent : Nat) (isLineStart : Bool) : List Char → List Char
  | [] => indented isLineStart indent
  | c :: cs =>
    if isLineEnd c then
      (if c == '\n' && !isLineStart then ['\n'] else []) ++ c :: singleBody indent true cs
    else if c == ' ' then c :: singleBody indent isLineStart cs
    else indented isLineStart indent
      ++ (if c == '\'' then ['\'', '\''] else [c]) ++ singleBody indent false cs

def hexDigit (n : Nat) : Char := Char.ofNat (if n < 10 then '0'.toNat + n else 'A'.toNat + (n - 10))

/-- The last `width` digits of a number in base sixteen. -/
def hexDigits : Nat → Nat → List Char
  | 0, _ => []
  | width + 1, n => hexDigits width (n / 16) ++ [hexDigit (n % 16)]

def escape (c : Char) : List Char :=
  match c with
  | '\x00' => ['0']
  | '\x07' => ['a']
  | '\x08' => ['b']
  | '\t' => ['t']
  | '\n' => ['n']
  | '\x0B' => ['v']
  | '\x0C' => ['f']
  | '\r' => ['r']
  | '\x1B' => ['e']
  | '"' => ['"']
  | '\\' => ['\\']
  | '\u0085' => ['N']
  | '\u00A0' => ['_']
  | '\u2028' => ['L']
  | '\u2029' => ['P']
  | c =>
    if c.toNat ≤ 0xFF then 'x' :: hexDigits 2 c.toNat
    else if c.toNat ≤ 0xFFFF then 'u' :: hexDigits 4 c.toNat
    else 'U' :: hexDigits 8 c.toNat

def doubleBody (cs : List Char) : List Char :=
  cs.flatMap fun c =>
    if !isPrintable c || isLineEnd c || c == '"' || c == '\\' then '\\' :: escape c else [c]

/-- The signs behind the mark of a block: the width of its indentation if the text begins with space, and what
becomes of the line ends at its end. -/
def blockSigns (cs : List Char) : List Char :=
  let width := match cs with
    | c :: _ => if c == ' ' || isLineEnd c then ['2'] else []
    | [] => []
  let chomp := match cs.reverse with
    | [] => ['-']
    | c :: rest =>
      if !isLineEnd c then ['-']
      else match rest with
        | [] => ['+']
        | d :: _ => if isLineEnd d then ['+'] else []
  width ++ chomp

/-- The lines of a block, each that is not empty indented. -/
def blockBody (indent : Nat) (isLineStart : Bool) : List Char → List Char
  | [] => []
  | c :: cs =>
    if isLineEnd c then c :: blockBody indent true cs
    else indented isLineStart indent ++ c :: blockBody indent false cs

/-- A scalar as it is written in a given way; lines within it are indented by `indent`. -/
def write (indent : Nat) (style : Style) (cs : List Char) : List Char :=
  match style with
  | .plain => cs
  | .singleQuoted => '\'' :: singleBody indent false cs ++ ['\'']
  | .doubleQuoted => '"' :: doubleBody cs ++ ['"']
  | .literal => '|' :: blockSigns cs ++ '\n' :: blockBody indent true cs
  | .folded => '>' :: blockSigns cs ++ '\n' :: blockBody indent true cs

/-- Whether what is written for a scalar ends its last line by itself. -/
def endsLine (style : Style) (cs : List Char) : Bool :=
  (style == .literal || style == .folded) && cs.getLast?.any isLineEnd

end Overlays.Yaml.Quoting
