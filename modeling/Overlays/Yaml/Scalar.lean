import Overlays.Text.Numeral
import Overlays.Yaml.Gap

/-!
Reading scalars: plain text, text in quotes, and blocks of lines. Each reader takes the rest of the text and the
place where it stands, and gives the scalar with the rest and the place behind it, or nothing if the text is bad.
-/

set_option autoImplicit false
set_option relaxedAutoImplicit false

namespace Overlays.Yaml

open Text

/-- A piece that was read, and what follows it. -/
structure Piece (α : Type) where
  value : α
  rest : List Char
  place : Place

/-- A text from its characters in reverse. -/
def collect (reversed : List Char) : String := String.ofList reversed.reverse

/-- The text up to a closing single quote; a quote inside is written twice. -/
def singleQuoted (collected : List Char) (gap : Gap) :
    List Char → Place → Option (Piece String)
  | [], _ => none
  | '\'' :: '\'' :: cs, p => singleQuoted ('\'' :: gap.flush collected) .none cs (p.right 2)
  | '\'' :: cs, p => some ⟨collect (gap.flush collected), cs, p.right 1⟩
  | c :: cs, p =>
    if p.column == 0 && atDocumentMark (c :: cs) then none
    else if isSpace c || isBreak c then singleQuoted collected (gap.push c) cs (p.after c)
    else singleQuoted (c :: gap.flush collected) .none cs (p.right 1)

def escapedChar? : Char → Option Char
  | '0' => some '\x00'
  | 'a' => some '\x07'
  | 'b' => some '\x08'
  | 't' => some '\t'
  | '\t' => some '\t'
  | 'n' => some '\n'
  | 'v' => some '\x0B'
  | 'f' => some '\x0C'
  | 'r' => some '\r'
  | 'e' => some '\x1B'
  | ' ' => some ' '
  | '"' => some '"'
  | '/' => some '/'
  | '\\' => some '\\'
  | 'N' => some '\u0085'
  | '_' => some '\u00A0'
  | 'L' => some '\u2028'
  | 'P' => some '\u2029'
  | _ => none

/-- The character of a code in base sixteen, if there is one. -/
def codeChar? (digits : List Char) : Option Char :=
  (Numeral.natural? 16 digits).bind fun n =>
    if n.isValidChar then some (Char.ofNat n) else none

/-- The text up to a closing double quote, with escapes. -/
def doubleQuoted (collected : List Char) (gap : Gap) :
    List Char → Place → Option (Piece String)
  | [], _ => none
  | '"' :: cs, p => some ⟨collect (gap.flush collected), cs, p.right 1⟩
  | '\\' :: 'x' :: a :: b :: cs, p =>
    (codeChar? [a, b]).bind fun c => doubleQuoted (c :: gap.flush collected) .none cs (p.right 4)
  | '\\' :: 'u' :: a :: b :: c :: d :: cs, p =>
    (codeChar? [a, b, c, d]).bind fun x => doubleQuoted (x :: gap.flush collected) .none cs (p.right 6)
  | '\\' :: 'U' :: a :: b :: c :: d :: e :: f :: g :: h :: cs, p =>
    (codeChar? [a, b, c, d, e, f, g, h]).bind fun x =>
      doubleQuoted (x :: gap.flush collected) .none cs (p.right 10)
  | '\\' :: e :: cs, p =>
    if isBreak e then doubleQuoted (gap.flush collected) (.folded none []) cs p.down
    else (escapedChar? e).bind fun c => doubleQuoted (c :: gap.flush collected) .none cs (p.right 2)
  | c :: cs, p =>
    if p.column == 0 && atDocumentMark (c :: cs) then none
    else if isSpace c || isBreak c then doubleQuoted collected (gap.push c) cs (p.after c)
    else doubleQuoted (c :: gap.flush collected) .none cs (p.right 1)

/-- Whether a rest of a text begins with one of the brackets and the comma of flow collections. -/
def atFlowMark : List Char → Bool
  | c :: _ => c == ',' || c == '[' || c == ']' || c == '{' || c == '}'
  | [] => false

/-- Whether a plain scalar ends here: before a colon with space behind it, or before a mark of a flow
collection that it stands in. -/
def plainEnds (inFlow : Bool) : List Char → Bool
  | ':' :: cs => atGap cs || (inFlow && atFlowMark cs)
  | cs => inFlow && atFlowMark cs

/-- Whether a colon stands directly before a mark of a flow collection, which plain scalars may refuse there. -/
def colonRefused (inFlow : Bool) : List Char → Bool
  | ':' :: '?' :: _ => inFlow
  | ':' :: cs => inFlow && atFlowMark cs
  | _ => false

/-- The plain text from here, with whether it ended behind a line end. Lines that continue it begin at column
`least` or further right, unless a flow collection surrounds it. -/
def plain (d : Dialect) (inFlow : Bool) (least : Nat) (collected : List Char) (gap : Gap) :
    List Char → Place → Option (Piece (String × Bool))
  | [], p => some ⟨(collect collected, gap.isFolded), [], p⟩
  | c :: cs, p =>
    if isSpace c || isBreak c then
      if gap.isFolded && p.column < least && c == '\t' then none
      else plain d inFlow least collected (gap.push c) cs (p.after c)
    else if !gap.isNone && ((!inFlow && p.column < least)
        || (p.column == 0 && atDocumentMark (c :: cs)) || c == '#') then
      some ⟨(collect collected, gap.isFolded), c :: cs, p⟩
    else if colonRefused (inFlow && !d.isLenient) (c :: cs) then none
    else if plainEnds inFlow (c :: cs) then some ⟨(collect collected, gap.isFolded), c :: cs, p⟩
    else plain d inFlow least (c :: gap.flush collected) .none cs (p.right 1)

/-- What happens to the line ends behind a block of lines. -/
inductive Chomp where
  | strip
  | clip
  | keep
deriving DecidableEq

/-- The lines of a block that are read so far, all in reverse. -/
structure Block where
  /-- Whether line ends are kept as they are. -/
  isLiteral : Bool
  chomp : Chomp
  collected : List Char
  /-- The line end of the last line that holds text. -/
  lineEnd : Option Char
  /-- The line ends of the empty lines behind it. -/
  more : List Char
  /-- Whether the last line that holds text begins with a space or a tab. -/
  indented : Bool

namespace Block

/-- Begins a line with `c`, which settles what becomes of the line ends before it. -/
def beginLine (b : Block) (c : Char) : Block :=
  let head :=
    if !b.isLiteral && b.lineEnd == some '\n' && !b.indented && !isSpace c then
      if b.more.isEmpty then ' ' :: b.collected else b.more ++ b.collected
    else b.more ++ b.lineEnd.toList ++ b.collected
  { b with collected := c :: head, lineEnd := none, more := [], indented := isSpace c }

/-- The text of a block behind which no more lines follow. -/
def text (b : Block) : String :=
  collect <| match b.chomp with
    | .strip => b.collected
    | .clip => b.lineEnd.toList ++ b.collected
    | .keep => b.more ++ b.lineEnd.toList ++ b.collected

end Block

/-- The lines of a block. Its indentation is `indent`, or, when that is zero, what the first line that is not
empty has, but at least `least`; `widest` is the widest empty line met before that. -/
def blockLines (least : Nat) (b : Block) (inLine : Bool) (indent widest : Nat) :
    List Char → Place → Option (Piece String)
  | [], p => some ⟨b.text, [], p⟩
  | c :: cs, p =>
    if inLine then
      if isBreak c then blockLines least { b with lineEnd := some c } false indent widest cs p.down
      else blockLines least { b with collected := c :: b.collected } true indent widest cs (p.right 1)
    else if c == ' ' && (indent == 0 || p.column < indent) then
      blockLines least b false indent widest cs (p.right 1)
    else
      let widest := max widest p.column
      if c == '\t' && (indent == 0 || p.column < indent) then none
      else if isBreak c then blockLines least { b with more := c :: b.more } false indent widest cs p.down
      else
        let indent := if indent == 0 then max (max widest least) 1 else indent
        if p.column == indent then blockLines least (b.beginLine c) true indent widest cs (p.right 1)
        else some ⟨b.text, c :: cs, p⟩

/-- The signs behind the mark of a block: how it treats line ends at its end, and its indentation. -/
def blockSigns : List Char → Option (Chomp × Nat × List Char)
  | c :: cs =>
    if c == '+' || c == '-' then
      let chomp := if c == '+' then Chomp.keep else .strip
      match cs with
      | d :: ds => if '0' ≤ d && d ≤ '9' then width d chomp ds else some (chomp, 0, d :: ds)
      | [] => some (chomp, 0, [])
    else if '0' ≤ c && c ≤ '9' then
      match cs with
      | '+' :: ds => width c .keep ds
      | '-' :: ds => width c .strip ds
      | ds => width c .clip ds
    else some (.clip, 0, c :: cs)
  | [] => some (.clip, 0, [])
where
  /-- A width of zero is refused. -/
  width (d : Char) (chomp : Chomp) (cs : List Char) : Option (Chomp × Nat × List Char) :=
    if d == '0' then none else some (chomp, d.toNat - '0'.toNat, cs)

/-- What is left of a line behind blanks and a comment; nothing else may stand on it. -/
def restOfLine? (cs : List Char) : Option (List Char) :=
  let cs := cs.dropWhile isSpace
  let cs := match cs with
    | '#' :: _ => cs.dropWhile (!isBreak ·)
    | _ => cs
  match cs with
  | [] => some []
  | c :: ds => if isBreak c then some ds else none

/-- The block of lines behind its mark; `outer` is the indentation around it, if there is any. -/
def blockScalar (isLiteral : Bool) (outer : Option Nat) (cs : List Char) (p : Place) :
    Option (Piece String) := do
  let (chomp, width, cs) ← blockSigns cs
  let cs ← restOfLine? cs
  let indent := if width == 0 then 0 else outer.getD 0 + width
  let least := match outer with
    | some n => n + 1
    | none => 0
  blockLines least ⟨isLiteral, chomp, [], none, [], false⟩ false indent 0 cs p.down

end Overlays.Yaml
