import Overlays.Text.Numeral
import Overlays.Yaml.Token

set_option autoImplicit false
set_option relaxedAutoImplicit false

namespace Overlays.Yaml

open Text

/-- The name of an anchor or of a reference to one, and the rest behind it. -/
def anchorName? (cs : List Char) : Option (List Char × List Char) :=
  let name := cs.takeWhile isWord
  let rest := cs.dropWhile isWord
  let ends := atGap rest || match rest with
    | c :: _ => "?:,]\x7d%@`".toList.contains c
    | [] => true
  if name.isEmpty || !ends then none else some (name, rest)

/-- Whether a character may stand in a tag as it is; inside angle brackets a few more may. -/
def isTagChar (verbatim : Bool) (c : Char) : Bool :=
  isWord c || ";/?:@&=+$.%!~*'()".toList.contains c || (verbatim && ",[]".toList.contains c)

/-- The number of bytes of a character whose first byte is `b`. -/
def byteCount? (b : Nat) : Option Nat :=
  if b < 0x80 then some 1
  else if 0xC0 ≤ b && b < 0xE0 then some 2
  else if 0xE0 ≤ b && b < 0xF0 then some 3
  else if 0xF0 ≤ b && b < 0xF8 then some 4
  else none

/-- Reads percent signs with two digits as bytes. `due` counts the bytes that the character begun still needs,
and `code` is its number so far. -/
def unescapeTag (due code : Nat) : List Char → Option (List Char)
  | [] => if due == 0 then some [] else none
  | '%' :: a :: b :: cs => do
    let byte ← Numeral.natural? 16 [a, b]
    if due == 0 then
      let n ← byteCount? byte
      if n == 1 then return Char.ofNat byte :: (← unescapeTag 0 0 cs)
      else unescapeTag (n - 1) (byte % Numeral.twoTo (7 - n)) cs
    else if byte / 0x40 == 2 then
      let code := code * 0x40 + byte % 0x40
      if due == 1 then return Char.ofNat code :: (← unescapeTag 0 0 cs)
      else unescapeTag (due - 1) code cs
    else none
  | c :: cs => if due == 0 && c != '%' then do return c :: (← unescapeTag 0 0 cs) else none

/-- The characters of a tag from here on, and the rest behind them. -/
def tagChars? (verbatim : Bool) (cs : List Char) : Option (List Char × List Char) := do
  let chars ← unescapeTag 0 0 (cs.takeWhile (isTagChar verbatim))
  return (chars, cs.dropWhile (isTagChar verbatim))

def tagEnds (inFlow : Bool) : List Char → Bool
  | ',' :: _ => inFlow
  | cs => atGap cs

/-- The handle and the suffix of a tag whose exclamation mark was read, and the rest behind it. -/
def tagParts? (cs : List Char) : Option (List Char × List Char × List Char) :=
  match cs with
  | '<' :: cs => do
    let (suffix, rest) ← tagChars? true cs
    match suffix, rest with
    | _ :: _, '>' :: rest => some ([], suffix, rest)
    | _, _ => none
  | _ =>
    let name := cs.takeWhile isWord
    match cs.dropWhile isWord with
    | '!' :: rest => do
      let (suffix, rest) ← tagChars? false rest
      if suffix.isEmpty then none else some ('!' :: name ++ ['!'], suffix, rest)
    | rest => do
      let (more, rest) ← tagChars? false rest
      let suffix := name ++ more
      if suffix.isEmpty then some ([], ['!'], rest) else some (['!'], suffix, rest)

/-- The tag whose exclamation mark was read. -/
def tag? (inFlow : Bool) (cs : List Char) : Option (Token × List Char) := do
  let (handle, suffix, rest) ← tagParts? cs
  if tagEnds inFlow rest then
    some (.tag (String.ofList handle) (String.ofList suffix), rest)
  else none

/-- One to nine digits of a version, and the rest behind them. -/
def versionNumber? (cs : List Char) : Option (Nat × List Char) := do
  let digits := cs.takeWhile fun c => '0' ≤ c && c ≤ '9'
  if digits.length > 9 then none
  let n ← Numeral.natural? 10 digits
  return (n, cs.drop digits.length)

def versionDirective? (cs : List Char) : Option (Token × List Char) := do
  let (major, cs) ← versionNumber? (cs.dropWhile isSpace)
  match cs with
  | '.' :: cs =>
    let (minor, cs) ← versionNumber? cs
    return (.versionDirective major minor, cs)
  | _ => none

def tagDirective? (cs : List Char) : Option (Token × List Char) :=
  match cs.dropWhile isSpace with
  | '!' :: cs => do
    let name := cs.takeWhile isWord
    let (handle, cs) ← match cs.dropWhile isWord with
      | '!' :: cs => some ('!' :: name ++ ['!'], cs)
      | cs => if name.isEmpty then some (['!'], cs) else none
    let behind := cs.dropWhile isSpace
    if behind.length == cs.length then none
    let (lead, rest) ← tagChars? true behind
    if lead.isEmpty || !atGap rest then none
    return (.tagDirective (String.ofList handle) (String.ofList lead), rest)
  | _ => none

/-- The directive whose percent sign was read, and the rest of its line. -/
def directive? (d : Dialect) (cs : List Char) : Option (Token × List Char) :=
  let name := cs.takeWhile isWord
  let rest := cs.dropWhile isWord
  if name.isEmpty || !atGap rest then none
  else if name == "YAML".toList then do
    let (t, rest) ← versionDirective? rest
    return (if d.isLenient then .versionDirective 1 2 else t, rest)
  else if name == "TAG".toList then tagDirective? rest
  else if d.isLenient then some (.reservedDirective, rest.dropWhile (!isBreak ·))
  else none

end Overlays.Yaml
