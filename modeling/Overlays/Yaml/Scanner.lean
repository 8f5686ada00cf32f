import Overlays.Yaml.Property
import Overlays.Yaml.Scalar

/-!
From a text to its tokens. A key that is not marked as one is recognised only at the colon behind it, so the
scanner remembers where a key may have begun and puts the tokens that open it there later.
-/

set_option autoImplicit false
set_option relaxedAutoImplicit false

namespace Overlays.Yaml

/-- A value that becomes a key if a colon follows it. -/
structure PendingKey where
  /-- Whether the text is bad unless it does become a key. -/
  isRequired : Bool
  /-- The number of tokens before it. -/
  index : Nat
  place : Place

/-- The state of scanning. -/
structure Scanner where
  rest : List Char
  place : Place
  /-- The tokens found, the last one first. -/
  tokens : List Token
  count : Nat
  /-- The indentations of the open block collections, the innermost first. -/
  indents : List Nat
  /-- Whether a key may begin here without being marked as one. -/
  keyAllowed : Bool
  pending : Option PendingKey
  /-- What is pending around each open flow collection, the innermost first. -/
  outer : List (Option PendingKey)

namespace Scanner

def start (cs : List Char) : Scanner := ⟨cs, ⟨0, 0⟩, [], 0, [], true, none, []⟩

def inFlow (s : Scanner) : Bool := !s.outer.isEmpty

def emit (s : Scanner) (t : Token) : Scanner := { s with tokens := t :: s.tokens, count := s.count + 1 }

def insertAt (s : Scanner) (index : Nat) (t : Token) : Scanner :=
  { s with tokens := s.tokens.insertIdx (s.count - index) t, count := s.count + 1 }

/-- Moves over `n` characters of a line. -/
def skip (s : Scanner) (n : Nat) : Scanner :=
  { s with rest := s.rest.drop n, place := s.place.right n }

def moveTo (s : Scanner) (rest : List Char) (place : Place) : Scanner := { s with rest, place }

/-- Opens a block collection at a column further right than the innermost one; `index` is where its token goes. -/
def openBlock (s : Scanner) (column index : Nat) (t : Token) : Scanner :=
  let isDeeper := match s.indents with
    | [] => true
    | n :: _ => n < column
  if s.inFlow || !isDeeper then s
  else { s.insertAt index t with indents := column :: s.indents }

/-- Closes the block collections whose indentation lies right of `column`; all of them without a column. -/
def closeBlocks (s : Scanner) (column : Option Nat) : Scanner :=
  if s.inFlow then s
  else
    let isOpen := fun n => match column with
      | none => true
      | some c => c < n
    (s.indents.takeWhile isOpen).foldl (fun s _ => s.emit .blockEnd)
      { s with indents := s.indents.dropWhile isOpen }

def dropKey (s : Scanner) : Option Scanner :=
  match s.pending with
  | some k => if k.isRequired then none else some { s with pending := none }
  | none => some s

/-- Notes that a key may begin here. -/
def noteKey (s : Scanner) : Option Scanner :=
  if s.keyAllowed then do
    let s ← s.dropKey
    let isRequired := !s.inFlow && s.indents.head? == some s.place.column
    return { s with pending := some ⟨isRequired, s.count, s.place⟩ }
  else some s

/-- Whether a key that began at `k` can no longer be one: keys stay on one line and within 1024 characters. -/
def isStale (s : Scanner) (k : PendingKey) : Bool :=
  k.place.line < s.place.line || k.place.column + 1024 < s.place.column

/-- Gives up the pending keys, of any level, that lie too far back. -/
def dropStaleKeys (s : Scanner) : Option Scanner := do
  let refresh : Option PendingKey → Option (Option PendingKey)
    | none => some none
    | some k => if !s.isStale k then some (some k) else if k.isRequired then none else some none
  let pending ← refresh s.pending
  let outer ← s.outer.mapM refresh
  return { s with pending, outer }

/-- Whether a tab may be passed over. Strictly, none may stand where a key can begin; else none may stand left of
column `indent` on a line that holds something. -/
def tabPasses (d : Dialect) (indent : Nat) (inFlow keyAllowed : Bool) (behind : List Char) (p : Place) : Bool :=
  if d.isLenient then indent ≤ p.column || (restOfLine? behind).isSome else inFlow || !keyAllowed

/-- Passes over blanks, comments and line ends; on a new line of a block a key may begin. -/
def skipSpace (d : Dialect) (indent : Nat) (inFlow keyAllowed inComment : Bool) :
    List Char → Place → Bool × List Char × Place
  | [], p => (keyAllowed, [], p)
  | c :: cs, p =>
    if isBreak c then skipSpace d indent inFlow (keyAllowed || !inFlow) false cs p.down
    else if inComment || c == ' ' || (c == '\t' && tabPasses d indent inFlow keyAllowed cs p)
        || (c == byteOrderMark && p.column == 0 && !d.isLenient) then
      skipSpace d indent inFlow keyAllowed inComment cs (p.right 1)
    else if c == '#' then skipSpace d indent inFlow keyAllowed true cs (p.right 1)
    else (keyAllowed, c :: cs, p)

def skipToToken (d : Dialect) (s : Scanner) : Scanner :=
  let (keyAllowed, rest, place) :=
    skipSpace d (s.indents.head?.getD 0) s.inFlow s.keyAllowed false s.rest s.place
  { s with keyAllowed, rest, place }

/-- Ends all blocks before a directive or a mark of a document. -/
def endBlocks (s : Scanner) : Option Scanner := do
  let s ← (s.closeBlocks none).dropKey
  return { s with keyAllowed := false }

def directive (d : Dialect) (s : Scanner) : Option Scanner := do
  let s ← s.endBlocks
  let (t, rest) ← directive? d (s.rest.drop 1)
  let rest ← restOfLine? rest
  return (s.emit t).moveTo rest s.place.down

def documentMark (s : Scanner) (t : Token) : Option Scanner := do
  let s ← s.endBlocks
  return (s.skip 3).emit t

def openFlow (s : Scanner) (t : Token) : Option Scanner := do
  let s ← s.noteKey
  return ({ s with pending := none, outer := s.pending :: s.outer, keyAllowed := true }.skip 1).emit t

def closeFlow (s : Scanner) (t : Token) : Option Scanner := do
  let s ← s.dropKey
  let s := match s.outer with
    | k :: ks => { s with pending := k, outer := ks }
    | [] => s
  return ({ s with keyAllowed := false }.skip 1).emit t

/-- The comma between the entries of a flow collection. -/
def flowEntry (s : Scanner) : Option Scanner := do
  let s ← s.dropKey
  return ({ s with keyAllowed := true }.skip 1).emit .flowEntry

def blockEntry (s : Scanner) : Option Scanner := do
  if !s.inFlow && !s.keyAllowed then none
  let s ← (s.openBlock s.place.column s.count .blockSequenceStart).dropKey
  return ({ s with keyAllowed := true }.skip 1).emit .blockEntry

def explicitKey (s : Scanner) : Option Scanner := do
  if !s.inFlow && !s.keyAllowed then none
  let s ← (s.openBlock s.place.column s.count .blockMappingStart).dropKey
  return ({ s with keyAllowed := !s.inFlow }.skip 1).emit .key

/-- Whether only tabs stand between a colon and a word behind it. -/
def tabsSetOff (behind : List Char) : Bool :=
  match behind, behind.dropWhile (· == '\t') with
  | '\t' :: _, c :: _ => isWord c
  | _, _ => false

/-- The colon before a value, which makes a key of what is pending. -/
def value (d : Dialect) (s : Scanner) : Option Scanner :=
  if d.isLenient && tabsSetOff (s.rest.drop 1) then none
  else match s.pending with
  | some k =>
    let s := (s.insertAt k.index .key).openBlock k.place.column k.index .blockMappingStart
    some (({ s with pending := none, keyAllowed := false }.skip 1).emit .value)
  | none => do
    if !s.inFlow && !s.keyAllowed then none
    let s := s.openBlock s.place.column s.count .blockMappingStart
    return ({ s with keyAllowed := !s.inFlow }.skip 1).emit .value

/-- Notes that a key may begin here and that none may begin directly behind the token to come. -/
def beginNode (s : Scanner) : Option Scanner := do
  let s ← s.noteKey
  return { s with keyAllowed := false }

/-- An anchor, or a reference to one. -/
def anchor (s : Scanner) (make : String → Token) : Option Scanner := do
  let s ← s.beginNode
  let (name, rest) ← anchorName? (s.rest.drop 1)
  return (s.emit (make (String.ofList name))).moveTo rest (s.place.right (name.length + 1))

def tag (s : Scanner) : Option Scanner := do
  let s ← s.beginNode
  let (t, rest) ← tag? s.inFlow (s.rest.drop 1)
  return (s.emit t).moveTo rest (s.place.right (s.rest.length - rest.length))

def block (s : Scanner) (style : Style) : Option Scanner := do
  let s ← s.dropKey
  let piece ← blockScalar (style == .literal) s.indents.head? (s.rest.drop 1) s.place
  return ({ s with keyAllowed := true }.emit (.scalar piece.value style)).moveTo piece.rest piece.place

def quoted (s : Scanner) (style : Style) : Option Scanner := do
  let s ← s.beginNode
  let read := if style == .singleQuoted then singleQuoted else doubleQuoted
  let piece ← read [] .none (s.rest.drop 1) (s.place.right 1)
  return (s.emit (.scalar piece.value style)).moveTo piece.rest piece.place

def plainText (d : Dialect) (s : Scanner) : Option Scanner := do
  let s ← s.beginNode
  let least := match s.indents with
    | n :: _ => n + 1
    | [] => 0
  let piece ← plain d s.inFlow least [] .none s.rest s.place
  let (text, endsLine) := piece.value
  return ({ s with keyAllowed := s.keyAllowed || endsLine }.emit (.scalar text .plain)).moveTo
    piece.rest piece.place

/-- Whether a plain text can begin here; the signs of other tokens are tried before. -/
def plainBegins (inFlow : Bool) : List Char → Bool
  | [] => false
  | '-' :: c :: _ => !isSpace c
  | '-' :: [] => true
  | '?' :: cs => !inFlow && !atGap cs
  | ':' :: cs => !inFlow && !atGap cs
  | c :: _ => !(isSpace c || isBreak c || ",[]\x7b\x7d#&*!|>'\"%@`".toList.contains c)

def token (d : Dialect) (s : Scanner) : Option Scanner :=
  match s.rest with
  | [] => some s
  | c :: cs =>
    if s.place.column == 0 && c == '%' then s.directive d
    else if s.place.column == 0 && atDocumentMark s.rest then
      s.documentMark (if c == '-' then .documentStart else .documentEnd)
    else if c == '[' then s.openFlow .flowSequenceStart
    else if c == '{' then s.openFlow .flowMappingStart
    else if c == ']' then s.closeFlow .flowSequenceEnd
    else if c == '}' then s.closeFlow .flowMappingEnd
    else if c == ',' then s.flowEntry
    else if c == '-' && atGap cs then s.blockEntry
    else if c == '?' && (s.inFlow || atGap cs) then s.explicitKey
    else if c == ':' && (s.inFlow || atGap cs) then s.value d
    else if c == '*' then s.anchor .reference
    else if c == '&' then s.anchor .anchor
    else if c == '!' then s.tag
    else if c == '|' && !s.inFlow then s.block .literal
    else if c == '>' && !s.inFlow then s.block .folded
    else if c == '\'' then s.quoted .singleQuoted
    else if c == '"' then s.quoted .doubleQuoted
    else if plainBegins s.inFlow s.rest then s.plainText d
    else none

/-- Reads tokens to the end of the text, at most as many as there is fuel. -/
def run (d : Dialect) : Nat → Scanner → Option Scanner
  | 0, _ => none
  | fuel + 1, s => do
    let s ← (s.skipToToken d).dropStaleKeys
    match s.rest with
    | [] => ({ s with place := s.place.down }.closeBlocks none).dropKey
    | _ :: _ => run d fuel (← (s.closeBlocks (some s.place.column)).token d)

end Scanner

/-- The tokens of a text; nothing if the text is bad. Every token takes at least one character. -/
def Token.scan (d : Dialect) (text : List Char) : Option (List Token) :=
  if text.all d.admits then
    (Scanner.run d (text.length + 2) (.start (d.lines text))).map (·.tokens.reverse)
  else none

end Overlays.Yaml
