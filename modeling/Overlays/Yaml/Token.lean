set_option autoImplicit false
set_option relaxedAutoImplicit false

namespace Overlays.Yaml

/-- How a scalar is written. -/
inductive Style where
  | plain
  | singleQuoted
  | doubleQuoted
  | literal
  | folded
deriving DecidableEq, Inhabited

/-- One token; the token that ends a text is the end of the list of tokens. -/
inductive Token where
  | versionDirective (major minor : Nat)
  | tagDirective (handle lead : String)
  | reservedDirective
  | documentStart
  | documentEnd
  | blockSequenceStart
  | blockMappingStart
  | blockEnd
  | flowSequenceStart
  | flowSequenceEnd
  | flowMappingStart
  | flowMappingEnd
  | blockEntry
  | flowEntry
  | key
  | value
  | reference (name : String)
  | anchor (name : String)
  | tag (handle suffix : String)
  | scalar (text : String) (style : Style)
deriving DecidableEq, Inhabited

def byteOrderMark : Char := '\uFEFF'

/-- The separators that end a line and stay themselves in a text. -/
def isSeparator (c : Char) : Bool := c == '\u2028' || c == '\u2029'

/-- Whether a character ends a line, once every other line end is written as a line feed. -/
def isBreak (c : Char) : Bool := c == '\n' || isSeparator c

def isSpace (c : Char) : Bool := c == ' ' || c == '\t'

/-- Letters, digits, the underscore and the hyphen of ASCII, of which names are made. -/
def isWord (c : Char) : Bool :=
  ('0' ≤ c && c ≤ '9') || ('A' ≤ c && c ≤ 'Z') || ('a' ≤ c && c ≤ 'z') || c == '_' || c == '-'

/-- Whether a rest of a text is over or begins with a space, a tab or the end of a line. -/
def atGap : List Char → Bool
  | [] => true
  | c :: _ => isSpace c || isBreak c

/-- Whether a rest of a text, seen from the start of a line, marks the start or the end of a document. -/
def atDocumentMark : List Char → Bool
  | '-' :: '-' :: '-' :: cs => atGap cs
  | '.' :: '.' :: '.' :: cs => atGap cs
  | _ => false

/-- A place in a text, by line and column; both count from zero. -/
structure Place where
  line : Nat
  column : Nat
deriving DecidableEq, Inhabited

namespace Place

/-- The place `n` characters further on the same line. -/
def right (p : Place) (n : Nat) : Place := ⟨p.line, p.column + n⟩

def down (p : Place) : Place := ⟨p.line + 1, 0⟩

def after (p : Place) (c : Char) : Place := if isBreak c then p.down else p.right 1

end Place

/-- What two kinds of YAML text treat differently. -/
structure Dialect where
  /-- Whether a character may occur in a text at all. -/
  admits : Char → Bool
  /-- Whether a character ends a line, besides line feeds and carriage returns. -/
  isLineEnd : Char → Bool
  /-- Whether more is let pass: unknown directives and versions, tabs in front of a line, a colon directly before
  a mark of a flow collection, and marks that end documents before the first one. Byte order marks are then part
  of the text, a tab alone may not set a word off from the colon before it, and the last line is always ended. -/
  isLenient : Bool

/-- The dialect of state files: control characters are refused and next-line characters end lines. -/
def Dialect.strict : Dialect where
  admits c :=
    let n := c.toNat
    n == 9 || n == 10 || n == 13 || (0x20 ≤ n && n ≤ 0x7E) || n == 0x85 || (0xA0 ≤ n && n ≤ 0xFFFD)
      || 0x10000 ≤ n
  isLineEnd c := c == '\u0085'
  isLenient := false

/-- The dialect of settings files: any character goes. -/
def Dialect.lenient : Dialect where
  admits _ := true
  isLineEnd _ := false
  isLenient := true

/-- Writes each line end as one line feed. -/
def Dialect.unifyLineEnds (d : Dialect) : List Char → List Char
  | '\r' :: '\n' :: cs => '\n' :: d.unifyLineEnds cs
  | c :: cs => (if c == '\r' || d.isLineEnd c then '\n' else c) :: d.unifyLineEnds cs
  | [] => []

def Dialect.lines (d : Dialect) (text : List Char) : List Char :=
  let cs := d.unifyLineEnds text
  if d.isLenient && cs.getLast? != some '\n' then cs ++ ['\n'] else cs

end Overlays.Yaml
