import Overlays.Proofs.Yaml.Blocks
import Overlays.Proofs.Yaml.Quotes
import Overlays.Proofs.Yaml.Scanning

set_option autoImplicit false
set_option relaxedAutoImplicit false

namespace Overlays.Yaml

open Quoting

namespace Phrase

variable {p : Phrase}

private theorem settled_cases (p : Phrase) :
    p.settled = .plain ∧ plainAllowed p.text.toList = true ∨
      p.settled = .singleQuoted ∧ singleAllowed p.text.toList = true ∨
      p.settled = .literal ∧ literalAllowed p.text.toList = true ∨ p.settled = .doubleQuoted := by
  rcases settle_cases p.style p.text.toList with ⟨plain, -, allowed⟩ | quoted | ⟨literal, -, allowed⟩ | escaped
  · exact .inl ⟨plain, allowed⟩
  · exact .inr (.inl quoted)
  · exact .inr (.inr (.inl ⟨literal, allowed⟩))
  · exact .inr (.inr (.inr escaped))

private theorem write_of_plain (settled : p.settled = .plain) (indent : Nat) : p.write indent = p.text.toList := by
  rw [write, settled]
  rfl

private theorem write_of_singleQuoted (settled : p.settled = .singleQuoted) (indent : Nat) (r : List Char) :
    p.write indent ++ r = '\'' :: (singleBody indent false p.text.toList ++ '\'' :: r) := by
  rw [write, settled, Quoting.write]
  simp

private theorem write_of_doubleQuoted (settled : p.settled = .doubleQuoted) (indent : Nat) (r : List Char) :
    p.write indent ++ r = '"' :: (doubleBody p.text.toList ++ '"' :: r) := by
  rw [write, settled, Quoting.write]
  simp

private theorem write_of_literal (settled : p.settled = .literal) (indent : Nat) (r : List Char) :
    p.write indent ++ r =
      '|' :: (Quoting.blockSigns p.text.toList ++ '\n' :: (blockBody indent true p.text.toList ++ r)) := by
  rw [write, settled, Quoting.write]
  simp

private theorem lineEnd_of_literal (settled : p.settled = .literal) :
    p.lineEnd = if p.text.toList.getLast?.any isLineEnd then [] else ['\n'] := by
  rw [lineEnd, settled]
  rfl

private theorem lineEnd_eq (flat : p.settled = .plain ∨ p.settled = .singleQuoted ∨ p.settled = .doubleQuoted) :
    p.lineEnd = ['\n'] := by
  rcases flat with settled | settled | settled
  all_goals
    rw [lineEnd, settled]
    rfl

end Phrase

namespace Scanner

section Scalars

variable {place : Place} {tokens : List Token} {indents : List Nat} {keyAllowed : Bool}

/-- The key that a value becomes if a colon follows it. -/
def keyAt (place : Place) (tokens : List Token) (indents : List Nat) (keyAllowed : Bool) : Option PendingKey :=
  if keyAllowed then some ⟨indents.head? == some place.column, tokens.length, place⟩ else none

theorem not_required_of_keyAt (tokens : List Token) {column : Nat} (outer : List Nat) (keyAllowed : Bool)
    (inner : column < place.column) :
    ∀ k ∈ keyAt place tokens (column :: outer) keyAllowed, k.isRequired = false ∧ k.place = place := by
  intro k pending
  cases keyAllowed with
  | false => cases pending
  | true =>
    cases pending
    exact ⟨by simpa using Nat.ne_of_lt inner, rfl⟩

private theorem beginNode_upon (rest : List Char) :
    (upon rest place tokens indents keyAllowed).beginNode =
      some ⟨rest, place, tokens, tokens.length, indents, false, keyAt place tokens indents keyAllowed, []⟩ := by
  cases keyAllowed <;> rfl

/-- The least column of a line that continues a plain text. -/
private def least : List Nat → Nat
  | n :: _ => n + 1
  | [] => 0

private theorem least_le (fits : ∀ i ∈ indents.head?, i ≤ place.column) : least indents ≤ place.column + 1 := by
  cases indents with
  | nil => exact Nat.zero_le _
  | cons i outer => exact Nat.succ_le_succ (fits i rfl)

private theorem ne_mark {c : Char} {r : List Char} (begins : BeginsPlainly c r) {d : Char}
    (mark : d ∈ "#,[]\x7b\x7d&*!|>'\"%@`".toList) : c ≠ d := by
  rintro rfl
  have contained : "#,[]\x7b\x7d&*!|>'\"%@`".toList.contains c = true := List.contains_iff_mem.mpr mark
  rw [begins.noMark] at contained
  cases contained

theorem solid_write (p : Phrase) (indent : Nat) (tail : List Char) :
    p.write indent ≠ [] ∧ Solid (p.write indent ++ tail) := by
  obtain ⟨c, cs, written, solid⟩ : ∃ c cs, p.write indent = c :: cs ∧
      isSpace c = false ∧ isBreak c = false ∧ c ≠ '#' ∧ c ≠ byteOrderMark := by
    rw [Phrase.write]
    rcases p.settled_cases with ⟨settled, allowed⟩ | ⟨settled, -⟩ | ⟨settled, -⟩ | settled
    · obtain ⟨c, cs, text, isPlain⟩ := isPlain_of_allowed allowed
      have begins := isPlain.begins [':'] (.inl rfl)
      have printable := isPlain.printable
      rw [List.all_cons, Bool.and_eq_true] at printable
      rw [settled, text]
      exact ⟨c, cs, rfl, begins.noSpace, begins.noBreak, ne_mark begins (by decide),
        ne_byteOrderMark_of_isPrintable printable.1⟩
    · rw [settled]
      exact ⟨_, _, rfl, by decide⟩
    · rw [settled]
      exact ⟨_, _, rfl, by decide⟩
    · rw [settled]
      exact ⟨_, _, rfl, by decide⟩
  rw [written]
  refine ⟨by simp, ?_⟩
  rintro d ⟨⟩
  exact solid

private theorem plainBegins_of {c : Char} {r : List Char} (begins : BeginsPlainly c r) :
    plainBegins false (c :: r) = true := by
  unfold plainBegins
  split
  · rename_i same
    cases same
  · rename_i same
    cases same
    have gap := begins.goesOn (.inl rfl)
    simp only [atGap, Bool.or_eq_false_iff] at gap
    rw [gap.1]
    rfl
  · rfl
  · rename_i same
    cases same
    rw [begins.goesOn (.inr (.inl rfl))]
    rfl
  · rename_i same
    cases same
    rw [begins.goesOn (.inr (.inr rfl))]
    rfl
  · rename_i same
    cases same
    have other : ",[]\x7b\x7d#&*!|>'\"%@`".toList.contains c = false := by
      have marks : ",[]\x7b\x7d#&*!|>'\"%@`".toList ⊆ "#,[]\x7b\x7d&*!|>'\"%@`".toList := by decide
      rw [← Bool.not_eq_true, List.contains_iff_mem]
      intro mark
      exact ne_mark begins (marks mark) rfl
    rw [begins.noSpace, begins.noBreak, other]
    rfl

private theorem token_plain {c : Char} {r : List Char} (begins : BeginsPlainly c r) :
    (upon (c :: r) place tokens indents keyAllowed).token .strict =
      (upon (c :: r) place tokens indents keyAllowed).plainText .strict := by
  have percent : c ≠ '%' := ne_mark begins (by decide)
  have brackets : c ≠ '[' ∧ c ≠ ']' ∧ c ≠ '{' ∧ c ≠ '}' ∧ c ≠ ',' := by
    refine ⟨?_, ?_, ?_, ?_, ?_⟩ <;> exact ne_mark begins (by decide)
  have properties : c ≠ '*' ∧ c ≠ '&' ∧ c ≠ '!' := by
    refine ⟨?_, ?_, ?_⟩ <;> exact ne_mark begins (by decide)
  have styles : c ≠ '|' ∧ c ≠ '>' ∧ c ≠ '\'' ∧ c ≠ '"' := by
    refine ⟨?_, ?_, ?_, ?_⟩ <;> exact ne_mark begins (by decide)
  have sign (d : Char) (is_sign : d = '-' ∨ d = '?' ∨ d = ':') : (c == d && atGap r) = false := by
    by_cases same : c = d
    · rw [begins.goesOn (same ▸ is_sign), Bool.and_false]
    · rw [beq_false_of_ne same, Bool.false_and]
  have signs : (c == '-' && atGap r) = false ∧ (c == '?' && atGap r) = false ∧ (c == ':' && atGap r) = false :=
    ⟨sign _ (by decide), sign _ (by decide), sign _ (by decide)⟩
  rw [token]
  simp [upon, inFlow, percent, brackets, properties, styles, signs, plainBegins_of begins, begins.noDocumentMark]

private theorem token_quoted {r : List Char} (mark : Char) (style : Style)
    (quotes : mark = '\'' ∧ style = .singleQuoted ∨ mark = '"' ∧ style = .doubleQuoted) :
    (upon (mark :: r) place tokens indents keyAllowed).token .strict =
      (upon (mark :: r) place tokens indents keyAllowed).quoted style := by
  rcases quotes with ⟨rfl, rfl⟩ | ⟨rfl, rfl⟩
  · rw [token]
    simp [upon, atDocumentMark, inFlow]
  · rw [token]
    simp [upon, atDocumentMark, inFlow]

private theorem token_block {r : List Char} :
    (upon ('|' :: r) place tokens indents keyAllowed).token .strict =
      (upon ('|' :: r) place tokens indents keyAllowed).block .literal := by
  rw [token]
  simp [upon, atDocumentMark, inFlow]

/-- The scanner behind a scalar that began at `place`. -/
private def behind (rest : List Char) (place' : Place) (text : String) (style : Style) (place : Place)
    (tokens : List Token) (indents : List Nat) (keyAllowed keyAllowed' : Bool) : Scanner :=
  ⟨rest, place', .scalar text style :: tokens, tokens.length + 1, indents, keyAllowed',
    keyAt place tokens indents keyAllowed, []⟩

private theorem plainText_eq {rest rest' : List Char} {place' : Place} {text : String} {endsLine : Bool}
    (read : plain .strict false (least indents) [] .none rest place = some ⟨(text, endsLine), rest', place'⟩) :
    (upon rest place tokens indents keyAllowed).plainText .strict =
      some (behind rest' place' text .plain place tokens indents keyAllowed endsLine) := by
  rw [plainText, beginNode_upon]
  cases indents with
  | nil =>
    change (plain .strict false (least []) [] .none rest place).bind _ = _
    rw [read]
    rfl
  | cons i outer =>
    change (plain .strict false (least (i :: outer)) [] .none rest place).bind _ = _
    rw [read]
    rfl

private theorem quoted_single {r rest' : List Char} {place' : Place} {text : String}
    (read : singleQuoted [] .none r (place.right 1) = some ⟨text, rest', place'⟩) :
    (upon ('\'' :: r) place tokens indents keyAllowed).token .strict =
      some (behind rest' place' text .singleQuoted place tokens indents keyAllowed false) := by
  rw [token_quoted '\'' .singleQuoted (.inl ⟨rfl, rfl⟩), quoted, beginNode_upon]
  change (singleQuoted [] .none r (place.right 1)).bind _ = _
  rw [read]
  rfl

private theorem quoted_double {r rest' : List Char} {place' : Place} {text : String}
    (read : doubleQuoted [] .none r (place.right 1) = some ⟨text, rest', place'⟩) :
    (upon ('"' :: r) place tokens indents keyAllowed).token .strict =
      some (behind rest' place' text .doubleQuoted place tokens indents keyAllowed false) := by
  rw [token_quoted '"' .doubleQuoted (.inr ⟨rfl, rfl⟩), quoted, beginNode_upon]
  change (doubleQuoted [] .none r (place.right 1)).bind _ = _
  rw [read]
  rfl

private theorem block_literal {r rest' : List Char} {place' : Place} {text : String}
    (read : blockScalar true indents.head? r place = some ⟨text, rest', place'⟩) :
    (upon ('|' :: r) place tokens indents keyAllowed).token .strict =
      some (upon rest' place' (.scalar text .literal :: tokens) indents true) := by
  rw [token_block, block]
  change (blockScalar true indents.head? r place).bind _ = _
  rw [read]
  rfl

section Keys

variable {k : Phrase} {indent : Nat} {r : List Char}

/-- A key without a mark is read up to its colon, which is near. -/
private def TakesKey (k : Phrase) (indent : Nat) (r : List Char) (place : Place) (tokens : List Token)
    (indents : List Nat) : Prop :=
  ∃ n isRequired, n ≤ 1024 ∧ (upon (k.write indent ++ ':' :: r) place tokens indents true).token .strict =
    some ⟨':' :: r, place.right n, .scalar k.text k.settled :: tokens, tokens.length + 1, indents, false,
      some ⟨isRequired, tokens.length, place⟩, []⟩

private theorem takesKey_plain (settled : k.settled = .plain) (allowed : plainAllowed k.text.toList = true)
    (short : k.text.toList.length ≤ 128) (gap : atGap r = true) (fits : ∀ i ∈ indents.head?, i ≤ place.column) :
    TakesKey k indent r place tokens indents := by
  obtain ⟨c, cs, text, isPlain⟩ := isPlain_of_allowed allowed
  have read := plain_before_colon (p := place) isPlain (least_le fits) gap
  have begins := isPlain.begins (':' :: r) (.inl rfl)
  rw [← text, String.ofList_toList] at read
  refine ⟨k.text.toList.length, indents.head? == some place.column, by omega, ?_⟩
  rw [text] at read
  rw [Phrase.write_of_plain settled, text, List.cons_append, token_plain begins, settled]
  exact plainText_eq read

private theorem takesKey_singleQuoted (settled : k.settled = .singleQuoted)
    (allowed : singleAllowed k.text.toList = true) (short : k.text.toList.length ≤ 128)
    (sole : isMultiline k.text.toList = false) (positive : 0 < indent) : TakesKey k indent r place tokens indents := by
  have read := singleQuoted_write (p := place.right 1) (r := ':' :: r) allowed positive (by simp) (Nat.succ_pos _)
  have unbroken := singleBody_of_sole sole (all_of_isClean (Bool.and_eq_true_iff.mp allowed).1) indent
  have length := length_singleBody_le sole indent
  have closed : (singleBody indent false k.text.toList ++ ['\'']).all (!isBreak ·) = true := by
    rw [List.all_append, unbroken]
    decide
  rw [Place.afterAll_of_no_break closed, Place.right_right, String.ofList_toList] at read
  refine ⟨1 + (singleBody indent false k.text.toList ++ ['\'']).length, indents.head? == some place.column, ?_, ?_⟩
  · rw [List.length_append, List.length_singleton]
    omega
  · rw [Phrase.write_of_singleQuoted settled, settled]
    exact quoted_single read

private theorem takesKey_doubleQuoted (settled : k.settled = .doubleQuoted) (short : k.text.utf8ByteSize ≤ 128) :
    TakesKey k indent r place tokens indents := by
  have read := doubleQuoted_write (p := place.right 1) k.text.toList (Nat.succ_pos _) (':' :: r)
  have length := length_doubleBody_le k.text.toList
  rw [Place.right_right, String.ofList_toList] at read
  rw [String.ofList_toList] at length
  refine ⟨1 + ((doubleBody k.text.toList).length + 1), indents.head? == some place.column, by omega, ?_⟩
  rw [Phrase.write_of_doubleQuoted settled, settled]
  exact quoted_double read

theorem token_key (place : Place) (tokens : List Token) (simple : k.isSimpleKey = true)
    (flat : k.settled ≠ .literal) (gap : atGap r = true) (fits : ∀ i ∈ indents.head?, i ≤ place.column)
    (positive : 0 < indent) :
    ∃ n isRequired, n ≤ 1024 ∧ (upon (k.write indent ++ ':' :: r) place tokens indents true).token .strict =
      some ⟨':' :: r, place.right n, .scalar k.text k.settled :: tokens, tokens.length + 1, indents, false,
        some ⟨isRequired, tokens.length, place⟩, []⟩ := by
  obtain ⟨sole, short⟩ : isMultiline k.text.toList = false ∧ k.text.utf8ByteSize ≤ 128 := by
    simpa [Phrase.isSimpleKey] using simple
  have length := length_le_utf8ByteSize k.text.toList
  rw [String.ofList_toList] at length
  have few : k.text.toList.length ≤ 128 := Nat.le_trans length short
  rcases k.settled_cases with ⟨settled, allowed⟩ | ⟨settled, allowed⟩ | ⟨settled, -⟩ | settled
  · exact takesKey_plain settled allowed few gap fits
  · exact takesKey_singleQuoted settled allowed few sole positive
  · exact absurd settled flat
  · exact takesKey_doubleQuoted settled short

end Keys

section Values

variable {p : Phrase} {outer : List Nat} {column n : Nat} {body : List Char}

/-- A value is read up to the next line that is not part of it. -/
private def TakesValue (rest : List Char) (place : Place) (tokens : List Token) (indents : List Nat)
    (keyAllowed : Bool) (body : List Char) (n : Nat) (t : Token) : Prop :=
  ∃ s', (upon rest place tokens indents keyAllowed).token .strict = some s' ∧ s'.rest.length < rest.length ∧
    s'.FacesAt body n true indents (t :: tokens)

private theorem takesValue_plain (settled : p.settled = .plain) (allowed : plainAllowed p.text.toList = true)
    (inner : column < place.column) (left : n ≤ column) (solid : Solid body) :
    TakesValue (p.write (column + 2) ++ (p.lineEnd ++ (spaces n ++ body))) place tokens (column :: outer) keyAllowed
      body n (.scalar p.text p.settled) := by
  obtain ⟨c, cs, text, isPlain⟩ := isPlain_of_allowed allowed
  have noted := not_required_of_keyAt tokens outer keyAllowed inner
  have fits : ∀ i ∈ (column :: outer).head?, i ≤ place.column := by
    rintro i ⟨⟩
    exact Nat.le_of_lt inner
  have read := plain_before_line (p := place) isPlain (least_le fits) (Nat.lt_succ_of_le left) solid
  have begins := isPlain.begins ('\n' :: (spaces n ++ body)) (.inr rfl)
  rw [← text, String.ofList_toList, text] at read
  rw [Phrase.write_of_plain settled, Phrase.lineEnd_eq (.inl settled), text, settled]
  refine ⟨_, (token_plain begins).trans (plainText_eq read), ?_, ?_⟩
  · simp only [behind, List.length_cons, List.length_append]
    omega
  · refine facesAt_here solid fun k pending => ⟨(noted k pending).1, ?_⟩
    rw [(noted k pending).2]
    exact Nat.lt_succ_self _

private theorem takesValue_of_behind {rest : List Char} {place' : Place} {text : String} {style : Style}
    (inner : column < place.column) (solid : Solid body)
    (read : (upon rest place tokens (column :: outer) keyAllowed).token .strict =
      some (behind ('\n' :: (spaces n ++ body)) place' text style place tokens (column :: outer) keyAllowed false))
    (below : place.line ≤ place'.line) (longer : (spaces n ++ body).length + 1 < rest.length) :
    TakesValue rest place tokens (column :: outer) keyAllowed body n (.scalar text style) := by
  refine ⟨_, read, longer, ?_⟩
  have noted := not_required_of_keyAt tokens outer keyAllowed inner
  refine facesAt_line _ _ _ _ _ solid n fun k pending => ⟨(noted k pending).1, ?_⟩
  rw [(noted k pending).2]
  exact below

private theorem takesValue_singleQuoted (settled : p.settled = .singleQuoted)
    (allowed : singleAllowed p.text.toList = true) (inner : column < place.column) (solid : Solid body) :
    TakesValue (p.write (column + 2) ++ (p.lineEnd ++ (spaces n ++ body))) place tokens (column :: outer) keyAllowed
      body n (.scalar p.text p.settled) := by
  have read := singleQuoted_write (p := place.right 1) (r := '\n' :: (spaces n ++ body)) allowed
    (Nat.succ_pos (column + 1)) (by simp) (Nat.succ_pos _)
  rw [String.ofList_toList] at read
  rw [Phrase.lineEnd_eq (.inr (.inl settled)), Phrase.write_of_singleQuoted settled, settled]
  refine takesValue_of_behind inner solid (quoted_single read) (Place.line_le_afterAll (place.right 1) _) ?_
  simp only [List.length_cons, List.length_append]
  omega

private theorem takesValue_doubleQuoted (settled : p.settled = .doubleQuoted) (inner : column < place.column)
    (solid : Solid body) :
    TakesValue (p.write (column + 2) ++ (p.lineEnd ++ (spaces n ++ body))) place tokens (column :: outer) keyAllowed
      body n (.scalar p.text p.settled) := by
  have read := doubleQuoted_write (p := place.right 1) p.text.toList (Nat.succ_pos _) ('\n' :: (spaces n ++ body))
  rw [String.ofList_toList] at read
  rw [Phrase.lineEnd_eq (.inr (.inr settled)), Phrase.write_of_doubleQuoted settled, settled]
  refine takesValue_of_behind inner solid (quoted_double read) (Nat.le_refl _) ?_
  simp only [List.length_cons, List.length_append]
  omega

private theorem takesValue_literal (settled : p.settled = .literal) (allowed : literalAllowed p.text.toList = true)
    (left : n ≤ column) (solid : Solid body) :
    TakesValue (p.write (column + 2) ++ (p.lineEnd ++ (spaces n ++ body))) place tokens (column :: outer) keyAllowed
      body n (.scalar p.text p.settled) := by
  obtain ⟨line, below, read⟩ := blockScalar_write allowed left solid place
  rw [String.ofList_toList] at read
  rw [Phrase.write_of_literal settled, Phrase.lineEnd_of_literal settled, settled]
  refine ⟨_, block_literal read, ?_, facesAt_here solid (by simp)⟩
  simp only [upon, List.length_cons, List.length_append]
  omega

theorem token_value (place : Place) (tokens : List Token) (outer : List Nat) (keyAllowed : Bool) (p : Phrase)
    (inner : column < place.column) (left : n ≤ column) (solid : Solid body) :
    ∃ s', (upon (p.write (column + 2) ++ (p.lineEnd ++ (spaces n ++ body))) place tokens (column :: outer)
        keyAllowed).token .strict = some s' ∧
      s'.rest.length < (p.write (column + 2) ++ (p.lineEnd ++ (spaces n ++ body))).length ∧
      s'.FacesAt body n true (column :: outer) (.scalar p.text p.settled :: tokens) := by
  rcases p.settled_cases with ⟨settled, allowed⟩ | ⟨settled, allowed⟩ | ⟨settled, allowed⟩ | settled
  · exact takesValue_plain settled allowed inner left solid
  · exact takesValue_singleQuoted settled allowed inner solid
  · exact takesValue_literal settled allowed left solid
  · exact takesValue_doubleQuoted settled inner solid

end Values

end Scalars

end Scanner

end Overlays.Yaml
