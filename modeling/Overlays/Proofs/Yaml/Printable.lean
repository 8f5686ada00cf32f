import Mathlib.Data.List.Basic
import Overlays.Yaml.Outline
import Overlays.Yaml.Scanner

set_option autoImplicit false
set_option relaxedAutoImplicit false

namespace Overlays.Yaml

namespace Quoting

private theorem admits_of_isPrintable {c : Char} (h : isPrintable c = true) : Dialect.strict.admits c = true := by
  simp only [isPrintable, Bool.or_eq_true, Bool.and_eq_true, beq_iff_eq, decide_eq_true_eq] at h
  simp only [Dialect.strict, Bool.or_eq_true, Bool.and_eq_true, beq_iff_eq, decide_eq_true_eq]
  omega

private theorem ne_rewritten_of_isPrintable {c : Char} (h : isPrintable c = true) : c ≠ '\r' ∧ c ≠ '\u0085' := by
  constructor
  · rintro rfl
    exact absurd h (by decide)
  · rintro rfl
    exact absurd h (by decide)

theorem isLineEnd_of_isPrintable {c : Char} (h : isPrintable c = true) : isLineEnd c = isBreak c := by
  obtain ⟨return_differs, next_differs⟩ := ne_rewritten_of_isPrintable h
  rw [isLineEnd, beq_false_of_ne return_differs, beq_false_of_ne next_differs, Bool.or_false, Bool.or_false]

theorem isSpace_of_isPrintable {c : Char} (h : isPrintable c = true) : isSpace c = (c == ' ') := by
  have differs : c ≠ '\t' := by
    rintro rfl
    exact absurd h (by decide)
  simp [isSpace, differs]

theorem ne_byteOrderMark_of_isPrintable {c : Char} (h : isPrintable c = true) : c ≠ byteOrderMark := by
  rintro rfl
  exact absurd h (by decide)

@[simp] theorem all_spaces (n : Nat) : (spaces n).all isPrintable = true := by
  rw [spaces, List.all_replicate]
  split
  · rfl
  · decide

@[simp] theorem all_indented (isLineStart : Bool) (n : Nat) : (indented isLineStart n).all isPrintable = true := by
  cases isLineStart
  · rfl
  · exact all_spaces n

section Escapes

private theorem isPrintable_hexDigit {d : Nat} (h : d < 16) : isPrintable (hexDigit d) = true := by
  have all : ∀ d : Fin 16, isPrintable (hexDigit d.val) = true := by decide
  exact all ⟨d, h⟩

private theorem all_hexDigits (width n : Nat) : (hexDigits width n).all isPrintable = true := by
  induction width generalizing n with
  | zero => rfl
  | succ width ih =>
    have last := isPrintable_hexDigit (Nat.mod_lt n (show 16 > 0 by decide))
    simp [hexDigits, List.all_append, ih, last]

private theorem all_escape (c : Char) : (escape c).all isPrintable = true := by
  unfold escape
  split
  case h_16 =>
    have marks : isPrintable 'x' = true ∧ isPrintable 'u' = true ∧ isPrintable 'U' = true := by decide
    split
    · rw [List.all_cons, marks.1, all_hexDigits, Bool.and_self]
    · split
      · rw [List.all_cons, marks.2.1, all_hexDigits, Bool.and_self]
      · rw [List.all_cons, marks.2.2, all_hexDigits, Bool.and_self]
  all_goals decide

private theorem all_doubleBody (cs : List Char) : (doubleBody cs).all isPrintable = true := by
  induction cs with
  | nil => rfl
  | cons c cs ih =>
    rw [doubleBody, List.flatMap_cons, List.all_append, Bool.and_eq_true]
    refine ⟨?_, ih⟩
    split
    · rw [List.all_cons, all_escape, Bool.and_true]
      decide
    · rename_i as_is
      simp only [Bool.or_eq_true, Bool.not_eq_true', not_or, Bool.not_eq_false] at as_is
      simp [as_is.1.1.1]

end Escapes

private theorem all_singleBody {cs : List Char} (clean : cs.all isPrintable = true) (indent : Nat)
    (isLineStart : Bool) : (singleBody indent isLineStart cs).all isPrintable = true := by
  induction cs generalizing isLineStart with
  | nil => exact all_indented isLineStart indent
  | cons c cs ih =>
    rw [List.all_cons, Bool.and_eq_true] at clean
    have feed : isPrintable '\n' = true := by decide
    have quote : isPrintable '\'' = true := by decide
    rw [singleBody]
    split
    · split <;> simp [feed, clean.1, ih clean.2]
    · split
      · simp [clean.1, ih clean.2]
      · split <;> simp [quote, clean.1, ih clean.2, List.all_append]

private theorem all_blockBody {cs : List Char} (clean : cs.all isPrintable = true) (indent : Nat) (isLineStart : Bool) :
    (blockBody indent isLineStart cs).all isPrintable = true := by
  induction cs generalizing isLineStart with
  | nil => rfl
  | cons c cs ih =>
    rw [List.all_cons, Bool.and_eq_true] at clean
    rw [blockBody]
    split <;> simp [List.all_append, clean.1, ih clean.2]

private theorem all_blockSigns (cs : List Char) : (blockSigns cs).all isPrintable = true := by
  have signs : isPrintable '2' = true ∧ isPrintable '-' = true ∧ isPrintable '+' = true := by decide
  unfold blockSigns
  rw [List.all_append, Bool.and_eq_true]
  constructor
  · cases cs with
    | nil => rfl
    | cons c cs =>
      dsimp only
      split <;> simp [signs]
  · split
    · simp [signs]
    · split
      · simp [signs]
      · split
        · simp [signs]
        · split <;> simp [signs]

private theorem all_write {style : Style} {cs : List Char} (clean : style ≠ .doubleQuoted → cs.all isPrintable = true)
    (indent : Nat) : (write indent style cs).all isPrintable = true := by
  have marks : isPrintable '\'' = true ∧ isPrintable '"' = true ∧ isPrintable '|' = true ∧ isPrintable '>' = true
      ∧ isPrintable '\n' = true := by decide
  cases style with
  | plain => exact clean (by decide)
  | singleQuoted => simp [write, marks, List.all_append, all_singleBody (clean (by decide))]
  | doubleQuoted => simp [write, marks, List.all_append, all_doubleBody]
  | literal => simp [write, marks, List.all_append, all_blockSigns, all_blockBody (clean (by decide))]
  | folded => simp [write, marks, List.all_append, all_blockSigns, all_blockBody (clean (by decide))]

theorem settle_cases (wanted : Style) (cs : List Char) :
    settle wanted cs = .plain ∧ wanted = .plain ∧ plainAllowed cs = true ∨
      settle wanted cs = .singleQuoted ∧ singleAllowed cs = true ∨
      settle wanted cs = .literal ∧ wanted = .literal ∧ literalAllowed cs = true ∨
      settle wanted cs = .doubleQuoted := by
  cases wanted with
  | plain =>
    rw [settle]
    split
    · rename_i allowed
      exact .inl ⟨rfl, rfl, allowed⟩
    · split
      · rename_i allowed
        exact .inr (.inl ⟨rfl, allowed⟩)
      · exact .inr (.inr (.inr rfl))
  | singleQuoted =>
    rw [settle]
    split
    · rename_i allowed
      exact .inr (.inl ⟨rfl, allowed⟩)
    · exact .inr (.inr (.inr rfl))
  | literal =>
    rw [settle]
    split
    · rename_i allowed
      exact .inr (.inr (.inl ⟨rfl, rfl, allowed⟩))
    · exact .inr (.inr (.inr rfl))
  | doubleQuoted => exact .inr (.inr (.inr rfl))
  | folded => exact .inr (.inr (.inr rfl))

private theorem isClean_of_plainAllowed {cs : List Char} (h : plainAllowed cs = true) : isClean cs = true := by
  simp only [plainAllowed, Bool.and_eq_true] at h
  exact h.1.1.1.1.1

private theorem isClean_of_settle {wanted : Style} {cs : List Char} (h : settle wanted cs ≠ .doubleQuoted) :
    isClean cs = true := by
  rcases settle_cases wanted cs with ⟨_, _, allowed⟩ | ⟨_, allowed⟩ | ⟨_, _, allowed⟩ | escaped
  · exact isClean_of_plainAllowed allowed
  · exact (Bool.and_eq_true_iff.mp allowed).1
  · exact (Bool.and_eq_true_iff.mp (Bool.and_eq_true_iff.mp allowed).1).2
  · exact absurd escaped h

theorem all_of_isClean {cs : List Char} (h : isClean cs = true) : cs.all isPrintable = true :=
  (Bool.and_eq_true_iff.mp h).1

end Quoting

open Quoting

private theorem Phrase.all_write (p : Phrase) (indent : Nat) : (p.write indent).all isPrintable = true :=
  Quoting.all_write (fun h => all_of_isClean (isClean_of_settle h)) indent

private theorem Phrase.all_lineEnd (p : Phrase) : p.lineEnd.all isPrintable = true := by
  rw [lineEnd]
  split
  · rfl
  · decide

namespace Outline

mutual

private theorem all_afterKey (indent : Nat) : (o : Outline) → (o.afterKey indent).all isPrintable = true
  | .scalar p => by
    have space : isPrintable ' ' = true := by decide
    simp [afterKey, List.all_append, space, p.all_write, p.all_lineEnd]
  | .sequence [] => by
    rw [afterKey]
    decide
  | .sequence (o :: os) => by
    rw [afterKey, List.all_cons, all_writeItems indent false (o :: os)]
    · rfl
    · nofun
  | .mapping [] => by
    rw [afterKey]
    decide
  | .mapping (e :: es) => by
    rw [afterKey, List.all_cons, all_writeEntries (indent + 2) false (e :: es)]
    · rfl
    · nofun

private theorem all_afterMark (indent : Nat) : (o : Outline) → (o.afterMark indent).all isPrintable = true
  | .scalar p => by
    have space : isPrintable ' ' = true := by decide
    simp [afterMark, List.all_append, space, p.all_write, p.all_lineEnd]
  | .sequence [] => by
    rw [afterMark]
    decide
  | .sequence (o :: os) => by
    rw [afterMark, List.all_cons, all_writeItems (indent + 2) true (o :: os)]
    · rfl
    · nofun
  | .mapping [] => by
    rw [afterMark]
    decide
  | .mapping (e :: es) => by
    rw [afterMark, List.all_cons, all_writeEntries (indent + 2) true (e :: es)]
    · rfl
    · nofun

private theorem all_writeItems (indent : Nat) (isBegun : Bool) :
    (os : List Outline) → (writeItems indent isBegun os).all isPrintable = true
  | [] => rfl
  | o :: os => by
    have dash : isPrintable '-' = true := by decide
    have first := all_afterMark indent o
    have others := all_writeItems indent false os
    cases isBegun <;> simp [writeItems, List.all_append, dash, first, others]

private theorem all_writeEntries (indent : Nat) (isBegun : Bool) :
    (es : List (Phrase × Outline)) → (writeEntries indent isBegun es).all isPrintable = true
  | [] => rfl
  | (k, o) :: es => by
    have marks : isPrintable ':' = true ∧ isPrintable '?' = true ∧ isPrintable ' ' = true := by decide
    have value := all_afterKey indent o
    have markedValue := all_afterMark indent o
    have others := all_writeEntries indent false es
    cases isBegun <;> cases simple : k.isSimpleKey <;>
      simp [writeEntries, simple, List.all_append, marks, k.all_write, k.all_lineEnd, value, markedValue, others]

end

private theorem all_write (o : Outline) : o.write.toList.all isPrintable = true := by
  cases o with
  | scalar p => simp [write, List.all_append, p.all_write, p.all_lineEnd]
  | sequence os =>
    cases os with
    | nil => decide
    | cons o os =>
      rw [write, String.toList_ofList, all_writeItems]
      nofun
  | mapping es =>
    cases es with
    | nil => decide
    | cons e es =>
      rw [write, String.toList_ofList, all_writeEntries]
      nofun

end Outline

private theorem Dialect.lines_of_isPrintable {cs : List Char} (h : cs.all isPrintable = true) :
    Dialect.strict.lines cs = cs := by
  have unified : Dialect.strict.unifyLineEnds cs = cs := by
    induction cs with
    | nil => rfl
    | cons c cs ih =>
      rw [List.all_cons, Bool.and_eq_true] at h
      obtain ⟨return_differs, next_differs⟩ := ne_rewritten_of_isPrintable h.1
      rw [unifyLineEnds, ih h.2]
      · simp [Dialect.strict, return_differs, next_differs]
      · intro ds same
        exact absurd same return_differs
  rw [lines, unified]
  rfl

theorem Outline.scan_write (o : Outline) :
    Token.scan .strict o.write.toList =
      (Scanner.run .strict (o.write.toList.length + 2) (.start o.write.toList)).map (·.tokens.reverse) := by
  have printable := o.all_write
  have admitted : o.write.toList.all Dialect.strict.admits = true := by
    rw [List.all_eq_true] at printable ⊢
    intro c written
    exact admits_of_isPrintable (printable c written)
  rw [Token.scan, if_pos admitted, Dialect.lines_of_isPrintable printable]

end Overlays.Yaml
