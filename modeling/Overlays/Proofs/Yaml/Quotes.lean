import Mathlib.Algebra.Group.Nat.Defs
import Overlays.Proofs.Text.Numeral
import Overlays.Proofs.Yaml.PlainText

/-!
Texts written between quotes are read back. What a reader has collected and the gap that it has met since then together
make up the text so far, in reverse. Between single quotes the line ends of the text are written so that folding them
gives them back; between double quotes every escape stands for its character, whether it has a letter of its own or is
given by its code.
-/

set_option autoImplicit false
set_option relaxedAutoImplicit false

namespace Overlays.Yaml

open Quoting Text

namespace Gap

/-- How the gap behind what is read stands to what is still written: blanks on a line, which no line end follows, or
line ends that stand for themselves, which no space follows. -/
def Fits (isLineStart : Bool) (cs : List Char) : Gap → Prop
  | .blanks met => isLineStart = false ∧ (met ≠ [] → ∀ c ∈ cs.head?, isLineEnd c = false)
  | .folded first more => isLineStart = true ∧ (first = some '\n' → more ≠ []) ∧ cs.head? ≠ some ' '

private theorem flush_none (collected : List Char) : none.flush collected = collected := rfl

private theorem flush_of_not_feed {first : Option Char} (h : first ≠ some '\n') (more collected : List Char) :
    (folded first more).flush collected = more ++ first.toList ++ collected := by
  unfold flush
  split
  case h_4 same =>
    cases same
    rfl
  case h_1 same => cases same
  all_goals
    rename_i same
    cases same
    exact absurd rfl h

private theorem flush_push_of_folded {first : Option Char} {more : List Char} {c : Char} (h : isBreak c = true)
    (more_met : first = some '\n' → more ≠ []) (collected : List Char) :
    ((folded first more).push c).flush collected = c :: (folded first more).flush collected := by
  rw [push, h, if_pos rfl]
  by_cases feed : first = some '\n'
  · subst feed
    cases more with
    | nil => exact absurd rfl (more_met rfl)
    | cons m ms => rfl
  · rw [flush_of_not_feed feed, flush_of_not_feed feed]
    rfl

end Gap

section SingleQuotes

variable {indent : Nat} {collected : List Char} {gap : Gap} {p : Place}

private theorem singleQuoted_gap {c : Char} (h : (isSpace c || isBreak c) = true) (r : List Char) :
    singleQuoted collected gap (c :: r) p = singleQuoted collected (gap.push c) r (p.after c) := by
  have quote : c ≠ '\'' := by
    rintro rfl
    exact absurd h (by decide)
  rw [singleQuoted, atDocumentMark_of_gap h, h]
  · simp
  · exact fun _ same => absurd same quote
  · exact quote

private theorem singleQuoted_char {c : Char} (quote : c ≠ '\'') (word : (isSpace c || isBreak c) = false)
    (inner : 0 < p.column) (r : List Char) :
    singleQuoted collected gap (c :: r) p = singleQuoted (c :: gap.flush collected) .none r (p.right 1) := by
  have column : ¬ p.column = 0 := Nat.ne_of_gt inner
  rw [singleQuoted, word]
  · simp [column]
  · exact fun _ same => absurd same quote
  · exact quote

private theorem singleQuoted_end {r : List Char} (closed : r.head? ≠ some '\'') :
    singleQuoted collected gap ('\'' :: r) p = some ⟨collect (gap.flush collected), r, p.right 1⟩ := by
  cases r with
  | nil => rfl
  | cons c cs =>
    have differs : c ≠ '\'' := fun same => closed (congrArg some same)
    rw [singleQuoted]
    intro ds same
    cases same
    exact differs rfl

private theorem singleQuoted_spaces {first : Option Char} {more : List Char} (n : Nat) (r : List Char) :
    singleQuoted collected (.folded first more) (spaces n ++ r) p =
      singleQuoted collected (.folded first more) r (p.right n) := by
  induction n generalizing p with
  | zero => rfl
  | succ n ih =>
    have split : spaces (n + 1) ++ r = ' ' :: (spaces n ++ r) := rfl
    have space : (isSpace ' ' || isBreak ' ') = true := by decide
    have place : p.after ' ' = p.right 1 := rfl
    have stays : (Gap.folded first more).push ' ' = .folded first more := rfl
    rw [split, singleQuoted_gap space, place, stays, ih, Place.right_right, Nat.add_comm 1]

private theorem singleQuoted_indented {isLineStart : Bool} {cs : List Char} (fits : gap.Fits isLineStart cs)
    (r : List Char) :
    singleQuoted collected gap (indented isLineStart indent ++ r) p =
      singleQuoted collected gap r (p.afterAll (indented isLineStart indent)) := by
  cases gap with
  | blanks met =>
    rw [fits.1]
    rfl
  | folded first more =>
    rw [fits.1, indented, if_pos rfl, singleQuoted_spaces, Place.afterAll_spaces]

private theorem column_indented (positive : 0 < indent) {isLineStart : Bool}
    (inner : isLineStart = false → 0 < p.column) : 0 < (p.afterAll (indented isLineStart indent)).column := by
  cases isLineStart with
  | false => exact inner rfl
  | true =>
    rw [indented, if_pos rfl, Place.afterAll_spaces]
    exact Nat.lt_of_lt_of_le positive (Nat.le_add_left indent p.column)

private theorem of_hasPair_cons {q q' : Char → Bool} {c : Char} {cs : List Char} (h : hasPair q q' (c :: cs) = false) :
    (q c = true → ∀ d ∈ cs.head?, q' d = false) ∧ hasPair q q' cs = false := by
  cases cs with
  | nil => exact ⟨fun _ _ none => absurd none (by simp), rfl⟩
  | cons d ds =>
    rw [hasPair, Bool.or_eq_false_iff] at h
    refine ⟨fun here d' first => ?_, h.2⟩
    cases first
    simpa [here] using h.1

/-- What reading back one character between single quotes comes to: its part of the text is taken in, and the gap
behind it fits the characters that are still to come. -/
private def SingleStep (indent : Nat) (collected : List Char) (gap : Gap) (p : Place) (isLineStart : Bool) (c : Char)
    (cs : List Char) : Prop :=
  ∃ written isLineStart' collected' gap',
    singleBody indent isLineStart (c :: cs) = written ++ singleBody indent isLineStart' cs ∧
    (∀ r, singleQuoted collected gap (written ++ r) p = singleQuoted collected' gap' r (p.afterAll written)) ∧
    gap'.flush collected' = c :: gap.flush collected ∧ gap'.Fits isLineStart' cs ∧
    (isLineStart' = false → 0 < (p.afterAll written).column)

private theorem singleStep_lineEnd {isLineStart : Bool} {c : Char} {cs : List Char} (ends : isLineEnd c = true)
    (broken : isBreak c = true) (no_space : cs.head? ≠ some ' ') (fits : gap.Fits isLineStart (c :: cs)) :
    SingleStep indent collected gap p isLineStart c cs := by
  have gapped : (isSpace c || isBreak c) = true := by rw [broken, Bool.or_true]
  cases gap with
  | folded first more =>
    obtain ⟨rfl, more_met, -⟩ := fits
    refine ⟨[c], true, collected, .folded first (c :: more), ?_, fun r => ?_, ?_, ⟨rfl, fun _ => by simp, no_space⟩,
      nofun⟩
    · simp [singleBody, ends]
    · have pushed : (Gap.folded first more).push c = .folded first (c :: more) := by rw [Gap.push, broken, if_pos rfl]
      rw [List.singleton_append, singleQuoted_gap gapped, pushed]
      rfl
    · have flushed := Gap.flush_push_of_folded broken more_met collected
      rwa [Gap.push, broken, if_pos rfl] at flushed
  | blanks met =>
    obtain ⟨rfl, no_break⟩ := fits
    have none_met : met = [] := by
      by_contra some_met
      have no_end := no_break some_met c rfl
      rw [ends] at no_end
      cases no_end
    subst none_met
    by_cases feed : c = '\n'
    · subst feed
      refine ⟨['\n', '\n'], true, collected, .folded (some '\n') ['\n'], ?_, fun r => ?_, rfl,
        ⟨rfl, fun _ => by simp, no_space⟩, nofun⟩
      · simp [singleBody, ends]
      · rw [List.cons_append, List.singleton_append, singleQuoted_gap gapped, singleQuoted_gap gapped]
        rfl
    · have differs : some c ≠ some '\n' := fun same => feed (Option.some.inj same)
      refine ⟨[c], true, collected, .folded (some c) [], ?_, fun r => ?_, Gap.flush_of_not_feed differs _ _,
        ⟨rfl, fun same => absurd same differs, no_space⟩, nofun⟩
      · simp [singleBody, ends, feed]
      · have pushed : (Gap.blanks []).push c = .folded (some c) [] := by rw [Gap.push, broken, if_pos rfl]
        rw [List.singleton_append, singleQuoted_gap gapped, pushed]
        rfl

private theorem singleStep_space {isLineStart : Bool} {cs : List Char} (no_end : ∀ d ∈ cs.head?, isLineEnd d = false)
    (fits : gap.Fits isLineStart (' ' :: cs)) : SingleStep indent collected gap p isLineStart ' ' cs := by
  cases gap with
  | folded first more => exact absurd rfl fits.2.2
  | blanks met =>
    obtain ⟨rfl, -⟩ := fits
    refine ⟨[' '], false, collected, .blanks (' ' :: met), rfl, fun r => ?_, rfl, ⟨rfl, fun _ => no_end⟩,
      fun _ => Nat.succ_pos _⟩
    rw [List.singleton_append, singleQuoted_gap (by decide)]
    rfl

private theorem singleStep_word {isLineStart : Bool} {c : Char} {cs : List Char} (positive : 0 < indent)
    (no_end : isLineEnd c = false) (no_break : isBreak c = false) (no_space : isSpace c = false)
    (fits : gap.Fits isLineStart (c :: cs)) (inner : isLineStart = false → 0 < p.column) :
    SingleStep indent collected gap p isLineStart c cs := by
  have space : c ≠ ' ' := by
    rintro rfl
    cases no_space
  have word : (isSpace c || isBreak c) = false := by rw [no_space, no_break, Bool.or_self]
  have column := column_indented positive inner
  have fits_behind : Gap.none.Fits false cs := ⟨rfl, fun some_met => absurd rfl some_met⟩
  by_cases quote : c = '\''
  · subst quote
    refine ⟨indented isLineStart indent ++ ['\'', '\''], false, _, .none, ?_, fun r => ?_, rfl, fits_behind,
      fun _ => ?_⟩
    · simp [singleBody, no_end]
    · rw [List.append_assoc, singleQuoted_indented fits, Place.afterAll_append]
      rfl
    · rw [Place.afterAll_append]
      exact Nat.succ_pos _
  · refine ⟨indented isLineStart indent ++ [c], false, _, .none, ?_, fun r => ?_, rfl, fits_behind, fun _ => ?_⟩
    · simp [singleBody, no_end, space, quote]
    · rw [List.append_assoc, singleQuoted_indented fits, List.singleton_append, singleQuoted_char quote word column,
        Place.afterAll_append, Place.afterAll_cons, Place.after_of_not_break no_break, Place.afterAll_nil]
    · rw [Place.afterAll_append, Place.afterAll_cons, Place.after_of_not_break no_break]
      exact Nat.succ_pos _

private theorem singleQuoted_append (positive : 0 < indent) {r : List Char} (closed : r.head? ≠ some '\'')
    {cs : List Char} (printable : cs.all isPrintable = true) (no_trailing : hasPair (· == ' ') isLineEnd cs = false)
    (no_leading : hasPair isLineEnd (· == ' ') cs = false) {isLineStart : Bool} (fits : gap.Fits isLineStart cs)
    (inner : isLineStart = false → 0 < p.column) :
    singleQuoted collected gap (singleBody indent isLineStart cs ++ '\'' :: r) p =
      some ⟨collect (cs.reverse ++ gap.flush collected), r, p.afterAll (singleBody indent isLineStart cs ++ ['\''])⟩ := by
  induction cs generalizing collected gap isLineStart p with
  | nil =>
    rw [singleBody, singleQuoted_indented fits, singleQuoted_end closed, Place.afterAll_append]
    rfl
  | cons c cs ih =>
    simp only [List.all_cons, Bool.and_eq_true] at printable
    obtain ⟨trailing, no_trailing⟩ := of_hasPair_cons no_trailing
    obtain ⟨leading, no_leading⟩ := of_hasPair_cons no_leading
    have same_end := isLineEnd_of_isPrintable printable.1
    -- line ends, spaces and all others, since what a gap may hold depends on which of them comes next
    have step : SingleStep indent collected gap p isLineStart c cs := by
      by_cases ends : isLineEnd c = true
      · refine singleStep_lineEnd ends (same_end ▸ ends) ?_ fits
        intro space
        simpa using leading ends ' ' space
      · have no_end : isLineEnd c = false := Bool.eq_false_iff.mpr ends
        by_cases space : c = ' '
        · subst space
          exact singleStep_space (trailing rfl) fits
        · refine singleStep_word positive no_end (same_end ▸ no_end) ?_ fits inner
          rw [isSpace_of_isPrintable printable.1, beq_false_of_ne space]
    obtain ⟨written, isLineStart', collected', gap', body, read, flushed, fits', inner'⟩ := step
    rw [body, List.append_assoc, read, ih printable.2 no_trailing no_leading fits' inner', flushed,
      List.append_assoc written, Place.afterAll_append p written, List.reverse_cons, List.append_assoc cs.reverse]
    rfl

theorem singleQuoted_write {cs : List Char} (allowed : singleAllowed cs = true) (positive : 0 < indent)
    {r : List Char} (closed : r.head? ≠ some '\'') (inner : 0 < p.column) :
    singleQuoted [] .none (singleBody indent false cs ++ '\'' :: r) p =
      some ⟨String.ofList cs, r, p.afterAll (singleBody indent false cs ++ ['\''])⟩ := by
  simp only [singleAllowed, isClean, Bool.and_eq_true, Bool.not_eq_true'] at allowed
  obtain ⟨⟨printable, no_trailing⟩, no_leading⟩ := allowed
  have fits : Gap.none.Fits false cs := ⟨rfl, fun some_met => absurd rfl some_met⟩
  rw [singleQuoted_append positive closed printable no_trailing no_leading fits fun _ => inner, Gap.flush_none,
    List.append_nil, collect_reverse]

end SingleQuotes

section Codes

private theorem digit?_hexDigit {d : Nat} (h : d < 16) : Numeral.digit? 16 (hexDigit d) = some d := by
  have all : ∀ d : Fin 16, Numeral.digit? 16 (hexDigit d.val) = some d.val := by decide
  exact all ⟨d, h⟩

private theorem natural?_hexDigits {width n : Nat} (h : n < 16 ^ (width + 1)) :
    Numeral.natural? 16 (hexDigits (width + 1) n) = some n := by
  induction width generalizing n with
  | zero =>
    have small : n < 16 := by simpa using h
    rw [hexDigits, Nat.mod_eq_of_lt small]
    exact Numeral.natural?_single (digit?_hexDigit small)
  | succ width ih =>
    have front : n / 16 < 16 ^ (width + 1) := by
      rw [Nat.pow_succ] at h
      exact Nat.div_lt_of_lt_mul (by omega)
    have last := digit?_hexDigit (Nat.mod_lt n (show 16 > 0 by decide))
    have split : n / 16 * 16 + n % 16 = n := by omega
    rw [hexDigits]
    exact (Numeral.natural?_concat (ih front) last).trans (congrArg some split)

private theorem codeChar?_hexDigits (width : Nat) (c : Char) (h : c.toNat < 16 ^ (width + 1)) :
    codeChar? (hexDigits (width + 1) c.toNat) = some c := by
  have valid : c.toNat.isValidChar := c.valid
  rw [codeChar?, natural?_hexDigits h, Option.bind_some, if_pos valid, Char.ofNat_toNat]

end Codes

section DoubleQuotes

variable {collected : List Char} {gap : Gap} {p : Place}

private theorem doubleQuoted_letter {e c : Char} (means : escapedChar? e = some c) (no_break : isBreak e = false)
    (r : List Char) :
    doubleQuoted collected gap ('\\' :: e :: r) p = doubleQuoted (c :: gap.flush collected) .none r (p.right 2) := by
  have code : e ≠ 'x' ∧ e ≠ 'u' ∧ e ≠ 'U' := by
    refine ⟨?_, ?_, ?_⟩
    all_goals
      rintro rfl
      cases means
  rw [doubleQuoted]
  · simp [no_break, means]
  · exact fun _ _ _ same => absurd same code.1
  · exact fun _ _ _ _ _ same => absurd same code.2.1
  · exact fun _ _ _ _ _ _ _ _ _ same => absurd same code.2.2

private theorem doubleQuoted_escape (c : Char) (r : List Char) :
    doubleQuoted collected gap ('\\' :: escape c ++ r) p =
      doubleQuoted (c :: gap.flush collected) .none r (p.right ((escape c).length + 1)) := by
  unfold escape
  split
  case h_16 =>
    split
    · rename_i small
      have read := codeChar?_hexDigits 1 c (by omega)
      simp only [hexDigits, List.nil_append, List.cons_append] at read ⊢
      rw [doubleQuoted, read]
      rfl
    · split
      · rename_i small
        have read := codeChar?_hexDigits 3 c (by omega)
        simp only [hexDigits, List.nil_append, List.cons_append] at read ⊢
        rw [doubleQuoted, read]
        rfl
      · have bound : c.toNat < 0x110000 := by
          rcases c.valid with h | h
          · exact Nat.lt_trans h (by decide)
          · exact h.2
        have read := codeChar?_hexDigits 7 c (by omega)
        simp only [hexDigits, List.nil_append, List.cons_append] at read ⊢
        rw [doubleQuoted, read]
        rfl
  all_goals exact doubleQuoted_letter rfl rfl r

private theorem doubleQuoted_space (r : List Char) :
    doubleQuoted collected gap (' ' :: r) p = doubleQuoted collected (gap.push ' ') r (p.right 1) := by
  have gapped : (isSpace ' ' || isBreak ' ') = true := by decide
  rw [doubleQuoted, atDocumentMark_of_gap gapped, gapped, Bool.and_false, if_pos rfl]
  · rfl
  · decide
  all_goals
    intros
    simp_all

private theorem doubleQuoted_char {c : Char} (quote : c ≠ '"') (backslash : c ≠ '\\')
    (word : (isSpace c || isBreak c) = false) (inner : 0 < p.column) (r : List Char) :
    doubleQuoted collected gap (c :: r) p = doubleQuoted (c :: gap.flush collected) .none r (p.right 1) := by
  have column : ¬ p.column = 0 := Nat.ne_of_gt inner
  rw [doubleQuoted, word]
  · simp [column]
  · exact quote
  all_goals
    intros
    simp_all

private theorem doubleBody_cons (c : Char) (cs : List Char) :
    doubleBody (c :: cs) = (if !isPrintable c || isLineEnd c || c == '"' || c == '\\' then '\\' :: escape c else [c])
      ++ doubleBody cs := rfl

private theorem doubleQuoted_append (cs collected met r : List Char) (p : Place) (inner : 0 < p.column) :
    doubleQuoted collected (.blanks met) (doubleBody cs ++ '"' :: r) p =
      some ⟨collect (cs.reverse ++ (met ++ collected)), r, p.right ((doubleBody cs).length + 1)⟩ := by
  induction cs generalizing collected met p with
  | nil => rfl
  | cons c cs ih =>
    have reversed (xs : List Char) : (c :: cs).reverse ++ xs = cs.reverse ++ c :: xs := by simp
    rw [doubleBody_cons, reversed]
    split
    · have step := ih (c :: (met ++ collected)) [] (p.right ((escape c).length + 1))
        (Nat.lt_of_lt_of_le inner (Nat.le_add_right _ _))
      rw [List.append_assoc, doubleQuoted_escape]
      refine step.trans ?_
      rw [Place.right_right, List.length_append, List.length_cons, Nat.add_assoc ((escape c).length + 1)]
      rfl
    · rename_i as_is
      simp only [Bool.or_eq_true, Bool.not_eq_true', beq_iff_eq, not_or, Bool.not_eq_false,
        Bool.not_eq_true] at as_is
      obtain ⟨⟨⟨printable, no_end⟩, quote⟩, backslash⟩ := as_is
      have no_break : isBreak c = false := isLineEnd_of_isPrintable printable ▸ no_end
      have place : (p.right 1).right ((doubleBody cs).length + 1) =
          p.right (([c] ++ doubleBody cs).length + 1) := by
        rw [Place.right_right, List.singleton_append, List.length_cons, Nat.add_comm 1]
      by_cases space : c = ' '
      · subst space
        have step := ih collected (' ' :: met) (p.right 1) (Nat.succ_pos _)
        rw [place] at step
        rw [List.append_assoc, List.singleton_append, doubleQuoted_space]
        exact step
      · have word : (isSpace c || isBreak c) = false := by
          rw [isSpace_of_isPrintable printable, beq_false_of_ne space, no_break, Bool.or_self]
        have step := ih (c :: (met ++ collected)) [] (p.right 1) (Nat.succ_pos _)
        rw [place] at step
        rw [List.append_assoc, List.singleton_append, doubleQuoted_char quote backslash word inner]
        exact step

theorem doubleQuoted_write (cs : List Char) (inner : 0 < p.column) (r : List Char) :
    doubleQuoted [] .none (doubleBody cs ++ '"' :: r) p =
      some ⟨String.ofList cs, r, p.right ((doubleBody cs).length + 1)⟩ := by
  have read := doubleQuoted_append cs [] [] r p inner
  rwa [List.nil_append, List.append_nil, collect_reverse] at read

end DoubleQuotes

section Lengths

private theorem length_hexDigits (width n : Nat) : (hexDigits width n).length = width := by
  induction width generalizing n with
  | zero => rfl
  | succ width ih =>
    rw [hexDigits, List.length_append, ih]
    rfl

private theorem length_escape_le (c : Char) : (escape c).length + 1 ≤ 4 * c.utf8Size := by
  have some_size : 1 ≤ c.utf8Size := Char.utf8Size_pos c
  unfold escape
  split
  case h_16 =>
    have size : c.utf8Size = if c.toNat ≤ 127 then 1 else if c.toNat ≤ 2047 then 2 else if c.toNat ≤ 65535 then 3
        else 4 := rfl
    split
    · rw [List.length_cons, length_hexDigits]
      omega
    · rw [if_neg (by omega)] at size
      split
      · rw [List.length_cons, length_hexDigits]
        split at size <;> omega
      · rw [if_neg (by omega), if_neg (by omega)] at size
        rw [List.length_cons, length_hexDigits]
        omega
  all_goals
    simp only [List.length_singleton]
    omega

private theorem utf8ByteSize_cons (c : Char) (cs : List Char) :
    (String.ofList (c :: cs)).utf8ByteSize = c.utf8Size + (String.ofList cs).utf8ByteSize := by
  have split : String.ofList (c :: cs) = String.singleton c ++ String.ofList cs := by
    apply String.toList_inj.mp
    simp
  rw [split, String.utf8ByteSize_append, String.utf8ByteSize_singleton]

theorem length_le_utf8ByteSize (cs : List Char) : cs.length ≤ (String.ofList cs).utf8ByteSize := by
  induction cs with
  | nil => exact Nat.zero_le _
  | cons c cs ih =>
    have some_size : 1 ≤ c.utf8Size := Char.utf8Size_pos c
    rw [utf8ByteSize_cons, List.length_cons]
    omega

theorem length_doubleBody_le (cs : List Char) :
    (doubleBody cs).length ≤ 4 * (String.ofList cs).utf8ByteSize := by
  induction cs with
  | nil => exact Nat.zero_le _
  | cons c cs ih =>
    have some_size : 1 ≤ c.utf8Size := Char.utf8Size_pos c
    have escaped := length_escape_le c
    rw [utf8ByteSize_cons, doubleBody_cons, List.length_append]
    split
    · rw [List.length_cons]
      omega
    · rw [List.length_singleton]
      omega

private theorem singleBody_cons_of_sole {c : Char} (no_end : isLineEnd c = false) (indent : Nat) (cs : List Char) :
    singleBody indent false (c :: cs) = [c] ++ singleBody indent false cs ∨
      c = '\'' ∧ singleBody indent false (c :: cs) = ['\'', '\''] ++ singleBody indent false cs := by
  by_cases quote : c = '\''
  · subst quote
    exact .inr ⟨rfl, by simp [singleBody, no_end, indented]⟩
  · refine .inl ?_
    by_cases space : c = ' '
    · subst space
      simp [singleBody, no_end]
    · simp [singleBody, no_end, indented, space, quote]

theorem length_singleBody_le {cs : List Char} (sole : isMultiline cs = false) (indent : Nat) :
    (singleBody indent false cs).length ≤ 2 * cs.length := by
  induction cs with
  | nil => exact Nat.le_refl _
  | cons c cs ih =>
    simp only [isMultiline, List.any_cons, Bool.or_eq_false_iff] at sole
    have short := ih sole.2
    rcases singleBody_cons_of_sole sole.1 indent cs with body | ⟨-, body⟩
    all_goals
      rw [body, List.length_append, List.length_cons]
      simp only [List.length_cons, List.length_nil]
      omega

theorem singleBody_of_sole {cs : List Char} (sole : isMultiline cs = false) (printable : cs.all isPrintable = true)
    (indent : Nat) : (singleBody indent false cs).all (!isBreak ·) = true := by
  induction cs with
  | nil => rfl
  | cons c cs ih =>
    simp only [isMultiline, List.any_cons, Bool.or_eq_false_iff] at sole
    simp only [List.all_cons, Bool.and_eq_true] at printable
    have unbroken := ih sole.2 printable.2
    have no_break : isBreak c = false := isLineEnd_of_isPrintable printable.1 ▸ sole.1
    rcases singleBody_cons_of_sole sole.1 indent cs with body | ⟨-, body⟩
    · rw [body, List.all_append, unbroken, List.all_cons, no_break]
      rfl
    · rw [body, List.all_append, unbroken]
      rfl

end Lengths

end Overlays.Yaml
