import Overlays.Proofs.Text.Numeral
import Overlays.Proofs.Yaml.Printable

set_option autoImplicit false
set_option relaxedAutoImplicit false

namespace Overlays.Yaml

open Quoting

namespace Place

/-- The place behind a text. -/
def afterAll (p : Place) (cs : List Char) : Place := cs.foldl after p

@[simp] theorem afterAll_nil (p : Place) : p.afterAll [] = p := rfl

@[simp] theorem afterAll_cons (p : Place) (c : Char) (cs : List Char) :
    p.afterAll (c :: cs) = (p.after c).afterAll cs := rfl

theorem afterAll_append (p : Place) (xs ys : List Char) : p.afterAll (xs ++ ys) = (p.afterAll xs).afterAll ys :=
  List.foldl_append

theorem after_of_not_break {c : Char} (h : isBreak c = false) (p : Place) : p.after c = p.right 1 := by
  rw [after, h]
  rfl

theorem right_right (p : Place) (m n : Nat) : (p.right m).right n = p.right (m + n) := by
  rw [right, right, right, Nat.add_assoc]

theorem afterAll_of_no_break {cs : List Char} (h : cs.all (!isBreak ·) = true) (p : Place) :
    p.afterAll cs = p.right cs.length := by
  induction cs generalizing p with
  | nil => rfl
  | cons c cs ih =>
    simp only [List.all_cons, Bool.and_eq_true, Bool.not_eq_true'] at h
    rw [afterAll_cons, after_of_not_break h.1, ih h.2, right_right, List.length_cons, Nat.add_comm]

theorem afterAll_spaces (p : Place) (n : Nat) : p.afterAll (spaces n) = p.right n := by
  rw [afterAll_of_no_break, spaces, List.length_replicate]
  rw [spaces, List.all_replicate]
  split
  · rfl
  · decide

theorem line_le_afterAll (p : Place) (cs : List Char) : p.line ≤ (p.afterAll cs).line := by
  induction cs generalizing p with
  | nil => exact Nat.le_refl _
  | cons c cs ih =>
    have step : p.line ≤ (p.after c).line := by
      unfold after down right
      split
      · exact Nat.le_succ _
      · exact Nat.le_refl _
    exact Nat.le_trans step (ih (p.after c))

end Place

theorem collect_reverse (cs : List Char) : collect cs.reverse = String.ofList cs := by
  rw [collect, List.reverse_reverse]

/-- What the next word of a document can begin with: neither blank nor comment. -/
def Solid (body : List Char) : Prop :=
  ∀ c ∈ body.head?, isSpace c = false ∧ isBreak c = false ∧ c ≠ '#' ∧ c ≠ byteOrderMark

theorem ne_blank {c : Char} (h : isSpace c = false) : c ≠ ' ' ∧ c ≠ '\t' := by
  constructor
  · rintro rfl
    cases h
  · rintro rfl
    cases h

theorem atDocumentMark_of_gap {c : Char} (h : (isSpace c || isBreak c) = true) (cs : List Char) :
    atDocumentMark (c :: cs) = false := by
  unfold atDocumentMark
  split
  · rename_i same
    cases same
    exact absurd h (by decide)
  · rename_i same
    cases same
    exact absurd h (by decide)
  · rfl

section Plain

variable {least : Nat} {collected : List Char} {p : Place}

private theorem colonRefused_false (cs : List Char) : colonRefused false cs = false := by
  unfold colonRefused
  split
  · rfl
  · rw [Bool.false_and]
  · rfl

private theorem plainEnds_false {c : Char} {cs : List Char} (h : c = ':' → atGap cs = false) :
    plainEnds false (c :: cs) = false := by
  unfold plainEnds
  split
  · rename_i same
    cases same
    rw [h rfl, Bool.false_and, Bool.or_false]
  · rw [Bool.false_and]

private theorem atGap_append {cs : List Char} (h : beginsWithGap cs = false) (rest : List Char) :
    atGap (cs ++ rest) = false := by
  cases cs with
  | nil => cases h
  | cons c cs =>
    have word : isGap c = false := by simpa [beginsWithGap] using h
    simp only [isGap, isLineEnd, Bool.or_eq_false_iff] at word
    rw [List.cons_append, atGap, word.1, word.2.1.1]
    rfl

private theorem plain_char {met r : List Char} {c : Char} (no_space : isSpace c = false)
    (no_break : isBreak c = false) (inner : met ≠ [] → least ≤ p.column ∧ 0 < p.column ∧ c ≠ '#')
    (colon : c = ':' → atGap r = false) :
    plain .strict false least collected (.blanks met) (c :: r) p =
      plain .strict false least (c :: (met ++ collected)) .none r (p.right 1) := by
  have stays : (!(Gap.blanks met).isNone && ((!false && p.column < least)
      || (p.column == 0 && atDocumentMark (c :: r)) || c == '#')) = false := by
    cases met with
    | nil => rfl
    | cons b bs =>
      obtain ⟨low, positive, number_sign⟩ := inner (by simp)
      have column : ¬ p.column = 0 := by omega
      simp [number_sign, column, Nat.not_lt.mpr low]
  have goes_on := plainEnds_false colon
  rw [plain, no_space, no_break, stays]
  simp [colonRefused_false, goes_on, Gap.flush]

/-- The characters of a plain text, read one after the other; `met` are the blanks before them. -/
private theorem plain_append {cs : List Char} (rest collected met : List Char) (p : Place)
    (printable : cs.all isPrintable = true) (sole : isMultiline cs = false)
    (marks : hasInnerMark (!met.isEmpty) cs = false) (last : cs.getLast? ≠ some ' ') (behind : cs = [] → met = [])
    (low : least ≤ p.column + 1) (inner : met ≠ [] → least ≤ p.column ∧ 0 < p.column) :
    plain .strict false least collected (.blanks met) (cs ++ rest) p =
      plain .strict false least (cs.reverse ++ (met ++ collected)) .none rest (p.right cs.length) := by
  induction cs generalizing collected met p with
  | nil =>
    rw [behind rfl]
    rfl
  | cons c cs ih =>
    simp only [List.all_cons, Bool.and_eq_true] at printable
    simp only [isMultiline, List.any_cons, Bool.or_eq_false_iff] at sole
    simp only [hasInnerMark, Bool.or_eq_false_iff] at marks
    have last_behind : cs.getLast? ≠ some ' ' := by
      cases cs with
      | nil => nofun
      | cons d ds => rwa [List.getLast?_cons_cons] at last
    have low_behind : least ≤ (p.right 1).column + 1 := Nat.le_succ_of_le low
    have place : (p.right 1).right cs.length = p.right (c :: cs).length := by
      rw [Place.right_right, List.length_cons, Nat.add_comm]
    -- a space is held back until a character of a word follows; the last one is none, so that one does
    by_cases space : c = ' '
    · subst space
      have more : cs ≠ [] := by
        rintro rfl
        exact last rfl
      have step := ih collected (' ' :: met) (p.right 1) printable.2 sole.2 marks.2 last_behind
        (fun none_left => absurd none_left more) low_behind fun _ => ⟨low, Nat.succ_pos _⟩
      rw [place] at step
      rw [List.reverse_cons, List.append_assoc]
      exact step
    · have no_space : isSpace c = false := by
        rw [isSpace_of_isPrintable printable.1, beq_false_of_ne space]
      have no_break : isBreak c = false := isLineEnd_of_isPrintable printable.1 ▸ sole.1
      have word : isGap c = false := by rw [isGap, no_space, sole.1, Bool.or_self]
      have marks_behind : hasInnerMark false cs = false := by
        have behind := marks.2
        rwa [word] at behind
      have number_sign : met ≠ [] → least ≤ p.column ∧ 0 < p.column ∧ c ≠ '#' := by
        intro some_met
        refine ⟨(inner some_met).1, (inner some_met).2, ?_⟩
        rintro rfl
        simp [some_met] at marks
      have colon : c = ':' → atGap (cs ++ rest) = false := by
        rintro rfl
        exact atGap_append (by simpa using marks.1.1) rest
      have step := ih (c :: (met ++ collected)) [] (p.right 1) printable.2 sole.2 marks_behind
        last_behind (fun _ => rfl) low_behind (fun h => absurd rfl h)
      rw [place] at step
      rw [List.cons_append, plain_char no_space no_break number_sign colon, List.reverse_cons, List.append_assoc]
      exact step

private theorem plain_at_colon {r : List Char} (gap : atGap r = true) :
    plain .strict false least collected .none (':' :: r) p = some ⟨(collect collected, false), ':' :: r, p⟩ := by
  have ends : plainEnds false (':' :: r) = true := by rw [plainEnds, gap, Bool.true_or]
  have colon : (isSpace ':' || isBreak ':') = false := by decide
  rw [plain, colon]
  simp [ends, colonRefused_false, Gap.isNone, Gap.none, Gap.isFolded]

private theorem plain_spaces {first : Option Char} {more : List Char} (n : Nat) (rest : List Char) :
    plain .strict false least collected (.folded first more) (spaces n ++ rest) p =
      plain .strict false least collected (.folded first more) rest (p.right n) := by
  induction n generalizing p with
  | zero => rfl
  | succ n ih =>
    have here : plain .strict false least collected (.folded first more) (' ' :: (spaces n ++ rest)) p =
        plain .strict false least collected (.folded first more) (spaces n ++ rest) (p.right 1) := by
      rw [plain]
      simp [isSpace, Gap.isFolded, Gap.push, isBreak, isSeparator, Place.after]
    have split : spaces (n + 1) ++ rest = ' ' :: (spaces n ++ rest) := rfl
    rw [split, here, ih, Place.right_right, Nat.add_comm 1]

private theorem plain_at_line {n : Nat} {body : List Char} (left : n < least) (solid : Solid body) :
    plain .strict false least collected .none ('\n' :: (spaces n ++ body)) p =
      some ⟨(collect collected, true), body, ⟨p.line + 1, n⟩⟩ := by
  have here : plain .strict false least collected .none ('\n' :: (spaces n ++ body)) p =
      plain .strict false least collected (.folded (some '\n') []) (spaces n ++ body) p.down := by
    rw [plain]
    simp [isSpace, isBreak, Gap.isFolded, Gap.none, Gap.push, Place.after]
  have place : p.down.right n = ⟨p.line + 1, n⟩ := by rw [Place.down, Place.right, Nat.zero_add]
  rw [here, plain_spaces, place]
  cases body with
  | nil => rfl
  | cons c cs =>
    obtain ⟨no_space, no_break, -, -⟩ := solid c rfl
    rw [plain, no_space, no_break]
    simp [Gap.isNone, Gap.isFolded, left]

/-- What a reader asks of the text at which a plain scalar begins. -/
structure BeginsPlainly (c : Char) (r : List Char) : Prop where
  noMark : "#,[]\x7b\x7d&*!|>'\"%@`".toList.contains c = false
  noSpace : isSpace c = false
  noBreak : isBreak c = false
  goesOn : c = '-' ∨ c = '?' ∨ c = ':' → atGap r = false
  noDocumentMark : atDocumentMark (c :: r) = false

/-- What it means for a text that it may be written plainly. -/
structure IsPlain (c : Char) (cs : List Char) : Prop where
  printable : (c :: cs).all isPrintable = true
  sole : isMultiline (c :: cs) = false
  last : (c :: cs).getLast? ≠ some ' '
  marks : hasInnerMark false (c :: cs) = false
  begins : ∀ tail, (tail.head? = some ':' ∨ tail.head? = some '\n') → BeginsPlainly c (cs ++ tail)

private theorem hasTokenStart_cons {c : Char} {cs : List Char} (h : hasTokenStart (c :: cs) = false) :
    "#,[]\x7b\x7d&*!|>'\"%@`".toList.contains c = false ∧
      (c = '-' ∨ c = '?' ∨ c = ':' → beginsWithGap cs = false) := by
  unfold hasTokenStart at h
  split at h
  · cases h
  · cases h
  · rename_i same
    cases same
    rw [Bool.or_eq_false_iff] at h
    refine ⟨h.1, ?_⟩
    rintro (rfl | rfl | rfl) <;> exact h.2
  · rename_i same
    cases same

private theorem atDocumentMark_append {c : Char} {cs tail : List Char} (h : hasTokenStart (c :: cs) = false)
    (stop : tail.head? = some ':' ∨ tail.head? = some '\n') : atDocumentMark (c :: cs ++ tail) = false := by
  obtain ⟨t, ts, rfl⟩ : ∃ t ts, tail = t :: ts := by
    cases tail with
    | nil => rcases stop with stop | stop <;> cases stop
    | cons t ts => exact ⟨t, ts, rfl⟩
  have differs : t ≠ '-' ∧ t ≠ '.' := by
    rcases stop with stop | stop <;> cases stop <;> decide
  unfold atDocumentMark
  split
  case h_3 => rfl
  all_goals
    rename_i same
    rcases cs with _ | ⟨d, _ | ⟨e, es⟩⟩
    · simp_all
    · simp_all
    · simp only [List.cons_append, List.cons.injEq] at same
      obtain ⟨rfl, rfl, rfl, -⟩ := same
      cases h

theorem isPlain_of_allowed {cs : List Char} (h : plainAllowed cs = true) : ∃ c ds, cs = c :: ds ∧ IsPlain c ds := by
  cases cs with
  | nil => simp [plainAllowed] at h
  | cons c cs =>
    simp only [plainAllowed, Bool.and_eq_true, Bool.not_eq_true', bne_iff_ne] at h
    obtain ⟨⟨⟨⟨⟨clean, sole⟩, head⟩, last⟩, start⟩, marks⟩ := h
    have printable := all_of_isClean clean
    obtain ⟨noMark, goesOn⟩ := hasTokenStart_cons start
    have noLineEnd : isLineEnd c = false := by
      simp only [isMultiline, List.any_cons, Bool.or_eq_false_iff] at sole
      exact sole.1
    have here : isPrintable c = true := by
      simp only [List.all_cons, Bool.and_eq_true] at printable
      exact printable.1
    have noSpace : isSpace c = false := by
      rw [isSpace_of_isPrintable here, beq_false_of_ne]
      rintro rfl
      exact head rfl
    have noBreak : isBreak c = false := isLineEnd_of_isPrintable here ▸ noLineEnd
    have noNumberSign : c ≠ '#' := by
      rintro rfl
      exact absurd noMark (by decide)
    refine ⟨c, cs, rfl, printable, sole, last, ?_, fun tail stop => ⟨noMark, noSpace, noBreak, ?_, ?_⟩⟩
    · rw [hasInnerMark, marks, beq_false_of_ne noNumberSign, Bool.false_and, Bool.or_false, Bool.or_false]
      by_cases colon : c = ':'
      · rw [goesOn (.inr (.inr colon)), Bool.and_false]
      · rw [beq_false_of_ne colon, Bool.false_and]
    · intro sign
      exact atGap_append (goesOn sign) tail
    · exact atDocumentMark_append start stop

variable {c : Char} {cs : List Char}

private theorem plain_of_isPlain (h : IsPlain c cs) (low : least ≤ p.column + 1) (rest : List Char) :
    plain .strict false least [] .none (c :: cs ++ rest) p =
      plain .strict false least (c :: cs).reverse .none rest (p.right (c :: cs).length) := by
  have read := plain_append rest [] [] p h.printable h.sole h.marks h.last (by nofun) low
    (fun none_met => absurd rfl none_met)
  rwa [List.nil_append, List.append_nil] at read

theorem plain_before_colon (h : IsPlain c cs) (low : least ≤ p.column + 1) {r : List Char} (gap : atGap r = true) :
    plain .strict false least [] .none (c :: cs ++ ':' :: r) p =
      some ⟨(String.ofList (c :: cs), false), ':' :: r, p.right (c :: cs).length⟩ := by
  rw [plain_of_isPlain h low, plain_at_colon gap, collect_reverse]

theorem plain_before_line (h : IsPlain c cs) (low : least ≤ p.column + 1) {n : Nat} {body : List Char}
    (left : n < least) (solid : Solid body) :
    plain .strict false least [] .none (c :: cs ++ '\n' :: (spaces n ++ body)) p =
      some ⟨(String.ofList (c :: cs), true), body, ⟨p.line + 1, n⟩⟩ := by
  rw [plain_of_isPlain h low, plain_at_line left solid, collect_reverse]
  rfl

end Plain

section Numbers

private theorem number_char {d : Char} (h : d.isDigit = true ∨ d = '-') :
    isPrintable d = true ∧ isGap d = false ∧ d ≠ ':' ∧ d ≠ '#' := by
  have range : 48 ≤ d.toNat ∧ d.toNat ≤ 57 ∨ d = '-' := by
    rcases h with h | h
    · simp only [Char.isDigit, Bool.and_eq_true, decide_eq_true_eq] at h
      exact .inl ⟨h.1, h.2⟩
    · exact .inr h
  have other (e : Char) (differs : e.toNat < 48 ∨ 57 < e.toNat) (sign : e ≠ '-') : d ≠ e := by
    rintro rfl
    rcases range with range | range
    · omega
    · exact sign range
  have gap : isGap d = false := by
    simp only [isGap, isSpace, isLineEnd, isBreak, isSeparator, Bool.or_eq_false_iff, beq_eq_false_iff_ne]
    refine ⟨⟨?_, ?_⟩, ⟨⟨?_, ?_, ?_⟩, ?_⟩, ?_⟩ <;> exact other _ (by decide) (by decide)
  refine ⟨?_, gap, other _ (by decide) (by decide), other _ (by decide) (by decide)⟩
  rcases range with range | rfl
  · simp only [isPrintable, Bool.or_eq_true, Bool.and_eq_true, decide_eq_true_eq, beq_iff_eq]
    omega
  · decide

private theorem plain_of_chars {cs : List Char}
    (h : ∀ d ∈ cs, isPrintable d = true ∧ isGap d = false ∧ d ≠ ':' ∧ d ≠ '#') :
    isClean cs = true ∧ isMultiline cs = false ∧ ∀ isAfterGap, hasInnerMark isAfterGap cs = false := by
  induction cs with
  | nil => exact ⟨rfl, rfl, fun _ => rfl⟩
  | cons c cs ih =>
    obtain ⟨⟨printable, gap, colon, number_sign⟩, others⟩ := List.forall_mem_cons.mp h
    obtain ⟨clean, sole, marks⟩ := ih others
    simp only [isGap, isSpace, Bool.or_eq_false_iff] at gap
    simp only [isClean, Bool.and_eq_true, Bool.not_eq_true'] at clean ⊢
    have pair : hasPair (· == ' ') isLineEnd (c :: cs) = false := by
      cases cs with
      | nil => rfl
      | cons d ds => rw [hasPair, clean.2, gap.1.1, Bool.false_and, Bool.or_self]
    refine ⟨⟨?_, pair⟩, ?_, fun isAfterGap => ?_⟩
    · rw [List.all_cons, printable, clean.1, Bool.and_self]
    · rw [isMultiline, List.any_cons, gap.2]
      exact sole
    · rw [hasInnerMark, beq_false_of_ne colon, beq_false_of_ne number_sign, marks]
      rfl

private theorem no_mark_of_number {d : Char} (h : d.isDigit = true ∨ d = '-') :
    "#,[]\x7b\x7d&*!|>'\"%@`".toList.contains d = false := by
  have marks : "#,[]\x7b\x7d&*!|>'\"%@`".toList.all (fun d => !(d.isDigit || d == '-')) = true := by decide
  rw [← Bool.not_eq_true, List.contains_iff_mem]
  intro mark
  have other := List.all_eq_true.mp marks d mark
  simp only [Bool.not_eq_true', Bool.or_eq_false_iff, beq_eq_false_iff_ne] at other
  rcases h with digit | dash
  · exact absurd digit (ne_true_of_eq_false other.1)
  · exact other.2 dash

private theorem hasTokenStart_of_number {c : Char} {cs : List Char} (digits : ∀ d ∈ cs, d.isDigit = true)
    (first : c.isDigit = true ∨ c = '-' ∧ cs ≠ []) : hasTokenStart (c :: cs) = false := by
  have sign_or_digit : c.isDigit = true ∨ c = '-' := first.imp_right And.left
  unfold hasTokenStart
  split
  · rename_i same
    cases same
    exact absurd (digits '-' List.mem_cons_self) (by decide)
  · rename_i same
    cases same
    rcases sign_or_digit with h | h <;> exact absurd h (by decide)
  · rename_i same
    cases same
    have no_sign : ((c == '?' || c == ':' || c == '-') && beginsWithGap cs) = false := by
      rcases first with digit | ⟨rfl, some_digits⟩
      · have other : c ≠ '?' ∧ c ≠ ':' ∧ c ≠ '-' := by
          refine ⟨?_, ?_, ?_⟩
          all_goals
            rintro rfl
            cases digit
        rw [beq_false_of_ne other.1, beq_false_of_ne other.2.1, beq_false_of_ne other.2.2]
        rfl
      · obtain ⟨d, ds, rfl⟩ := List.exists_cons_of_ne_nil some_digits
        have gap := (number_char (.inl (digits d List.mem_cons_self))).2.1
        simp [beginsWithGap, gap]
    rw [no_mark_of_number sign_or_digit, no_sign]
    rfl
  · rfl

private theorem plainAllowed_of_number {c : Char} {cs : List Char} (digits : ∀ d ∈ cs, d.isDigit = true)
    (first : c.isDigit = true ∨ c = '-' ∧ cs ≠ []) : plainAllowed (c :: cs) = true := by
  have facts : ∀ d ∈ c :: cs, isPrintable d = true ∧ isGap d = false ∧ d ≠ ':' ∧ d ≠ '#' := by
    intro d inside
    rcases List.mem_cons.mp inside with rfl | behind
    · exact number_char (first.imp_right And.left)
    · exact number_char (.inl (digits d behind))
  obtain ⟨clean, sole, -⟩ := plain_of_chars facts
  obtain ⟨-, -, marks⟩ := plain_of_chars fun d inside => facts d (List.mem_cons_of_mem c inside)
  have no_space : ∀ d ∈ c :: cs, d ≠ ' ' := by
    rintro d inside rfl
    exact absurd (facts ' ' inside).2.1 (by decide)
  have head : (c :: cs).head? ≠ some ' ' := by
    intro same
    exact no_space c List.mem_cons_self (Option.some.inj same)
  have last : (c :: cs).getLast? ≠ some ' ' := by
    intro same
    exact no_space ' ' (List.mem_of_getLast? same) rfl
  simp only [plainAllowed, clean, sole, hasTokenStart_of_number digits first, marks, bne_iff_ne, Bool.and_eq_true,
    Bool.not_false, Bool.true_and, and_true]
  exact ⟨head, last⟩

theorem plainAllowed_ofInt (n : Int) : plainAllowed (Text.Numeral.ofInt n) = true := by
  have digits (n : Nat) : ∃ c cs, Text.Numeral.ofNat n = c :: cs ∧ ∀ d ∈ c :: cs, d.isDigit = true := by
    cases written : Text.Numeral.ofNat n with
    | nil => exact absurd written Nat.toDigits_ne_nil
    | cons c cs =>
      refine ⟨c, cs, rfl, fun d inside => ?_⟩
      rw [← written] at inside
      exact Text.Numeral.isDigit_of_mem_ofNat inside
  cases n with
  | ofNat n =>
    obtain ⟨c, cs, written, are_digits⟩ := digits n
    rw [Text.Numeral.ofInt, written]
    exact plainAllowed_of_number (fun d behind => are_digits d (List.mem_cons_of_mem c behind))
      (.inl (are_digits c List.mem_cons_self))
  | negSucc n =>
    obtain ⟨c, cs, written, are_digits⟩ := digits (n + 1)
    rw [Text.Numeral.ofInt, written]
    exact plainAllowed_of_number are_digits (.inr ⟨rfl, by simp⟩)

end Numbers

end Overlays.Yaml
