import Overlays.Proofs.Yaml.PlainText

set_option autoImplicit false
set_option relaxedAutoImplicit false

namespace Overlays.Yaml

open Quoting

/-- What becomes of the line ends at the end of a block for the text, here in reverse, to keep those that it has. -/
def Chomp.keeping : List Char → Chomp
  | [] => .strip
  | c :: cs =>
    if !isLineEnd c then .strip
    else match cs with
      | [] => .keep
      | d :: _ => if isLineEnd d then .keep else .clip

/-- A block holds a text, in reverse, of which all is read so far. -/
structure Block.Holds (b : Block) (seen : List Char) (isLineStart : Bool) : Prop where
  literal : b.isLiteral = true
  held : b.more ++ b.lineEnd.toList ++ b.collected = seen
  inLine : isLineStart = false → b.more = [] ∧ b.lineEnd = none
  breaks : ∀ c ∈ b.more ++ b.lineEnd.toList, isLineEnd c = true
  leading : isLineStart = true → b.lineEnd = none → b.collected = []
  ends : seen ≠ [] → seen.head?.any isLineEnd = isLineStart

namespace Block.Holds

variable {b : Block} {seen : List Char} {c : Char}

private theorem start (chomp : Chomp) : (Block.mk true chomp [] none [] false).Holds [] true where
  literal := rfl
  held := rfl
  inLine := nofun
  breaks := by simp
  leading := fun _ _ => rfl
  ends := fun none_met => absurd rfl none_met

private theorem next_char (h : b.Holds seen false) (no_end : isLineEnd c = false) :
    Block.Holds { b with collected := c :: b.collected } (c :: seen) false where
  literal := h.literal
  held := by
    obtain ⟨more, lineEnd⟩ := h.inLine rfl
    have held := h.held
    rw [more, lineEnd] at held ⊢
    exact congrArg (c :: ·) held
  inLine := h.inLine
  breaks := h.breaks
  leading := nofun
  ends := fun _ => no_end

private theorem end_line (h : b.Holds seen false) (is_end : isLineEnd c = true) :
    Block.Holds { b with lineEnd := some c } (c :: seen) true where
  literal := h.literal
  held := by
    obtain ⟨more, lineEnd⟩ := h.inLine rfl
    have held := h.held
    rw [more, lineEnd] at held
    rw [more]
    exact congrArg (c :: ·) held
  inLine := nofun
  breaks := by simp [(h.inLine rfl).1, is_end]
  leading := nofun
  ends := fun _ => is_end

private theorem empty_line (h : b.Holds seen true) (is_end : isLineEnd c = true) :
    Block.Holds { b with more := c :: b.more } (c :: seen) true where
  literal := h.literal
  held := congrArg (c :: ·) h.held
  inLine := nofun
  breaks := by
    intro d met
    rcases List.mem_cons.mp met with rfl | before
    · exact is_end
    · exact h.breaks d before
  leading := h.leading
  ends := fun _ => is_end

private theorem begin_line (h : b.Holds seen true) (no_end : isLineEnd c = false) :
    (b.beginLine c).Holds (c :: seen) false where
  literal := h.literal
  held := by simp [Block.beginLine, h.literal, ← h.held]
  inLine := fun _ => ⟨rfl, rfl⟩
  breaks := by simp [Block.beginLine]
  leading := nofun
  ends := fun _ => no_end

private theorem more_eq_nil {d : Char} {ds : List Char} (h : b.Holds (c :: d :: ds) true) (word : isLineEnd d = false) :
    b.more = [] := by
  have held := h.held
  have no_break : d ∉ b.more ++ b.lineEnd.toList := by
    intro met
    have ends := h.breaks d met
    rw [word] at ends
    cases ends
  match more : b.more with
  | [] => rfl
  | [m] =>
    cases ended : b.lineEnd with
    | none =>
      rw [more, ended, h.leading rfl ended] at held
      cases held
    | some l =>
      rw [more, ended] at held no_break
      cases held
      exact absurd (by simp) no_break
  | m :: m' :: ms =>
    rw [more] at held no_break
    cases held
    exact absurd (by simp) no_break

private theorem text_eq (h : b.Holds seen true) (chomp : b.chomp = .keeping seen) : b.text = collect seen := by
  have held := h.held
  unfold Block.text
  rw [chomp]
  congr 1
  cases seen with
  | nil =>
    simp only [List.append_eq_nil_iff] at held
    exact held.2
  | cons c cs =>
    have ends : isLineEnd c = true := by simpa using h.ends (by simp)
    cases cs with
    | nil =>
      rw [Chomp.keeping, ends]
      exact held
    | cons d ds =>
      have keeping : Chomp.keeping (c :: d :: ds) = if isLineEnd d then .keep else .clip := by
        simp [Chomp.keeping, ends]
      rw [keeping]
      cases before : isLineEnd d with
      | true => exact held
      | false =>
        rw [h.more_eq_nil before] at held
        exact held

private theorem text_eq_of_word (h : b.Holds seen false) (some_text : seen ≠ []) (chomp : b.chomp = .keeping seen) :
    Block.text { b with lineEnd := some '\n' } = collect seen := by
  obtain ⟨more, lineEnd⟩ := h.inLine rfl
  have held : b.collected = seen := by simpa [more, lineEnd] using h.held
  have strip : Chomp.keeping seen = .strip := by
    cases seen with
    | nil => rfl
    | cons c cs =>
      have word : isLineEnd c = false := by simpa using h.ends some_text
      simp [Chomp.keeping, word]
  rw [Block.text, chomp, strip]
  exact congrArg collect held

end Block.Holds

section Lines

variable {least w widest : Nat} {b : Block} {p : Place}

private theorem blockLines_spaces (k : Nat) (r : List Char) (room : w = 0 ∨ p.column + k ≤ w) :
    blockLines least b false w widest (spaces k ++ r) p = blockLines least b false w widest r (p.right k) := by
  induction k generalizing p with
  | zero => rfl
  | succ k ih =>
    have split : spaces (k + 1) ++ r = ' ' :: (spaces k ++ r) := rfl
    have left : (w == 0 || decide (p.column < w)) = true := by
      rcases room with rfl | room
      · rfl
      · have left : p.column < w := by omega
        simp [left]
    have room_behind : w = 0 ∨ (p.right 1).column + k ≤ w := by
      rcases room with room | room
      · exact .inl room
      · have column : (p.right 1).column = p.column + 1 := rfl
        exact .inr (by omega)
    have here : blockLines least b false w widest (' ' :: (spaces k ++ r)) p =
        blockLines least b false w widest (spaces k ++ r) (p.right 1) := by
      rw [blockLines]
      simp [left]
    rw [split, here, ih room_behind, Place.right_right, Nat.add_comm 1]

private theorem blockLines_end_line (least w widest : Nat) (b : Block) (p : Place) {c : Char}
    (broken : isBreak c = true) (r : List Char) :
    blockLines least b true w widest (c :: r) p =
      blockLines least { b with lineEnd := some c } false w widest r p.down := by
  rw [blockLines, if_pos rfl, if_pos broken]

private theorem blockLines_next_char {c : Char} (no_break : isBreak c = false) (r : List Char) :
    blockLines least b true w widest (c :: r) p =
      blockLines least { b with collected := c :: b.collected } true w widest r (p.right 1) := by
  rw [blockLines, if_pos rfl, no_break, if_neg Bool.false_ne_true]

private theorem blockLines_empty_line {c : Char} (broken : isBreak c = true) (r : List Char) :
    blockLines least b false w widest (c :: r) p =
      blockLines least { b with more := c :: b.more } false w (max widest p.column) r p.down := by
  have space : c ≠ ' ' := by
    rintro rfl
    cases broken
  have tab : c ≠ '\t' := by
    rintro rfl
    cases broken
  rw [blockLines]
  simp [space, tab, broken]

private theorem blockLines_begin_line {c : Char} (positive : 0 < w) (column : p.column = w)
    (no_break : isBreak c = false) (r : List Char) :
    blockLines least b false w widest (c :: r) p =
      blockLines least (b.beginLine c) true w (max widest w) r (p.right 1) := by
  have some_width : ¬ w = 0 := Nat.ne_of_gt positive
  rw [blockLines]
  simp [column, some_width, no_break]

private theorem blockLines_first_line (b : Block) {c : Char} (low : least ≤ w) (positive : 0 < w)
    (column : p.column = w) (no_break : isBreak c = false) (no_space : isSpace c = false) (r : List Char) :
    blockLines least b false 0 0 (c :: r) p = blockLines least (b.beginLine c) true w w r (p.right 1) := by
  obtain ⟨space, tab⟩ := ne_blank no_space
  have width : max w (max least 1) = w := by omega
  rw [blockLines, if_neg Bool.false_ne_true, beq_false_of_ne space, beq_false_of_ne tab, no_break]
  simp [column, width]

private theorem blockLines_end (least widest : Nat) (b : Block) {n : Nat} (left : n < w) {body : List Char}
    (solid : Solid body) (column : p.column = 0) :
    blockLines least b false w widest (spaces n ++ body) p = some ⟨b.text, body, ⟨p.line, n⟩⟩ := by
  have place : p.right n = ⟨p.line, n⟩ := by rw [Place.right, column, Nat.zero_add]
  rw [blockLines_spaces n body (.inr (by omega)), place]
  cases body with
  | nil => rfl
  | cons c cs =>
    obtain ⟨no_space, no_break, -, -⟩ := solid c rfl
    obtain ⟨space, tab⟩ := ne_blank no_space
    have some_width : ¬ w = 0 := by omega
    have other : ¬ n = w := Nat.ne_of_lt left
    rw [blockLines]
    simp [space, tab, no_break, some_width, other]

section Writing

variable {least w : Nat} {p : Place}

/-- What stands behind the lines of a block whose text is `seen` in reverse: a line end, if the text has none. -/
private def closing (seen : List Char) : List Char := if seen.head?.any isLineEnd then [] else ['\n']

/-- What is written for one character of a block. -/
private def part (w : Nat) (isLineStart : Bool) (c : Char) : List Char :=
  if isLineEnd c then [c] else indented isLineStart w ++ [c]

private theorem blockBody_cons (isLineStart : Bool) (c : Char) (cs : List Char) :
    blockBody w isLineStart (c :: cs) = part w isLineStart c ++ blockBody w (isLineEnd c) cs := by
  cases ends : isLineEnd c <;> simp [blockBody, part, ends]

private theorem blockLines_part (least widest : Nat) {b : Block} {seen : List Char} {isLineStart : Bool} {c : Char}
    (printable : isPrintable c = true) (holds : b.Holds seen isLineStart) (positive : 0 < w)
    (column : isLineStart = true → p.column = 0) :
    ∃ b' widest' p', b'.Holds (c :: seen) (isLineEnd c) ∧ b'.chomp = b.chomp ∧ p.line ≤ p'.line ∧
      (isLineEnd c = true → p'.column = 0) ∧
      ∀ r, blockLines least b (!isLineStart) w widest (part w isLineStart c ++ r) p =
        blockLines least b' (!isLineEnd c) w widest' r p' := by
  have same_end := isLineEnd_of_isPrintable printable
  cases ends : isLineEnd c with
  | true =>
    have broken : isBreak c = true := same_end ▸ ends
    have written : part w isLineStart c = [c] := by rw [part, if_pos ends]
    rw [written]
    cases isLineStart with
    | true =>
      refine ⟨_, max widest p.column, p.down, holds.empty_line ends, rfl, Nat.le_succ _, fun _ => rfl, fun r => ?_⟩
      exact blockLines_empty_line broken r
    | false =>
      refine ⟨_, widest, p.down, holds.end_line ends, rfl, Nat.le_succ _, fun _ => rfl, fun r => ?_⟩
      exact blockLines_end_line least w widest b p broken r
  | false =>
    have no_break : isBreak c = false := same_end ▸ ends
    have written : part w isLineStart c = indented isLineStart w ++ [c] := by rw [part, ends, if_neg Bool.false_ne_true]
    rw [written]
    cases isLineStart with
    | true =>
      have room : p.column + w ≤ w := by simp [column rfl]
      have place : (p.right w).column = w := by rw [Place.right, column rfl, Nat.zero_add]
      refine ⟨_, max widest w, (p.right w).right 1, holds.begin_line ends, rfl, Nat.le_refl _, by simp, fun r => ?_⟩
      rw [List.append_assoc]
      exact (blockLines_spaces w _ (.inr room)).trans (blockLines_begin_line positive place no_break r)
    | false =>
      refine ⟨_, widest, p.right 1, holds.next_char ends, rfl, Nat.le_refl _, by simp, fun r => ?_⟩
      exact blockLines_next_char no_break r

private theorem blockLines_append (least widest : Nat) (p : Place) {b : Block} {seen cs : List Char}
    {isLineStart : Bool} {n : Nat} {body : List Char} (printable : cs.all isPrintable = true)
    (holds : b.Holds seen isLineStart) (chomp : b.chomp = .keeping (cs.reverse ++ seen))
    (some_text : cs.reverse ++ seen ≠ []) (left : n < w) (solid : Solid body)
    (column : isLineStart = true → p.column = 0) :
    ∃ line, p.line ≤ line ∧
      blockLines least b (!isLineStart) w widest
          (blockBody w isLineStart cs ++ (closing (cs.reverse ++ seen) ++ (spaces n ++ body))) p =
        some ⟨collect (cs.reverse ++ seen), body, ⟨line, n⟩⟩ := by
  induction cs generalizing widest p b seen isLineStart with
  | nil =>
    -- a text that ends a line has nothing written behind it, another one a line end that is not its own
    have some_seen : seen ≠ [] := some_text
    have ends := holds.ends some_seen
    cases isLineStart with
    | true =>
      have close : closing ([].reverse ++ seen) = [] := by simp [closing, ends]
      have ending := blockLines_end least widest b left solid (column rfl)
      rw [holds.text_eq chomp] at ending
      rw [close]
      exact ⟨p.line, Nat.le_refl _, ending⟩
    | false =>
      have close : closing ([].reverse ++ seen) = ['\n'] := by simp [closing, ends]
      have feed : isBreak '\n' = true := by decide
      have ended := blockLines_end_line least w widest b p feed (spaces n ++ body)
      have ending := blockLines_end least widest { b with lineEnd := some '\n' } left solid (p := p.down) rfl
      rw [holds.text_eq_of_word some_seen chomp] at ending
      rw [close]
      exact ⟨p.line + 1, Nat.le_succ _, ended.trans ending⟩
  | cons c cs ih =>
    simp only [List.all_cons, Bool.and_eq_true] at printable
    have reversed : (c :: cs).reverse ++ seen = cs.reverse ++ c :: seen := by simp
    rw [reversed] at chomp some_text ⊢
    obtain ⟨b', widest', p', holds', same_chomp, below, column', read⟩ :=
      blockLines_part least widest printable.1 holds (Nat.zero_lt_of_lt left) column
    obtain ⟨line, further, rest⟩ := ih widest' p' printable.2 holds' (same_chomp.trans chomp) some_text column'
    refine ⟨line, Nat.le_trans below further, ?_⟩
    rw [blockBody_cons, List.append_assoc, read, rest]

/-- Whether the width of the indentation is given with a block. -/
private def needsWidth (cs : List Char) : Bool := cs.head?.any fun c => c == ' ' || isLineEnd c

private theorem blockSigns_eq (cs : List Char) :
    ∃ sign, Quoting.blockSigns cs = (if needsWidth cs then ['2'] else []) ++ sign ∧
      (sign = ['-'] ∧ Chomp.keeping cs.reverse = .strip ∨ sign = ['+'] ∧ Chomp.keeping cs.reverse = .keep ∨
        sign = [] ∧ Chomp.keeping cs.reverse = .clip) := by
  unfold Quoting.blockSigns
  refine ⟨_, congrArg (· ++ _) ?_, ?_⟩
  · cases cs <;> rfl
  · generalize cs.reverse = reversed
    match reversed with
    | [] => exact .inl ⟨rfl, rfl⟩
    | [c] =>
      cases ends : isLineEnd c with
      | true => exact .inr (.inl (by simp [Chomp.keeping, ends]))
      | false => exact .inl (by simp [Chomp.keeping, ends])
    | c :: d :: _ =>
      cases ends : isLineEnd c with
      | false => exact .inl (by simp [Chomp.keeping, ends])
      | true =>
        cases before : isLineEnd d with
        | true => exact .inr (.inl (by simp [Chomp.keeping, ends, before]))
        | false => exact .inr (.inr (by simp [Chomp.keeping, ends, before]))

private theorem blockSigns_write (cs r : List Char) :
    blockSigns (Quoting.blockSigns cs ++ '\n' :: r) =
      some (.keeping cs.reverse, if needsWidth cs then 2 else 0, '\n' :: r) := by
  obtain ⟨sign, written, signs⟩ := blockSigns_eq cs
  rw [written]
  cases needsWidth cs <;> rcases signs with ⟨rfl, chomp⟩ | ⟨rfl, chomp⟩ | ⟨rfl, chomp⟩ <;> rw [chomp] <;> rfl

theorem blockScalar_write {cs : List Char} (allowed : literalAllowed cs = true) {column n : Nat} (left : n ≤ column)
    {body : List Char} (solid : Solid body) (p : Place) :
    ∃ line, p.line < line ∧
      blockScalar true (some column)
          (Quoting.blockSigns cs ++ '\n' :: (blockBody (column + 2) true cs ++
            ((if cs.getLast?.any isLineEnd then [] else ['\n']) ++ (spaces n ++ body)))) p =
        some ⟨String.ofList cs, body, ⟨line, n⟩⟩ := by
  simp only [literalAllowed, Bool.and_eq_true] at allowed
  obtain ⟨⟨some_text, clean⟩, -⟩ := allowed
  have printable := all_of_isClean clean
  have inside : n < column + 2 := by omega
  have close : (if cs.getLast?.any isLineEnd then [] else ['\n']) = closing cs.reverse := by
    rw [closing, List.head?_reverse]
  have start := Block.Holds.start (.keeping cs.reverse)
  rw [← collect_reverse, close]
  cases width_eq : needsWidth cs with
  | true =>
    have reversed_text : cs.reverse ++ [] ≠ [] := by simpa using some_text
    obtain ⟨line, below, read⟩ := blockLines_append (column + 1) 0 p.down printable start (by rw [List.append_nil])
      reversed_text inside solid fun _ => rfl
    refine ⟨line, below, ?_⟩
    rw [List.append_nil] at read
    rw [blockScalar, blockSigns_write, width_eq]
    exact read
  | false =>
    cases cs with
    | nil => cases some_text
    | cons c cs =>
      have width : c ≠ ' ' ∧ isLineEnd c = false := by simpa [needsWidth] using width_eq
      simp only [List.all_cons, Bool.and_eq_true] at printable
      have no_break : isBreak c = false := isLineEnd_of_isPrintable printable.1 ▸ width.2
      have no_space : isSpace c = false := by rw [isSpace_of_isPrintable printable.1, beq_false_of_ne width.1]
      have place : (p.down.right (column + 2)).column = column + 2 := Nat.zero_add _
      have written : part (column + 2) true c = spaces (column + 2) ++ [c] := by rw [part, width.2]; rfl
      have reversed : (c :: cs).reverse = cs.reverse ++ [c] := List.reverse_cons
      have first (r : List Char) := blockLines_first_line
        ⟨true, .keeping (cs.reverse ++ [c]), [], none, [], false⟩ (Nat.le_succ (column + 1)) (Nat.succ_pos _) place
        no_break no_space r
      obtain ⟨line, below, read⟩ := blockLines_append (column + 1) (column + 2)
        ((p.down.right (column + 2)).right 1) printable.2 (start.begin_line width.2)
        (congrArg Chomp.keeping reversed) (by simp) inside solid nofun
      refine ⟨line, below, ?_⟩
      rw [blockScalar, blockSigns_write, width_eq, blockBody_cons, written, width.2, List.append_assoc,
        List.append_assoc, reversed]
      rw [reversed] at read
      exact (blockLines_spaces (column + 2) _ (.inl rfl)).trans ((first _).trans read)

end Writing

end Lines

end Overlays.Yaml
