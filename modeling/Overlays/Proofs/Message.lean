import Overlays.Message
import Overlays.Proofs.Text.Numeral
import Overlays.Proofs.Text.Switches

/-!
What colors add to the line of a message. They stand in it as switches of styles; a line without its switches is the
line that a terminal without styles is sent. That is the line without colors for every kind of message but one: a
suggestion is announced as such in colors only.
-/

set_option autoImplicit false
set_option relaxedAutoImplicit false

namespace Overlays

open Text

/-- The characters that pieces are sent as, one after the other. -/
def Piece.chars (ps : List Piece) : List Char := ps.flatMap fun p => p.sent.toList

namespace Message

variable {text : String} {m : Message}

private theorem toList_sent_style (code : Nat) : (Piece.style code).sent.toList = switch (Numeral.ofNat code) := by
  have opening : "\x1b[".toList = ['\x1b', '['] := by decide
  have closing : "m".toList = ['m'] := by decide
  rw [Piece.sent, String.toList_append, String.toList_append, opening, closing, Numeral.natText, String.toList_ofList]
  rfl

private theorem toList_line (terminal : Terminal) (useColors : Bool) (m : Message) :
    (m.line terminal useColors).toList = Piece.chars (m.pieces terminal useColors) := by
  rw [line, String.toList_join, List.flatMap_map]
  rfl

private theorem withoutSwitches_style (code : Nat) (rest : List Char) :
    withoutSwitches ((Piece.style code).sent.toList ++ rest) = withoutSwitches rest := by
  rw [toList_sent_style]
  exact withoutSwitches_switch (fun c member => Numeral.isDigit_of_mem_ofNat member) rest

private theorem withoutSwitches_styles (codes : List Nat) (rest : List Char) :
    withoutSwitches (Piece.chars (codes.map .style) ++ rest) = withoutSwitches rest := by
  induction codes with
  | nil => rfl
  | cons code codes ih =>
    rw [List.map_cons, Piece.chars, List.flatMap_cons, List.append_assoc, withoutSwitches_style]
    exact ih

private theorem withoutSwitches_styled (hasEmoji : Bool) (codes : List Nat) (free : ¬ HoldsSwitch text.toList)
    (rest : List Char) :
    withoutSwitches (Piece.chars (styled ⟨hasEmoji, true⟩ codes text) ++ rest) =
      text.toList ++ withoutSwitches rest := by
  have parts : Piece.chars (styled ⟨hasEmoji, true⟩ codes text) ++ rest =
      Piece.chars (codes.map .style) ++ (text.toList ++ ((Piece.style 0).sent.toList ++ rest)) := by
    simp [Piece.chars, styled, Piece.sent]
  have escape : ((Piece.style 0).sent.toList ++ rest).head? = some '\x1b' := by
    rw [toList_sent_style]
    rfl
  rw [parts, withoutSwitches_styles, withoutSwitches_append free (.inr escape), withoutSwitches_style]

/-- What a line in colors has between the sign and the text. -/
def label : MessageKind → String
  | .suggestion => " Suggestion: "
  | _ => ""

private theorem label_eq_empty_iff (kind : MessageKind) : label kind = "" ↔ kind ≠ .suggestion := by
  cases kind <;> decide

private theorem escape_not_mem_sign (hasEmoji : Bool) (kind : MessageKind) : '\x1b' ∉ (kind.sign hasEmoji).toList := by
  cases kind <;> cases hasEmoji <;> decide

private theorem line_uncolored (terminal : Terminal) (m : Message) :
    m.line terminal false = m.kind.sign terminal.hasEmoji ++ m.text := by
  simp [line, pieces, Piece.sent, String.join]

private theorem line_colored (hasEmoji : Bool) (m : Message) :
    m.line ⟨hasEmoji, false⟩ true = m.kind.sign hasEmoji ++ label m.kind ++ m.text := by
  obtain ⟨kind, text⟩ := m
  cases kind <;> simp [line, pieces, styled, label, Piece.sent, String.join, String.append_assoc]

private theorem chars_of_suggestion (terminal : Terminal) (kind : m.kind = .suggestion) :
    Piece.chars (m.pieces terminal true) =
      (m.kind.sign terminal.hasEmoji).toList ++ (" ".toList ++
        (Piece.chars (styled terminal m.kind.styles "Suggestion") ++ (": ".toList ++ m.text.toList))) := by
  simp [pieces, kind, Piece.chars, Piece.sent]

private theorem chars_of_ne_suggestion (terminal : Terminal) (other : m.kind ≠ .suggestion) :
    Piece.chars (m.pieces terminal true) =
      (m.kind.sign terminal.hasEmoji).toList ++ (Piece.chars (styled terminal m.kind.styles m.text) ++ []) := by
  obtain ⟨kind, text⟩ := m
  cases kind with
  | suggestion => exact absurd rfl other
  | error => simp [pieces, Piece.chars, Piece.sent]
  | info => simp [pieces, Piece.chars, Piece.sent]
  | success => simp [pieces, Piece.chars, Piece.sent]

private theorem unstyle_line (hasEmoji : Bool) (free : ¬ HoldsSwitch m.text.toList) :
    unstyle (m.line ⟨hasEmoji, true⟩ true) = m.line ⟨hasEmoji, false⟩ true := by
  have sign := escape_not_mem_sign hasEmoji m.kind
  have space : '\x1b' ∉ " ".toList := by decide
  have colon : '\x1b' ∉ ": ".toList := by decide
  rw [unstyle, line_colored, ← String.toList_inj, String.toList_ofList, toList_line]
  by_cases kind : m.kind = .suggestion
  · have word : ¬ HoldsSwitch "Suggestion".toList := not_holdsSwitch_of_no_escape (by decide)
    rw [chars_of_suggestion _ kind, withoutSwitches_append_of_no_escape sign, withoutSwitches_append_of_no_escape space,
      withoutSwitches_styled hasEmoji _ word, withoutSwitches_append_of_no_escape colon, withoutSwitches_eq_self free]
    simp [kind, label]
  · have unlabelled := (label_eq_empty_iff m.kind).mpr kind
    rw [chars_of_ne_suggestion _ kind, withoutSwitches_append_of_no_escape sign,
      withoutSwitches_styled hasEmoji _ free, withoutSwitches_nil, unlabelled]
    simp

private theorem line_colored_eq_uncolored_iff (hasEmoji hasStyles : Bool) (m : Message) :
    m.line ⟨hasEmoji, false⟩ true = m.line ⟨hasEmoji, hasStyles⟩ false ↔ m.kind ≠ .suggestion := by
  rw [line_colored, line_uncolored, ← label_eq_empty_iff, String.append_left_inj]
  exact String.append_eq_left_iff

/-- Colors add switches to a line and nothing else exactly if the message is no suggestion: the lines then agree on a
terminal without styles and, the switches deleted from it, on one with styles. The line of a suggestion has a label
in colors, which is lost without. -/
theorem colors_only_style_iff (hasEmoji : Bool) (m : Message) :
    (m.line ⟨hasEmoji, false⟩ true = m.line ⟨hasEmoji, false⟩ false ↔ m.kind ≠ .suggestion) ∧
      (¬ HoldsSwitch m.text.toList →
        (unstyle (m.line ⟨hasEmoji, true⟩ true) = m.line ⟨hasEmoji, true⟩ false ↔ m.kind ≠ .suggestion)) ∧
      (m.kind = .suggestion →
        m.line ⟨hasEmoji, false⟩ true = m.kind.sign hasEmoji ++ " Suggestion: " ++ m.text ∧
          ∀ hasStyles, m.line ⟨hasEmoji, hasStyles⟩ false = m.kind.sign hasEmoji ++ m.text) := by
  refine ⟨line_colored_eq_uncolored_iff hasEmoji false m, fun free => ?_, fun kind => ⟨?_, fun hasStyles => ?_⟩⟩
  · rw [unstyle_line hasEmoji free]
    exact line_colored_eq_uncolored_iff hasEmoji true m
  · rw [line_colored, kind]
    rfl
  · exact line_uncolored ⟨hasEmoji, hasStyles⟩ m

/-- A message in which a switch is begun and broken off, and a suggestion on a terminal without emoji. -/
theorem colors_only_style_iff_of_broken_off :
    ¬ HoldsSwitch "\x1b[3".toList ∧
      unstyle ((error "\x1b[3").line ⟨true, true⟩ true) = (error "\x1b[3").line ⟨true, true⟩ false ∧
      (suggestion "Try again").kind = .suggestion ∧
      (suggestion "Try again").line ⟨false, false⟩ true = "[S]  Suggestion: Try again" ∧
      (suggestion "Try again").line ⟨false, true⟩ false = "[S] Try again" := by
  have free : ¬ HoldsSwitch "\x1b[3".toList := by
    rintro ⟨digits, -, inside⟩
    have mark : 'm' ∈ "\x1b[3".toList := inside.subset (by simp [switch])
    exact absurd mark (by decide)
  obtain ⟨-, styled, -⟩ := colors_only_style_iff true (error "\x1b[3")
  obtain ⟨-, -, labelled⟩ := colors_only_style_iff false (suggestion "Try again")
  obtain ⟨colored, uncolored⟩ := labelled rfl
  exact ⟨free, (styled free).mpr (by decide), rfl, colored.trans (by decide), (uncolored true).trans (by decide)⟩

/-- Without colors a suggestion loses more than its styles, whether the terminal has them or not. -/
theorem suggestion_loses_label :
    (suggestion "Try again").line ⟨true, false⟩ true ≠ (suggestion "Try again").line ⟨true, false⟩ false ∧
      ¬ HoldsSwitch "Try again".toList ∧
      unstyle ((suggestion "Try again").line ⟨true, true⟩ true) ≠
        (suggestion "Try again").line ⟨true, true⟩ false := by
  have free : ¬ HoldsSwitch "Try again".toList := not_holdsSwitch_of_no_escape (by decide)
  have differ :
      (suggestion "Try again").line ⟨true, false⟩ true ≠ (suggestion "Try again").line ⟨true, false⟩ false := by
    rw [line_colored, line_uncolored]
    decide
  refine ⟨differ, free, ?_⟩
  rw [unstyle_line true free, line_uncolored]
  rw [line_uncolored] at differ
  exact differ

end Message

end Overlays
