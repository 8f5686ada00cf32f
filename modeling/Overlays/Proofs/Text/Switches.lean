import Mathlib.Data.List.Infix
import Mathlib.Data.List.TakeWhile

/-!
Switches of styles in a text: short sequences of characters behind an escape character, which a terminal does not show
but takes as orders. A text can be freed of them; what is between them stays as it is, even where it looks like the
beginning of one.
-/

set_option autoImplicit false
set_option relaxedAutoImplicit false

namespace Overlays

namespace Text

/-- A switch of styles as it stands in a text: an escape character, a bracket, digits and an `m`. -/
def switch (digits : List Char) : List Char := '\x1b' :: '[' :: (digits ++ ['m'])

/-- Somewhere in a text stands a switch. -/
def HoldsSwitch (cs : List Char) : Prop := ∃ digits, (∀ c ∈ digits, c.isDigit = true) ∧ switch digits <:+: cs

/-- What is behind the switch that a text begins with, if it begins with one. -/
def behindSwitch? : List Char → Option (List Char)
  | '\x1b' :: '[' :: cs =>
    if (cs.dropWhile Char.isDigit).head? = some 'm' then some (cs.dropWhile Char.isDigit).tail else none
  | _ => none

variable {cs rest digits : List Char} {c : Char}

private theorem behindSwitch?_eq_some_iff :
    behindSwitch? cs = some rest ↔ ∃ digits, (∀ c ∈ digits, c.isDigit = true) ∧ cs = switch digits ++ rest := by
  unfold behindSwitch?
  split
  · next cs =>
    constructor
    · intro h
      split at h
      · next mark =>
        obtain ⟨tail, behind⟩ := List.head?_eq_some_iff.mp mark
        rw [behind, List.tail_cons] at h
        cases h
        refine ⟨cs.takeWhile Char.isDigit, fun c member => List.mem_takeWhile_imp member, ?_⟩
        have parts := List.takeWhile_append_dropWhile (p := Char.isDigit) (l := cs)
        rw [behind] at parts
        simp [switch, parts]
      · cases h
    · rintro ⟨digits, all, parts⟩
      have parts : cs = digits ++ 'm' :: rest := by simpa [switch] using parts
      have behind : cs.dropWhile Char.isDigit = 'm' :: rest := by
        rw [parts, List.dropWhile_append_of_pos all, List.dropWhile_cons_of_neg (by decide)]
      rw [behind]
      rfl
  · next other =>
    refine iff_of_false nofun ?_
    rintro ⟨digits, -, parts⟩
    exact other _ parts

private theorem escape_not_mem (all : ∀ c ∈ digits, c.isDigit = true) : '\x1b' ∉ '[' :: (digits ++ ['m']) := by
  intro member
  have in_digits : '\x1b' ∈ digits := by simpa using member
  exact absurd (all _ in_digits) (by decide)

private theorem length_of_behindSwitch? (h : behindSwitch? cs = some rest) : rest.length < cs.length := by
  obtain ⟨digits, -, rfl⟩ := behindSwitch?_eq_some_iff.mp h
  simp only [switch, List.length_append, List.length_cons]
  omega

/-- A text without its switches. -/
def withoutSwitches : List Char → List Char
  | [] => []
  | c :: cs =>
    match _h : behindSwitch? (c :: cs) with
    | some rest => withoutSwitches rest
    | none => c :: withoutSwitches cs
termination_by cs => cs.length
decreasing_by
  · exact length_of_behindSwitch? ‹_›
  · exact Nat.lt_succ_self cs.length

/-- A text as it is seen where switches are not shown. -/
def unstyle (s : String) : String := String.ofList (withoutSwitches s.toList)

theorem withoutSwitches_nil : withoutSwitches [] = [] := by
  rw [withoutSwitches]

theorem withoutSwitches_switch (all : ∀ c ∈ digits, c.isDigit = true) (rest : List Char) :
    withoutSwitches (switch digits ++ rest) = withoutSwitches rest := by
  have behind : behindSwitch? (switch digits ++ rest) = some rest :=
    behindSwitch?_eq_some_iff.mpr ⟨digits, all, rfl⟩
  rw [switch, List.cons_append] at behind ⊢
  rw [withoutSwitches]
  split
  · next found =>
    rw [behind] at found
    cases found
    rfl
  · next none_found =>
    rw [behind] at none_found
    cases none_found

private theorem withoutSwitches_cons (h : behindSwitch? (c :: cs) = none) :
    withoutSwitches (c :: cs) = c :: withoutSwitches cs := by
  rw [withoutSwitches]
  split
  · next found =>
    rw [h] at found
    cases found
  · rfl

private theorem HoldsSwitch.cons (h : HoldsSwitch cs) (c : Char) : HoldsSwitch (c :: cs) := by
  obtain ⟨digits, all, inside⟩ := h
  exact ⟨digits, all, inside.trans (List.suffix_cons c cs).isInfix⟩

theorem not_holdsSwitch_of_no_escape (h : '\x1b' ∉ cs) : ¬ HoldsSwitch cs := by
  rintro ⟨digits, -, inside⟩
  exact h (inside.subset List.mem_cons_self)

private theorem behindSwitch?_of_ne (other : c ≠ '\x1b') : behindSwitch? (c :: cs) = none := by
  refine Option.eq_none_iff_forall_ne_some.mpr fun after found => ?_
  obtain ⟨digits, -, parts⟩ := behindSwitch?_eq_some_iff.mp found
  exact other (List.head_eq_of_cons_eq parts)

/-- A switch that a text has only the beginning of does not go on behind it, where another switch begins or nothing
follows. -/
private theorem behindSwitch?_of_broken_off (free : ¬ HoldsSwitch (c :: cs))
    (ends : rest = [] ∨ rest.head? = some '\x1b') : behindSwitch? (c :: (cs ++ rest)) = none := by
  refine Option.eq_none_iff_forall_ne_some.mpr fun after found => ?_
  obtain ⟨digits, all, parts⟩ := behindSwitch?_eq_some_iff.mp found
  have parts : (c :: cs) ++ rest = switch digits ++ after := parts
  rcases List.append_eq_append_iff.mp parts with ⟨more, longer, behind⟩ | ⟨more, within, -⟩
  · cases more with
    | nil =>
      rw [List.append_nil] at longer
      exact free ⟨digits, all, longer ▸ List.infix_rfl⟩
    | cons x more =>
      -- the switch would go on with the escape character that `rest` begins with
      have escape : x = '\x1b' := by simpa [behind] using ends
      have tail : '[' :: (digits ++ ['m']) = cs ++ x :: more := List.tail_eq_of_cons_eq longer
      exact escape_not_mem all (tail ▸ escape ▸ List.mem_append_right cs List.mem_cons_self)
  · exact free ⟨digits, all, within ▸ (List.prefix_append _ _).isInfix⟩

theorem withoutSwitches_append_of_no_escape (h : '\x1b' ∉ cs) (rest : List Char) :
    withoutSwitches (cs ++ rest) = cs ++ withoutSwitches rest := by
  induction cs with
  | nil => rfl
  | cons c cs ih =>
    obtain ⟨first, others⟩ := List.ne_and_not_mem_of_not_mem_cons h
    have kept : behindSwitch? (c :: (cs ++ rest)) = none := behindSwitch?_of_ne first.symm
    rw [List.cons_append, withoutSwitches_cons kept, ih others, List.cons_append]

theorem withoutSwitches_append (free : ¬ HoldsSwitch cs) (ends : rest = [] ∨ rest.head? = some '\x1b') :
    withoutSwitches (cs ++ rest) = cs ++ withoutSwitches rest := by
  induction cs with
  | nil => rfl
  | cons c cs ih =>
    have kept : behindSwitch? (c :: (cs ++ rest)) = none := behindSwitch?_of_broken_off free ends
    have free' : ¬ HoldsSwitch cs := fun h => free (h.cons c)
    rw [List.cons_append, withoutSwitches_cons kept, ih free', List.cons_append]

theorem withoutSwitches_eq_self (free : ¬ HoldsSwitch cs) : withoutSwitches cs = cs := by
  have kept := withoutSwitches_append free (.inl rfl)
  rwa [List.append_nil, withoutSwitches_nil, List.append_nil] at kept

end Text

end Overlays
