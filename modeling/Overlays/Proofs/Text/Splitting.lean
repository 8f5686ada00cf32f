import Mathlib.Data.List.Basic
import Overlays.ResourceName

/-!
Texts that are split at separators: at the first occurrence of one, and by a pattern in which groups stand between the
separators. A group takes as little as it can, and more only if nothing else lets the rest of the pattern match; where
another group follows the separator that never helps, so each group ends at the first one.
-/

set_option autoImplicit false
set_option relaxedAutoImplicit false

namespace Overlays

variable {separator : Char} {before after cs : List Char}

theorem splitAtFirst?_eq_some_iff :
    splitAtFirst? separator cs = some (before, after) ↔ cs = before ++ separator :: after ∧ separator ∉ before := by
  induction cs generalizing before with
  | nil => simp [splitAtFirst?]
  | cons c cs ih =>
    rw [splitAtFirst?]
    by_cases here : c = separator
    · subst here
      rw [if_pos rfl]
      constructor
      · intro h
        cases h
        exact ⟨rfl, List.not_mem_nil⟩
      · rintro ⟨parts, absent⟩
        cases before with
        | nil =>
          cases parts
          rfl
        | cons b before =>
          cases parts
          exact absurd List.mem_cons_self absent
    · rw [if_neg here, Option.map_eq_some_iff]
      constructor
      · rintro ⟨⟨before', after'⟩, split, h⟩
        cases h
        obtain ⟨rfl, absent⟩ := ih.mp split
        exact ⟨rfl, List.not_mem_cons_of_ne_of_not_mem (Ne.symm here) absent⟩
      · rintro ⟨parts, absent⟩
        cases before with
        | nil =>
          cases parts
          exact absurd rfl here
        | cons b before =>
          cases parts
          exact ⟨(before, after), ih.mpr ⟨rfl, List.not_mem_of_not_mem_cons absent⟩, rfl⟩

theorem splitAtFirst?_eq_none_iff : splitAtFirst? separator cs = none ↔ separator ∉ cs := by
  induction cs with
  | nil => simp [splitAtFirst?]
  | cons c cs ih =>
    rw [splitAtFirst?]
    by_cases here : c = separator
    · simp [here]
    · rw [if_neg here, Option.map_eq_none_iff, ih]
      exact ⟨List.not_mem_cons_of_ne_of_not_mem (Ne.symm here), List.not_mem_of_not_mem_cons⟩

namespace Text

/-- A part of a pattern: a character that must be there, or a group of any characters of one line. -/
inductive PatternPart where
  | char (c : Char)
  | group
deriving DecidableEq

namespace Pattern

/-- What a group can take from the front of a text, the least first, and what it leaves. -/
def takings : List Char → List (List Char × List Char)
  | [] => [([], [])]
  | c :: cs => ([], c :: cs) :: if c = '\n' then [] else (takings cs).map fun p => (c :: p.1, p.2)

/-- What the groups take when a pattern is matched with a whole text: of the ways in which that can be done, the first
one that is found when every group tries what it can take, the least first. -/
def capture? : List PatternPart → List Char → Option (List (List Char))
  | [], cs => if cs.isEmpty then some [] else none
  | .char _ :: _, [] => none
  | .char c :: ps, d :: ds => if d = c then capture? ps ds else none
  | .group :: ps, cs => (takings cs).findSome? fun p => (capture? ps p.2).map (p.1 :: ·)

variable {ps : List PatternPart} {c d : Char} {cs before after : List Char}

private theorem capture?_char : capture? (.char c :: ps) (d :: cs) = if d = c then capture? ps cs else none := rfl

private theorem mem_takings_iff : (before, after) ∈ takings cs ↔ cs = before ++ after ∧ '\n' ∉ before := by
  induction cs generalizing before with
  | nil =>
    simp only [takings, List.mem_singleton, Prod.mk.injEq]
    constructor
    · rintro ⟨rfl, rfl⟩
      exact ⟨rfl, List.not_mem_nil⟩
    · rintro ⟨parts, -⟩
      exact List.append_eq_nil_iff.mp parts.symm
  | cons c cs ih =>
    rw [takings, List.mem_cons]
    cases before with
    | nil =>
      constructor
      · rintro (whole | more)
        · cases whole
          exact ⟨rfl, List.not_mem_nil⟩
        · split at more
          · cases more
          · obtain ⟨p, -, h⟩ := List.mem_map.mp more
            cases h
      · rintro ⟨rfl, -⟩
        exact .inl rfl
    | cons b before =>
      by_cases end_ : c = '\n'
      · rw [if_pos end_]
        refine iff_of_false (by simp) ?_
        rintro ⟨parts, absent⟩
        cases parts
        exact absent (end_ ▸ List.mem_cons_self)
      · rw [if_neg end_, List.mem_map]
        constructor
        · rintro (whole | ⟨⟨before', after'⟩, more, h⟩)
          · cases whole
          · cases h
            obtain ⟨rfl, absent⟩ := ih.mp more
            exact ⟨rfl, List.not_mem_cons_of_ne_of_not_mem (Ne.symm end_) absent⟩
        · rintro ⟨parts, absent⟩
          cases parts
          exact .inr ⟨(before, after), ih.mpr ⟨rfl, List.not_mem_of_not_mem_cons absent⟩, rfl⟩

private theorem isSome_capture?_group_iff :
    (capture? (.group :: ps) cs).isSome = true ↔
      ∃ before after, cs = before ++ after ∧ '\n' ∉ before ∧ (capture? ps after).isSome = true := by
  rw [capture?, List.findSome?_isSome_iff]
  constructor
  · rintro ⟨⟨before, after⟩, taken, matched⟩
    obtain ⟨parts, line⟩ := mem_takings_iff.mp taken
    exact ⟨before, after, parts, line, by simpa using matched⟩
  · rintro ⟨before, after, parts, line, matched⟩
    exact ⟨(before, after), mem_takings_iff.mpr ⟨parts, line⟩, by simpa using matched⟩

private theorem capture?_group_eq_none (line : '\n' ∉ before) (h : capture? (.group :: ps) (before ++ cs) = none) :
    capture? (.group :: ps) cs = none := by
  by_contra matched
  obtain ⟨front, rest, rfl, line', matched⟩ := isSome_capture?_group_iff.mp (Option.isSome_iff_ne_none.mpr matched)
  have longer : (capture? (.group :: ps) (before ++ (front ++ rest))).isSome = true := by
    refine isSome_capture?_group_iff.mpr ⟨before ++ front, rest, (List.append_assoc _ _ _).symm, ?_, matched⟩
    intro ends
    rcases List.mem_append.mp ends with ends | ends
    · exact line ends
    · exact line' ends
  rw [h] at longer
  cases longer

/-- Where a group follows the separator, a group in front of it ends at the first separator or nowhere: if the rest does not
match what is behind that one, it does not match what is behind a later one, of which there is less. -/
private theorem findSome?_takings (solid : c ≠ '\n') (f : List Char → List (List Char) → List (List Char)) :
    ((takings cs).findSome? fun p => (capture? (.char c :: .group :: ps) p.2).map (f p.1)) =
      (splitAtFirst? c cs).bind fun p =>
        if '\n' ∈ p.1 then none else (capture? (.group :: ps) p.2).map (f p.1) := by
  induction cs generalizing f with
  | nil => rfl
  | cons d ds ih =>
    rw [takings, List.findSome?_cons, capture?_char, splitAtFirst?]
    by_cases here : d = c
    · subst here
      rw [if_pos rfl, if_pos rfl, if_neg solid, Option.bind_some, if_neg List.not_mem_nil]
      cases matched : capture? (.group :: ps) ds with
      | some gs => rfl
      | none =>
        refine List.findSome?_eq_none_iff.mpr fun p listed => ?_
        obtain ⟨⟨before, after⟩, taken, rfl⟩ := List.mem_map.mp listed
        obtain ⟨rfl, line⟩ := mem_takings_iff.mp taken
        cases after with
        | nil => rfl
        | cons e after =>
          by_cases again : e = d
          · subst again
            have line' : '\n' ∉ before ++ [e] := by
              simpa [line] using Ne.symm solid
            rw [List.append_cons] at matched
            have unmatched := capture?_group_eq_none line' matched
            rw [capture?_char, if_pos rfl, unmatched, Option.map_none]
          · rw [capture?_char, if_neg again, Option.map_none]
    · rw [if_neg here, if_neg here, Option.map_none]
      by_cases ends : d = '\n'
      · subst ends
        cases splitAtFirst? c ds with
        | none => rfl
        | some p => simp
      · rw [if_neg ends, List.findSome?_map]
        have behind := ih fun before => f (d :: before)
        cases split : splitAtFirst? c ds with
        | none =>
          rw [split] at behind
          exact behind
        | some p =>
          rw [split] at behind
          simpa [Function.comp_def, Ne.symm ends] using behind

theorem capture?_group_char_group (solid : c ≠ '\n') (ps : List PatternPart) (cs : List Char) :
    capture? (.group :: .char c :: .group :: ps) cs = (splitAtFirst? c cs).bind fun p =>
      if '\n' ∈ p.1 then none else (capture? (.group :: ps) p.2).map (p.1 :: ·) :=
  findSome?_takings solid List.cons

theorem capture?_group (cs : List Char) : capture? [.group] cs = if '\n' ∈ cs then none else some [cs] := by
  have last (f : List Char → List (List Char) → List (List Char)) :
      ((takings cs).findSome? fun p => (capture? [] p.2).map (f p.1)) =
        if '\n' ∈ cs then none else some (f cs []) := by
    induction cs generalizing f with
    | nil => rfl
    | cons d ds ih =>
      rw [takings, List.findSome?_cons]
      by_cases ends : d = '\n'
      · simp [ends, capture?]
      · rw [if_neg ends, List.findSome?_map]
        simpa [Function.comp_def, Ne.symm ends, capture?] using ih fun before => f (d :: before)
  exact last List.cons

end Pattern

end Text

end Overlays
