import Overlays.Proofs.Text.Splitting

set_option autoImplicit false
set_option relaxedAutoImplicit false

namespace Overlays.ResourceName

open Text

/-- A package, a colon, a type, a slash and a name. -/
def pattern : List PatternPart := [.group, .char ':', .group, .char '/', .group]

/-- The parts of a name, as the groups of the pattern take them. -/
def groups (n : ResourceName) : List (List Char) := [n.package.toList, n.type.toList, n.name.toList]

/-- A text of one line is the parts of a name around its first colon and the first slash behind that. -/
structure Splits (text : String) (n : ResourceName) : Prop where
  line : '\n' ∉ text.toList
  parts : text = n.package ++ ":" ++ n.type ++ "/" ++ n.name
  package_ends : ':' ∉ n.package.toList
  type_ends : '/' ∉ n.type.toList

variable {text text' : String} {n n' : ResourceName} {cs : List Char}

private theorem text_eq (n : ResourceName) : n.text = n.package ++ ":" ++ n.type ++ "/" ++ n.name := by
  simp only [ResourceName.text, entry, String.append_assoc]

private theorem toList_text (n : ResourceName) :
    n.text.toList = n.package.toList ++ ':' :: (n.type.toList ++ '/' :: n.name.toList) := by
  simp [ResourceName.text, entry]

private theorem capture?_pattern (cs : List Char) : Pattern.capture? pattern cs = (ofChars? cs).map groups := by
  have colon : ':' ≠ '\n' := by decide
  have slash : '/' ≠ '\n' := by decide
  rw [pattern, Pattern.capture?_group_char_group colon, ofChars?]
  cases split : splitAtFirst? ':' cs with
  | none => simp
  | some p =>
    obtain ⟨package, rest⟩ := p
    obtain ⟨rfl, -⟩ := splitAtFirst?_eq_some_iff.mp split
    rw [Option.bind_some, Pattern.capture?_group_char_group slash]
    cases split' : splitAtFirst? '/' rest with
    | none => simp [split']
    | some q =>
      obtain ⟨type, name⟩ := q
      obtain ⟨rfl, -⟩ := splitAtFirst?_eq_some_iff.mp split'
      by_cases first : '\n' ∈ package
      · simp [first]
      · by_cases second : '\n' ∈ type
        · simp [first, second]
        · by_cases third : '\n' ∈ name
          · simp [Pattern.capture?_group, first, second, third]
          · simp [Pattern.capture?_group, groups, split', first, second, third]

private theorem ofChars?_eq_some_iff : ofChars? cs = some n ↔
    '\n' ∉ cs ∧ cs = n.package.toList ++ ':' :: (n.type.toList ++ '/' :: n.name.toList) ∧
      ':' ∉ n.package.toList ∧ '/' ∉ n.type.toList := by
  rw [ofChars?]
  constructor
  · intro h
    split at h
    · cases h
    rename_i line
    obtain ⟨⟨package, rest⟩, split, h⟩ := Option.bind_eq_some_iff.mp h
    obtain ⟨⟨type, name⟩, split', h⟩ := Option.bind_eq_some_iff.mp h
    cases h
    obtain ⟨parts, package_ends⟩ := splitAtFirst?_eq_some_iff.mp split
    obtain ⟨rfl, type_ends⟩ := splitAtFirst?_eq_some_iff.mp split'
    simp only [String.toList_ofList]
    exact ⟨line, parts, package_ends, type_ends⟩
  · rintro ⟨line, parts, package_ends, type_ends⟩
    have split := splitAtFirst?_eq_some_iff.mpr ⟨parts, package_ends⟩
    have split' : splitAtFirst? '/' (n.type.toList ++ '/' :: n.name.toList) = _ :=
      splitAtFirst?_eq_some_iff.mpr ⟨rfl, type_ends⟩
    rw [if_neg line, split, Option.bind_eq_bind, Option.bind_some]
    dsimp only
    rw [split', Option.bind_some]
    simp only [String.ofList_toList]
    rfl

private theorem parse_ok_iff : parse text = .ok n ↔ Splits text n := by
  have read : parse text = .ok n ↔ ofChars? text.toList = some n := by
    rw [parse]
    cases ofChars? text.toList with
    | none => simp
    | some m => simp
  have whole : text = n.package ++ ":" ++ n.type ++ "/" ++ n.name ↔
      text.toList = n.package.toList ++ ':' :: (n.type.toList ++ '/' :: n.name.toList) := by
    rw [← text_eq, ← toList_text, String.toList_inj]
  rw [read, ofChars?_eq_some_iff, ← whole]
  constructor
  · rintro ⟨line, parts, package_ends, type_ends⟩
    exact ⟨line, parts, package_ends, type_ends⟩
  · rintro ⟨line, parts, package_ends, type_ends⟩
    exact ⟨line, parts, package_ends, type_ends⟩

private theorem Splits.text_eq (h : Splits text n) : n.text = text := by
  rw [ResourceName.text_eq, h.parts]

private theorem exists_splits_iff : (∃ n, Splits text n) ↔ '\n' ∉ text.toList ∧
    ∃ before after, text.toList = before ++ ':' :: after ∧ ':' ∉ before ∧ '/' ∈ after := by
  constructor
  · rintro ⟨n, h⟩
    refine ⟨h.line, n.package.toList, n.type.toList ++ '/' :: n.name.toList, ?_, h.package_ends, by simp⟩
    rw [← h.text_eq, toList_text]
  · rintro ⟨line, before, after, parts, package_ends, slash⟩
    cases split : splitAtFirst? '/' after with
    | none => exact absurd slash (splitAtFirst?_eq_none_iff.mp split)
    | some p =>
      obtain ⟨type, name⟩ := p
      obtain ⟨rfl, type_ends⟩ := splitAtFirst?_eq_some_iff.mp split
      refine ⟨⟨String.ofList before, String.ofList type, String.ofList name⟩, parse_ok_iff.mp ?_⟩
      have found : ofChars? text.toList = some ⟨String.ofList before, String.ofList type, String.ofList name⟩ := by
        refine ofChars?_eq_some_iff.mpr ⟨line, ?_, ?_, ?_⟩
        · simpa using parts
        · simpa using package_ends
        · simpa using type_ends
      rw [parse, found]

/-- A text is read as a resource name exactly if it is one line with a slash behind its first colon, which is when the
pattern matches. Its parts are then what is before that colon, what is from there to the next slash, and all the rest;
written down again they are the text, which nothing but that name is read from. -/
theorem parse_exact (text : String) :
    ((∃ n, parse text = .ok n) ↔ '\n' ∉ text.toList ∧
        ∃ before after, text.toList = before ++ ':' :: after ∧ ':' ∉ before ∧ '/' ∈ after) ∧
      Pattern.capture? pattern text.toList = (parse text).toOption.map groups ∧
      ∀ n, (parse text = .ok n ↔ Splits text n) ∧
        (parse text = .ok n → n.text = text ∧ parse n.text = .ok n ∧
          ∀ text' n', parse text' = .ok n' → n'.package = n.package → n'.entry = n.entry → text' = text) := by
  refine ⟨?_, ?_, fun n => ⟨parse_ok_iff, fun read => ?_⟩⟩
  · simp only [parse_ok_iff]
    exact exists_splits_iff
  · rw [capture?_pattern, parse]
    cases ofChars? text.toList with
    | none => rfl
    | some n => rfl
  · have shown : n.text = text := (parse_ok_iff.mp read).text_eq
    refine ⟨shown, shown.symm ▸ read, ?_⟩
    intro text' n' read' package entry
    have shown' : n'.text = text' := (parse_ok_iff.mp read').text_eq
    rw [← shown, ← shown', ResourceName.text, ResourceName.text, package, entry]

/-- Slashes in the package and in the name, a colon in the name, and no type at all. -/
theorem parse_exact_of_separators :
    parse "a/b:/c:d/e" = .ok ⟨"a/b", "", "c:d/e"⟩ ∧
      (⟨"a/b", "", "c:d/e"⟩ : ResourceName).text = "a/b:/c:d/e" ∧
      parse (⟨"a/b", "", "c:d/e"⟩ : ResourceName).text = .ok ⟨"a/b", "", "c:d/e"⟩ := by
  have read : parse "a/b:/c:d/e" = .ok ⟨"a/b", "", "c:d/e"⟩ := by decide +kernel
  obtain ⟨-, -, parts⟩ := parse_exact "a/b:/c:d/e"
  obtain ⟨shown, again, -⟩ := (parts ⟨"a/b", "", "c:d/e"⟩).2 read
  exact ⟨read, shown, again⟩

end Overlays.ResourceName
