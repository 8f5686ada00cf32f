import Overlays.Proofs.Yaml.Tokens

set_option autoImplicit false
set_option relaxedAutoImplicit false

namespace Overlays.Yaml.Scanner

open Quoting

/-- A block collection whose marks stand at a column, with `outer` open around it: it is open already, or the next mark
opens it, which puts one token more in front. -/
inductive Opening (t : Token) (column : Nat) : List Nat → List Nat → List Token → Prop
  | begun (outer : List Nat) : Opening t column (column :: outer) outer []
  | fresh (outer : List Nat) (right : ∀ i ∈ outer.head?, i < column) : Opening t column outer outer [t]

section Marks

variable {place : Place} {tokens opened : List Token} {indents outer : List Nat} {rest r : List Char}
  {keyAllowed : Bool} {t : Token} {column : Nat}

private theorem Opening.fits (opening : Opening t column indents outer opened) : ∀ i ∈ indents.head?, i ≤ column := by
  cases opening with
  | begun =>
    rintro i ⟨⟩
    exact Nat.le_refl _
  | fresh _ right => exact fun i first => Nat.le_of_lt (right i first)

private theorem insertIdx_behind (later tokens : List Token) (t : Token) :
    (later ++ tokens).insertIdx later.length t = later ++ t :: tokens := by
  induction later with
  | nil => rfl
  | cons u later ih =>
    rw [List.cons_append, List.length_cons, List.insertIdx_succ_cons, ih]
    rfl

private theorem insertAt_eq (later : List Token) (pending : Option PendingKey) (t : Token) :
    insertAt ⟨rest, place, later ++ tokens, (later ++ tokens).length, indents, keyAllowed, pending, []⟩
        tokens.length t =
      ⟨rest, place, later ++ t :: tokens, (later ++ t :: tokens).length, indents, keyAllowed, pending, []⟩ := by
  have index : (later ++ tokens).length - tokens.length = later.length := by
    rw [List.length_append, Nat.add_sub_cancel]
  have count : (later ++ tokens).length + 1 = (later ++ t :: tokens).length := by
    rw [List.length_append, List.length_append, List.length_cons, Nat.add_assoc]
  rw [insertAt]
  dsimp only
  rw [index, insertIdx_behind, count]

private theorem openBlock_eq (opening : Opening t column indents outer opened) (later : List Token)
    (pending : Option PendingKey) :
    openBlock ⟨rest, place, later ++ tokens, (later ++ tokens).length, indents, keyAllowed, pending, []⟩ column
        tokens.length t =
      ⟨rest, place, later ++ (opened ++ tokens), (later ++ (opened ++ tokens)).length, column :: outer, keyAllowed,
        pending, []⟩ := by
  cases opening with
  | begun =>
    rw [openBlock]
    simp [inFlow]
  | fresh _ right =>
    rw [openBlock]
    dsimp only
    rw [insertAt_eq]
    cases indents with
    | nil => rfl
    | cons i around =>
      have deeper : i < column := right i rfl
      rw [if_neg (by simp [inFlow, deeper])]
      rfl

private theorem token_dash (opening : Opening .blockSequenceStart place.column indents outer opened)
    (gap : atGap r = true) : (upon ('-' :: r) place tokens indents true).token .strict =
      some (upon r (place.right 1) (.blockEntry :: (opened ++ tokens)) (place.column :: outer) true) := by
  have no_mark : atDocumentMark ('-' :: r) = false := by
    unfold atDocumentMark
    split
    · rename_i same
      cases same
      cases gap
    · rename_i same
      cases same
    · rfl
  have entry : (upon ('-' :: r) place tokens indents true).token .strict =
      (upon ('-' :: r) place tokens indents true).blockEntry := by
    rw [token]
    simp [upon, no_mark, gap]
  rw [entry, blockEntry]
  change ((openBlock ⟨'-' :: r, place, [] ++ tokens, ([] ++ tokens).length, indents, true, none, []⟩ place.column
    tokens.length .blockSequenceStart).dropKey.bind _) = _
  rw [openBlock_eq opening]
  rfl

private theorem token_question (opening : Opening .blockMappingStart place.column indents outer opened)
    (gap : atGap r = true) :
    (upon ('?' :: r) place tokens indents true).token .strict =
      some (upon r (place.right 1) (.key :: (opened ++ tokens)) (place.column :: outer) true) := by
  have key : (upon ('?' :: r) place tokens indents true).token .strict =
      (upon ('?' :: r) place tokens indents true).explicitKey := by
    rw [token]
    simp [upon, atDocumentMark, inFlow, gap]
  rw [key, explicitKey]
  change ((openBlock ⟨'?' :: r, place, [] ++ tokens, ([] ++ tokens).length, indents, true, none, []⟩ place.column
    tokens.length .blockMappingStart).dropKey.bind _) = _
  rw [openBlock_eq opening]
  rfl

private theorem token_colon (s : Scanner) (rest_eq : s.rest = ':' :: r) (gap : atGap r = true) :
    s.token .strict = s.value .strict := by
  rw [token, rest_eq]
  simp [atDocumentMark, gap]

private theorem token_colon_of_marked (gap : atGap r = true) :
    (upon (':' :: r) place tokens (place.column :: outer) true).token .strict =
      some (upon r (place.right 1) (.value :: tokens) (place.column :: outer) true) := by
  rw [token_colon _ rfl gap, value]
  simp [upon, Dialect.strict, openBlock, inFlow, skip, emit]

private theorem token_colon_of_pending {text : String} {style : Style} {place' : Place} {isRequired : Bool}
    (opening : Opening .blockMappingStart place.column indents outer opened) (gap : atGap r = true) :
    token .strict ⟨':' :: r, place', .scalar text style :: tokens, tokens.length + 1, indents, false,
        some ⟨isRequired, tokens.length, place⟩, []⟩ =
      some (upon r (place'.right 1) (.value :: .scalar text style :: .key :: (opened ++ tokens))
        (place.column :: outer) false) := by
  rw [token_colon _ rfl gap, value]
  change some (((({ openBlock (insertAt ⟨':' :: r, place', [Token.scalar text style] ++ tokens,
    ([Token.scalar text style] ++ tokens).length, indents, false, some ⟨isRequired, tokens.length, place⟩, []⟩
    tokens.length .key) place.column tokens.length .blockMappingStart with
      pending := none, keyAllowed := false } : Scanner).skip 1).emit .value)) = _
  have listed : [Token.scalar text style] ++ .key :: tokens = [.scalar text style, .key] ++ tokens := rfl
  rw [insertAt_eq, listed, openBlock_eq opening]
  rfl

end Marks

section Steps

variable {s : Scanner} {tokens opened : List Token} {indents outer : List Nat} {r : List Char} {column : Nat}

theorem steps_dash (faces : s.FacesAt ('-' :: r) column true indents tokens)
    (opening : Opening .blockSequenceStart column indents outer opened) (gap : atGap r = true) :
    ∃ place, place.column = column + 1 ∧
      Steps s (upon r place (.blockEntry :: (opened ++ tokens)) (column :: outer) true) := by
  obtain ⟨line, go⟩ := faces.steps (by simp) opening.fits
  exact ⟨_, rfl, go _ _ (token_dash opening gap) (Nat.lt_succ_self _) (.refl _)⟩

theorem steps_question (faces : s.FacesAt ('?' :: r) column true indents tokens)
    (opening : Opening .blockMappingStart column indents outer opened) (gap : atGap r = true) :
    ∃ place, place.column = column + 1 ∧
      Steps s (upon r place (.key :: (opened ++ tokens)) (column :: outer) true) := by
  obtain ⟨line, go⟩ := faces.steps (by simp) opening.fits
  exact ⟨_, rfl, go _ _ (token_question opening gap) (Nat.lt_succ_self _) (.refl _)⟩

theorem steps_colon (faces : s.FacesAt (':' :: r) column true (column :: outer) tokens) (gap : atGap r = true) :
    ∃ place, place.column = column + 1 ∧
      Steps s (upon r place (.value :: tokens) (column :: outer) true) := by
  obtain ⟨line, go⟩ := faces.steps (by simp) (by rintro i ⟨⟩; exact Nat.le_refl _)
  exact ⟨_, rfl, go _ _ (token_colon_of_marked gap) (Nat.lt_succ_self _) (.refl _)⟩

private theorem ready?_at_colon {text : String} {style : Style} {place : Place} {n : Nat} {isRequired : Bool}
    (near : n ≤ 1024) :
    ready? ⟨':' :: r, place.right n, .scalar text style :: tokens, tokens.length + 1, indents, false,
        some ⟨isRequired, tokens.length, place⟩, []⟩ =
      some ⟨':' :: r, place.right n, .scalar text style :: tokens, tokens.length + 1, indents, false,
        some ⟨isRequired, tokens.length, place⟩, []⟩ := by
  have near : ¬ place.column + 1024 < place.column + n := by omega
  rw [ready?, skipToToken]
  simp [skipSpace, isBreak, isSeparator, byteOrderMark, dropStaleKeys, isStale, Place.right, near]

private theorem closeBlocks_of_fits (fits : ∀ i ∈ s.indents.head?, i ≤ column) : s.closeBlocks (some column) = s := by
  rw [closeBlocks]
  split
  · rfl
  · obtain ⟨rest, place, tokens, count, indents, keyAllowed, pending, outer⟩ := s
    cases indents with
    | nil => rfl
    | cons i around =>
      have kept : ¬ column < i := Nat.not_lt.mpr (fits i rfl)
      simp [kept]

theorem steps_key {k : Phrase} {indent : Nat}
    (faces : s.FacesAt (k.write indent ++ ':' :: r) column true indents tokens)
    (opening : Opening .blockMappingStart column indents outer opened) (simple : k.isSimpleKey = true)
    (flat : k.settled ≠ .literal) (positive : 0 < indent) (gap : atGap r = true) :
    ∃ place, column < place.column ∧
      Steps s (upon r place (.value :: .scalar k.text k.settled :: .key :: (opened ++ tokens)) (column :: outer)
        false) := by
  obtain ⟨line, go⟩ := faces.steps (by simp) opening.fits
  obtain ⟨n, isRequired, near, key⟩ := token_key ⟨line, column⟩ tokens simple flat gap opening.fits positive
  have fits : ∀ i ∈ indents.head?, i ≤ column + n :=
    fun i first => Nat.le_trans (opening.fits i first) (Nat.le_add_right column n)
  refine ⟨⟨line, column + n + 1⟩, Nat.lt_succ_of_le (Nat.le_add_right column n), go _ _ key ?_ ?_⟩
  · have some_text := List.length_pos_iff.mpr (solid_write k indent []).1
    simp only [List.length_append]
    omega
  refine .step (ready?_at_colon near) (by simp) ?_ (Nat.lt_succ_self _) (.refl _)
  rw [closeBlocks_of_fits fits]
  exact token_colon_of_pending opening gap

theorem steps_value (tokens : List Token) (outer : List Nat) (keyAllowed : Bool) (p : Phrase) {place : Place}
    {n : Nat} {body : List Char} (inner : column ≤ place.column) (left : n ≤ column) (solid : Solid body) :
    ∃ s', Steps (upon (' ' :: p.write (column + 2) ++ p.lineEnd ++ (spaces n ++ body)) place tokens (column :: outer)
        keyAllowed) s' ∧
      s'.FacesAt body n true (column :: outer) (.scalar p.text p.settled :: tokens) := by
  have word := solid_write p (column + 2) (p.lineEnd ++ (spaces n ++ body))
  have faces := facesAt_spaces place tokens (column :: outer) keyAllowed word.2 1
  obtain ⟨line, go⟩ := faces.steps (by simp [word.1]) (by rintro i ⟨⟩; exact Nat.le_succ_of_le inner)
  obtain ⟨s', token, shorter, faces'⟩ := token_value ⟨line, place.column + 1⟩ tokens outer keyAllowed p
    (Nat.lt_succ_of_le inner) left solid
  refine ⟨s', ?_, faces'⟩
  rw [List.append_assoc]
  exact go _ _ token shorter (.refl _)

/-- The signs and the tokens around an empty sequence or mapping. -/
inductive Brackets : Char → Char → Token → Token → Prop
  | sequence : Brackets '[' ']' .flowSequenceStart .flowSequenceEnd
  | mapping : Brackets '{' '}' .flowMappingStart .flowMappingEnd

/-- The scanner in a flow collection, with what was pending before it. -/
private def inFlowBehind (rest : List Char) (place : Place) (tokens : List Token) (indents : List Nat)
    (k : Option PendingKey) : Scanner :=
  ⟨rest, place, tokens, tokens.length, indents, true, none, [k]⟩

variable {first last : Char} {starts ends : Token} {place : Place} {keyAllowed : Bool}

private theorem token_opens (kind : Brackets first last starts ends) :
    (upon (first :: r) place tokens indents keyAllowed).token .strict =
      some (inFlowBehind r (place.right 1) (starts :: tokens) indents (keyAt place tokens indents keyAllowed)) := by
  cases kind <;> cases keyAllowed
  all_goals
    rw [token]
    simp [upon, atDocumentMark, openFlow, noteKey, dropKey, inFlow, skip, emit, inFlowBehind, keyAt]

private theorem ready?_closes (kind : Brackets first last starts ends) :
    (inFlowBehind (last :: r) (place.right 1) tokens indents (keyAt place opened indents keyAllowed)).ready? =
      some (inFlowBehind (last :: r) (place.right 1) tokens indents (keyAt place opened indents keyAllowed)) := by
  cases kind <;> cases keyAllowed
  all_goals
    rw [ready?, skipToToken]
    simp [inFlowBehind, inFlow, skipSpace, isBreak, isSeparator, byteOrderMark, dropStaleKeys, keyAt, isStale,
      Place.right]

private theorem token_closes (kind : Brackets first last starts ends) (k : Option PendingKey) :
    ((inFlowBehind (last :: r) place tokens indents k).closeBlocks (some place.column)).token .strict =
      some ⟨r, place.right 1, ends :: tokens, tokens.length + 1, indents, false, k, []⟩ := by
  cases kind
  all_goals
    rw [token]
    simp [inFlowBehind, closeBlocks, atDocumentMark, closeFlow, dropKey, inFlow, skip, emit]

theorem steps_empty (kind : Brackets first last starts ends) {n : Nat} {body : List Char}
    (inner : column ≤ place.column) (solid : Solid body) :
    ∃ s', Steps (upon (' ' :: first :: last :: '\n' :: (spaces n ++ body)) place tokens (column :: outer)
        keyAllowed) s' ∧
      s'.FacesAt body n true (column :: outer) (ends :: starts :: tokens) := by
  have bracket : Solid (first :: last :: '\n' :: (spaces n ++ body)) := by
    rintro d ⟨⟩
    cases kind <;> decide
  have faces := facesAt_spaces place tokens (column :: outer) keyAllowed bracket 1
  obtain ⟨line, go⟩ := faces.steps (by simp) (by rintro i ⟨⟩; exact Nat.le_succ_of_le inner)
  refine ⟨_, go _ _ (token_opens kind) (Nat.lt_succ_self _) (.step (ready?_closes kind) (by simp [inFlowBehind])
    (token_closes kind _) (Nat.lt_succ_self _) (.refl _)), facesAt_line _ _ _ _ _ solid n fun k pending => ?_⟩
  obtain ⟨not_required, same_place⟩ := not_required_of_keyAt _ _ _ (Nat.lt_succ_of_le inner) k pending
  exact ⟨not_required, same_place ▸ Nat.le_refl _⟩

end Steps

end Overlays.Yaml.Scanner
