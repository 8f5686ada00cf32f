import Overlays.Proofs.Yaml.Outlines
import Overlays.Yaml.Document

/-!
The tokens of a document are put together to its values. The fuel is measured in tokens: a value takes at most four
steps for each of its tokens.
-/

set_option autoImplicit false
set_option relaxedAutoImplicit false

namespace Overlays.Yaml.Outline

open Compose

/-- The tokens with which a value begins. -/
def beginsValue (isBehindKey : Bool) : Token → Bool
  | .scalar .. | .flowSequenceStart | .flowMappingStart | .blockSequenceStart | .blockMappingStart => true
  | .blockEntry => isBehindKey
  | _ => false

private theorem exists_tokens (o : Outline) (isBehindKey : Bool) :
    ∃ t ts, o.tokens isBehindKey = t :: ts ∧ beginsValue isBehindKey t = true := by
  cases o with
  | scalar p => exact ⟨_, _, rfl, rfl⟩
  | sequence os =>
    cases os with
    | nil => exact ⟨_, _, rfl, rfl⟩
    | cons o os => cases isBehindKey <;> exact ⟨_, _, rfl, rfl⟩
  | mapping es => cases es <;> exact ⟨_, _, rfl, rfl⟩

section Steps

variable {fuel : Nat} {r : Reading} {t : Token} {ts : List Token} {isBehindKey isIndentless : Bool}

private theorem node_eq_content (begins : beginsValue isBehindKey t = true) :
    node (fuel + 1) true isIndentless { r with tokens := t :: ts } =
      content fuel true isIndentless false none { r with tokens := t :: ts } := by
  cases t <;> first | rfl | cases begins

private theorem nodeUnless_eq_node {ends : Token → Bool} (there : ends t = false) :
    nodeUnless (fuel + 1) true isIndentless ends { r with tokens := t :: ts } =
      node fuel true isIndentless { r with tokens := t :: ts } := by
  change (if ends t then return .absent else node fuel true isIndentless : Compose Node)
    { r with tokens := t :: ts } = _
  rw [there, if_neg Bool.false_ne_true]

private theorem blockItems_entry :
    blockItems (fuel + 1) { r with tokens := .blockEntry :: ts } =
      (nodeUnless fuel true false endsBlockItem { r with tokens := ts }).bind fun item =>
        (blockItems fuel item.2).bind fun items => some (item.1 :: items.1, items.2) := rfl

private theorem indentlessItems_entry :
    indentlessItems (fuel + 1) { r with tokens := .blockEntry :: ts } =
      (nodeUnless fuel true false endsIndentlessItem { r with tokens := ts }).bind fun item =>
        (indentlessItems fuel item.2).bind fun items => some (item.1 :: items.1, items.2) := rfl

private theorem indentlessItems_end (ended : ts.head? ≠ some .blockEntry) :
    indentlessItems (fuel + 1) { r with tokens := ts } = some ([], { r with tokens := ts }) := by
  cases ts with
  | nil => rfl
  | cons t ts =>
    cases t <;> first | rfl | exact absurd rfl ended

private theorem blockEntries_entry :
    blockEntries (fuel + 1) { r with tokens := .key :: ts } =
      (nodeUnless fuel true true endsBlockValue { r with tokens := ts }).bind fun key =>
        (valueUnless fuel true true endsBlockValue key.2).bind fun value =>
          (blockEntries fuel value.2).bind fun entries => some ((key.1, value.1) :: entries.1, entries.2) := rfl

end Steps

section Composition

/-- The tokens of a value are put together to it. Where a sequence stands at the indentation of its key, no dash may
follow. -/
def Composes (o : Outline) : Prop :=
  ∀ (isBehindKey isIndentless : Bool) (fuel : Nat) (r : Reading) (others : List Token),
    (isBehindKey = true → isIndentless = true ∧ others.head? ≠ some .blockEntry) →
    4 * (o.tokens isBehindKey).length ≤ fuel →
    node fuel true isIndentless { r with tokens := o.tokens isBehindKey ++ others } =
      some (o.toNode, { r with tokens := others })

def ComposesItems (os : List Outline) : Prop :=
  ∀ (fuel : Nat) (r : Reading) (others : List Token), 1 ≤ fuel → 4 * (itemTokens os).length ≤ fuel + 2 →
    blockItems fuel { r with tokens := itemTokens os ++ .blockEnd :: others } =
        some (nodesOfItems os, { r with tokens := others }) ∧
      (others.head? ≠ some .blockEntry →
        indentlessItems fuel { r with tokens := itemTokens os ++ others } =
          some (nodesOfItems os, { r with tokens := others }))

def ComposesEntries (es : List (Phrase × Outline)) : Prop :=
  ∀ (fuel : Nat) (r : Reading) (others : List Token), 1 ≤ fuel → 4 * (entryTokens es).length ≤ fuel + 2 →
    blockEntries fuel { r with tokens := entryTokens es ++ .blockEnd :: others } =
      some (nodesOfEntries es, { r with tokens := others })

private theorem composes_of_content {o : Outline}
    (h : ∀ (isBehindKey isIndentless : Bool) (fuel : Nat) (r : Reading) (others : List Token),
      (isBehindKey = true → isIndentless = true ∧ others.head? ≠ some .blockEntry) →
      4 * (o.tokens isBehindKey).length ≤ fuel + 1 →
      content fuel true isIndentless false none { r with tokens := o.tokens isBehindKey ++ others } =
        some (o.toNode, { r with tokens := others })) : o.Composes := by
  intro isBehindKey isIndentless fuel r others indentless enough
  obtain ⟨t, ts, first, begins⟩ := exists_tokens o isBehindKey
  cases fuel with
  | zero =>
    rw [first, List.length_cons] at enough
    omega
  | succ fuel =>
    have inside := h isBehindKey isIndentless fuel r others indentless enough
    rw [first, List.cons_append] at inside ⊢
    rw [node_eq_content begins, inside]

private theorem composes_scalar (p : Phrase) : (scalar p).Composes := by
  refine composes_of_content fun isBehindKey isIndentless fuel r others _ enough => ?_
  cases fuel with
  | zero => simp [tokens] at enough
  | succ fuel => rfl

private theorem composes_noItems : (sequence []).Composes := by
  refine composes_of_content fun isBehindKey isIndentless fuel r others _ enough => ?_
  match fuel with
  | 0 | 1 => simp [tokens] at enough
  | fuel + 2 => rfl

private theorem composes_noEntries : (mapping []).Composes := by
  refine composes_of_content fun isBehindKey isIndentless fuel r others _ enough => ?_
  match fuel with
  | 0 | 1 => simp [tokens] at enough
  | fuel + 2 => rfl

private theorem composes_sequence {o : Outline} {os : List Outline} (items : ComposesItems (o :: os)) :
    (sequence (o :: os)).Composes := by
  refine composes_of_content fun isBehindKey isIndentless fuel r others indentless enough => ?_
  have length : (itemTokens (o :: os)).length = (o.tokens false ++ itemTokens os).length + 1 := rfl
  cases isBehindKey with
  | true =>
    obtain ⟨rfl, ended⟩ := indentless rfl
    have enough : 4 * (itemTokens (o :: os)).length ≤ fuel + 1 := enough
    match fuel with
    | 0 | 1 => omega
    | fuel + 2 =>
      have read := (items (fuel + 1) r others (by omega) (by omega)).2 ended
      change (indentlessItems (fuel + 1) { r with tokens := itemTokens (o :: os) ++ others }).bind _ = _
      rw [read]
      rfl
  | false =>
    have enough : 4 * (Token.blockSequenceStart :: itemTokens (o :: os) ++ [Token.blockEnd]).length ≤ fuel + 1 :=
      enough
    rw [List.length_append, List.length_cons, List.length_singleton] at enough
    match fuel with
    | 0 | 1 => omega
    | fuel + 2 =>
      have read := (items (fuel + 1) r others (by omega) (by omega)).1
      have text : (sequence (o :: os)).tokens false ++ others =
          .blockSequenceStart :: (itemTokens (o :: os) ++ .blockEnd :: others) := by simp [tokens]
      rw [text]
      change (blockItems (fuel + 1) { r with tokens := itemTokens (o :: os) ++ .blockEnd :: others }).bind _ = _
      rw [read]
      rfl

private theorem composes_mapping {e : Phrase × Outline} {es : List (Phrase × Outline)}
    (entries : ComposesEntries (e :: es)) : (mapping (e :: es)).Composes := by
  refine composes_of_content fun isBehindKey isIndentless fuel r others _ enough => ?_
  have enough : 4 * (Token.blockMappingStart :: entryTokens (e :: es) ++ [Token.blockEnd]).length ≤ fuel + 1 := enough
  rw [List.length_append, List.length_cons, List.length_singleton] at enough
  match fuel with
  | 0 | 1 => omega
  | fuel + 2 =>
    have read := entries (fuel + 1) r others (by omega) (by omega)
    have text : (mapping (e :: es)).tokens isBehindKey ++ others =
        .blockMappingStart :: (entryTokens (e :: es) ++ .blockEnd :: others) := by simp [tokens]
    rw [text]
    change (blockEntries (fuel + 1) { r with tokens := entryTokens (e :: es) ++ .blockEnd :: others }).bind _ = _
    rw [read]
    rfl

private theorem composesItems_nil : ComposesItems [] := by
  intro fuel r others some_fuel _
  cases fuel with
  | zero => exact absurd some_fuel (by decide)
  | succ fuel => exact ⟨rfl, fun ended => indentlessItems_end ended⟩

private theorem nodeUnless_item {o : Outline} (item : o.Composes) {fuel : Nat} {ends : Token → Bool}
    (inside : ∀ t, beginsValue false t = true → ends t = false) (r : Reading) (others : List Token)
    (enough : 4 * (o.tokens false).length ≤ fuel) :
    nodeUnless (fuel + 1) true false ends { r with tokens := o.tokens false ++ others } =
      some (o.toNode, { r with tokens := others }) := by
  have read := item false false fuel r others nofun enough
  obtain ⟨t, ts, first, begins⟩ := exists_tokens o false
  rw [first, List.cons_append] at read ⊢
  rw [nodeUnless_eq_node (inside t begins), read]

private theorem composesItems_cons {o : Outline} {os : List Outline} (item : o.Composes) (items : ComposesItems os) :
    ComposesItems (o :: os) := by
  intro fuel r others _ enough
  have some_token : 1 ≤ (o.tokens false).length := by
    obtain ⟨t, ts, first, -⟩ := exists_tokens o false
    rw [first]
    exact Nat.succ_pos _
  have length : (itemTokens (o :: os)).length = (o.tokens false).length + (itemTokens os).length + 1 :=
    congrArg (· + 1) List.length_append
  match fuel with
  | 0 | 1 => omega
  | fuel + 2 =>
    obtain ⟨block, indentless⟩ := items (fuel + 1) r others (by omega) (by omega)
    have text (later : List Token) : itemTokens (o :: os) ++ later =
        .blockEntry :: (o.tokens false ++ (itemTokens os ++ later)) := by simp [itemTokens]
    constructor
    · have inside : ∀ t, beginsValue false t = true → endsBlockItem t = false := by
        intro t begins
        cases t <;> first | rfl | cases begins
      rw [text, blockItems_entry, nodeUnless_item item inside r _ (by omega), Option.bind_some, block]
      rfl
    · intro ended
      have inside : ∀ t, beginsValue false t = true → endsIndentlessItem t = false := by
        intro t begins
        cases t <;> first | rfl | cases begins
      rw [text, indentlessItems_entry, nodeUnless_item item inside r _ (by omega), Option.bind_some, indentless ended]
      rfl

private theorem composesEntries_nil : ComposesEntries [] := by
  intro fuel r others some_fuel _
  cases fuel with
  | zero => exact absurd some_fuel (by decide)
  | succ fuel => rfl

private theorem composesEntries_cons {k : Phrase} {o : Outline} {es : List (Phrase × Outline)} (value : o.Composes)
    (entries : ComposesEntries es) : ComposesEntries ((k, o) :: es) := by
  intro fuel r others _ enough
  have length : (entryTokens ((k, o) :: es)).length =
      (o.tokens k.isSimpleKey).length + (entryTokens es).length + 3 := congrArg (· + 3) List.length_append
  match fuel with
  | 0 | 1 | 2 | 3 => omega
  | fuel + 4 =>
    have text : entryTokens ((k, o) :: es) ++ .blockEnd :: others =
        .key :: .scalar k.text k.settled :: .value ::
          (o.tokens k.isSimpleKey ++ (entryTokens es ++ .blockEnd :: others)) := by simp [entryTokens]
    have key (later : List Token) : nodeUnless (fuel + 3) true true endsBlockValue
        { r with tokens := .scalar k.text k.settled :: later } =
          some (.scalar k.text k.settled none, { r with tokens := later }) := rfl
    -- what follows the value is a key or the end of the mapping, so a sequence without an end of its own stops there
    have ended : (entryTokens es ++ .blockEnd :: others).head? ≠ some .blockEntry := by
      cases es <;> simp [entryTokens]
    have read := value k.isSimpleKey true (fuel + 1) r (entryTokens es ++ .blockEnd :: others)
      (fun _ => ⟨rfl, ended⟩) (by omega)
    have there : valueUnless (fuel + 3) true true endsBlockValue
        { r with tokens := .value :: (o.tokens k.isSimpleKey ++ (entryTokens es ++ .blockEnd :: others)) } =
          some (o.toNode, { r with tokens := entryTokens es ++ .blockEnd :: others }) := by
      change nodeUnless (fuel + 2) true true endsBlockValue
        { r with tokens := o.tokens k.isSimpleKey ++ (entryTokens es ++ .blockEnd :: others) } = _
      obtain ⟨t, ts, first, begins⟩ := exists_tokens o k.isSimpleKey
      have inside : endsBlockValue t = false := by
        cases t <;> first | rfl | cases begins
      rw [first, List.cons_append] at read ⊢
      rw [nodeUnless_eq_node inside, read]
    rw [text, blockEntries_entry, key, Option.bind_some, there, Option.bind_some,
      entries (fuel + 3) r others (by omega) (by omega)]
    rfl

end Composition

mutual

private theorem composes : (o : Outline) → o.Composes
  | .scalar p => composes_scalar p
  | .sequence [] => composes_noItems
  | .sequence (o :: os) => composes_sequence (composesItems (o :: os))
  | .mapping [] => composes_noEntries
  | .mapping (e :: es) => composes_mapping (composesEntries (e :: es))

private theorem composesItems : (os : List Outline) → ComposesItems os
  | [] => composesItems_nil
  | o :: os => composesItems_cons (composes o) (composesItems os)

private theorem composesEntries : (es : List (Phrase × Outline)) → ComposesEntries es
  | [] => composesEntries_nil
  | (_, o) :: es => composesEntries_cons (composes o) (composesEntries es)

end

/-- A document with entries is read back from what is written for it. -/
theorem ofText?_write_mapping {e : Phrase × Outline} {es : List (Phrase × Outline)} (fit : EntriesFit (e :: es)) :
    Node.ofText? .strict (mapping (e :: es)).write = some [(mapping (e :: es)).toNode] := by
  have scanned := scan_mapping fit
  have first : (mapping (e :: es)).tokens false = .blockMappingStart :: (entryTokens (e :: es) ++ [.blockEnd]) := rfl
  have read := composes (mapping (e :: es)) false false (4 * ((mapping (e :: es)).tokens false).length + 8)
    ⟨[], [], standardHandles⟩ [] nofun (Nat.le_add_right _ _)
  rw [List.append_nil] at read
  have all : allDocuments (4 * ((mapping (e :: es)).tokens false).length + 8)
      ⟨(mapping (e :: es)).tokens false, [], standardHandles⟩ =
        some ([(mapping (e :: es)).toNode], ⟨[], [], standardHandles⟩) := by
    change (node (4 * ((mapping (e :: es)).tokens false).length + 8) true false
      ⟨(mapping (e :: es)).tokens false, [], standardHandles⟩).bind _ = _
    rw [read]
    rfl
  rw [Node.ofText?, scanned]
  change ((allDocuments (4 * ((mapping (e :: es)).tokens false).length + 8)
    ⟨(mapping (e :: es)).tokens false, [], standardHandles⟩).bind _) = _
  rw [all]
  rfl

end Overlays.Yaml.Outline
