import Overlays.Proofs.Yaml.PlainText

/-!
Runs of the scanner. A run is a chain of steps, each of which takes one token and some of the text. Between two tokens
the scanner passes over space and closes the blocks that the next word stands left of; what it is like then, before it
reads on, is all that matters of the text before.
-/

set_option autoImplicit false
set_option relaxedAutoImplicit false

namespace Overlays.Yaml.Scanner

open Quoting

/-- Moves to where the next token begins, and gives up the keys that lie too far back. -/
def ready? (s : Scanner) : Option Scanner := (s.skipToToken .strict).dropStaleKeys

/-- Runs from token to token, each of which takes some of the text. -/
inductive Steps : Scanner → Scanner → Prop
  | refl (s : Scanner) : Steps s s
  | step {s ready s' s'' : Scanner} (moved : s.ready? = some ready) (more : ready.rest ≠ [])
      (token : (ready.closeBlocks (some ready.place.column)).token .strict = some s')
      (shorter : s'.rest.length < s.rest.length) (others : Steps s' s'') : Steps s s''

theorem Steps.trans {s s' s'' : Scanner} (first : Steps s s') (second : Steps s' s'') : Steps s s'' := by
  induction first with
  | refl => exact second
  | step moved more token shorter _ ih => exact .step moved more token shorter (ih second)

/-- More fuel than there are characters is enough. -/
theorem run_of_steps {s s' : Scanner} (steps : Steps s s') (fuel : Nat) (enough : s.rest.length < fuel) :
    ∃ fuel', s'.rest.length < fuel' ∧ run .strict fuel s = run .strict fuel' s' := by
  -- a step takes one unit of fuel and at least one character, so there stays more of the one than of the other
  induction steps generalizing fuel with
  | refl s => exact ⟨fuel, enough, rfl⟩
  | @step s ready s' s'' moved more token shorter _ ih =>
    cases fuel with
    | zero => exact absurd enough (Nat.not_lt_zero _)
    | succ fuel =>
      obtain ⟨fuel', enough', same⟩ := ih fuel (by omega)
      refine ⟨fuel', enough', Eq.trans ?_ same⟩
      obtain ⟨c, cs, rest⟩ := List.exists_cons_of_ne_nil more
      have here : run .strict (fuel + 1) s =
          ((ready.closeBlocks (some ready.place.column)).token .strict).bind (run .strict fuel) := by
        rw [run]
        change (s.ready?.bind fun s => _) = _
        rw [moved, Option.bind_some, rest]
        rfl
      rw [here, token, Option.bind_some]

/-- A scanner in block context behind `tokens`, the last one first, with no key pending. -/
def upon (rest : List Char) (place : Place) (tokens : List Token) (indents : List Nat) (keyAllowed : Bool) : Scanner :=
  ⟨rest, place, tokens, tokens.length, indents, keyAllowed, none, []⟩

/-- The next word is `body` at a column, with `indents` open at most there; when the blocks further right are closed,
`tokens` are found, the last one first. -/
def FacesAt (s : Scanner) (body : List Char) (column : Nat) (keyAllowed : Bool) (indents : List Nat)
    (tokens : List Token) : Prop :=
  ∃ line inner found, s.ready? = some (upon body ⟨line, column⟩ found (inner ++ indents) keyAllowed) ∧
    (∀ i ∈ inner, column < i) ∧ tokens = List.replicate inner.length .blockEnd ++ found ∧
    body.length ≤ s.rest.length

section Closing

variable {rest body : List Char} {place : Place} {tokens : List Token} {indents : List Nat} {keyAllowed : Bool}

private theorem foldl_emit (inner : List Nat) :
    inner.foldl (fun s _ => s.emit .blockEnd) (upon rest place tokens indents keyAllowed) =
      upon rest place (List.replicate inner.length .blockEnd ++ tokens) indents keyAllowed := by
  induction inner generalizing tokens with
  | nil => rfl
  | cons i inner ih =>
    have emitted : (upon rest place tokens indents keyAllowed).emit .blockEnd =
        upon rest place (.blockEnd :: tokens) indents keyAllowed := rfl
    rw [List.foldl_cons, emitted, ih, List.length_cons, List.replicate_succ', List.append_assoc]
    rfl

private theorem closeBlocks_upon {inner : List Nat} {column : Nat} (right : ∀ i ∈ inner, column < i)
    (fits : ∀ i ∈ indents.head?, i ≤ column) :
    (upon rest place tokens (inner ++ indents) keyAllowed).closeBlocks (some column) =
      upon rest place (List.replicate inner.length .blockEnd ++ tokens) indents keyAllowed := by
  have stops : indents.takeWhile (fun i => decide (column < i)) = [] ∧
      indents.dropWhile (fun i => decide (column < i)) = indents := by
    cases indents with
    | nil => exact ⟨rfl, rfl⟩
    | cons i outer =>
      have kept : ¬ column < i := Nat.not_lt.mpr (fits i rfl)
      exact ⟨List.takeWhile_cons_of_neg (by simpa using kept), List.dropWhile_cons_of_neg (by simpa using kept)⟩
  have all_right : ∀ i ∈ inner, (fun i => decide (column < i)) i = true := by
    intro i inside
    simpa using right i inside
  have taken : (inner ++ indents).takeWhile (fun i => decide (column < i)) = inner := by
    rw [List.takeWhile_append_of_pos all_right, stops.1, List.append_nil]
  have left : (inner ++ indents).dropWhile (fun i => decide (column < i)) = indents := by
    rw [List.dropWhile_append_of_pos all_right, stops.2]
  change ((inner ++ indents).takeWhile fun i => decide (column < i)).foldl (fun s _ => s.emit .blockEnd)
    (upon rest place tokens ((inner ++ indents).dropWhile fun i => decide (column < i)) keyAllowed) = _
  rw [taken, left, foldl_emit]

private theorem closeBlocks_end :
    (upon rest place tokens indents keyAllowed).closeBlocks none =
      upon rest place (List.replicate indents.length .blockEnd ++ tokens) [] keyAllowed := by
  have all : indents.takeWhile (fun _ => true) = indents ∧ indents.dropWhile (fun _ => true) = [] := by
    induction indents with
    | nil => exact ⟨rfl, rfl⟩
    | cons i outer ih => exact ⟨congrArg (i :: ·) ih.1, ih.2⟩
  change (indents.takeWhile fun _ => true).foldl (fun s _ => s.emit .blockEnd)
    (upon rest place tokens (indents.dropWhile fun _ => true) keyAllowed) = _
  rw [all.1, all.2, foldl_emit]

end Closing

namespace FacesAt

variable {s : Scanner} {body : List Char} {column : Nat} {keyAllowed : Bool} {indents : List Nat}
  {tokens : List Token}

theorem close {i : Nat} (h : s.FacesAt body column keyAllowed (i :: indents) tokens) (left : column < i) :
    s.FacesAt body column keyAllowed indents (.blockEnd :: tokens) := by
  obtain ⟨line, inner, found, moved, right, rfl, shorter⟩ := h
  refine ⟨line, inner ++ [i], found, ?_, ?_, ?_, shorter⟩
  · rw [moved, List.append_assoc, List.singleton_append]
  · intro j inside
    rcases List.mem_append.mp inside with deeper | here
    · exact right j deeper
    · rw [List.mem_singleton.mp here]
      exact left
  · rw [List.length_append, List.length_singleton, List.replicate_succ]
    rfl

theorem steps (h : s.FacesAt body column keyAllowed indents tokens) (some_body : body ≠ [])
    (fits : ∀ i ∈ indents.head?, i ≤ column) :
    ∃ line, ∀ s' s'', (upon body ⟨line, column⟩ tokens indents keyAllowed).token .strict = some s' →
      s'.rest.length < body.length → Steps s' s'' → Steps s s'' := by
  obtain ⟨line, inner, found, moved, right, rfl, shorter⟩ := h
  refine ⟨line, fun s' s'' token taken others => .step moved some_body ?_ (by omega) others⟩
  refine Eq.trans (congrArg (Scanner.token .strict) ?_) token
  exact closeBlocks_upon right fits

theorem run_eq (h : s.FacesAt [] column keyAllowed indents tokens) {fuel : Nat} (enough : s.rest.length < fuel) :
    (run .strict fuel s).map (·.tokens) = some (List.replicate indents.length .blockEnd ++ tokens) := by
  obtain ⟨line, inner, found, moved, -, rfl, -⟩ := h
  cases fuel with
  | zero => exact absurd enough (Nat.not_lt_zero _)
  | succ fuel =>
    have here : run .strict (fuel + 1) s =
        ((upon [] ⟨line + 1, 0⟩ found (inner ++ indents) keyAllowed).closeBlocks none).dropKey := by
      rw [run]
      change (s.ready?.bind fun s => _) = _
      rw [moved]
      rfl
    have ends : List.replicate (inner ++ indents).length Token.blockEnd ++ found =
        List.replicate indents.length .blockEnd ++ (List.replicate inner.length .blockEnd ++ found) := by
      rw [List.length_append, Nat.add_comm, List.replicate_add, List.append_assoc]
    rw [here, closeBlocks_end, ends]
    rfl

end FacesAt

section Space

variable {rest body : List Char} {place : Place} {tokens : List Token} {indents : List Nat} {keyAllowed : Bool}
  {pending : Option PendingKey}

private theorem skipSpace_solid (solid : Solid body) (indent : Nat) (p : Place) :
    skipSpace .strict indent false keyAllowed false body p = (keyAllowed, body, p) := by
  cases body with
  | nil => rfl
  | cons c cs =>
    obtain ⟨no_space, no_break, number_sign, mark⟩ := solid c rfl
    obtain ⟨space, tab⟩ := ne_blank no_space
    rw [skipSpace]
    simp [no_break, space, tab, number_sign, mark]

private theorem skipSpace_spaces (solid : Solid body) (indent n : Nat) (p : Place) :
    skipSpace .strict indent false keyAllowed false (spaces n ++ body) p = (keyAllowed, body, p.right n) := by
  induction n generalizing p with
  | zero => exact skipSpace_solid solid indent p
  | succ n ih =>
    have split : spaces (n + 1) ++ body = ' ' :: (spaces n ++ body) := rfl
    have here : skipSpace .strict indent false keyAllowed false (' ' :: (spaces n ++ body)) p =
        skipSpace .strict indent false keyAllowed false (spaces n ++ body) (p.right 1) := by
      rw [skipSpace]
      simp [isBreak, isSeparator]
    rw [split, here, ih, Place.right_right, Nat.add_comm 1]

private theorem skipSpace_line (solid : Solid body) (indent n : Nat) (p : Place) :
    skipSpace .strict indent false keyAllowed false ('\n' :: (spaces n ++ body)) p =
      (true, body, ⟨p.line + 1, n⟩) := by
  have here : skipSpace .strict indent false keyAllowed false ('\n' :: (spaces n ++ body)) p =
      skipSpace .strict indent false true false (spaces n ++ body) p.down := by
    rw [skipSpace]
    simp [isBreak]
  rw [here, skipSpace_spaces solid, Place.down, Place.right, Nat.zero_add]

private theorem ready?_of_skipSpace {keyAllowed' : Bool} {line column : Nat}
    (skipped : skipSpace .strict (indents.head?.getD 0) false keyAllowed false rest place =
      (keyAllowed', body, ⟨line, column⟩))
    (stale : ∀ k ∈ pending, k.isRequired = false ∧ k.place.line < line) :
    ready? ⟨rest, place, tokens, tokens.length, indents, keyAllowed, pending, []⟩ =
      some (upon body ⟨line, column⟩ tokens indents keyAllowed') := by
  have moved : skipToToken .strict ⟨rest, place, tokens, tokens.length, indents, keyAllowed, pending, []⟩ =
      ⟨body, ⟨line, column⟩, tokens, tokens.length, indents, keyAllowed', pending, []⟩ := by
    simp only [skipToToken, inFlow, List.isEmpty_nil, Bool.not_true, skipped]
  rw [ready?, moved]
  cases pending with
  | none => rfl
  | some k =>
    obtain ⟨not_required, before⟩ := stale k rfl
    simp [dropStaleKeys, isStale, before, not_required, upon]

theorem facesAt_spaces (place : Place) (tokens : List Token) (indents : List Nat) (keyAllowed : Bool)
    (solid : Solid body) (n : Nat) :
    (upon (spaces n ++ body) place tokens indents keyAllowed).FacesAt body (place.column + n) keyAllowed indents
      tokens := by
  refine ⟨place.line, [], tokens, ?_, by simp, rfl, ?_⟩
  · exact ready?_of_skipSpace (skipSpace_spaces solid _ n place) (by simp)
  · change body.length ≤ (spaces n ++ body).length
    simp

theorem facesAt_line (place : Place) (tokens : List Token) (indents : List Nat) (keyAllowed : Bool)
    (pending : Option PendingKey) (solid : Solid body) (n : Nat)
    (stale : ∀ k ∈ pending, k.isRequired = false ∧ k.place.line ≤ place.line) :
    FacesAt ⟨'\n' :: (spaces n ++ body), place, tokens, tokens.length, indents, keyAllowed, pending, []⟩ body n true
      indents tokens := by
  refine ⟨place.line + 1, [], tokens, ?_, by simp, rfl, ?_⟩
  · refine ready?_of_skipSpace (skipSpace_line solid _ n place) fun k h => ?_
    exact ⟨(stale k h).1, Nat.lt_succ_of_le (stale k h).2⟩
  · change body.length ≤ ('\n' :: (spaces n ++ body)).length
    simp
    omega

theorem facesAt_here (solid : Solid body) (stale : ∀ k ∈ pending, k.isRequired = false ∧ k.place.line < place.line) :
    FacesAt ⟨body, place, tokens, tokens.length, indents, keyAllowed, pending, []⟩ body place.column keyAllowed
      indents tokens :=
  ⟨place.line, [], tokens, ready?_of_skipSpace (skipSpace_solid solid _ place) stale, by simp, rfl, Nat.le_refl _⟩

end Space

end Overlays.Yaml.Scanner
