import Overlays.Proofs.Yaml.Marks

/-!
A document that is written is scanned to its tokens. The proof follows the structure of the document: what stands behind
a mark is scanned with the blocks around it as they are, whatever follows further left.
-/

set_option autoImplicit false
set_option relaxedAutoImplicit false

namespace Overlays.Yaml

open Quoting Scanner

/-- Whether a key that is written without a mark is written on its line. -/
def Phrase.IsKey (k : Phrase) : Prop := k.isSimpleKey = true → k.settled ≠ .literal

theorem Phrase.isKey_bare (s : String) : (Phrase.bare s).IsKey := by
  intro _ block
  rcases settle_cases .plain s.toList with ⟨settled, -⟩ | ⟨settled, -⟩ | ⟨-, wished, -⟩ | settled
  · exact absurd (settled.symm.trans block) (by decide)
  · exact absurd (settled.symm.trans block) (by decide)
  · cases wished
  · exact absurd (settled.symm.trans block) (by decide)

theorem Phrase.isKey_ofText (s : String) : (Phrase.ofText s).IsKey := by
  intro simple block
  have no_feed : s.toList.contains '\n' = false := by
    simp only [isSimpleKey, ofText, Bool.and_eq_true, Bool.not_eq_true', isMultiline] at simple
    rw [← Bool.not_eq_true, List.contains_iff_mem]
    intro feed
    have ends : s.toList.any isLineEnd = true := List.any_eq_true.mpr ⟨'\n', feed, by decide⟩
    rw [simple.1] at ends
    cases ends
  have wish : wanted s = .singleQuoted ∨ wanted s = .plain := by
    rw [wanted, no_feed, if_neg Bool.false_ne_true]
    split
    · exact .inl rfl
    · exact .inr rfl
  rcases settle_cases (wanted s) s.toList with ⟨settled, -⟩ | ⟨settled, -⟩ | ⟨-, wished, -⟩ | settled
  · exact absurd (settled.symm.trans block) (by decide)
  · exact absurd (settled.symm.trans block) (by decide)
  · rcases wish with wish | wish <;> rw [wish] at wished <;> cases wished
  · exact absurd (settled.symm.trans block) (by decide)

theorem Phrase.not_isAmbiguous_of_settled {s : String} (h : (Phrase.ofText s).settled = .plain) :
    Plain.isAmbiguous s = false := by
  rcases settle_cases (wanted s) s.toList with ⟨-, wished, -⟩ | ⟨settled, -⟩ | ⟨settled, -⟩ | settled
  · rw [wanted] at wished
    split at wished
    · cases wished
    · split at wished
      · cases wished
      · rename_i clear
        exact Bool.eq_false_iff.mpr clear
  · exact absurd (settled.symm.trans h) (by decide)
  · exact absurd (settled.symm.trans h) (by decide)
  · exact absurd (settled.symm.trans h) (by decide)

namespace Outline

mutual

/-- All keys in a document can be written as keys. -/
def KeysFit : Outline → Prop
  | .scalar _ => True
  | .sequence os => ItemsFit os
  | .mapping es => EntriesFit es

def ItemsFit : List Outline → Prop
  | [] => True
  | o :: os => o.KeysFit ∧ ItemsFit os

def EntriesFit : List (Phrase × Outline) → Prop
  | [] => True
  | (k, o) :: es => k.IsKey ∧ o.KeysFit ∧ EntriesFit es

end

theorem itemsFit_iff {os : List Outline} : ItemsFit os ↔ ∀ o ∈ os, o.KeysFit := by
  induction os with
  | nil => simp [ItemsFit]
  | cons o os ih => simp [ItemsFit, ih]

theorem entriesFit_iff {es : List (Phrase × Outline)} :
    EntriesFit es ↔ ∀ e ∈ es, e.1.IsKey ∧ e.2.KeysFit := by
  induction es with
  | nil => simp [EntriesFit]
  | cons e es ih =>
    obtain ⟨k, o⟩ := e
    simp [EntriesFit, ih, and_assoc]

mutual

/-- The tokens of a document. Directly behind a key, a sequence stands at its indentation and has no tokens around
it. -/
def tokens (isBehindKey : Bool) : Outline → List Token
  | .scalar p => [.scalar p.text p.settled]
  | .sequence [] => [.flowSequenceStart, .flowSequenceEnd]
  | .sequence (o :: os) =>
    if isBehindKey then itemTokens (o :: os) else .blockSequenceStart :: itemTokens (o :: os) ++ [.blockEnd]
  | .mapping [] => [.flowMappingStart, .flowMappingEnd]
  | .mapping (e :: es) => .blockMappingStart :: entryTokens (e :: es) ++ [.blockEnd]

def itemTokens : List Outline → List Token
  | [] => []
  | o :: os => .blockEntry :: (o.tokens false ++ itemTokens os)

def entryTokens : List (Phrase × Outline) → List Token
  | [] => []
  | (k, o) :: es => .key :: .scalar k.text k.settled :: .value :: (o.tokens k.isSimpleKey ++ entryTokens es)

end

section Text

variable {column n : Nat} {body : List Char}

private theorem writeItems_begun (o : Outline) (os : List Outline) :
    writeItems column false (o :: os) = spaces column ++ writeItems column true (o :: os) := by
  simp [writeItems]

private theorem writeEntries_begun (e : Phrase × Outline) (es : List (Phrase × Outline)) :
    writeEntries column false (e :: es) = spaces column ++ writeEntries column true (e :: es) := by
  simp [writeEntries]

private theorem solid_of_head {c : Char} (cs : List Char)
    (solid : isSpace c = false ∧ isBreak c = false ∧ c ≠ '#' ∧ c ≠ byteOrderMark) : Solid (c :: cs) := by
  rintro d ⟨⟩
  exact solid

private theorem solid_items (column : Nat) (o : Outline) (os : List Outline) (tail : List Char) :
    Solid (writeItems column true (o :: os) ++ tail) := by
  rw [writeItems]
  exact solid_of_head _ (by decide)

private theorem solid_entries (column : Nat) (k : Phrase) (o : Outline) (es : List (Phrase × Outline))
    (tail : List Char) : Solid (writeEntries column true ((k, o) :: es) ++ tail) := by
  rw [writeEntries]
  cases simple : k.isSimpleKey with
  | true =>
    have word := (solid_write k (column + 2) (':' :: o.afterKey column ++ writeEntries column false es ++ tail)).2
    simpa using word
  | false => exact solid_of_head _ (by decide)

private theorem atGap_afterKey (o : Outline) (tail : List Char) : atGap (o.afterKey column ++ tail) = true := by
  cases o with
  | scalar p => rfl
  | sequence os => cases os <;> simp [afterKey] <;> rfl
  | mapping es => cases es <;> simp [afterKey] <;> rfl

private theorem atGap_afterMark (o : Outline) (tail : List Char) : atGap (o.afterMark column ++ tail) = true := by
  cases o with
  | scalar p => rfl
  | sequence os => cases os <;> simp [afterMark] <;> rfl
  | mapping es => cases es <;> simp [afterMark] <;> rfl

private theorem next_item (os : List Outline) (left : n ≤ column) (solid : Solid body) :
    ∃ m next, writeItems column false os ++ (spaces n ++ body) = spaces m ++ next ∧ m ≤ column ∧ Solid next ∧
      (os = [] → m = n ∧ next = body) ∧
      (os ≠ [] → m = column ∧ next = writeItems column true os ++ (spaces n ++ body)) := by
  cases os with
  | nil => exact ⟨n, body, rfl, left, solid, fun _ => ⟨rfl, rfl⟩, fun h => absurd rfl h⟩
  | cons o os =>
    have word := solid_items column o os (spaces n ++ body)
    refine ⟨column, _, ?_, Nat.le_refl _, word, by simp, fun _ => ⟨rfl, rfl⟩⟩
    rw [writeItems_begun, List.append_assoc]

private theorem next_entry (es : List (Phrase × Outline)) (left : n ≤ column) (solid : Solid body) :
    ∃ m next, writeEntries column false es ++ (spaces n ++ body) = spaces m ++ next ∧ m ≤ column ∧ Solid next ∧
      (es = [] → m = n ∧ next = body) ∧
      (es ≠ [] → m = column ∧ next = writeEntries column true es ++ (spaces n ++ body)) := by
  cases es with
  | nil => exact ⟨n, body, rfl, left, solid, fun _ => ⟨rfl, rfl⟩, fun h => absurd rfl h⟩
  | cons e es =>
    have word := solid_entries column e.1 e.2 es (spaces n ++ body)
    refine ⟨column, _, ?_, Nat.le_refl _, word, by simp, fun _ => ⟨rfl, rfl⟩⟩
    rw [writeEntries_begun, List.append_assoc]

end Text

section Scans

/-- What is written behind a key and its colon is scanned to its tokens, up to a word that stands no further right than
the key. -/
def ScansAfterKey (o : Outline) : Prop :=
  ∀ (place : Place) (found : List Token) (outer : List Nat) (column n : Nat) (body : List Char),
    column ≤ place.column → n ≤ column → Solid body →
    ∃ s', Steps (upon (o.afterKey column ++ (spaces n ++ body)) place found (column :: outer) false) s' ∧
      s'.FacesAt body n true (column :: outer) ((o.tokens true).reverse ++ found)

/-- The same behind a dash, or behind the colon of a key with a question mark. -/
def ScansAfterMark (o : Outline) : Prop :=
  ∀ (place : Place) (found : List Token) (outer : List Nat) (column n : Nat) (body : List Char),
    place.column = column + 1 → n ≤ column → Solid body →
    ∃ s', Steps (upon (o.afterMark column ++ (spaces n ++ body)) place found (column :: outer) true) s' ∧
      s'.FacesAt body n true (column :: outer) ((o.tokens false).reverse ++ found)

/-- The items of a sequence are scanned from the first dash on. -/
def ScansItems (os : List Outline) : Prop :=
  ∀ (s : Scanner) (found opened : List Token) (indents outer : List Nat) (column n : Nat) (body : List Char),
    s.FacesAt (writeItems column true os ++ (spaces n ++ body)) column true indents found →
    Opening .blockSequenceStart column indents outer opened → n ≤ column → Solid body →
    ∃ s', Steps s s' ∧ s'.FacesAt body n true (column :: outer) ((itemTokens os).reverse ++ (opened ++ found))

/-- The entries of a mapping are scanned from the first key on. -/
def ScansEntries (es : List (Phrase × Outline)) : Prop :=
  ∀ (s : Scanner) (found opened : List Token) (indents outer : List Nat) (column n : Nat) (body : List Char),
    s.FacesAt (writeEntries column true es ++ (spaces n ++ body)) column true indents found →
    Opening .blockMappingStart column indents outer opened → n ≤ column → Solid body →
    ∃ s', Steps s s' ∧ s'.FacesAt body n true (column :: outer) ((entryTokens es).reverse ++ (opened ++ found))

private theorem scansAfterKey_scalar (p : Phrase) : (scalar p).ScansAfterKey := by
  intro place found outer column n body inner left solid
  exact steps_value found outer false p inner left solid

private theorem scansAfterMark_scalar (p : Phrase) : (scalar p).ScansAfterMark := by
  intro place found outer column n body inner left solid
  exact steps_value found outer true p (by omega) left solid

private theorem scansAfterKey_noItems : (sequence []).ScansAfterKey := by
  intro place found outer column n body inner _ solid
  exact steps_empty .sequence inner solid

private theorem scansAfterMark_noItems : (sequence []).ScansAfterMark := by
  intro place found outer column n body inner _ solid
  exact steps_empty .sequence (by omega) solid

private theorem scansAfterKey_noEntries : (mapping []).ScansAfterKey := by
  intro place found outer column n body inner _ solid
  exact steps_empty .mapping inner solid

private theorem scansAfterMark_noEntries : (mapping []).ScansAfterMark := by
  intro place found outer column n body inner _ solid
  exact steps_empty .mapping (by omega) solid

private theorem scansAfterKey_sequence {o : Outline} {os : List Outline} (items : ScansItems (o :: os)) :
    (sequence (o :: os)).ScansAfterKey := by
  intro place found outer column n body _ left solid
  have text : (sequence (o :: os)).afterKey column ++ (spaces n ++ body) =
      '\n' :: (spaces column ++ (writeItems column true (o :: os) ++ (spaces n ++ body))) := by
    rw [afterKey, writeItems_begun]
    · simp
    · rintro ⟨⟩
  have faces := facesAt_line place found (column :: outer) false none (solid_items column o os (spaces n ++ body))
    column (by simp)
  rw [text]
  exact items _ found [] _ outer column n body faces (.begun outer) left solid

private theorem scansAfterMark_sequence {o : Outline} {os : List Outline} (items : ScansItems (o :: os)) :
    (sequence (o :: os)).ScansAfterMark := by
  intro place found outer column n body inner left solid
  have text : (sequence (o :: os)).afterMark column ++ (spaces n ++ body) =
      spaces 1 ++ (writeItems (column + 2) true (o :: os) ++ (spaces n ++ body)) := by
    rw [afterMark]
    · rfl
    · rintro ⟨⟩
  have faces := facesAt_spaces place found (column :: outer) true (solid_items (column + 2) o os (spaces n ++ body)) 1
  rw [inner] at faces
  have opening : Opening .blockSequenceStart (column + 2) (column :: outer) (column :: outer) [.blockSequenceStart] :=
    .fresh _ (by rintro i ⟨⟩; omega)
  obtain ⟨s', steps, faces'⟩ := items _ found _ _ _ (column + 2) n body faces opening (by omega) solid
  rw [text]
  refine ⟨s', steps, ?_⟩
  simpa [tokens] using faces'.close (by omega)

private theorem scans_mapping_block {e : Phrase × Outline} {es : List (Phrase × Outline)}
    (entries : ScansEntries (e :: es)) {s : Scanner} {found : List Token} {outer : List Nat} {column n : Nat}
    {body : List Char} (isBehindKey : Bool)
    (faces : s.FacesAt (writeEntries (column + 2) true (e :: es) ++ (spaces n ++ body)) (column + 2) true
      (column :: outer) found) (left : n ≤ column) (solid : Solid body) :
    ∃ s', Steps s s' ∧
      s'.FacesAt body n true (column :: outer) (((mapping (e :: es)).tokens isBehindKey).reverse ++ found) := by
  have opening : Opening .blockMappingStart (column + 2) (column :: outer) (column :: outer) [.blockMappingStart] :=
    .fresh _ (by rintro i ⟨⟩; omega)
  obtain ⟨s', steps, faces'⟩ := entries _ found _ _ _ (column + 2) n body faces opening (by omega) solid
  refine ⟨s', steps, ?_⟩
  simpa [tokens] using faces'.close (by omega)

private theorem scansAfterKey_mapping {e : Phrase × Outline} {es : List (Phrase × Outline)}
    (entries : ScansEntries (e :: es)) : (mapping (e :: es)).ScansAfterKey := by
  intro place found outer column n body _ left solid
  have text : (mapping (e :: es)).afterKey column ++ (spaces n ++ body) =
      '\n' :: (spaces (column + 2) ++ (writeEntries (column + 2) true (e :: es) ++ (spaces n ++ body))) := by
    rw [afterKey, writeEntries_begun]
    · simp
    · rintro ⟨⟩
  have faces := facesAt_line place found (column :: outer) false none
    (solid_entries (column + 2) e.1 e.2 es (spaces n ++ body)) (column + 2) (by simp)
  rw [text]
  exact scans_mapping_block entries true faces left solid

private theorem scansAfterMark_mapping {e : Phrase × Outline} {es : List (Phrase × Outline)}
    (entries : ScansEntries (e :: es)) : (mapping (e :: es)).ScansAfterMark := by
  intro place found outer column n body inner left solid
  have text : (mapping (e :: es)).afterMark column ++ (spaces n ++ body) =
      spaces 1 ++ (writeEntries (column + 2) true (e :: es) ++ (spaces n ++ body)) := by
    rw [afterMark]
    · rfl
    · rintro ⟨⟩
  have faces := facesAt_spaces place found (column :: outer) true
    (solid_entries (column + 2) e.1 e.2 es (spaces n ++ body)) 1
  rw [inner] at faces
  rw [text]
  exact scans_mapping_block entries false faces left solid

private theorem scansItems_cons {o : Outline} {os : List Outline} (item : o.ScansAfterMark)
    (items : os ≠ [] → ScansItems os) : ScansItems (o :: os) := by
  intro s found opened indents outer column n body faces opening left solid
  obtain ⟨m, next, follow, low, solid_next, last, more⟩ := next_item os left solid
  have text : writeItems column true (o :: os) ++ (spaces n ++ body) =
      '-' :: (o.afterMark column ++ (spaces m ++ next)) := by
    rw [writeItems, ← follow]
    simp
  rw [text] at faces
  obtain ⟨place, inner, mark⟩ := steps_dash faces opening (atGap_afterMark o _)
  obtain ⟨s', first, faces'⟩ := item _ _ outer _ _ _ inner low solid_next
  -- the first dash may open the block, the later ones find it open
  by_cases is_last : os = []
  · obtain ⟨rfl, rfl⟩ := last is_last
    subst is_last
    refine ⟨s', mark.trans first, ?_⟩
    simpa [itemTokens] using faces'
  · obtain ⟨rfl, rfl⟩ := more is_last
    obtain ⟨s'', others, faces''⟩ := items is_last _ _ [] _ outer _ n body faces' (.begun outer) left solid
    refine ⟨s'', mark.trans (first.trans others), ?_⟩
    simpa [itemTokens] using faces''

private theorem steps_entry {k : Phrase} {o : Outline} (fit : k.IsKey) (behindKey : o.ScansAfterKey)
    (behindMark : o.ScansAfterMark) {s : Scanner} {found opened : List Token} {indents outer : List Nat}
    {column m : Nat} {next : List Char}
    (faces : s.FacesAt (writeEntries column true [(k, o)] ++ (spaces m ++ next)) column true indents found)
    (opening : Opening .blockMappingStart column indents outer opened) (left : m ≤ column) (solid : Solid next) :
    ∃ s', Steps s s' ∧ s'.FacesAt next m true (column :: outer)
      ((o.tokens k.isSimpleKey).reverse ++ (.value :: .scalar k.text k.settled :: .key :: (opened ++ found))) := by
  cases simple : k.isSimpleKey with
  | true =>
    have text : writeEntries column true [(k, o)] ++ (spaces m ++ next) =
        k.write (column + 2) ++ ':' :: (o.afterKey column ++ (spaces m ++ next)) := by
      simp [writeEntries, simple]
    rw [text] at faces
    obtain ⟨place, inner, mark⟩ := steps_key faces opening simple (fit simple) (by omega) (atGap_afterKey o _)
    obtain ⟨s', value, faces'⟩ := behindKey _ _ outer _ _ _ (Nat.le_of_lt inner) left solid
    exact ⟨s', mark.trans value, faces'⟩
  | false =>
    have text : writeEntries column true [(k, o)] ++ (spaces m ++ next) =
        '?' :: (' ' :: k.write (column + 2) ++ k.lineEnd ++
          (spaces column ++ ':' :: (o.afterMark column ++ (spaces m ++ next)))) := by
      simp [writeEntries, simple]
    have colon : Solid (':' :: (o.afterMark column ++ (spaces m ++ next))) := solid_of_head _ (by decide)
    rw [text] at faces
    obtain ⟨place, inner, mark⟩ := steps_question faces opening rfl
    obtain ⟨s', key, faces'⟩ := steps_value (.key :: (opened ++ found)) outer true k
      (by omega : column ≤ place.column) (Nat.le_refl column) colon
    obtain ⟨place', inner', colonMark⟩ := steps_colon faces' (atGap_afterMark o _)
    obtain ⟨s'', value, faces''⟩ := behindMark _ _ outer _ _ _ inner' left solid
    exact ⟨s'', mark.trans (key.trans (colonMark.trans value)), faces''⟩

private theorem scansEntries_cons {k : Phrase} {o : Outline} {es : List (Phrase × Outline)} (fit : k.IsKey)
    (behindKey : o.ScansAfterKey) (behindMark : o.ScansAfterMark) (entries : es ≠ [] → ScansEntries es) :
    ScansEntries ((k, o) :: es) := by
  intro s found opened indents outer column n body faces opening left solid
  obtain ⟨m, next, follow, low, solid_next, last, more⟩ := next_entry es left solid
  have text : writeEntries column true ((k, o) :: es) ++ (spaces n ++ body) =
      writeEntries column true [(k, o)] ++ (spaces m ++ next) := by
    rw [← follow]
    simp [writeEntries]
  rw [text] at faces
  obtain ⟨s', first, faces'⟩ := steps_entry fit behindKey behindMark faces opening low solid_next
  by_cases is_last : es = []
  · obtain ⟨rfl, rfl⟩ := last is_last
    subst is_last
    refine ⟨s', first, ?_⟩
    simpa [entryTokens] using faces'
  · obtain ⟨rfl, rfl⟩ := more is_last
    obtain ⟨s'', others, faces''⟩ := entries is_last _ _ [] _ outer _ n body faces' (.begun outer) left solid
    refine ⟨s'', first.trans others, ?_⟩
    simpa [entryTokens] using faces''

end Scans

mutual

private theorem scansAfterKey : (o : Outline) → o.KeysFit → o.ScansAfterKey
  | .scalar p, _ => scansAfterKey_scalar p
  | .sequence [], _ => scansAfterKey_noItems
  | .sequence (o :: os), fit => scansAfterKey_sequence (scansItems (o :: os) (by simp) fit)
  | .mapping [], _ => scansAfterKey_noEntries
  | .mapping (e :: es), fit => scansAfterKey_mapping (scansEntries (e :: es) (by simp) fit)

private theorem scansAfterMark : (o : Outline) → o.KeysFit → o.ScansAfterMark
  | .scalar p, _ => scansAfterMark_scalar p
  | .sequence [], _ => scansAfterMark_noItems
  | .sequence (o :: os), fit => scansAfterMark_sequence (scansItems (o :: os) (by simp) fit)
  | .mapping [], _ => scansAfterMark_noEntries
  | .mapping (e :: es), fit => scansAfterMark_mapping (scansEntries (e :: es) (by simp) fit)

private theorem scansItems : (os : List Outline) → os ≠ [] → ItemsFit os → ScansItems os
  | [], some_items, _ => absurd rfl some_items
  | o :: os, _, fit => scansItems_cons (scansAfterMark o fit.1) fun more => scansItems os more fit.2

private theorem scansEntries : (es : List (Phrase × Outline)) → es ≠ [] → EntriesFit es → ScansEntries es
  | [], some_entries, _ => absurd rfl some_entries
  | (_, o) :: es, _, fit =>
    scansEntries_cons fit.1 (scansAfterKey o fit.2.1) (scansAfterMark o fit.2.1) fun more =>
      scansEntries es more fit.2.2

end

theorem scan_mapping {e : Phrase × Outline} {es : List (Phrase × Outline)} (fit : EntriesFit (e :: es)) :
    Token.scan .strict (mapping (e :: es)).write.toList = some ((mapping (e :: es)).tokens false) := by
  have text : (mapping (e :: es)).write.toList = writeEntries 0 true (e :: es) ++ (spaces 0 ++ []) := by
    rw [write, String.toList_ofList, writeEntries_begun]
    · simp [spaces]
    · rintro ⟨⟩
  have solid := solid_entries 0 e.1 e.2 es (spaces 0 ++ [])
  have faces := facesAt_spaces ⟨0, 0⟩ [] [] true solid 0
  obtain ⟨s', steps, faces'⟩ := scansEntries (e :: es) (by simp) fit _ _ _ _ [] 0 0 [] faces (.fresh [] (by simp))
    (Nat.le_refl 0) (by simp [Solid])
  obtain ⟨fuel, enough, same⟩ := run_of_steps steps
    ((writeEntries 0 true (e :: es) ++ (spaces 0 ++ [])).length + 2) (Nat.lt_succ_of_lt (Nat.lt_succ_self _))
  have found := faces'.run_eq enough
  rw [← same] at found
  have reversed := congrArg (Option.map List.reverse) found
  rw [Option.map_map] at reversed
  rw [scan_write, text]
  refine Eq.trans reversed ?_
  simp [tokens]

end Outline

end Overlays.Yaml
