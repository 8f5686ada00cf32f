import Mathlib.Data.List.Basic
import Overlays.Proofs.Parcel.Strings

set_option autoImplicit false
set_option relaxedAutoImplicit false

namespace Overlays.Parcel

open Text

variable {α β : Type}

/-- The second place is reached from the first one by passing over the bytes between them. -/
structure Behind (r : Reader) (bs : List UInt8) (r' : Reader) : Prop where
  rest_eq : r.rest = bs ++ r'.rest
  position_eq : r'.position = r.position + bs.length

theorem behind_nil_iff {r r' : Reader} : Behind r [] r' ↔ r = r' := by
  constructor
  · intro h
    obtain ⟨hr, hp⟩ := h
    cases r
    cases r'
    simp_all
  · rintro rfl
    exact ⟨rfl, rfl⟩

theorem Behind.remaining_eq {r r' : Reader} {bs : List UInt8} (h : Behind r bs r') :
    r.remaining = bs.length + r'.remaining := by
  rw [Reader.remaining, h.rest_eq, List.length_append, Reader.remaining]

theorem Behind.trans {r r' r'' : Reader} {as bs : List UInt8} (h : Behind r as r')
    (h' : Behind r' bs r'') : Behind r (as ++ bs) r'' := by
  refine ⟨?_, ?_⟩
  · rw [h.rest_eq, h'.rest_eq, List.append_assoc]
  · rw [h'.position_eq, h.position_eq, List.length_append]
    omega

theorem behind_append_iff {r r'' : Reader} {as bs : List UInt8} :
    Behind r (as ++ bs) r'' ↔ ∃ r', Behind r as r' ∧ Behind r' bs r'' := by
  constructor
  · intro h
    obtain ⟨hr, hp⟩ := h
    rw [List.length_append] at hp
    refine ⟨⟨r.position + as.length, bs ++ r''.rest⟩, ⟨?_, rfl⟩, rfl, ?_⟩
    · rw [hr, List.append_assoc]
    · change r''.position = r.position + as.length + bs.length
      omega
  · intro h
    obtain ⟨r', h, h'⟩ := h
    exact h.trans h'

theorem behind_start_iff {bytes bs : List UInt8} {r : Reader} :
    Behind (.start bytes) bs r ↔ bytes = bs ++ r.rest ∧ r.position = bs.length := by
  constructor
  · intro h
    obtain ⟨hr, hp⟩ := h
    exact ⟨hr, by simpa [Reader.start] using hp⟩
  · intro h
    obtain ⟨hr, hp⟩ := h
    exact ⟨hr, by simpa [Reader.start] using hp⟩

private theorem runFrom_pure (a : α) (r : Reader) : (pure a : Read α).runFrom r = (.ok a, r) := rfl

theorem runFrom_bind (x : Read α) (f : α → Read β) (r : Reader) :
    (x >>= f).runFrom r = match x.runFrom r with
      | (.ok a, r') => (f a).runFrom r'
      | (.error e, r') => (.error e, r') := by
  change (match x r with | (a, s) => ExceptT.bindCont f a s) = match x r with
    | (.ok a, r') => f a r'
    | (.error e, r') => (.error e, r')
  rcases x r with ⟨_ | a, r'⟩
  · rfl
  · rfl

theorem runFrom_bind_ok_iff {x : Read α} {f : α → Read β} {r r'' : Reader} {b : β} :
    (x >>= f).runFrom r = (.ok b, r'') ↔
      ∃ a r', x.runFrom r = (.ok a, r') ∧ (f a).runFrom r' = (.ok b, r'') := by
  rw [runFrom_bind]
  rcases x.runFrom r with ⟨e | a, r'⟩
  · simp
  · simp

theorem take_ok_iff {n : Nat} {r r' : Reader} {bs : List UInt8} :
    (take n).runFrom r = (.ok bs, r') ↔ bs.length = n ∧ Behind r bs r' := by
  change (if n ≤ r.remaining then (Except.ok (r.rest.take n), (⟨r.position + n, r.rest.drop n⟩ : Reader))
    else (.error (ParcelError.unexpectedEnd r.position n r.remaining), r)) = _ ↔ _
  constructor
  · intro h
    split at h
    · rename_i enough
      have length : (r.rest.take n).length = n := by
        rw [List.length_take]
        exact Nat.min_eq_left enough
      simp only [Prod.mk.injEq, Except.ok.injEq] at h
      obtain ⟨rfl, rfl⟩ := h
      exact ⟨length, (List.take_append_drop n r.rest).symm, by rw [length]⟩
    · simp at h
  · intro h
    obtain ⟨rfl, hr, hp⟩ := h
    have enough : bs.length ≤ r.remaining := by
      rw [Reader.remaining, hr, List.length_append]
      omega
    rw [if_pos enough, hr, List.take_left, List.drop_left, ← hp]

theorem take_of_lt {n : Nat} {r : Reader} (h : r.remaining < n) :
    (take n).runFrom r = (.error (.unexpectedEnd r.position n r.remaining), r) :=
  if_neg (Nat.not_le_of_lt h)

theorem word_ok_iff {r r' : Reader} {w : Int32} :
    word.runFrom r = (.ok w, r') ↔ Behind r (wordBytes w) r' := by
  rw [word, runFrom_bind_ok_iff]
  constructor
  · intro h
    obtain ⟨bs, r₁, taken, h⟩ := h
    rw [take_ok_iff] at taken
    obtain ⟨length, behind⟩ := taken
    match bs, length with
    | [b₀, b₁, b₂, b₃], _ =>
      simp only [runFrom_pure, Prod.mk.injEq, Except.ok.injEq] at h
      obtain ⟨rfl, rfl⟩ := h
      rw [wordBytes_wordOfBytes]
      exact behind
  · intro behind
    refine ⟨wordBytes w, r', take_ok_iff.mpr ⟨rfl, behind⟩, ?_⟩
    change (Except.ok _, r') = _
    rw [wordOfBytes_of_wordBytes rfl]

theorem nullableString_runFrom (r : Reader) :
    nullableString.runFrom r = match word.runFrom r with
      | (.error e, r') => (.error e, r')
      | (.ok count, r') =>
        if count = -1 then (.ok none, r')
        else if count < 0 then (.error (.invalidStringLength r.position count), r')
        else match (take (roundUp ((count.toInt.toNat + 1) * 2))).runFrom r' with
          | (.error e, r'') => (.error e, r'')
          | (.ok bytes, r'') => ((stringOfBytes r.position count.toInt.toNat bytes).map some, r'') := by
  have place : position.runFrom r = (.ok r.position, r) := rfl
  rw [nullableString, runFrom_bind, place]
  simp only [runFrom_bind]
  rcases word.runFrom r with ⟨_ | count, r'⟩
  · rfl
  by_cases null : count = -1
  · simp only [if_pos null]
    rfl
  by_cases negative : count < 0
  · simp only [if_neg null, if_pos negative]
    rfl
  simp only [if_neg null, if_neg negative, runFrom_bind]
  rcases (take (roundUp ((count.toInt.toNat + 1) * 2))).runFrom r' with ⟨_ | bytes, r''⟩
  · rfl
  dsimp only
  cases stringOfBytes r.position count.toInt.toNat bytes with
  | ok s => rfl
  | error e => rfl

/-- A string that may be missing, in a parcel. -/
def nullableStringBytes : Option String → List UInt8
  | none => wordBytes (-1)
  | some s => stringBytes s

private theorem behind_of_nullableString {r r' : Reader} {o : Option String}
    (h : nullableString.runFrom r = (.ok o, r')) :
    (∀ s ∈ o, Fits s) ∧ Behind r (nullableStringBytes o) r' := by
  rw [nullableString_runFrom] at h
  split at h
  · cases h
  rename_i count r₁ counted
  rw [word_ok_iff] at counted
  split at h
  · rename_i null
    cases h
    rw [null] at counted
    exact ⟨by simp, counted⟩
  split at h
  · cases h
  rename_i nonnegative
  split at h
  · cases h
  rename_i bytes r₂ taken
  rw [take_ok_iff] at taken
  obtain ⟨fits, count_eq⟩ := eq_count_of_not_neg nonnegative
  cases decoded : stringOfBytes r.position count.toInt.toNat bytes with
  | error e =>
    rw [decoded] at h
    cases h
  | ok s =>
    rw [decoded] at h
    cases h
    obtain ⟨length, body⟩ := unitsBody_of_stringOfBytes taken.1 decoded
    refine ⟨by simpa [Fits, length] using fits, ?_⟩
    rw [nullableStringBytes, stringBytes, length, count_eq, ← body]
    exact counted.trans taken.2

theorem nullableString_of_counted {r r' : Reader} {count : Nat} (fits : count < Numeral.wordLimit)
    (counted : word.runFrom r = (.ok (Int32.ofNat count), r')) :
    nullableString.runFrom r = match (take (roundUp ((count + 1) * 2))).runFrom r' with
      | (.error e, r'') => (.error e, r'')
      | (.ok bytes, r'') => ((stringOfBytes r.position count bytes).map some, r'') := by
  rw [nullableString_runFrom, counted]
  simp only [if_neg (count_ne_neg_one fits), if_neg (count_not_neg fits), toNat_toInt_count fits]

theorem nullableString_of_units {r r' : Reader} {us : List UInt16} (fits : us.length < Numeral.wordLimit)
    (behind : Behind r (unitsBytes us) r') :
    nullableString.runFrom r = ((Utf16.decode? us).elim (.error (.invalidUtf16 r.position))
      fun cs => .ok (some (String.ofList cs)), r') := by
  obtain ⟨r₁, counted, body⟩ := behind_append_iff.mp behind
  have taken := take_ok_iff.mpr ⟨length_unitsBody us, body⟩
  rw [nullableString_of_counted fits (word_ok_iff.mpr counted)]
  simp only [taken, stringOfBytes_unitsBody_eq]
  cases Utf16.decode? us with
  | none => rfl
  | some cs => rfl

private theorem nullableString_of_behind {r r' : Reader} {s : String} (fits : Fits s)
    (behind : Behind r (stringBytes s) r') : nullableString.runFrom r = (.ok (some s), r') := by
  rw [nullableString_of_units fits behind, Utf16.decode?_encode, Option.elim_some, String.ofList_toList]

theorem nullableString_ok_iff {r r' : Reader} {o : Option String} :
    nullableString.runFrom r = (.ok o, r') ↔
      (∀ s ∈ o, Fits s) ∧ Behind r (nullableStringBytes o) r' := by
  constructor
  · exact behind_of_nullableString
  · intro h
    obtain ⟨fits, behind⟩ := h
    cases o with
    | none =>
      rw [nullableString_runFrom, word_ok_iff.mpr behind]
      rfl
    | some s => exact nullableString_of_behind (fits s rfl) behind

theorem string_ok_iff {r r' : Reader} {s : String} :
    string.runFrom r = (.ok s, r') ↔ Fits s ∧ Behind r (stringBytes s) r' := by
  have present : nullableString.runFrom r = (.ok (some s), r') ↔
      Fits s ∧ Behind r (stringBytes s) r' := by
    rw [nullableString_ok_iff]
    simp [nullableStringBytes]
  have place : position.runFrom r = (.ok r.position, r) := rfl
  rw [← present, string, runFrom_bind, place]
  simp only [runFrom_bind_ok_iff]
  constructor
  · intro h
    obtain ⟨o, r₁, h, h'⟩ := h
    cases o with
    | none => cases h'
    | some t =>
      cases h'
      exact h
  · intro h
    exact ⟨some s, r', h, rfl⟩

end Overlays.Parcel
