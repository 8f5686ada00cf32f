import Overlays.Proofs.Parcel.Steps

/-!
Reading a parcel by places in it. A cursor counts the bytes in front of its place, and each step by it checks every sum,
product, slice and index for its range. No step ever leaves a range: reading by places is the same as reading the bytes
that lie ahead, and moves on by whole words within the parcel.
-/

set_option autoImplicit false
set_option relaxedAutoImplicit false

namespace Overlays.Parcel

variable {α β : Type}

/-- A parcel and a place in it, given by the number of bytes in front. -/
structure Cursor where
  data : List UInt8
  position : Nat

/-- A reading step by places: nothing if it leaves a range, and else its value or complaint with the place reached. -/
abbrev Guarded (α : Type) := ExceptT ParcelError (StateT Cursor Option) α

namespace Guarded

def runFrom (x : Guarded α) (c : Cursor) : Option (Except ParcelError α × Cursor) := x c

/-- Sizes and places are words of sixty-four bits. -/
def sizeLimit : Nat := 0x10000000000000000

def sized? (n : Nat) : Option Nat := if n < sizeLimit then some n else none

/-- The bytes between two places. -/
def slice? (bs : List UInt8) (start stop : Nat) : Option (List UInt8) :=
  if start ≤ stop ∧ stop ≤ bs.length then some ((bs.drop start).take (stop - start)) else none

/-- The bytes in front of a place and behind it. -/
def splitAt? (bs : List UInt8) (place : Nat) : Option (List UInt8 × List UInt8) :=
  if place ≤ bs.length then some (bs.take place, bs.drop place) else none

/-- A value that is given only within its range. -/
def inRange : Option α → Guarded α
  | some a => pure a
  | none => fun _ => none

def position : Guarded Nat := do return (← get).position

/-- How many bytes lie behind the place; none if it were beyond the end. -/
def remaining : Guarded Nat := do
  let c ← get
  return c.data.length - c.position

def take (needed : Nat) : Guarded (List UInt8) := do
  let c ← get
  let left ← remaining
  if left < needed then throw (.unexpectedEnd c.position needed left)
  let stop ← inRange (sized? (c.position + needed))
  let bytes ← inRange (slice? c.data c.position stop)
  set (Cursor.mk c.data stop)
  return bytes

def word : Guarded Int32 := do
  let bytes ← take 4
  let b₀ ← inRange bytes[0]?
  let b₁ ← inRange bytes[1]?
  let b₂ ← inRange bytes[2]?
  let b₃ ← inRange bytes[3]?
  return wordOfBytes b₀ b₁ b₂ b₃

/-- Bytes two by two; a last odd byte is dropped. -/
def pairs : List UInt8 → List (List UInt8)
  | b₀ :: b₁ :: bs => [b₀, b₁] :: pairs bs
  | _ => []

/-- The code unit of two bytes. -/
def unit? (pair : List UInt8) : Option UInt16 := do
  let b₀ ← pair[0]?
  let b₁ ← pair[1]?
  return UInt16.ofNat (b₀.toNat + b₁.toNat * 0x100)

/-- The text of a string, given its code units with the zero unit behind them, and the padding. -/
def stringOfUnits (offset : Nat) (units : List UInt16) (padding : List UInt8) : Except ParcelError String :=
  if units.getLast? ≠ some 0 then .error (.missingTerminator offset)
  else if padding.any (· ≠ 0) then .error (.nonZeroPadding offset)
  else match Text.Utf16.decode? units.dropLast with
    | some cs => .ok (String.ofList cs)
    | none => .error (.invalidUtf16 offset)

def nullableString : Guarded (Option String) := do
  let offset ← position
  let count ← word
  if count = -1 then return none
  if count < 0 then throw (.invalidStringLength offset count)
  let units ← inRange (sized? (count.toInt.toNat + 1))
  match sized? (units * 2) with
  | none => throw (.invalidStringLength offset count)
  | some size =>
    let padded ← inRange (sized? (roundUp size))
    let bytes ← take padded
    let (text, padding) ← inRange (splitAt? bytes size)
    let units ← inRange ((pairs text).mapM unit?)
    match stringOfUnits offset units padding with
    | .ok s => return some s
    | .error e => throw e

def string : Guarded String := do
  let offset ← position
  match ← nullableString with
  | some s => return s
  | none => throw (.nullString offset)

private theorem mapM_unit?_pairs (bs : List UInt8) : (pairs bs).mapM unit? = some (unitsOfBytes bs) := by
  fun_induction unitsOfBytes bs with
  | case1 b₀ b₁ bs ih =>
    rw [pairs, List.mapM_cons, ih]
    rfl
  | case2 bs short =>
    rw [pairs]
    · rfl
    · exact short

private theorem runFrom_bind (x : Guarded α) (f : α → Guarded β) (c : Cursor) :
    (x >>= f).runFrom c = match x.runFrom c with
      | none => none
      | some (.ok a, c') => (f a).runFrom c'
      | some (.error e, c') => some (.error e, c') := by
  change ((x c).bind fun p => ExceptT.bindCont f p.1 p.2) = match x c with
    | none => none
    | some (.ok a, c') => f a c'
    | some (.error e, c') => some (.error e, c')
  rcases x c with _ | ⟨_ | a, c'⟩
  · rfl
  · rfl
  · rfl

end Guarded

/-- The place of a reader in a parcel: it has passed over whole words, and the rest lies ahead. -/
structure Reader.At (data : List UInt8) (r : Reader) : Prop where
  rest_eq : r.rest = data.drop r.position
  within : r.position ≤ data.length
  aligned : 4 ∣ r.position

theorem Reader.start_at (data : List UInt8) : (Reader.start data).At data :=
  ⟨rfl, Nat.zero_le _, Nat.dvd_zero 4⟩

theorem Reader.At.remaining_eq {data : List UInt8} {r : Reader} (h : r.At data) :
    r.remaining = data.length - r.position := by
  rw [Reader.remaining, h.rest_eq, List.length_drop]

/-- A step by places stays in its ranges and is the same as a step on what lies ahead. It does not move back, and where it
complains of the end it says how things stand at the place reached. -/
structure Safe (data : List UInt8) (x : Guarded α) (y : Read α) (r : Reader) : Prop where
  runFrom_eq : x.runFrom ⟨data, r.position⟩ = some ((y.runFrom r).1, ⟨data, (y.runFrom r).2.position⟩)
  reached : (y.runFrom r).2.At data
  onward : r.position ≤ (y.runFrom r).2.position
  ended : ∀ offset needed remaining, (y.runFrom r).1 = .error (.unexpectedEnd offset needed remaining) →
    offset = (y.runFrom r).2.position ∧ remaining = (y.runFrom r).2.remaining ∧ remaining < needed

namespace Safe

variable {data : List UInt8} {r : Reader} {x : Guarded α} {y : Read α} {f : α → Guarded β} {g : α → Read β}

private theorem of_runFrom {out : Except ParcelError α × Reader} (same : y.runFrom r = out)
    (run : x.runFrom ⟨data, r.position⟩ = some (out.1, ⟨data, out.2.position⟩)) (reached : out.2.At data)
    (onward : r.position ≤ out.2.position)
    (ended : ∀ offset needed remaining, out.1 = .error (.unexpectedEnd offset needed remaining) →
      offset = out.2.position ∧ remaining = out.2.remaining ∧ remaining < needed) : Safe data x y r := by
  subst same
  exact ⟨run, reached, onward, ended⟩

theorem pure (at_ : r.At data) (a : α) : Safe data (Pure.pure a) (Pure.pure a) r :=
  ⟨rfl, at_, Nat.le_refl _, by rintro _ _ _ ⟨⟩⟩

theorem throw (at_ : r.At data) {e : ParcelError}
    (other : ∀ offset needed remaining, e ≠ .unexpectedEnd offset needed remaining) :
    Safe data (MonadExcept.throw e : Guarded α) (MonadExcept.throw e) r := by
  refine ⟨rfl, at_, Nat.le_refl _, ?_⟩
  intro offset needed remaining same
  exact absurd (Except.error.inj same) (other offset needed remaining)

theorem bind (first : Safe data x y r)
    (later : ∀ a r', y.runFrom r = (.ok a, r') → r'.At data → Safe data (f a) (g a) r') :
    Safe data (x >>= f) (y >>= g) r := by
  obtain ⟨run, reached, onward, ended⟩ := first
  rcases out : y.runFrom r with ⟨e | a, r'⟩
  · rw [out] at run reached onward ended
    have stopped : (y >>= g).runFrom r = (.error e, r') := by rw [Parcel.runFrom_bind, out]
    refine .of_runFrom stopped ?_ reached onward ?_
    · rw [Guarded.runFrom_bind, run]
    · intro offset needed remaining same
      exact ended offset needed remaining (congrArg Except.error (Except.error.inj same))
  · rw [out] at run reached onward
    obtain ⟨run', reached', onward', ended'⟩ := later a r' out reached
    have continued : (y >>= g).runFrom r = (g a).runFrom r' := by rw [Parcel.runFrom_bind, out]
    refine .of_runFrom continued ?_ reached' (Nat.le_trans onward onward') ended'
    rw [Guarded.runFrom_bind, run]
    exact run'

theorem map (h : Safe data x y r) (g : α → β) :
    Safe data (x >>= fun a => Pure.pure (g a)) (y >>= fun a => Pure.pure (g a)) r :=
  h.bind fun a _ _ at_ => .pure at_ (g a)

theorem look {a : α} (looked : x.runFrom ⟨data, r.position⟩ = some (.ok a, ⟨data, r.position⟩)) {z : Read β}
    (later : Safe data (f a) z r) : Safe data (x >>= f) z r := by
  obtain ⟨run, reached, onward, ended⟩ := later
  refine ⟨?_, reached, onward, ended⟩
  rw [Guarded.runFrom_bind, looked]
  exact run

theorem check {a : α} {o : Option α} (there : o = some a) {z : Read β} (later : Safe data (f a) z r) :
    Safe data (Guarded.inRange o >>= f) z r := by
  rw [there]
  exact look rfl later

end Safe

section Steps

variable {data : List UInt8} {r : Reader}

private theorem safe_position (at_ : r.At data) : Safe data Guarded.position position r :=
  ⟨rfl, at_, Nat.le_refl _, by rintro _ _ _ ⟨⟩⟩

private theorem safe_take (inMemory : data.length < Guarded.sizeLimit) (at_ : r.At data) {needed : Nat}
    (whole : 4 ∣ needed) : Safe data (Guarded.take needed) (take needed) r := by
  have left := at_.remaining_eq
  refine .look (a := ⟨data, r.position⟩) rfl (.look (a := data.length - r.position) rfl ?_)
  rw [← left]
  by_cases short : r.remaining < needed
  · simp only [if_pos short]
    refine .of_runFrom (take_of_lt short) rfl at_ (Nat.le_refl _) ?_
    rintro _ _ _ ⟨⟩
    exact ⟨rfl, rfl, short⟩
  · obtain ⟨rest_eq, within, aligned⟩ := at_
    have enough : r.position + needed ≤ data.length := by omega
    have passed : (take needed).runFrom r =
        (.ok (r.rest.take needed), ⟨r.position + needed, r.rest.drop needed⟩) :=
      if_pos (Nat.le_of_not_lt short)
    simp only [if_neg short]
    refine .check (if_pos (Nat.lt_of_le_of_lt enough inMemory)) ?_
    refine .check (if_pos ⟨Nat.le_add_right _ _, enough⟩) ?_
    rw [Nat.add_sub_cancel_left, ← rest_eq]
    refine .of_runFrom passed rfl ?_ (Nat.le_add_right _ _) (by rintro _ _ _ ⟨⟩)
    exact ⟨by rw [rest_eq, List.drop_drop], enough, Nat.dvd_add aligned whole⟩

theorem safe_word (inMemory : data.length < Guarded.sizeLimit) (at_ : r.At data) :
    Safe data Guarded.word word r := by
  refine (safe_take inMemory at_ ⟨1, rfl⟩).bind ?_
  intro bytes r' taken at_'
  obtain ⟨length, -⟩ := take_ok_iff.mp taken
  match bytes, length with
  | [b₀, b₁, b₂, b₃], _ => exact .check rfl (.check rfl (.check rfl (.check rfl (.pure at_' _))))

private theorem stringOfBytes_eq_stringOfUnits (offset count : Nat) (bytes : List UInt8) :
    stringOfBytes offset count bytes = Guarded.stringOfUnits offset
      (unitsOfBytes (bytes.take ((count + 1) * 2))) (bytes.drop ((count + 1) * 2)) := rfl

private theorem four_dvd_roundUp (n : Nat) : 4 ∣ roundUp n := Nat.dvd_mul_left 4 _

private theorem stringOfBytes_ne_unexpectedEnd {offset count : Nat} {bytes : List UInt8} {e : ParcelError}
    (h : stringOfBytes offset count bytes = .error e) (place needed remaining : Nat) :
    e ≠ .unexpectedEnd place needed remaining := by
  rw [stringOfBytes] at h
  split at h
  · cases h
    rintro ⟨⟩
  split at h
  · cases h
    rintro ⟨⟩
  split at h
  · cases h
  · cases h
    rintro ⟨⟩

theorem safe_nullableString (inMemory : data.length < Guarded.sizeLimit) (at_ : r.At data) :
    Safe data Guarded.nullableString nullableString r := by
  refine (safe_position at_).bind ?_
  rintro offset r₀ ⟨⟩ at₀
  refine (safe_word inMemory at₀).bind ?_
  intro count r₁ counted at₁
  by_cases null : count = -1
  · simp only [if_pos null]
    exact .pure at₁ none
  by_cases negative : count < 0
  · simp only [if_neg null, if_pos negative]
    exact .throw at₁ (by rintro _ _ _ ⟨⟩)
  simp only [if_neg null, if_neg negative]
  obtain ⟨fits, -⟩ := eq_count_of_not_neg negative
  generalize count.toInt.toNat = units at fits
  -- a count has thirty-one bits, so nothing that is computed from it comes near the limit
  have small : roundUp ((units + 1) * 2) < Guarded.sizeLimit := by
    simp only [Text.Numeral.wordLimit, roundUp, Guarded.sizeLimit] at fits ⊢
    omega
  have size_lt : (units + 1) * 2 < Guarded.sizeLimit := Nat.lt_of_le_of_lt (le_roundUp _) small
  have sized : Guarded.sized? ((units + 1) * 2) = some ((units + 1) * 2) := if_pos size_lt
  refine .check (if_pos (by omega)) ?_
  simp only [sized]
  refine .check (if_pos small) ?_
  refine (safe_take inMemory at₁ (four_dvd_roundUp _)).bind ?_
  intro bytes r₂ taken at₂
  obtain ⟨length, -⟩ := take_ok_iff.mp taken
  refine .check (if_pos (length ▸ le_roundUp _)) ?_
  refine .check (Guarded.mapM_unit?_pairs _) ?_
  rw [← stringOfBytes_eq_stringOfUnits]
  cases decoded : stringOfBytes r.position units bytes with
  | ok s => exact .pure at₂ (some s)
  | error e => exact .throw at₂ (stringOfBytes_ne_unexpectedEnd decoded)

theorem safe_string (inMemory : data.length < Guarded.sizeLimit) (at_ : r.At data) :
    Safe data Guarded.string string r := by
  refine (safe_position at_).bind ?_
  rintro offset r₀ ⟨⟩ at₀
  refine (safe_nullableString inMemory at₀).bind ?_
  intro s r₁ _ at₁
  cases s with
  | none => exact .throw at₁ (by rintro _ _ _ ⟨⟩)
  | some s => exact .pure at₁ s

end Steps

end Overlays.Parcel
