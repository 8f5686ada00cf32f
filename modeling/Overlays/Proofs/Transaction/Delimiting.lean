import Overlays.Proofs.Transaction.Codec

set_option autoImplicit false
set_option relaxedAutoImplicit false

namespace Overlays

open Parcel Text

namespace Parcel

variable {α β : Type}

/-- Reading needed more bytes than were left, in a parcel of a certain size. -/
def RanShort (size : Nat) (result : Except ParcelError α) : Prop :=
  ∃ offset needed remaining, result = .error (.unexpectedEnd offset needed remaining) ∧
    remaining < needed ∧ offset + remaining = size

/-- A step reads a value from bytes of the value's own: it stops behind them, and runs short if some of them are missing
at the end. -/
structure Delimits (x : Read α) (a : α) (bs : List UInt8) : Prop where
  reads : ∀ {r r' : Reader}, Behind r bs r' → x.runFrom r = (.ok a, r')
  short : ∀ {r : Reader}, r.rest <+: bs → r.rest ≠ bs →
    RanShort (r.position + r.remaining) (x.runFrom r).1

private theorem prefix_append_cases {as bs cs : List UInt8} (h : cs <+: as ++ bs) (ne : cs ≠ as ++ bs) :
    cs <+: as ∧ cs ≠ as ∨ ∃ rest, cs = as ++ rest ∧ rest <+: bs ∧ rest ≠ bs := by
  obtain ⟨missing, whole⟩ := h
  rcases List.append_eq_append_iff.mp whole with ⟨within, rfl, -⟩ | ⟨rest, rfl, rfl⟩
  · cases within with
    | nil =>
      rw [List.append_nil] at ne ⊢
      exact .inr ⟨[], by simp, List.nil_prefix, fun same => ne (by rw [← same, List.append_nil])⟩
    | cons b within => exact .inl ⟨List.prefix_append cs _, by simp⟩
  · exact .inr ⟨rest, rfl, List.prefix_append rest missing, fun same => ne (by rw [← same])⟩

private theorem RanShort.runFrom_eq {x : Read α} {r : Reader} {size : Nat} (h : RanShort size (x.runFrom r).1) :
    ∃ offset needed remaining r', x.runFrom r = (.error (.unexpectedEnd offset needed remaining), r') ∧
      remaining < needed ∧ offset + remaining = size := by
  obtain ⟨offset, needed, remaining, failed, less, place⟩ := h
  exact ⟨offset, needed, remaining, (x.runFrom r).2, Prod.ext failed rfl, less, place⟩

private theorem RanShort.bind {x : Read α} {r : Reader} {size : Nat} (h : RanShort size (x.runFrom r).1)
    (f : α → Read β) : RanShort size ((x >>= f).runFrom r).1 := by
  obtain ⟨offset, needed, remaining, r', failed, less, place⟩ := h.runFrom_eq
  rw [runFrom_bind, failed]
  exact ⟨offset, needed, remaining, rfl, less, place⟩

namespace Delimits

variable {x : Read α} {f : α → Read β} {a : α} {b : β} {as bs : List UInt8}

private theorem pure (a : α) : Delimits (Pure.pure a) a [] := by
  refine ⟨fun behind => ?_, fun within ne => absurd (List.prefix_nil.mp within) ne⟩
  rw [behind_nil_iff.mp behind]
  rfl

private theorem bind (first : Delimits x a as) (second : Delimits (f a) b bs) : Delimits (x >>= f) b (as ++ bs) := by
  constructor
  · intro r r' behind
    obtain ⟨r₁, h₁, h₂⟩ := behind_append_iff.mp behind
    exact runFrom_bind_ok_iff.mpr ⟨a, r₁, first.reads h₁, second.reads h₂⟩
  · intro r within ne
    rcases prefix_append_cases within ne with ⟨early, ne⟩ | ⟨rest, split, late, ne⟩
    · exact (first.short early ne).bind f
    · have passed : Behind r as ⟨r.position + as.length, rest⟩ := ⟨split, rfl⟩
      have later := second.short (r := ⟨r.position + as.length, rest⟩) late ne
      rw [runFrom_bind, first.reads passed, passed.remaining_eq, ← Nat.add_assoc]
      exact later

private theorem map (h : Delimits x a as) (g : α → β) : Delimits (x >>= fun a => Pure.pure (g a)) (g a) as := by
  have whole := h.bind (f := fun a => Pure.pure (g a)) (pure (g a))
  rwa [List.append_nil] at whole

end Delimits

private theorem delimits_take (bs : List UInt8) : Delimits (take bs.length) bs bs := by
  constructor
  · intro r r' behind
    exact take_ok_iff.mpr ⟨rfl, behind⟩
  · intro r within ne
    have less : r.remaining < bs.length := by
      refine Nat.lt_of_le_of_ne within.length_le fun same => ne (within.eq_of_length same)
    rw [take_of_lt less]
    exact ⟨r.position, bs.length, r.remaining, rfl, less, rfl⟩

private theorem delimits_word (w : Int32) : Delimits word w (wordBytes w) :=
  ⟨word_ok_iff.mpr, fun within ne => ((delimits_take (wordBytes w)).short within ne).bind _⟩

private theorem nullableString_short {s : String} (fits : Fits s) {r : Reader} (within : r.rest <+: stringBytes s)
    (ne : r.rest ≠ stringBytes s) : RanShort (r.position + r.remaining) (nullableString.runFrom r).1 := by
  rcases prefix_append_cases within ne with ⟨early, ne⟩ | ⟨rest, split, late, ne⟩
  · obtain ⟨offset, needed, remaining, r', failed, less, place⟩ := ((delimits_word _).short early ne).runFrom_eq
    rw [nullableString_runFrom, failed]
    exact ⟨offset, needed, remaining, rfl, less, place⟩
  · have counted : Behind r (wordBytes (Int32.ofNat (Utf16.encode s.toList).length)) ⟨r.position + 4, rest⟩ :=
      ⟨split, rfl⟩
    have less : rest.length < roundUp (((Utf16.encode s.toList).length + 1) * 2) := by
      rw [← length_unitsBody]
      exact Nat.lt_of_le_of_ne late.length_le fun same => ne (late.eq_of_length same)
    rw [nullableString_of_counted fits (word_ok_iff.mpr counted), take_of_lt less, counted.remaining_eq,
      length_wordBytes, ← Nat.add_assoc]
    exact ⟨r.position + 4, _, rest.length, rfl, less, rfl⟩

private theorem delimits_string {s : String} (fits : Fits s) : Delimits string s (stringBytes s) := by
  refine ⟨fun behind => string_ok_iff.mpr ⟨fits, behind⟩, fun {r} within ne => ?_⟩
  have place : position.runFrom r = (.ok r.position, r) := rfl
  rw [string, runFrom_bind, place]
  exact (nullableString_short fits within ne).bind _

end Parcel

namespace Request

private theorem delimits_read {q : Request} (fits : Fits q.package) (index : Nat) :
    Delimits (read index) q q.bytes := by
  refine (delimits_word q.kind.code).bind ((delimits_string fits).bind ?_)
  rw [dif_neg q.package_ne]
  exact (delimits_word q.user.number).map fun user : Int32 => (⟨⟨q.kind.code⟩, q.package, ⟨user⟩, q.package_ne⟩ : Request)

private theorem delimits_readMany {qs : List Request} (fit : ∀ q ∈ qs, Fits q.package) (index : Nat) :
    Delimits (readMany index qs.length) qs (qs.flatMap bytes) := by
  induction qs generalizing index with
  | nil => exact .pure []
  | cons q qs ih =>
    obtain ⟨first, rest⟩ := List.forall_mem_cons.mp fit
    exact (delimits_read first index).bind ((ih rest (index + 1)).map fun qs => q :: qs)

end Request

namespace Transaction

private theorem delimits_read {t : Transaction} (fits : t.Fits) : Delimits read t t.bytes := by
  refine (delimits_word (Int32.ofNat t.size)).bind ?_
  have value : (Int32.ofNat t.size).toInt.toNat = t.requests.length := toNat_toInt_count fits.size_lt
  rw [if_neg (count_not_neg fits.size_lt), value]
  exact (Request.delimits_readMany fits.packages_fit 0).map Transaction.mk

/-- The parcel of a transaction tells where it ends: reading runs short in front of its end, wherever it is cut off, and
does not go on behind it. -/
theorem encode_delimits {t : Transaction} {b : List UInt8} (written : t.encode = .ok b) :
    (∀ cut, cut <+: b → cut ≠ b → RanShort cut.length (decode cut)) ∧
    ∀ c, read.runFrom (.start (b ++ c)) = (.ok t, ⟨b.length, c⟩) ∧
      (c ≠ [] → decode (b ++ c) = .error (.trailingBytes c.length)) := by
  obtain ⟨fits, rfl⟩ := encode_ok_iff.mp written
  have delimited := delimits_read fits
  constructor
  · intro cut within ne
    have short : RanShort (0 + cut.length) (read.runFrom (.start cut)).1 := delimited.short within ne
    obtain ⟨offset, needed, remaining, place, failed, less, size⟩ := short.runFrom_eq
    rw [Nat.zero_add] at size
    rw [decode, failed]
    exact ⟨offset, needed, remaining, rfl, less, size⟩
  · intro c
    have finished : read.runFrom (.start (t.bytes ++ c)) = (.ok t, ⟨t.bytes.length, c⟩) :=
      delimited.reads (behind_start_iff.mpr ⟨rfl, rfl⟩)
    refine ⟨finished, fun some_left => ?_⟩
    rw [decode, finished]
    exact if_neg fun none_left => some_left (List.length_eq_zero_iff.mp none_left)

/-- One request, for a package whose name is a surrogate pair, so that its string is padded. -/
private def padded : Transaction := ⟨[⟨⟨7⟩, "😃", ⟨-1⟩, by decide⟩]⟩

private def paddedBytes : List UInt8 :=
  [1, 0, 0, 0, 7, 0, 0, 0, 2, 0, 0, 0, 0x3d, 0xd8, 0x03, 0xde, 0, 0, 0, 0, 255, 255, 255, 255]

theorem encode_delimits_of_padded :
    padded.encode = .ok paddedBytes ∧ paddedBytes.take 19 <+: paddedBytes ∧ paddedBytes.take 19 ≠ paddedBytes ∧
      RanShort 19 (decode (paddedBytes.take 19)) ∧
      read.runFrom (.start (paddedBytes ++ [0])) = (.ok padded, ⟨24, [0]⟩) ∧
      decode (paddedBytes ++ [0]) = .error (.trailingBytes 1) := by
  have written : padded.encode = .ok paddedBytes := rfl
  have within : paddedBytes.take 19 <+: paddedBytes := List.take_prefix 19 paddedBytes
  have ne : paddedBytes.take 19 ≠ paddedBytes := by decide
  obtain ⟨short, behind⟩ := encode_delimits written
  exact ⟨written, within, ne, short _ within ne, (behind [0]).1, (behind [0]).2 (by decide)⟩

end Transaction

end Overlays
