import Mathlib.Data.List.Basic
import Overlays.Proofs.Parcel.Steps
import Overlays.Transaction.Encoding

set_option autoImplicit false
set_option relaxedAutoImplicit false

namespace Overlays

open Parcel Text

namespace Request

/-- A request in a parcel. -/
def bytes (q : Request) : List UInt8 :=
  wordBytes q.kind.code ++ (stringBytes q.package ++ wordBytes q.user.number)

private theorem four_dvd_length_bytes (q : Request) : 4 ∣ q.bytes.length := by
  have package := four_dvd_length_stringBytes q.package
  simp only [bytes, List.length_append, length_wordBytes]
  omega

private theorem four_dvd_length_flatMap_bytes (qs : List Request) : 4 ∣ (qs.flatMap bytes).length := by
  induction qs with
  | nil => exact ⟨0, rfl⟩
  | cons q qs ih =>
    rw [List.flatMap_cons, List.length_append]
    exact Nat.dvd_add q.four_dvd_length_bytes ih

theorem read_ok_iff {index : Nat} {r r' : Reader} {q : Request} :
    (read index).runFrom r = (.ok q, r') ↔ Fits q.package ∧ Behind r q.bytes r' := by
  rw [read, runFrom_bind_ok_iff]
  simp only [bytes, behind_append_iff, runFrom_bind_ok_iff, word_ok_iff, string_ok_iff]
  constructor
  · intro h
    obtain ⟨code, r₁, kind, package, r₂, ⟨fits, name⟩, h⟩ := h
    split at h
    · cases h
    · obtain ⟨user, r₃, number, h⟩ := runFrom_bind_ok_iff.mp h
      cases h
      exact ⟨fits, r₁, kind, r₂, name, word_ok_iff.mp number⟩
  · intro h
    obtain ⟨fits, r₁, kind, r₂, name, number⟩ := h
    refine ⟨q.kind.code, r₁, kind, q.package, r₂, ⟨fits, name⟩, ?_⟩
    rw [dif_neg q.package_ne]
    exact runFrom_bind_ok_iff.mpr ⟨q.user.number, r', word_ok_iff.mpr number, rfl⟩

private theorem readMany_ok_iff {count index : Nat} {r r' : Reader} {qs : List Request} :
    (readMany index count).runFrom r = (.ok qs, r') ↔
      qs.length = count ∧ (∀ q ∈ qs, Fits q.package) ∧ Behind r (qs.flatMap bytes) r' := by
  -- the index is only named in complaints, so the induction leaves it open
  induction count generalizing index r r' qs with
  | zero =>
    rw [List.length_eq_zero_iff]
    constructor
    · intro h
      cases h
      exact ⟨rfl, by simp, behind_nil_iff.mpr rfl⟩
    · intro h
      obtain ⟨rfl, -, behind⟩ := h
      rw [behind_nil_iff.mp behind]
      rfl
  | succ count ih =>
    simp only [readMany, runFrom_bind_ok_iff, read_ok_iff, ih]
    constructor
    · intro h
      obtain ⟨q, r₁, ⟨fits, first⟩, rest, r₂, ⟨length, allFit, behind⟩, h⟩ := h
      cases h
      refine ⟨by rw [List.length_cons, length], ?_, first.trans behind⟩
      exact List.forall_mem_cons.mpr ⟨fits, allFit⟩
    · intro h
      obtain ⟨length, allFit, behind⟩ := h
      cases qs with
      | nil => cases length
      | cons q rest =>
        obtain ⟨fits, restFit⟩ := List.forall_mem_cons.mp allFit
        rw [List.flatMap_cons, behind_append_iff] at behind
        obtain ⟨r₁, first, behind⟩ := behind
        exact ⟨q, r₁, ⟨fits, first⟩, rest, r', ⟨Nat.succ.inj length, restFit, behind⟩, rfl⟩

private theorem write_of_aligned {w : Writer} (aligned : 4 ∣ w.size) (q : Request) :
    q.write w = if Fits q.package then .ok (w.append q.bytes)
      else .error (.tooLarge "string" (Utf16.encode q.package.toList).length) := by
  have kind : 4 ∣ (w.word q.kind.code).size := by
    rw [Writer.word, Writer.size_append, length_wordBytes]
    omega
  rw [write, Writer.string_of_aligned kind]
  by_cases fits : Fits q.package
  · rw [if_pos fits, if_pos fits]
    change Except.ok _ = Except.ok _
    rw [Writer.word, Writer.word, Writer.append_append, Writer.append_append, bytes]
  · rw [if_neg fits, if_neg fits]
    rfl

private theorem foldlM_write_ok_iff {qs : List Request} {w w' : Writer} (aligned : 4 ∣ w.size) :
    qs.foldlM write w = .ok w' ↔
      (∀ q ∈ qs, Fits q.package) ∧ w' = w.append (qs.flatMap bytes) := by
  induction qs generalizing w with
  | nil =>
    change Except.ok w = Except.ok w' ↔ _
    simp [Writer.append, eq_comm]
  | cons q qs ih =>
    have next : 4 ∣ (w.append q.bytes).size := by
      have := q.four_dvd_length_bytes
      rw [Writer.size_append]
      omega
    rw [List.foldlM_cons, write_of_aligned aligned, List.forall_mem_cons, List.flatMap_cons,
      ← Writer.append_append]
    by_cases fits : Fits q.package
    · rw [if_pos fits]
      change qs.foldlM write (w.append q.bytes) = .ok w' ↔ _
      rw [ih next]
      simp only [fits, true_and]
    · rw [if_neg fits]
      constructor
      · intro h
        cases h
      · intro h
        obtain ⟨⟨fits', -⟩, -⟩ := h
        exact absurd fits' fits

end Request

namespace Transaction

/-- A transaction in a parcel. -/
def bytes (t : Transaction) : List UInt8 :=
  wordBytes (Int32.ofNat t.size) ++ t.requests.flatMap Request.bytes

theorem four_dvd_length_bytes (t : Transaction) : 4 ∣ t.bytes.length := by
  rw [bytes, List.length_append, length_wordBytes]
  exact Nat.dvd_add ⟨1, rfl⟩ (Request.four_dvd_length_flatMap_bytes t.requests)

/-- The requests, and the code units of each package name, can be counted by a signed word. -/
structure Fits (t : Transaction) : Prop where
  size_lt : t.size < Numeral.wordLimit
  packages_fit : ∀ q ∈ t.requests, Parcel.Fits q.package

theorem write_ok_iff {t : Transaction} {w w' : Writer} (aligned : 4 ∣ w.size) :
    t.write w = .ok w' ↔ t.Fits ∧ w' = w.append t.bytes := by
  by_cases fits : t.size < Numeral.wordLimit
  · have counted : countBytes "request count" t.size = .ok (wordBytes (Int32.ofNat t.size)) :=
      if_pos fits
    have next : 4 ∣ (w.append (wordBytes (Int32.ofNat t.size))).size := by
      rw [Writer.size_append, length_wordBytes]
      omega
    rw [write, counted]
    change t.requests.foldlM Request.write (w.append (wordBytes (Int32.ofNat t.size))) = .ok w' ↔ _
    rw [Request.foldlM_write_ok_iff next, Writer.append_append, ← bytes]
    exact and_congr_left fun _ => ⟨fun packages => ⟨fits, packages⟩, fun all => all.packages_fit⟩
  · have counted : countBytes "request count" t.size = .error (.tooLarge "request count" t.size) :=
      if_neg fits
    rw [write, counted]
    constructor
    · intro h
      cases h
    · intro h
      obtain ⟨all, -⟩ := h
      exact absurd all.size_lt fits

theorem read_ok_iff {t : Transaction} {r r' : Reader} :
    read.runFrom r = (.ok t, r') ↔ t.Fits ∧ Behind r t.bytes r' := by
  rw [read, runFrom_bind_ok_iff]
  simp only [bytes, behind_append_iff, word_ok_iff]
  constructor
  · intro h
    obtain ⟨count, r₁, counted, h⟩ := h
    split at h
    · cases h
    · rename_i nonnegative
      obtain ⟨fits, count_eq⟩ := eq_count_of_not_neg nonnegative
      obtain ⟨qs, r₂, requests, h⟩ := runFrom_bind_ok_iff.mp h
      cases h
      obtain ⟨length, packages, behind⟩ := Request.readMany_ok_iff.mp requests
      refine ⟨⟨by rwa [size, length], packages⟩, r₁, ?_, behind⟩
      rwa [size, length, count_eq]
  · intro h
    obtain ⟨fits, r₁, counted, behind⟩ := h
    refine ⟨Int32.ofNat t.size, r₁, counted, ?_⟩
    have value : (Int32.ofNat t.size).toInt.toNat = t.requests.length := toNat_toInt_count fits.size_lt
    rw [if_neg (count_not_neg fits.size_lt), value]
    exact runFrom_bind_ok_iff.mpr
      ⟨t.requests, r', Request.readMany_ok_iff.mpr ⟨rfl, fits.packages_fit, behind⟩, rfl⟩

theorem encode_ok_iff {t : Transaction} {b : List UInt8} : t.encode = .ok b ↔ t.Fits ∧ b = t.bytes := by
  have start : 4 ∣ Writer.empty.size := ⟨0, rfl⟩
  have written (w : Writer) : t.write .empty = .ok w ↔ t.Fits ∧ w = Writer.empty.append t.bytes :=
    write_ok_iff start
  rw [encode]
  constructor
  · intro h
    cases whole : t.write .empty with
    | error e =>
      rw [whole] at h
      cases h
    | ok w =>
      rw [whole] at h
      cases h
      obtain ⟨fits, rfl⟩ := (written w).mp whole
      exact ⟨fits, rfl⟩
  · intro h
    obtain ⟨fits, rfl⟩ := h
    rw [(written _).mpr ⟨fits, rfl⟩]
    rfl

private theorem decode_ok_iff {t : Transaction} {b : List UInt8} : decode b = .ok t ↔ t.Fits ∧ b = t.bytes := by
  have whole (r : Reader) : read.runFrom (.start b) = (.ok t, r) ↔
      t.Fits ∧ b = t.bytes ++ r.rest ∧ r.position = t.bytes.length := by
    rw [read_ok_iff, behind_start_iff]
  rw [decode]
  constructor
  · intro h
    split at h
    · rename_i u r finished
      split at h
      · rename_i nothing
        cases h
        obtain ⟨fits, content, -⟩ := (whole r).mp finished
        rw [List.length_eq_zero_iff.mp nothing, List.append_nil] at content
        exact ⟨fits, content⟩
      · cases h
    · cases h
  · intro h
    obtain ⟨fits, rfl⟩ := h
    have finished := (whole ⟨t.bytes.length, []⟩).mpr ⟨fits, (List.append_nil _).symm, rfl⟩
    rw [finished]
    rfl

/-- A parcel is read as a transaction exactly if the transaction is written as that parcel, and a transaction can be
written exactly if its parts can be counted. -/
theorem decode_iff_encode (b : List UInt8) (t : Transaction) :
    (decode b = .ok t ↔ t.encode = .ok b) ∧ (t.Fits ↔ ∃ parcel, t.encode = .ok parcel) := by
  constructor
  · rw [decode_ok_iff, encode_ok_iff]
  · constructor
    · intro fits
      exact ⟨t.bytes, encode_ok_iff.mpr ⟨fits, rfl⟩⟩
    · intro h
      obtain ⟨parcel, written⟩ := h
      exact (encode_ok_iff.mp written).1

/-- A request of a kind that is not known, for a package whose name needs a surrogate pair. -/
example : (Transaction.mk [⟨⟨7⟩, "😀", ⟨-1⟩, by decide⟩]).encode = .ok
    [1, 0, 0, 0, 7, 0, 0, 0, 2, 0, 0, 0, 0x3d, 0xd8, 0x00, 0xde, 0, 0, 0, 0, 255, 255, 255, 255] := by
  rfl

end Transaction

end Overlays
