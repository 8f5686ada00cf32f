/-!
Finite maps kept as lists of entries in strictly increasing key order. The order is part of the type, so two
maps with the same entries are equal, and listing a map needs no sorting.
-/

set_option autoImplicit false
set_option relaxedAutoImplicit false

namespace Overlays

universe u v

/-- A finite map whose entries are listed by strictly increasing key. -/
@[ext] structure SortedMap (κ : Type u) [Ord κ] (α : Type v) where
  entries : List (κ × α)
  sorted : entries.Pairwise fun a b => compare a.1 b.1 = .lt

namespace SortedMap

variable {κ : Type u} {α : Type v}

/-- The entries after binding `k` to `x`; an earlier binding of `k` is replaced. -/
def insertEntry [Ord κ] (k : κ) (x : α) : List (κ × α) → List (κ × α)
  | [] => [(k, x)]
  | e :: es =>
    match compare k e.1 with
    | .lt => (k, x) :: e :: es
    | .eq => (k, x) :: es
    | .gt => e :: insertEntry k x es

private theorem mem_insertEntry [Ord κ] {k : κ} {x : α} {es : List (κ × α)} {e : κ × α}
    (h : e ∈ insertEntry k x es) : e = (k, x) ∨ e ∈ es := by
  induction es with
  | nil => simpa [insertEntry] using h
  | cons d ds ih =>
    rw [insertEntry] at h
    split at h
    · simpa using h
    · rcases List.mem_cons.1 h with h | h
      · exact .inl h
      · exact .inr (List.mem_cons_of_mem _ h)
    · rcases List.mem_cons.1 h with h | h
      · exact .inr (h ▸ List.mem_cons_self)
      · exact (ih h).imp_right (List.mem_cons_of_mem _)

private theorem sorted_insertEntry [Ord κ] [Std.TransOrd κ] {k : κ} {x : α} {es : List (κ × α)}
    (h : es.Pairwise fun a b => compare a.1 b.1 = .lt) :
    (insertEntry k x es).Pairwise fun a b => compare a.1 b.1 = .lt := by
  induction es with
  | nil => simp [insertEntry]
  | cons d ds ih =>
    obtain ⟨hd, hds⟩ := List.pairwise_cons.1 h
    rw [insertEntry]
    split
    case h_1 hk =>
      refine List.pairwise_cons.2 ⟨fun e he => ?_, h⟩
      rcases List.mem_cons.1 he with rfl | he
      · exact hk
      · exact Std.TransCmp.lt_trans hk (hd e he)
    case h_2 hk =>
      exact List.pairwise_cons.2
        ⟨fun e he => Std.TransCmp.lt_of_eq_of_lt hk (hd e he), hds⟩
    case h_3 hk =>
      refine List.pairwise_cons.2 ⟨fun e he => ?_, ih hds⟩
      rcases mem_insertEntry he with rfl | he
      · exact Std.OrientedCmp.lt_of_gt hk
      · exact hd e he

def empty [Ord κ] : SortedMap κ α := ⟨[], .nil⟩

instance [Ord κ] : EmptyCollection (SortedMap κ α) := ⟨empty⟩

instance [Ord κ] : Inhabited (SortedMap κ α) := ⟨empty⟩

instance [Ord κ] [DecidableEq κ] [DecidableEq α] : DecidableEq (SortedMap κ α) := fun s t =>
  if h : s.entries = t.entries then isTrue (SortedMap.ext h)
  else isFalse fun e => h (e ▸ rfl)

/-- Binds `k` to `x`, in place of an earlier binding of `k`. -/
def insert [Ord κ] [Std.TransOrd κ] (m : SortedMap κ α) (k : κ) (x : α) : SortedMap κ α :=
  ⟨insertEntry k x m.entries, sorted_insertEntry m.sorted⟩

/-- The value bound to `k`. -/
def get? [Ord κ] [DecidableEq κ] (m : SortedMap κ α) (k : κ) : Option α :=
  (m.entries.find? fun e => e.1 = k).map Prod.snd

/-- Whether `k` is bound. -/
def contains [Ord κ] [DecidableEq κ] (m : SortedMap κ α) (k : κ) : Bool :=
  (m.get? k).isSome

def isEmpty [Ord κ] (m : SortedMap κ α) : Bool := m.entries.isEmpty

/-- The bound keys, in increasing order. -/
def keys [Ord κ] (m : SortedMap κ α) : List κ := m.entries.map Prod.fst

/-- Binds the pairs one after the other, so that the last binding of a key stands. -/
def ofList [Ord κ] [Std.TransOrd κ] (es : List (κ × α)) : SortedMap κ α :=
  es.foldl (fun m e => m.insert e.1 e.2) ∅

end SortedMap

end Overlays
