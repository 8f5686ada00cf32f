import Overlays.Proofs.Registry.Places
import Overlays.Proofs.Registry.Similarity

set_option autoImplicit false
set_option relaxedAutoImplicit false

namespace Overlays

open PriorityList

/-- Where an overlay can be moved to: directly behind another one, or to an end of the list. -/
inductive Destination where
  | behind (parent : String)
  | top
  | bottom
deriving DecidableEq

namespace PriorityList

/-- The first overlay of a name is taken out of a list, and the others are cut in two where it is to be put in. -/
def TakenOut (name : String) (os : List Overlay) (o : Overlay) (below above : List Overlay) : Prop :=
  ∃ pre post, FirstAt name os pre o post ∧ pre ++ post = below ++ above

private theorem TakenOut.again {name : String} {os below above : List Overlay} {o : Overlay}
    (h : TakenOut name os o below above) (distinct : (os.map Overlay.name).Nodup) :
    TakenOut name (below ++ o :: above) o below above := by
  obtain ⟨pre, post, first, rest⟩ := h
  refine ⟨below, above, ⟨rfl, first.name_eq, ?_⟩, rfl⟩
  intro x member
  have elsewhere : x ∈ pre ++ post := rest ▸ List.mem_append_left above member
  rcases List.mem_append.mp elsewhere with before | behind
  · exact first.before_ne x before
  · exact first.after_ne distinct x behind

end PriorityList

namespace Destination

def move (name : String) : Destination → Change
  | .behind parent => .setPriority name parent
  | .top => .setHighestPriority name
  | .bottom => .setLowestPriority name

/-- The overlays after a move that goes by places, or nothing if it is refused. -/
def moveByPlace (name : String) (os : List Overlay) : Destination → Option (List Overlay)
  | .behind parent => setPriorityByPlace name parent os
  | .top => setHighestPriorityByPlace name os
  | .bottom => setLowestPriorityByPlace name os

/-- Whether the first overlay of a name may be moved to a destination. -/
def Allows (name : String) (os : List Overlay) : Destination → Prop
  | .behind parent => name ≠ parent ∧ ∃ o q, find? name os = some o ∧ find? parent os = some q ∧
      o.canChange = true ∧ o.target = q.target
  | .top | .bottom => ∃ o, find? name os = some o ∧ o.canChange = true

/-- Whether an overlay with others below and above it has come to a destination. -/
def Reached (o : Overlay) (below above : List Overlay) : Destination → Prop
  | .behind parent => o.name ≠ parent ∧ ∃ lower q, FirstAt parent (below ++ above) lower q above ∧
      below = lower ++ [q] ∧ o.target = q.target
  | .top => above = []
  | .bottom => below = []

variable {d : Destination} {name : String} {o : Overlay} {os os' below above : List Overlay}

private theorem moveByPlace_eq (d : Destination) (name : String) (os : List Overlay) :
    d.moveByPlace name os = (d.move name).apply os := by
  cases d with
  | behind parent => exact setPriorityByPlace_eq name parent os
  | top => exact setHighestPriorityByPlace_eq name os
  | bottom => exact setLowestPriorityByPlace_eq name os

private theorem apply_move_eq_some_iff : (d.move name).apply os = some os' ↔ ∃ o below above,
    TakenOut name os o below above ∧ o.canChange = true ∧ d.Reached o below above ∧ os' = below ++ o :: above := by
  cases d with
  | behind parent =>
    rw [move, Change.apply, setPriority_eq_some_iff]
    constructor
    · intro h
      obtain ⟨distinct, pre, o, post, lower, q, above, first, changeable, second, same, rfl⟩ := h
      have rest : pre ++ post = (lower ++ [q]) ++ above := by rw [second.list_eq, List.append_cons]
      refine ⟨o, lower ++ [q], above, ⟨pre, post, first, rest⟩, changeable, ?_, List.append_cons lower q _⟩
      rw [rest] at second
      exact ⟨fun own => distinct (first.name_eq.symm.trans own), lower, q, second, rfl, same⟩
    · intro h
      obtain ⟨o, below, above, ⟨pre, post, first, rest⟩, changeable, ⟨distinct, lower, q, second, rfl, same⟩, rfl⟩ := h
      rw [← rest] at second
      rw [first.name_eq] at distinct
      exact ⟨distinct, pre, o, post, lower, q, above, first, changeable, second, same, (List.append_cons lower q _).symm⟩
  | top =>
    rw [move, Change.apply, setHighestPriority_eq_some_iff]
    constructor
    · intro h
      obtain ⟨pre, o, post, first, changeable, rfl⟩ := h
      exact ⟨o, pre ++ post, [], ⟨pre, post, first, (List.append_nil _).symm⟩, changeable, rfl, rfl⟩
    · intro h
      obtain ⟨o, below, above, ⟨pre, post, first, rest⟩, changeable, rfl, rfl⟩ := h
      rw [List.append_nil] at rest
      exact ⟨pre, o, post, first, changeable, by rw [rest]⟩
  | bottom =>
    rw [move, Change.apply, setLowestPriority_eq_some_iff]
    constructor
    · intro h
      obtain ⟨pre, o, post, first, changeable, rfl⟩ := h
      exact ⟨o, [], pre ++ post, ⟨pre, post, first, rfl⟩, changeable, rfl, rfl⟩
    · intro h
      obtain ⟨o, below, above, ⟨pre, post, first, rest⟩, changeable, rfl, rfl⟩ := h
      exact ⟨pre, o, post, first, changeable, by rw [rest]; rfl⟩

private theorem isSome_apply_move_iff : ((d.move name).apply os).isSome = true ↔ d.Allows name os := by
  simp only [Option.isSome_iff_exists, apply_move_eq_some_iff]
  constructor
  · intro h
    obtain ⟨-, o, below, above, ⟨pre, post, first, rest⟩, changeable, reached, -⟩ := h
    cases d with
    | behind parent =>
      obtain ⟨distinct, lower, q, second, -, same⟩ := reached
      rw [first.name_eq] at distinct
      have found : find? parent os = some q := by
        rw [← find?_eraseFirst_of_ne (Ne.symm distinct), first.eraseFirst_eq, rest, second.find?_eq]
      exact ⟨distinct, o, q, first.find?_eq, found, changeable, same⟩
    | top => exact ⟨o, first.find?_eq, changeable⟩
    | bottom => exact ⟨o, first.find?_eq, changeable⟩
  · intro h
    cases d with
    | behind parent =>
      obtain ⟨distinct, o, q, own, found, changeable, same⟩ := h
      obtain ⟨pre, post, first⟩ := find?_eq_some_iff.mp own
      rw [← find?_eraseFirst_of_ne (Ne.symm distinct), first.eraseFirst_eq] at found
      obtain ⟨lower, above, second⟩ := find?_eq_some_iff.mp found
      have rest : pre ++ post = (lower ++ [q]) ++ above := by rw [second.list_eq, List.append_cons]
      rw [rest] at second
      rw [← first.name_eq] at distinct
      exact ⟨_, o, lower ++ [q], above, ⟨pre, post, first, rest⟩, changeable, ⟨distinct, lower, q, second, rfl, same⟩, rfl⟩
    | top =>
      obtain ⟨o, own, changeable⟩ := h
      obtain ⟨pre, post, first⟩ := find?_eq_some_iff.mp own
      exact ⟨_, o, pre ++ post, [], ⟨pre, post, first, (List.append_nil _).symm⟩, changeable, rfl, rfl⟩
    | bottom =>
      obtain ⟨o, own, changeable⟩ := h
      obtain ⟨pre, post, first⟩ := find?_eq_some_iff.mp own
      exact ⟨_, o, [], pre ++ post, ⟨pre, post, first, rfl⟩, changeable, rfl, rfl⟩

private theorem Reached.ofTarget (h : d.Reached o below above) :
    d.Reached o (ofTarget o.target below) (ofTarget o.target above) := by
  cases d with
  | behind parent =>
    obtain ⟨distinct, lower, q, second, rfl, same⟩ := h
    have among := second.ofTarget
    rw [← same, ofTarget_append] at among
    refine ⟨distinct, PriorityList.ofTarget o.target lower, q, among, ?_, same⟩
    rw [ofTarget_append, ofTarget_cons_of_eq same.symm]
    rfl
  | top =>
    obtain rfl : above = [] := h
    rfl
  | bottom =>
    obtain rfl : below = [] := h
    rfl

private theorem apply_move_again (distinct : (os.map Overlay.name).Nodup) (h : (d.move name).apply os = some os') :
    (d.move name).apply os' = some os' := by
  obtain ⟨o, below, above, taken, changeable, reached, rfl⟩ := apply_move_eq_some_iff.mp h
  exact apply_move_eq_some_iff.mpr ⟨o, below, above, taken.again distinct, changeable, reached, rfl⟩

end Destination

namespace Registry

/-- A registry in which an overlay of a user was moved to a destination, with others below and above it. -/
structure MovedTo (r : Registry) (user : UserId) (d : Destination) (o : Overlay) (below above : List Overlay)
    (r' : Registry) : Prop where
  overlays_eq : r'.overlays user = below ++ o :: above
  reached : d.Reached o below above
  infos_eq : r'.infosForTarget o.target user =
    (ofTarget o.target below ++ o :: ofTarget o.target above).map (·.info user)
  reached_in_target : d.Reached o (ofTarget o.target below) (ofTarget o.target above)
  others : ∀ u, u ≠ user → r'.overlays u = r.overlays u
  targets_eq : r'.targets = r.targets

variable {r r' : Registry} {user : UserId} {name : String} {d : Destination}

private theorem movedTo_of_change? (h : r.change? user (d.move name) = some r') : ∃ o below above,
    TakenOut name (r.overlays user) o below above ∧ r.MovedTo user d o below above r' := by
  obtain ⟨os', made, rfl⟩ := change?_eq_some_iff.mp h
  obtain ⟨o, below, above, ⟨pre, post, first, rest⟩, -, reached, rfl⟩ :=
    Destination.apply_move_eq_some_iff.mp made
  have after : (r.withOverlays user (below ++ o :: above)).overlays user = below ++ o :: above :=
    overlays_withOverlays_self r user _
  refine ⟨o, below, above, ⟨pre, post, first, rest⟩, after, reached, ?_, reached.ofTarget, ?_, rfl⟩
  · rw [infosForTarget_eq, after, ofTarget_append, ofTarget_cons_of_eq rfl]
  · intro u other
    exact overlays_withOverlays_ne r other _

private theorem answer_move_again (distinct : ((r.overlays user).map Overlay.name).Nodup) (d : Destination)
    (name : String) : (r.answer user (d.move name)).2.answer user (d.move name) = r.answer user (d.move name) := by
  cases changed : r.change? user (d.move name) with
  | none => simp only [answer, changed]
  | some r' =>
    obtain ⟨os', made, rfl⟩ := change?_eq_some_iff.mp changed
    obtain ⟨o, below, above, ⟨pre, post, first, -⟩, -⟩ := Destination.apply_move_eq_some_iff.mp made
    have again : (r.withOverlays user os').change? user (d.move name) = some (r.withOverlays user os') := by
      rw [change?_eq_some_iff, overlays_withOverlays_self]
      exact ⟨os', Destination.apply_move_again distinct made, withOverlays_withOverlays r user os' os'⟩
    simp only [answer, changed, again]

/-- An overlay comes to where it is moved, in the whole list and among the overlays of its target, and the others keep
their order, whether it is moved by names or by places. A move is refused for nothing but what its rules say, and then
changes nothing. -/
theorem moved_where_asked (r : Registry) (user : UserId) (d : Destination) (name : String) :
    (d.move name).apply (r.overlays user) = d.moveByPlace name (r.overlays user) ∧
    ((r.answer user (d.move name)).1 = true ↔ d.Allows name (r.overlays user)) ∧
    ((r.answer user (d.move name)).1 = false → (r.answer user (d.move name)).2 = r) ∧
    (∀ r', r.answer user (d.move name) = (true, r') → ∃ o below above,
      TakenOut name (r.overlays user) o below above ∧ r.MovedTo user d o below above r') ∧
    (((r.overlays user).map Overlay.name).Nodup →
      (r.answer user (d.move name)).2.answer user (d.move name) = r.answer user (d.move name)) := by
  refine ⟨(d.moveByPlace_eq name _).symm, ?_, answer_snd_of_false, ?_, ?_⟩
  · rw [answer_fst]
    exact Destination.isSome_apply_move_iff
  · intro r' done
    exact movedTo_of_change? (answer_eq_true_iff.mp done)
  · intro distinct
    exact answer_move_again distinct d name

private def onlyUser (os : List Overlay) : Registry := ⟨∅, ⟨[(⟨0⟩, os)], List.pairwise_singleton _ _⟩⟩

private def veil (target : String) : Overlay := ⟨"veil", target, none, .enabled, true, ∅⟩

private def ash : Overlay := ⟨"ash", "shell", none, .disabled, true, ∅⟩

private def fern : Overlay := ⟨"fern", "app", none, .enabledImmutable, true, ∅⟩

theorem moved_where_asked_past_others :
    (∃ o below above, TakenOut "veil" [veil "app", ash, fern, veil "shell"] o below above ∧
      (onlyUser [veil "app", ash, fern, veil "shell"]).MovedTo ⟨0⟩ (.behind "fern") o below above
        (onlyUser [ash, fern, veil "app", veil "shell"])) ∧
      (((onlyUser [veil "app", ash, fern]).overlays ⟨0⟩).map Overlay.name).Nodup ∧
      (onlyUser [ash, fern, veil "app"]).answer ⟨0⟩ ((Destination.behind "fern").move "veil") =
        (true, onlyUser [ash, fern, veil "app"]) := by
  obtain ⟨-, -, -, moved, -⟩ :=
    moved_where_asked (onlyUser [veil "app", ash, fern, veil "shell"]) ⟨0⟩ (.behind "fern") "veil"
  obtain ⟨-, -, -, -, again⟩ := moved_where_asked (onlyUser [veil "app", ash, fern]) ⟨0⟩ (.behind "fern") "veil"
  have distinct : (((onlyUser [veil "app", ash, fern]).overlays ⟨0⟩).map Overlay.name).Nodup := by decide
  exact ⟨moved _ rfl, distinct, again distinct⟩

end Registry

end Overlays
