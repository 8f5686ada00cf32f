import Mathlib.Data.Multiset.MapFold
import Mathlib.Logic.Relation
import Overlays.Proofs.Registry.Commit

/-!
Every change to a priority list, and every request, is made of single edits: an overlay that may be changed is switched
where it stands, or moved. What every edit keeps is therefore kept by changes, requests and transactions.
-/

set_option autoImplicit false
set_option relaxedAutoImplicit false

namespace Overlays

open PriorityList Relation

/-- An overlay that may be changed is switched on or off. One whose target is missing can only be switched off, and only
under a name for which this is permitted. -/
inductive Overlay.Turn (off : String → Prop) (o : Overlay) : Overlay → Prop
  | switch (enable : Bool) (changeable : o.canChange = true)
      (missing : o.state = .missingTarget → enable = false ∧ off o.name) :
      Turn off o (o.withState (.ofFlag enable))

/-- One edit of a priority list: an overlay is switched where it stands, or moved. -/
inductive PriorityList.Edit (off : String → Prop) : List Overlay → List Overlay → Prop
  | turn (pre post : List Overlay) {o o' : Overlay} (turned : o.Turn off o') :
      Edit off (pre ++ o :: post) (pre ++ o' :: post)
  | move (pre post pre' post' : List Overlay) {o : Overlay} (changeable : o.canChange = true)
      (rest : pre ++ post = pre' ++ post') : Edit off (pre ++ o :: post) (pre' ++ o :: post')

private theorem OverlayState.ofFlag_ne_enabledImmutable (enable : Bool) : ofFlag enable ≠ .enabledImmutable := by
  cases enable with
  | false => decide
  | true => decide

private theorem OverlayState.ofFlag_ne_missingTarget (enable : Bool) : ofFlag enable ≠ .missingTarget := by
  cases enable with
  | false => decide
  | true => decide

namespace Overlay.Turn

variable {off off' : String → Prop} {o o' : Overlay}

private theorem mono (h : o.Turn off o') (permitted : ∀ name, off name → off' name) : o.Turn off' o' := by
  obtain ⟨enable, changeable, missing⟩ := h
  refine .switch enable changeable fun gone => ?_
  exact ⟨(missing gone).1, permitted _ (missing gone).2⟩

theorem canChange_left (h : o.Turn off o') : o.canChange = true := by
  obtain ⟨enable, changeable, missing⟩ := h
  exact changeable

theorem canChange_right (h : o.Turn off o') : o'.canChange = true := by
  obtain ⟨enable, changeable, missing⟩ := h
  exact canChange_withState changeable (OverlayState.ofFlag_ne_enabledImmutable enable)

theorem state_ne_missingTarget (h : o.Turn off o') : o'.state ≠ .missingTarget := by
  obtain ⟨enable, changeable, missing⟩ := h
  exact OverlayState.ofFlag_ne_missingTarget enable

theorem apply_eq {β : Type} {f : Overlay → β} (stateless : ∀ o s, f (o.withState s) = f o)
    (h : o.Turn off o') : f o' = f o := by
  obtain ⟨enable, changeable, missing⟩ := h
  exact stateless o (.ofFlag enable)

end Overlay.Turn

namespace PriorityList

variable {off off' : String → Prop} {os os' pre post : List Overlay} {o : Overlay} {name : String}

private theorem Edit.mono (h : Edit off os os') (permitted : ∀ name, off name → off' name) : Edit off' os os' := by
  cases h with
  | turn pre post turned => exact .turn pre post (turned.mono permitted)
  | move pre post pre' post' changeable rest => exact .move pre post pre' post' changeable rest

private theorem edits_mono (h : ReflTransGen (Edit off) os os') (permitted : ∀ name, off name → off' name) :
    ReflTransGen (Edit off') os os' := by
  have single (xs ys : List Overlay) (edit : Edit off xs ys) : Edit off' xs ys := edit.mono permitted
  exact ReflTransGen.mono single os os' h

private theorem Edit.cons (x : Overlay) (h : Edit off os os') : Edit off (x :: os) (x :: os') := by
  cases h with
  | turn pre post turned => exact .turn (x :: pre) post turned
  | move pre post pre' post' changeable rest =>
    exact .move (x :: pre) post (x :: pre') post' changeable (congrArg (x :: ·) rest)

private theorem edits_map {g : Overlay → Overlay} (turned : ∀ o ∈ os, g o = o ∨ o.Turn off (g o)) :
    ReflTransGen (Edit off) os (os.map g) := by
  induction os with
  | nil => exact .refl
  | cons x os ih =>
    obtain ⟨here, below⟩ := List.forall_mem_cons.mp turned
    have behind (xs ys : List Overlay) (edit : Edit off xs ys) : Edit off (x :: xs) (x :: ys) := edit.cons x
    have rest : ReflTransGen (Edit off) (x :: os) (x :: os.map g) :=
      ReflTransGen.lift (x :: ·) behind os (os.map g) (ih below)
    rw [List.map_cons]
    rcases here with same | switched
    · rw [same]
      exact rest
    · exact rest.tail (.turn [] (os.map g) switched)

private theorem perm_of_move {pre' post' : List Overlay} (rest : pre ++ post = pre' ++ post') :
    (pre' ++ o :: post').Perm (pre ++ o :: post) := by
  have taken_out : (pre' ++ o :: post').Perm (o :: (pre' ++ post')) := List.perm_middle
  have put_back : (o :: (pre ++ post)).Perm (pre ++ o :: post) := List.perm_middle.symm
  rw [← rest] at taken_out
  exact taken_out.trans put_back

private theorem Edit.map_perm {β : Type} {f : Overlay → β} (stateless : ∀ o s, f (o.withState s) = f o)
    (h : Edit off os os') : (os'.map f).Perm (os.map f) := by
  cases h with
  | turn pre post turned => simp only [List.map_append, List.map_cons, turned.apply_eq stateless, List.Perm.refl]
  | move pre post pre' post' changeable rest => exact (perm_of_move rest).map f

theorem edits_map_perm {β : Type} {f : Overlay → β} (stateless : ∀ o s, f (o.withState s) = f o)
    (h : ReflTransGen (Edit off) os os') : (os'.map f).Perm (os.map f) := by
  induction h with
  | refl => exact .refl _
  | tail _ edit ih => exact (edit.map_perm stateless).trans ih

private theorem Edit.filter_eq {p : Overlay → Bool} (fixed : ∀ o, o.canChange = true → p o = false)
    (h : Edit off os os') : os'.filter p = os.filter p := by
  cases h with
  | @turn pre post o o' turned =>
    have before : p o = false := fixed o turned.canChange_left
    have after : p o' = false := fixed o' turned.canChange_right
    simp [List.filter_append, before, after]
  | @move pre post pre' post' o changeable rest =>
    have out : p o = false := fixed o changeable
    have others : pre.filter p ++ post.filter p = pre'.filter p ++ post'.filter p := by
      rw [← List.filter_append, rest, List.filter_append]
    simp [List.filter_append, out, others]

theorem edits_filter_eq {p : Overlay → Bool} (fixed : ∀ o, o.canChange = true → p o = false)
    (h : ReflTransGen (Edit off) os os') : os'.filter p = os.filter p := by
  induction h with
  | refl => rfl
  | tail _ edit ih => exact (edit.filter_eq fixed).trans ih

private theorem Edit.matched (h : Edit off os os') :
    Multiset.Rel (ReflTransGen (Overlay.Turn off)) (os : Multiset Overlay) os' := by
  have unchanged (m : Multiset Overlay) : Multiset.Rel (ReflTransGen (Overlay.Turn off)) m m :=
    Multiset.rel_refl_of_refl_on fun _ _ => .refl
  cases h with
  | turn pre post turned =>
    rw [← Multiset.coe_add, ← Multiset.coe_add, ← Multiset.cons_coe, ← Multiset.cons_coe]
    exact (unchanged pre).add (.cons (.single turned) (unchanged post))
  | move pre post pre' post' changeable rest =>
    rw [Multiset.coe_eq_coe.mpr (perm_of_move rest)]
    exact unchanged _

/-- Each overlay has its own one among those after edits, which it became by being switched, if at all. -/
theorem edits_matched (h : ReflTransGen (Edit off) os os') :
    Multiset.Rel (ReflTransGen (Overlay.Turn off)) (os : Multiset Overlay) os' := by
  induction h with
  | refl => exact Multiset.rel_refl_of_refl_on fun _ _ => .refl
  | tail _ edit ih => exact ih.trans _ edit.matched

private theorem edits_disableOthers (name : String) (p : Overlay → Bool) (os : List Overlay) :
    ReflTransGen (Edit off) os (disableOthers name p os) := by
  apply edits_map
  intro o _
  split
  · rename_i chosen
    obtain ⟨-, changeable, enabled, -⟩ := chosen
    refine .inr (.switch false changeable fun missing => ?_)
    rw [missing] at enabled
    cases enabled
  · exact .inl rfl

private theorem FirstAt.edit_withState (h : FirstAt name os pre o post) (enable : Bool)
    (changeable : o.canChange = true) (present : ¬(enable = true ∧ o.state = .missingTarget))
    (permitted : enable = false → off name) :
    Edit off os (pre ++ o.withState (.ofFlag enable) :: post) := by
  rw [h.list_eq]
  refine .turn pre post (.switch enable changeable fun missing => ?_)
  have disabling : enable = false := by
    cases enable with
    | false => rfl
    | true => exact absurd ⟨rfl, missing⟩ present
  exact ⟨disabling, h.name_eq ▸ permitted disabling⟩

private theorem edits_setEnabled {enable : Bool} (h : setEnabled name enable os = some os') :
    ReflTransGen (Edit fun n => enable = false ∧ n = name) os os' := by
  obtain ⟨pre, o, post, first, changeable, present, rfl⟩ := setEnabled_eq_some_iff.mp h
  exact .single (first.edit_withState enable changeable present fun disabling => ⟨disabling, rfl⟩)

private theorem edits_setEnabledExclusive {enable : Bool} (h : setEnabledExclusive name enable os = some os') :
    ReflTransGen (Edit fun n => enable = false ∧ n = name) os os' := by
  obtain ⟨o, switched, -, done, rfl⟩ := setEnabledExclusive_eq_some_iff.mp h
  have first := edits_setEnabled done
  split
  · exact first.trans (edits_disableOthers name _ switched)
  · exact first

private theorem edits_setEnabledExclusiveInCategory (h : setEnabledExclusiveInCategory name os = some os') :
    ReflTransGen (Edit off) os os' := by
  obtain ⟨o, category, switched, -, -, done, rfl⟩ := setEnabledExclusiveInCategory_eq_some_iff.mp h
  have first : ReflTransGen (Edit off) os switched := edits_mono (edits_setEnabled done) (by simp)
  exact first.trans (edits_disableOthers name _ switched)

end PriorityList

/-- What a change asks for an overlay of a name: on, off, or nothing. -/
def Change.asks? (name : String) : Change → Option Bool
  | .setEnabled n enable | .setEnabledExclusive n enable => if name = n then some enable else none
  | .setEnabledExclusiveInCategory n => if name = n then some true else none
  | _ => none

/-- Whether a change is to switch the overlay of a name off. -/
def Change.disables (name : String) (c : Change) : Bool := c.asks? name = some false

/-- Whether a request is to switch an overlay of a user off. -/
def Request.disables (user : UserId) (name : String) (q : Request) : Bool :=
  q.user = user && q.package = name && q.kind.known? = some .setDisabled

/-- Every change that is made comes about by edits, and takes an overlay out of the want of a target only if it is to
switch it off. -/
theorem Change.edits_of_apply {c : Change} {os os' : List Overlay} (h : c.apply os = some os') :
    ReflTransGen (Edit fun name => c.disables name = true) os os' := by
  cases c with
  | setEnabled name enable => exact edits_mono (edits_setEnabled h) (by simp [disables, asks?])
  | setEnabledExclusive name enable =>
    exact edits_mono (edits_setEnabledExclusive h) (by simp [disables, asks?])
  | setEnabledExclusiveInCategory name => exact edits_setEnabledExclusiveInCategory h
  | setPriority name parent =>
    obtain ⟨-, pre, o, post, pre', q, post', first, changeable, second, -, rfl⟩ :=
      setPriority_eq_some_iff.mp h
    have moved : pre ++ post = pre' ++ [q] ++ post' := by rw [second.list_eq, List.append_cons]
    rw [first.list_eq, List.append_cons pre' q]
    exact .single (.move pre post (pre' ++ [q]) post' changeable moved)
  | setHighestPriority name =>
    obtain ⟨pre, o, post, first, changeable, rfl⟩ := setHighestPriority_eq_some_iff.mp h
    rw [first.list_eq]
    exact .single (.move pre post (pre ++ post) [] changeable (by simp))
  | setLowestPriority name =>
    obtain ⟨pre, o, post, first, changeable, rfl⟩ := setLowestPriority_eq_some_iff.mp h
    rw [first.list_eq]
    exact .single (.move pre post [] (pre ++ post) changeable (by simp))

private theorem RequestType.edits_rearranged {off : String → Prop} {type : RequestType} {name : String}
    {os pre post : List Overlay} {o : Overlay} (first : FirstAt name os pre o post)
    (changeable : o.canChange = true) (present : ¬(type = .setEnabled ∧ o.state = .missingTarget))
    (permitted : type = .setDisabled → off name) :
    ReflTransGen (Edit off) os (type.rearranged pre o post) := by
  cases type with
  | setEnabled =>
    have switched : Edit off os (pre ++ o.withState .enabled :: post) :=
      first.edit_withState true changeable (fun both => present ⟨rfl, both.2⟩) (by simp)
    have still : (o.withState .enabled).canChange = true := Overlay.canChange_withState changeable (by decide)
    have moved : Edit off (pre ++ o.withState .enabled :: post) (pre ++ post ++ [o.withState .enabled]) :=
      .move pre post (pre ++ post) [] still (by simp)
    exact (ReflTransGen.single switched).tail moved
  | setDisabled =>
    have switched : Edit off os (pre ++ o.withState .disabled :: post) :=
      first.edit_withState false changeable (by simp) fun _ => permitted rfl
    exact .single switched

namespace Registry

/-- A registry becomes another one by edits to the overlays of its users. -/
structure Edited (off : UserId → String → Prop) (r r' : Registry) : Prop where
  targets_eq : r'.targets = r.targets
  users_eq : r'.users.keys = r.users.keys
  edits : ∀ user, ReflTransGen (Edit (off user)) (r.overlays user) (r'.overlays user)

variable {off off' : UserId → String → Prop} {r r' r'' : Registry}

theorem Edited.refl (off : UserId → String → Prop) (r : Registry) : r.Edited off r :=
  ⟨rfl, rfl, fun _ => .refl⟩

theorem Edited.trans (h : r.Edited off r') (h' : r'.Edited off r'') : r.Edited off r'' := by
  refine ⟨h'.targets_eq.trans h.targets_eq, h'.users_eq.trans h.users_eq, ?_⟩
  intro user
  exact (h.edits user).trans (h'.edits user)

theorem Edited.mono (h : r.Edited off r') (permitted : ∀ user name, off user name → off' user name) :
    r.Edited off' r' := by
  refine ⟨h.targets_eq, h.users_eq, ?_⟩
  intro user
  exact edits_mono (h.edits user) (permitted user)

private theorem edited_withOverlays {user : UserId} {os : List Overlay} (known : r.overlays user ≠ [])
    (h : ReflTransGen (Edit (off user)) (r.overlays user) os) : r.Edited off (r.withOverlays user os) := by
  refine ⟨rfl, users_withOverlays known os, ?_⟩
  intro other
  by_cases here : other = user
  · subst here
    rw [overlays_withOverlays_self]
    exact h
  · rw [overlays_withOverlays_ne r here]

theorem edited_of_change? {user : UserId} {c : Change} (h : r.change? user c = some r') :
    r.Edited (fun u name => u = user ∧ c.disables name = true) r' := by
  obtain ⟨os, made, rfl⟩ := change?_eq_some_iff.mp h
  apply edited_withOverlays (c.ne_nil_of_apply made)
  exact edits_mono (c.edits_of_apply made) fun name disabling => ⟨rfl, disabling⟩

theorem edited_of_apply {q : Request} (h : r.apply q = .ok r') :
    r.Edited (fun user name => q.disables user name = true) r' := by
  obtain ⟨type, pre, o, post, known, first, changeable, present, rfl⟩ := apply_ok_iff.mp h
  apply edited_withOverlays (FirstAt.overlays_ne_nil first)
  refine RequestType.edits_rearranged first changeable present fun disabling => ?_
  simp [Request.disables, known, disabling]

theorem edited_of_commit {t : Transaction} (h : r.commit t = .ok r') :
    r.Edited (fun user name => ∃ q ∈ t.requests, q.disables user name = true) r' := by
  obtain ⟨qs⟩ := t
  induction qs generalizing r with
  | nil =>
    cases h
    exact .refl _ _
  | cons q qs ih =>
    obtain ⟨r₁, first, rest⟩ := commit_cons_ok_iff.mp h
    refine ((edited_of_apply first).mono ?_).trans ((ih rest).mono ?_)
    · intro user name disabling
      exact ⟨q, List.mem_cons_self, disabling⟩
    · intro user name later
      obtain ⟨q', hq', disabling⟩ := later
      exact ⟨q', List.mem_cons_of_mem q hq', disabling⟩

end Registry

end Overlays
