import Mathlib.Data.List.Dedup
import Mathlib.Data.List.Induction
import Overlays.Proofs.Registry.Edits

set_option autoImplicit false
set_option relaxedAutoImplicit false

namespace Overlays

open PriorityList

namespace PriorityList

variable {name : String} {os pre post : List Overlay} {o : Overlay}

theorem find?_eq_some_of_mem (distinct : (os.map Overlay.name).Nodup) (h : o ∈ os) :
    find? o.name os = some o := by
  induction os with
  | nil => cases h
  | cons x os ih =>
    rw [List.map_cons, List.nodup_cons] at distinct
    rcases List.mem_cons.mp h with rfl | below
    · simp [find?]
    · have other : ¬ x.name = o.name := fun same =>
        distinct.1 (List.mem_map.mpr ⟨o, below, same.symm⟩)
      rw [find?, List.find?_cons_of_neg (by simpa using other)]
      exact ih distinct.2 below

theorem name_of_find? (h : find? name os = some o) : o ∈ os ∧ o.name = name := by
  rw [find?] at h
  exact ⟨List.mem_of_find?_eq_some h, by simpa using List.find?_some h⟩

theorem FirstAt.after_ne (h : FirstAt name os pre o post) (distinct : (os.map Overlay.name).Nodup) :
    ∀ x ∈ post, x.name ≠ name := by
  rw [h.list_eq, List.map_append, List.map_cons, List.nodup_append] at distinct
  intro x hx same
  have fresh := (List.nodup_cons.mp distinct.2.1).1
  exact fresh (List.mem_map.mpr ⟨x, hx, same.trans h.name_eq.symm⟩)

private theorem FirstAt.rearranged_setEnabled (h : FirstAt name os pre o post)
    (distinct : (os.map Overlay.name).Nodup) :
    RequestType.setEnabled.rearranged pre o post =
      os.filter (fun x => x.name ≠ name) ++ [o.withState .enabled] := by
  have before : pre.filter (fun x => x.name ≠ name) = pre :=
    List.filter_eq_self.mpr fun x hx => decide_eq_true (h.before_ne x hx)
  have behind : post.filter (fun x => x.name ≠ name) = post :=
    List.filter_eq_self.mpr fun x hx => decide_eq_true (h.after_ne distinct x hx)
  rw [h.list_eq, List.filter_append, List.filter_cons_of_neg (by simp [h.name_eq]), before, behind,
    RequestType.rearranged]

theorem FirstAt.replaced_eq_map (h : FirstAt name os pre o post)
    (distinct : (os.map Overlay.name).Nodup) (f : Overlay → Overlay) :
    pre ++ f o :: post = os.map fun x => if x.name = name then f x else x := by
  have before : (pre.map fun x => if x.name = name then f x else x) = pre :=
    (List.map_congr_left fun x hx => if_neg (h.before_ne x hx)).trans (List.map_id' pre)
  have behind : (post.map fun x => if x.name = name then f x else x) = post :=
    (List.map_congr_left fun x hx => if_neg (h.after_ne distinct x hx)).trans (List.map_id' post)
  rw [h.list_eq, List.map_append, List.map_cons, before, behind, if_pos h.name_eq]

private theorem FirstAt.rearranged_setDisabled (h : FirstAt name os pre o post)
    (distinct : (os.map Overlay.name).Nodup) :
    RequestType.setDisabled.rearranged pre o post =
      os.map fun x => if x.name = name then x.withState .disabled else x := by
  rw [RequestType.rearranged]
  exact h.replaced_eq_map distinct fun x => x.withState .disabled

private theorem filter_filterMap_find? (names : List String) (os : List Overlay) (name : String) :
    (names.filterMap (find? · os)).filter (fun x => x.name ≠ name) =
      (names.filter (· ≠ name)).filterMap (find? · os) := by
  rw [List.filter_filterMap, List.filterMap_filter]
  apply List.filterMap_congr
  intro n _
  cases found : find? n os with
  | none => simp
  | some o =>
    have same := (name_of_find? found).2
    by_cases h : n = name
    · simp [same, h]
    · simp [same, h]

end PriorityList

private theorem dedup_concat {α : Type} [DecidableEq α] (l : List α) (a : α) :
    (l ++ [a]).dedup = l.dedup.filter (· ≠ a) ++ [a] := by
  induction l with
  | nil => simp
  | cons b l ih =>
    rw [List.cons_append, List.dedup_cons, List.dedup_cons, ih]
    by_cases here : b = a
    · subst here
      by_cases again : b ∈ l
      · simp [again]
      · simp [again]
    · by_cases again : b ∈ l
      · simp [again]
      · simp [again, here]

namespace Transaction

/-- The requests that name an overlay of a user. -/
def requestsFor (t : Transaction) (user : UserId) (name : String) : List Request :=
  t.requests.filter fun q => q.user = user ∧ q.package = name

/-- What the last request that names an overlay of a user asks for. -/
def asked? (t : Transaction) (user : UserId) (name : String) : Option RequestType :=
  (t.requestsFor user name).getLast?.bind (·.kind.known?)

/-- The names in the requests that enable overlays of a user. -/
def enabledNames (t : Transaction) (user : UserId) : List String :=
  (t.requests.filter fun q => q.user = user ∧ q.kind.known? = some .setEnabled).map (·.package)

/-- An overlay of a user in the state that the last request for it asks for, if there is one. -/
def settled (t : Transaction) (user : UserId) (o : Overlay) : Overlay :=
  match t.asked? user o.name with
  | some .setEnabled => o.withState .enabled
  | some .setDisabled => o.withState .disabled
  | none => o

/-- The overlays of a user after a transaction: those that it does not enable, in their old order, and then those that it
enables, ordered by their last enabling. -/
def netEffect (t : Transaction) (user : UserId) (os : List Overlay) : List Overlay :=
  (os.filter (fun o => o.name ∉ t.enabledNames user)
    ++ (t.enabledNames user).dedup.filterMap (find? · os)).map (t.settled user)

@[simp] theorem settled_name (t : Transaction) (user : UserId) (o : Overlay) :
    (t.settled user o).name = o.name := by
  rw [settled]
  split
  · rfl
  · rfl
  · rfl

private theorem settled_withState (t : Transaction) (user : UserId) (o : Overlay) (s : OverlayState) :
    (t.settled user o).withState s = o.withState s := by
  rw [settled]
  split
  · rfl
  · rfl
  · rfl

variable (qs : List Request) (q : Request) (user : UserId)

theorem asked?_concat (name : String) :
    asked? ⟨qs ++ [q]⟩ user name =
      if q.user = user ∧ q.package = name then q.kind.known? else asked? ⟨qs⟩ user name := by
  by_cases h : q.user = user ∧ q.package = name
  · simp [asked?, requestsFor, List.filter_append, h]
  · simp [asked?, requestsFor, List.filter_append, h]

private theorem settled_concat_of_ne {o : Overlay} (h : ¬(q.user = user ∧ q.package = o.name)) :
    settled ⟨qs ++ [q]⟩ user o = settled ⟨qs⟩ user o := by
  rw [settled, asked?_concat, if_neg h, settled]

theorem enabledNames_concat_of_enabling (here : q.user = user) (known : q.kind.known? = some .setEnabled) :
    enabledNames ⟨qs ++ [q]⟩ user = enabledNames ⟨qs⟩ user ++ [q.package] := by
  simp [enabledNames, List.filter_append, here, known]

theorem enabledNames_concat_of_not (h : ¬(q.user = user ∧ q.kind.known? = some .setEnabled)) :
    enabledNames ⟨qs ++ [q]⟩ user = enabledNames ⟨qs⟩ user := by
  simp [enabledNames, List.filter_append, h]

variable {os : List Overlay}

private theorem netEffect_concat_of_disabling (here : q.user = user) (known : q.kind.known? = some .setDisabled) :
    netEffect ⟨qs ++ [q]⟩ user os = (netEffect ⟨qs⟩ user os).map
      fun x => if x.name = q.package then x.withState .disabled else x := by
  have names := enabledNames_concat_of_not qs q user (by simp [known])
  simp only [netEffect, names, List.map_map]
  apply List.map_congr_left
  intro o _
  by_cases same : o.name = q.package
  · have last : settled ⟨qs ++ [q]⟩ user o = o.withState .disabled := by
      simp [settled, asked?_concat, here, known, same]
    rw [last, Function.comp_apply, settled_name, if_pos same, settled_withState]
  · rw [settled_concat_of_ne qs q user fun both => same both.2.symm]
    simp [same]

private theorem netEffect_concat_of_enabling (here : q.user = user) (known : q.kind.known? = some .setEnabled)
    {o : Overlay} (found : find? q.package os = some o) :
    netEffect ⟨qs ++ [q]⟩ user os =
      (netEffect ⟨qs⟩ user os).filter (fun x => x.name ≠ q.package) ++ [o.withState .enabled] := by
  have names := enabledNames_concat_of_enabling qs q user here known
  have last : settled ⟨qs ++ [q]⟩ user o = o.withState .enabled := by
    simp [settled, asked?_concat, here, known, (name_of_find? found).2]
  have front : os.filter (fun x => x.name ∉ enabledNames ⟨qs⟩ user ++ [q.package]) =
      (os.filter fun x => x.name ∉ enabledNames ⟨qs⟩ user).filter fun x => x.name ≠ q.package := by
    rw [List.filter_filter]
    apply List.filter_congr
    intro x _
    simp [and_comm]
  have others (xs : List Overlay) :
      (xs.filter fun x => x.name ≠ q.package).map (settled ⟨qs ++ [q]⟩ user) =
        (xs.map (settled ⟨qs⟩ user)).filter fun x => x.name ≠ q.package := by
    rw [List.filter_map]
    simp only [Function.comp_def, settled_name]
    apply List.map_congr_left
    intro x hx
    have other : x.name ≠ q.package := by simpa using List.of_mem_filter hx
    exact settled_concat_of_ne qs q user fun both => other both.2.symm
  rw [netEffect, names, front, dedup_concat, List.filterMap_append, ← filter_filterMap_find?,
    ← List.append_assoc, ← List.filter_append, List.map_append, others, ← netEffect]
  simp only [List.filterMap_cons, found, List.filterMap_nil, List.map_cons, List.map_nil, last]

private theorem netEffect_concat_of_ne (other : q.user ≠ user) :
    netEffect ⟨qs ++ [q]⟩ user os = netEffect ⟨qs⟩ user os := by
  have names := enabledNames_concat_of_not qs q user fun both => other both.1
  have same (o : Overlay) : settled ⟨qs ++ [q]⟩ user o = settled ⟨qs⟩ user o :=
    settled_concat_of_ne qs q user fun both => other both.1
  simp only [netEffect, names]
  exact List.map_congr_left fun o _ => same o

private theorem netEffect_nil : netEffect ⟨[]⟩ user os = os := by
  have nothing : enabledNames ⟨[]⟩ user = [] := rfl
  have same : settled ⟨[]⟩ user = fun o => o := rfl
  simp [netEffect, nothing, same]

private theorem mem_netEffect {t : Transaction} {o : Overlay} (h : o ∈ t.netEffect user os) :
    ∃ x ∈ os, t.settled user x = o := by
  obtain ⟨x, hx, rfl⟩ := List.mem_map.mp h
  refine ⟨x, ?_, rfl⟩
  rcases List.mem_append.mp hx with kept | moved
  · exact List.mem_of_mem_filter kept
  · obtain ⟨name, -, found⟩ := List.mem_filterMap.mp moved
    exact (name_of_find? found).1

private theorem names_netEffect (t : Transaction) (present : ∀ name ∈ t.enabledNames user, name ∈ os.map Overlay.name) :
    (t.netEffect user os).map Overlay.name =
      (os.map Overlay.name).filter (· ∉ t.enabledNames user) ++ (t.enabledNames user).dedup := by
  have found (names : List String) (present : ∀ name ∈ names, name ∈ os.map Overlay.name) :
      (names.filterMap (find? · os)).map Overlay.name = names := by
    induction names with
    | nil => rfl
    | cons name names ih =>
      obtain ⟨here, below⟩ := List.forall_mem_cons.mp present
      obtain ⟨o, ho⟩ : ∃ o, find? name os = some o := by
        obtain ⟨x, hx, same⟩ := List.mem_map.mp here
        refine Option.ne_none_iff_exists'.mp fun missing => ?_
        exact find?_eq_none_iff.mp missing x hx same
      simp only [List.filterMap_cons, ho, List.map_cons, ih below, (name_of_find? ho).2]
  have moved := found (t.enabledNames user).dedup fun name h => present name (List.mem_dedup.mp h)
  simp only [netEffect, List.map_map, Function.comp_def, settled_name, List.map_append, List.filter_map]
  exact congrArg _ moved

end Transaction

namespace Registry

variable {r r' : Registry}

private theorem apply_map_perm {β : Type} {f : Overlay → β} (stateless : ∀ o s, f (o.withState s) = f o)
    {q : Request} (h : r.apply q = .ok r') (user : UserId) :
    ((r'.overlays user).map f).Perm ((r.overlays user).map f) :=
  edits_map_perm stateless ((edited_of_apply h).edits user)

theorem commit_map_perm {β : Type} {f : Overlay → β} (stateless : ∀ o s, f (o.withState s) = f o)
    {t : Transaction} (h : r.commit t = .ok r') (user : UserId) :
    ((r'.overlays user).map f).Perm ((r.overlays user).map f) :=
  edits_map_perm stateless ((edited_of_commit h).edits user)

theorem requests_present_of_commit {t : Transaction} (h : r.commit t = .ok r') :
    ∀ q ∈ t.requests, q.package ∈ (r.overlays q.user).map Overlay.name := by
  obtain ⟨qs⟩ := t
  induction qs generalizing r with
  | nil => simp
  | cons q qs ih =>
    obtain ⟨r₁, applied, rest⟩ := commit_cons_ok_iff.mp h
    refine List.forall_mem_cons.mpr ⟨?_, ?_⟩
    · obtain ⟨type, pre, o, post, -, first, -, -, -⟩ := apply_ok_iff.mp applied
      rw [first.list_eq, ← first.name_eq]
      simp
    · intro q' hq'
      have later := ih rest q' hq'
      exact (apply_map_perm Overlay.withState_name applied q'.user).mem_iff.mp later

private theorem names_of_disabling {q : Request} (known : q.kind.known? = some .setDisabled)
    (h : r.apply q = .ok r') (user : UserId) :
    (r'.overlays user).map Overlay.name = (r.overlays user).map Overlay.name := by
  obtain ⟨type, pre, o, post, known', first, -, -, rfl⟩ := apply_ok_iff.mp h
  cases Option.some.inj (known.symm.trans known')
  by_cases here : user = q.user
  · subst here
    rw [overlays_withOverlays_self, first.list_eq]
    simp [RequestType.rearranged]
  · rw [overlays_withOverlays_ne r here]

private theorem overlays_of_apply {qs : List Request} {q : Request} {user : UserId} {os : List Overlay}
    (so_far : r.overlays user = Transaction.netEffect ⟨qs⟩ user os)
    (distinct : (os.map Overlay.name).Nodup) (distinct' : ((r.overlays user).map Overlay.name).Nodup)
    (h : r.apply q = .ok r') : r'.overlays user = Transaction.netEffect ⟨qs ++ [q]⟩ user os := by
  obtain ⟨type, pre, o, post, known, first, -, -, rfl⟩ := apply_ok_iff.mp h
  by_cases here : q.user = user
  · subst here
    rw [overlays_withOverlays_self]
    cases type with
    | setEnabled =>
      -- the overlay found now is one of the first list, in the state that is settled so far
      have member := (name_of_find? first.find?_eq).1
      rw [so_far] at member
      obtain ⟨x, hx, rfl⟩ := Transaction.mem_netEffect q.user member
      have found : find? q.package os = some x := by
        rw [← first.name_eq, Transaction.settled_name]
        exact find?_eq_some_of_mem distinct hx
      rw [first.rearranged_setEnabled distinct', so_far, Transaction.settled_withState,
        Transaction.netEffect_concat_of_enabling qs q q.user rfl known found]
    | setDisabled =>
      rw [first.rearranged_setDisabled distinct', so_far,
        Transaction.netEffect_concat_of_disabling qs q q.user rfl known]
  · rw [overlays_withOverlays_ne r (Ne.symm here), so_far,
      Transaction.netEffect_concat_of_ne qs q user here]

theorem overlays_of_commit {qs : List Request} {user : UserId}
    (distinct : ((r.overlays user).map Overlay.name).Nodup) (h : r.commit ⟨qs⟩ = .ok r') :
    r'.overlays user = Transaction.netEffect ⟨qs⟩ user (r.overlays user) := by
  -- the last request decides, so the requests are taken off at the end
  induction qs using List.reverseRecOn generalizing r' with
  | nil =>
    cases h
    exact (Transaction.netEffect_nil user).symm
  | append_singleton qs q ih =>
    obtain ⟨r₁, before, last⟩ := commit_concat_ok_iff.mp h
    have names := commit_map_perm Overlay.withState_name before user
    exact overlays_of_apply (ih before) distinct (names.nodup_iff.mpr distinct) last

/-- A transaction that is carried out leaves the overlays of a user in the order and in the states that its last
requests for them ask for; it loses no name; and no disabling in it moves an overlay. -/
theorem net_effect_of_commit {r r' : Registry} {t : Transaction} (h : r.commit t = .ok r') {user : UserId}
    (distinct : ((r.overlays user).map Overlay.name).Nodup) :
    r'.overlays user = t.netEffect user (r.overlays user) ∧
      (r'.overlays user).map Overlay.name =
        ((r.overlays user).map Overlay.name).filter (· ∉ t.enabledNames user)
          ++ (t.enabledNames user).dedup ∧
      ∀ qs q rest r₁ r₂, t.requests = qs ++ q :: rest → q.kind.known? = some .setDisabled →
        r.commit ⟨qs⟩ = .ok r₁ → r₁.apply q = .ok r₂ →
        (r₂.overlays user).map Overlay.name = (r₁.overlays user).map Overlay.name := by
  have whole : r'.overlays user = t.netEffect user (r.overlays user) := overlays_of_commit distinct h
  have present : ∀ name ∈ t.enabledNames user, name ∈ (r.overlays user).map Overlay.name := by
    intro name hname
    obtain ⟨q, hq, rfl⟩ := List.mem_map.mp hname
    obtain ⟨requested, here, -⟩ : q ∈ t.requests ∧ q.user = user ∧ q.kind.known? = some .setEnabled := by
      simpa using List.mem_filter.mp hq
    rw [← here]
    exact requests_present_of_commit h q requested
  refine ⟨whole, ?_, ?_⟩
  · rw [whole, Transaction.names_netEffect user t present]
  · intro qs q rest r₁ r₂ _ known _ applied
    exact names_of_disabling known applied user

/-- Three overlays of one user. -/
private def threeOverlays : Registry where
  targets := ∅
  users := ⟨[(⟨0⟩, [⟨"dark", "app", none, .disabled, true, ∅⟩, ⟨"wide", "app", none, .enabled, true, ∅⟩,
    ⟨"calm", "other", none, .disabled, true, ∅⟩])], by simp⟩

/-- The first overlay is enabled on both sides of the enabling of the last one, which is disabled at the end. -/
private def interleaved : Transaction :=
  ⟨[⟨.ofType .setEnabled, "dark", ⟨0⟩, by decide⟩, ⟨.ofType .setEnabled, "calm", ⟨0⟩, by decide⟩,
    ⟨.ofType .setEnabled, "dark", ⟨0⟩, by decide⟩, ⟨.ofType .setDisabled, "calm", ⟨0⟩, by decide⟩]⟩

private def afterInterleaved : Registry where
  targets := ∅
  users := ⟨[(⟨0⟩, [⟨"wide", "app", none, .enabled, true, ∅⟩, ⟨"calm", "other", none, .disabled, true, ∅⟩,
    ⟨"dark", "app", none, .enabled, true, ∅⟩])], by simp⟩

theorem net_effect_of_commit_interleaved :
    threeOverlays.commit interleaved = .ok afterInterleaved ∧
      ((threeOverlays.overlays ⟨0⟩).map Overlay.name).Nodup ∧
      afterInterleaved.overlays ⟨0⟩ = interleaved.netEffect ⟨0⟩ (threeOverlays.overlays ⟨0⟩) ∧
      interleaved.enabledNames ⟨0⟩ = ["dark", "calm", "dark"] ∧
      (afterInterleaved.overlays ⟨0⟩).map Overlay.name =
        ((threeOverlays.overlays ⟨0⟩).map Overlay.name).filter (· ∉ interleaved.enabledNames ⟨0⟩)
          ++ (interleaved.enabledNames ⟨0⟩).dedup := by
  have committed : threeOverlays.commit interleaved = .ok afterInterleaved := rfl
  have distinct : ((threeOverlays.overlays ⟨0⟩).map Overlay.name).Nodup := by decide
  obtain ⟨whole, names, -⟩ := net_effect_of_commit committed distinct
  exact ⟨committed, distinct, whole, rfl, names⟩

end Registry

end Overlays
