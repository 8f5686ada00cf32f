import Overlays.Proofs.Manager.Replies

set_option autoImplicit false
set_option relaxedAutoImplicit false

namespace Overlays

open PriorityList

namespace PriorityList

/-- Priority lists without repeated names that agree target by target. -/
structure Alike (os os' : List Overlay) : Prop where
  distinct : (os.map Overlay.name).Nodup
  distinct' : (os'.map Overlay.name).Nodup
  ofTarget_eq : ∀ target, ofTarget target os' = ofTarget target os

variable {os os' : List Overlay}

private theorem Alike.symm (h : Alike os os') : Alike os' os :=
  ⟨h.distinct', h.distinct, fun target => (h.ofTarget_eq target).symm⟩

private theorem Alike.find?_some (h : Alike os os') {name : String} {o : Overlay} (found : find? name os = some o) :
    find? name os' = some o := by
  obtain ⟨member, named⟩ := name_of_find? found
  have listed : o ∈ ofTarget o.target os' := by
    rw [h.ofTarget_eq]
    exact mem_ofTarget_iff.mpr ⟨member, rfl⟩
  rw [← named]
  exact find?_eq_some_of_mem h.distinct' (mem_ofTarget_iff.mp listed).1

private theorem Alike.find?_eq (h : Alike os os') (name : String) : find? name os' = find? name os := by
  cases found : find? name os with
  | some o => exact h.find?_some found
  | none =>
    rw [Option.eq_none_iff_forall_ne_some]
    intro o found'
    rw [h.symm.find?_some found'] at found
    cases found

private theorem Alike.apply (h : Alike os os') {c : Change} {os₁ : List Overlay} (made : c.apply os = some os₁) :
    ∃ os₁', c.apply os' = some os₁' ∧ Alike os₁ os₁' := by
  have possible : (c.apply os').isSome = true := by
    rw [c.isSome_apply_congr h.find?_eq, made]
    rfl
  obtain ⟨os₁', made'⟩ := Option.isSome_iff_exists.mp possible
  have names := edits_map_perm Overlay.withState_name (c.edits_of_apply made)
  have names' := edits_map_perm Overlay.withState_name (c.edits_of_apply made')
  refine ⟨os₁', made', names.nodup_iff.mpr h.distinct, names'.nodup_iff.mpr h.distinct', ?_⟩
  obtain ⟨o, confined⟩ := Change.confined_of_apply made
  obtain ⟨o', confined'⟩ := Change.confined_of_apply made'
  obtain rfl : o' = o := by
    have same := (h.find?_eq c.name).symm.trans confined'.found
    exact Option.some.inj (same.symm.trans confined.found)
  intro target
  by_cases here : target = o'.target
  · have inside := confined'.inside
    rw [h.ofTarget_eq, confined.inside] at inside
    rw [here]
    exact (Option.some.inj inside).symm
  · rw [confined'.outside target here, confined.outside target here, h.ofTarget_eq]

private theorem isSimulation_alike : IsSimulation Alike where
  find?_eq := Alike.find?_eq
  ofTarget_eq := Alike.ofTarget_eq
  apply := Alike.apply

end PriorityList

namespace Registry

/-- Registries with the same targets, where each user has in both, target by target, the same overlays. -/
def Alike : Registry → Registry → Prop := Similar PriorityList.Alike fun _ => True

variable {r r' : Registry}

private theorem Alike.next (h : r.Alike r') (c : Call) : (c.next r).Alike (c.next r') := by
  refine Similar.next h isSimulation_alike ?_
  cases c with
  | commit t => exact fun _ _ => trivial
  | _ => exact trivial

private theorem Alike.reply_eq (h : r.Alike r') (c : Call) : c.reply r' = c.reply r := by
  refine Similar.reply_eq h isSimulation_alike ?_
  cases c with
  | commit t => exact fun _ _ => trivial
  | _ => exact trivial

private theorem Alike.after (h : r.Alike r') (cs : List Call) : (r.after cs).Alike (r'.after cs) := by
  induction cs generalizing r r' with
  | nil => exact h
  | cons c cs ih => exact ih (h.next c)

private theorem Alike.replies_eq (h : r.Alike r') (cs : List Call) : r'.replies cs = r.replies cs := by
  induction cs generalizing r r' with
  | nil => rfl
  | cons c cs ih => rw [replies, replies, h.reply_eq c, ih (h.next c)]

/-- Calls do not tell registries apart in which the overlays of different targets are interleaved in different ways, and
a change that is made to an overlay leaves the overlays of all other targets, and of all other users, as they are. -/
theorem replies_blind_to_interleaving (alike : r.Alike r') (cs : List Call) :
    r'.replies cs = r.replies cs ∧ (r.after cs).Alike (r'.after cs) ∧
      ∀ (c : Change) (user : UserId) (r₁ : Registry), (r.after cs).change? user c = some r₁ →
        ∃ o, find? c.name ((r.after cs).overlays user) = some o ∧
          (∀ target, target ≠ o.target →
            ofTarget target (r₁.overlays user) = ofTarget target ((r.after cs).overlays user)) ∧
          ∀ other, other ≠ user → r₁.overlays other = (r.after cs).overlays other := by
  refine ⟨alike.replies_eq cs, alike.after cs, ?_⟩
  intro c user r₁ made
  obtain ⟨os, applied, here, elsewhere⟩ := overlays_of_change? made
  obtain ⟨o, confined⟩ := Change.confined_of_apply applied
  refine ⟨o, confined.found, ?_, elsewhere⟩
  intro target other
  rw [here, confined.outside target other]

/-- Overlays of two targets, those of one in front of those of the other. -/
private def grouped : Registry where
  targets := ⟨[("app", ⟨⟨[("string/title", "App")], by simp⟩⟩), ("shell", ⟨∅⟩)], by decide⟩
  users := ⟨[(⟨0⟩, [⟨"pale", "app", none, .enabled, true, ⟨[("string/title", "Pale")], by simp⟩⟩,
    ⟨"deep", "app", none, .disabled, true, ⟨[("string/title", "Deep")], by simp⟩⟩,
    ⟨"thin", "shell", none, .enabled, true, ∅⟩, ⟨"bold", "shell", none, .disabled, true, ∅⟩])], by simp⟩

/-- The same overlays, those of the two targets in turn. -/
private def interlaced : Registry where
  targets := grouped.targets
  users := ⟨[(⟨0⟩, [⟨"thin", "shell", none, .enabled, true, ∅⟩,
    ⟨"pale", "app", none, .enabled, true, ⟨[("string/title", "Pale")], by simp⟩⟩,
    ⟨"bold", "shell", none, .disabled, true, ∅⟩,
    ⟨"deep", "app", none, .disabled, true, ⟨[("string/title", "Deep")], by simp⟩⟩])], by simp⟩

private theorem alike_interlaced : grouped.Alike interlaced := by
  refine ⟨rfl, ?_⟩
  intro user _
  by_cases here : user = ⟨0⟩
  · subst here
    refine ⟨by decide, by decide, ?_⟩
    intro target
    by_cases app : "app" = target
    · subst app
      rfl
    · by_cases shell : "shell" = target
      · subst shell
        rfl
      · simp [grouped, interlaced, overlays, SortedMap.get?, ofTarget, app, shell]
  · have nobody : grouped.overlays user = [] := by
      simp [grouped, overlays, SortedMap.get?, Ne.symm here]
    have nobody' : interlaced.overlays user = [] := by
      simp [interlaced, overlays, SortedMap.get?, Ne.symm here]
    rw [nobody, nobody']
    exact ⟨by simp, by simp, fun _ => rfl⟩

private def moveSwitchAsk : List Call :=
  [.change (.setHighestPriority "pale") ⟨0⟩, .change (.setEnabledExclusive "deep" true) ⟨0⟩,
    .lookup "shell" ⟨"app", "string", "title"⟩ ⟨0⟩]

theorem replies_blind_to_interleaving_of_interlaced :
    grouped.Alike interlaced ∧ interlaced.replies moveSwitchAsk = grouped.replies moveSwitchAsk ∧
      grouped.replies moveSwitchAsk = [.ok (.changed true), .ok (.changed true),
        .ok (.resolution ⟨"Deep", ["Resolution for app:string/title", "\tapp (base)", "\tdeep (overlay)"]⟩)] ∧
      ∀ r₁, (grouped.after moveSwitchAsk).change? ⟨0⟩ (.setPriority "deep" "pale") = some r₁ →
        ofTarget "shell" (r₁.overlays ⟨0⟩) = ofTarget "shell" ((grouped.after moveSwitchAsk).overlays ⟨0⟩) := by
  obtain ⟨same, -, confined⟩ := replies_blind_to_interleaving alike_interlaced moveSwitchAsk
  refine ⟨alike_interlaced, same, by decide +kernel, ?_⟩
  intro r₁ made
  obtain ⟨o, found, untouched, -⟩ := confined (.setPriority "deep" "pale") ⟨0⟩ r₁ made
  have known : o.target = "app" := by
    have target : (find? "deep" ((grouped.after moveSwitchAsk).overlays ⟨0⟩)).map (·.target) = some "app" := by
      decide +kernel
    change find? "deep" _ = some o at found
    rw [found] at target
    exact Option.some.inj target
  exact untouched "shell" (by rw [known]; decide)

end Registry

end Overlays
