import Mathlib.Data.List.Basic
import Overlays.Registry.Basic

set_option autoImplicit false
set_option relaxedAutoImplicit false

namespace Overlays

private theorem OverlayState.isEnabled_iff {s : OverlayState} :
    s.isEnabled = true ↔ s = .enabled ∨ s = .enabledImmutable := by
  cases s with
  | disabled => decide
  | enabled => decide
  | enabledImmutable => decide
  | missingTarget => decide

namespace Overlay

/-- Whether an overlay is in effect for the package of a resource. -/
def Concerns (o : Overlay) (resource : ResourceName) : Prop :=
  o.target = resource.package ∧ (o.state = .enabled ∨ o.state = .enabledImmutable)

/-- Whether an overlay puts a value of its own in the place of the value of a resource. -/
def Overrides (o : Overlay) (resource : ResourceName) : Prop :=
  o.Concerns resource ∧ o.resources.contains resource.entry = true

variable {o : Overlay} {resource : ResourceName}

instance : Decidable (o.Concerns resource) := inferInstanceAs (Decidable (_ ∧ _))

instance : Decidable (o.Overrides resource) := inferInstanceAs (Decidable (_ ∧ _))

private theorem concerns_iff : o.Concerns resource ↔ o.target = resource.package ∧ o.state.isEnabled = true := by
  rw [Concerns, OverlayState.isEnabled_iff]

end Overlay

namespace Registry

/-- One who defines a resource: the package that it belongs to, with the value there, or an overlay of that package. -/
inductive Source where
  | base (value : String)
  | overlay (o : Overlay)
deriving DecidableEq

namespace Source

def value? (resource : ResourceName) : Source → Option String
  | .base value => some value
  | .overlay o => o.resources.get? resource.entry

/-- The words for a source in a trace. -/
def label (resource : ResourceName) : Source → String
  | .base _ => resource.package ++ " (base)"
  | .overlay o => o.name ++ " (overlay)"

def line (resource : ResourceName) (s : Source) : String := "\t" ++ s.label resource

end Source

/-- What is found of a resource: a value, if there is one, and a trace. -/
structure Finding where
  value : Option String
  trace : List String
deriving DecidableEq

namespace Finding

/-- What sources give: the value of the last of them, and a line for each below the header. -/
def ofSources (resource : ResourceName) (sources : List Source) : Finding :=
  ⟨sources.getLast?.bind (·.value? resource), ("Resolution for " ++ resource.text) :: sources.map (·.line resource)⟩

/-- Goes on to one more overlay. If it is in effect for the package and defines the resource, its value takes the place of
the one found before. -/
def next (resource : ResourceName) (f : Finding) (o : Overlay) : Finding :=
  if o.Concerns resource then
    match o.resources.get? resource.entry with
    | some value => ⟨some value, f.trace ++ [(Source.overlay o).line resource]⟩
    | none => f
  else f

def result (resource : ResourceName) (f : Finding) : Except Refusal Resolution :=
  match f.value with
  | some value => .ok ⟨value, f.trace⟩
  | none => .error (.resourceNotFound resource)

variable {resource : ResourceName} {o : Overlay}

private theorem next_of_overrides (h : o.Overrides resource) (sources : List Source) :
    next resource (ofSources resource sources) o = ofSources resource (sources ++ [.overlay o]) := by
  obtain ⟨concerned, defines⟩ := h
  obtain ⟨value, defined⟩ := Option.isSome_iff_exists.mp defines
  have top : (sources ++ [Source.overlay o]).getLast?.bind (·.value? resource) = some value := by
    rw [List.getLast?_concat]
    exact defined
  rw [next, if_pos concerned, defined, ofSources, ofSources, top, List.map_append]
  rfl

private theorem next_of_not_overrides (h : ¬ o.Overrides resource) (f : Finding) : next resource f o = f := by
  rw [next]
  split
  · rename_i concerned
    split
    · rename_i value defined
      exact absurd ⟨concerned, by simp [SortedMap.contains, defined]⟩ h
    · rfl
  · rfl

/-- Value and trace stay in step: overlays that are gone through one by one give what their sources give together. -/
private theorem foldl_next (os : List Overlay) (sources : List Source) :
    os.foldl (next resource) (ofSources resource sources) =
      ofSources resource (sources ++ (os.filter (·.Overrides resource)).map .overlay) := by
  induction os generalizing sources with
  | nil => rw [List.filter_nil, List.map_nil, List.append_nil, List.foldl_nil]
  | cons o os ih =>
    rw [List.foldl_cons]
    by_cases overrides : o.Overrides resource
    · rw [next_of_overrides overrides, ih, List.filter_cons_of_pos (by simpa using overrides), List.map_cons,
        ← List.append_cons]
    · rw [next_of_not_overrides overrides, ih, List.filter_cons_of_neg (by simpa using overrides)]

end Finding

/-- The value that a resource has in its own package. -/
def base? (r : Registry) (resource : ResourceName) : Option String :=
  (r.targets.get? resource.package).bind (·.resources.get? resource.entry)

/-- All who define a resource for a user, in the order in which they count. -/
def sources (r : Registry) (resource : ResourceName) (user : UserId) : List Source :=
  (r.base? resource).toList.map .base ++ ((r.overlays user).filter (·.Overrides resource)).map .overlay

variable {r r' : Registry} {resource : ResourceName} {user : UserId} {loaded loaded' : String}

private theorem definition_of_overlay (resource : ResourceName) (o : Overlay) :
    ((if o.target = resource.package ∧ o.state.isEnabled then
        (o.resources.get? resource.entry).map fun value => (o.name ++ " (overlay)", value)
      else none).map fun d => (d.1, some d.2)) =
      if o.Overrides resource then
        some ((Source.overlay o).label resource, (Source.overlay o).value? resource)
      else none := by
  by_cases concerned : o.Concerns resource
  · rw [if_pos (Overlay.concerns_iff.mp concerned)]
    cases defined : o.resources.get? resource.entry with
    | none => simp [Overlay.Overrides, SortedMap.contains, defined]
    | some value => simp [Overlay.Overrides, concerned, SortedMap.contains, defined, Source.label, Source.value?]
  · rw [if_neg (mt Overlay.concerns_iff.mpr concerned), if_neg fun overrides => concerned overrides.1]
    rfl

private theorem definitions_of_overlays (resource : ResourceName) (os : List Overlay) :
    ((os.filterMap fun o =>
      if o.target = resource.package ∧ o.state.isEnabled then
        (o.resources.get? resource.entry).map fun value => (o.name ++ " (overlay)", value)
      else none).map fun d => (d.1, some d.2)) =
      ((os.filter (·.Overrides resource)).map Source.overlay).map
        fun s => (s.label resource, s.value? resource) := by
  rw [List.map_filterMap, List.map_map, ← List.filterMap_eq_map, List.filterMap_filter]
  simp only [definition_of_overlay, decide_eq_true_eq, Function.comp_apply]

private theorem definitions_map (r : Registry) (resource : ResourceName) (user : UserId) :
    ((r.definitions resource user).map fun d => (d.1, some d.2)) =
      (r.sources resource user).map fun s => (s.label resource, s.value? resource) := by
  rw [definitions, List.map_append, definitions_of_overlays, sources, List.map_append]
  congr 1
  rw [List.map_map, List.map_map]
  rfl

private theorem finding_of_definitions (r : Registry) (resource : ResourceName) (user : UserId) :
    Finding.ofSources resource (r.sources resource user) =
      ⟨(r.definitions resource user).getLast?.map Prod.snd,
        ("Resolution for " ++ resource.text) :: (r.definitions resource user).map fun d => "\t" ++ d.1⟩ := by
  have same := definitions_map r resource user
  have last := congrArg (fun all => all.getLast?.bind Prod.snd) same
  have lines := congrArg (List.map fun p : String × Option String => "\t" ++ p.1) same
  simp only [List.getLast?_map, Option.bind_map, List.map_map] at last lines
  rw [Finding.ofSources, Finding.mk.injEq]
  refine ⟨?_, ?_⟩
  · rw [Option.map_eq_bind]
    exact last.symm
  · exact congrArg _ lines.symm

private theorem lookup_of_unknown (unknown : r.targets.contains loaded = false) (resource : ResourceName)
    (user : UserId) : r.lookup loaded resource user = .error (.packageNotFound loaded user) := by
  rw [lookup, if_pos (by simp [unknown])]

private theorem lookup_of_known (known : r.targets.contains loaded = true) (resource : ResourceName) (user : UserId) :
    r.lookup loaded resource user = (Finding.ofSources resource (r.sources resource user)).result resource := by
  rw [lookup, if_neg (by simp [known]), finding_of_definitions]
  dsimp only
  cases (r.definitions resource user).getLast? with
  | none => rfl
  | some d => rfl

private theorem exists_value_of_mem_sources {s : Source} (h : s ∈ r.sources resource user) :
    ∃ value, s.value? resource = some value := by
  rcases List.mem_append.mp h with h | h
  · obtain ⟨value, -, rfl⟩ := List.mem_map.mp h
    exact ⟨value, rfl⟩
  · obtain ⟨o, there, rfl⟩ := List.mem_map.mp h
    have overrides : o.Overrides resource := of_decide_eq_true (List.mem_filter.mp there).2
    exact Option.isSome_iff_exists.mp overrides.2

private theorem result_of_no_sources (nothing : r.sources resource user = []) :
    (Finding.ofSources resource (r.sources resource user)).result resource = .error (.resourceNotFound resource) := by
  rw [nothing]
  rfl

private theorem result_of_top_source {below : List Source} {top : Source} {value : String}
    (h : r.sources resource user = below ++ [top]) (defined : top.value? resource = some value) :
    (Finding.ofSources resource (r.sources resource user)).result resource =
      .ok ⟨value, (Finding.ofSources resource (r.sources resource user)).trace⟩ := by
  have topmost : (Finding.ofSources resource (r.sources resource user)).value = some value := by
    rw [Finding.ofSources, h, List.getLast?_concat]
    exact defined
  rw [Finding.result, topmost]

private theorem no_sources_or_top (r : Registry) (resource : ResourceName) (user : UserId) :
    r.sources resource user = [] ∨ ∃ below top value, r.sources resource user = below ++ [top] ∧
      top.value? resource = some value := by
  rcases List.eq_nil_or_concat' (r.sources resource user) with nothing | ⟨below, top, h⟩
  · exact .inl nothing
  · obtain ⟨value, defined⟩ := exists_value_of_mem_sources (h ▸ List.mem_concat_self)
    exact .inr ⟨below, top, value, h, defined⟩

private theorem sources_congr (base : r'.base? resource = r.base? resource)
    (concerned : (r'.overlays user).filter (·.Concerns resource) = (r.overlays user).filter (·.Concerns resource)) :
    r'.sources resource user = r.sources resource user := by
  have among (os : List Overlay) : os.filter (·.Overrides resource) =
      (os.filter (·.Concerns resource)).filter (·.resources.contains resource.entry) := by
    rw [List.filter_filter]
    apply List.filter_congr
    intro o _
    rw [Bool.and_comm]
    exact Bool.decide_and _ _ |>.trans (by rw [Bool.decide_eq_true])
  rw [sources, sources, base, among, among, concerned]

/-- The result of a lookup as it follows from the targets, for the package that is loaded, and from the sources of the
resource. -/
structure FollowsPriority (r : Registry) (loaded : String) (resource : ResourceName) (user : UserId)
    (result : Except Refusal Resolution) : Prop where
  error_iff : ∀ e, result = .error e ↔
    r.targets.contains loaded = false ∧ e = .packageNotFound loaded user ∨
      r.targets.contains loaded = true ∧ r.sources resource user = [] ∧ e = .resourceNotFound resource
  ok_iff : ∀ value trace, result = .ok ⟨value, trace⟩ ↔
    r.targets.contains loaded = true ∧
      (∃ below top, r.sources resource user = below ++ [top] ∧ top.value? resource = some value) ∧
      trace = ("Resolution for " ++ resource.text) :: (r.sources resource user).map (·.line resource)
  in_turn : r.targets.contains loaded = true → result = ((r.overlays user).foldl (Finding.next resource)
    (.ofSources resource ((r.base? resource).toList.map .base))).result resource

private theorem followsPriority_of_unknown (unknown : r.targets.contains loaded = false) :
    r.FollowsPriority loaded resource user (.error (.packageNotFound loaded user)) := by
  refine ⟨?_, ?_, ?_⟩
  · intro e
    constructor
    · intro failed
      cases failed
      exact .inl ⟨unknown, rfl⟩
    · rintro (⟨-, rfl⟩ | ⟨known, -⟩)
      · rfl
      · cases unknown.symm.trans known
  · intro value trace
    constructor
    · intro found
      cases found
    · rintro ⟨known, -⟩
      cases unknown.symm.trans known
  · intro known
    cases unknown.symm.trans known

private theorem followsPriority_of_known (known : r.targets.contains loaded = true) :
    r.FollowsPriority loaded resource user
      ((Finding.ofSources resource (r.sources resource user)).result resource) := by
  refine ⟨?_, ?_, fun _ => by rw [Finding.foldl_next, sources]⟩
  · intro e
    constructor
    · intro failed
      rcases r.no_sources_or_top resource user with nothing | ⟨below, top, value, last, defined⟩
      · rw [result_of_no_sources nothing] at failed
        cases failed
        exact .inr ⟨known, nothing, rfl⟩
      · rw [result_of_top_source last defined] at failed
        cases failed
    · rintro (⟨unknown, -⟩ | ⟨-, nothing, rfl⟩)
      · cases unknown.symm.trans known
      · exact result_of_no_sources nothing
  · intro value trace
    constructor
    · intro found
      rcases r.no_sources_or_top resource user with nothing | ⟨below, top, value, last, defined⟩
      · rw [result_of_no_sources nothing] at found
        cases found
      · rw [result_of_top_source last defined] at found
        cases found
        exact ⟨known, ⟨below, top, last, defined⟩, rfl⟩
    · rintro ⟨-, ⟨below, top, last, defined⟩, rfl⟩
      exact result_of_top_source last defined

/-- A lookup follows the order of priority, and nothing plays a part in it but the definition in the package of the resource
and the overlays that are in effect for that package: not which package is loaded, as long as it is known, and no other
overlays, targets or users. -/
theorem lookup_follows_priority (r : Registry) (loaded : String) (resource : ResourceName) (user : UserId) :
    r.FollowsPriority loaded resource user (r.lookup loaded resource user) ∧
      ∀ (r' : Registry) (loaded' : String), r.targets.contains loaded = true → r'.targets.contains loaded' = true →
        r'.base? resource = r.base? resource →
        (r'.overlays user).filter (·.Concerns resource) = (r.overlays user).filter (·.Concerns resource) →
          r'.lookup loaded' resource user = r.lookup loaded resource user := by
  constructor
  · by_cases known : r.targets.contains loaded = true
    · rw [lookup_of_known known]
      exact followsPriority_of_known known
    · rw [Bool.not_eq_true] at known
      rw [lookup_of_unknown known]
      exact followsPriority_of_unknown known
  · intro r' loaded' known known' base concerned
    rw [lookup_of_known known, lookup_of_known known', sources_congr base concerned]

/-- Two overlays above each other that define the label of an application, among others that do not count for it: one in
effect without a label, one switched off, one without its target, one of another target, and one of another user. -/
private def crowded : Registry where
  targets := ⟨[("app", ⟨⟨[("string/label", "Reader")], by simp⟩⟩), ("shell", ⟨∅⟩)], by decide⟩
  users := ⟨[(⟨0⟩, [⟨"mild", "app", none, .enabledImmutable, true, ⟨[("string/label", "Mild")], by simp⟩⟩,
    ⟨"plum", "shell", none, .enabled, true, ⟨[("string/label", "Plum")], by simp⟩⟩,
    ⟨"loud", "app", none, .enabled, true, ⟨[("string/label", "Loud")], by simp⟩⟩,
    ⟨"bare", "app", none, .enabled, true, ∅⟩,
    ⟨"mute", "app", none, .disabled, true, ⟨[("string/label", "Mute")], by simp⟩⟩,
    ⟨"lost", "app", none, .missingTarget, true, ⟨[("string/label", "Lost")], by simp⟩⟩]),
    (⟨10⟩, [⟨"dark", "app", none, .enabled, true, ⟨[("string/label", "Dark")], by simp⟩⟩])], by decide⟩

/-- The same without what does not count. -/
private def sparse : Registry where
  targets := ⟨[("app", ⟨⟨[("string/label", "Reader")], by simp⟩⟩)], by simp⟩
  users := ⟨[(⟨0⟩, [⟨"mild", "app", none, .enabledImmutable, true, ⟨[("string/label", "Mild")], by simp⟩⟩,
    ⟨"loud", "app", none, .enabled, true, ⟨[("string/label", "Loud")], by simp⟩⟩,
    ⟨"bare", "app", none, .enabled, true, ∅⟩])], by simp⟩

theorem lookup_follows_priority_in_a_crowd :
    crowded.lookup "shell" ⟨"app", "string", "label"⟩ ⟨0⟩ = .ok ⟨"Loud",
        ["Resolution for app:string/label", "\tapp (base)", "\tmild (overlay)", "\tloud (overlay)"]⟩ ∧
      sparse.lookup "app" ⟨"app", "string", "label"⟩ ⟨0⟩ =
        crowded.lookup "shell" ⟨"app", "string", "label"⟩ ⟨0⟩ := by
  have base : sparse.base? ⟨"app", "string", "label"⟩ = crowded.base? ⟨"app", "string", "label"⟩ := rfl
  have independent := (lookup_follows_priority crowded "shell" ⟨"app", "string", "label"⟩ ⟨0⟩).2
  exact ⟨rfl, independent sparse "app" (by decide) (by decide) base (by decide)⟩

end Registry

end Overlays
