import Overlays.Proofs.SortedMap
import Overlays.Proofs.Text.Numeral
import Overlays.Proofs.Yaml.Composing
import Overlays.Registry.Document

set_option autoImplicit false
set_option relaxedAutoImplicit false

namespace Overlays.Registry

open Yaml

/-- A reading step gives a value, whatever is anchored, and follows no reference. -/
def Decodes {α : Type} (d : Decode α) (a : α) : Prop :=
  ∀ anchors count, d anchors count = some (a, count)

section Steps

variable {α β γ : Type} {a : α} {b : β}

private theorem Decodes.pure (a : α) : Decodes (Pure.pure a) a := fun _ _ => rfl

private theorem Decodes.bind {d : Decode α} {f : α → Decode β} (first : Decodes d a) (second : Decodes (f a) b) :
    Decodes (d >>= f) b := by
  intro anchors count
  change (d anchors count).bind (fun x => f x.1 anchors x.2) = _
  rw [first, Option.bind_some]
  exact second anchors count

private theorem Decodes.mapM {f : γ → Decode α} {node : β → γ} {value : β → α} {xs : List β}
    (each : ∀ x ∈ xs, Decodes (f (node x)) (value x)) : Decodes ((xs.map node).mapM f) (xs.map value) := by
  induction xs with
  | nil => exact .pure []
  | cons x xs ih =>
    obtain ⟨here, others⟩ := List.forall_mem_cons.mp each
    rw [List.map_cons, List.mapM_cons, List.map_cons]
    exact here.bind ((ih others).bind (.pure _))

end Steps

namespace Decode

section Nodes

private theorem nodesOfItems_eq (os : List Outline) : Outline.nodesOfItems os = os.map Outline.toNode := by
  induction os with
  | nil => rfl
  | cons o os ih => rw [Outline.nodesOfItems, ih, List.map_cons]

private theorem nodesOfEntries_eq (es : List (Phrase × Outline)) :
    Outline.nodesOfEntries es = es.map fun e => (.scalar e.1.text e.1.settled none, e.2.toNode) := by
  induction es with
  | nil => rfl
  | cons e es ih =>
    obtain ⟨k, o⟩ := e
    rw [Outline.nodesOfEntries, ih, List.map_cons]

end Nodes

section Scalars

private theorem decodes_resolve (s : String) (style : Style) :
    Decodes (resolve (.scalar s style none)) (.scalar s style none) := fun _ _ => rfl

private theorem decodes_text (p : Phrase) : Decodes (text (Outline.scalar p).toNode) p.text := fun _ _ => rfl

private theorem decodes_optionalText (s : String) :
    Decodes (optionalText (Outline.scalar (.ofText s)).toNode) (some s) := by
  refine (decodes_resolve _ _).bind ?_
  dsimp only
  by_cases plainly : (Phrase.ofText s).settled = .plain
  · have clear := Phrase.not_isAmbiguous_of_settled plainly
    simp only [Plain.isAmbiguous, Bool.or_eq_false_iff] at clear
    have some_text : (Phrase.ofText s).text ≠ "" := by
      rintro empty
      rw [show s = "" from empty] at clear
      exact absurd clear.1.1.1.1.1 (by decide)
    have not_null : Plain.isNull (Phrase.ofText s).text = false := clear.1.1.1.1.2
    simp only [plainly, ne_eq, not_true_eq_false, reduceCtorEq, if_false, Option.isSome_none, Bool.false_eq_true,
      some_text, not_null, or_self]
    exact .pure (some s)
  · rw [if_pos plainly]
    exact .pure (some s)

private theorem decodes_bool (b : Bool) :
    Decodes (bool (Outline.scalar (.bare (if b then "true" else "false"))).toNode) b := by
  intro anchors count
  cases b <;> rfl

private theorem decodes_state (s : OverlayState) : Decodes (state (Outline.scalar (.bare s.word)).toNode) s := by
  intro anchors count
  cases s <;> rfl

private theorem decodes_user (u : UserId) : Decodes (user (Outline.scalar (.bare u.text)).toNode) u := by
  have plainly : (Phrase.bare u.text).settled = .plain := by
    have allowed : Quoting.plainAllowed u.text.toList = true := by
      rw [UserId.text, Text.Numeral.intText, String.toList_ofList]
      exact plainAllowed_ofInt u.number.toInt
    rw [Phrase.settled, Phrase.bare, Quoting.settle, if_pos allowed]
  have number : (Plain.integer? (Phrase.bare u.text).text.toList).bind Text.Numeral.word? = some u.number :=
    u.word?_integer?_text
  have may_mean : mayMean Plain.intTag (Phrase.bare u.text).settled none = true := by
    rw [plainly]
    rfl
  refine (decodes_resolve _ _).bind ?_
  dsimp only
  rw [may_mean, if_pos rfl, number]
  exact .pure u

end Scalars

section Collections

private theorem decodes_entries (tag : Option String) (es : List (Node × Node)) :
    Decodes (entries (.mapping tag es)) es := fun _ _ => rfl

private theorem decodes_items {α : Type} {item : Node → Decode α} {outline : α → Outline} {xs : List α}
    (each : ∀ x ∈ xs, Decodes (item (outline x).toNode) x) :
    Decodes (do (← items (Outline.sequence (xs.map outline)).toNode).mapM item) xs := by
  have listed : (Outline.sequence (xs.map outline)).toNode = .sequence none (xs.map fun x => (outline x).toNode) := by
    rw [Outline.toNode, nodesOfItems_eq, List.map_map]
    rfl
  have read := Decodes.mapM each
  rw [List.map_id'] at read
  rw [listed]
  exact fun anchors count => read anchors count

private theorem decodes_map {κ α : Type} [Ord κ] [Std.TransOrd κ] {key : Node → Decode κ} {value : Node → Decode α}
    (m : SortedMap κ α) (phrase : κ → Phrase) (outline : α → Outline)
    (each : ∀ e ∈ m.entries, Decodes (key (Outline.scalar (phrase e.1)).toNode) e.1 ∧
      Decodes (value (outline e.2).toNode) e.2) :
    Decodes (map key value (Outline.mapping (m.entries.map fun e => (phrase e.1, outline e.2))).toNode) m := by
  have listed : (Outline.mapping (m.entries.map fun e => (phrase e.1, outline e.2))).toNode =
      .mapping none (m.entries.map fun e => ((Outline.scalar (phrase e.1)).toNode, (outline e.2).toNode)) := by
    rw [Outline.toNode, nodesOfEntries_eq, List.map_map]
    rfl
  have pairs : Decodes ((m.entries.map fun e => ((Outline.scalar (phrase e.1)).toNode, (outline e.2).toNode)).mapM
      fun e => do return (← key e.1, ← value e.2)) (m.entries.map fun e => (e.1, e.2)) :=
    Decodes.mapM fun e inside => (each e inside).1.bind ((each e inside).2.bind (.pure _))
  have built : Decodes (Pure.pure (SortedMap.ofList (m.entries.map fun e => (e.1, e.2)))) m := by
    rw [List.map_id', m.ofList_entries]
    exact .pure m
  rw [listed, map]
  exact (decodes_entries none _).bind (pairs.bind built)

private theorem decodes_fields {known : List String} {fs : List (String × Outline)} (are_known : ∀ f ∈ fs, f.1 ∈ known)
    (once : (fs.map Prod.fst).Nodup) :
    Decodes (fields known (Outline.mapping (fs.map fun f => field f.1 f.2)).toNode)
      ⟨fs.map fun f => (f.1, f.2.toNode)⟩ := by
  have listed : (Outline.mapping (fs.map fun f => field f.1 f.2)).toNode =
      .mapping none (fs.map fun f => ((Outline.scalar (.bare f.1)).toNode, f.2.toNode)) := by
    rw [Outline.toNode, nodesOfEntries_eq, List.map_map]
    rfl
  have named : Decodes ((fs.map fun f => ((Outline.scalar (.bare f.1)).toNode, f.2.toNode)).mapM
      fun e => do return (← text e.1, e.2)) (fs.map fun f => (f.1, f.2.toNode)) :=
    Decodes.mapM fun f _ => (decodes_text (.bare f.1)).bind (.pure _)
  have relevant : (fs.map fun f => (f.1, f.2.toNode)).filter (fun e => known.contains e.1) =
      fs.map fun f => (f.1, f.2.toNode) := by
    rw [List.filter_eq_self]
    intro e inside
    obtain ⟨f, here, rfl⟩ := List.mem_map.mp inside
    exact List.contains_iff_mem.mpr (are_known f here)
  have distinct : ((fs.map fun f => (f.1, f.2.toNode)).map Prod.fst).Nodup := by
    rw [List.map_map]
    exact once
  rw [listed, fields]
  refine (decodes_entries none _).bind (named.bind ?_)
  dsimp only
  rw [relevant, if_pos distinct]
  exact .pure _

private theorem decodes_required {α : Type} {fs : Fields} {name : String} {value : Node → Decode α} {n : Node} {a : α}
    (found : fs.byName.lookup name = some n) (read : Decodes (value n) a) : Decodes (fs.required name value) a := by
  rw [Fields.required, found]
  exact read

private theorem decodes_optional {α : Type} {fs : Fields} {name : String} {absent : α} {value : Node → Decode α}
    {n : Node} {a : α} (found : fs.byName.lookup name = some n) (read : Decodes (value n) a) :
    Decodes (fs.optional name absent value) a := by
  rw [Fields.optional, found]
  exact read

private theorem decodes_absent {α : Type} {fs : Fields} {name : String} {absent : α} {value : Node → Decode α}
    (missing : fs.byName.lookup name = none) : Decodes (fs.optional name absent value) absent := by
  rw [Fields.optional, missing]
  exact .pure _

end Collections

section Records

private theorem decodes_resources (m : SortedMap String String) :
    Decodes (map text text (resourcesOutline m).toNode) m :=
  decodes_map m .ofText (fun s => .scalar (.ofText s)) fun e _ =>
    ⟨decodes_text (.ofText e.1), decodes_text (.ofText e.2)⟩

private theorem eq_empty {m : SortedMap String String} (h : m.isEmpty = true) : m = ∅ :=
  SortedMap.ext (List.isEmpty_iff.mp h)

private theorem decodes_resourcesField {fs : Fields} (m : SortedMap String String)
    (found : fs.byName.lookup "resources" = if m.isEmpty then none else some (resourcesOutline m).toNode) :
    Decodes (fs.optional "resources" ∅ (map text text)) m := by
  cases none_there : m.isEmpty with
  | true =>
    rw [none_there] at found
    rw [eq_empty none_there]
    exact decodes_absent found
  | false =>
    rw [none_there] at found
    exact decodes_optional found (decodes_resources m)

/-- The fields of a target that are written. -/
private def targetFields (t : Target) : List (String × Outline) :=
  if t.resources.isEmpty then [] else [("resources", resourcesOutline t.resources)]

private theorem decodes_target (t : Target) : Decodes (target (targetOutline t).toNode) t := by
  have text : targetOutline t = .mapping ((targetFields t).map fun f => field f.1 f.2) := by
    rw [targetOutline, resourcesField, targetFields]
    split <;> rfl
  have known : ∀ f ∈ targetFields t, f.1 ∈ ["resources"] := by
    rw [targetFields]
    split <;> simp
  have once : ((targetFields t).map Prod.fst).Nodup := by
    rw [targetFields]
    split <;> simp
  rw [text, target]
  refine (decodes_fields known once).bind ((decodes_resourcesField t.resources ?_).bind (.pure _))
  rw [targetFields]
  cases t.resources.isEmpty with
  | true => rfl
  | false => rfl

/-- The fields of an overlay that are written. -/
private def overlayFields (o : Overlay) : List (String × Outline) :=
  [("name", .scalar (.ofText o.name)), ("target", .scalar (.ofText o.target))]
    ++ o.category.toList.map (fun c => ("category", .scalar (.ofText c)))
    ++ [("state", .scalar (.bare o.state.word)),
      ("mutable", .scalar (.bare (if o.isMutable then "true" else "false")))]
    ++ if o.resources.isEmpty then [] else [("resources", resourcesOutline o.resources)]

/-- What is found under the name of a field. -/
private def found (o : Overlay) (name : String) : Option Node :=
  ((overlayFields o).map fun f => (f.1, f.2.toNode)).lookup name

private theorem found_resources (o : Overlay) :
    found o "resources" = if o.resources.isEmpty then none else some (resourcesOutline o.resources).toNode := by
  rw [found, overlayFields]
  cases o.category <;> cases o.resources.isEmpty <;> simp [List.lookup_cons]

private theorem found_category (o : Overlay) :
    found o "category" = o.category.map fun c => (Outline.scalar (.ofText c)).toNode := by
  rw [found, overlayFields]
  cases o.category <;> cases o.resources.isEmpty <;> simp [List.lookup_cons]

private theorem found_state (o : Overlay) :
    found o "state" = some (Outline.scalar (.bare o.state.word)).toNode := by
  rw [found, overlayFields]
  cases o.category <;> simp [List.lookup_cons]

private theorem found_mutable (o : Overlay) :
    found o "mutable" = some (Outline.scalar (.bare (if o.isMutable then "true" else "false"))).toNode := by
  rw [found, overlayFields]
  cases o.category <;> simp [List.lookup_cons]

private theorem decodes_overlay (o : Overlay) : Decodes (overlay (overlayOutline o).toNode) o := by
  have written : overlayOutline o = .mapping ((overlayFields o).map fun f => field f.1 f.2) := by
    rw [overlayOutline, overlayFields, resourcesField]
    cases o.category <;> cases o.resources.isEmpty <;> rfl
  have known : ∀ f ∈ overlayFields o, f.1 ∈ ["name", "target", "category", "state", "mutable", "resources"] := by
    rw [overlayFields]
    cases o.category <;> cases o.resources.isEmpty <;> simp
  have once : ((overlayFields o).map Prod.fst).Nodup := by
    rw [overlayFields]
    cases o.category <;> cases o.resources.isEmpty <;> simp
  have category : Decodes (Fields.optional ⟨(overlayFields o).map fun f => (f.1, f.2.toNode)⟩ "category" none
      optionalText) o.category := by
    have category_found := found_category o
    cases chosen : o.category with
    | none =>
      rw [chosen] at category_found
      exact decodes_absent category_found
    | some c =>
      rw [chosen] at category_found
      exact decodes_optional category_found (decodes_optionalText c)
  rw [written, overlay]
  refine (decodes_fields known once).bind ?_
  refine (decodes_required rfl (decodes_text (.ofText o.name))).bind ?_
  refine (decodes_required rfl (decodes_text (.ofText o.target))).bind ?_
  refine category.bind ?_
  refine (decodes_optional (found_state o) (decodes_state o.state)).bind ?_
  refine (decodes_optional (found_mutable o) (decodes_bool o.isMutable)).bind ?_
  exact (decodes_resourcesField o.resources (found_resources o)).bind (.pure _)

private theorem decodes_registry (r : Registry) : Decodes (registry r.outline.toNode) r := by
  have written : r.outline = .mapping ([
      ("targets", .mapping (r.targets.entries.map fun e => (.ofText e.1, targetOutline e.2))),
      ("users", .mapping (r.users.entries.map fun e => (.bare e.1.text, .sequence (e.2.map overlayOutline))))].map
        fun f => field f.1 f.2) := rfl
  have targets := decodes_map r.targets .ofText targetOutline fun e _ =>
    ⟨decodes_text (.ofText e.1), decodes_target e.2⟩
  have users : Decodes (map user (fun n => do (← items n).mapM overlay)
      (Outline.mapping (r.users.entries.map fun e =>
        (.bare e.1.text, .sequence (e.2.map overlayOutline)))).toNode) r.users :=
    decodes_map r.users (fun u => .bare u.text) (fun os => .sequence (os.map overlayOutline)) fun e _ =>
      ⟨decodes_user e.1, decodes_items fun o _ => decodes_overlay o⟩
  rw [written, registry]
  refine (decodes_fields (by simp) (by simp)).bind ?_
  exact (decodes_optional rfl targets).bind ((decodes_optional rfl users).bind (.pure _))

end Records

end Decode

section Text

private theorem keysFit_resources (m : SortedMap String String) : (resourcesOutline m).KeysFit := by
  refine Outline.entriesFit_iff.mpr fun e inside => ?_
  obtain ⟨d, -, rfl⟩ := List.mem_map.mp inside
  exact ⟨Phrase.isKey_ofText d.1, trivial⟩

private theorem keysFit_target (t : Target) : (targetOutline t).KeysFit := by
  rw [targetOutline, resourcesField]
  split
  · trivial
  · exact ⟨Phrase.isKey_bare _, keysFit_resources t.resources, trivial⟩

private theorem keysFit_overlay (o : Overlay) : (overlayOutline o).KeysFit := by
  have resources : Outline.EntriesFit (resourcesField o.resources) := by
    rw [resourcesField]
    split
    · trivial
    · exact ⟨Phrase.isKey_bare _, keysFit_resources o.resources, trivial⟩
  have key := Phrase.isKey_bare
  rw [overlayOutline, Outline.KeysFit]
  cases o.category with
  | none => exact ⟨key _, trivial, key _, trivial, key _, trivial, key _, trivial, resources⟩
  | some c => exact ⟨key _, trivial, key _, trivial, key _, trivial, key _, trivial, key _, trivial, resources⟩

private theorem keysFit_outline (r : Registry) : r.outline.KeysFit := by
  refine ⟨Phrase.isKey_bare _, ?_, Phrase.isKey_bare _, ?_, trivial⟩
  · refine Outline.entriesFit_iff.mpr fun e inside => ?_
    obtain ⟨d, -, rfl⟩ := List.mem_map.mp inside
    exact ⟨Phrase.isKey_ofText d.1, keysFit_target d.2⟩
  · refine Outline.entriesFit_iff.mpr fun e inside => ?_
    obtain ⟨d, -, rfl⟩ := List.mem_map.mp inside
    refine ⟨Phrase.isKey_bare _, Outline.itemsFit_iff.mpr fun o inside => ?_⟩
    obtain ⟨overlay, -, rfl⟩ := List.mem_map.mp inside
    exact keysFit_overlay overlay

private theorem ofNode?_toNode (r : Registry) : ofNode? r.outline.toNode = some r := by
  have read := Decode.decodes_registry r r.outline.toNode.anchors (r.outline.toNode.size * 100)
  exact congrArg (Option.map Prod.fst) read

private theorem not_allBlank (r : Registry) : Text.allBlank r.toText = false := by
  have name : (Phrase.bare "targets").isSimpleKey = true ∧ (Phrase.bare "targets").write 2 = "targets".toList := by
    decide +kernel
  have first : 't' ∈ r.toText.toList := by
    rw [toText, outline, Outline.write, String.toList_ofList, field, Outline.writeEntries, if_pos name.1, name.2]
    · simp
    · rintro ⟨⟩
  rw [Text.allBlank, List.all_eq_false]
  exact ⟨'t', first, by decide⟩

/-- The text that is stored for a registry is read back as that registry. -/
theorem ofText?_toText (r : Registry) : ofText? r.toText = some r := by
  have read : Node.ofText? .strict r.toText = some [r.outline.toNode] := Outline.ofText?_write_mapping r.keysFit_outline
  rw [ofText?, not_allBlank, if_neg Bool.false_ne_true, read]
  exact ofNode?_toNode r

end Text

end Overlays.Registry
