import CompilingProxy.Module.Dependency
import CompilingProxy.Module.Registry
import CompilingProxy.Proofs.Outcome

/-!
# Records and registries
-/

namespace CompilingProxy

namespace Registry

variable {g : Registry} {p : ModulePath} {r : ModuleRecord}

theorem path_of_get? (h : g.get? p = some r) : r.path = p := by
  simpa using List.find?_some h

theorem mem_of_get? (h : g.get? p = some r) : r ∈ g.records := List.mem_of_find?_eq_some h

theorem get?_eq_none_iff : g.get? p = none ↔ p ∉ g.list := by
  simp [get?, list]

theorem get?_isSome_iff : (g.get? p).isSome ↔ p ∈ g.list := by
  rw [Option.isSome_iff_ne_none, ne_eq, get?_eq_none_iff, Decidable.not_not]

/-- A record that is registered stays the one of its path while others are added. -/
theorem get?_append {more : List ModuleRecord} (h : g.get? p = some r) :
    Registry.get? ⟨g.records ++ more⟩ p = some r := by
  rw [get?, List.find?_append]
  exact Option.or_eq_some_iff.mpr (.inl h)

theorem get?_append_new (h : g.get? r.path = none) :
    Registry.get? ⟨g.records ++ [r]⟩ r.path = some r := by
  rw [get?, List.find?_append]
  exact Option.or_eq_some_iff.mpr (.inr ⟨h, by simp⟩)

theorem register_new (h : g.get? r.path = none) : g.register r = (r, ⟨g.records ++ [r]⟩) := by
  rw [register, h]

/-- In a registry without duplicates every record is the one of its path. -/
theorem get?_of_mem (h : g.list.Nodup) (hr : r ∈ g.records) : g.get? r.path = some r := by
  obtain ⟨front, back, hsplit⟩ := List.append_of_mem hr
  refine List.find?_eq_some_iff_append.mpr ⟨by simp, front, back, hsplit, fun q hq => ?_⟩
  rw [list, hsplit, List.map_append, List.map_cons] at h
  have hne := (List.nodup_append.mp h).2.2 q.path (List.mem_map_of_mem hq) r.path
    List.mem_cons_self
  simpa using hne

/-- The path of what is registered has the record that registering gives back. -/
theorem get?_register (g : Registry) (r : ModuleRecord) :
    (g.register r).2.get? r.path = some (g.register r).1 := by
  rw [register]
  cases hknown : g.get? r.path with
  | some known => exact hknown
  | none => exact get?_append_new hknown

/-- Records that give way to others of their paths leave the paths as they are. -/
theorem paths_of_swap {records : List ModuleRecord} {r' : ModuleRecord} (h : r'.path = r.path) :
    (records.map fun old => if old.path == r.path then r' else old).map (·.path) =
      records.map (·.path) := by
  rw [List.map_map]
  refine List.map_congr_left fun old _ => ?_
  rw [Function.comp]
  split
  case isTrue heq => exact h.trans (beq_iff_eq.mp heq).symm
  case isFalse => rfl

/-- Replacing a record changes what is registered for its path, and nothing else. -/
theorem replace_spec {g' : Registry} {r' : ModuleRecord} (h : g.replace r = .ok (r', g')) :
    (∃ version, r' = { r with version }) ∧ g'.list = g.list ∧
      (∀ q ∈ g'.records, q = r' ∨ q ∈ g.records) ∧ r' ∈ g'.records := by
  rw [replace] at h
  split at h
  case h_1 => cases h
  case h_2 known hknown =>
    cases h
    refine ⟨⟨_, rfl⟩, paths_of_swap rfl, fun q hq => ?_, ?_⟩
    · obtain ⟨old, hold, heq⟩ := List.mem_map.mp hq
      split at heq
      case isTrue => exact .inl heq.symm
      case isFalse => exact .inr (heq ▸ hold)
    · refine List.mem_map.mpr ⟨known, mem_of_get? hknown, ?_⟩
      rw [path_of_get? hknown, beq_self_eq_true, if_pos rfl]

end Registry

namespace Discovery

theorem mem_foldl_dependencies_iff {p : ModulePath} {met known : List Dependency} :
    p ∈ (met.foldl (fun known x => if known.any (·.path == x.path) then known else known ++ [x])
        known).map (·.path) ↔
      p ∈ known.map (·.path) ∨ ∃ x ∈ met, x.path = p := by
  induction met generalizing known with
  | nil => simp
  | cons x met ih =>
    rw [List.foldl_cons, ih]
    by_cases hknown : known.any (·.path == x.path)
    · rw [if_pos hknown]
      have hx : x.path ∈ known.map (·.path) := by
        obtain ⟨y, hy, heq⟩ := List.any_eq_true.mp hknown
        exact List.mem_map.mpr ⟨y, hy, beq_iff_eq.mp heq⟩
      constructor
      · rintro (h | ⟨y, hy, h⟩)
        · exact .inl h
        · exact .inr ⟨y, List.mem_cons_of_mem _ hy, h⟩
      · rintro (h | ⟨y, hy, h⟩)
        · exact .inl h
        · rcases List.mem_cons.mp hy with rfl | hy
          · exact .inl (h ▸ hx)
          · exact .inr ⟨y, hy, h⟩
    · rw [if_neg hknown, List.map_append, List.mem_append, List.map_singleton,
        List.mem_singleton, or_assoc]
      simp [eq_comm]

/-- What a module depends on is what its specifiers and directives were met to name. -/
theorem mem_paths_iff {d : Discovery} {p : ModulePath} :
    p ∈ d.paths ↔ ∃ x ∈ d.met, x.path = p := by
  rw [paths, dependencies, mem_foldl_dependencies_iff]
  simp

end Discovery

namespace ModuleRecord

/-- Editing a record changes its text, with its tree and offsets, and its dependencies. -/
theorem edited_eq_ok {r r' : ModuleRecord} {edits : List TextEdit} {ds : List ModulePath}
    {read : TreeReader} (h : r.edited edits ds read = .ok r') :
    (edits = [] ∧ r' = { r with dependencies := ds }) ∨
      ∃ text offsets, applyEdits r.rawText.toList edits = .ok (text, offsets) ∧
        r' = { r with
          text := String.ofList text, tree := read r.kind (String.ofList text), offsets,
          dependencies := ds } := by
  rw [edited] at h
  split at h
  case isTrue hempty =>
    cases h
    exact .inl ⟨List.isEmpty_iff.mp hempty, rfl⟩
  case isFalse =>
    obtain ⟨⟨text, offsets⟩, happly, h⟩ := bind_eq_ok_iff.mp h
    cases h
    exact .inr ⟨text, offsets, happly, rfl⟩

theorem edited_path {r r' : ModuleRecord} {edits : List TextEdit} {ds : List ModulePath}
    {read : TreeReader} (h : r.edited edits ds read = .ok r') : r'.path = r.path := by
  rcases edited_eq_ok h with ⟨-, rfl⟩ | ⟨_, _, -, rfl⟩ <;> rfl

theorem edited_dependencies {r r' : ModuleRecord} {edits : List TextEdit} {ds : List ModulePath}
    {read : TreeReader} (h : r.edited edits ds read = .ok r') : r'.dependencies = ds := by
  rcases edited_eq_ok h with ⟨-, rfl⟩ | ⟨_, _, -, rfl⟩ <;> rfl

end ModuleRecord

end CompilingProxy
