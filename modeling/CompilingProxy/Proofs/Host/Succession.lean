import CompilingProxy.Proofs.Host.History
import CompilingProxy.Proofs.Host.Supplied

/-!
# What becomes of registered records

Whatever is asked of a host, and however it ends, the registry is that from before with at most one
record replaced, and others behind it. An update replaces the record of its path before anything
that the new text depends on is ingested, so that it is replaced also if that fails.
-/

namespace CompilingProxy

/-! ### Records -/

namespace ModuleRecord

variable {r known : ModuleRecord} {text : String} {read : TreeReader}

/-- The record of another text of a module, with its specifiers canonical. -/
def retexted (known : ModuleRecord) (text : String) (read : TreeReader) :
    Except EditError ModuleRecord :=
  let served := ModuleRecord.ofText known.path known.url known.kind text known.response read
  served.edited served.discover.edits served.discover.paths read

/-- The text of a canonical record, and where its offsets stand in the served one, are what the
edits of its served text come to. -/
theorem IsCanonical.applyEdits_eq (h : r.IsCanonical read) :
    applyEdits r.rawText.toList (r.served read).discover.edits =
      .ok (r.text.toList, r.offsets) := by
  rcases edited_eq_ok h with ⟨hnone, hsame⟩ | ⟨text, offsets, happly, hsame⟩
  · have htext : r.text = r.rawText := congrArg ModuleRecord.text hsame
    have hoffsets : r.offsets = .identity := congrArg ModuleRecord.offsets hsame
    rw [hnone, htext, hoffsets]
    exact applyEdits_nil _
  · have htext : r.text = String.ofList text := congrArg ModuleRecord.text hsame
    have hoffsets : r.offsets = offsets := congrArg ModuleRecord.offsets hsame
    rw [htext, hoffsets, String.toList_ofList]
    exact happly

end ModuleRecord

/-! ### Registries -/

namespace Registry

variable {read : TreeReader} {g g' g'' : Registry} {p : ModulePath} {r known : ModuleRecord}

/-- The registry with the record in the place of the one that its path has. -/
def put (g : Registry) (r : ModuleRecord) : Registry :=
  ⟨g.records.map fun old => if old.path == r.path then r else old⟩

/-- Records of served texts stand behind those that were there, each the first one of its path. -/
structure Gains (read : TreeReader) (g g' : Registry) : Prop where
  more : ∃ more, g'.records = g.records ++ more ∧
    ∀ r ∈ more, r.IsCanonical read ∧ r.version = 1
  nodup : g.list.Nodup → g'.list.Nodup

namespace Gains

theorem refl (read : TreeReader) (g : Registry) : Gains read g g :=
  ⟨⟨[], (List.append_nil _).symm, by simp⟩, id⟩

theorem trans (h : Gains read g g') (h' : Gains read g' g'') : Gains read g g'' := by
  obtain ⟨more, hmore, hfirst⟩ := h.more
  obtain ⟨more', hmore', hfirst'⟩ := h'.more
  refine ⟨⟨more ++ more', ?_, fun r hr => ?_⟩, fun hnodup => h'.nodup (h.nodup hnodup)⟩
  · rw [hmore', hmore, List.append_assoc]
  · exact (List.mem_append.mp hr).elim (hfirst r) (hfirst' r)

theorem register (hr : r.IsCanonical read) (hversion : r.version = 1) (g : Registry) :
    Gains read g (g.register r).2 := by
  rw [Registry.register]
  cases hknown : g.get? r.path with
  | some known => exact refl read g
  | none =>
    refine ⟨⟨[r], rfl, fun q hq => ?_⟩, fun hnodup => ?_⟩
    · rw [List.mem_singleton.mp hq]
      exact ⟨hr, hversion⟩
    · rw [list, List.map_append, List.map_singleton]
      refine List.nodup_append'.mpr ⟨hnodup, List.nodup_singleton _, ?_⟩
      rw [List.disjoint_singleton]
      exact get?_eq_none_iff.mp hknown

end Gains

end Registry

namespace Host

variable {h h' : Host} {net : Network} {p path : ModulePath} {text : String}
  {settings : HostSettings}

/-! ### Steps -/

/-- What a task puts in the place of a registered record. -/
def replacement? (h : Host) : Task → Option ModuleRecord
  | .operation _ (.update path text) =>
    (h.registry.get? path).bind fun known =>
      (known.retexted text h.settings.read).toOption.map fun r =>
        { r with version := known.version + 1 }
  | _ => none

/-- The registry with what the task puts in the place of a record, before any is added. -/
def replaced (h : Host) (t : Task) : Registry :=
  (h.replacement? t).elim h.registry h.registry.put

/-- How often tasks put a record in the place of the one of the path. -/
def replacements (p : ModulePath) : Host → List Task → Nat
  | _, [] => 0
  | h, t :: ts =>
    (if (h.replacement? t).any (·.path == p) then 1 else 0) + replacements p (h.undertake t) ts

end Host

end CompilingProxy
