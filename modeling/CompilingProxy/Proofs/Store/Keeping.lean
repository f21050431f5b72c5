import CompilingProxy.Store.Cache

/-!
# Stores that keep what they are given

What such a store has under a key was put there, so that whatever holds of all that is put into it
holds of all that it gives back.
-/

namespace CompilingProxy

open Text

/-! ### Keys -/

/-- What is left of a table without a key. -/
theorem lookup_filter_ne {α β : Type} [DecidableEq α] [BEq α] [LawfulBEq α]
    {entries : List (α × β)} {key other : α} :
    (entries.filter fun e => e.1 ≠ key).lookup other =
      if other = key then none else entries.lookup other := by
  induction entries with
  | nil => simp
  | cons x entries ih =>
    obtain ⟨k, v⟩ := x
    by_cases hk : k = key
    · rw [List.filter_cons_of_neg (by simp [hk]), ih, List.lookup_cons, hk]
      by_cases hother : other = key
      · rw [if_pos hother, if_pos hother]
      · rw [if_neg hother, if_neg hother, beq_false_of_ne hother]
    · rw [List.filter_cons_of_pos (by simp [hk]), List.lookup_cons, List.lookup_cons, ih]
      by_cases hother : other = key
      · rw [if_pos hother, hother, beq_false_of_ne (Ne.symm hk), if_pos rfl]
      · rw [if_neg hother, if_neg hother]

theorem Partition.qualify_injective (p : Partition) {key key' : String}
    (h : p.qualify key = p.qualify key') : key = key' := by
  rw [qualify, qualify, ← String.toList_inj] at h
  simpa [String.toList_append, String.toList_inj] using h

theorem Partition.qualify_compiled_ne_config (key key' : String) :
    compiled.qualify key ≠ config.qualify key' := by
  have hcompiled : compiled.label = "tsgate/v1/compiled" := by decide
  have hconfig : config.label = "tsgate/v1/config" := by decide
  rw [qualify, qualify, hcompiled, hconfig]
  intro h
  rw [← String.toList_inj] at h
  simp [String.toList_append] at h

namespace Store

/-- Stores of the kind give back nothing but what was put into them under the same key. -/
structure AreHonest (kind : Store → Prop) : Prop where
  set {s s' : Store} {p : Partition} {key : String} {value : List UInt8} :
    kind s → s.set p key value = .ok s' → kind s' ∧ ∀ q l found, s'.get q l = .ok (some found) →
      (q.qualify l = p.qualify key ∧ found = value) ∨ s.get q l = .ok (some found)
  delete {s s' : Store} {p : Partition} {key : String} :
    kind s → s.delete p key = .ok s' → kind s' ∧ ∀ q l found, s'.get q l = .ok (some found) →
      s.get q l = .ok (some found)

/-- Stores of the kind do so for compiled modules, as far as no other keys than those are met. -/
structure AreHonestOn (keys : String → Prop) (kind : Store → Prop) : Prop where
  set {s s' : Store} {key : String} {value : List UInt8} :
    kind s → keys key → s.set .compiled key value = .ok s' → kind s' ∧
      ∀ l found, keys l → s'.get .compiled l = .ok (some found) →
        (l = key ∧ found = value) ∨ s.get .compiled l = .ok (some found)
  setConfig {s s' : Store} {key : String} {value : List UInt8} :
    kind s → s.set .config key value = .ok s' → kind s' ∧
      ∀ l found, keys l → s'.get .compiled l = .ok (some found) →
        s.get .compiled l = .ok (some found)
  delete {s s' : Store} {key : String} :
    kind s → s.delete .compiled key = .ok s' → kind s' ∧
      ∀ l found, keys l → s'.get .compiled l = .ok (some found) →
        s.get .compiled l = .ok (some found)

theorem AreHonest.on {kind : Store → Prop} (h : AreHonest kind) (keys : String → Prop) :
    AreHonestOn keys kind where
  set hs _ hset := by
    obtain ⟨hkind, hfound⟩ := h.set hs hset
    exact ⟨hkind, fun l found _ hl =>
      (hfound _ l found hl).imp_left fun hsame => ⟨Partition.qualify_injective _ hsame.1, hsame.2⟩⟩
  setConfig hs hset := by
    obtain ⟨hkind, hfound⟩ := h.set hs hset
    exact ⟨hkind, fun l found _ hl => (hfound _ l found hl).resolve_left fun hsame =>
      Partition.qualify_compiled_ne_config _ _ hsame.1⟩
  delete hs hdelete := by
    obtain ⟨hkind, hfound⟩ := h.delete hs hdelete
    exact ⟨hkind, fun l found _ => hfound _ l found⟩

/-- Stores in memory do. -/
theorem areHonest_memory : AreHonest fun s => ∃ values, s = .memory values where
  set {s s' p key value} hs hset := by
    obtain ⟨values, rfl⟩ := hs
    cases hset
    refine ⟨⟨_, rfl⟩, fun q l found hfound => ?_⟩
    rw [get, List.lookup_cons] at hfound
    split at hfound
    case h_1 hsame =>
      cases hfound
      exact .inl ⟨eq_of_beq hsame, rfl⟩
    case h_2 =>
      rw [lookup_filter_ne] at hfound
      split at hfound
      · cases hfound
      · exact .inr hfound
  delete {s s' p key} hs hdelete := by
    obtain ⟨values, rfl⟩ := hs
    cases hdelete
    refine ⟨⟨_, rfl⟩, fun q l found hfound => ?_⟩
    rw [get, lookup_filter_ne] at hfound
    split at hfound
    · cases hfound
    · exact hfound

end Store

end CompilingProxy
