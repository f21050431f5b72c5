import Mathlib.Data.Set.Function
import CompilingProxy.Proofs.Store.Directory

/-!
# Stores as tables

What can be had of the compiled modules is a table by key, whatever the store is made of. A write
changes the row of its key if the store takes entries under the key at all; taking an entry away
leaves the row empty; the configuration is in no row.
-/

namespace CompilingProxy

/-- What is held under each key. -/
abbrev Holdings := String → Option (List UInt8)

namespace FileTree

variable {t t' : FileTree} {dir dir' shared : List String} {name name' : String}
  {content c : List UInt8}

theorem file_of_remove (h : t.remove dir name = .ok t') {p : List String} :
    t'.entry? p = some (.file c) ↔
      p ≠ target [] dir ++ [name] ∧ t.entry? p = some (.file c) := by
  obtain ⟨-, -, hremoved⟩ := remove_spec h
  rw [hremoved]
  split <;> simp_all

theorem read_of_remove_error {e : FileTreeFault} (h : t.remove dir name = .error e) :
    t.read dir name = .error e := by
  rw [remove] at h
  rw [read]
  cases hwalk : t.walk [] dir with
  | error e' =>
    rw [hwalk] at h
    cases h
    rfl
  | ok place =>
    rw [hwalk] at h
    dsimp only [bind, Except.bind] at h ⊢
    split at h
    case h_1 => cases h
    case h_2 =>
      cases h
      rfl
    case h_3 =>
      cases h
      rfl

/-! ### Where files can be written -/

/-- Files can be written to the same places if the same files stand on the way, and the same
directories where the files belong. -/
theorem Admits.congr (hfile : ∀ p ∈ entered [] dir, ∀ c,
      t'.entry? p = some (.file c) ↔ t.entry? p = some (.file c))
    (hdirectory : target [] dir ++ [name] ∉ entered [] dir →
      (t'.entry? (target [] dir ++ [name]) = some .directory ↔
        t.entry? (target [] dir ++ [name]) = some .directory)) :
    t'.Admits dir name ↔ t.Admits dir name := by
  constructor
  · rintro ⟨hnames, hopen, hapart, hfree⟩
    exact ⟨hnames, fun p hp c hc => hopen p hp c ((hfile p hp c).mpr hc), hapart,
      fun hd => hfree ((hdirectory hapart).mpr hd)⟩
  · rintro ⟨hnames, hopen, hapart, hfree⟩
    exact ⟨hnames, fun p hp c hc => hopen p hp c ((hfile p hp c).mp hc), hapart,
      fun hd => hfree ((hdirectory hapart).mp hd)⟩

theorem admits_of_write (h : t.write dir name content = .ok t') :
    t'.Admits dir name' ↔ t.Admits dir name' := by
  obtain ⟨hadmits, -⟩ := write_spec h
  refine Admits.congr (fun p hp c => ?_) fun hapart => ?_
  · rw [file_of_write h, if_neg]
    rintro rfl
    exact hadmits.apart hp
  · rw [directory_of_write h]
    exact or_iff_right hapart

theorem admits_of_remove (h : t.remove dir name = .ok t') :
    t'.Admits dir name' ↔ t.Admits dir name' := by
  obtain ⟨hentered, ⟨c, hfile⟩, hremoved⟩ := remove_spec h
  refine Admits.congr (fun p hp c => ?_) fun _ => ?_
  · rw [file_of_remove h, and_iff_right]
    rintro rfl
    cases hfile.symm.trans (hentered _ hp)
  · rw [hremoved]
    split
    case isTrue hsame => simp [hsame, hfile]
    case isFalse => rfl

/-- Writing into a directory that lies beside this one makes nothing that is in the way. -/
theorem admits_of_write_beside {a b : String} (ha : a ≠ "..") (hb : b ≠ "..")
    (h : t.write (shared ++ [b]) name content = .ok t') :
    t'.Admits (shared ++ [a]) name' ↔ t.Admits (shared ++ [a]) name' := by
  obtain ⟨hadmits, -⟩ := write_spec h
  -- Both ways have the same directories but the last one, and what is written lies deeper.
  have hapart := hadmits.apart
  rw [entered_append_singleton hb, target_append_singleton hb, List.mem_append, not_or] at hapart
  refine Admits.congr (fun p hp c => ?_) fun hfree => ?_
  · rw [file_of_write h, if_neg]
    rintro rfl
    rw [entered_append_singleton ha, target_append_singleton hb, List.mem_append] at hp
    rcases hp with hp | hp
    · exact hapart.1 hp
    · simp at hp
  · rw [directory_of_write h]
    refine or_iff_right fun hp => ?_
    rw [entered_append_singleton ha, target_append_singleton ha, List.mem_append, not_or] at hfree
    rw [entered_append_singleton hb, target_append_singleton ha, List.mem_append] at hp
    rcases hp with hp | hp
    · exact hfree.1 hp
    · simp at hp

end FileTree

namespace Store

variable {keys : Set String} {s s' start : Store} {held : Holdings} {key : String}
  {value : List UInt8}

/-- What can be had of the compiled modules. -/
def held? (s : Store) : Holdings := fun key => (s.get .compiled key).toOption.join

/-- Whether the store takes entries of compiled modules under the key. -/
def takes (s : Store) (key : String) : Bool := (s.set .compiled key []).isOk

/-- All files in the directory can be reached, and keys that are met have different hashes. -/
def IsSoundFor (keys : Set String) : Store → Prop
  | .memory _ => True
  | .directory root files =>
    files.Reaches (partitionNames root .compiled) ∧ Set.InjOn entryName keys

theorem takes_directory_iff {root : String} {files : FileTree} :
    (directory root files).takes key ↔
      files.Admits (partitionNames root .compiled) (entryName key) := by
  rw [takes, set]
  constructor
  · intro h
    split at h
    case h_1 hwrite => exact (FileTree.write_spec hwrite).1
    case h_2 => cases h
  · intro h
    obtain ⟨files', hwrite⟩ := FileTree.exists_write h []
    rw [hwrite]
    rfl

theorem set_of_takes (h : s.takes key) (value : List UInt8) :
    ∃ s', s.set .compiled key value = .ok s' := by
  cases s with
  | memory values => exact ⟨_, rfl⟩
  | directory root files =>
    obtain ⟨files', hwrite⟩ := FileTree.exists_write (takes_directory_iff.mp h) value
    exact ⟨.directory root files', by rw [set, hwrite]⟩

theorem takes_of_set (h : s.set .compiled key value = .ok s') : s.takes key := by
  cases s with
  | memory values => rfl
  | directory root files =>
    rw [set] at h
    split at h
    case h_1 hwrite => exact takes_directory_iff.mpr (FileTree.write_spec hwrite).1
    case h_2 => cases h

theorem held?_memory (values : List (String × List UInt8)) :
    (memory values).held? key = values.lookup (Partition.compiled.qualify key) := rfl

theorem held?_directory_eq_some_iff {root : String} {files : FileTree}
    (h : files.Reaches (partitionNames root .compiled)) :
    (directory root files).held? key = some value ↔
      files.entry? (FileTree.target [] (partitionNames root .compiled) ++ [entryName key]) =
        some (.file value) := by
  have hread : (directory root files).held? key = some value ↔
      (directory root files).get .compiled key = .ok (some value) := by
    rw [held?]
    cases (directory root files).get .compiled key with
    | error e => simp [Except.toOption]
    | ok found => cases found <;> simp [Except.toOption]
  rw [hread, get_directory_eq_some_iff]
  exact ⟨fun hfound => (FileTree.read_eq_ok_iff.mp hfound).2.2, h _ _⟩

/-! ### What becomes of a store -/

/-- This has become of a store: it is sound, takes the same entries, and holds just that. -/
structure Becomes (keys : Set String) (start : Store) (held : Holdings) (s : Store) : Prop where
  sound : s.IsSoundFor keys
  takes : ∀ key ∈ keys, s.takes key = start.takes key
  held : Set.EqOn s.held? held keys

theorem Becomes.refl (h : start.IsSoundFor keys) : start.Becomes keys start.held? start :=
  ⟨h, fun _ _ => rfl, fun _ _ => rfl⟩

theorem Becomes.trans {held' : Holdings} (h : start.Becomes keys held s)
    (h' : s.Becomes keys held' s') : start.Becomes keys held' s' :=
  ⟨h'.sound, fun key hkey => (h'.takes key hkey).trans (h.takes key hkey), h'.held⟩

theorem Becomes.congr {held' : Holdings} (h : start.Becomes keys held s)
    (heq : Set.EqOn held held' keys) : start.Becomes keys held' s :=
  ⟨h.sound, h.takes, h.held.trans heq⟩

theorem eqOn_update {held held' : Holdings} (h : Set.EqOn held held' keys) (key : String)
    (row : Option (List UInt8)) :
    Set.EqOn (Function.update held key row) (Function.update held' key row) keys := by
  intro l hl
  by_cases hkey : l = key
  · rw [hkey, Function.update_self, Function.update_self]
  · rw [Function.update_of_ne hkey, Function.update_of_ne hkey, h hl]

/-- What is written stands in the row of its key, and all other rows are as they were. -/
theorem IsSoundFor.set (h : s.IsSoundFor keys) (hkey : key ∈ keys)
    (hset : s.set .compiled key value = .ok s') :
    s.Becomes keys (Function.update s.held? key (some value)) s' := by
  cases s with
  | memory values =>
    cases hset
    refine ⟨trivial, fun _ _ => rfl, fun l _ => ?_⟩
    rw [held?_memory, List.lookup_cons, lookup_filter_ne]
    by_cases hl : l = key
    · rw [hl, beq_self_eq_true, Function.update_self]
    · have hname : Partition.compiled.qualify l ≠ Partition.compiled.qualify key :=
        fun hsame => hl (Partition.qualify_injective _ hsame)
      rw [Function.update_of_ne hl, beq_false_of_ne hname, if_neg hname]
      rfl
  | directory root files =>
    obtain ⟨hreach, hashes⟩ := h
    rw [Store.set] at hset
    split at hset
    case h_2 => cases hset
    case h_1 files' hwrite =>
      cases hset
      obtain ⟨hreach', -⟩ := FileTree.read_of_write hreach hwrite
      -- Rows are the files that stand where the names lead, as all of them can be reached.
      refine ⟨⟨hreach', hashes⟩, fun l _ => ?_, fun l hl => Option.ext fun found => ?_⟩
      · rw [Bool.eq_iff_iff, takes_directory_iff, takes_directory_iff,
          FileTree.admits_of_write hwrite]
      · rw [held?_directory_eq_some_iff hreach', FileTree.file_of_write hwrite]
        by_cases hsame : l = key
        · rw [hsame, if_pos rfl, Function.update_self, Option.some.injEq, eq_comm]
        · rw [if_neg, Function.update_of_ne hsame, held?_directory_eq_some_iff hreach]
          simpa using fun hhash => hsame (hashes hl hkey hhash)

/-- What is taken away leaves the row of its key empty, and all other rows are as they were. -/
theorem IsSoundFor.delete (h : s.IsSoundFor keys) (hkey : key ∈ keys)
    (hdelete : s.delete .compiled key = .ok s') :
    s.Becomes keys (Function.update s.held? key none) s' := by
  cases s with
  | memory values =>
    cases hdelete
    refine ⟨trivial, fun _ _ => rfl, fun l _ => ?_⟩
    rw [held?_memory, lookup_filter_ne]
    by_cases hl : l = key
    · rw [hl, if_pos rfl, Function.update_self]
    · rw [Function.update_of_ne hl, if_neg fun hsame => hl (Partition.qualify_injective _ hsame)]
      rfl
  | directory root files =>
    obtain ⟨hreach, hashes⟩ := h
    rw [Store.delete] at hdelete
    split at hdelete
    case h_1 files' hremove =>
      cases hdelete
      obtain ⟨hreach', -⟩ := FileTree.read_of_remove hreach hremove
      refine ⟨⟨hreach', hashes⟩, fun l _ => ?_, fun l hl => Option.ext fun found => ?_⟩
      · rw [Bool.eq_iff_iff, takes_directory_iff, takes_directory_iff,
          FileTree.admits_of_remove hremove]
      · rw [held?_directory_eq_some_iff hreach', FileTree.file_of_remove hremove]
        by_cases hsame : l = key
        · rw [hsame, Function.update_self]
          simp
        · rw [Function.update_of_ne hsame, held?_directory_eq_some_iff hreach, and_iff_right]
          simpa using fun hhash => hsame (hashes hl hkey hhash)
    case h_2 hmissing =>
      cases hdelete
      have hsound : (directory root files).IsSoundFor keys := ⟨hreach, hashes⟩
      refine (Becomes.refl hsound).congr fun l _ => ?_
      by_cases hsame : l = key
      · rw [hsame, Function.update_self, held?, get, FileTree.read_of_remove_error hmissing]
        rfl
      · rw [Function.update_of_ne hsame]
    case h_3 => cases hdelete

/-- An entry that cannot be taken away cannot be had. -/
theorem held?_of_delete_error {e : StoreError} (h : s.delete .compiled key = .error e) :
    s.held? key = none := by
  cases s with
  | memory values => cases h
  | directory root files =>
    rw [delete] at h
    split at h
    case h_1 => cases h
    case h_2 => cases h
    case h_3 hblocked =>
      rw [held?, get, FileTree.read_of_remove_error hblocked]
      rfl

/-- The configuration is in no row. -/
theorem IsSoundFor.setConfig (h : s.IsSoundFor keys) (hset : s.set .config key value = .ok s') :
    s.Becomes keys s.held? s' := by
  cases s with
  | memory values =>
    cases hset
    refine ⟨trivial, fun _ _ => rfl, fun l _ => ?_⟩
    have hname := Partition.qualify_compiled_ne_config l key
    rw [held?_memory, List.lookup_cons, lookup_filter_ne, beq_false_of_ne hname, if_neg hname]
    rfl
  | directory root files =>
    obtain ⟨hreach, hashes⟩ := h
    rw [Store.set] at hset
    split at hset
    case h_2 => cases hset
    case h_1 files' hwrite =>
      cases hset
      have happart := target_compiled_ne_config root
      obtain ⟨hreach', -⟩ := FileTree.read_of_write_elsewhere hreach happart hwrite
      refine ⟨⟨hreach', hashes⟩, fun l _ => ?_, fun l hl => Option.ext fun found => ?_⟩
      · obtain ⟨shared, compiledName, configName, hcompiled, hconfig, -, heq, heq'⟩ :=
          partitionNames_split root
        rw [heq'] at hwrite
        rw [Bool.eq_iff_iff, takes_directory_iff, takes_directory_iff, heq,
          FileTree.admits_of_write_beside hcompiled hconfig hwrite]
      · rw [held?_directory_eq_some_iff hreach', FileTree.file_of_write hwrite, if_neg,
          held?_directory_eq_some_iff hreach]
        exact fun hsame => happart (List.append_inj_left' hsame (by simp))

end Store

end CompilingProxy
