import CompilingProxy.Proofs.Module.Path
import CompilingProxy.Proofs.Outcome
import CompilingProxy.Proofs.Store.Keeping

/-!
# Stores in directories

A store in a directory keeps compiled modules apart from the configuration, whatever names lead to
it, and from each other as long as their keys have different hashes.
-/

namespace CompilingProxy

open Text

namespace FileTree

variable {t t' : FileTree} {place path q : List String} {ns : List String} {e : FileTreeEntry}
  {content found : List UInt8} {name name' : String}

/-! ### Entries -/

theorem entry?_insert (hpath : path ≠ []) :
    FileTree.entry? (t.insert path e) q = if q = path then some e else t.entry? q := by
  by_cases hq : q = path
  · subst hq
    rw [if_pos rfl, entry?, if_neg (by simpa using hpath), insert, List.lookup_cons,
      beq_self_eq_true]
  · rw [if_neg hq, entry?, entry?, insert, List.lookup_cons, beq_false_of_ne hq]
    dsimp only
    rw [lookup_filter_ne, if_neg hq]

theorem entry?_erase (hpath : path ≠ []) :
    FileTree.entry? (t.erase path) q = if q = path then none else t.entry? q := by
  by_cases hq : q = path
  · subst hq
    rw [if_pos rfl, entry?, if_neg (by simpa using hpath), erase, lookup_filter_ne, if_pos rfl]
  · rw [if_neg hq, entry?, entry?, erase, lookup_filter_ne, if_neg hq]

/-! ### Ways -/

/-- Where names lead from a place if there are directories of those names. -/
def target (place : List String) : List String → List String
  | [] => place
  | n :: ns => if n = ".." then target place.dropLast ns else target (place ++ [n]) ns

/-- The directories that are entered on the way. -/
def entered (place : List String) : List String → List (List String)
  | [] => []
  | n :: ns =>
    if n = ".." then entered place.dropLast ns
    else (place ++ [n]) :: entered (place ++ [n]) ns

theorem target_append_singleton (hname : name ≠ "..") :
    target place (ns ++ [name]) = target place ns ++ [name] := by
  induction ns generalizing place with
  | nil => simp [target, hname]
  | cons n ns ih =>
    rw [List.cons_append, target, target]
    split
    · exact ih
    · exact ih

theorem entered_append_singleton (hname : name ≠ "..") :
    entered place (ns ++ [name]) = entered place ns ++ [target place ns ++ [name]] := by
  induction ns generalizing place with
  | nil => simp [target, entered, hname]
  | cons n ns ih =>
    rw [List.cons_append, entered, entered, target]
    split
    · exact ih
    · rw [ih, List.cons_append]

/-- A way can be gone if its names can be, and what is entered are directories. -/
theorem walk_eq_ok_iff : t.walk place ns = .ok q ↔
    q = target place ns ∧ (∀ n ∈ ns, n ≠ ".." → isName n) ∧
      ∀ p ∈ entered place ns, t.entry? p = some .directory := by
  induction ns generalizing place with
  | nil =>
    rw [walk, target, entered, Except.ok.injEq, eq_comm]
    simp
  | cons n ns ih =>
    rw [walk, target, entered]
    by_cases hup : n = ".."
    · rw [if_pos hup, if_pos hup, if_pos hup, ih]
      simp [hup]
    · rw [if_neg hup, if_neg hup, if_neg hup]
      by_cases hname : isName n
      · rw [hname, Bool.not_true, if_neg Bool.false_ne_true]
        cases hentry : t.entry? (place ++ [n]) with
        | none => simp [hentry]
        | some e =>
          cases e with
          | directory =>
            dsimp only
            rw [ih]
            simp [hentry, hname]
          | file content => simp [hentry]
      · rw [Bool.not_eq_true] at hname
        rw [hname, Bool.not_false, if_pos rfl]
        simp [hname, hup]

/-- A way that is made can be gone, and nothing but the directories on it is made. -/
theorem makeDirectories_spec (h : t.makeDirectories place ns = .ok (t', q)) :
    q = target place ns ∧ (∀ n ∈ ns, n ≠ ".." → isName n) ∧
      (∀ p ∈ entered place ns, ∀ c, t.entry? p ≠ some (.file c)) ∧
      ∀ p, t'.entry? p = if p ∈ entered place ns then some .directory else t.entry? p := by
  induction ns generalizing t place with
  | nil =>
    cases h
    exact ⟨rfl, by simp, by simp [entered], by simp [entered]⟩
  | cons n ns ih =>
    rw [makeDirectories] at h
    rw [target, entered]
    by_cases hup : n = ".."
    · rw [if_pos hup] at h
      rw [if_pos hup, if_pos hup]
      obtain ⟨htarget, hnames, hrest⟩ := ih h
      refine ⟨htarget, fun x hx hne => ?_, hrest⟩
      rcases List.mem_cons.mp hx with rfl | hx
      · exact absurd hup hne
      · exact hnames x hx hne
    · rw [if_neg hup] at h
      rw [if_neg hup, if_neg hup]
      split at h
      case isTrue => cases h
      case isFalse hname =>
        rw [Bool.not_eq_true', Bool.not_eq_false] at hname
        have hall : (∀ x ∈ ns, x ≠ ".." → isName x) →
            ∀ x ∈ n :: ns, x ≠ ".." → isName x := by
          intro hnames x hx hne
          rcases List.mem_cons.mp hx with rfl | hx
          · exact hname
          · exact hnames x hx hne
        split at h
        case h_1 hentry =>
          obtain ⟨htarget, hnames, hopen, hmade⟩ := ih h
          refine ⟨htarget, hall hnames, fun p hp c => ?_, fun p => ?_⟩
          · rcases List.mem_cons.mp hp with rfl | hp
            · simp [hentry]
            · exact hopen p hp c
          · rw [hmade]
            by_cases hp : p = place ++ [n]
            · simp [hp, hentry]
            · simp [hp]
        case h_2 => cases h
        case h_3 hentry =>
          -- The way goes on in a tree that has this directory, too.
          obtain ⟨htarget, hnames, hopen, hmade⟩ := ih h
          have hinsert : ∀ p, FileTree.entry? (t.insert (place ++ [n]) .directory) p =
              if p = place ++ [n] then some .directory else t.entry? p :=
            fun p => entry?_insert (by simp)
          refine ⟨htarget, hall hnames, fun p hp c => ?_, fun p => ?_⟩
          · by_cases hhere : p = place ++ [n]
            · simp [hhere, hentry]
            · have hthere := hopen p ((List.mem_cons.mp hp).resolve_left hhere) c
              rwa [hinsert, if_neg hhere] at hthere
          · rw [hmade, hinsert]
            by_cases hp : p = place ++ [n]
            · simp [hp]
            · simp [hp]

/-- A way is made if its names can be gone and no file stands on it. -/
theorem exists_makeDirectories (hnames : ∀ n ∈ ns, n ≠ ".." → isName n)
    (hopen : ∀ p ∈ entered place ns, ∀ c, t.entry? p ≠ some (.file c)) :
    ∃ t', t.makeDirectories place ns = .ok (t', target place ns) := by
  induction ns generalizing t place with
  | nil => exact ⟨t, rfl⟩
  | cons n ns ih =>
    rw [entered] at hopen
    rw [makeDirectories, target]
    by_cases hup : n = ".."
    · rw [if_pos hup] at hopen
      rw [if_pos hup, if_pos hup]
      exact ih (fun x hx => hnames x (List.mem_cons_of_mem _ hx)) hopen
    · rw [if_neg hup] at hopen
      rw [if_neg hup, if_neg hup, hnames n List.mem_cons_self hup, Bool.not_true,
        if_neg Bool.false_ne_true]
      have hrest := fun x hx => hnames x (List.mem_cons_of_mem n hx)
      split
      case h_1 => exact ih hrest fun p hp => hopen p (List.mem_cons_of_mem _ hp)
      case h_2 content hfile => exact absurd hfile (hopen _ List.mem_cons_self content)
      case h_3 =>
        refine ih hrest fun p hp c => ?_
        rw [entry?_insert (by simp)]
        split
        · simp
        · exact hopen p (List.mem_cons_of_mem _ hp) c

/-! ### Files -/

variable {dir : List String}

theorem read_eq_ok_iff : t.read dir name = .ok content ↔
    (∀ n ∈ dir, n ≠ ".." → isName n) ∧ (∀ p ∈ entered [] dir, t.entry? p = some .directory) ∧
      t.entry? (target [] dir ++ [name]) = some (.file content) := by
  rw [read, bind_eq_ok_iff]
  constructor
  · rintro ⟨place, hwalk, hentry⟩
    obtain ⟨rfl, hnames, hentered⟩ := walk_eq_ok_iff.mp hwalk
    refine ⟨hnames, hentered, ?_⟩
    split at hentry
    case h_1 hfile =>
      cases hentry
      exact hfile
    case h_2 => cases hentry
    case h_3 => cases hentry
  · rintro ⟨hnames, hentered, hfile⟩
    refine ⟨_, walk_eq_ok_iff.mpr ⟨rfl, hnames, hentered⟩, ?_⟩
    rw [hfile]
    rfl

/-- Every file that stands where the names lead can be read by them. -/
def Reaches (t : FileTree) (dir : List String) : Prop :=
  ∀ name content, t.entry? (target [] dir ++ [name]) = some (.file content) →
    t.read dir name = .ok content

theorem no_file_of_empty : FileTree.entry? {} path ≠ some (.file content) := by
  intro hfile
  rw [FileTree.entry?] at hfile
  split at hfile <;> cases hfile

theorem reaches_empty (dir : List String) : FileTree.Reaches {} dir :=
  fun _ _ hfile => absurd hfile no_file_of_empty

/-- A file can be written there: the names can be gone, no file stands on the way, and no directory
stands where the file belongs or is made there. -/
structure Admits (t : FileTree) (dir : List String) (name : String) : Prop where
  names : ∀ n ∈ dir, n ≠ ".." → isName n
  isOpen : ∀ p ∈ entered [] dir, ∀ c, t.entry? p ≠ some (.file c)
  apart : target [] dir ++ [name] ∉ entered [] dir
  isFree : t.entry? (target [] dir ++ [name]) ≠ some .directory

/-- A file that is written stands where it belongs, with all directories on the way made. -/
theorem write_spec (h : t.write dir name content = .ok t') :
    t.Admits dir name ∧ ∀ p, t'.entry? p =
      if p = target [] dir ++ [name] then some (.file content)
      else if p ∈ entered [] dir then some .directory else t.entry? p := by
  obtain ⟨⟨made, place⟩, hmake, h⟩ := bind_eq_ok_iff.mp h
  obtain ⟨rfl, hnames, hopen, hmade⟩ := makeDirectories_spec hmake
  dsimp only at h
  split at h
  case h_1 => cases h
  case h_2 hfree =>
    cases h
    rw [hmade] at hfree
    refine ⟨⟨hnames, hopen, fun hon => hfree (if_pos hon), fun hdirectory => hfree ?_⟩,
      fun p => ?_⟩
    · rw [hdirectory, ite_self]
    · rw [entry?_insert (by simp), hmade]

theorem exists_write (h : t.Admits dir name) (content : List UInt8) :
    ∃ t', t.write dir name content = .ok t' := by
  obtain ⟨made, hmake⟩ := exists_makeDirectories h.names h.isOpen
  obtain ⟨-, -, -, hmade⟩ := makeDirectories_spec hmake
  rw [write, hmake]
  dsimp only [bind, Except.bind]
  split
  case h_1 hdirectory =>
    rw [hmade, if_neg h.apart] at hdirectory
    exact absurd hdirectory h.isFree
  case h_2 => exact ⟨_, rfl⟩

/-- What a file is written over is a file in turn, if anything, and all files elsewhere stay. -/
theorem file_of_write (h : t.write dir name content = .ok t') {p : List String} {c : List UInt8} :
    t'.entry? p = some (.file c) ↔
      if p = target [] dir ++ [name] then c = content else t.entry? p = some (.file c) := by
  obtain ⟨hadmits, hwritten⟩ := write_spec h
  rw [hwritten]
  split
  · simp [eq_comm]
  · split
    case isTrue hon => simp [hadmits.isOpen p hon c]
    case isFalse => rfl

theorem directory_of_write (h : t.write dir name content = .ok t') {p : List String} :
    t'.entry? p = some .directory ↔ p ∈ entered [] dir ∨ t.entry? p = some .directory := by
  obtain ⟨hadmits, hwritten⟩ := write_spec h
  rw [hwritten]
  split
  case isTrue hp =>
    rw [hp]
    simp [hadmits.apart, hadmits.isFree]
  case isFalse =>
    split
    case isTrue hon => simp [hon]
    case isFalse hoff => simp [hoff]

/-- A file is read as it was written, and the others of its directory as they were. -/
theorem read_of_write (hreach : t.Reaches dir) (h : t.write dir name content = .ok t') :
    t'.Reaches dir ∧ ∀ name' found, t'.read dir name' = .ok found →
      (name' = name ∧ found = content) ∨ t.read dir name' = .ok found := by
  have hnames := (write_spec h).1.names
  have hentered : ∀ p ∈ entered [] dir, t'.entry? p = some .directory :=
    fun p hp => (directory_of_write h).mpr (.inl hp)
  refine ⟨fun name' found hfound => read_eq_ok_iff.mpr ⟨hnames, hentered, hfound⟩,
    fun name' found hfound => ?_⟩
  obtain ⟨-, -, hfile⟩ := read_eq_ok_iff.mp hfound
  rw [file_of_write h] at hfile
  split at hfile
  case isTrue hname => exact .inl ⟨by simpa using hname, hfile⟩
  case isFalse => exact .inr (hreach name' found hfile)

/-- Writing into another directory changes no file of this one. -/
theorem read_of_write_elsewhere {dir' : List String} (hreach : t.Reaches dir)
    (hapart : target [] dir ≠ target [] dir') (h : t.write dir' name content = .ok t') :
    t'.Reaches dir ∧ ∀ name' found, t'.read dir name' = .ok found →
      t.read dir name' = .ok found := by
  have hold : ∀ name' found, t'.entry? (target [] dir ++ [name']) = some (.file found) →
      t.read dir name' = .ok found := by
    intro name' found hfound
    rw [file_of_write h] at hfound
    split at hfound
    case isTrue hsame => exact absurd (List.append_inj_left' hsame rfl) hapart
    case isFalse => exact hreach name' found hfound
  refine ⟨fun name' found hfound => ?_, fun name' found hfound => ?_⟩
  · obtain ⟨hnames, hentered, -⟩ := read_eq_ok_iff.mp (hold name' found hfound)
    exact read_eq_ok_iff.mpr
      ⟨hnames, fun p hp => (directory_of_write h).mpr (.inr (hentered p hp)), hfound⟩
  · exact hold name' found (read_eq_ok_iff.mp hfound).2.2

/-- Only files can be taken away. -/
theorem remove_spec (h : t.remove dir name = .ok t') :
    (∀ p ∈ entered [] dir, t.entry? p = some .directory) ∧
      (∃ c, t.entry? (target [] dir ++ [name]) = some (.file c)) ∧
      ∀ p, t'.entry? p = if p = target [] dir ++ [name] then none else t.entry? p := by
  obtain ⟨place, hwalk, h⟩ := bind_eq_ok_iff.mp h
  obtain ⟨rfl, -, hentered⟩ := walk_eq_ok_iff.mp hwalk
  split at h
  case h_1 c hfile =>
    cases h
    exact ⟨hentered, ⟨c, hfile⟩, fun p => entry?_erase (by simp)⟩
  case h_2 => cases h
  case h_3 => cases h

/-- Taking a file away leaves the others of its directory as they were. -/
theorem read_of_remove (hreach : t.Reaches dir) (h : t.remove dir name = .ok t') :
    t'.Reaches dir ∧ ∀ name' found, t'.read dir name' = .ok found →
      t.read dir name' = .ok found := by
  obtain ⟨-, ⟨c, hfile⟩, hremoved⟩ := remove_spec h
  have hread : ∀ name' found, t'.entry? (target [] dir ++ [name']) = some (.file found) →
      t.read dir name' = .ok found := by
    intro name' found hfound
    rw [hremoved] at hfound
    split at hfound
    · cases hfound
    · exact hreach name' found hfound
  refine ⟨fun name' found hfound => ?_, fun name' found hfound =>
    hread name' found (read_eq_ok_iff.mp hfound).2.2⟩
  obtain ⟨hnames, hentered, -⟩ := read_eq_ok_iff.mp (hread name' found hfound)
  refine read_eq_ok_iff.mpr ⟨hnames, fun p hp => ?_, hfound⟩
  rw [hremoved, if_neg]
  · exact hentered p hp
  · rintro rfl
    cases hfile.symm.trans (hentered _ hp)

end FileTree

/-! ### Places of entries -/

namespace Store

theorem joinPath_append (front : String) : ∃ base : String, ∀ back : String,
    back.startsWith "/" = false → joinPath front back = base ++ back := by
  by_cases hclosed : front.isEmpty || front.endsWith "/"
  · refine ⟨front, fun back hback => ?_⟩
    rw [joinPath, hback, if_neg Bool.false_ne_true, if_pos hclosed]
  · refine ⟨front ++ "/", fun back hback => ?_⟩
    rw [joinPath, hback, if_neg Bool.false_ne_true, if_neg hclosed]

/-- Compiled modules and the configuration lie side by side. -/
theorem partitionNames_split (root : String) : ∃ shared compiledName configName,
    compiledName ≠ ".." ∧ configName ≠ ".." ∧ compiledName ≠ configName ∧
      partitionNames root .compiled = shared ++ [compiledName] ∧
      partitionNames root .config = shared ++ [configName] := by
  obtain ⟨base, hbase⟩ := joinPath_append
    (joinPath (joinPath root Partition.storeName) s!"v{Partition.layoutVersion}")
  obtain ⟨front, last, hsplit⟩ := splitOnChar_append '/' base.toList
  have hlong : ∀ p : Partition, 2 < p.name.toList.length → ∀ short : String,
      short.toList.length ≤ 2 → String.ofList (last ++ p.name.toList) ≠ short := by
    rintro p hlong _ hshort rfl
    rw [String.toList_ofList, List.length_append] at hshort
    omega
  have hnames : ∀ p : Partition, p.name.startsWith "/" = false → '/' ∉ p.name.toList →
      2 < p.name.toList.length → partitionNames root p =
        ((front.map String.ofList).filter fun n => n ≠ "" ∧ n ≠ ".") ++
          [String.ofList (last ++ p.name.toList)] := by
    intro p hrooted hplain hsize
    rw [partitionNames, partitionPath, hbase _ hrooted, FileTree.names, String.toList_append,
      hsplit _ hplain, List.map_append, List.filter_append, List.map_singleton,
      List.filter_cons_of_pos, List.filter_nil]
    exact decide_eq_true ⟨hlong p hsize "" (by decide), hlong p hsize "." (by decide)⟩
  refine ⟨_, _, _, hlong .compiled (by decide) _ (by decide),
    hlong .config (by decide) _ (by decide), fun hsame => ?_,
    hnames .compiled (by decide +kernel) (by decide) (by decide),
    hnames .config (by decide +kernel) (by decide) (by decide)⟩
  rw [String.ofList_inj] at hsame
  exact absurd (List.append_cancel_left hsame) (by decide)

theorem target_compiled_ne_config (root : String) :
    FileTree.target [] (partitionNames root .compiled) ≠
      FileTree.target [] (partitionNames root .config) := by
  obtain ⟨shared, compiledName, configName, hcompiled, hconfig, hne, heq, heq'⟩ :=
    partitionNames_split root
  rw [heq, heq', FileTree.target_append_singleton hcompiled,
    FileTree.target_append_singleton hconfig]
  simpa using hne

theorem get_directory_eq_some_iff {root : String} {files : FileTree} {p : Partition} {key : String}
    {found : List UInt8} : (directory root files).get p key = .ok (some found) ↔
      files.read (partitionNames root p) (entryName key) = .ok found := by
  rw [get]
  cases files.read (partitionNames root p) (entryName key) with
  | ok content => simp
  | error e => cases e <;> simp

/-- A store in a directory gives back what was put into it, as long as the keys that are met have
different hashes. -/
theorem areHonestOn_directory {keys : String → Prop} (root : String)
    (hashes : ∀ k l, keys k → keys l → entryName k = entryName l → k = l) :
    AreHonestOn keys fun s => ∃ files, s = .directory root files ∧
      files.Reaches (partitionNames root .compiled) where
  set {s s' key value} hs hkey hset := by
    obtain ⟨files, rfl, hreach⟩ := hs
    rw [Store.set] at hset
    split at hset
    case h_1 files' hwrite =>
      cases hset
      obtain ⟨hreach', hread⟩ := FileTree.read_of_write hreach hwrite
      refine ⟨⟨files', rfl, hreach'⟩, fun l found hl hfound => ?_⟩
      rw [get_directory_eq_some_iff] at hfound ⊢
      exact (hread _ found hfound).imp_left fun hsame => ⟨hashes l key hl hkey hsame.1, hsame.2⟩
    case h_2 => cases hset
  setConfig {s s' key value} hs hset := by
    obtain ⟨files, rfl, hreach⟩ := hs
    rw [Store.set] at hset
    split at hset
    case h_1 files' hwrite =>
      cases hset
      obtain ⟨hreach', hread⟩ :=
        FileTree.read_of_write_elsewhere hreach (target_compiled_ne_config root) hwrite
      refine ⟨⟨files', rfl, hreach'⟩, fun l found _ hfound => ?_⟩
      rw [get_directory_eq_some_iff] at hfound ⊢
      exact hread _ found hfound
    case h_2 => cases hset
  delete {s s' key} hs hdelete := by
    obtain ⟨files, rfl, hreach⟩ := hs
    rw [Store.delete] at hdelete
    split at hdelete
    case h_1 files' hremove =>
      cases hdelete
      obtain ⟨hreach', hread⟩ := FileTree.read_of_remove hreach hremove
      refine ⟨⟨files', rfl, hreach'⟩, fun l found _ hfound => ?_⟩
      rw [get_directory_eq_some_iff] at hfound ⊢
      exact hread _ found hfound
    case h_2 =>
      cases hdelete
      exact ⟨⟨files, rfl, hreach⟩, fun _ _ _ hfound => hfound⟩
    case h_3 => cases hdelete

/-- Nothing is in the store yet. In a directory, the keys that are met have different hashes. -/
def IsEmptyFor (keys : String → Prop) (s : Store) : Prop :=
  s = .inMemory ∨ ∃ root, s = .inDirectory root ∧
    ∀ k l, keys k → keys l → entryName k = entryName l → k = l

/-- Every store that is empty is of an honest kind, and has nothing to give back. -/
theorem IsEmptyFor.exists_kind {keys : String → Prop} {s : Store} (h : s.IsEmptyFor keys) :
    ∃ kind, AreHonestOn keys kind ∧ kind s ∧
      ∀ key bytes, s.get .compiled key ≠ .ok (some bytes) := by
  rcases h with rfl | ⟨root, rfl, hashes⟩
  · exact ⟨_, areHonest_memory.on keys, ⟨[], rfl⟩, fun _ _ hfound => by cases hfound⟩
  · refine ⟨_, areHonestOn_directory root hashes, ⟨{}, rfl, FileTree.reaches_empty _⟩,
      fun key bytes hfound => ?_⟩
    rw [inDirectory, get_directory_eq_some_iff, FileTree.read_eq_ok_iff] at hfound
    exact FileTree.no_file_of_empty hfound.2.2

end Store

end CompilingProxy
