import CompilingProxy.Proofs.Store.Table

/-!
# Where the entries of a partition stand

A store in memory tells entries apart by one text, a store in a directory by a path. From either
the partition and the key can be had again, as long as the partition's name is a plain one.
-/

namespace CompilingProxy

open Text

namespace Partition

variable {p q : Partition} {key key' : String}

/-- The name can be one in a path, and leads nowhere else. -/
structure IsPlain (p : Partition) : Prop where
  nonempty : p.name ≠ ""
  undivided : '/' ∉ p.name.toList
  notHere : p.name ≠ "."
  notAbove : p.name ≠ ".."

instance : Decidable p.IsPlain :=
  decidable_of_iff (p.name ≠ "" ∧ '/' ∉ p.name.toList ∧ p.name ≠ "." ∧ p.name ≠ "..")
    ⟨fun ⟨h, h', h'', h'''⟩ => ⟨h, h', h'', h'''⟩,
      fun ⟨h, h', h'', h'''⟩ => ⟨h, h', h'', h'''⟩⟩

theorem toList_qualify (p : Partition) (key : String) :
    (p.qualify key).toList = "tsgate/v1/".toList ++ (p.name.toList ++ '/' :: key.toList) := by
  have hfront : storeName ++ "/v" ++ toString layoutVersion ++ "/" = "tsgate/v1/" := by decide
  have hlabel : p.label = "tsgate/v1/" ++ p.name := congrArg (· ++ p.name) hfront
  have hslash : "/".toList = ['/'] := by decide
  rw [qualify, hlabel, String.toList_append, String.toList_append, String.toList_append, hslash,
    List.append_assoc, List.append_assoc, List.singleton_append]

/-- The name ends at the first slash behind what all qualified keys begin with, whatever slashes
there are in the keys. -/
theorem qualify_inj (hp : p.IsPlain) (hq : q.IsPlain) :
    p.qualify key = q.qualify key' ↔ (p, key) = (q, key') := by
  constructor
  · intro h
    rw [← String.toList_inj, toList_qualify, toList_qualify] at h
    have hcut := congrArg (cutFirst? '/') (List.append_cancel_left h)
    rw [cutFirst?_append hp.undivided, cutFirst?_append hq.undivided, Option.some.injEq,
      Prod.mk.injEq, String.toList_inj, String.toList_inj] at hcut
    obtain ⟨hname, hkey⟩ := hcut
    cases p
    cases q
    rw [hkey]
    exact congrArg (fun name => (Partition.mk name, key')) hname
  · intro h
    cases h
    rfl

theorem IsPlain.startsWith_slash (hp : p.IsPlain) : p.name.startsWith "/" = false := by
  rw [Bool.eq_false_iff]
  intro h
  rw [String.startsWith_string_iff] at h
  exact hp.undivided (h.subset (by decide))

/-- A plain name is still no way elsewhere with something in front of it. -/
theorem ofList_append_notMem (hp : p.IsPlain) (front : List Char) :
    String.ofList (front ++ p.name.toList) ∉ ["", ".", ".."] := by
  have hne : ∀ text : String, p.name ≠ text → p.name.toList ≠ text.toList :=
    fun text h hsame => h (String.toList_inj.mp hsame)
  have hnone := hne _ hp.nonempty
  have hhere := hne _ hp.notHere
  have habove := hne _ hp.notAbove
  simp only [List.mem_cons, List.not_mem_nil, or_false, ← String.toList_inj, String.toList_ofList,
    not_or]
  refine ⟨fun h => hnone (List.append_eq_nil_iff.mp h).2, fun h => ?_, fun h => ?_⟩
  · -- One dot is all of the name, as the name is not empty.
    match front, h with
    | [], h => exact hhere h
    | _ :: _, h => exact hnone (List.append_eq_nil_iff.mp (List.cons.inj h).2).2
  · match front, h with
    | [], h => exact habove h
    | [_], h => exact hhere (List.cons.inj h).2
    | _ :: _ :: _, h =>
      exact hnone (List.append_eq_nil_iff.mp (List.cons.inj (List.cons.inj h).2).2).2

end Partition

namespace FileTree

variable {t t' : FileTree} {dir dir' : List String} {place ns : List String}
  {name name' : String} {content : List UInt8}

theorem target_of_straight (h : ∀ n ∈ ns, n ≠ "..") : target place ns = place ++ ns := by
  induction ns generalizing place with
  | nil => simp [target]
  | cons n ns ih =>
    rw [target, if_neg (h n List.mem_cons_self), ih fun x hx => h x (List.mem_cons_of_mem _ hx),
      List.append_assoc, List.singleton_append]

theorem length_le_of_mem_entered (h : ∀ n ∈ ns, n ≠ "..") {p : List String}
    (hp : p ∈ entered place ns) : p.length ≤ place.length + ns.length := by
  induction ns generalizing place with
  | nil => cases hp
  | cons n ns ih =>
    rw [entered, if_neg (h n List.mem_cons_self)] at hp
    rcases List.mem_cons.mp hp with rfl | hp
    · simp
    · have hshort := ih (fun x hx => h x (List.mem_cons_of_mem _ hx)) hp
      rw [List.length_append, List.length_singleton] at hshort
      rw [List.length_cons]
      omega

theorem reaches_of_remove (hreach : t.Reaches dir) (h : t.remove dir' name = .ok t') :
    t'.Reaches dir := by
  obtain ⟨-, ⟨c, hgone⟩, hremoved⟩ := remove_spec h
  intro name' found hfound
  obtain ⟨hnames, hentered, -⟩ := read_eq_ok_iff.mp (hreach _ _ ((file_of_remove h).mp hfound).2)
  refine read_eq_ok_iff.mpr ⟨hnames, fun p hp => ?_, hfound⟩
  rw [hremoved, if_neg]
  · exact hentered p hp
  · -- What is taken away is no directory.
    rintro rfl
    cases hgone.symm.trans (hentered _ hp)

/-- Taking a file away, wherever it stands, puts nothing in the way. -/
theorem Admits.of_remove (hadmits : t.Admits dir name') (h : t.remove dir' name = .ok t') :
    t'.Admits dir name' := by
  obtain ⟨-, -, hremoved⟩ := remove_spec h
  obtain ⟨hnames, hopen, hapart, hfree⟩ := hadmits
  refine ⟨hnames, fun p hp c hc => hopen p hp c ((file_of_remove h).mp hc).2, hapart, ?_⟩
  rw [hremoved]
  split
  · simp
  · exact hfree

theorem walk_ne_blocked (hnames : ∀ n ∈ ns, n ≠ ".." → isName n)
    (hopen : ∀ p ∈ entered place ns, ∀ c, t.entry? p ≠ some (.file c)) :
    t.walk place ns ≠ .error .blocked := by
  induction ns generalizing place with
  | nil => simp [walk]
  | cons n ns ih =>
    have hrest := fun x hx => hnames x (List.mem_cons_of_mem n hx)
    rw [entered] at hopen
    rw [walk]
    by_cases hup : n = ".."
    · rw [if_pos hup] at hopen ⊢
      exact ih hrest hopen
    · rw [if_neg hup] at hopen ⊢
      rw [hnames n List.mem_cons_self hup, Bool.not_true, if_neg Bool.false_ne_true]
      split
      case h_1 => exact ih hrest fun p hp => hopen p (List.mem_cons_of_mem _ hp)
      case h_2 c hfile => exact absurd hfile (hopen _ List.mem_cons_self c)
      case h_3 => simp

/-- Where a file could be written, one is read or there is none. -/
theorem Admits.read_ne_blocked (h : t.Admits dir name) : t.read dir name ≠ .error .blocked := by
  intro hread
  rw [read] at hread
  cases hwalk : t.walk [] dir with
  | error e =>
    rw [hwalk] at hread
    cases hread
    exact walk_ne_blocked h.names h.isOpen hwalk
  | ok place =>
    obtain ⟨rfl, -⟩ := walk_eq_ok_iff.mp hwalk
    rw [hwalk] at hread
    dsimp only [bind, Except.bind] at hread
    split at hread
    case h_1 => cases hread
    case h_2 hdirectory => exact h.isFree hdirectory
    case h_3 => cases hread

theorem Admits.remove_ne_blocked (h : t.Admits dir name) : t.remove dir name ≠ .error .blocked :=
  fun hremove => h.read_ne_blocked (read_of_remove_error hremove)

end FileTree

namespace Store

variable {root : String} {p q : Partition}

/-- The directories of the partitions lie side by side. -/
theorem exists_partitionNames (root : String) : ∃ shared last, ∀ p : Partition, p.IsPlain →
    partitionNames root p = shared ++ [String.ofList (last ++ p.name.toList)] := by
  obtain ⟨base, hbase⟩ := joinPath_append
    (joinPath (joinPath root Partition.storeName) s!"v{Partition.layoutVersion}")
  obtain ⟨front, last, hsplit⟩ := splitOnChar_append '/' base.toList
  refine ⟨(front.map String.ofList).filter fun n => n ≠ "" ∧ n ≠ ".", last, fun p hp => ?_⟩
  have hlast := Partition.ofList_append_notMem hp last
  rw [List.mem_cons, List.mem_cons, not_or, not_or] at hlast
  rw [partitionNames, partitionPath, hbase _ hp.startsWith_slash, FileTree.names,
    String.toList_append, hsplit _ hp.undivided, List.map_append, List.filter_append,
    List.map_singleton, List.filter_cons_of_pos, List.filter_nil]
  exact decide_eq_true ⟨hlast.1, hlast.2.1⟩

/-- What a path to an entry leads to. -/
def place (root : String) (e : Partition × String) : List String :=
  FileTree.target [] (partitionNames root e.1) ++ [entryName e.2]

/-- Two partitions have one directory only if they are the same. -/
theorem target_partitionNames_inj (hp : p.IsPlain) (hq : q.IsPlain) :
    FileTree.target [] (partitionNames root p) = FileTree.target [] (partitionNames root q) ↔
      p = q := by
  obtain ⟨shared, last, hnames⟩ := exists_partitionNames root
  have habove : ∀ p : Partition, p.IsPlain → String.ofList (last ++ p.name.toList) ≠ ".." :=
    fun p hp hsame => Partition.ofList_append_notMem hp last (by simp [hsame])
  constructor
  · intro h
    rw [hnames p hp, hnames q hq, FileTree.target_append_singleton (habove p hp),
      FileTree.target_append_singleton (habove q hq), List.append_cancel_left_eq,
      List.singleton_inj, String.ofList_inj, List.append_cancel_left_eq, String.toList_inj] at h
    cases p
    cases q
    exact congrArg Partition.mk h
  · exact congrArg fun p => FileTree.target [] (partitionNames root p)

theorem place_inj {key key' : String} (hp : p.IsPlain) (hq : q.IsPlain)
    (hash : entryName key = entryName key' → key = key') :
    place root (p, key) = place root (q, key') ↔ (p, key) = (q, key') := by
  constructor
  · intro h
    rw [place, place] at h
    have hpartition := (target_partitionNames_inj hp hq).mp (List.append_inj_left' h (by simp))
    have hkey := hash (List.singleton_inj.mp (List.append_inj_right' h (by simp)))
    rw [hpartition, hkey]
  · exact congrArg (place root)

variable {files files' : FileTree} {name name' : String} {content : List UInt8}

/-- Writing into the directory of a partition puts nothing into the way to another one. -/
theorem admits_of_write (hp : p.IsPlain) (hq : q.IsPlain)
    (hadmits : files.Admits (partitionNames root p) name')
    (h : files.write (partitionNames root q) name content = .ok files') :
    files'.Admits (partitionNames root p) name' := by
  obtain ⟨shared, last, hnames⟩ := exists_partitionNames root
  have habove : ∀ p : Partition, p.IsPlain → String.ofList (last ++ p.name.toList) ≠ ".." :=
    fun p hp hsame => Partition.ofList_append_notMem hp last (by simp [hsame])
  rw [hnames p hp] at hadmits ⊢
  rw [hnames q hq] at h
  exact (FileTree.admits_of_write_beside (habove p hp) (habove q hq) h).mpr hadmits

theorem reaches_of_write (hp : p.IsPlain) (hq : q.IsPlain)
    (hreach : files.Reaches (partitionNames root p))
    (h : files.write (partitionNames root q) name content = .ok files') :
    files'.Reaches (partitionNames root p) := by
  by_cases hsame : p = q
  · subst hsame
    exact (FileTree.read_of_write hreach h).1
  · have happart : FileTree.target [] (partitionNames root p) ≠
        FileTree.target [] (partitionNames root q) :=
      mt (target_partitionNames_inj hp hq).mp hsame
    exact (FileTree.read_of_write_elsewhere hreach happart h).1

end Store

end CompilingProxy
