import Mathlib.Data.Finmap
import CompilingProxy.Proofs.Store.Partition

/-!
# Stores as finite maps

Whatever calls are made to it, a store answers as a finite map from partitions and keys to bytes
would. Each call is a step of both; the relation between a store and its map is kept by every step,
so that runs of any length have the same answers.
-/

namespace CompilingProxy

/-- What can be asked of a store. -/
inductive StoreCall where
  | get (p : Partition) (key : String)
  | set (p : Partition) (key : String) (value : List UInt8)
  | delete (p : Partition) (key : String)
deriving DecidableEq, Repr

inductive StoreAnswer where
  | found (value : Option (List UInt8))
  | done
deriving DecidableEq, Repr

/-- A partition and a key in it. -/
abbrev StoreEntry := Partition × String

namespace StoreCall

def entry : StoreCall → StoreEntry
  | get p key => (p, key)
  | set p key _ => (p, key)
  | delete p key => (p, key)

/-- What the call leaves under an entry, if it changes what is there. -/
def leaves? (e : StoreEntry) : StoreCall → Option (Option (List UInt8))
  | get .. => none
  | set p key value => if e = (p, key) then some (some value) else none
  | delete p key => if e = (p, key) then some none else none

/-- The last value that was set under an entry, if it was not deleted since. -/
def lastValue? (calls : List StoreCall) (e : StoreEntry) : Option (List UInt8) :=
  (calls.reverse.findSome? (leaves? e)).join

end StoreCall

open StoreCall

/-! ### A finite map -/

abbrev Entries := Finmap fun _ : StoreEntry => List UInt8

namespace Entries

variable {m m' : Entries} {c : StoreCall} {calls before : List StoreCall} {e : StoreEntry}
  {p : Partition}

def call (m : Entries) : StoreCall → StoreAnswer × Entries
  | .get p key => (.found (m.lookup (p, key)), m)
  | .set p key value => (.done, m.insert (p, key) value)
  | .delete p key => (.done, m.erase (p, key))

def answers (m : Entries) : List StoreCall → List StoreAnswer
  | [] => []
  | c :: calls => (m.call c).1 :: answers (m.call c).2 calls

/-- What the calls make of the map. -/
def after (m : Entries) (calls : List StoreCall) : Entries :=
  calls.foldl (fun m c => (m.call c).2) m

theorem length_answers : (m.answers calls).length = calls.length := by
  induction calls generalizing m with
  | nil => rfl
  | cons c calls ih => rw [answers, List.length_cons, List.length_cons, ih]

theorem answers_append : m.answers (before ++ calls) =
    m.answers before ++ (m.after before).answers calls := by
  induction before generalizing m with
  | nil => rfl
  | cons c before ih =>
    rw [List.cons_append, answers, answers, ih, List.cons_append]
    rfl

theorem lookup_call (m : Entries) (c : StoreCall) (e : StoreEntry) :
    (m.call c).2.lookup e = (c.leaves? e).getD (m.lookup e) := by
  cases c with
  | get p key => rfl
  | set p key value =>
    by_cases h : e = (p, key)
    · rw [call, leaves?, if_pos h, h, Finmap.lookup_insert]
      rfl
    · rw [call, leaves?, if_neg h, Finmap.lookup_insert_of_ne _ h]
      rfl
  | delete p key =>
    by_cases h : e = (p, key)
    · rw [call, leaves?, if_pos h, h, Finmap.lookup_erase]
      rfl
    · rw [call, leaves?, if_neg h, Finmap.lookup_erase_ne h]
      rfl

theorem lookup_after (m : Entries) (calls : List StoreCall) (e : StoreEntry) :
    (m.after calls).lookup e = (calls.reverse.findSome? (leaves? e)).getD (m.lookup e) := by
  induction calls generalizing m with
  | nil => rfl
  | cons c calls ih =>
    rw [after, List.foldl_cons, ← after, ih, lookup_call, List.reverse_cons,
      List.findSome?_append]
    cases calls.reverse.findSome? (leaves? e) with
    | none => simp
    | some left => rfl

theorem lookup_after_empty (calls : List StoreCall) (e : StoreEntry) :
    Finmap.lookup e (after ∅ calls) = lastValue? calls e := by
  rw [lookup_after, lastValue?, Finmap.lookup_empty]
  cases calls.reverse.findSome? (leaves? e) <;> rfl

/-- A call to another partition changes nothing in this one. -/
theorem leaves?_of_ne (h : c.entry.1 ≠ e.1) : c.leaves? e = none := by
  have hne : e ≠ c.entry := fun hsame => h (congrArg Prod.fst hsame).symm
  cases c with
  | get p key => rfl
  | set p key value => exact if_neg hne
  | delete p key => exact if_neg hne

/-- Maps that agree on a partition answer the calls to it alike. -/
theorem answer_eq (hagree : ∀ e : StoreEntry, e.1 = p → m.lookup e = m'.lookup e)
    (hc : c.entry.1 = p) : (m.call c).1 = (m'.call c).1 := by
  cases c with
  | get q key => exact congrArg StoreAnswer.found (hagree _ hc)
  | set q key value => rfl
  | delete q key => rfl

/-- The answers of a partition are those that it would give without all other calls. -/
theorem zip_answers_filter (hagree : ∀ e : StoreEntry, e.1 = p → m.lookup e = m'.lookup e) :
    (calls.zip (m.answers calls)).filter (·.1.entry.1 = p) =
      (calls.filter (·.entry.1 = p)).zip (m'.answers (calls.filter (·.entry.1 = p))) := by
  induction calls generalizing m m' with
  | nil => rfl
  | cons c calls ih =>
    rw [answers, List.zip_cons_cons]
    by_cases hc : c.entry.1 = p
    · have hagree' : ∀ e : StoreEntry, e.1 = p →
          (m.call c).2.lookup e = (m'.call c).2.lookup e := by
        intro e he
        rw [lookup_call, lookup_call, hagree e he]
      rw [List.filter_cons_of_pos (by simpa using hc), List.filter_cons_of_pos (by simpa using hc),
        answers, List.zip_cons_cons, ih hagree', answer_eq hagree hc]
    · have hagree' : ∀ e : StoreEntry, e.1 = p → (m.call c).2.lookup e = m'.lookup e := by
        intro e he
        rw [lookup_call, leaves?_of_ne (he ▸ hc), Option.getD_none, hagree e he]
      rw [List.filter_cons_of_neg (by simpa using hc), List.filter_cons_of_neg (by simpa using hc),
        ih hagree']

end Entries

/-! ### Stores -/

namespace Store

variable {s s' : Store} {m : Entries} {c : StoreCall} {calls : List StoreCall}
  {used : Set StoreEntry} {root : String} {files files' : FileTree}
  {values : List (String × List UInt8)} {e : StoreEntry} {a : StoreAnswer} {value : List UInt8}
  {err : StoreError}

def call (s : Store) : StoreCall → Except StoreError (StoreAnswer × Store)
  | .get p key => do return (.found (← s.get p key), s)
  | .set p key value => do return (.done, ← s.set p key value)
  | .delete p key => do return (.done, ← s.delete p key)

/-- The answers to calls that are made one after another; one that fails changes nothing. -/
def answers (s : Store) : List StoreCall → List (Except StoreError StoreAnswer)
  | [] => []
  | c :: calls =>
    match s.call c with
    | .ok (a, s') => .ok a :: s'.answers calls
    | .error err => .error err :: s.answers calls

/-- Whether the store would take a value under the entry. -/
def accepts (s : Store) (e : StoreEntry) : Bool := (s.set e.1 e.2 []).isOk

theorem accepts_directory_iff : (directory root files).accepts e ↔
    files.Admits (partitionNames root e.1) (entryName e.2) := by
  rw [accepts, set]
  constructor
  · intro h
    split at h
    case h_1 hwrite => exact (FileTree.write_spec hwrite).1
    case h_2 => cases h
  · intro h
    obtain ⟨files', hwrite⟩ := FileTree.exists_write h []
    rw [hwrite]
    rfl

/-! ### In memory -/

/-- The rows of plain partitions are those of the map. -/
def Tabulates (values : List (String × List UInt8)) (m : Entries) : Prop :=
  ∀ e : StoreEntry, e.1.IsPlain → values.lookup (e.1.qualify e.2) = m.lookup e

theorem Tabulates.insert (h : Tabulates values m) (he : e.1.IsPlain) (value : List UInt8) :
    Tabulates ((e.1.qualify e.2, value) :: values.filter (·.1 ≠ e.1.qualify e.2))
      (m.insert e value) := by
  intro e' he'
  have hname : e'.1.qualify e'.2 = e.1.qualify e.2 ↔ e' = e := Partition.qualify_inj he' he
  rw [List.lookup_cons, lookup_filter_ne]
  by_cases hsame : e' = e
  · rw [hsame, beq_self_eq_true, Finmap.lookup_insert]
  · rw [beq_false_of_ne (mt hname.mp hsame), if_neg (mt hname.mp hsame),
      Finmap.lookup_insert_of_ne _ hsame]
    exact h e' he'

theorem Tabulates.erase (h : Tabulates values m) (he : e.1.IsPlain) :
    Tabulates (values.filter (·.1 ≠ e.1.qualify e.2)) (m.erase e) := by
  intro e' he'
  have hname : e'.1.qualify e'.2 = e.1.qualify e.2 ↔ e' = e := Partition.qualify_inj he' he
  rw [lookup_filter_ne]
  by_cases hsame : e' = e
  · rw [if_pos (hname.mpr hsame), hsame, Finmap.lookup_erase]
  · rw [if_neg (mt hname.mp hsame), Finmap.lookup_erase_ne hsame]
    exact h e' he'

theorem Tabulates.call (h : Tabulates values m) (hc : c.entry.1.IsPlain) : ∃ values',
    (memory values).call c = .ok ((m.call c).1, memory values') ∧
      Tabulates values' (m.call c).2 := by
  cases c with
  | get p key =>
    refine ⟨values, ?_, h⟩
    rw [Store.call, get, h (p, key) hc]
    rfl
  | set p key value =>
    have hrows := Tabulates.insert (e := (p, key)) h hc value
    exact ⟨_, rfl, hrows⟩
  | delete p key =>
    have hrows := Tabulates.erase (e := (p, key)) h hc
    exact ⟨_, rfl, hrows⟩

theorem answers_memory (h : Tabulates values m) (hplain : ∀ c ∈ calls, c.entry.1.IsPlain) :
    (memory values).answers calls = (m.answers calls).map .ok := by
  induction calls generalizing values m with
  | nil => rfl
  | cons c calls ih =>
    obtain ⟨values', hcall, hrows⟩ := h.call (hplain c List.mem_cons_self)
    rw [answers, hcall, Entries.answers, List.map_cons]
    dsimp only
    rw [ih hrows fun c hc => hplain c (List.mem_cons_of_mem _ hc)]

/-! ### In a directory -/

/-- The entries have paths of their own. -/
structure AreApart (used : Set StoreEntry) : Prop where
  plain : ∀ e ∈ used, e.1.IsPlain
  hashes : Set.InjOn entryName (Prod.snd '' used)

theorem AreApart.place_inj {e' : StoreEntry} (h : AreApart used) (he : e ∈ used) (he' : e' ∈ used) :
    place root e = place root e' ↔ e = e' :=
  Store.place_inj (h.plain e he) (h.plain e' he')
    (h.hashes (Set.mem_image_of_mem _ he) (Set.mem_image_of_mem _ he'))

/-- The files that can stand under the entries do so as in the map, and all can be reached. -/
structure Mirrors (root : String) (used : Set StoreEntry) (files : FileTree) (m : Entries) :
    Prop where
  reaches : ∀ e ∈ used, files.Reaches (partitionNames root e.1)
  rows : ∀ e ∈ used, ∀ value,
    files.entry? (place root e) = some (.file value) ↔ m.lookup e = some value

theorem mirrors_empty (root : String) (used : Set StoreEntry) : Mirrors root used {} ∅ where
  reaches e _ := FileTree.reaches_empty _
  rows e _ value := by
    rw [Finmap.lookup_empty]
    exact iff_of_false FileTree.no_file_of_empty (by simp)

theorem Mirrors.get (h : Mirrors root used files m) (he : e ∈ used) {found : Option (List UInt8)}
    (hget : (directory root files).get e.1 e.2 = .ok found) : found = m.lookup e := by
  have hfile : ∀ value, found = some value ↔ m.lookup e = some value := by
    intro value
    rw [← h.rows e he]
    constructor
    · rintro rfl
      exact (FileTree.read_eq_ok_iff.mp (get_directory_eq_some_iff.mp hget)).2.2
    · intro hfile
      have hread := get_directory_eq_some_iff.mpr (h.reaches e he _ _ hfile)
      rw [hget] at hread
      exact Except.ok.inj hread
  exact Option.ext hfile

theorem Mirrors.write (h : Mirrors root used files m) (hused : AreApart used) (he : e ∈ used)
    (hwrite : files.write (partitionNames root e.1) (entryName e.2) value = .ok files') :
    Mirrors root used files' (m.insert e value) where
  reaches e' he' :=
    reaches_of_write (hused.plain e' he') (hused.plain e he) (h.reaches e' he') hwrite
  rows e' he' found := by
    rw [FileTree.file_of_write hwrite, ← place]
    by_cases hsame : e' = e
    · rw [hsame, if_pos rfl, Finmap.lookup_insert, Option.some.injEq, eq_comm]
    · rw [if_neg (mt (hused.place_inj he' he).mp hsame), Finmap.lookup_insert_of_ne _ hsame,
        h.rows e' he']

theorem Mirrors.remove (h : Mirrors root used files m) (hused : AreApart used) (he : e ∈ used)
    (hremove : files.remove (partitionNames root e.1) (entryName e.2) = .ok files') :
    Mirrors root used files' (m.erase e) where
  reaches e' he' := FileTree.reaches_of_remove (h.reaches e' he') hremove
  rows e' he' found := by
    rw [FileTree.file_of_remove hremove, ← place]
    by_cases hsame : e' = e
    · rw [hsame, Finmap.lookup_erase]
      simp
    · rw [Finmap.lookup_erase_ne hsame, h.rows e' he', and_iff_right]
      exact mt (hused.place_inj he' he).mp hsame

/-- Where there is no file, none has to be taken away. -/
theorem Mirrors.of_missing (h : Mirrors root used files m) (he : e ∈ used)
    (hremove : files.remove (partitionNames root e.1) (entryName e.2) = .error .missing) :
    Mirrors root used files (m.erase e) where
  reaches := h.reaches
  rows e' he' found := by
    by_cases hsame : e' = e
    · have hget : (directory root files).get e.1 e.2 = .ok none := by
        rw [Store.get, FileTree.read_of_remove_error hremove]
      rw [hsame, Finmap.lookup_erase, h.rows e he, ← h.get he hget]
    · rw [Finmap.lookup_erase_ne hsame, h.rows e' he']

/-- A call that does not fail has the answer of the map, and leaves a directory that mirrors it. -/
theorem Mirrors.call (h : Mirrors root used files m) (hused : AreApart used) (hc : c.entry ∈ used)
    (hcall : (directory root files).call c = .ok (a, s')) :
    a = (m.call c).1 ∧ ∃ files', s' = directory root files' ∧
      Mirrors root used files' (m.call c).2 := by
  cases c with
  | get p key =>
    obtain ⟨found, hget, hanswer⟩ := bind_eq_ok_iff.mp hcall
    cases hanswer
    exact ⟨congrArg StoreAnswer.found (h.get hc hget), files, rfl, h⟩
  | set p key value =>
    obtain ⟨s'', hset, hanswer⟩ := bind_eq_ok_iff.mp hcall
    cases hanswer
    rw [set] at hset
    split at hset
    case h_1 files' hwrite =>
      cases hset
      exact ⟨rfl, files', rfl, h.write hused hc hwrite⟩
    case h_2 => cases hset
  | delete p key =>
    obtain ⟨s'', hdelete, hanswer⟩ := bind_eq_ok_iff.mp hcall
    cases hanswer
    rw [delete] at hdelete
    split at hdelete
    case h_1 files' hremove =>
      cases hdelete
      exact ⟨rfl, files', rfl, h.remove hused hc hremove⟩
    case h_2 hmissing =>
      cases hdelete
      exact ⟨rfl, files, rfl, h.of_missing hc hmissing⟩
    case h_3 => cases hdelete

theorem answers_directory (hused : AreApart used) (h : Mirrors root used files m)
    (hcalls : ∀ c ∈ calls, c.entry ∈ used)
    (hok : ∀ answer ∈ (directory root files).answers calls, answer.isOk) :
    (directory root files).answers calls = (m.answers calls).map .ok := by
  induction calls generalizing files m with
  | nil => rfl
  | cons c calls ih =>
    rw [answers] at hok ⊢
    cases hcall : (directory root files).call c with
    | error err =>
      rw [hcall] at hok
      exact absurd (hok _ List.mem_cons_self) Bool.false_ne_true
    | ok reply =>
      obtain ⟨a, s'⟩ := reply
      obtain ⟨rfl, files', rfl, hmirrors⟩ := h.call hused (hcalls c List.mem_cons_self) hcall
      rw [hcall] at hok
      dsimp only at hok ⊢
      rw [Entries.answers, List.map_cons, ih hmirrors
        (fun c hc => hcalls c (List.mem_cons_of_mem _ hc))
        fun answer ha => hok answer (List.mem_cons_of_mem _ ha)]

/-! ### Calls that do not fail -/

/-- The directory takes values under all entries. -/
def TakesAll (root : String) (used : Set StoreEntry) (files : FileTree) : Prop :=
  ∀ e ∈ used, files.Admits (partitionNames root e.1) (entryName e.2)

theorem TakesAll.write (h : TakesAll root used files) (hused : AreApart used) (he : e ∈ used)
    (hwrite : files.write (partitionNames root e.1) (entryName e.2) value = .ok files') :
    TakesAll root used files' :=
  fun e' he' => admits_of_write (hused.plain e' he') (hused.plain e he) (h e' he') hwrite

theorem TakesAll.remove (h : TakesAll root used files)
    (hremove : files.remove (partitionNames root e.1) (entryName e.2) = .ok files') :
    TakesAll root used files' :=
  fun e' he' => (h e' he').of_remove hremove

/-- No call fails, and none makes a later one fail. -/
theorem TakesAll.call (h : TakesAll root used files) (hused : AreApart used) (hc : c.entry ∈ used) :
    ∃ a files', (directory root files).call c = .ok (a, directory root files') ∧
      TakesAll root used files' := by
  have hadmits := h _ hc
  cases c with
  | get p key =>
    cases hread : files.read (partitionNames root p) (entryName key) with
    | ok content =>
      refine ⟨.found (some content), files, ?_, h⟩
      rw [Store.call, get, hread]
      rfl
    | error fault =>
      cases fault with
      | missing =>
        refine ⟨.found none, files, ?_, h⟩
        rw [Store.call, get, hread]
        rfl
      | blocked => exact absurd hread hadmits.read_ne_blocked
  | set p key value =>
    obtain ⟨files', hwrite⟩ := FileTree.exists_write hadmits value
    refine ⟨.done, files', ?_, h.write hused hc hwrite⟩
    rw [Store.call, set]
    dsimp only [entry] at hwrite
    rw [hwrite]
    rfl
  | delete p key =>
    cases hremove : files.remove (partitionNames root p) (entryName key) with
    | ok files' =>
      refine ⟨.done, files', ?_, h.remove (e := (p, key)) hremove⟩
      rw [Store.call, delete, hremove]
      rfl
    | error fault =>
      cases fault with
      | missing =>
        refine ⟨.done, files, ?_, h⟩
        rw [Store.call, delete, hremove]
        rfl
      | blocked => exact absurd hremove hadmits.remove_ne_blocked

theorem answers_isOk (hused : AreApart used) (h : TakesAll root used files)
    (hcalls : ∀ c ∈ calls, c.entry ∈ used) :
    ∀ answer ∈ (directory root files).answers calls, answer.isOk := by
  induction calls generalizing files with
  | nil => simp [answers]
  | cons c calls ih =>
    obtain ⟨a, files', hcall, htakes⟩ := h.call hused (hcalls c List.mem_cons_self)
    rw [answers, hcall]
    intro answer hanswer
    rcases List.mem_cons.mp hanswer with rfl | hanswer
    · rfl
    · exact ih htakes (fun c hc => hcalls c (List.mem_cons_of_mem _ hc)) answer hanswer

/-- A new directory takes values under all entries if its path goes by names only. -/
theorem accepts_inDirectory
    (hnames : ∀ n ∈ partitionNames root e.1, n ≠ ".." ∧ FileTree.isName n) :
    (inDirectory root).accepts e := by
  refine accepts_directory_iff.mpr ⟨fun n hn _ => (hnames n hn).2,
    fun _ _ _ => FileTree.no_file_of_empty, fun hon => ?_, by simp [FileTree.entry?]⟩
  have hstraight := fun n hn => (hnames n hn).1
  have hshort := FileTree.length_le_of_mem_entered hstraight hon
  rw [FileTree.target_of_straight hstraight, List.nil_append, List.length_append,
    List.length_singleton, List.length_nil, Nat.zero_add] at hshort
  exact Nat.not_succ_le_self _ hshort

/-! ### Both stores -/

/-- Both stores answer as one finite map does, where what is found is the last value that was set
and not deleted since, and no partition's answers depend on calls to other ones. A store in a
directory does so as long as no two keys have one hash and no call fails; none fails if the
directory takes values under all entries that are met. -/
theorem answers_eq_entries (root : String) (calls : List StoreCall)
    (hplain : ∀ c ∈ calls, c.entry.1.IsPlain) :
    inMemory.answers calls = (Entries.answers ∅ calls).map .ok ∧
    (Set.InjOn entryName {key | ∃ c ∈ calls, c.entry.2 = key} →
      ((∀ answer ∈ (inDirectory root).answers calls, answer.isOk) →
        (inDirectory root).answers calls = (Entries.answers ∅ calls).map .ok) ∧
      ((∀ c ∈ calls, (inDirectory root).accepts c.entry) →
        ∀ answer ∈ (inDirectory root).answers calls, answer.isOk)) ∧
    (∀ before p key later, calls = before ++ .get p key :: later →
      (Entries.answers ∅ calls)[before.length]? = some (.found (lastValue? before (p, key)))) ∧
    ∀ p, (calls.zip (Entries.answers ∅ calls)).filter (·.1.entry.1 = p) =
      (calls.filter (·.entry.1 = p)).zip (Entries.answers ∅ (calls.filter (·.entry.1 = p))) := by
  have hmemory : Tabulates [] ∅ := fun _ _ => rfl
  refine ⟨answers_memory hmemory hplain, fun hashes => ?_, ?_,
    fun p => Entries.zip_answers_filter fun _ _ => rfl⟩
  · -- The entries that are met are those of the calls.
    let used : Set StoreEntry := {e | ∃ c ∈ calls, c.entry = e}
    have hcalls : ∀ c ∈ calls, c.entry ∈ used := fun c hc => ⟨c, hc, rfl⟩
    have hused : AreApart used := by
      refine ⟨?_, hashes.mono ?_⟩
      · rintro _ ⟨c, hc, rfl⟩
        exact hplain c hc
      · rintro _ ⟨_, ⟨c, hc, rfl⟩, rfl⟩
        exact ⟨c, hc, rfl⟩
    refine ⟨answers_directory hused (mirrors_empty root used) hcalls, fun haccepts => ?_⟩
    apply answers_isOk hused _ hcalls
    rintro _ ⟨c, hc, rfl⟩
    exact accepts_directory_iff.mp (haccepts c hc)
  · rintro before p key later rfl
    have hlength : (Entries.answers ∅ before).length = before.length := Entries.length_answers
    have hfound : ((Entries.after ∅ before).call (.get p key)).1 =
        .found (lastValue? before (p, key)) :=
      congrArg StoreAnswer.found (Entries.lookup_after_empty before (p, key))
    rw [Entries.answers_append, Entries.answers, hfound, ← hlength,
      List.getElem?_append_right le_rfl, Nat.sub_self, List.getElem?_cons_zero]

/-- Keys with slashes, one of which looks like another partition's. -/
theorem answers_eq_entries_overlapping :
    let calls : List StoreCall := [.set ⟨"a"⟩ "b/k" [1], .set ⟨"b"⟩ "k" [2], .get ⟨"a"⟩ "b/k",
      .delete ⟨"b"⟩ "k", .get ⟨"b"⟩ "k", .get ⟨"a"⟩ "b/k"]
    (∀ c ∈ calls, c.entry.1.IsPlain) ∧
      inMemory.answers calls = (inDirectory "cache").answers calls ∧
      ((inDirectory "cache").answers calls)[5]? = some (.ok (.found (some [1]))) := by
  intro calls
  have hplain : ∀ c ∈ calls, c.entry.1.IsPlain := by decide
  have happart : entryName "b/k" ≠ entryName "k" := by decide +kernel
  have hnames : ∀ n ∈ ["cache", "tsgate", "v1", "a", "b"], n ≠ ".." ∧ FileTree.isName n := by
    simp only [FileTree.isName, String.contains_char_eq]
    decide +kernel
  have haccepts : ∀ c ∈ calls, (inDirectory "cache").accepts c.entry := by
    have hpaths : ∀ c ∈ calls, partitionNames "cache" c.entry.1 ⊆
        ["cache", "tsgate", "v1", "a", "b"] := by decide +kernel
    exact fun c hc => accepts_inDirectory fun n hn => hnames n (hpaths c hc hn)
  have hashes : Set.InjOn entryName {key | ∃ c ∈ calls, c.entry.2 = key} := by
    have hkeys : ∀ key ∈ {key | ∃ c ∈ calls, c.entry.2 = key}, key = "b/k" ∨ key = "k" := by
      rintro _ ⟨c, hc, rfl⟩
      revert c
      decide
    intro key hkey key' hkey' hsame
    rcases hkeys key hkey with rfl | rfl <;> rcases hkeys key' hkey' with rfl | rfl
    · rfl
    · exact absurd hsame happart
    · exact absurd hsame.symm happart
    · rfl
  obtain ⟨hmemory, hdirectory, hlast, -⟩ := answers_eq_entries "cache" calls hplain
  obtain ⟨hsame, hok⟩ := hdirectory hashes
  have hsame := hsame (hok haccepts)
  refine ⟨hplain, hmemory.trans hsame.symm, ?_⟩
  have hfound := hlast (calls.take 5) ⟨"a"⟩ "b/k" [] rfl
  rw [hsame, List.getElem?_map]
  exact congrArg (Option.map Except.ok) hfound

end Store

end CompilingProxy
