import Mathlib
import CompilingProxy.Proofs.Check.Missing
import CompilingProxy.Proofs.Sketch
import CompilingProxy.Proofs.Sorting

/-!
# Names that are declared again

Declarations are looked through in groups of one name, first those of values and then those of
types, and a declaration that has been reported is not reported again. Nothing fixes the order in
which the groups come. What is reported of a declaration does not depend on it, and as every
declaration stands at a place of its own, neither does the sorted list of all that is reported.
-/

namespace CompilingProxy

namespace BindingCheck

/-- Declarations with their places among all, in groups of one name. -/
abbrev Groups := List (String × List (Declaration × Nat))

/-- The groups of the declarations that pass the test, in the order in which their names come up. -/
def groupsOf (stands : Declaration → Bool) (all : List Declaration) : Groups :=
  let members := all.zipIdx.filter fun m => stands m.1
  (members.map (·.1.name)).eraseDups.map fun name =>
    (name, members.filter fun m => m.1.name == name)

/-- What has been reported so far, with the places of the declarations that it is about. -/
abbrev Log := List (Nat × Finding)

/-- Reports something of a declaration unless something has been reported of it. -/
def report (log : Log) (entry : Nat × Finding) : Log :=
  if (log.map Prod.fst).contains entry.1 then log else log ++ [entry]

def redeclared (name : String) (d : Declaration) : Finding :=
  ⟨d.nameRange.start, 2451, "Cannot redeclare block-scoped variable '" ++ name ++ "'."⟩

def duplicate (name : String) (d : Declaration) : Finding :=
  ⟨d.nameRange.start, 2300, "Duplicate identifier '" ++ name ++ "'."⟩

def implementedAgain (d : Declaration) : Finding :=
  ⟨d.nameRange.start, 2393, "Duplicate function implementation."⟩

/-- Looks through the declarations of values by one name. -/
def scanValues (log : Log) : String × List (Declaration × Nat) → Log
  | (name, members) =>
    if members.any (·.1.kind.isBlockScoped) && members.length > 1 then
      members.foldl (fun log m =>
        if m.1.kind.isBlockScoped then report log (m.2, redeclared name m.1) else log) log
    else if members.any (·.1.kind == .classType) && members.length > 1 then
      members.foldl (fun log m => report log (m.2, duplicate name m.1)) log
    else
      let bodies := members.filter fun m => isImplementation m.1
      if bodies.length > 1 then
        bodies.foldl (fun log m => report log (m.2, implementedAgain m.1)) log
      else log

/-- Looks through the declarations of types by one name. -/
def scanTypes (log : Log) : String × List (Declaration × Nat) → Log
  | (name, members) =>
    if !members.any (·.1.kind == .typeAlias) || members.length < 2 then log
    else members.foldl (fun log m => report log (m.2, duplicate name m.1)) log

def scan (values types : Groups) : Log :=
  types.foldl scanTypes (values.foldl scanValues [])

/-- Everything that is wrong with a module, with the groups in these orders. -/
def findingsInOrder (g : Program) (r : ModuleRecord) (a : ModuleAnalysis)
    (values types : Groups) : Analyzing (List Finding) := do
  let imports ← a.imports.mapM (importFindings g)
  let reExports ← a.reExports.mapM (reExportFindings g)
  let unused :=
    if g.options.noUnusedLocals then
      (unusedBindings a).map fun b => ⟨b.range.start, 6133, unusedText b.localName⟩
    else []
  return imports.flatten ++ reExports.flatten ++ (scan values types).map Prod.snd ++ unused ++
    treeFindings g.options r.text.toList none r.tree

/-! ### Reporting -/

variable {log entries : Log} {i : Nat} {x : Finding}

theorem report_of_mem {entry : Nat × Finding} (h : entry.1 ∈ log.map Prod.fst) :
    report log entry = log :=
  if_pos (by simpa using h)

theorem report_of_notMem {entry : Nat × Finding} (h : entry.1 ∉ log.map Prod.fst) :
    report log entry = log ++ [entry] :=
  if_neg (by simpa using h)

theorem nodup_foldl_report (h : (log.map Prod.fst).Nodup) :
    ((entries.foldl report log).map Prod.fst).Nodup := by
  induction entries generalizing log with
  | nil => exact h
  | cons entry entries ih =>
    rw [List.foldl_cons]
    apply ih
    by_cases hknown : entry.1 ∈ log.map Prod.fst
    · rwa [report_of_mem hknown]
    · rw [report_of_notMem hknown, List.map_append, List.map_singleton]
      exact (List.perm_append_singleton _ _).nodup_iff.mpr (List.nodup_cons.mpr ⟨hknown, h⟩)

/-- If no two things are to be reported of one declaration, they are reported unless something has
been before. -/
theorem mem_foldl_report_iff
    (hone : ∀ i x y, (i, x) ∈ entries → (i, y) ∈ entries → x = y) :
    (i, x) ∈ entries.foldl report log ↔
      (i, x) ∈ log ∨ (i ∉ log.map Prod.fst ∧ (i, x) ∈ entries) := by
  induction entries generalizing log with
  | nil => simp
  | cons entry entries ih =>
    have hlater : ∀ i x y, (i, x) ∈ entries → (i, y) ∈ entries → x = y := fun i x y hx hy =>
      hone i x y (List.mem_cons_of_mem _ hx) (List.mem_cons_of_mem _ hy)
    rw [List.foldl_cons, ih hlater]
    by_cases hknown : entry.1 ∈ log.map Prod.fst
    · rw [report_of_mem hknown, List.mem_cons]
      constructor
      · rintro (hx | ⟨hnew, hx⟩)
        · exact .inl hx
        · exact .inr ⟨hnew, .inr hx⟩
      · rintro (hx | ⟨hnew, rfl | hx⟩)
        · exact .inl hx
        · exact absurd hknown hnew
        · exact .inr ⟨hnew, hx⟩
    · rw [report_of_notMem hknown, List.mem_append, List.mem_singleton, List.map_append,
        List.map_singleton, List.mem_append, List.mem_singleton, List.mem_cons, not_or]
      constructor
      · rintro ((hx | rfl) | ⟨⟨hnew, -⟩, hx⟩)
        · exact .inl hx
        · exact .inr ⟨hknown, .inl rfl⟩
        · exact .inr ⟨hnew, .inr hx⟩
      · rintro (hx | ⟨hnew, rfl | hx⟩)
        · exact .inl (.inl hx)
        · exact .inl (.inr rfl)
        · by_cases hplace : i = entry.1
          · subst hplace
            rw [hone entry.1 x entry.2 (List.mem_cons_of_mem _ hx) List.mem_cons_self]
            exact .inl (.inr rfl)
          · exact .inr ⟨⟨hnew, hplace⟩, hx⟩

/-! ### Groups -/

variable {all : List Declaration} {stands : Declaration → Bool} {name : String} {d : Declaration}
  {members : List (Declaration × Nat)}

def named (stands : Declaration → Bool) (all : List Declaration) (name : String) :
    List Declaration :=
  (all.filter (·.name == name)).filter stands

theorem map_fst_members (all : List Declaration) (stands : Declaration → Bool) (name : String) :
    ((all.zipIdx.filter fun m => stands m.1).filter fun m => m.1.name == name).map Prod.fst =
      named stands all name := by
  have hall : all = all.zipIdx.map Prod.fst := (List.zipIdx_map_fst 0 all).symm
  conv_rhs => rw [named, hall, List.filter_map, List.filter_map]
  rw [List.filter_comm]
  rfl

theorem mem_groupsOf_iff : (name, members) ∈ groupsOf stands all ↔
    (∃ m ∈ all.zipIdx, stands m.1 ∧ m.1.name = name) ∧
      members = (all.zipIdx.filter fun m => stands m.1).filter fun m => m.1.name == name := by
  rw [groupsOf]
  simp only [List.mem_map, List.mem_eraseDups, List.mem_filter, Prod.mk.injEq]
  constructor
  · rintro ⟨_, ⟨m, hm, rfl⟩, rfl, rfl⟩
    exact ⟨⟨m, hm.1, hm.2, rfl⟩, rfl⟩
  · rintro ⟨⟨m, hm, hstands, rfl⟩, rfl⟩
    exact ⟨_, ⟨m, ⟨hm, hstands⟩, rfl⟩, rfl, rfl⟩

/-- What is to be reported of a declaration of a value, among those by its name. -/
def valueNote? (name : String) (members : List (Declaration × Nat)) (m : Declaration × Nat) :
    Option (Nat × Finding) :=
  if members.any (·.1.kind.isBlockScoped) && members.length > 1 then
    if m.1.kind.isBlockScoped then some (m.2, redeclared name m.1) else none
  else if members.any (·.1.kind == .classType) && members.length > 1 then
    some (m.2, duplicate name m.1)
  else if isImplementation m.1 && (members.filter fun m => isImplementation m.1).length > 1 then
    some (m.2, implementedAgain m.1)
  else none

/-- What is to be reported of a declaration of a type, among those by its name. -/
def typeNote? (name : String) (members : List (Declaration × Nat)) (m : Declaration × Nat) :
    Option (Nat × Finding) :=
  if members.length > 1 && members.any (·.1.kind == .typeAlias) then some (m.2, duplicate name m.1)
  else none

theorem valueNote?_eq {m : Declaration × Nat} (hname : m.1.name = name) :
    valueNote? name members m =
      (valueFinding? (members.map Prod.fst) m.1).map (m.2, ·) := by
  subst hname
  rw [valueNote?, valueFinding?]
  simp only [List.length_map, List.any_map, List.filter_map, Function.comp_def,
    Bool.and_comm (decide (members.length > 1))]
  split
  · split <;> rfl
  · split
    · rfl
    · split <;> rfl

theorem typeNote?_eq {m : Declaration × Nat} (hname : m.1.name = name) :
    typeNote? name members m = (typeFinding? (members.map Prod.fst) m.1).map (m.2, ·) := by
  subst hname
  rw [typeNote?, typeFinding?]
  simp only [List.length_map, List.any_map, Function.comp_def]
  split <;> rfl

theorem foldl_filterMap_report (members : List (Declaration × Nat))
    (note? : Declaration × Nat → Option (Nat × Finding)) (log : Log) :
    (members.filterMap note?).foldl report log =
      members.foldl (fun log m => (note? m).elim log (report log)) log := by
  rw [List.foldl_filterMap]
  apply List.foldl_ext
  intro log m _
  cases note? m <;> rfl

theorem scanValues_eq : scanValues log (name, members) =
    (members.filterMap (valueNote? name members)).foldl report log := by
  rw [foldl_filterMap_report, scanValues]
  by_cases hscoped : members.any (·.1.kind.isBlockScoped) && members.length > 1
  · rw [if_pos hscoped]
    apply List.foldl_ext
    intro log m _
    rw [valueNote?, if_pos hscoped]
    split <;> rfl
  by_cases hclass : members.any (·.1.kind == .classType) && members.length > 1
  · rw [if_neg hscoped, if_pos hclass]
    apply List.foldl_ext
    intro log m _
    rw [valueNote?, if_neg hscoped, if_pos hclass]
    rfl
  rw [if_neg hscoped, if_neg hclass]
  have hentry : ∀ m, valueNote? name members m =
      if isImplementation m.1 && (members.filter fun m => isImplementation m.1).length > 1 then
        some (m.2, implementedAgain m.1)
      else none := by
    intro m
    rw [valueNote?, if_neg hscoped, if_neg hclass]
  dsimp only
  split
  case isTrue hbodies =>
    rw [List.foldl_filter]
    apply List.foldl_ext
    intro log m _
    rw [hentry, decide_eq_true hbodies, Bool.and_true]
    split <;> rfl
  case isFalse hbodies =>
    have hidle : ∀ log m, (valueNote? name members m).elim log (report log) = log := by
      intro log m
      rw [hentry, decide_eq_false hbodies, Bool.and_false]
      rfl
    simp only [hidle]
    exact (List.foldl_fixed members).symm

theorem scanTypes_eq : scanTypes log (name, members) =
    (members.filterMap (typeNote? name members)).foldl report log := by
  rw [foldl_filterMap_report, scanTypes]
  have hcond : (!members.any (·.1.kind == .typeAlias) || decide (members.length < 2)) =
      !(decide (members.length > 1) && members.any (·.1.kind == .typeAlias)) := by
    rw [Bool.not_and, Bool.or_comm, ← decide_not]
    simp only [gt_iff_lt, Nat.not_lt, Nat.lt_succ_iff]
  by_cases halias : members.length > 1 && members.any (·.1.kind == .typeAlias)
  · rw [hcond, halias, if_neg (by decide)]
    apply List.foldl_ext
    intro log m _
    rw [typeNote?, if_pos halias]
    rfl
  · rw [hcond, Bool.eq_false_iff.mpr halias, if_pos (by decide)]
    have hidle : ∀ log m, (typeNote? name members m).elim log (report log) = log := by
      intro log m
      rw [typeNote?, if_neg halias]
      rfl
    simp only [hidle]
    exact (List.foldl_fixed members).symm

/-- What is to be reported in groups, one group after another. -/
def notesOf (note? : String → List (Declaration × Nat) → Declaration × Nat →
    Option (Nat × Finding)) (groups : Groups) : Log :=
  groups.flatMap fun group => group.2.filterMap (note? group.1 group.2)

theorem scan_eq (values types : Groups) : scan values types =
    (notesOf typeNote? types).foldl report ((notesOf valueNote? values).foldl report []) := by
  rw [scan, notesOf, notesOf, List.foldl_flatMap, List.foldl_flatMap]
  simp only [← scanValues_eq, ← scanTypes_eq]

/-- What is to be reported of a declaration depends on the others by its name and on nothing else,
in whatever order the groups come. -/
theorem mem_notesOf_iff {note? : String → List (Declaration × Nat) → Declaration × Nat →
      Option (Nat × Finding)} {finding? : List Declaration → Declaration → Option Finding}
    (hentry : ∀ {name members} {m : Declaration × Nat}, m.1.name = name →
      note? name members m = (finding? (members.map Prod.fst) m.1).map (m.2, ·))
    {groups : Groups} (hgroups : groups.Perm (groupsOf stands all)) :
    (i, x) ∈ notesOf note? groups ↔ ∃ d, all[i]? = some d ∧ stands d ∧
      finding? (named stands all d.name) d = some x := by
  simp only [notesOf, List.mem_flatMap, hgroups.mem_iff, List.mem_filterMap]
  constructor
  · rintro ⟨⟨name, members⟩, hgroup, ⟨d, j⟩, hm, hx⟩
    obtain ⟨-, rfl⟩ := mem_groupsOf_iff.mp hgroup
    obtain ⟨hm, hname⟩ := List.mem_filter.mp hm
    obtain ⟨hm, hstands⟩ := List.mem_filter.mp hm
    have hname := beq_iff_eq.mp hname
    rw [hentry hname, map_fst_members, ← hname] at hx
    obtain ⟨y, hy, heq⟩ := Option.map_eq_some_iff.mp hx
    obtain ⟨rfl, rfl⟩ := Prod.mk.inj heq
    exact ⟨d, List.mem_zipIdx_iff_getElem?.mp hm, hstands, hy⟩
  · rintro ⟨d, hd, hstands, hx⟩
    have hm : (d, i) ∈ all.zipIdx := List.mem_zipIdx_iff_getElem?.mpr hd
    refine ⟨(d.name, _), mem_groupsOf_iff.mpr ⟨⟨(d, i), hm, hstands, rfl⟩, rfl⟩, (d, i), ?_, ?_⟩
    · exact List.mem_filter.mpr ⟨List.mem_filter.mpr ⟨hm, hstands⟩, beq_self_eq_true _⟩
    · dsimp only
      rw [hentry (m := (d, i)) rfl, map_fst_members, hx]
      rfl

theorem declarationFinding?_eq_some_iff : declarationFinding? all d = some x ↔
    (standsAsValue d ∧ valueFinding? (named standsAsValue all d.name) d = some x) ∨
      ((standsAsValue d → valueFinding? (named standsAsValue all d.name) d = none) ∧
        standsAsType d ∧ typeFinding? (named standsAsType all d.name) d = some x) := by
  unfold declarationFinding? named
  rw [Option.or_eq_some_iff]
  cases standsAsValue d <;> cases standsAsType d <;> simp

theorem mem_scan_iff {values types : Groups} (hvalues : values.Perm (groupsOf standsAsValue all))
    (htypes : types.Perm (groupsOf standsAsType all)) :
    (i, x) ∈ scan values types ↔ ∃ d, all[i]? = some d ∧ declarationFinding? all d = some x := by
  have hvalue {i : Nat} {x : Finding} := mem_notesOf_iff (i := i) (x := x) valueNote?_eq hvalues
  have htype {i : Nat} {x : Finding} := mem_notesOf_iff (i := i) (x := x) typeNote?_eq htypes
  have honeValue : ∀ i x y, (i, x) ∈ notesOf valueNote? values →
      (i, y) ∈ notesOf valueNote? values → x = y := by
    intro i x y hx hy
    obtain ⟨d, hd, -, hx⟩ := hvalue.mp hx
    obtain ⟨e, he, -, hy⟩ := hvalue.mp hy
    obtain rfl := Option.some.inj (hd.symm.trans he)
    exact Option.some.inj (hx.symm.trans hy)
  have honeType : ∀ i x y, (i, x) ∈ notesOf typeNote? types →
      (i, y) ∈ notesOf typeNote? types → x = y := by
    intro i x y hx hy
    obtain ⟨d, hd, -, hx⟩ := htype.mp hx
    obtain ⟨e, he, -, hy⟩ := htype.mp hy
    obtain rfl := Option.some.inj (hd.symm.trans he)
    exact Option.some.inj (hx.symm.trans hy)
  have hfirst : ∀ {i x}, (i, x) ∈ (notesOf valueNote? values).foldl report [] ↔
      (i, x) ∈ notesOf valueNote? values := by
    intro i x
    rw [mem_foldl_report_iff honeValue]
    simp
  have hreported : i ∈ ((notesOf valueNote? values).foldl report []).map Prod.fst ↔
      ∃ y d, all[i]? = some d ∧ standsAsValue d ∧
        valueFinding? (named standsAsValue all d.name) d = some y := by
    simp only [List.mem_map, Prod.exists, exists_and_right, exists_eq_right, hfirst, hvalue]
  rw [scan_eq, mem_foldl_report_iff honeType, hfirst, hreported, hvalue, htype]
  cases hd : all[i]? with
  | none => simp
  | some d =>
    simp only [Option.some.injEq, exists_eq_left', declarationFinding?_eq_some_iff,
      exists_and_left, ← Option.isSome_iff_exists, not_and, Option.not_isSome_iff_eq_none]

/-! ### Order -/

/-- Whatever order the groups come in, one thing at most is reported of each declaration, and it is
what is reported of it in the order of the text. -/
theorem scan_perm {values types : Groups} (hvalues : values.Perm (groupsOf standsAsValue all))
    (htypes : types.Perm (groupsOf standsAsType all)) :
    ((scan values types).map Prod.snd).Perm (all.filterMap (declarationFinding? all)) := by
  have hempty : (([] : Log).map Prod.fst).Nodup := List.nodup_nil
  have hnodup : (scan values types).Nodup := by
    rw [scan_eq]
    exact List.Nodup.of_map Prod.fst (nodup_foldl_report (nodup_foldl_report hempty))
  -- Two declarations may be reported alike, and only their places keep them apart.
  have hplaces : (all.zipIdx.filterMap fun m =>
      (declarationFinding? all m.1).map (m.2, ·)).Nodup := by
    have hapart : (all.zipIdx.map Prod.snd).Nodup := by
      rw [List.zipIdx_map_snd]
      exact List.nodup_range'
    rw [List.Nodup, List.pairwise_map] at hapart
    rw [List.Nodup, List.pairwise_filterMap]
    refine hapart.imp fun {m n} hne x hx y hy hxy => hne ?_
    obtain ⟨_, -, rfl⟩ := Option.map_eq_some_iff.mp hx
    obtain ⟨_, -, rfl⟩ := Option.map_eq_some_iff.mp hy
    exact congrArg Prod.fst hxy
  have hperm : (scan values types).Perm
      (all.zipIdx.filterMap fun m => (declarationFinding? all m.1).map (m.2, ·)) := by
    rw [List.perm_ext_iff_of_nodup hnodup hplaces]
    rintro ⟨i, x⟩
    rw [mem_scan_iff hvalues htypes, List.mem_filterMap]
    constructor
    · rintro ⟨d, hd, hx⟩
      exact ⟨(d, i), List.mem_zipIdx_iff_getElem?.mpr hd, by rw [hx]; rfl⟩
    · rintro ⟨⟨d, j⟩, hd, hx⟩
      obtain ⟨y, hy, heq⟩ := Option.map_eq_some_iff.mp hx
      obtain ⟨rfl, rfl⟩ := Prod.mk.inj heq
      exact ⟨d, List.mem_zipIdx_iff_getElem?.mp hd, hy⟩
  have hall : (all.zipIdx.filterMap fun m =>
      (declarationFinding? all m.1).map (m.2, ·)).map Prod.snd =
        all.filterMap (declarationFinding? all) := by
    conv_rhs => rw [← List.zipIdx_map_fst 0 all, List.filterMap_map]
    rw [List.map_filterMap]
    simp only [Option.map_map, Function.comp_def, Option.map_id']
    rw [List.zipIdx_map_fst]
  rw [← hall]
  exact hperm.map Prod.snd

/-! ### What is reported -/

/-- What is to be said of the declaration of a value. Where names are declared for a block, that is
the matter with all that are; otherwise it is a class that nothing else may share its name with, and
otherwise a function that has several bodies. -/
inductive RedeclaresValue (all : List Declaration) (d : Declaration) : Finding → Prop where
  | blockScoped (hvalue : standsAsValue d) (hscoped : d.kind.isBlockScoped)
      (hagain : 2 ≤ (named standsAsValue all d.name).length) :
      RedeclaresValue all d (redeclared d.name d)
  | withClass (hvalue : standsAsValue d)
      (hscoped : ∀ e ∈ named standsAsValue all d.name, ¬e.kind.isBlockScoped)
      (hclass : ∃ e ∈ named standsAsValue all d.name, e.kind = .classType)
      (hagain : 2 ≤ (named standsAsValue all d.name).length) :
      RedeclaresValue all d (duplicate d.name d)
  | implemented (hvalue : standsAsValue d) (hbody : isImplementation d)
      (hscoped : ∀ e ∈ named standsAsValue all d.name, ¬e.kind.isBlockScoped)
      (hclass : ∀ e ∈ named standsAsValue all d.name, e.kind ≠ .classType)
      (hagain : 2 ≤ ((named standsAsValue all d.name).filter isImplementation).length) :
      RedeclaresValue all d (implementedAgain d)

/-- What is to be said of a declaration. As one of a type it shares its name with no alias, unless
something is to be said of it already. -/
inductive Redeclares (all : List Declaration) (d : Declaration) : Finding → Prop where
  | value {x : Finding} (hx : RedeclaresValue all d x) : Redeclares all d x
  | type (hvalue : ∀ x, ¬RedeclaresValue all d x) (htype : standsAsType d)
      (halias : ∃ e ∈ named standsAsType all d.name, e.kind = .typeAlias)
      (hagain : 2 ≤ (named standsAsType all d.name).length) :
      Redeclares all d (duplicate d.name d)

theorem mem_named (hd : d ∈ all) (hstands : stands d) : d ∈ named stands all d.name :=
  List.mem_filter.mpr ⟨List.mem_filter.mpr ⟨hd, beq_self_eq_true _⟩, hstands⟩

theorem redeclaresValue_iff (hd : d ∈ all) : RedeclaresValue all d x ↔
    standsAsValue d ∧ valueFinding? (named standsAsValue all d.name) d = some x := by
  rw [valueFinding?]
  have hbodies : ((named standsAsValue all d.name).filter isImplementation).length ≤
      (named standsAsValue all d.name).length := List.length_filter_le _ _
  constructor
  · intro h
    cases h with
    | blockScoped hvalue hscoped hagain =>
      have hany : (named standsAsValue all d.name).any (·.kind.isBlockScoped) :=
        List.any_eq_true.mpr ⟨d, mem_named hd hvalue, hscoped⟩
      refine ⟨hvalue, ?_⟩
      rw [if_pos (by simp only [hany, Bool.and_true, decide_eq_true_eq]; omega), if_pos hscoped]
      rfl
    | withClass hvalue hscoped hclass hagain =>
      have hnone : (named standsAsValue all d.name).any (·.kind.isBlockScoped) = false :=
        List.any_eq_false.mpr hscoped
      have hany : (named standsAsValue all d.name).any (·.kind == .classType) :=
        List.any_eq_true.mpr (hclass.imp fun e he => ⟨he.1, beq_iff_eq.mpr he.2⟩)
      refine ⟨hvalue, ?_⟩
      rw [if_neg (by simp [hnone]),
        if_pos (by simp only [hany, Bool.and_true, decide_eq_true_eq]; omega)]
      rfl
    | implemented hvalue hbody hscoped hclass hagain =>
      have hnone : (named standsAsValue all d.name).any (·.kind.isBlockScoped) = false :=
        List.any_eq_false.mpr hscoped
      have hplain : (named standsAsValue all d.name).any (·.kind == .classType) = false :=
        List.any_eq_false.mpr fun e he => by simpa using hclass e he
      refine ⟨hvalue, ?_⟩
      rw [if_neg (by simp [hnone]), if_neg (by simp [hplain]),
        if_pos (by simp only [hbody, Bool.true_and, decide_eq_true_eq]; omega)]
      rfl
  · rintro ⟨hvalue, h⟩
    split at h
    case isTrue hagain =>
      obtain ⟨hagain, -⟩ := Bool.and_eq_true_iff.mp hagain
      split at h
      case isTrue hscoped =>
        cases h
        exact .blockScoped hvalue hscoped (of_decide_eq_true hagain)
      case isFalse => cases h
    case isFalse hunscoped =>
      -- A group of one has neither a class nor bodies to report, so it is no exception here.
      have hscoped (hagain : 2 ≤ (named standsAsValue all d.name).length) :
          ∀ e ∈ named standsAsValue all d.name, ¬e.kind.isBlockScoped := by
        intro e he hkind
        exact hunscoped (Bool.and_eq_true_iff.mpr
          ⟨decide_eq_true hagain, List.any_eq_true.mpr ⟨e, he, hkind⟩⟩)
      split at h
      case isTrue hagain =>
        obtain ⟨hagain, hclass⟩ := Bool.and_eq_true_iff.mp hagain
        have hagain := of_decide_eq_true hagain
        obtain ⟨e, he, hkind⟩ := List.any_eq_true.mp hclass
        cases h
        exact .withClass hvalue (hscoped hagain) ⟨e, he, beq_iff_eq.mp hkind⟩ hagain
      case isFalse hplain =>
        split at h
        case isTrue hbody =>
          obtain ⟨hbody, hagain⟩ := Bool.and_eq_true_iff.mp hbody
          have hagain := of_decide_eq_true hagain
          have hlong : 2 ≤ (named standsAsValue all d.name).length := Nat.le_trans hagain hbodies
          cases h
          refine .implemented hvalue hbody (hscoped hlong) ?_ hagain
          intro e he hkind
          exact hplain (Bool.and_eq_true_iff.mpr
            ⟨decide_eq_true hlong, List.any_eq_true.mpr ⟨e, he, beq_iff_eq.mpr hkind⟩⟩)
        case isFalse => cases h

theorem redeclares_iff (hd : d ∈ all) :
    Redeclares all d x ↔ declarationFinding? all d = some x := by
  have hvalue {x : Finding} := redeclaresValue_iff (x := x) hd
  rw [declarationFinding?_eq_some_iff, ← redeclaresValue_iff hd]
  have hfresh : (standsAsValue d → valueFinding? (named standsAsValue all d.name) d = none) ↔
      ∀ x, ¬RedeclaresValue all d x := by
    simp only [hvalue, not_and, Option.eq_none_iff_forall_ne_some]
    exact ⟨fun h x hd => h hd x, fun h hd x => h x hd⟩
  have hagain : typeFinding? (named standsAsType all d.name) d = some x ↔
      (∃ e ∈ named standsAsType all d.name, e.kind = .typeAlias) ∧
        2 ≤ (named standsAsType all d.name).length ∧ duplicate d.name d = x := by
    have hcond : (decide ((named standsAsType all d.name).length > 1) &&
        (named standsAsType all d.name).any (·.kind == .typeAlias)) ↔
          (∃ e ∈ named standsAsType all d.name, e.kind = .typeAlias) ∧
            2 ≤ (named standsAsType all d.name).length := by
      simp only [Bool.and_eq_true, decide_eq_true_eq, List.any_eq_true, beq_iff_eq]
      exact and_comm
    rw [typeFinding?, Option.ite_none_right_eq_some, hcond, Option.some.injEq, and_assoc]
    rfl
  rw [hfresh, hagain]
  constructor
  · intro h
    cases h with
    | value hx => exact .inl hx
    | type hvalue htype halias hlong => exact .inr ⟨hvalue, htype, halias, hlong, rfl⟩
  · rintro (hx | ⟨hvalue, htype, halias, hlong, rfl⟩)
    · exact .value hx
    · exact .type hvalue htype halias hlong

theorem Redeclares.offset_eq (h : Redeclares all d x) : x.offset = d.nameRange.start := by
  cases h with
  | value hx => cases hx <;> rfl
  | type => rfl

/-- What is reported of declarations that are made again, by the places of their names. -/
def redeclarations (all : List Declaration) : List (Declaration × Finding) :=
  (all.filterMap fun d => (declarationFinding? all d).map (d, ·)).mergeSort
    fun x y => x.1.nameRange.start ≤ y.1.nameRange.start

theorem mem_redeclarations_iff :
    (d, x) ∈ redeclarations all ↔ d ∈ all ∧ Redeclares all d x := by
  rw [redeclarations, List.mem_mergeSort, List.mem_filterMap]
  constructor
  · rintro ⟨e, he, hx⟩
    obtain ⟨y, hy, heq⟩ := Option.map_eq_some_iff.mp hx
    obtain ⟨rfl, rfl⟩ := Prod.mk.inj heq
    exact ⟨he, (redeclares_iff he).mpr hy⟩
  · rintro ⟨hd, hx⟩
    exact ⟨d, hd, by rw [(redeclares_iff hd).mp hx]; rfl⟩

theorem pairwise_redeclarations (hapart : (all.map (·.nameRange.start)).Nodup) :
    (redeclarations all).Pairwise fun x y => x.1.nameRange.start < y.1.nameRange.start := by
  have hranks := Sorting.ranks_natKey fun x : Declaration × Finding => x.1.nameRange.start
  have hsorted : (redeclarations all).Pairwise fun x y =>
      decide (x.1.nameRange.start ≤ y.1.nameRange.start) :=
    List.pairwise_mergeSort hranks.trans hranks.total _
  have hne : (redeclarations all).Pairwise fun x y =>
      x.1.nameRange.start ≠ y.1.nameRange.start := by
    refine ((List.mergeSort_perm _ _).pairwise_iff Ne.symm).mpr ?_
    rw [List.pairwise_filterMap]
    refine (List.pairwise_map.mp hapart).imp fun hde x hx y hy => ?_
    obtain ⟨_, -, rfl⟩ := Option.map_eq_some_iff.mp hx
    obtain ⟨_, -, rfl⟩ := Option.map_eq_some_iff.mp hy
    exact hde
  exact hsorted.imp₂ (fun x y hle hxy => Nat.lt_of_le_of_ne (of_decide_eq_true hle) hxy) hne

theorem map_snd_redeclarations : (redeclarations all).map Prod.snd =
    (all.filterMap (declarationFinding? all)).mergeSort fun x y => x.offset ≤ y.offset := by
  have hoffset : ∀ x ∈ all.filterMap fun d => (declarationFinding? all d).map (d, ·),
      x.2.offset = x.1.nameRange.start := by
    intro x hx
    obtain ⟨d, hd, hx⟩ := List.mem_filterMap.mp hx
    obtain ⟨y, hy, rfl⟩ := Option.map_eq_some_iff.mp hx
    exact ((redeclares_iff hd).mpr hy).offset_eq
  rw [redeclarations, List.map_mergeSort (s := fun x y => decide (x.offset ≤ y.offset)),
    List.map_filterMap]
  · simp only [Option.map_map, Function.comp_def, Option.map_id']
  · intro x hx y hy
    rw [hoffset x hx, hoffset y hy]

theorem nodup_offsets (hapart : (all.map (·.nameRange.start)).Nodup) :
    ((all.filterMap (declarationFinding? all)).map (·.offset)).Nodup := by
  apply List.pairwise_map.mpr
  rw [List.pairwise_filterMap]
  refine (List.pairwise_map.mp hapart).imp_of_mem fun hd he hde x hx y hy hxy => hde ?_
  rw [← ((redeclares_iff hd).mpr hx).offset_eq, hxy, ((redeclares_iff he).mpr hy).offset_eq]

theorem filter_findings {g : Program} (r : ModuleRecord) (a : ModuleAnalysis)
    (memo : AnalysisMemo) :
    (findings g r a memo).1.filter (·.code ∈ [2300, 2393, 2451]) =
      a.declarations.filterMap (declarationFinding? a.declarations) := by
  have hmodules : ∀ {xs : List Finding}, (∀ x ∈ xs, x.concernsModules) →
      xs.filter (·.code ∈ [2300, 2393, 2451]) = [] := by
    intro xs hxs
    refine List.filter_eq_nil_iff.mpr fun x hx => ?_
    have hcode := hxs x hx
    rw [Finding.concernsModules] at hcode
    simp only [List.mem_cons, List.not_mem_nil, or_false] at hcode ⊢
    rw [decide_eq_true_eq]
    omega
  have himports : ∀ x ∈ (a.imports.mapM (importFindings g) memo).1.flatten,
      x.concernsModules := by
    intro x hx
    obtain ⟨found, hfound, hx⟩ := List.mem_flatten.mp hx
    obtain ⟨i, -, memo', rfl⟩ := Analyzing.mem_mapM hfound
    exact concernsModules_of_mem_importFindings hx
  have hreExports : ∀ memo', ∀ x ∈ (a.reExports.mapM (reExportFindings g) memo').1.flatten,
      x.concernsModules := by
    intro memo' x hx
    obtain ⟨found, hfound, hx⟩ := List.mem_flatten.mp hx
    obtain ⟨i, -, memo', rfl⟩ := Analyzing.mem_mapM hfound
    exact concernsModules_of_mem_reExportFindings hx
  have hunused : ((if g.options.noUnusedLocals then
      (unusedBindings a).map fun b => ⟨b.range.start, 6133, unusedText b.localName⟩
      else []) : List Finding).filter (·.code ∈ [2300, 2393, 2451]) = [] := by
    refine List.filter_eq_nil_iff.mpr fun x hx => ?_
    split at hx
    · obtain ⟨b, -, rfl⟩ := List.mem_map.mp hx
      simp
    · cases hx
  have htree : (treeFindings g.options r.text.toList none r.tree).filter
      (·.code ∈ [2300, 2393, 2451]) = [] := by
    refine List.filter_eq_nil_iff.mpr fun x hx => ?_
    have hcode := concernsTree_of_mem_treeFindings hx
    rw [Finding.concernsTree] at hcode
    simp only [List.mem_cons, List.not_mem_nil, or_false] at hcode ⊢
    rw [decide_eq_true_eq]
    omega
  have hdeclarations : (a.declarations.filterMap (declarationFinding? a.declarations)).filter
      (·.code ∈ [2300, 2393, 2451]) =
        a.declarations.filterMap (declarationFinding? a.declarations) := by
    refine List.filter_eq_self.mpr fun x hx => ?_
    obtain ⟨d, -, hx⟩ := List.mem_filterMap.mp hx
    exact decide_eq_true (code_of_declarationFinding? hx)
  rw [findings_run, ownFindings, List.filter_append, List.filter_append, List.filter_append,
    List.filter_append, hmodules himports, hmodules (hreExports _), hunused, htree, hdeclarations,
    List.nil_append, List.nil_append, List.append_nil, List.append_nil]

end BindingCheck

/-- The errors of meaning of a module, if declarations of one name come up in these orders. -/
def Program.semanticDiagnosticsInOrder (g : Program) (r : ModuleRecord) (a : ModuleAnalysis)
    (values types : BindingCheck.Groups) : Analyzing (List Diagnostic) := do
  if r.isLibrary || (!r.kind.isTypeScript && !g.options.checkJs) then return []
  else
    let findings ← BindingCheck.findingsInOrder g r a values types
    return (findings.mergeSort fun x y => x.offset ≤ y.offset).map fun x =>
      .inModule .semantic .error x.code r x.offset x.text

/-- Whether errors of meaning are looked for in the module. -/
def ModuleRecord.IsChecked (o : CompilerOptions) (r : ModuleRecord) : Prop :=
  r.isLibrary = false ∧ (r.kind.isTypeScript ∨ o.checkJs)

theorem Program.semanticDiagnosticsInOrder_eq {g : Program} {r : ModuleRecord} {a : ModuleAnalysis}
    (hapart : (a.declarations.map (·.nameRange.start)).Nodup) {values types : BindingCheck.Groups}
    (hvalues : values.Perm (BindingCheck.groupsOf BindingCheck.standsAsValue a.declarations))
    (htypes : types.Perm (BindingCheck.groupsOf BindingCheck.standsAsType a.declarations)) :
    g.semanticDiagnosticsInOrder r a values types = g.semanticDiagnostics r a := by
  unfold semanticDiagnosticsInOrder semanticDiagnostics
  split
  · rfl
  · funext memo
    simp only [Analyzing.bind_run, Analyzing.pure_run, BindingCheck.findingsInOrder,
      BindingCheck.findings, List.append_assoc]
    congr 2
    rw [← List.append_assoc, Sorting.mergeSort_append_perm _ _
      (BindingCheck.scan_perm hvalues htypes) (BindingCheck.nodup_offsets hapart),
      List.append_assoc]

/-- Nothing is reported of declarations but what they are wrong in, in the order of the text. -/
theorem Program.filter_semanticDiagnostics {g : Program} {r : ModuleRecord}
    (hchecked : r.IsChecked g.options) (a : ModuleAnalysis) (memo : AnalysisMemo) :
    (g.semanticDiagnostics r a memo).1.filter (·.code ∈ [2300, 2393, 2451]) =
      (BindingCheck.redeclarations a.declarations).map fun x =>
        .inModule .semantic .error x.2.code r x.2.offset x.2.text := by
  have hon : ¬(r.isLibrary || (!r.kind.isTypeScript && !g.options.checkJs)) := by
    rw [hchecked.1]
    rcases hchecked.2 with h | h <;> simp [h]
  have hranks := Sorting.ranks_natKey fun x : BindingCheck.Finding => x.offset
  have hcode : ((fun y : Diagnostic => decide (y.code ∈ [2300, 2393, 2451])) ∘
      fun x : BindingCheck.Finding =>
        Diagnostic.inModule .semantic .error x.code r x.offset x.text) =
      fun x => decide (x.code ∈ [2300, 2393, 2451]) := rfl
  rw [semanticDiagnostics, if_neg hon, Analyzing.bind_run, Analyzing.pure_run, List.filter_map,
    hcode, ← hranks.mergeSort_filter, BindingCheck.filter_findings,
    ← BindingCheck.map_snd_redeclarations, List.map_map]
  rfl

theorem Program.semanticDiagnostics_of_not_isChecked {g : Program} {r : ModuleRecord}
    (hchecked : ¬r.IsChecked g.options) (a : ModuleAnalysis) :
    g.semanticDiagnostics r a = pure [] := by
  refine if_pos ?_
  by_contra hon
  apply hchecked
  simpa [ModuleRecord.IsChecked, or_iff_not_imp_left] using hon

/-- In whatever order names come up, the same is reported in the same order: of each declaration
one thing at most, and that is what `BindingCheck.Redeclares` says. -/
theorem Program.redeclarations_in_any_order (g : Program) (r : ModuleRecord) (a : ModuleAnalysis)
    (hapart : (a.declarations.map (·.nameRange.start)).Nodup) :
    (∀ values types : BindingCheck.Groups,
      values.Perm (BindingCheck.groupsOf BindingCheck.standsAsValue a.declarations) →
      types.Perm (BindingCheck.groupsOf BindingCheck.standsAsType a.declarations) →
      g.semanticDiagnosticsInOrder r a values types = g.semanticDiagnostics r a) ∧
    ∃ found : List (Declaration × BindingCheck.Finding),
      (found.Pairwise fun x y => x.1.nameRange.start < y.1.nameRange.start) ∧
      (∀ d x, (d, x) ∈ found ↔ r.IsChecked g.options ∧ d ∈ a.declarations ∧
        BindingCheck.Redeclares a.declarations d x) ∧
      ∀ memo, (g.semanticDiagnostics r a memo).1.filter (·.code ∈ [2300, 2393, 2451]) =
        found.map fun x =>
          .inModule .semantic .error x.2.code r x.1.nameRange.start x.2.text := by
  refine ⟨fun values types hvalues htypes => semanticDiagnosticsInOrder_eq hapart hvalues htypes,
    ?_⟩
  by_cases hchecked : r.IsChecked g.options
  · refine ⟨BindingCheck.redeclarations a.declarations,
      BindingCheck.pairwise_redeclarations hapart, ?_, ?_⟩
    · intro d x
      rw [BindingCheck.mem_redeclarations_iff]
      exact ⟨fun h => ⟨hchecked, h⟩, fun h => h.2⟩
    · intro memo
      rw [filter_semanticDiagnostics hchecked]
      refine List.map_congr_left fun x hx => ?_
      rw [(BindingCheck.mem_redeclarations_iff.mp hx).2.offset_eq]
  · refine ⟨[], .nil, ?_, ?_⟩
    · intro d x
      exact ⟨fun h => absurd h List.not_mem_nil, fun h => absurd h.1 hchecked⟩
    · intro memo
      rw [semanticDiagnostics_of_not_isChecked hchecked]
      rfl

/-- `class A`, `type A`, `let b`, `var b`, and two bodies of a function `f`. -/
def declaredAgain : ModuleAnalysis where
  declarations :=
    [⟨"A", .classType, ⟨6, 7⟩, false, false⟩, ⟨"A", .typeAlias, ⟨16, 17⟩, false, false⟩,
      ⟨"b", .let, ⟨27, 28⟩, false, false⟩, ⟨"b", .var, ⟨34, 35⟩, false, false⟩,
      ⟨"f", .function, ⟨46, 47⟩, false, false⟩, ⟨"f", .function, ⟨62, 63⟩, false, false⟩]

/-- `Program.redeclarations_in_any_order` where the names come up the other way round. -/
theorem declaredAgain_reported_in_reverse :
    let g : Program := ⟨{}, []⟩
    let r : ModuleRecord := .ofTree "m.ts" "" (.script 0 [])
    let all := declaredAgain.declarations
    (g.semanticDiagnosticsInOrder r declaredAgain
      (BindingCheck.groupsOf BindingCheck.standsAsValue all).reverse
      (BindingCheck.groupsOf BindingCheck.standsAsType all).reverse {}).1.map (·.code) =
        [2300, 2300, 2451, 2393, 2393] := by
  intro g r all
  have hapart : (all.map (·.nameRange.start)).Nodup := by decide
  obtain ⟨horder, -⟩ := g.redeclarations_in_any_order r declaredAgain hapart
  rw [horder _ _ (List.reverse_perm _) (List.reverse_perm _)]
  cbv

end CompilingProxy
