import CompilingProxy.Proofs.Program.Memo
import Mathlib.Logic.Relation

/-!
# What `export *` adds up to

The walk over `export *` shares what it has visited among all ways, so that on the way a module's
set may lack what was found elsewhere already. What each part of the walk adds is therefore told of
the modules that it visits first; the walk as a whole visits all that is reached, and nothing else.
-/

namespace CompilingProxy

open Analyzing
open Relation (ReflTransGen)

/-- The name is one that something is exported again by, alone or as a whole module. -/
def ReExport.Gives (e : ReExport) (name : String) : Prop :=
  name ∈ e.names.map (·.2) ∨ e.namespaceName = some name

/-- The module itself exports the name, or exports it again by name. -/
def ModuleAnalysis.Exports (a : ModuleAnalysis) (name : String) : Prop :=
  name ∈ a.localExports ∨ ∃ e ∈ a.reExports, e.Gives name

namespace Program

def LeadsTo (g : Program) (specifier : String) (path : ModulePath) : Prop :=
  ModulePath.isRootAbsolute specifier.toList ∧ ModulePath.parse? specifier = some path ∧
    g.hasFile path

section

variable (g : Program) (view : ModuleRecord → ModuleAnalysis)

/-- The first module exports all that the second one exports. -/
def StarLeads (p q : ModulePath) : Prop :=
  ∃ r, g.file? p = some r ∧ ∃ e ∈ (view r).reExports, e.star ∧ g.LeadsTo e.specifier q

def ExportsAt (p : ModulePath) (name : String) : Prop :=
  ∃ r, g.file? p = some r ∧ (view r).Exports name

/-- Not all names that the module exports can be known from files. -/
def OpenAt (p : ModulePath) : Prop :=
  ∃ r, g.file? p = some r ∧ ((view r).hasExportAssignment ∨
    ∃ e ∈ (view r).reExports, e.star ∧ ∀ q, ¬g.LeadsTo e.specifier q)

/-- The known files that were not visited. -/
def unvisited (visited : List ModulePath) : Nat :=
  (g.files.filter fun r => !visited.contains r.path).length

/-- What a part of the walk comes to that begins at those modules, besides what is given. -/
structure Gathers (begins : ModulePath → Prop) (visited : List ModulePath)
    (names : String → Prop) (isOpen : Prop) (out : ExportSet × List ModulePath) : Prop where
  kept : visited ⊆ out.2
  begun : ∀ p, begins p → p ∈ out.2
  reached : ∀ q ∈ out.2, q ∈ visited ∨ ∃ p, begins p ∧ ReflTransGen (g.StarLeads view) p q
  closed : ∀ q ∈ out.2, q ∈ visited ∨ ∀ q', g.StarLeads view q q' → q' ∈ out.2
  names_iff : ∀ n, n ∈ out.1.names ↔
    names n ∨ ∃ q ∈ out.2, q ∉ visited ∧ g.ExportsAt view q n
  isOpen_iff : out.1.isOpen ↔ isOpen ∨ ∃ q ∈ out.2, q ∉ visited ∧ g.OpenAt view q

end

variable {g : Program} {view : ModuleRecord → ModuleAnalysis} {memo : AnalysisMemo}
  {visited visited' : List ModulePath} {p q : ModulePath} {specifier : String}

/-! ### Steps -/

theorem LeadsTo.unique (hp : g.LeadsTo specifier p) (hq : g.LeadsTo specifier q) : p = q :=
  Option.some.inj (hp.2.1.symm.trans hq.2.1)

theorem resolve_eq_file_iff : (g.resolve specifier memo).1 = .file p ↔ g.LeadsTo specifier p := by
  unfold resolve LeadsTo
  by_cases hrooted : ModulePath.isRootAbsolute specifier.toList
  · rw [if_pos hrooted]
    cases hparse : ModulePath.parse? specifier with
    | none => simp [pure_run]
    | some path =>
      by_cases hfile : g.hasFile path
      · simp only [hfile, if_true, pure_run, Target.file.injEq, hrooted, Option.some.injEq,
          true_and]
        constructor
        · intro h
          subst h
          exact ⟨rfl, hfile⟩
        · intro h
          exact h.1
      · simp only [hfile, pure_run, hrooted, Option.some.injEq, true_and]
        constructor
        · intro h
          cases h
        · rintro ⟨rfl, h⟩
          exact absurd h hfile
  · rw [if_neg hrooted, bind_run, pure_run]
    constructor
    · intro h
      dsimp only at h
      split at h <;> cases h
    · intro h
      exact absurd h.1 hrooted

theorem exists_file_of_hasFile (h : g.hasFile p) : ∃ r, g.file? p = some r :=
  Option.isSome_iff_exists.mp h

theorem analysis?_run (hseen : g.Seen view memo memo) :
    (g.analysis? p memo).1 = (g.file? p).map view := by
  unfold analysis?
  cases hfile : g.file? p with
  | none => rfl
  | some r =>
    dsimp only
    rw [bind_run, pure_run, (analysisOf_run r memo).1, (hseen p r hfile).1]
    rfl

/-! ### Fuel -/

theorem unvisited_le (h : visited ⊆ visited') : g.unvisited visited' ≤ g.unvisited visited := by
  unfold unvisited
  rw [← List.countP_eq_length_filter, ← List.countP_eq_length_filter]
  apply List.countP_mono_left
  intro r _ hr
  simp only [Bool.not_eq_true', List.contains_eq_mem, decide_eq_false_iff_not] at hr ⊢
  exact fun hmem => hr (h hmem)

/-- Visiting a known file leaves less to visit. -/
theorem unvisited_lt (hp : g.hasFile p) (hnew : p ∉ visited) :
    g.unvisited (p :: visited) < g.unvisited visited := by
  obtain ⟨r, hr⟩ := exists_file_of_hasFile hp
  have hsplit : (g.files.filter fun r => !(p :: visited).contains r.path) =
      (g.files.filter fun r => !visited.contains r.path).filter fun r => r.path != p := by
    rw [List.filter_filter]
    refine List.filter_congr fun s _ => ?_
    by_cases hs : s.path = p <;> simp [hs]
  unfold unvisited
  rw [hsplit]
  apply List.length_filter_lt_length_iff_exists.mpr
  refine ⟨r, List.mem_filter.mpr ⟨List.mem_of_find?_eq_some hr, ?_⟩, ?_⟩
  · simp [path_of_file? hr, hnew]
  · simp [path_of_file? hr]

/-! ### Parts of the walk -/

theorem exists_new_iff {mid out : List ModulePath} {holds : ModulePath → Prop}
    (hmid : visited ⊆ mid) (hout : mid ⊆ out) :
    (∃ q ∈ out, q ∉ visited ∧ holds q) ↔
      (∃ q ∈ mid, q ∉ visited ∧ holds q) ∨ ∃ q ∈ out, q ∉ mid ∧ holds q := by
  constructor
  · rintro ⟨q, hq, hnew, hholds⟩
    by_cases hknown : q ∈ mid
    · exact .inl ⟨q, hknown, hnew, hholds⟩
    · exact .inr ⟨q, hq, hknown, hholds⟩
  · rintro (⟨q, hq, hnew, hholds⟩ | ⟨q, hq, hnew, hholds⟩)
    · exact ⟨q, hout hq, hnew, hholds⟩
    · exact ⟨q, hq, fun hknown => hnew (hmid hknown), hholds⟩

theorem exists_new_self {holds : ModulePath → Prop} :
    (∃ q ∈ visited, q ∉ visited ∧ holds q) ↔ False := by
  constructor
  · rintro ⟨q, hq, hnew, -⟩
    exact hnew hq
  · exact False.elim

theorem exists_new_cons {holds : ModulePath → Prop} (hnew : p ∉ visited) :
    (∃ q ∈ p :: visited, q ∉ visited ∧ holds q) ↔ holds p := by
  constructor
  · rintro ⟨q, hq, hold, hholds⟩
    rcases List.mem_cons.mp hq with rfl | hq
    · exact hholds
    · exact absurd hq hold
  · intro hholds
    exact ⟨p, List.mem_cons_self, hnew, hholds⟩

namespace Gathers

variable {begins begins' : ModulePath → Prop} {names names' : String → Prop}
  {isOpen isOpen' : Prop} {mid out : ExportSet × List ModulePath}

theorem congr (h : g.Gathers view begins visited names isOpen out)
    (hbegins : ∀ q, begins' q ↔ begins q) (hnames : ∀ n, names' n ↔ names n)
    (hopen : isOpen' ↔ isOpen) : g.Gathers view begins' visited names' isOpen' out := by
  have hsame : begins' = begins := funext fun q => propext (hbegins q)
  have hsame' : names' = names := funext fun n => propext (hnames n)
  rwa [hsame, hsame', propext hopen]

/-- A walk that ends at once gathers what is given. -/
theorem nothing {set : ExportSet} (hbegun : ∀ q, begins q → q ∈ visited) :
    g.Gathers view begins visited (· ∈ set.names) set.isOpen (set, visited) where
  kept := List.Subset.refl _
  begun := hbegun
  reached _ hq := .inl hq
  closed _ hq := .inl hq
  names_iff n := by rw [exists_new_self, or_false]
  isOpen_iff := by rw [exists_new_self, or_false]

/-- A part of the walk is followed by another one, which is given what the first one found. -/
theorem andThen {both : ModulePath → Prop}
    (h : g.Gathers view begins visited (fun _ => False) False mid)
    (h' : g.Gathers view begins' mid.2 names' isOpen' out)
    (hbegins : ∀ q, both q ↔ begins q ∨ begins' q)
    (hnames : ∀ n, names' n ↔ names n ∨ n ∈ mid.1.names)
    (hopen : isOpen' ↔ isOpen ∨ mid.1.isOpen) :
    g.Gathers view both visited names isOpen out where
  kept := List.Subset.trans h.kept h'.kept
  begun q hq := by
    rcases (hbegins q).mp hq with hq | hq
    · exact h'.kept (h.begun q hq)
    · exact h'.begun q hq
  reached q hq := by
    rcases h'.reached q hq with hmid | ⟨p, hp, hreach⟩
    · rcases h.reached q hmid with hold | ⟨p, hp, hreach⟩
      · exact .inl hold
      · exact .inr ⟨p, (hbegins p).mpr (.inl hp), hreach⟩
    · exact .inr ⟨p, (hbegins p).mpr (.inr hp), hreach⟩
  closed q hq := by
    rcases h'.closed q hq with hmid | hall
    · rcases h.closed q hmid with hold | hall
      · exact .inl hold
      · exact .inr fun q' hstep => h'.kept (hall q' hstep)
    · exact .inr hall
  names_iff n := by
    rw [h'.names_iff, hnames, h.names_iff, exists_new_iff h.kept h'.kept, false_or, or_assoc]
  isOpen_iff := by
    rw [h'.isOpen_iff, hopen, h.isOpen_iff, exists_new_iff h.kept h'.kept, false_or, or_assoc]

/-- A walk that begins at one module goes on with all that this leads to. -/
theorem root (hnew : p ∉ visited)
    (h : g.Gathers view (g.StarLeads view p) (p :: visited) (g.ExportsAt view p)
      (g.OpenAt view p) out) :
    g.Gathers view (· = p) visited (fun _ => False) False out where
  kept := List.Subset.trans (List.subset_cons_self p visited) h.kept
  begun q hq := by
    subst hq
    exact h.kept List.mem_cons_self
  reached q hq := by
    rcases h.reached q hq with hold | ⟨q', hstep, hreach⟩
    · rcases List.mem_cons.mp hold with rfl | hold
      · exact .inr ⟨q, rfl, .refl⟩
      · exact .inl hold
    · exact .inr ⟨p, rfl, .head hstep hreach⟩
  closed q hq := by
    rcases h.closed q hq with hold | hall
    · rcases List.mem_cons.mp hold with rfl | hold
      · exact .inr h.begun
      · exact .inl hold
    · exact .inr hall
  names_iff n := by
    rw [h.names_iff, exists_new_iff (List.subset_cons_self p visited) h.kept,
      exists_new_cons hnew, false_or]
  isOpen_iff := by
    rw [h.isOpen_iff, exists_new_iff (List.subset_cons_self p visited) h.kept,
      exists_new_cons hnew, false_or]

/-- From nothing visited, the walk visits what can be reached and nothing else. -/
theorem mem_iff (h : g.Gathers view (· = p) [] names isOpen out) :
    q ∈ out.2 ↔ ReflTransGen (g.StarLeads view) p q := by
  constructor
  · intro hq
    rcases h.reached q hq with hold | ⟨p', rfl, hreach⟩
    · cases hold
    · exact hreach
  · intro hreach
    induction hreach with
    | refl => exact h.begun p rfl
    | tail _ hstep ih =>
      rcases h.closed _ ih with hold | hall
      · cases hold
      · exact hall _ hstep

end Gathers

section

variable {exportsOf : List ModulePath → ModulePath → Analyzing (ExportSet × List ModulePath)}

theorem addStars_hasDefault {set : ExportSet} (rs : List ReExport) :
    (g.addStars exportsOf set visited rs memo).1.1.hasDefault = set.hasDefault := by
  induction rs generalizing set visited memo with
  | nil => rfl
  | cons e rs ih =>
    rw [addStars]
    split
    · exact ih
    · rw [bind_run]
      cases (g.resolve e.specifier memo).1 with
      | file target => exact ih
      | ambient => exact ih
      | unresolved => exact ih

/-- One `export *` after another, the walk gathers what each of them leads to. -/
theorem addStars_gathers
    (hrespects : ∀ visited path, Respects (g.Seen view) (exportsOf visited path))
    (hexports : ∀ {visited' path memo}, visited ⊆ visited' → g.hasFile path →
      g.Seen view memo memo → g.Gathers view (· = path) visited' (fun _ => False) False
        (exportsOf visited' path memo).1)
    (hkept : visited ⊆ visited') (hseen : g.Seen view memo memo) (set : ExportSet)
    (rs : List ReExport) :
    g.Gathers view (fun q => ∃ e ∈ rs, e.star ∧ g.LeadsTo e.specifier q) visited'
      (fun n => n ∈ set.names ∨ ∃ e ∈ rs, e.Gives n)
      (set.isOpen ∨ ∃ e ∈ rs, e.star ∧ ∀ q, ¬g.LeadsTo e.specifier q)
      (g.addStars exportsOf set visited' rs memo).1 := by
  induction rs generalizing set visited' memo with
  | nil =>
    have hnothing : g.Gathers view (fun _ => False) visited' (· ∈ set.names) set.isOpen
        (set, visited') := .nothing fun _ => False.elim
    exact hnothing.congr (by simp) (by simp) (by simp)
  | cons e rs ih =>
    rw [addStars]
    have hgives : ∀ n, e.Gives n ↔ n ∈ e.names.map (·.2) ∨ n ∈ e.namespaceName.toList := by
      intro n
      rw [Option.mem_toList]
      rfl
    split
    case isTrue hplain =>
      rw [Bool.not_eq_true'] at hplain
      refine (ih hkept hseen _).congr (fun q => ?_) (fun n => ?_) ?_
      · simp [hplain]
      · simp [hgives, or_assoc]
      · simp [hplain]
    case isFalse hstar =>
      rw [Bool.not_eq_true', Bool.not_eq_false] at hstar
      rw [bind_run]
      have hseen₁ := ((admits_seen g view).resolve e.specifier hseen).2
      cases hresolve : (g.resolve e.specifier memo).1 with
      | file target =>
        have htarget := resolve_eq_file_iff.mp hresolve
        have honly : ∀ q, g.LeadsTo e.specifier q ↔ q = target := by
          intro q
          constructor
          · intro hq
            exact hq.unique htarget
          · rintro rfl
            exact htarget
        dsimp only
        rw [bind_run]
        have hfirst := hexports hkept htarget.2.2 hseen₁
        have hrest := ih (List.Subset.trans hkept hfirst.kept) (hrespects visited' target hseen₁).2
        refine hfirst.andThen (hrest _) (fun q => ?_) (fun n => ?_) ?_
        · simp [hstar, honly]
        · simp only [hgives, List.mem_append, List.mem_cons, exists_eq_or_imp]
          grind
        · simp only [Bool.or_eq_true, List.mem_cons, exists_eq_or_imp, honly]
          grind
      | ambient | unresolved =>
        have hnone : ∀ q, ¬g.LeadsTo e.specifier q := by
          intro q hq
          cases hresolve.symm.trans (resolve_eq_file_iff.mpr hq)
        refine (ih hkept hseen₁ _).congr (fun q => ?_) (fun n => ?_) ?_
        · simp [hnone]
        · simp [hgives, or_assoc]
        · simp [hstar, hnone]

/-- A part of the walk that begins at a known file comes to all that can be reached from there
and was not visited before. -/
theorem exportsFrom_gathers {fuel : Nat} (hfuel : g.unvisited visited < fuel)
    (hfile : g.hasFile p) (hseen : g.Seen view memo memo) :
    g.Gathers view (· = p) visited (fun _ => False) False
      (g.exportsFrom fuel visited p memo).1 := by
  induction fuel generalizing visited p memo with
  | zero => cases hfuel
  | succ fuel ih =>
    rw [exportsFrom]
    by_cases hvisited : p ∈ visited
    · rw [if_pos (List.contains_iff_mem.mpr hvisited)]
      have hnothing : g.Gathers view (· = p) visited (· ∈ ({} : ExportSet).names)
          (({} : ExportSet).isOpen = true) ({}, visited) := by
        apply Gathers.nothing
        intro q hq
        rwa [hq]
      exact hnothing.congr (fun _ => .rfl) (fun n => by simp) (by simp)
    · rw [if_neg (mt List.contains_iff_mem.mp hvisited)]
      obtain ⟨r, hr⟩ := exists_file_of_hasFile hfile
      have hbound : g.unvisited (p :: visited) < fuel := by
        have := unvisited_lt hfile hvisited
        omega
      dsimp only
      rw [bind_run, analysis?_run hseen, hr]
      have hseen₁ := ((admits_seen g view).analysis? p hseen).2
      refine Gathers.root hvisited ((addStars_gathers
        ((admits_seen g view).exportsFrom fuel) ?_ (List.Subset.refl _) hseen₁ _ _).congr
        ?_ ?_ ?_)
      · intro visited' q memo' hkept hq hseen'
        exact ih (Nat.lt_of_le_of_lt (unvisited_le hkept) hbound) hq hseen'
      · intro q
        simp [StarLeads, hr]
      · intro n
        simp [ExportsAt, ModuleAnalysis.Exports, hr]
      · simp [OpenAt, hr]

theorem exportsFrom_hasDefault {fuel : Nat} {r : ModuleRecord} (hr : g.file? p = some r)
    (hseen : g.Seen view memo memo) :
    (g.exportsFrom (fuel + 1) [] p memo).1.1.hasDefault = (view r).hasDefaultExport := by
  rw [exportsFrom, if_neg (by simp)]
  dsimp only
  rw [bind_run, analysis?_run hseen, hr]
  exact addStars_hasDefault _

end

/-! ### The whole walk -/

theorem seen_self (g : Program) (memo : AnalysisMemo) : g.Seen memo.seen memo memo :=
  fun _ _ _ => ⟨rfl, rfl⟩

/-- What a known module is found to export. -/
theorem exports_spec {r : ModuleRecord} (hr : g.file? p = some r)
    (hseen : g.Seen view memo memo) :
    (∀ n, n ∈ (g.exports p memo).1.names ↔
      ∃ q, ReflTransGen (g.StarLeads view) p q ∧ g.ExportsAt view q n) ∧
    ((g.exports p memo).1.isOpen ↔
      ∃ q, ReflTransGen (g.StarLeads view) p q ∧ g.OpenAt view q) ∧
    (g.exports p memo).1.hasDefault = (view r).hasDefaultExport := by
  have hfuel : g.unvisited [] < g.files.length + 2 := by
    have := List.length_filter_le (fun r => !([] : List ModulePath).contains r.path) g.files
    unfold unvisited
    omega
  have hfile : g.hasFile p := Option.isSome_iff_exists.mpr ⟨r, hr⟩
  have hall := exportsFrom_gathers hfuel hfile hseen
  rw [exports, bind_run, pure_run]
  refine ⟨fun n => ?_, ?_, exportsFrom_hasDefault hr hseen⟩
  · rw [hall.names_iff]
    simp [hall.mem_iff]
  · rw [hall.isOpen_iff]
    simp [hall.mem_iff]

end Program

end CompilingProxy
