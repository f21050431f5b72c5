import CompilingProxy.Program.Output
import CompilingProxy.Proofs.Module.Registry

/-!
# Remembered analyses

Checking and compiling ask what is remembered for the analyses of known files alone. A relation
between memos under which those come to the same, and which is kept by asking for them, is therefore
kept by everything, and everything comes to the same under it.
-/

namespace CompilingProxy

namespace AnalysisMemo

/-- The analysis that a record is taken to have: the remembered one if there is any. -/
def seen (m : AnalysisMemo) (r : ModuleRecord) : ModuleAnalysis :=
  (m.find? r.path r.version).getD r.analysis

/-- What is remembered of the files is what they say. -/
def IsCoherent (files : List ModuleRecord) (m : AnalysisMemo) : Prop :=
  ∀ r ∈ files, ∀ a, m.find? r.path r.version = some a → a = r.analysis

variable {m : AnalysisMemo} {files : List ModuleRecord} {p q : ModulePath} {v w : Nat}
  {a : ModuleAnalysis}

theorem find?_add_self : (m.add p v a).find? p v = some a := by simp [find?, add]

theorem find?_add_of_ne (h : p ≠ q) : (m.add p v a).find? q w = m.find? q w := by
  have hhead : (p == q && v == w) = false := by simp [h]
  rw [find?, add, List.find?_cons]
  dsimp only
  rw [hhead, find?, List.find?_filter]
  dsimp only
  congr 2
  funext e
  obtain ⟨x, u, b⟩ := e
  by_cases hx : x = q
  · simp [hx, Ne.symm h, Bool.beq_eq_decide_eq]
  · simp [hx]

theorem isCoherent_empty : IsCoherent files {} := by
  intro r _ a ha
  cases ha

theorem IsCoherent.seen (h : m.IsCoherent files) {r : ModuleRecord} (hr : r ∈ files) :
    m.seen r = r.analysis := by
  rw [AnalysisMemo.seen]
  cases hfound : m.find? r.path r.version with
  | none => rfl
  | some a => exact h r hr a hfound

end AnalysisMemo

namespace Analyzing

/-- Related memos lead the computation to one result and to related memos. -/
def Respects {α : Type} (related : AnalysisMemo → AnalysisMemo → Prop) (x : Analyzing α) : Prop :=
  ∀ ⦃m m' : AnalysisMemo⦄, related m m' → (x m).1 = (x m').1 ∧ related (x m).2 (x m').2

section

variable {α β : Type} {memo : AnalysisMemo} {related : AnalysisMemo → AnalysisMemo → Prop}

theorem bind_run (x : Analyzing α) (f : α → Analyzing β) :
    (x >>= f) memo = f (x memo).1 (x memo).2 := rfl

theorem pure_run (a : α) : (pure a : Analyzing α) memo = (a, memo) := rfl

/-- Each of the results is one of an element, with what is remembered when its turn comes. -/
theorem mem_mapM {f : α → Analyzing β} {xs : List α} {y : β} (hy : y ∈ (xs.mapM f memo).1) :
    ∃ x ∈ xs, ∃ memo', y = (f x memo').1 := by
  induction xs generalizing memo with
  | nil =>
    rw [List.mapM_nil] at hy
    cases hy
  | cons x xs ih =>
    rw [List.mapM_cons, bind_run, bind_run, pure_run] at hy
    rcases List.mem_cons.mp hy with rfl | hy
    · exact ⟨x, List.mem_cons_self, memo, rfl⟩
    · obtain ⟨x', hx', hresult⟩ := ih hy
      exact ⟨x', List.mem_cons_of_mem _ hx', hresult⟩

namespace Respects

theorem pure (a : α) : Respects related (pure a : Analyzing α) := fun _ _ h => ⟨rfl, h⟩

theorem bind {x : Analyzing α} {f : α → Analyzing β} (hx : Respects related x)
    (hf : ∀ a, Respects related (f a)) : Respects related (x >>= f) := by
  intro m m' h
  obtain ⟨hresult, hmemos⟩ := hx h
  rw [bind_run, bind_run, hresult]
  exact hf _ hmemos

theorem mapM {f : α → Analyzing β} {xs : List α} (hf : ∀ x ∈ xs, Respects related (f x)) :
    Respects related (xs.mapM f) := by
  induction xs with
  | nil =>
    rw [List.mapM_nil]
    exact pure _
  | cons x xs ih =>
    rw [List.mapM_cons]
    exact bind (hf x List.mem_cons_self) fun _ =>
      bind (ih fun y hy => hf y (List.mem_cons_of_mem _ hy)) fun _ => pure _

end Respects

end

end Analyzing

open Analyzing

namespace Program

/-! ### What checking and compiling ask for -/

/-- The relation is respected by whatever asks for the analysis of a known file. -/
def Admits (g : Program) (related : AnalysisMemo → AnalysisMemo → Prop) : Prop :=
  ∀ path r, g.file? path = some r → Respects related (analysisOf r)

namespace Admits

variable {g : Program} {related : AnalysisMemo → AnalysisMemo → Prop}

theorem analysis? (hg : g.Admits related) (path : ModulePath) :
    Respects related (g.analysis? path) := by
  rw [Program.analysis?]
  cases hfile : g.file? path with
  | none => exact .pure _
  | some r => exact .bind (hg path r hfile) fun _ => .pure _

theorem ambientModules (hg : g.Admits related) : Respects related g.ambientModules :=
  .bind (.mapM fun _ _ => hg.analysis? _) fun _ => .pure _

theorem resolve (hg : g.Admits related) (specifier : String) :
    Respects related (g.resolve specifier) := by
  rw [Program.resolve]
  split
  · split
    · exact .pure _
    · exact .pure _
  · exact .bind hg.ambientModules fun _ => .pure _

theorem addStars (hg : g.Admits related)
    {exportsOf : List ModulePath → ModulePath → Analyzing (ExportSet × List ModulePath)}
    (hexports : ∀ visited path, Respects related (exportsOf visited path))
    (set : ExportSet) (visited : List ModulePath) (rs : List ReExport) :
    Respects related (g.addStars exportsOf set visited rs) := by
  induction rs generalizing set visited with
  | nil => exact .pure _
  | cons r rs ih =>
    rw [Program.addStars]
    split
    · exact ih _ _
    · refine .bind (hg.resolve _) fun target => ?_
      cases target with
      | file path => exact .bind (hexports _ _) fun _ => ih _ _
      | ambient => exact ih _ _
      | unresolved => exact ih _ _

theorem exportsFrom (hg : g.Admits related) (fuel : Nat) (visited : List ModulePath)
    (path : ModulePath) : Respects related (g.exportsFrom fuel visited path) := by
  induction fuel generalizing visited path with
  | zero => exact .pure _
  | succ fuel ih =>
    rw [Program.exportsFrom]
    split
    · exact .pure _
    · refine .bind (hg.analysis? path) fun a => ?_
      cases a with
      | none => exact .pure _
      | some a => exact hg.addStars ih _ _ _

theorem specifierFindings (hg : g.Admits related) (offset : Nat) (specifier : String)
    (names : List (Nat × ImportedName)) :
    Respects related (BindingCheck.specifierFindings g offset specifier names) := by
  refine .bind (hg.resolve specifier) fun target => ?_
  cases target with
  | ambient => exact .pure _
  | unresolved => exact .pure _
  | file path =>
    refine .bind (.bind (hg.analysis? path) fun _ => .pure _) fun _ => ?_
    split
    · exact .pure _
    · exact .bind (.bind (hg.exportsFrom _ _ _) fun _ => .pure _) fun _ => .pure _

theorem importFindings (hg : g.Admits related) (i : ImportDecl) :
    Respects related (BindingCheck.importFindings g i) := by
  rw [BindingCheck.importFindings]
  split
  · exact .pure _
  · exact hg.specifierFindings _ _ _

theorem findings (hg : g.Admits related) (r : ModuleRecord) (a : ModuleAnalysis) :
    Respects related (BindingCheck.findings g r a) :=
  .bind (.mapM fun i _ => hg.importFindings i) fun _ =>
    .bind (.mapM fun _ _ => hg.specifierFindings _ _ _) fun _ => .pure _

theorem diagnosticGroups (hg : g.Admits related) {path : ModulePath} {r : ModuleRecord}
    (hr : g.file? path = some r) : Respects related (g.diagnosticGroups r) := by
  refine .bind (hg path r hr) fun a => .bind ?_ fun _ => .pure _
  rw [semanticDiagnostics]
  split
  · exact .pure _
  · exact .bind (hg.findings r a) fun _ => .pure _

theorem output (hg : g.Admits related) {path : ModulePath} {r : ModuleRecord}
    (hr : g.file? path = some r) : Respects related (g.output r) := by
  rw [Program.output]
  split
  · exact .pure _
  · refine .bind (hg path r hr) fun a => ?_
    cases r.emit a g.options <;> exact .pure _

end Admits

/-! ### What is seen of the files -/

variable {g : Program} {m m' : AnalysisMemo}

/-- Asking for an analysis gives the one that is seen, which is remembered from then on. -/
theorem analysisOf_run (r : ModuleRecord) (m : AnalysisMemo) :
    (analysisOf r m).1 = m.seen r ∧
      ((analysisOf r m).2 = m ∨
        m.find? r.path r.version = none ∧
          (analysisOf r m).2 = m.add r.path r.version r.analysis) := by
  have hget : (get : Analyzing AnalysisMemo) m = (m, m) := rfl
  rw [analysisOf, bind_run, hget, AnalysisMemo.seen]
  dsimp only
  cases hfound : m.find? r.path r.version with
  | some a => exact ⟨rfl, .inl rfl⟩
  | none => exact ⟨rfl, .inr ⟨rfl, rfl⟩⟩

theorem path_of_file? {path : ModulePath} {r : ModuleRecord} (h : g.file? path = some r) :
    r.path = path :=
  Registry.path_of_get? (g := ⟨g.files⟩) h

/-- Asking for the analysis of a known file changes nothing in what is seen of the known files. -/
theorem seen_analysisOf {p q : ModulePath} {r s : ModuleRecord} (hr : g.file? p = some r)
    (hs : g.file? q = some s) : (analysisOf r m).2.seen s = m.seen s := by
  obtain ⟨-, hsame | ⟨hnone, hadd⟩⟩ := analysisOf_run r m
  · rw [hsame]
  · rw [hadd]
    by_cases hpath : r.path = s.path
    · rw [path_of_file? hr, path_of_file? hs] at hpath
      subst hpath
      cases hr.symm.trans hs
      rw [AnalysisMemo.seen, AnalysisMemo.seen, AnalysisMemo.find?_add_self, hnone]
      rfl
    · rw [AnalysisMemo.seen, AnalysisMemo.find?_add_of_ne hpath, AnalysisMemo.seen]

/-- With both memos each known file is seen to have the given analysis. -/
def Seen (g : Program) (view : ModuleRecord → ModuleAnalysis) (m m' : AnalysisMemo) : Prop :=
  ∀ path r, g.file? path = some r → m.seen r = view r ∧ m'.seen r = view r

theorem admits_seen (g : Program) (view : ModuleRecord → ModuleAnalysis) :
    g.Admits (g.Seen view) := by
  intro path r hr m m' hseen
  obtain ⟨h, h'⟩ := hseen path r hr
  refine ⟨?_, fun q s hs => ?_⟩
  · rw [(analysisOf_run r m).1, (analysisOf_run r m').1, h, h']
  · rw [seen_analysisOf hr hs, seen_analysisOf hr hs]
    exact hseen q s hs

/-- One after another or each on its own: what is seen of the files stays the same on the way. -/
theorem mapM_seen {α β : Type} {view : ModuleRecord → ModuleAnalysis} {f : α → Analyzing β}
    {xs : List α} (hf : ∀ x ∈ xs, Respects (g.Seen view) (f x)) (hseen : g.Seen view m m') :
    (xs.mapM f m').1 = xs.map fun x => (f x m).1 := by
  induction xs generalizing m' with
  | nil => rfl
  | cons x xs ih =>
    obtain ⟨hhead, hafter⟩ := hf x List.mem_cons_self hseen
    have hrest : g.Seen view m (f x m').2 :=
      fun path r hr => ⟨(hseen path r hr).1, (hafter path r hr).2⟩
    rw [List.mapM_cons, bind_run, bind_run, pure_run, List.map_cons, hhead,
      ih (fun y hy => hf y (List.mem_cons_of_mem _ hy)) hrest]

theorem file?_of_mem {r : ModuleRecord} (hfiles : (g.files.map (·.path)).Nodup)
    (hr : r ∈ g.files) : g.file? r.path = some r :=
  Registry.get?_of_mem (g := ⟨g.files⟩) hfiles hr

theorem admits_coherent (hfiles : (g.files.map (·.path)).Nodup) :
    g.Admits fun m m' => m.IsCoherent g.files ∧ m'.IsCoherent g.files := by
  have hkeeps : ∀ {path r} {m : AnalysisMemo}, g.file? path = some r → m.IsCoherent g.files →
      (analysisOf r m).1 = r.analysis ∧ (analysisOf r m).2.IsCoherent g.files := by
    intro path r m hr hm
    obtain ⟨hresult, hmemo⟩ := analysisOf_run r m
    refine ⟨hresult.trans (hm.seen (List.mem_of_find?_eq_some hr)), fun s hs a ha => ?_⟩
    rcases hmemo with hsame | ⟨-, hadd⟩
    · rw [hsame] at ha
      exact hm s hs a ha
    · rw [hadd] at ha
      by_cases hpath : r.path = s.path
      · have hfound := file?_of_mem hfiles hs
        rw [← hpath, path_of_file? hr, hr] at hfound
        cases hfound
        rw [AnalysisMemo.find?_add_self] at ha
        exact (Option.some.inj ha).symm
      · rw [AnalysisMemo.find?_add_of_ne hpath] at ha
        exact hm s hs a ha
  intro path r hr m m' hboth
  obtain ⟨hresult, hm⟩ := hkeeps hr hboth.1
  obtain ⟨hresult', hm'⟩ := hkeeps hr hboth.2
  exact ⟨hresult.trans hresult'.symm, hm, hm'⟩

/-! ### Compiling -/

/-- What a file compiles to, which is a matter of the file and the options alone. -/
def compiled? (o : CompilerOptions) (r : ModuleRecord) :
    Except ModuleError (Option OutputFile) :=
  if r.isLibrary || r.path.isDeclarationFile || r.tree.hasError then .ok none
  else
    match r.emit r.analysis o with
    | .ok text => .ok (some ⟨r.path.outputName, text⟩)
    | .error e => .error (.badEdit e)

theorem output_spec {r : ModuleRecord} (hfiles : (g.files.map (·.path)).Nodup)
    (hr : r ∈ g.files) (hm : m.IsCoherent g.files) :
    (g.output r m).1 = compiled? g.options r ∧ (g.output r m).2.IsCoherent g.files := by
  have hfile := file?_of_mem hfiles hr
  refine ⟨?_, ((admits_coherent hfiles).output hfile ⟨hm, hm⟩).2.1⟩
  rw [output, compiled?]
  split
  · rfl
  · rw [bind_run, (analysisOf_run r m).1, hm.seen hr]
    cases r.emit r.analysis g.options <;> rfl

end Program

end CompilingProxy
