import Mathlib.Data.List.Destutter
import CompilingProxy.Proofs.Analysis.Occurrence
import CompilingProxy.Proofs.Check.Syntax
import CompilingProxy.Proofs.Sketch

/-!
# The outermost faults of a text

A fault is a node that stands for text that could not be read, or that was put in where the text
lacks it. Two searches go down a tree for them, one for all outermost faults and one for the first.
The main result is that the diagnostics of a text are those of its outermost faults, one for each
and in the order of the text, and that the text that is shown is that of the first of them.
-/

namespace CompilingProxy

namespace Node

def isFault (n : Node) : Bool := n.missing || n.isA .error

/-- The way leads to a fault and through none. -/
structure LeadsToFault (n : Node) (way : List Descent) (fault : Node) : Prop where
  reaches : n.Reaches way fault
  isFault : fault.isFault
  isOutermost : ∀ d ∈ way, d.parent.isFault = false

/-- Which child is entered at each step of a way. Of two ways in a tree that lead to nodes of which
neither is below the other, the lesser one leads to what comes first in the text. -/
def position (way : List Descent) : List Nat := way.map (·.front.length)

/-- The list has every outermost fault of the tree once, in the order of the text. -/
structure ListsFaults (n : Node) (faults : List (List Descent × Node)) : Prop where
  mem_iff : ∀ way fault, (way, fault) ∈ faults ↔ n.LeadsToFault way fault
  ordered : faults.Pairwise fun x y => position x.1 < position y.1

mutual

/-- The outermost faults of a tree with the ways to them. -/
def faults (n : Node) : List (List Descent × Node) :=
  match n with
  | ⟨label, role, start, stop, missing, children⟩ =>
    let n : Node := ⟨label, role, start, stop, missing, children⟩
    if n.isFault then [([], n)] else faultsIn n [] children

/-- The outermost faults of a node's children behind those in front. -/
def faultsIn (n : Node) (front : List Node) : List Node → List (List Descent × Node)
  | [] => []
  | c :: cs =>
    c.faults.map (fun (way, fault) => (⟨n, front⟩ :: way, fault)) ++ faultsIn n (front ++ [c]) cs

end

theorem faults_eq (n : Node) :
    n.faults = if n.isFault then [([], n)] else faultsIn n [] n.children := by
  cases n
  rw [faults]

theorem hasError_eq_false_iff_isFault {n : Node} :
    n.hasError = false ↔ n.isFault = false ∧ ∀ c ∈ n.children, c.hasError = false := by
  rw [hasError_eq_false_iff, isFault, or_comm, ← Bool.or_eq_true, Bool.not_eq_true]

/-! ### Every outermost fault, once and in order -/

theorem leadsToFault_iff {n fault : Node} {way : List Descent} :
    n.LeadsToFault way fault ↔
      (n.isFault ∧ way = [] ∧ fault = n) ∨
        n.isFault = false ∧ ∃ front c back rest, n.children = front ++ c :: back ∧
          c.LeadsToFault rest fault ∧ way = ⟨n, front⟩ :: rest := by
  constructor
  · rintro ⟨hreaches, hfault, hways⟩
    rcases Reaches.cases_iff.mp hreaches with
      ⟨rfl, rfl⟩ | ⟨front, c, back, rest, hchildren, hrest, rfl⟩
    · exact .inl ⟨hfault, rfl, rfl⟩
    · obtain ⟨hn, hbelow⟩ := List.forall_mem_cons.mp hways
      exact .inr ⟨hn, front, c, back, rest, hchildren, ⟨hrest, hfault, hbelow⟩, rfl⟩
  · rintro (⟨hn, rfl, rfl⟩ | ⟨hn, front, c, back, rest, hchildren, hrest, rfl⟩)
    · exact ⟨.here _, hn, by simp⟩
    · exact ⟨.down hchildren hrest.reaches, hrest.isFault,
        List.forall_mem_cons.mpr ⟨hn, hrest.isOutermost⟩⟩

theorem mem_faultsIn_iff {n fault : Node} {front ns : List Node} {way : List Descent} :
    (way, fault) ∈ faultsIn n front ns ↔
      ∃ mid c back rest, ns = mid ++ c :: back ∧ (rest, fault) ∈ c.faults ∧
        way = ⟨n, front ++ mid⟩ :: rest := by
  induction ns generalizing front with
  | nil => simp [faultsIn]
  | cons c ns ih =>
    rw [faultsIn, List.mem_append, List.mem_map, ih]
    constructor
    · rintro (⟨⟨rest, _⟩, hmem, heq⟩ | ⟨mid, d, back, rest, rfl, hmem, rfl⟩)
      · cases heq
        exact ⟨[], c, ns, rest, rfl, hmem, by rw [List.append_nil]⟩
      · refine ⟨c :: mid, d, back, rest, rfl, hmem, ?_⟩
        rw [List.append_assoc, List.singleton_append]
    · rintro ⟨mid, d, back, rest, heq, hmem, rfl⟩
      cases mid with
      | nil =>
        obtain ⟨rfl, rfl⟩ := List.cons.inj heq
        exact .inl ⟨_, hmem, by rw [List.append_nil]⟩
      | cons first mid =>
        obtain ⟨rfl, rfl⟩ := List.cons.inj heq
        refine .inr ⟨mid, d, back, rest, rfl, hmem, ?_⟩
        rw [List.append_assoc, List.singleton_append]

/-- The faults of each child stand in order, and those of one child in front of those of the next
one. -/
theorem pairwise_faultsIn {n : Node} {front ns : List Node}
    (h : ∀ c ∈ ns, c.faults.Pairwise fun x y => position x.1 < position y.1) :
    (faultsIn n front ns).Pairwise fun x y => position x.1 < position y.1 := by
  induction ns generalizing front with
  | nil =>
    rw [faultsIn]
    exact .nil
  | cons c ns ih =>
    rw [faultsIn, List.pairwise_append]
    refine ⟨List.pairwise_map.mpr ?_, ih fun d hd => h d (List.mem_cons_of_mem _ hd), ?_⟩
    · refine (h c List.mem_cons_self).imp fun hlt => ?_
      exact List.cons_lt_cons_iff.mpr (.inr ⟨rfl, hlt⟩)
    · rintro _ hx ⟨way, fault⟩ hy
      obtain ⟨⟨rest, first⟩, -, rfl⟩ := List.mem_map.mp hx
      obtain ⟨mid, d, back, rest', -, -, rfl⟩ := mem_faultsIn_iff.mp hy
      refine List.cons_lt_cons_iff.mpr (.inl ?_)
      simp only [List.length_append, List.length_singleton]
      omega

theorem faults_listsFaults (n : Node) : n.ListsFaults n.faults := by
  induction n using induction_below with
  | step n ih =>
    rw [faults_eq]
    cases hfault : n.isFault with
    | true =>
      refine ⟨fun way fault => ?_, List.pairwise_singleton _ _⟩
      rw [leadsToFault_iff]
      simp [hfault]
    | false =>
      refine ⟨fun way fault => ?_, pairwise_faultsIn fun c hc => (ih c hc).ordered⟩
      rw [if_neg Bool.false_ne_true, mem_faultsIn_iff, leadsToFault_iff, hfault]
      simp only [Bool.false_eq_true, false_and, false_or, true_and, List.nil_append]
      constructor
      · rintro ⟨front, c, back, rest, hchildren, hmem, rfl⟩
        have hc : c ∈ n.children := by simp [hchildren]
        exact ⟨front, c, back, rest, hchildren, ((ih c hc).mem_iff _ _).mp hmem, rfl⟩
      · rintro ⟨front, c, back, rest, hchildren, hleads, rfl⟩
        have hc : c ∈ n.children := by simp [hchildren]
        exact ⟨front, c, back, rest, hchildren, ((ih c hc).mem_iff _ _).mpr hleads, rfl⟩

end Node

namespace SyntaxCheck

open Node

/-- What is said of a fault, and where. -/
def faultComplaint (parent : Option Label) (fault : List Descent × Node) : Nat × Complaint :=
  let around := (fault.1.getLast?.map (·.parent.label)).or parent
  (fault.2.start,
    if fault.2.missing then missingComplaint fault.2 else errorComplaint around)

variable {parent : Option Label} {n : Node}

theorem complaint?_of_isFault (h : n.isFault) :
    complaint? true parent n = some (faultComplaint parent ([], n)).2 := by
  rw [isFault, Bool.or_eq_true] at h
  rw [complaint?, faultComplaint]
  cases hmissing : n.missing with
  | true => rfl
  | false =>
    rw [if_neg Bool.false_ne_true, if_pos (h.resolve_left (by simp [hmissing]))]
    rfl

/-- A fault that is seen from its parent's parent is in the same place. -/
theorem faultComplaint_cons (d : Descent) (way : List Descent) (fault : Node) :
    faultComplaint parent (d :: way, fault) =
      faultComplaint (some d.parent.label) (way, fault) := by
  rw [faultComplaint, faultComplaint]
  cases way with
  | nil => rfl
  | cons e way => rw [List.getLast?_cons_cons, List.getLast?_cons]; rfl

theorem complaintsInAll_eq_map {front ns : List Node}
    (h : ∀ c ∈ ns, complaints true (some n.label) c =
      c.faults.map (faultComplaint (some n.label))) :
    complaintsInAll true (some n.label) ns =
      (faultsIn n front ns).map (faultComplaint parent) := by
  induction ns generalizing front with
  | nil => rw [complaintsInAll, faultsIn, List.map_nil]
  | cons c ns ih =>
    have hrest := @ih (front ++ [c]) fun d hd => h d (List.mem_cons_of_mem _ hd)
    rw [complaintsInAll, faultsIn, List.map_append, List.map_map, h c List.mem_cons_self, hrest]
    congr 1
    exact List.map_congr_left fun x _ => (faultComplaint_cons ⟨n, front⟩ x.1 x.2).symm

/-- Of a text in TypeScript, what is said is said of its outermost faults. -/
theorem complaints_eq_map : complaints true parent n = n.faults.map (faultComplaint parent) := by
  induction n using Node.induction_below generalizing parent with
  | step n ih =>
    rw [complaints_eq, faults_eq]
    cases hfault : n.isFault with
    | true =>
      rw [complaint?_of_isFault hfault]
      rfl
    | false =>
      rw [isFault, Bool.or_eq_false_iff] at hfault
      rw [complaint?_eq_none_iff.mpr (by simp [hfault])]
      exact complaintsInAll_eq_map fun c hc => ih c hc

/-! ### The first fault -/

theorem firstError?_eq (n : Node) :
    firstError? n = if n.isFault then some n
      else if n.hasError then firstErrorIn? n.children else none := by
  cases n
  rw [firstError?]
  rfl

theorem faults_eq_nil_iff : n.faults = [] ↔ n.hasError = false := by
  constructor
  · intro hnone
    refine Bool.eq_false_iff.mpr fun herror => ?_
    have hsome : complaints true none n ≠ [] := complaints_ne_nil herror
    rw [complaints_eq_map, hnone, List.map_nil] at hsome
    exact hsome rfl
  · intro hclean
    have hnone : complaints true none n = [] := complaints_eq_nil_of_clean hclean
    rwa [complaints_eq_map, List.map_eq_nil_iff] at hnone

theorem firstErrorIn?_eq {front ns : List Node}
    (h : ∀ c ∈ ns, firstError? c = c.faults.head?.map (·.2)) :
    firstErrorIn? ns = (faultsIn n front ns).head?.map (·.2) := by
  induction ns generalizing front with
  | nil => rw [firstErrorIn?, faultsIn, List.head?_nil, Option.map_none]
  | cons c ns ih =>
    have hrest := @ih (front ++ [c]) fun d hd => h d (List.mem_cons_of_mem _ hd)
    rw [firstErrorIn?, faultsIn, List.head?_append, h c List.mem_cons_self, hrest]
    cases c.faults <;> rfl

/-- The first fault that is found is the first of the outermost ones. -/
theorem firstError?_eq_head? : firstError? n = n.faults.head?.map (·.2) := by
  induction n using Node.induction_below with
  | step n ih =>
    rw [firstError?_eq]
    cases herror : n.hasError with
    | true =>
      rw [faults_eq]
      cases n.isFault with
      | true => rfl
      | false => exact firstErrorIn?_eq ih
    | false =>
      rw [faults_eq_nil_iff.mpr herror, (hasError_eq_false_iff_isFault.mp herror).1]
      rfl

end SyntaxCheck

/-! ### Repeated diagnostics -/

/-- Whether the diagnostic says something else than the one before it, or of another place. -/
def Diagnostic.IsNews (before d : Diagnostic) : Prop :=
  ¬(before.start = d.start ∧ before.code = d.code)

instance : DecidableRel Diagnostic.IsNews := fun _ _ => inferInstanceAs (Decidable (¬_))

theorem SyntaxCheck.dropRepeated_eq_destutter (ds : List Diagnostic) :
    dropRepeated ds = ds.destutter Diagnostic.IsNews := by
  fun_induction dropRepeated ds with
  | case1 a b rest hsame ih =>
    have hold : ¬a.IsNews b := by simpa [Diagnostic.IsNews] using hsame
    rw [ih, List.destutter_cons', List.destutter_cons', List.destutter'_cons_neg _ hold]
  | case2 a b rest hsame ih =>
    have hnew : a.IsNews b := by simpa [Diagnostic.IsNews] using hsame
    rw [ih, List.destutter_cons', List.destutter_cons', List.destutter'_cons_pos _ hnew]
  | case3 ds hshort =>
    rcases ds with _ | ⟨a, _ | ⟨b, rest⟩⟩
    · rfl
    · rfl
    · exact absurd rfl (hshort a b rest)

/-- The first diagnostic repeats none. -/
theorem SyntaxCheck.head?_dropRepeated (ds : List Diagnostic) :
    (dropRepeated ds).head? = ds.head? := by
  fun_induction dropRepeated ds with
  | case1 a b rest _ ih => exact ih
  | case2 a b rest _ ih => rfl
  | case3 ds => rfl

namespace ModuleRecord

open SyntaxCheck

variable {r : ModuleRecord}

/-- The diagnostic of an outermost fault, at the place where the fault begins. -/
def faultDiagnostic (r : ModuleRecord) (fault : List Node.Descent × Node) : Diagnostic :=
  let (offset, code, text) := faultComplaint none fault
  .inModule .syntactic .error code r offset text

/-- What is said of a text in TypeScript with the outermost faults. -/
structure ReportsFaults (r : ModuleRecord) (faults : List (List Node.Descent × Node)) : Prop where
  diagnostics : r.syntaxDiagnostics =
    (faults.map r.faultDiagnostic).destutter Diagnostic.IsNews
  isClean_iff : r.syntaxDiagnostics = [] ↔ r.tree.hasError = false
  isShown_iff : r.firstErrorText.isSome ↔ r.tree.hasError
  first : ∀ text, r.firstErrorText = some text → ∃ way fault, faults.head? = some (way, fault) ∧
    text = fault.text r.text.toList ∧
    r.syntaxDiagnostics.head? = some (r.faultDiagnostic (way, fault))

theorem syntaxDiagnostics_eq (h : r.kind.isTypeScript) :
    r.syntaxDiagnostics = dropRepeated (r.tree.faults.map r.faultDiagnostic) := by
  rw [syntaxDiagnostics, h, complaints_eq_map, List.map_map]
  rfl

theorem firstErrorText_isSome_iff : r.firstErrorText.isSome ↔ r.tree.hasError := by
  rw [firstErrorText, Option.isSome_map, firstError?_eq_head?, Option.isSome_map,
    List.isSome_head?, ne_eq, faults_eq_nil_iff, Bool.not_eq_false]

theorem reportsFaults_faults (h : r.kind.isTypeScript) : r.ReportsFaults r.tree.faults where
  diagnostics := by rw [syntaxDiagnostics_eq h, dropRepeated_eq_destutter]
  isClean_iff := syntaxDiagnostics_eq_nil_iff h
  isShown_iff := firstErrorText_isSome_iff
  first text htext := by
    rw [firstErrorText, firstError?_eq_head?, Option.map_map, Option.map_eq_some_iff] at htext
    obtain ⟨⟨way, fault⟩, hfirst, rfl⟩ := htext
    refine ⟨way, fault, hfirst, rfl, ?_⟩
    rw [syntaxDiagnostics_eq h, head?_dropRepeated, List.head?_map, hfirst]
    rfl

/-- The diagnostics of a text in TypeScript are those of its outermost faults, one for each and in
order, and the text that is shown is that of the first. In any language a fault is reported. -/
theorem unread_text_is_reported (r : ModuleRecord) :
    ∃ faults, r.tree.ListsFaults faults ∧ (r.kind.isTypeScript → r.ReportsFaults faults) ∧
      (r.tree.hasError → r.syntaxDiagnostics ≠ []) := by
  refine ⟨r.tree.faults, r.tree.faults_listsFaults, reportsFaults_faults, fun herror hnone => ?_⟩
  obtain ⟨d, hd, -⟩ := exists_syntaxDiagnostic_of_hasError herror
  rw [hnone] at hd
  cases hd

section

open Node

/-- A call with one argument and without its second parenthesis. -/
def openCall (start : Nat) : Node :=
  branch .expressionStatement
    [branch .callExpression
      [playing .function (leaf .identifier start (start + 1)),
        playing .arguments <| branch .arguments
          [word (start + 1) "(", leaf .identifier (start + 2) (start + 3),
            ⟨.word ")", none, start + 3, start + 3, true, []⟩]],
      word (start + 3) ";"]

def openCalls : ModuleRecord :=
  .ofTree "m.ts" "f(a;\ng(b;\n" (script 10 [openCall 0, openCall 5])

example : openCalls.syntaxDiagnostics.map (fun d => (d.start, d.printed)) =
    [(some ⟨1, 4⟩, "syntactic /m.ts (1,4): ')' expected."),
      (some ⟨2, 4⟩, "syntactic /m.ts (2,4): ')' expected.")] ∧
    openCalls.firstErrorText = some "" := by
  decide +kernel

end

end ModuleRecord

end CompilingProxy
