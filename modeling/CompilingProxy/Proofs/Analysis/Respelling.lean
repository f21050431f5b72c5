import CompilingProxy.Analysis.Basic
import CompilingProxy.Module.Dependency
import CompilingProxy.Proofs.Analysis.ImportOrder
import CompilingProxy.Proofs.Module.Path
import CompilingProxy.Proofs.Module.Placement
import CompilingProxy.Proofs.Module.Registry
import Mathlib.Data.List.Forall2

/-!
# Texts with canonical specifiers

A tree respells another one when it differs in specifiers alone, which are canonical in it. What the
analysis lists of the two texts are then the same imports and exports, the one with the specifiers
as they were written, the other with the canonical ones.
-/

namespace CompilingProxy

open Text

/-- The specifier as it is written once it is canonical. -/
def ModulePath.respell (p : ModulePath) (specifier : List Char) : List Char :=
  match p.resolve? (String.ofList specifier) with
  | some target => target.withDefaultExtension.text.toList
  | none => specifier

/-- Whether the second literal is the first one with a canonical specifier between the quotes. -/
def literalRespells (path : ModulePath) (source source' : List Char) (literal literal' : Node) :
    Bool :=
  match slice source literal.start literal.stop with
  | [] => false
  | quote :: rest =>
    (quote == '"' || quote == '\'') && rest.getLast? == some quote &&
      slice source' literal'.start literal'.stop == quote :: path.respell rest.dropLast ++ [quote]

/-- Whether the sources of two statements respell each other, if there are any. -/
def sourceRespells (path : ModulePath) (source source' : List Char) (n n' : Node) : Bool :=
  match n.child? .source, n'.child? .source with
  | some literal, some literal' => literalRespells path source source' literal literal'
  | none, none => true
  | _, _ => false

namespace Node

mutual

/-- Whether the second tree is the first one with canonical specifiers. -/
def respells (path : ModulePath) (source source' : List Char) (n n' : Node) : Bool :=
  match n, n' with
  | ⟨label, role, start, stop, missing, children⟩, n' =>
    label == n'.label && role == n'.role &&
      (!isImportOrExport ⟨label, role, start, stop, missing, children⟩ ||
        sourceRespells path source source' ⟨label, role, start, stop, missing, children⟩ n') &&
      allRespell path source source' children n'.children

/-- Whether the second trees are the first ones with canonical specifiers. -/
def allRespell (path : ModulePath) (source source' : List Char) : List Node → List Node → Bool
  | [], [] => true
  | n :: ns, n' :: ns' => n.respells path source source' n' && allRespell path source source' ns ns'
  | _, _ => false

end

variable {path : ModulePath} {source source' : List Char}

theorem allRespell_iff {ns ns' : List Node} :
    allRespell path source source' ns ns' ↔
      List.Forall₂ (fun n n' => n.respells path source source' n') ns ns' := by
  induction ns generalizing ns' with
  | nil => cases ns' <;> simp [allRespell]
  | cons n ns ih => cases ns' <;> simp [allRespell, ih]

theorem respells_iff {n n' : Node} :
    n.respells path source source' n' ↔
      n.label = n'.label ∧ n.role = n'.role ∧
        (n.isImportOrExport → sourceRespells path source source' n n') ∧
        List.Forall₂ (fun c c' => c.respells path source source' c') n.children n'.children := by
  obtain ⟨label, role, start, stop, missing, children⟩ := n
  rw [respells, Bool.and_eq_true, Bool.and_eq_true, Bool.and_eq_true, allRespell_iff, beq_iff_eq,
    beq_iff_eq, and_assoc, and_assoc]
  refine and_congr_right fun _ => and_congr_right fun _ => and_congr_left fun _ => ?_
  cases isImportOrExport _ <;> simp

/-! ### Trees of one shape -/

section

variable {n n' : Node} {ns ns' : List Node}

theorem kind?_of_respells (h : n.respells path source source' n') : n.kind? = n'.kind? := by
  rw [Node.kind?, (respells_iff.mp h).1, ← Node.kind?]

theorem isA_of_respells (h : n.respells path source source' n') (k : Kind) :
    n.isA k = n'.isA k := by
  rw [Node.isA, (respells_iff.mp h).1, ← Node.isA]

theorem any_of_respell {p : Node → Bool}
    (hp : ∀ c c', c.respells path source source' c' → p c = p c')
    (h : List.Forall₂ (fun n n' => n.respells path source source' n') ns ns') :
    ns.any p = ns'.any p := by
  induction h with
  | nil => rfl
  | cons hn _ ih => rw [List.any_cons, List.any_cons, hp _ _ hn, ih]

theorem find?_of_respell {p : Node → Bool}
    (hp : ∀ c c', c.respells path source source' c' → p c = p c')
    (h : List.Forall₂ (fun n n' => n.respells path source source' n') ns ns') :
    (ns.find? p = none ∧ ns'.find? p = none) ∨ ∃ c c', ns.find? p = some c ∧
      ns'.find? p = some c' ∧ c.respells path source source' c' := by
  induction h with
  | nil => exact .inl ⟨rfl, rfl⟩
  | @cons n n' ns ns' hn _ ih =>
    rw [List.find?_cons, List.find?_cons, hp n n' hn]
    cases p n' with
    | true => exact .inr ⟨n, n', rfl, rfl, hn⟩
    | false => exact ih

theorem hasWord_of_respells (h : n.respells path source source' n') (word : String) :
    n.hasWord word = n'.hasWord word := by
  refine any_of_respell (fun c c' hc => ?_) (respells_iff.mp h).2.2.2
  rw [isWord, (respells_iff.mp hc).1, ← isWord]

theorem child?_of_respells (h : n.respells path source source' n') (role : Role) :
    (n.child? role = none ∧ n'.child? role = none) ∨ ∃ c c', n.child? role = some c ∧
      n'.child? role = some c' ∧ c.respells path source source' c' := by
  refine find?_of_respell (fun c c' hc => ?_) (respells_iff.mp h).2.2.2
  rw [(respells_iff.mp hc).2.1]

end

end Node

/-! ### Specifiers -/

/-- The second specifier is the first one made canonical, and its target is among the paths. -/
def SpecifierLeads (path : ModulePath) (known : List ModulePath) (specifier specifier' : String) :
    Prop :=
  specifier' = String.ofList (path.respell specifier.toList) ∧
    ∀ target, path.resolve? specifier = some target → target.withDefaultExtension ∈ known

/-- The imports and exports of two analyses are the same, with specifiers that are canonical in the
second one. -/
structure Accords (path : ModulePath) (known : List ModulePath) (a a' : ModuleAnalysis) :
    Prop where
  imports : List.Forall₂ (SpecifierLeads path known) (a.imports.map (·.specifier))
    (a'.imports.map (·.specifier))
  reExports : List.Forall₂ (SpecifierLeads path known) (a.reExports.map (·.specifier))
    (a'.reExports.map (·.specifier))

section

variable {path : ModulePath} {known : List ModulePath} {source source' : List Char}

theorem unquote_quoted {quote : Char} {rest : List Char}
    (hquote : quote = '"' ∨ quote = '\'') (hlast : rest.getLast? = some quote) :
    unquote (quote :: rest) = rest.dropLast := by
  cases rest with
  | nil => simp at hlast
  | cons c cs =>
    rw [unquote, if_pos]
    rcases hquote with rfl | rfl <;> simp [hlast]

/-- What two literals say that respell each other. -/
theorem specifierLeads_of_literal {literal literal' : Node}
    (h : literalRespells path source source' literal literal')
    (hknown : ∀ x ∈ specifierDependency? path source literal, x.1.path ∈ known) :
    SpecifierLeads path known (literal.unquoted source) (literal'.unquoted source') := by
  rw [literalRespells] at h
  split at h
  case h_1 => cases h
  case h_2 quote rest htext =>
    rw [Bool.and_eq_true, Bool.and_eq_true, Bool.or_eq_true, beq_iff_eq, beq_iff_eq, beq_iff_eq,
      beq_iff_eq] at h
    obtain ⟨⟨hquote, hlast⟩, htext'⟩ := h
    have hbefore : literal.unquoted source = String.ofList rest.dropLast := by
      rw [Node.unquoted, htext, unquote_quoted hquote hlast]
    have hafter : literal'.unquoted source' = String.ofList (path.respell rest.dropLast) := by
      rw [Node.unquoted, htext', List.cons_append, unquote_quoted hquote (by simp)]
      simp
    rw [hbefore, hafter]
    refine ⟨by rw [String.toList_ofList], fun target htarget => ?_⟩
    have hfound : ∃ edits, specifierDependency? path source literal =
        some (⟨target.withDefaultExtension, .module⟩, edits) := by
      cases rest with
      | nil => simp at hlast
      | cons c cs =>
        rw [specifierDependency?, htext]
        simp only [htarget, Option.map_some]
        exact ⟨_, rfl⟩
    obtain ⟨edits, hfound⟩ := hfound
    exact hknown _ hfound

end

/-! ### Statements -/

namespace ModuleAnalysis

section

variable {a : ModuleAnalysis} {s : Setting} {source : List Char} {n : Node}

@[simp]
theorem addExport_reExports {name : String} : (a.addExport name).reExports = a.reExports := by
  rw [addExport]
  split <;> rfl

@[simp]
theorem declare_reExports {name : String} {kind : DeclarationKind} :
    (a.declare s name kind n).reExports = a.reExports := by
  rw [declare]
  split <;> simp

@[simp]
theorem declareVariables_reExports : (a.declareVariables s source n).reExports = a.reExports :=
  foldl_keeps (fun _ _ => declare_reExports) _ _

theorem exportClause_reExports :
    (a.exportClause source n).reExports.map (·.specifier) =
      a.reExports.map (·.specifier) ++
        ((n.child? .source).map (·.unquoted source)).toList := by
  rw [exportClause]
  cases n.child? .source with
  | some literal => simp
  | none =>
    have hkept := foldl_keeps (g := ModuleAnalysis.reExports)
      (f := fun a (x : String × String) => a.addExport x.2) (fun _ _ => addExport_reExports)
    simp [hkept]

theorem importDecl?_specifier :
    (importDecl? source n).toList.map (·.specifier) =
      ((n.child? .source).map (·.unquoted source)).toList := by
  rw [importDecl?]
  cases n.child? .source <;> rfl

end

end ModuleAnalysis

section

variable {path : ModulePath} {known : List ModulePath} {source source' : List Char}
  {a a' : ModuleAnalysis} {s : ModuleAnalysis.Setting} {n n' : Node}

/-- What the sources of two statements say that respell each other. -/
theorem specifierLeads_of_source
    (h : sourceRespells path source source' n n')
    (hknown : ∀ x ∈ (n.child? .source).bind (specifierDependency? path source),
      x.1.path ∈ known) :
    List.Forall₂ (SpecifierLeads path known)
      ((n.child? .source).map (·.unquoted source)).toList
      ((n'.child? .source).map (·.unquoted source')).toList := by
  rw [sourceRespells] at h
  split at h
  case h_1 literal literal' hliteral hliteral' =>
    rw [hliteral] at hknown ⊢
    rw [hliteral']
    exact .cons (specifierLeads_of_literal h hknown) .nil
  case h_2 hliteral hliteral' =>
    rw [hliteral, hliteral']
    exact .nil
  case h_3 => cases h

/-- Analyses that accord still do when neither gains an import or export from elsewhere. -/
theorem Accords.of_eq {b b' : ModuleAnalysis} (h : Accords path known a a')
    (himports : b.imports = a.imports) (hreExports : b.reExports = a.reExports)
    (himports' : b'.imports = a'.imports) (hreExports' : b'.reExports = a'.reExports) :
    Accords path known b b' := by
  refine ⟨?_, ?_⟩
  · rw [himports, himports']
    exact h.imports
  · rw [hreExports, hreExports']
    exact h.reExports

/-- The paths that the specifiers of a tree lead to are among the known ones. -/
def LeadsTo (path : ModulePath) (source : List Char) (known : List ModulePath) (n : Node) : Prop :=
  ∀ x ∈ specifiersIn path source n, x.1.path ∈ known

theorem LeadsTo.child {n c : Node} (h : LeadsTo path source known n)
    (hkind : n.isA .importStatement = false) (hc : c ∈ n.children) :
    LeadsTo path source known c := by
  intro x hx
  refine h x ?_
  rw [specifiersIn_eq, if_neg (by simp [hkind] : ¬ n.isA .importStatement), specifiersInAll_eq]
  exact List.mem_append_right _ (List.mem_flatMap.mpr ⟨c, hc, hx⟩)

theorem LeadsTo.ofSource {n : Node} (h : LeadsTo path source known n)
    (hkind : n.isImportOrExport) :
    ∀ x ∈ (n.child? .source).bind (specifierDependency? path source), x.1.path ∈ known := by
  intro x hx
  refine h x ?_
  rw [specifiersIn_eq, if_pos hkind]
  exact List.mem_append_left _ (Option.mem_toList.mpr hx)

theorem source_respells (h : sourceRespells path source source' n n') :
    List.Forall₂ (fun l l' => literalRespells path source source' l l')
      (n.child? .source).toList (n'.child? .source).toList := by
  rw [sourceRespells] at h
  split at h
  case h_1 literal literal' hliteral hliteral' =>
    rw [hliteral, hliteral']
    exact .cons h .nil
  case h_2 hliteral hliteral' =>
    rw [hliteral, hliteral']
    exact .nil
  case h_3 => cases h

/-- The literals of trees that respell each other do so one by one. -/
theorem sources_respell (h : n.respells path source source' n') :
    List.Forall₂ (fun l l' => literalRespells path source source' l l') n.sources n'.sources := by
  induction n using Node.induction_below generalizing n' with
  | step n ih =>
    obtain ⟨hlabel, -, hsource, hchildren⟩ := Node.respells_iff.mp h
    have hkind : n'.isImportOrExport = n.isImportOrExport := by
      rw [Node.isImportOrExport, Node.isImportOrExport, Node.isA_of_respells h,
        Node.isA_of_respells h]
    rw [Node.sources_eq, Node.sources_eq, hkind, ← Node.isA_of_respells h]
    refine List.rel_append ?_ ?_
    · split
      case isTrue hstatement => exact source_respells (hsource hstatement)
      case isFalse => exact .nil
    · split
      case isTrue => exact .nil
      case isFalse =>
        generalize n.children = cs at hchildren ih ⊢
        generalize n'.children = cs' at hchildren ⊢
        clear h hlabel hsource hkind
        induction hchildren with
        | nil => exact .nil
        | @cons c c' cs cs' hc _ ihs =>
          rw [List.flatMap_cons, List.flatMap_cons]
          exact List.rel_append (ih c List.mem_cons_self hc)
            (ihs fun d hd => ih d (List.mem_cons_of_mem _ hd))

/-- The literals of trees that respell each other lead to the same paths. -/
theorem sources_accord (h : n.respells path source source' n')
    (hleads : LeadsTo path source known n) :
    List.Forall₂ (fun l l' => SpecifierLeads path known (l.unquoted source) (l'.unquoted source'))
      n.sources n'.sources := by
  have hknown : ∀ l ∈ n.sources, ∀ x ∈ specifierDependency? path source l, x.1.path ∈ known := by
    intro l hl x hx
    refine hleads x ?_
    rw [specifiersIn_sources]
    exact List.mem_filterMap.mpr ⟨l, hl, hx⟩
  exact ((List.forall₂_and_left _ _).mpr ⟨hknown, sources_respell h⟩).imp
    fun l l' hl => specifierLeads_of_literal hl.2 hl.1

theorem statements_accord {ns ns' : List Node}
    (h : List.Forall₂ (fun n n' => n.respells path source source' n') ns ns')
    (hstatement : ∀ n ∈ ns, ∀ n', n.respells path source source' n' → ∀ s a a',
      Accords path known a a' → Accords path known (ModuleAnalysis.statement source s a n)
        (ModuleAnalysis.statement source' s a' n'))
    (ha : Accords path known a a') :
    Accords path known (ModuleAnalysis.statements source s a ns)
      (ModuleAnalysis.statements source' s a' ns') := by
  induction h generalizing a a' with
  | nil =>
    rw [ModuleAnalysis.statements, ModuleAnalysis.statements]
    exact ha
  | @cons n n' ns ns' hn _ ih =>
    rw [ModuleAnalysis.statements, ModuleAnalysis.statements]
    exact ih (fun m hm => hstatement m (List.mem_cons_of_mem _ hm))
      (hstatement n List.mem_cons_self n' hn s a a' ha)

theorem declarationIn_accords {ns ns' : List Node}
    (h : List.Forall₂ (fun n n' => n.respells path source source' n') ns ns')
    (hstatement : ∀ n ∈ ns, ∀ n', n.respells path source source' n' → ∀ s a a',
      Accords path known a a' → Accords path known (ModuleAnalysis.statement source s a n)
        (ModuleAnalysis.statement source' s a' n'))
    (ha : Accords path known a a') :
    Accords path known (ModuleAnalysis.declarationIn source s a ns)
      (ModuleAnalysis.declarationIn source' s a' ns') := by
  induction h with
  | nil =>
    rw [ModuleAnalysis.declarationIn, ModuleAnalysis.declarationIn]
    exact ha
  | @cons n n' ns ns' hn _ ih =>
    rw [ModuleAnalysis.declarationIn, ModuleAnalysis.declarationIn, ← (Node.respells_iff.mp hn).2.1]
    split
    · exact hstatement n List.mem_cons_self n' hn s a a' ha
    · exact ih fun m hm => hstatement m (List.mem_cons_of_mem _ hm)

theorem firstModule_accords {ns ns' : List Node}
    (h : List.Forall₂ (fun n n' => n.respells path source source' n') ns ns')
    (hstatement : ∀ n ∈ ns, ∀ n', n.respells path source source' n' → ∀ s a a',
      Accords path known a a' → Accords path known (ModuleAnalysis.statement source s a n)
        (ModuleAnalysis.statement source' s a' n'))
    (ha : Accords path known a a') :
    Accords path known (ModuleAnalysis.firstModule source s a ns)
      (ModuleAnalysis.firstModule source' s a' ns') := by
  induction h with
  | nil =>
    rw [ModuleAnalysis.firstModule, ModuleAnalysis.firstModule]
    exact ha
  | @cons n n' ns ns' hn _ ih =>
    have hnamed : n.isNamed = n'.isNamed := by
      rw [Node.isNamed, (Node.respells_iff.mp hn).1, ← Node.isNamed]
    rw [ModuleAnalysis.firstModule, ModuleAnalysis.firstModule,
      ← Node.isA_of_respells hn .internalModule, ← hnamed]
    split
    · exact hstatement n List.mem_cons_self n' hn s a a' ha
    · split
      · exact ha
      · exact ih fun m hm => hstatement m (List.mem_cons_of_mem _ hm)

/-- An export without a declaration adds the same to both analyses. -/
theorem exportClause_accords (h : n.respells path source source' n')
    (hkind : n.isImportOrExport) (hleads : LeadsTo path source known n)
    (ha : Accords path known a a') :
    Accords path known (a.exportClause source n) (a'.exportClause source' n') := by
  refine ⟨?_, ?_⟩
  · rw [ModuleAnalysis.exportClause_imports, ModuleAnalysis.exportClause_imports]
    exact ha.imports
  · rw [ModuleAnalysis.exportClause_reExports, ModuleAnalysis.exportClause_reExports]
    exact List.rel_append ha.reExports
      (specifierLeads_of_source ((Node.respells_iff.mp h).2.2.1 hkind) (hleads.ofSource hkind))

theorem export_accords (h : n.respells path source source' n')
    (hkind : n.kind? = some .exportStatement) (hleads : LeadsTo path source known n)
    (hbelow : ∀ c ∈ n.children, ∀ c', c.respells path source source' c' → ∀ s a a',
      Accords path known a a' → Accords path known (ModuleAnalysis.statement source s a c)
        (ModuleAnalysis.statement source' s a' c'))
    (ha : Accords path known a a') :
    Accords path known (ModuleAnalysis.statement source s a n)
      (ModuleAnalysis.statement source' s a' n') := by
  have hword := Node.hasWord_of_respells h
  have hdeclaration : (n'.child? .declaration).isSome = (n.child? .declaration).isSome := by
    rcases Node.child?_of_respells h .declaration with ⟨hnone, hnone'⟩ | ⟨_, _, hc, hc', -⟩
    · rw [hnone, hnone']
    · rw [hc, hc']
      rfl
  have hstatement : n.isImportOrExport := by
    simp [Node.isImportOrExport, Node.isA_iff.mpr hkind]
  rw [ModuleAnalysis.statement_export hkind,
    ModuleAnalysis.statement_export ((Node.kind?_of_respells h).symm.trans hkind), ← hword, ← hword,
    hdeclaration]
  split
  · exact ha.of_eq rfl rfl rfl rfl
  · split
    · exact declarationIn_accords (Node.respells_iff.mp h).2.2.2 hbelow (ha.of_eq rfl rfl rfl rfl)
    · split
      · exact ha.of_eq rfl rfl rfl rfl
      · exact exportClause_accords h hstatement hleads (ha.of_eq rfl rfl rfl rfl)

/-- A statement adds the same to both analyses. -/
theorem statement_accords (h : n.respells path source source' n')
    (hleads : LeadsTo path source known n) (ha : Accords path known a a') :
    Accords path known (ModuleAnalysis.statement source s a n)
      (ModuleAnalysis.statement source' s a' n') := by
  induction n using Node.induction_below generalizing n' s a a' with
  | step n ih =>
    have hkind := Node.kind?_of_respells h
    by_cases himport : n.kind? = some .importStatement
    · rw [ModuleAnalysis.statement_import himport,
        ModuleAnalysis.statement_import (hkind ▸ himport)]
      have hstatement : n.isImportOrExport := by
        simp [Node.isImportOrExport, Node.isA_iff.mpr himport]
      refine ⟨?_, ha.reExports⟩
      rw [List.map_append, List.map_append, ModuleAnalysis.importDecl?_specifier,
        ModuleAnalysis.importDecl?_specifier]
      exact List.rel_append ha.imports (specifierLeads_of_source
        ((Node.respells_iff.mp h).2.2.1 hstatement) (hleads.ofSource hstatement))
    · have hplain : n.isA .importStatement = false := by
        rw [Bool.eq_false_iff, ne_eq, Node.isA_iff]
        exact himport
      have hbelow : ∀ c ∈ n.children, ∀ c', c.respells path source source' c' → ∀ s a a',
          Accords path known a a' → Accords path known (ModuleAnalysis.statement source s a c)
            (ModuleAnalysis.statement source' s a' c') :=
        fun c hc c' hrespells s a a' ha => ih c hc hrespells (hleads.child hplain hc) ha
      by_cases hexport : n.kind? = some .exportStatement
      · exact export_accords h hexport hleads hbelow ha
      · have hchildren := (Node.respells_iff.mp h).2.2.2
        have hname := Node.child?_of_respells h .name
        obtain ⟨label, role, start, stop, missing, children⟩ := n
        obtain ⟨label', role', start', stop', missing', children'⟩ := n'
        rw [ModuleAnalysis.statement, ModuleAnalysis.statement]
        dsimp only
        rw [← hkind]
        split
        case h_1 hk => exact absurd hk himport
        case h_2 => exact ha.of_eq rfl rfl rfl rfl
        case h_3 hk => exact absurd hk hexport
        case h_4 => exact statements_accord hchildren hbelow ha
        case h_5 => exact firstModule_accords hchildren hbelow ha
        case h_6 | h_7 =>
          rcases hname with ⟨hnone, hnone'⟩ | ⟨c, c', hc, hc', hrespells⟩
          · rw [hnone, hnone']
            exact ha
          · rw [hc, hc']
            dsimp only
            rw [← Node.isA_of_respells hrespells .string]
            split
            · exact ha.of_eq rfl rfl rfl rfl
            · exact ha.of_eq (by simp) (by simp) (by simp) (by simp)
        case h_8 | h_9 => exact ha.of_eq (by simp) (by simp) (by simp) (by simp)
        case h_10 kind _ _ _ _ _ _ _ _ _ _ =>
          rcases hname with ⟨hnone, hnone'⟩ | ⟨c, c', hc, hc', -⟩
          · rw [hnone, hnone']
            cases declarationKind? kind <;> exact ha
          · rw [hc, hc']
            cases declarationKind? kind with
            | none => exact ha
            | some _ => exact ha.of_eq (by simp) (by simp) (by simp) (by simp)
        case h_11 => exact ha

end

/-- What a module depends on holds all that its specifiers lead to. -/
theorem leadsTo_discover (r : ModuleRecord) :
    LeadsTo r.path r.text.toList r.discover.paths r.tree := by
  intro x hx
  refine Discovery.mem_paths_iff.mpr ⟨x.1, ?_, rfl⟩
  exact List.mem_append_right _ (List.mem_map_of_mem hx)

/-- The texts of a module before and after its specifiers are canonical say the same. -/
theorem ModuleRecord.analysis_accords {r r' : ModuleRecord}
    (hplain : r.tree.isA .importStatement = false)
    (h : r.tree.respells r.path r.text.toList r'.text.toList r'.tree) :
    Accords r.path r.discover.paths r.analysis r'.analysis := by
  have haccord : Accords r.path r.discover.paths
      (ModuleAnalysis.statements r.text.toList {} {} r.tree.children)
      (ModuleAnalysis.statements r'.text.toList {} {} r'.tree.children) :=
    statements_accord (Node.respells_iff.mp h).2.2.2
      (fun c hc c' hrespells s a a' ha =>
        statement_accords hrespells ((leadsTo_discover r).child hplain hc) ha)
      ⟨.nil, .nil⟩
  exact ⟨haccord.imports, haccord.reExports⟩

end CompilingProxy
