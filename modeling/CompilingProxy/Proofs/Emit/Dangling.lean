import CompilingProxy.Proofs.Analysis.Declarations
import CompilingProxy.Proofs.Emit.Braces
import CompilingProxy.Proofs.Emit.Elision

/-!
# Exports of what is erased

A module exports names that it lists, and by default the name that it gives. When everything that
binds such a name is erased, nothing is left to be exported by it. The main result is that the
export goes then, unless one of the declarations that are erased is taken for one of a value.
-/

namespace CompilingProxy

open Emit Text

namespace Node

/-! ### What is erased -/

/-- Whether nothing stays of the declaration that the statement makes. -/
def isErased (n : Node) : Bool :=
  n.isOneOf erasedDeclarations || n.container?.any leavesNothing ||
    n.isA .exportStatement &&
      (n.hasWord "type" || (n.child? .declaration).any (·.isOneOf erasedDeclarations))

/-- A declaration of the statement binds the name. -/
def Binds (source : List Char) (n : Node) (name : String) : Prop :=
  ∃ c, n.Makes c ∧ ∃ x ∈ c.ownNames source, x.name = name

/-- The statement declares the name by itself or not at all, and no namespace has something else
than blanks in front of the first dot of its name. -/
def BindsPlainly (source : List Char) (n : Node) (name : String) : Prop :=
  n.IsTight source ∧ ∀ c, n.Makes c → ∀ x ∈ c.ownNames source, x.name = name → x.form = .name

/-! ### What is exported -/

/-- What stands for the names that a statement exports without a declaration. -/
def exportedParts (n : Node) : List Node :=
  match n.child? .value with
  | some value => if value.isA .identifier then [value] else []
  | none =>
    ((n.childOf? .exportClause).map fun clause =>
      clause.children.filter (·.isA .exportSpecifier)).getD []

/-- The module's own name for what is exported. -/
def ownName? (source : List Char) (n : Node) : Option String :=
  if n.isA .identifier then some (n.text source) else (n.child? .name).map (·.text source)

/-- Whether an export is marked as one of a type, all of it or the one name. -/
def isMarked (n part : Node) : Bool :=
  n.hasWord "type" || part.isA .exportSpecifier && part.hasWord "type"

/-- An export without a declaration binds nothing. -/
theorem Makes.ownNames_eq_nil {source : List Char} {n c : Node} (h : n.Makes c)
    (hkind : n.isA .exportStatement) (hdeclaration : n.child? .declaration = none) :
    c.ownNames source = [] := by
  cases h with
  | here => exact ownNames_of_holds (isA_iff.mp hkind) (by decide)
  | exported _ _ hd =>
    rw [hdeclaration] at hd
    cases hd
  | ambient hother | space hother =>
    rw [isA_iff, isA_iff.mp hkind] at hother
    cases hother

theorem mem_children_of_mem_exportedParts {n c : Node} (h : c ∈ n.exportedParts)
    (hidentifier : c.isA .identifier) : c ∈ n.children := by
  rw [exportedParts] at h
  split at h
  case h_1 value hvalue =>
    split at h
    · rw [List.mem_singleton.mp h]
      exact mem_of_child? hvalue
    · cases h
  case h_2 =>
    -- the parts of a list are specifiers
    cases hclause : n.childOf? .exportClause with
    | none =>
      rw [hclause] at h
      cases h
    | some clause =>
      rw [hclause] at h
      have hkind := (List.mem_filter.mp h).2
      rw [isA_eq_kind?, isA_iff.mp hidentifier] at hkind
      cases hkind

end Node

namespace Emit

/-- What an export statement comes to when those of its parts stay. -/
inductive LeavesExport (t : Setting) (n : Node) : List Node → Emission → Prop
  | whole {scope : List String} : LeavesExport t n n.exportedParts ⟨[], false, scope⟩
  | part {clause : Node} {kept : List Node} {scope : List String}
      (hclause : n.childOf? .exportClause = some clause) (h : kept ≠ []) :
      LeavesExport t n kept
        ⟨[.replace clause.start clause.stop
          ("\x7b " ++ ", ".intercalate (kept.map (·.text t.source)) ++ " \x7d")], false, scope⟩
  | nothing {f : Frame} {p : Place} {scope : List String} :
      LeavesExport t n [] (remove t f p scope n)

variable {t : Setting} {f : Frame} {p : Place} {scope : List String} {n c : Node}

theorem wordEdits_identifier (hkind : n.isA .identifier) : wordEdits t f n c = [] := by
  have hno : ∀ {kinds : List Kind}, Kind.identifier ∉ kinds → n.isOneOf kinds = false := by
    intro kinds hkinds
    rw [Node.isOneOf_of_kind? (Node.isA_iff.mp hkind)]
    simpa using hkinds
  rw [wordEdits]
  split
  · rw [if_neg (by simp [hno])]
  · rw [Node.isA_eq_kind?, Node.isA_iff.mp hkind]
    rfl
  · rw [if_neg (by simp [hno])]
  · rw [if_neg (by simp [hno])]
  · rfl

/-- Nothing comes of a name but itself. -/
theorem visit_identifier {fuel : Nat} (hbare : n.tokensAreBare) (hkind : n.isA .identifier) :
    visit t fuel f p scope n = .ok ⟨[], false, scope⟩ := by
  cases fuel with
  | zero => rfl
  | succ fuel =>
    have hwords : ∀ c ∈ n.children, c.isNamed = false :=
      (Node.tokensAreBare_iff.mp hbare).1 (by simp [Node.isToken, Node.isName_iff,
        Node.isA_iff.mp hkind])
    have hchildren : ∀ ps : List (Place × Node), (∀ x ∈ ps, x.2.isNamed = false) →
        visitChildren t (visit t fuel) f n scope ps = .ok ⟨[], false, scope⟩ := by
      intro ps hps
      induction ps with
      | nil => rfl
      | cons first ps ih =>
        obtain ⟨q, m⟩ := first
        rw [visitChildren, if_neg (by simp [hps _ List.mem_cons_self]), wordEdits_identifier hkind]
        dsimp only [bind, Except.bind]
        rw [ih fun x hx => hps x (List.mem_cons_of_mem _ hx)]
        rfl
    rw [visit, visitNode, lowered?, Node.isA_iff.mp hkind]
    dsimp only
    rw [hchildren (p.children n) fun x hx => hwords _ (mem_row hx).1]
    dsimp only [bind, Except.bind]
    rw [Node.isA_eq_kind?, Node.isA_iff.mp hkind]
    rfl

theorem namespaceDeclaration_of_leavesNothing {v : Visit} {statement : Node} {exported : Bool}
    (h : (n.child? .name).any fun name =>
      name.isA .string || !n.isInstantiated || (n.child? .body).isNone) :
    namespaceDeclaration t v f p scope n statement exported =
      .ok (remove t f p scope statement) := by
  obtain ⟨name, hname, h⟩ := (Option.any_eq_true _ _).mp h
  rw [namespaceDeclaration, hname]
  dsimp only
  split
  · rfl
  · cases hbody : n.child? .body with
    | none => rfl
    | some body => simp_all

/-- The statement is deleted. -/
theorem visit_of_isErased {fuel : Nat} (h : n.isErased) :
    visit t (fuel + 1) f p scope n = .ok (remove t f p scope n) := by
  rw [Node.isErased, Bool.or_eq_true, Bool.or_eq_true, Bool.and_eq_true, Bool.or_eq_true] at h
  rcases h with (hkind | hspace) | ⟨hexport, h⟩
  · obtain ⟨k, hk, hkind⟩ := Node.isOneOf_iff.mp hkind
    rw [visit, visitNode, lowered?, hkind]
    simp only [erasedDeclarations, List.mem_cons, List.not_mem_nil, or_false] at hk
    rcases hk with rfl | rfl | rfl | rfl <;> rfl
  · obtain ⟨d, hd, hleaves⟩ := (Option.any_eq_true _ _).mp hspace
    rw [Node.leavesNothing, Bool.and_eq_true] at hleaves
    rw [visit, visitNode_of_space hd hleaves.1]
    exact namespaceDeclaration_of_leavesNothing hleaves.2
  · rw [visit, visitNode, lowered?, Node.isA_iff.mp hexport]
    dsimp only
    rw [exportStatement]
    rcases h with htype | hd
    · rw [if_pos htype]
      rfl
    · split
      · rfl
      · obtain ⟨d, hd, herased⟩ := (Option.any_eq_true _ _).mp hd
        rw [hd]
        dsimp only
        rw [if_pos herased]
        rfl

/-- Whether a part of an export stays. -/
def staysExported (t : Setting) (n part : Node) : Bool :=
  !n.isMarked part && !(part.ownName? t.source).any t.typeOnly.contains

theorem exportClause_leaves {clause : Node} (hclause : n.childOf? .exportClause = some clause)
    (hvalue : n.child? .value = none) (hsource : n.child? .source = none)
    (htype : n.hasWord "type" = false) :
    LeavesExport t n (n.exportedParts.filter (staysExported t n))
      (exportClause t f p scope n clause) := by
  have hparts : n.exportedParts = clause.children.filter (·.isA .exportSpecifier) := by
    rw [Node.exportedParts, hvalue, hclause]
    rfl
  have hstays : ∀ spec ∈ n.exportedParts, staysExported t n spec =
      !(spec.hasWord "type" || ((n.child? .source).isNone &&
        (spec.child? .name).any fun name => t.typeOnly.contains (name.text t.source))) := by
    intro spec hspec
    rw [hparts] at hspec
    have hkind := (List.mem_filter.mp hspec).2
    have hname : spec.isA .identifier = false := by
      rw [Node.isA_eq_kind?, Node.isA_iff.mp hkind]
      rfl
    rw [staysExported, Node.isMarked, Node.ownName?, htype, hkind, hname, hsource, Bool.not_or]
    cases spec.child? .name <;> simp
  have hkept := List.filter_congr hstays
  rw [hkept, hparts, exportClause]
  dsimp only
  split
  case isTrue hall =>
    rw [List.length_map, beq_iff_eq] at hall
    rw [List.filter_sublist.eq_of_length hall, ← hparts]
    exact .whole
  case isFalse =>
    split
    case isTrue hnone =>
      rw [List.isEmpty_iff, List.map_eq_nil_iff] at hnone
      rw [hnone]
      exact .nothing
    case isFalse hsome =>
      rw [List.isEmpty_iff, List.map_eq_nil_iff] at hsome
      exact .part hclause hsome

/-- Of an export by default the name stays, unless it is one of a type. -/
theorem filter_exportedParts_of_value {value : Node} (hvalue : n.child? .value = some value)
    (hkind : value.isA .identifier) (htype : n.hasWord "type" = false) :
    n.exportedParts.filter (staysExported t n) =
      if t.typeOnly.contains (value.text t.source) then [] else n.exportedParts := by
  have hparts : n.exportedParts = [value] := by
    rw [Node.exportedParts, hvalue]
    exact if_pos hkind
  have hspecifier : value.isA .exportSpecifier = false := by
    rw [Node.isA_eq_kind?, Node.isA_iff.mp hkind]
    rfl
  have hstays : staysExported t n value = !t.typeOnly.contains (value.text t.source) := by
    simp [staysExported, Node.isMarked, Node.ownName?, hkind, htype, hspecifier]
  rw [hparts, List.filter_singleton, hstays]
  cases t.typeOnly.contains (value.text t.source) <;> rfl

/-- An export that declares nothing comes to those of its parts that stay. -/
theorem exportStatement_leaves {v : Visit} {out : Emission} {x : Node}
    (hv : ∀ c ∈ n.exportedParts, c.isA .identifier →
      ∀ p scope, v f p scope c = .ok ⟨[], false, scope⟩)
    (hdeclaration : n.child? .declaration = none) (hsource : n.child? .source = none)
    (hx : x ∈ n.exportedParts) (h : exportStatement t v f p scope n = .ok out) :
    LeavesExport t n (n.exportedParts.filter (staysExported t n)) out := by
  rw [exportStatement, hdeclaration] at h
  split at h
  case isTrue htype =>
    cases h
    have hnone : n.exportedParts.filter (staysExported t n) = [] :=
      List.filter_eq_nil_iff.mpr fun c _ => by simp [staysExported, Node.isMarked, htype]
    rw [hnone]
    exact .nothing
  case isFalse htype =>
    rw [Bool.not_eq_true] at htype
    split at h
    case h_1 => contradiction
    case h_2 _ value _ hvalue =>
      -- what is exported by default has a part only if it is a name
      have hkind : value.isA .identifier := by
        by_contra hno
        simp [Node.exportedParts, hvalue, hno] at hx
      rw [filter_exportedParts_of_value hvalue hkind htype]
      rw [hkind, Bool.true_and] at h
      split at h
      case isTrue hgone =>
        cases h
        rw [if_pos hgone]
        exact .nothing
      case isFalse hkept =>
        rw [hv value (by simp [Node.exportedParts, hvalue, hkind]) hkind] at h
        cases h
        rw [if_neg hkept]
        exact .whole
    case h_3 hvalue =>
      split at h
      case h_1 clause hclause =>
        cases h
        exact exportClause_leaves hclause hvalue hsource htype
      case h_2 hclause =>
        rw [Node.exportedParts, hvalue, hclause] at hx
        cases hx

end Emit

namespace ModuleRecord

/-- The module imports something by the name. -/
def Imports (r : ModuleRecord) (name : String) : Prop :=
  ∃ i ∈ r.analysis.imports, ∃ b ∈ i.bindings, b.localName = name

/-- The name is bound at the top of the module, and nothing stays of what binds it. -/
structure BindsErased (r : ModuleRecord) (o : CompilerOptions) (name : String) : Prop where
  binds : (∃ n ∈ r.tree.children, n.Binds r.text.toList name) ∨ r.Imports name
  erased : ∀ n ∈ r.tree.children, n.Binds r.text.toList name → n.isErased
  elided : ∀ i ∈ r.analysis.imports, ∀ b ∈ i.bindings, b.localName = name →
    isElided r.analysis o.verbatimModuleSyntax b

/-- One of the statements of which nothing stays declares the name as that of something else than a
type: of a namespace, an overload, or a value that exists elsewhere. -/
def TakesForValue (r : ModuleRecord) (name : String) : Prop :=
  ∃ n ∈ r.tree.children, n.isErased ∧ n.Declares r.text.toList name true

/-- The compiled text comes of edits among which are those by which these parts of an export stay.
-/
def EmitsExport (r : ModuleRecord) (o : CompilerOptions) (out : String) (n : Node)
    (kept : List Node) : Prop :=
  ∃ own, r.Compiles out n own ∧
    LeavesExport (.ofModule r r.analysis o.verbatimModuleSyntax) n kept own

variable {r : ModuleRecord} {o : CompilerOptions} {name : String}

theorem mem_typeOnly_iff : name ∈ (Setting.ofModule r r.analysis o.verbatimModuleSyntax).typeOnly ↔
    name ∈ r.analysis.typeOnlyNames ∨ ∃ i ∈ r.analysis.imports, ∃ b ∈ i.bindings,
      b.localName = name ∧ isElided r.analysis o.verbatimModuleSyntax b := by
  simp only [Setting.ofModule, List.mem_append, List.mem_map, List.mem_filter, List.mem_flatMap]
  grind

theorem BindsErased.takesForValue_iff (h : r.BindsErased o name) :
    r.TakesForValue name ↔ ∃ n ∈ r.tree.children, n.Declares r.text.toList name true := by
  constructor
  · rintro ⟨n, hn, -, hvalue⟩
    exact ⟨n, hn, hvalue⟩
  · rintro ⟨n, hn, hvalue⟩
    have hbinds : n.Binds r.text.toList name := by
      obtain ⟨c, hmakes, -, hc⟩ := hvalue
      exact ⟨c, hmakes, _, hc, rfl⟩
    exact ⟨n, hn, h.erased n hn hbinds, hvalue⟩

/-- Of the names of which nothing stays, those that are imported or not taken for values are taken
for names of types. -/
theorem BindsErased.mem_typeOnly_iff (h : r.BindsErased o name)
    (hplain : ∀ n ∈ r.tree.children, n.BindsPlainly r.text.toList name) :
    name ∈ (Setting.ofModule r r.analysis o.verbatimModuleSyntax).typeOnly ↔
      r.Imports name ∨ ¬ r.TakesForValue name := by
  have himports : (∃ i ∈ r.analysis.imports, ∃ b ∈ i.bindings,
      b.localName = name ∧ isElided r.analysis o.verbatimModuleSyntax b) ↔ r.Imports name := by
    constructor
    · rintro ⟨i, hi, b, hb, hname, -⟩
      exact ⟨i, hi, b, hb, hname⟩
    · rintro ⟨i, hi, b, hb, hname⟩
      exact ⟨i, hi, b, hb, hname, h.elided i hi b hb hname⟩
  rw [ModuleRecord.mem_typeOnly_iff, himports, h.takesForValue_iff,
    ModuleRecord.mem_typeOnlyNames_iff fun n hn => (hplain n hn).1, or_comm]
  constructor
  · rintro (himport | ⟨-, hvalue⟩)
    · exact .inl himport
    · exact .inr hvalue
  · rintro (himport | hvalue)
    · exact .inl himport
    · rcases h.binds with ⟨n, hn, c, hmakes, x, hx, hname⟩ | himport
      · -- what binds the name is no value, and so it declares the name as that of a type
        obtain rfl : x = ⟨.name, name⟩ := by
          rw [← (hplain n hn).2 c hmakes x hx hname, ← hname]
        cases htype : c.isTypeDeclaration with
        | true => exact .inr ⟨⟨n, hn, c, hmakes, htype, hx⟩, hvalue⟩
        | false => exact absurd ⟨n, hn, c, hmakes, htype, hx⟩ hvalue
      · exact .inl himport

/-- When a module is compiled, an export of a name of which nothing stays goes, unless no import
binds the name and a statement declares it as something else than a type. -/
theorem emit_drops_erased_exports {out : String} (hkind : r.kind.isTypeScript)
    (hbare : r.tree.tokensAreBare) (hemit : r.emit r.analysis o = .ok out) {n : Node}
    (hmem : n ∈ r.tree.children) (hexport : n.isA .exportStatement)
    (hdeclaration : n.child? .declaration = none) (hsource : n.child? .source = none)
    (hbinds : r.BindsErased o name)
    (hplain : ∀ n ∈ r.tree.children, n.BindsPlainly r.text.toList name) {part : Node}
    (hpart : part ∈ n.exportedParts) (hname : part.ownName? r.text.toList = some name) :
    ∃ kept, r.EmitsExport o out n kept ∧
      (part ∈ kept ↔ n.isMarked part = false ∧ ¬ r.Imports name ∧ r.TakesForValue name) := by
  obtain ⟨fuel, p, scope, own, -, hown, hcompiles⟩ := r.exists_compiles hkind hemit hmem
  rw [visit, visitNode, lowered?, Node.isA_iff.mp hexport] at hown
  have hleaves := exportStatement_leaves (fun c hc hidentifier p scope =>
    visit_identifier ((Node.tokensAreBare_iff.mp ((Node.tokensAreBare_iff.mp hbare).2 n hmem)).2 c
      (Node.mem_children_of_mem_exportedParts hc hidentifier)) hidentifier)
    hdeclaration hsource hpart hown
  refine ⟨_, ⟨own, hcompiles, hleaves⟩, ?_⟩
  have hstays : staysExported (.ofModule r r.analysis o.verbatimModuleSyntax) n part ↔
      n.isMarked part = false ∧ ¬ (r.Imports name ∨ ¬ r.TakesForValue name) := by
    rw [← hbinds.mem_typeOnly_iff hplain, staysExported]
    have hsource : (Setting.ofModule r r.analysis o.verbatimModuleSyntax).source =
      r.text.toList := rfl
    rw [hsource, hname]
    simp
  rw [List.mem_filter, and_iff_right hpart, hstays, not_or, not_not]

end ModuleRecord

section

open Node

/-- `export { T };` -/
def exportOfName (start : Nat) : Node :=
  branch .exportStatement
    [word start "export",
      branch .exportClause
        [word (start + 7) "\x7b",
          branch .exportSpecifier [playing .name (leaf .identifier (start + 9) (start + 10))],
          word (start + 11) "\x7d"],
      word (start + 12) ";"]

/-- `T` -/
def specifierOfName (start : Nat) : Node :=
  branch .exportSpecifier [playing .name (leaf .identifier (start + 9) (start + 10))]

/-- `interface T {}` -/
def interfaceOfNothing : Node :=
  branch .interfaceDeclaration
    [word 0 "interface", playing .name (leaf .typeIdentifier 10 11),
      playing .body (branch .interfaceBody [word 12 "\x7b", word 13 "\x7d"])]

/-- A type is declared and exported. -/
def exportsInterface : ModuleRecord :=
  .ofTree "m.ts" "interface T \x7b\x7d\nexport \x7b T \x7d;\n" <|
    script 29 [interfaceOfNothing, exportOfName 15]

/-- `namespace T { export interface A {} }` -/
def namespaceOfType : Node :=
  branch .internalModule
    [word 0 "namespace", playing .name (leaf .identifier 10 11),
      playing .body <| branch .statementBlock
        [word 12 "\x7b",
          branch .exportStatement
            [word 14 "export",
              playing .declaration <| branch .interfaceDeclaration
                [word 21 "interface", playing .name (leaf .typeIdentifier 31 32),
                  playing .body (branch .interfaceBody [word 33 "\x7b", word 34 "\x7d"])]],
          word 36 "\x7d"]]

/-- A namespace of types is declared and exported. -/
def exportsNamespace : ModuleRecord :=
  .ofTree "m.ts" "namespace T \x7b export interface A \x7b\x7d \x7d\nexport \x7b T \x7d;\n" <|
    script 52 [branch .expressionStatement [namespaceOfType], exportOfName 38]

theorem exportsInterface_emit :
    exportsInterface.emit exportsInterface.analysis {} = .ok "export \x7b\x7d;\n" := by
  cbv

theorem exportsInterface_binds {n c : Node} {x : ExportedName}
    (hn : n ∈ exportsInterface.tree.children) (hc : n.Makes c)
    (hx : x ∈ c.ownNames exportsInterface.text.toList) :
    n = interfaceOfNothing ∧ c = interfaceOfNothing ∧ x = ⟨.name, "T"⟩ := by
  have hchildren : exportsInterface.tree.children = [interfaceOfNothing, exportOfName 15] := rfl
  rw [hchildren, List.mem_cons, List.mem_singleton] at hn
  rcases hn with rfl | rfl
  · obtain rfl := hc.eq_of_kind? (k := .interfaceDeclaration) rfl (by decide)
    refine ⟨rfl, rfl, ?_⟩
    have hnames : interfaceOfNothing.ownNames exportsInterface.text.toList = [⟨.name, "T"⟩] := by
      decide
    rwa [hnames, List.mem_singleton] at hx
  · rw [hc.ownNames_eq_nil rfl rfl] at hx
    cases hx

/-- An export of a type is dropped. -/
theorem exportsInterface_drops_export :
    exportsInterface.BindsErased {} "T" ∧
      ∃ kept, exportsInterface.EmitsExport {} "export \x7b\x7d;\n" (exportOfName 15) kept ∧
        (specifierOfName 15 ∈ kept ↔ (exportOfName 15).isMarked (specifierOfName 15) = false ∧
          ¬ exportsInterface.Imports "T" ∧ exportsInterface.TakesForValue "T") := by
  have hbinds : exportsInterface.BindsErased {} "T" := by
    refine ⟨.inl ⟨interfaceOfNothing, List.mem_cons_self, _, .here _, ⟨.name, "T"⟩, ?_, rfl⟩,
      fun n hn h => ?_, fun i hi => ?_⟩
    · decide
    · obtain ⟨c, hc, x, hx, -⟩ := h
      obtain ⟨rfl, -⟩ := exportsInterface_binds hn hc hx
      decide
    · have hnone : exportsInterface.analysis.imports = [] := by decide
      rw [hnone] at hi
      cases hi
  refine ⟨hbinds, exportsInterface.emit_drops_erased_exports rfl (by decide)
    exportsInterface_emit (List.mem_cons_of_mem _ List.mem_cons_self) rfl rfl rfl hbinds
    (fun n hn => ⟨fun c hc x hx => ?_, fun c hc x hx _ => ?_⟩) List.mem_cons_self (by decide)⟩
  · obtain ⟨-, -, rfl⟩ := exportsInterface_binds hn hc hx
    decide
  · obtain ⟨-, -, rfl⟩ := exportsInterface_binds hn hc hx
    rfl

/-- An export of a namespace of types stays, though the namespace goes. -/
theorem exportsNamespace_keeps_export :
    exportsNamespace.tree.hasError = false ∧ exportsNamespace.BindsErased {} "T" ∧
      specifierOfName 38 ∈ (exportOfName 38).exportedParts ∧
      (specifierOfName 38).ownName? exportsNamespace.text.toList = some "T" ∧
      exportsNamespace.emit exportsNamespace.analysis {} = .ok "export \x7b T \x7d;\n" := by
  have hbinds : exportsNamespace.BindsErased {} "T" := by
    refine ⟨.inl ⟨_, List.mem_cons_self, namespaceOfType, .space rfl rfl rfl, ⟨.name, "T"⟩, ?_,
      rfl⟩, fun n hn h => ?_, fun i hi => ?_⟩
    · decide
    · obtain ⟨c, hc, x, hx, -⟩ := h
      have hchildren : exportsNamespace.tree.children =
        [branch .expressionStatement [namespaceOfType], exportOfName 38] := rfl
      rw [hchildren, List.mem_cons, List.mem_singleton] at hn
      rcases hn with rfl | rfl
      · decide
      · rw [hc.ownNames_eq_nil rfl rfl] at hx
        cases hx
    · have hnone : exportsNamespace.analysis.imports = [] := by decide
      rw [hnone] at hi
      cases hi
  exact ⟨by decide, hbinds, List.mem_cons_self, by decide, by cbv⟩

end

end CompilingProxy
