import Mathlib
import CompilingProxy.Emit.Basic
import CompilingProxy.Proofs.Analysis.ImportOrder
import CompilingProxy.Proofs.Analysis.Occurrence
import CompilingProxy.Proofs.Emit.Row
import CompilingProxy.Proofs.Outcome
import CompilingProxy.Proofs.Sketch

/-!
# Which imports stay

Compiling decides for each import statement which of its bindings stay. The decision is read off the
names that the analysis collects, and the main result says what it comes to on the tree: a binding
stays when its name occurs in the module as a value and the binding is not of a type.
-/

namespace CompilingProxy.Emit

open Text

/-- What an import statement comes to when those of its bindings stay. -/
inductive Leaves (t : Setting) (n : Node) (i : ImportDecl) :
    List ImportBinding → Emission → Prop
  | whole {scope : List String} : Leaves t n i i.bindings ⟨[], false, scope⟩
  | part {kept : List ImportBinding} {scope : List String} (h : kept ≠ []) :
      Leaves t n i kept
        ⟨[.replace n.start n.stop (importText t n i kept)], false, scope⟩
  | nothing {f : Frame} {p : Place} {scope : List String} :
      Leaves t n i [] (remove t f p scope n)

/-! ### One statement -/

theorem infix_intercalate {s text : String} {texts : List String} (h : text ∈ texts) :
    text.toList <:+: (s.intercalate texts).toList := by
  obtain ⟨front, back, rfl⟩ := List.append_of_mem h
  cases back with
  | nil =>
    cases front with
    | nil => simp
    | cons first front =>
      rw [String.intercalate_append_of_ne_nil (by simp) (by simp)]
      simp only [String.intercalate_singleton, String.toList_append]
      exact (List.suffix_append _ _).isInfix
  | cons next back =>
    have htail : text.toList <:+: (s.intercalate (text :: next :: back)).toList := by
      rw [String.intercalate_cons_cons]
      simp only [String.toList_append, List.append_assoc]
      exact (List.prefix_append _ _).isInfix
    cases front with
    | nil => exact htail
    | cons first front =>
      rw [String.intercalate_append_of_ne_nil (by simp) (by simp)]
      refine htail.trans ?_
      simp only [String.toList_append]
      exact (List.suffix_append _ _).isInfix

/-- The import that remains names every binding that stays, as it is written. -/
theorem binding_infix_importText {t : Setting} {n : Node} {i : ImportDecl}
    {kept : List ImportBinding} {b : ImportBinding} (h : b ∈ kept) :
    slice t.source b.range.start b.range.stop <:+: (importText t n i kept).toList := by
  unfold importText
  extract_lets specifier text braces inBraces named parts names ending
  have htext : slice t.source b.range.start b.range.stop = (text b).toList :=
    String.toList_ofList.symm
  rw [htext]
  obtain ⟨part, hpart, hinfix⟩ : ∃ part ∈ parts, (text b).toList <:+: part.toList := by
    by_cases hin : inBraces b
    · have hnamed : text b ∈ named := List.mem_map_of_mem (List.mem_filter.mpr ⟨h, hin⟩)
      refine ⟨"\x7b " ++ ", ".intercalate named ++ " \x7d", ?_, ?_⟩
      · simp [parts, List.ne_nil_of_mem hnamed]
      · rw [String.toList_append, String.toList_append]
        exact (infix_intercalate hnamed).trans
          ((List.suffix_append _ _).isInfix.trans (List.prefix_append _ _).isInfix)
    · refine ⟨text b, List.mem_append_left _ ?_, List.infix_rfl⟩
      exact List.mem_map_of_mem (List.mem_filter.mpr ⟨h, by simpa using hin⟩)
  have hnames : names = ", ".intercalate parts := by simp [names, List.ne_nil_of_mem hpart]
  refine hinfix.trans ((infix_intercalate (s := ", ") hpart).trans ?_)
  rw [hnames]
  simp only [String.toList_append, List.append_assoc]
  exact (List.prefix_append _ _).isInfix.trans (List.suffix_append _ _).isInfix

/-- An import statement comes to what its bindings that are not elided leave. -/
theorem importStatement_leaves {t : Setting} {f : Frame} {p : Place} {scope : List String}
    {n : Node} {i : ImportDecl} (hverbatim : t.verbatim = false)
    (hfind : t.analysis.imports.find? (·.range.start == n.start) = some i)
    (htypes : i.typeOnly → ∀ b ∈ i.bindings, b.typeOnly) :
    Leaves t n i (i.bindings.filter fun b => !isElided t.analysis t.verbatim b)
      (importStatement t f p scope n) := by
  rw [importStatement, hfind]
  dsimp only
  split
  case isTrue htype =>
    have hnone : i.bindings.filter (fun b => !isElided t.analysis t.verbatim b) = [] := by
      refine List.filter_eq_nil_iff.mpr fun b hb => ?_
      simp [isElided, htypes htype b hb]
    rw [hnone]
    exact .nothing
  case isFalse =>
    split
    case isTrue hall =>
      have hwhole : i.bindings.filter (fun b => !isElided t.analysis t.verbatim b) = i.bindings :=
        List.filter_sublist.eq_of_length (by simpa using hall)
      rw [hwhole]
      exact .whole
    case isFalse =>
      split
      case isTrue hnone =>
        obtain ⟨hempty, -⟩ := Bool.and_eq_true_iff.mp hnone
        rw [List.isEmpty_iff.mp hempty]
        exact .nothing
      case isFalse hsome => exact .part (by simpa [hverbatim] using hsome)

theorem clauseBindings_typeOnly {source : List Char} {part : Node} {b : ImportBinding}
    (h : b ∈ clauseBindings source true part) : b.typeOnly := by
  rw [clauseBindings] at h
  split at h
  · rw [List.mem_singleton.mp h]
  · obtain ⟨name, -, rfl⟩ := Option.map_eq_some_iff.mp (Option.mem_toList.mp h)
    rfl
  · obtain ⟨spec, -, hspec⟩ := List.mem_filterMap.mp h
    rw [importedBinding?] at hspec
    cases hname : spec.child? .name with
    | none => simp [hname] at hspec
    | some name =>
      simp only [hname, Option.bind_eq_bind, Option.bind_some, Option.pure_def,
        Option.some.injEq] at hspec
      rw [← hspec, Bool.true_or]
  · cases h

/-- An import of types imports every one of its names as a type. -/
theorem importDecl?_typeOnly {source : List Char} {n : Node} {i : ImportDecl}
    (h : importDecl? source n = some i) (htype : i.typeOnly) : ∀ b ∈ i.bindings, b.typeOnly := by
  intro b hb
  rw [importDecl?] at h
  cases hspecifier : n.child? .source with
  | none => simp [hspecifier] at h
  | some specifier =>
    simp only [hspecifier, Option.bind_eq_bind, Option.bind_some, Option.pure_def,
      Option.some.injEq] at h
    subst h
    dsimp only at htype hb
    rw [htype] at hb
    split at hb
    · obtain ⟨part, -, hpart⟩ := List.mem_flatMap.mp hb
      exact clauseBindings_typeOnly hpart
    · cases hb

/-! ### The whole module -/

/-- The edits of a module are those of its statements. -/
theorem visitStatements_mem {v : Visit} {f : Frame} {scope : List String}
    {ps : List (Place × Node)} {edits : List TextEdit} {gone : List (Node × Bool)}
    (h : visitStatements v f scope ps = .ok (edits, gone)) {p : Place} {n : Node}
    (hmem : (p, n) ∈ ps) :
    ∃ scope' own, v f p scope' n = .ok own ∧ own.edits <:+: edits ∧ (n, own.removed) ∈ gone := by
  induction ps generalizing scope edits gone with
  | nil => cases hmem
  | cons first ps ih =>
    obtain ⟨q, m⟩ := first
    rw [visitStatements] at h
    obtain ⟨out, hout, h⟩ := bind_eq_ok_iff.mp h
    obtain ⟨⟨rest, restGone⟩, hrest, h⟩ := bind_eq_ok_iff.mp h
    cases h
    rcases List.mem_cons.mp hmem with heq | hmem
    · cases heq
      exact ⟨scope, out, hout, (List.prefix_append _ _).isInfix, List.mem_cons_self⟩
    · obtain ⟨scope', own, hown, hedits, hgone⟩ := ih hrest hmem
      exact ⟨scope', own, hown, hedits.trans (List.suffix_append _ _).isInfix,
        List.mem_cons_of_mem _ hgone⟩

theorem visit_importStatement {t : Setting} {fuel : Nat} {f : Frame} {p : Place}
    {scope : List String} {n : Node} (h : n.isA .importStatement) :
    visit t (fuel + 1) f p scope n = .ok (importStatement t f p scope n) := by
  rw [visit, visitNode, lowered?, Node.isA_iff.mp h]

end CompilingProxy.Emit

namespace CompilingProxy

open Emit Text

theorem Node.depth_eq_succ (n : Node) : ∃ k, n.depth = k + 1 := by
  cases n
  exact ⟨_, rfl⟩

theorem ModuleRecord.mem_analysis_valueRefs_iff {r : ModuleRecord} (h : r.tree.tokensAreBare)
    {name : String} :
    name ∈ r.analysis.valueRefs ↔ r.tree.OccursAsValue r.text.toList name := by
  have hcollected : r.analysis.valueRefs =
      (references r.text.toList false r.tree).values.eraseDups := rfl
  rw [hcollected, List.mem_eraseDups, mem_references_values_iff r.tree h]
  exact and_iff_right rfl

theorem replacement_infix_splice {e : TextEdit} {es : List TextEdit} (h : e ∈ es)
    (rest : List Char) (cursor written : Nat) :
    e.replacement.toList <:+: (splice rest cursor written es).1 := by
  induction es generalizing rest cursor written with
  | nil => cases h
  | cons first es ih =>
    rw [splice]
    rcases List.mem_cons.mp h with rfl | h
    · exact ⟨_, _, rfl⟩
    · exact (ih h _ _ _).trans (List.suffix_append _ _).isInfix

/-- What edits put into a text is found in it. -/
theorem replacement_infix_applyEdits {source text : List Char} {edits : List TextEdit}
    {offsets : OffsetMap} {e : TextEdit} (h : applyEdits source edits = .ok (text, offsets))
    (he : e ∈ edits) : e.replacement.toList <:+: text := by
  obtain ⟨ordered, hordered, h⟩ := bind_eq_ok_iff.mp h
  obtain ⟨_, -, hordered⟩ := bind_eq_ok_iff.mp hordered
  cases hordered
  cases h
  exact replacement_infix_splice (List.mem_mergeSort.mpr he) _ _ _

/-- The compiled text comes of edits among which are those of the statement. -/
def ModuleRecord.Compiles (r : ModuleRecord) (out : String) (n : Node) (own : Emission) : Prop :=
  ∃ edits text offsets gone, applyEdits r.text.toList edits = .ok (text, offsets) ∧
    out = String.ofList (text ++ moduleMark text gone) ∧ own.edits <:+: edits ∧
    (n, own.removed) ∈ gone

/-- When a module is compiled, so is each of its statements. -/
theorem ModuleRecord.exists_compiles {r : ModuleRecord} {o : CompilerOptions} {out : String}
    (hkind : r.kind.isTypeScript) (hemit : r.emit r.analysis o = .ok out) {n : Node}
    (hmem : n ∈ r.tree.children) :
    ∃ fuel p scope own, r.tree.depth = fuel + 1 ∧
      visit (.ofModule r r.analysis o.verbatimModuleSyntax) (fuel + 1)
        ⟨[], ⟨0, width r.text.toList⟩⟩ p scope n = .ok own ∧ r.Compiles out n own := by
  rw [ModuleRecord.emit, if_neg (by simp [hkind])] at hemit
  obtain ⟨⟨edits, gone⟩, hvisit, hemit⟩ := bind_eq_ok_iff.mp hemit
  obtain ⟨⟨text, offsets⟩, happly, hemit⟩ := bind_eq_ok_iff.mp hemit
  cases hemit
  obtain ⟨p, hp⟩ := Place.exists_mem_row [r.tree] none hmem
  obtain ⟨scope, own, hown, hedits, hgone⟩ := visitStatements_mem hvisit hp
  obtain ⟨fuel, hdepth⟩ := r.tree.depth_eq_succ
  rw [hdepth] at hown
  exact ⟨fuel, p, scope, own, hdepth, hown, edits, text, offsets, gone, happly, rfl, hedits, hgone⟩

/-- What the edits of a statement put in is found in the compiled text. -/
theorem ModuleRecord.Compiles.infix_out {r : ModuleRecord} {out : String} {n : Node}
    {own : Emission} (h : r.Compiles out n own) {e : TextEdit} (he : e ∈ own.edits) :
    e.replacement.toList <:+: out.toList := by
  obtain ⟨edits, text, offsets, gone, happly, rfl, hedits, -⟩ := h
  rw [String.toList_ofList]
  exact (replacement_infix_applyEdits happly (hedits.subset he)).trans
    (List.prefix_append _ _).isInfix

/-- The compiled text comes of edits among which the import statement has those that leave the
bindings. -/
def ModuleRecord.EmitsImport (r : ModuleRecord) (out : String) (n : Node) (i : ImportDecl)
    (kept : List ImportBinding) : Prop :=
  ∃ edits text offsets gone own, applyEdits r.text.toList edits = .ok (text, offsets) ∧
    out = String.ofList (text ++ moduleMark text gone) ∧ own.edits <:+: edits ∧
    (n, own.removed) ∈ gone ∧ Leaves (Setting.ofModule r r.analysis false) n i kept own

theorem ModuleRecord.EmitsImport.binding_infix {r : ModuleRecord} {out : String} {n : Node}
    {i : ImportDecl} {kept : List ImportBinding} (h : r.EmitsImport out n i kept)
    (hpart : kept ≠ i.bindings) {b : ImportBinding} (hb : b ∈ kept) :
    slice r.text.toList b.range.start b.range.stop <:+: out.toList := by
  obtain ⟨edits, text, offsets, gone, own, happly, rfl, hedits, -, hown⟩ := h
  rw [String.toList_ofList]
  refine List.IsInfix.trans ?_ (List.prefix_append _ _).isInfix
  cases hown with
  | whole => exact absurd rfl hpart
  | part =>
    have hnames := binding_infix_importText (t := .ofModule r r.analysis false) (n := n) (i := i) hb
    have hput := replacement_infix_applyEdits happly (hedits.subset List.mem_cons_self)
    exact hnames.trans hput
  | nothing => cases hb

/-- When a module is compiled, each import at its top keeps the bindings that are not of types and
whose names occur in the module as values, and no others. -/
theorem ModuleRecord.emit_keeps_value_bindings {r : ModuleRecord} {o : CompilerOptions}
    {out : String} (hkind : r.kind.isTypeScript) (hverbatim : o.verbatimModuleSyntax = false)
    (hordered : r.tree.isOrdered) (hbare : r.tree.tokensAreBare)
    (hemit : r.emit r.analysis o = .ok out) {n : Node} {i : ImportDecl}
    (hmem : n ∈ r.tree.children) (himport : n.isA .importStatement)
    (hdecl : importDecl? r.text.toList n = some i) :
    ∃ kept, r.EmitsImport out n i kept ∧ kept.Sublist i.bindings ∧
      (∀ b ∈ i.bindings, b ∈ kept ↔
        b.typeOnly = false ∧ r.tree.OccursAsValue r.text.toList b.localName) ∧
      (kept ≠ i.bindings → ∀ b ∈ kept,
        slice r.text.toList b.range.start b.range.stop <:+: out.toList) := by
  rw [ModuleRecord.emit, if_neg (by simp [hkind])] at hemit
  obtain ⟨⟨edits, gone⟩, hvisit, hemit⟩ := bind_eq_ok_iff.mp hemit
  obtain ⟨⟨text, offsets⟩, happly, hemit⟩ := bind_eq_ok_iff.mp hemit
  cases hemit
  obtain ⟨p, hp⟩ := Place.exists_mem_row [r.tree] none hmem
  obtain ⟨scope, own, hown, hedits, hgone⟩ := visitStatements_mem hvisit hp
  obtain ⟨k, hdepth⟩ := r.tree.depth_eq_succ
  rw [hdepth, visit_importStatement himport] at hown
  cases hown
  rw [hverbatim] at hedits hgone
  have hemits : r.EmitsImport (String.ofList (text ++ moduleMark text gone)) n i _ :=
    ⟨edits, text, offsets, gone, _, happly, rfl, hedits, hgone, importStatement_leaves rfl
      (r.find?_imports hordered hmem himport hdecl) (importDecl?_typeOnly hdecl)⟩
  refine ⟨_, hemits, List.filter_sublist, fun b hb => ?_, fun hpart b hb => ?_⟩
  · rw [← r.mem_analysis_valueRefs_iff hbare, List.mem_filter, and_iff_right hb]
    simp [isElided, Setting.ofModule]
  · exact hemits.binding_infix hpart hb

section

open Node

/-- `import { A, B } from './n';` -/
def importOfTwo : Node :=
  branch .importStatement
    [word 0 "import",
      branch .importClause
        [branch .namedImports
          [word 7 "\x7b", branch .importSpecifier [playing .name (leaf .identifier 9 10)],
            word 10 ",", branch .importSpecifier [playing .name (leaf .identifier 12 13)],
            word 14 "\x7d"]],
      word 16 "from", playing .source (literal 21 3), word 26 ";"]

/-- Two names are imported and one of them is called. -/
def usesOne : ModuleRecord :=
  .ofTree "m.ts" "import \x7b A, B \x7d from './n';\nA();\n" <|
    script 33
      [importOfTwo,
        branch .expressionStatement
          [branch .callExpression
            [playing .function (leaf .identifier 28 29),
              playing .arguments (branch .arguments [word 29 "(", word 30 ")"])],
            word 31 ";"]]

theorem usesOne_emit :
    usesOne.emit usesOne.analysis {} = .ok "import \x7b A \x7d from './n';\nA();\n" := by
  cbv

/-- `emit_keeps_value_bindings` for a module that uses one of two names. -/
theorem usesOne_keeps_value_bindings :
    ∃ i, importDecl? usesOne.text.toList importOfTwo = some i ∧
      i.bindings.map (·.localName) = ["A", "B"] ∧
      ∃ kept, usesOne.EmitsImport "import \x7b A \x7d from './n';\nA();\n" importOfTwo i kept ∧
        kept.Sublist i.bindings ∧
        (∀ b ∈ i.bindings, b ∈ kept ↔
          b.typeOnly = false ∧ usesOne.tree.OccursAsValue usesOne.text.toList b.localName) ∧
        (kept ≠ i.bindings → ∀ b ∈ kept,
          slice usesOne.text.toList b.range.start b.range.stop <:+:
            "import \x7b A \x7d from './n';\nA();\n".toList) :=
  ⟨_, rfl, by decide, usesOne.emit_keeps_value_bindings (o := {}) rfl rfl (by decide) (by decide)
    usesOne_emit List.mem_cons_self rfl rfl⟩

/-- `import A = N.B;` -/
def aliasOfMember : Node :=
  branch .importAlias
    [word 21 "import", leaf .identifier 28 29, word 30 "=",
      branch .nestedIdentifier
        [playing .object (leaf .identifier 32 33), word 33 ".",
          playing .property (leaf .propertyIdentifier 34 35)],
      word 35 ";"]

/-- The one use of an imported name is in an alias. -/
def usesInAlias : ModuleRecord :=
  .ofTree "m.ts" "import N from './n';\nimport A = N.B;\nconsole.log(A);\n" <|
    script 53
      [branch .importStatement
        [word 0 "import", branch .importClause [leaf .identifier 7 8], word 9 "from",
          playing .source (literal 14 3), word 19 ";"],
        aliasOfMember,
        branch .expressionStatement
          [branch .callExpression
            [playing .function <| branch .memberExpression
              [playing .object (leaf .identifier 37 44), word 44 ".",
                playing .property (leaf .propertyIdentifier 45 48)],
              playing .arguments <| branch .arguments
                [word 48 "(", leaf .identifier 49 50, word 50 ")"]],
            word 51 ";"]]

/-- A name that occurs in an alias alone stays in the compiled text, and its import does not. -/
theorem usesInAlias_loses_import :
    usesInAlias.tree.hasError = false ∧
      (∃ i ∈ usesInAlias.analysis.imports, ∃ b ∈ i.bindings,
        b.localName = "N" ∧ b.typeOnly = false) ∧
      (∃ way target, usesInAlias.tree.Reaches way target ∧ target.isName ∧
        target.text usesInAlias.text.toList = "N" ∧
        ∀ d ∈ way, d.intoImport = false ∧ d.intoType = false) ∧
      usesInAlias.emit usesInAlias.analysis {} =
        .ok "var A = N.B;\nconsole.log(A);\nexport \x7b\x7d;\n" := by
  refine ⟨by decide, ⟨_, List.mem_cons_self, _, List.mem_cons_self, rfl, rfl⟩, ?_, by cbv⟩
  have halias : usesInAlias.tree.children = [_] ++ aliasOfMember :: _ := rfl
  have hmember : aliasOfMember.children = [_, _, _] ++ _ :: _ := rfl
  have hobject : aliasOfMember.children[3].children = [] ++ _ :: _ := rfl
  refine ⟨_, _, .down halias (.down hmember (.down hobject (.here _))), ?_⟩
  exact ⟨rfl, rfl, by decide⟩

end

end CompilingProxy
