import Mathlib
import CompilingProxy.Proofs.Analysis.Occurrence
import CompilingProxy.Proofs.Check.Missing
import CompilingProxy.Proofs.Emit.Enum

/-!
# Members without a value

A member without an initialiser has no value behind a member that is a string. The check of the
meaning looks at how the initialiser before it is written, and the compiled enum at what that
denotes.
-/

namespace CompilingProxy

open Emit

namespace Node

/-- Every member with an equals sign has a name and an initialiser. -/
def hasWholeMembers (d : Node) : Bool :=
  (((d.child? .body).map namedChildren).getD []).all fun c =>
    !c.isA .enumAssignment || (c.child? .name).isSome && (c.child? .value).isSome

end Node

namespace BindingCheck

/-- What is reported of a member that has no value to count on from. -/
def noInitializer (n : Node) : Finding := ⟨n.start, 1061, "Enum member must have initializer."⟩

/-- The kinds of initialisers behind which a member has to have a value. -/
def endingKinds : List Kind := [.string, .templateString, .callExpression]

/-- What is reported of members, one behind the other. -/
def missingIn : (needsValue : Bool) → List EnumMember → List Finding
  | _, [] => []
  | needsValue, m :: ms =>
    (if needsValue && m.value.isNone then [noInitializer m.node] else []) ++
      missingIn (m.value.any (·.isOneOf endingKinds)) ms

theorem memberFindings_eq {ns : List Node} {needsValue : Bool}
    (hwhole : ∀ c ∈ ns, c.isA .enumAssignment → (c.child? .name).isSome ∧ (c.child? .value).isSome) :
    memberFindings needsValue ns =
      missingIn needsValue ((ns.filter (!·.isA .comment)).filterMap Node.enumMember?) := by
  induction ns generalizing needsValue with
  | nil => rfl
  | cons c ns ih =>
    have hrest (needsValue : Bool) : memberFindings needsValue ns =
        missingIn needsValue ((ns.filter (!·.isA .comment)).filterMap Node.enumMember?) :=
      ih fun d hd => hwhole d (List.mem_cons_of_mem _ hd)
    rw [memberFindings]
    by_cases hassignment : c.isA .enumAssignment
    · obtain ⟨hname, hvalue⟩ := hwhole c List.mem_cons_self hassignment
      obtain ⟨key, hkey⟩ := Option.isSome_iff_exists.mp hname
      obtain ⟨e, he⟩ := Option.isSome_iff_exists.mp hvalue
      have hcomment : c.isA .comment = false :=
        Node.isA_of_kind? (Node.isA_iff.mp hassignment) _
      have hmember : c.enumMember? = some ⟨c, key, some e⟩ := by
        rw [Node.enumMember?, if_pos hassignment, hkey, he]
        rfl
      rw [if_pos hassignment, List.filter_cons, hcomment, Bool.not_false, if_pos rfl,
        List.filterMap_cons_some hmember, missingIn, hrest, he]
      simp [endingKinds]
    · rw [if_neg hassignment]
      by_cases hcomment : c.isA .comment
      · rw [if_pos hcomment, List.filter_cons, hcomment, Bool.not_true, if_neg Bool.false_ne_true,
          hrest]
      · have hmember : c.enumMember? = some ⟨c, c, none⟩ := by
          rw [Node.enumMember?, if_neg hassignment]
        rw [if_neg hcomment, List.filter_cons, Bool.eq_false_iff.mpr hcomment, Bool.not_false,
          if_pos rfl, List.filterMap_cons_some hmember, missingIn, hrest]
        simp [noInitializer]

theorem enumFindings_eq {o : CompilerOptions} {d : Node} (hwhole : d.hasWholeMembers) :
    enumFindings o d = missingIn false d.enumMembers ++ erasable o (nameOffset d) := by
  rw [enumFindings, memberFindings_eq, Node.enumMembers]
  intro c hc hassignment
  have hc := List.all_eq_true.mp hwhole c hc
  simpa [hassignment] using hc

theorem exists_of_mem_missingIn {ms : List EnumMember} {needsValue : Bool} {x : Finding}
    (hx : x ∈ missingIn needsValue ms) : ∃ m ∈ ms, x = noInitializer m.node := by
  induction ms generalizing needsValue with
  | nil => cases hx
  | cons m ms ih =>
    rcases List.mem_append.mp hx with hx | hx
    · split at hx
      · exact ⟨m, List.mem_cons_self, List.mem_singleton.mp hx⟩
      · cases hx
    · obtain ⟨m', hm', rfl⟩ := ih hx
      exact ⟨m', List.mem_cons_of_mem _ hm', rfl⟩

/-- A member without a value is reported exactly if the initialiser of the member before it is of a
kind that ends the count. -/
theorem noInitializer_mem_missingIn_iff {ms : List EnumMember} {needsValue : Bool} {j : Nat}
    {m m' : EnumMember} {e : Node}
    (hapart : ms.Pairwise fun a b => a.node.start < b.node.start)
    (hm' : ms[j]? = some m') (hm : ms[j + 1]? = some m) (he : m'.value = some e)
    (hnone : m.value = none) :
    noInitializer m.node ∈ missingIn needsValue ms ↔ e.isOneOf endingKinds := by
  induction ms generalizing needsValue j with
  | nil => cases hm
  | cons a ms ih =>
    obtain ⟨hfirst, hapart⟩ := List.pairwise_cons.mp hapart
    have hbehind : a.node.start < m.node.start :=
      hfirst m (List.mem_of_getElem? (List.getElem?_cons_succ ▸ hm))
    have hother : noInitializer m.node ∉
        (if needsValue && a.value.isNone then [noInitializer a.node] else []) := by
      intro hmem
      split at hmem
      · have hstart := congrArg Finding.offset (List.mem_singleton.mp hmem)
        exact absurd hstart (Nat.ne_of_gt hbehind)
      · cases hmem
    rw [missingIn, List.mem_append, or_iff_right hother]
    cases j with
    | succ j => exact ih hapart hm' hm
    | zero =>
      obtain rfl := Option.some.inj hm'
      cases ms with
      | nil => cases hm
      | cons b ms =>
        obtain rfl := Option.some.inj hm
        have hlater : noInitializer b.node ∉ missingIn (b.value.any (·.isOneOf endingKinds)) ms := by
          intro hmem
          obtain ⟨c, hc, heq⟩ := exists_of_mem_missingIn hmem
          have hlt := (List.pairwise_cons.mp hapart).1 c hc
          exact absurd (congrArg Finding.offset heq) (Nat.ne_of_lt hlt)
        rw [missingIn, List.mem_append, or_iff_left hlater, he, hnone]
        simp

/-! ### What the check of a module reports -/

variable {g : Program} {r : ModuleRecord} {a : ModuleAnalysis} {memo : AnalysisMemo} {x : Finding}

/-- What is wrong with a node is reported of every tree that it is in, outside of what exists
elsewhere. -/
theorem mem_treeFindings_of_reaches {o : CompilerOptions} {source : List Char} {n d : Node}
    {way : List Node.Descent} (hway : n.Reaches way d)
    (houtside : ∀ step ∈ way, step.parent.isOneOf [.ambientDeclaration, .importStatement] = false)
    (hd : d.isA .ambientDeclaration = false)
    (hx : ∀ parent, x ∈ nodeFindings o source parent d) (parent : Option Label) :
    x ∈ treeFindings o source parent n := by
  induction hway generalizing parent with
  | here n =>
    have hx := hx parent
    obtain ⟨label, role, start, stop, missing, children⟩ := n
    rw [treeFindings]
    rw [hd, if_neg Bool.false_ne_true]
    exact List.mem_append_left _ hx
  | @down n child target front back way hchildren _ ih =>
    have hn := houtside _ List.mem_cons_self
    have hrest := ih (fun step hstep => houtside step (List.mem_cons_of_mem _ hstep)) hd hx
    obtain ⟨label, role, start, stop, missing, children⟩ := n
    rw [Node.isOneOf_cons, Node.isOneOf_cons, Node.isOneOf_nil, Bool.or_false,
      Bool.or_eq_false_iff] at hn
    rw [treeFindings]
    rw [hn.1, hn.2, if_neg Bool.false_ne_true, if_neg Bool.false_ne_true]
    refine List.mem_append_right _ (mem_treesFindings_iff.mpr ⟨child, ?_, hrest _⟩)
    dsimp only at hchildren
    rw [hchildren]
    exact List.mem_append_right _ List.mem_cons_self

end BindingCheck

open BindingCheck

/-- What is found in the tree of a checked module is shown. -/
theorem Program.mem_semanticDiagnostics_of_tree {g : Program} {r : ModuleRecord}
    {a : ModuleAnalysis} {memo : AnalysisMemo} {x : Finding} (hlibrary : r.isLibrary = false)
    (hkind : r.kind.isTypeScript ∨ g.options.checkJs)
    (hx : x ∈ treeFindings g.options r.text.toList none r.tree) :
    .inModule .semantic .error x.code r x.offset x.text ∈
      (g.semanticDiagnostics r a memo).1 := by
  have hchecked : ¬(r.isLibrary || (!r.kind.isTypeScript && !g.options.checkJs)) := by
    rcases hkind with hkind | hkind <;> simp [hlibrary, hkind]
  have hfound : x ∈ (findings g r a memo).1 := by
    rw [findings_run]
    exact List.mem_append_right _ (List.mem_append_right _ (List.mem_append_right _ hx))
  rw [semanticDiagnostics, if_neg hchecked, Analyzing.bind_run, Analyzing.pure_run]
  exact List.mem_map.mpr ⟨x, List.mem_mergeSort.mpr hfound, rfl⟩

/-- A call denotes no constant. -/
theorem EnumValue.Denotes.isOneOf_endingKinds_iff {source : List Char} {s : EnumScope} {e : Node}
    {v : EnumValue} (h : Denotes source s e v) :
    e.isOneOf endingKinds ↔ e.isOneOf [.string, .templateString] := by
  have hcall : e.isA .callExpression = false := by
    rw [Bool.eq_false_iff, ne_eq, Node.isA_iff]
    intro hkind
    have hnone := h.ofNode?_eq
    rw [ofNode?_eq_match, hkind] at hnone
    cases hnone
  simp [endingKinds, Node.isOneOf_cons, hcall]

/-- How the check of a module goes with the rows of an enum in it: a member that has no value stands
behind one that denotes a string, which is reported of the module if that is written as a string or
template, and of the enum only then. -/
structure Program.ReportsVoid (g : Program) (r : ModuleRecord) (a : ModuleAnalysis)
    (memo : AnalysisMemo) (source : List Char) (d : Node) (enumName : String)
    (rows : List EnumRow) : Prop where
  length_eq : rows.length = d.enumMembers.length
  void : ∀ {i : Nat} {m : EnumMember} {row : EnumRow}, d.enumMembers[i]? = some m →
    rows[i]? = some row → m.value = none → row.value = .inr "void 0" →
      ∃ j m' e literal, i = j + 1 ∧ d.enumMembers[j]? = some m' ∧ m'.value = some e ∧
        EnumValue.Denotes source (scopeOf enumName (rows.take j)) e (.string literal) ∧
        (noInitializer m.node ∈ enumFindings g.options d ↔
          e.isOneOf [.string, .templateString]) ∧
        (e.isOneOf [.string, .templateString] →
          .inModule .semantic .error 1061 r m.node.start "Enum member must have initializer." ∈
            (g.semanticDiagnostics r a memo).1)

/-- In a checked module, a member that is compiled to no value because the member before it is a
string is reported if that is written as a string or template. -/
theorem Program.reports_members_without_value {g : Program} {r : ModuleRecord} {a : ModuleAnalysis}
    {memo : AnalysisMemo} {t : Setting} {f : Frame} {p : Place} {scope : List String}
    {fuel : Nat} {n d name : Node} {way : List Node.Descent}
    (hlibrary : r.isLibrary = false) (hkind : r.kind.isTypeScript ∨ g.options.checkJs)
    (hway : r.tree.Reaches way d)
    (houtside : ∀ step ∈ way, step.parent.isOneOf [.ambientDeclaration, .importStatement] = false)
    (hwhole : d.hasWholeMembers)
    (hapart : d.enumMembers.Pairwise fun a b => a.node.start < b.node.start)
    (hd : n.container? = some d) (henum : d.isA .enumDeclaration)
    (hname : d.child? .name = some name) :
    FillsEnum t (visit t fuel) f d n (name.text t.source)
      (g.ReportsVoid r a memo t.source d (name.text t.source))
      (visit t (fuel + 1) f p scope n) := by
  refine visit_fillsEnum hd henum hname fun rows hrows =>
    ⟨hrows.length_eq, fun {i m row} hm hrow hnone hvoid => ?_⟩
  obtain ⟨j, m', e, literal, rfl, hm', he, hdenotes⟩ :=
    hrows.exists_string_before hm hrow hnone hvoid
  have herasable : noInitializer m.node ∉ erasable g.options (nameOffset d) := by
    intro hmem
    rw [erasable] at hmem
    split at hmem
    · exact absurd (congrArg Finding.code (List.mem_singleton.mp hmem)) (by simp [noInitializer])
    · cases hmem
  have hfound : noInitializer m.node ∈ enumFindings g.options d ↔
      e.isOneOf [.string, .templateString] := by
    rw [enumFindings_eq hwhole, List.mem_append, or_iff_left herasable,
      noInitializer_mem_missingIn_iff hapart hm' hm he hnone]
    exact hdenotes.isOneOf_endingKinds_iff
  refine ⟨j, m', e, literal, rfl, hm', he, hdenotes, hfound, fun hliteral => ?_⟩
  have hnode (parent : Option Label) :
      noInitializer m.node ∈ nodeFindings g.options r.text.toList parent d := by
    rw [nodeFindings, Node.isA_iff.mp henum]
    exact hfound.mpr hliteral
  exact mem_semanticDiagnostics_of_tree hlibrary hkind <|
    mem_treeFindings_of_reaches hway houtside (Node.isA_of_kind? (Node.isA_iff.mp henum) _) hnode _

section

open Node

def enumWithEnd : Node :=
  enumOf 0 21
    [member 9 (literal 13 1), word 16 ",", playing .name (leaf .propertyIdentifier 18 19)]

def endInEnum : ModuleRecord :=
  .ofTree "m.ts" "enum E \x7b A = 'a', B \x7d\n" (script 22 [enumWithEnd])

def endOut : Except EditError Emission :=
  visit (settingOf endInEnum) 4 ⟨[], ⟨0, 22⟩⟩ {} [] enumWithEnd

/-- `reports_members_without_value` where the second member has none. -/
theorem endInEnum_reports :
    endOut.map (·.edits) = .ok [.replace 0 21 ("var E;\n(function (E) \x7b\n" ++
      "    E[\"A\"] = 'a';\n    E[E[\"B\"] = void 0] = \"B\";\n\x7d)(E || (E = \x7b\x7d));")] ∧
    FillsEnum (settingOf endInEnum) (visit (settingOf endInEnum) 3) ⟨[], ⟨0, 22⟩⟩
      enumWithEnd enumWithEnd "E"
      (Program.ReportsVoid ⟨{}, []⟩ endInEnum endInEnum.analysis {} (settingOf endInEnum).source
        enumWithEnd "E") endOut := by
  have hname : (playing .name (leaf .identifier 5 6)).text (settingOf endInEnum).source = "E" := by
    decide +kernel
  have hchild : enumWithEnd.child? .name = some (playing .name (leaf .identifier 5 6)) := rfl
  have hway : endInEnum.tree.Reaches [⟨endInEnum.tree, []⟩] enumWithEnd := .down rfl (.here _)
  refine ⟨by decide +kernel, hname ▸ ?_⟩
  exact Program.reports_members_without_value (by decide) (.inl rfl) hway (by decide) (by decide)
    (by decide) rfl rfl hchild

/-- A string in parentheses ends the count of the compiled enum, and the check does not see it. -/
def endInGroup : ModuleRecord :=
  .ofTree "m.ts" "enum E \x7b A = ('a'), B \x7d\n" <|
    script 24
      [enumOf 0 23
        [member 9 <| branch .parenthesizedExpression [word 13 "(", literal 14 1, word 17 ")"],
          word 18 ",", playing .name (leaf .propertyIdentifier 20 21)]]

theorem endInGroup_unreported :
    let g : Program := { options := {}, files := [endInGroup] }
    endInGroup.tree.hasError = false ∧
      endInGroup.emit endInGroup.analysis {} = .ok
        ("var E;\n(function (E) \x7b\n    E[\"A\"] = 'a';\n" ++
          "    E[E[\"B\"] = void 0] = \"B\";\n\x7d)(E || (E = \x7b\x7d));\n") ∧
      (g.semanticDiagnostics endInGroup endInGroup.analysis {}).1 = [] :=
  ⟨by decide, by decide +kernel, by cbv⟩

end

end CompilingProxy
