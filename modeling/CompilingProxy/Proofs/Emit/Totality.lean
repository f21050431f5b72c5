import Mathlib
import CompilingProxy.Proofs.Emit.Legible
import CompilingProxy.Proofs.Emit.Lowering
import CompilingProxy.Proofs.Sketch

/-!
# Every module is compiled

The visit of a node is complete when that of its parts is, and so all visits are. Hence the edits
that a module comes to can be performed, and so can those of every text that is compiled on its own
inside of it.
-/

namespace CompilingProxy.Emit

open Text Layout

variable {t : Setting} {v : Visit} {f : Frame} {p : Place} {scope : List String} {n c d : Node}

/-! ### One node -/

section

variable (hv : IsComplete t.source v) (hb : f.bounds.IsCut t.source) (hn : n.IsSound t.source)
  (hp : p.IsWithin t.source f.bounds n)

include hv hb hn hp

theorem lowered?_gives {out : Except EditError Emission}
    (h : lowered? t v f p scope n = some out) :
    Gives (fun out => p.Holds t.source f.bounds n out.edits) out := by
  have hremoved (herasable : n.isErasable) :
      p.Holds t.source f.bounds n (remove t f p scope n).edits := remove_holds hb hn hp herasable
  have hdeleted : p.Holds t.source f.bounds n [.delete n.start n.stop] := holds_replace hb hn hp ""
  rw [lowered?] at h
  dsimp only at h
  split at h
  case h_1 hk | h_2 hk | h_3 hk | h_4 hk | h_5 hk | h_6 hk | h_7 hk =>
    cases h
    exact .pure (hremoved (Node.isErasable_of_kind? hk (by decide)))
  case h_8 hk =>
    split at h
    · cases h
      exact .pure (hremoved (Node.isErasable_of_kind? hk (by decide)))
    · cases h
  case h_9 hk =>
    cases h
    exact .pure (importStatement_holds hb hn hp (Node.isErasable_of_kind? hk (by decide)))
  case h_10 hk =>
    cases h
    exact exportStatement_gives hv hb hn hp hk
  case h_11 hk =>
    obtain ⟨inner, hinner, rfl⟩ := Option.map_eq_some_iff.mp h
    obtain ⟨hhead, hmodule⟩ := Option.filter_eq_some_iff.mp hinner
    have hmem := mem_of_namedChildren (List.mem_of_head? hhead)
    refine namespaceDeclaration_gives hv hb hn hp (hn.child hmem)
      (Node.isOneOf_iff.mpr ⟨_, by decide, Node.isA_iff.mp hmodule⟩) fun hnothing => ?_
    rw [Node.isErasable, Node.isA_iff.mpr hk, hhead, Option.any_some, hnothing]
    simp
  case h_12 hk | h_13 hk =>
    cases h
    have hmodule : n.isOneOf [.internalModule, .module] :=
      Node.isOneOf_iff.mpr ⟨_, by decide, hk⟩
    refine namespaceDeclaration_gives hv hb hn hp hn hmodule fun hnothing => ?_
    rw [Node.isErasable, hnothing, Bool.or_true]
    rfl
  case h_14 hk =>
    cases h
    exact (enumDeclaration_gives hv hn hn).imp fun _ hout => holds_of_within hb hn hp hout
  case h_15 hk =>
    cases h
    refine .pure ?_
    cases hkeyword : n.children.head?.filter (·.isWord "import") with
    | none => exact .nil
    | some keyword =>
      have hmem := List.mem_of_head? (Option.filter_eq_some_iff.mp hkeyword).1
      have hsound := hn.child hmem
      obtain ⟨hfirst, hlast⟩ := Node.bounds_of_mem hn.row hmem
      exact holds_of_within hb hn hp (within_replace hsound.isBoundary_start hsound.isBoundary_stop
        hsound.start_le_stop hfirst hlast _)
  case h_16 hk | h_17 hk | h_18 hk | h_19 hk | h_20 hk | h_21 hk | h_22 hk | h_23 hk =>
    cases h
    exact .pure hdeleted
  case h_24 hk =>
    cases h
    exact .pure (holds_clause hb hn hp (Node.isOneOf_iff.mpr ⟨_, by decide, hk⟩))
  case h_25 hk =>
    split at h
    · split at h
      · cases h
        exact .pure (holds_clause hb hn hp (Node.isOneOf_iff.mpr ⟨_, by decide, hk⟩))
      · cases h
    · cases h
  case h_26 hk | h_27 hk =>
    cases h
    have hmodifier : n.isOneOf [.accessibilityModifier, .overrideModifier, .requiredParameter] :=
      Node.isOneOf_iff.mpr ⟨_, by decide, hk⟩
    refine .pure (holds_deleteWithBlanks hb hn hp ?_)
    rw [Node.trails, hmodifier]
    simp
  case h_28 hk | h_29 hk | h_30 hk =>
    cases h
    exact keepValue_gives hv hb hn hp (Node.isOneOf_iff.mpr ⟨_, by decide, hk⟩)
  case h_31 hk =>
    split at h
    · split at h
      case h_1 comma hcomma =>
        cases h
        obtain ⟨hbehind, hmark⟩ := Option.filter_eq_some_iff.mp hcomma
        exact .pure (holds_parameter hb hn hp (Node.isA_iff.mpr hk) hbehind hmark)
      case h_2 =>
        cases h
        exact .pure hdeleted
    · cases h
  case h_32 => cases h

end

theorem kind_of_lowered? {out : Except EditError Emission}
    (h : lowered? t v f p scope n = some out) : ∃ k, n.kind? = some k ∧ k ≠ .statementBlock := by
  cases hk : n.kind? with
  | none =>
    rw [lowered?, hk] at h
    cases h
  | some k =>
    refine ⟨k, rfl, ?_⟩
    rintro rfl
    rw [lowered?, hk] at h
    cases h

/-! ### The parts of a node -/

section

variable (hb : f.bounds.IsCut t.source)

include hb

theorem wordEdits_stays (hc : c.IsSound t.source) (hp : p.IsWithin t.source f.bounds c)
    (hword : c.isNamed = false) : Stays t.source f.bounds p c (wordEdits t f n c) := by
  have htrailing (h : c.trails) : p.Holds t.source f.bounds c
      [deleteWithBlanks t.source f.bounds c.range] := holds_deleteWithBlanks hb hc hp h
  have hdeleted : p.Holds t.source f.bounds c [.delete c.start c.stop] :=
    holds_replace hb hc hp ""
  refine ⟨?_, fun hmark => ?_, fun hblock => ?_⟩
  · rw [wordEdits]
    split
    case h_1 hlabel =>
      split
      · exact htrailing (by simp [Node.trails, Node.isWord, hlabel])
      · exact .nil
    case h_2 hlabel =>
      split
      · exact htrailing (by simp [Node.trails, Node.isWord, hlabel])
      · exact .nil
    case h_3 | h_4 =>
      split
      · exact hdeleted
      · exact .nil
    case h_5 => exact .nil
  · rw [Node.isSeparator, Node.isWord, Node.isWord, Bool.or_eq_true, beq_iff_eq, beq_iff_eq] at hmark
    rcases hmark with hlabel | hlabel <;> simp [wordEdits, hlabel]
  · have hkind := Node.isA_iff.mp (Node.isBlock_iff.mp hblock).1
    rw [Node.kind?_eq_none_iff.mpr hword] at hkind
    cases hkind

theorem visitChildren_gives (hv : IsComplete t.source v) {ps : List (Place × Node)}
    (hps : ∀ x ∈ ps, x.2.IsSound t.source ∧ x.1.IsWithin t.source f.bounds x.2)
    (scope : List String) :
    Gives (fun out => Collects (Stays t.source f.bounds) ps out.edits)
      (visitChildren t v f n scope ps) := by
  induction ps generalizing scope with
  | nil => exact .pure .nil
  | cons x ps ih =>
    obtain ⟨hsound, hwithin⟩ := hps x List.mem_cons_self
    have hrest (own : Emission) (hown : Stays t.source f.bounds x.1 x.2 own.edits) :
        Gives (fun out : Emission => Collects (Stays t.source f.bounds) (x :: ps) out.edits) (do
          let more ← visitChildren t v f n own.scope ps
          return ⟨own.edits ++ more.edits, false, more.scope⟩) :=
      (ih (fun y hy => hps y (List.mem_cons_of_mem _ hy)) own.scope).andThen
        fun _ hmore => .pure (.cons hown hmore)
    rw [visitChildren]
    split
    case isTrue => exact (hv f x.1 scope x.2 hb hsound hwithin).andThen hrest
    case isFalse hword =>
      exact hrest _ (wordEdits_stays hb hsound hwithin (Bool.eq_false_iff.mpr hword))

end

/-! ### Constructors -/

theorem endsPlainly_of_brace (hn : n.IsSound t.source) (h : n.isWord "\x7b") : n.endsPlainly := by
  obtain ⟨-, hwords, -⟩ := Node.isRegular_iff.mp hn.isRegular
  obtain ⟨label, role, start, stop, missing, children⟩ := n
  obtain rfl : label = .word "\x7b" := by simpa [Node.isWord] using h
  obtain rfl : children = [] := hwords.resolve_left Bool.false_ne_true
  rfl

/-- Assignments to properties are put behind a part of the constructor's body. -/
theorem propertyAssignments_cases (hn : n.IsSound t.source) (h : n.kind? = some .methodDefinition) :
    propertyAssignments t p n = [] ∨
      ∃ body s text, body ∈ n.children ∧ body.isBlock ∧ s ∈ body.children ∧ s.endsPlainly ∧
        propertyAssignments t p n = [.insert s.stop text] := by
  cases hbody : n.child? .body with
  | none =>
    rw [propertyAssignments, hbody]
    exact .inl rfl
  | some body =>
    have hmem := mem_of_child? hbody
    obtain ⟨hblock, hcalls⟩ := body_of_isMethod hn h hbody
    obtain ⟨-, ⟨brace, rest, hchildren, hword, -, hstop⟩, -⟩ := Node.isBlock_iff.mp hblock
    have hbrace : brace ∈ body.children := by
      rw [hchildren]
      exact List.mem_cons_self
    rw [propertyAssignments, hbody]
    dsimp only
    split
    case isTrue => exact .inl rfl
    case isFalse =>
      refine .inr ?_
      cases hcall : body.namedChildren.find? isSuperCall with
      | some s =>
        have hs := mem_of_namedChildren (List.mem_of_find?_eq_some hcall)
        exact ⟨body, s, _, hmem, hblock, hs, hcalls s hs (List.find?_some hcall), rfl⟩
      | none =>
        have hhead (text : String) :
            [TextEdit.insert (body.start + 1) text] = [.insert brace.stop text] := by rw [hstop]
        exact ⟨body, brace, _, hmem, hblock, hbrace,
          endsPlainly_of_brace ((hn.child hmem).child hbrace) hword, hhead _⟩

/-! ### Every node -/

/-- No edit of a node's parts reaches over an offset in one of them, if none of that part's edits
does. -/
theorem children_cuts {es : List TextEdit} {x : Nat} (hb : f.bounds.IsCut t.source)
    (hn : n.IsSound t.source) (hp : p.IsWithin t.source f.bounds n)
    (hclear : (p.children n).Pairwise (IsClear t.source f.bounds))
    (hparts : Collects (Stays t.source f.bounds) (p.children n) es) (hc : c ∈ n.children)
    (hmark : c.isSeparator = false) (hstart : c.start ≤ x) (hstop : x ≤ c.stop)
    (hown : ∀ q own, Stays t.source f.bounds q c own →
      ∀ e ∈ own, e.range.stop ≤ x ∨ x ≤ e.range.start) :
    ∀ e ∈ es, e.range.stop ≤ x ∨ x ≤ e.range.start := by
  obtain ⟨q, hq⟩ := Place.exists_mem_row (n :: p.around) none hc
  have hwithin : q.IsWithin t.source f.bounds c := children_isWithin hn hp.start hp.stop _ hq
  have hsound := hn.child hc
  exact hparts.cuts hclear hq hmark (Nat.le_trans (hwithin.startEdge_le hb hsound) hstart)
    (Nat.le_trans hstop (hwithin.le_stopEdge hb hsound)) (hown q)

theorem stop_le_of_endsPlainly {q : Place} {own : List TextEdit} (hends : d.endsPlainly)
    (hown : Stays t.source f.bounds q d own) : ∀ e ∈ own, e.range.stop ≤ d.stop := by
  intro e he
  have hlast := (hown.within.inside e he).2
  rwa [Place.stopEdge_of_not_takes fun mark _ => takes_of_endsPlainly hends mark, Node.stopEdge,
    if_pos hends] at hlast

/-- The visit of a node is complete when that of its parts is. -/
theorem visitNode_isComplete (hv : IsComplete t.source v) :
    IsComplete t.source (visitNode t v) := by
  intro f p scope n hb hn hp
  rw [visitNode]
  cases hlowered : lowered? t v f p scope n with
  | some out =>
    obtain ⟨k, hk, hblock⟩ := kind_of_lowered? hlowered
    exact (lowered?_gives hv hb hn hp hlowered).imp fun _ hout => .of_kind? hk hblock hout
  | none =>
    have hinside : ∀ x ∈ p.children n, x.2.IsSound t.source ∧ x.1.IsWithin t.source f.bounds x.2 :=
      fun x hx => ⟨hn.child (mem_row hx).1, children_isWithin hn hp.start hp.stop x hx⟩
    have hclear : (p.children n).Pairwise (IsClear t.source f.bounds) :=
      (children_isClear hb hn).imp_of_mem fun hx hy hclear =>
        hclear (hinside _ hx).2.start (hinside _ hy).2.stop
    refine (visitChildren_gives hb hv hinside scope).andThen fun out hout => .pure ?_
    have hedges := hout.within hclear (children_edges hb hn hp.start hp.stop)
    have hwithin : p.Holds t.source f.bounds n out.edits :=
      hedges.widen (hp.startEdge_le_startEdge hn) (hp.stopEdge_le_stopEdge hb hn)
    cases hmethod : n.isA .methodDefinition with
    | true =>
      have hk := Node.isA_iff.mp hmethod
      refine .of_kind? hk (by decide) ?_
      rcases propertyAssignments_cases (p := p) hn hk with
        hnone | ⟨body, s, text, hbody, hblock, hs, hends, hsome⟩
      · rw [if_pos rfl, hnone]
        exact hwithin
      · have hbound := Node.bounds_of_mem hn.row hbody
        have hinner := Node.bounds_of_mem (hn.child hbody).row hs
        have hsound := (hn.child hbody).child hs
        have hwidth := hsound.start_le_stop
        have hstart := hp.startEdge_le hb hn
        have hstop := hp.le_stopEdge hb hn
        have hmark : body.isSeparator = false :=
          Node.isSeparator_of_kind? (Node.isA_iff.mp (Node.isBlock_iff.mp hblock).1)
        have hcuts := children_cuts hb hn hp hclear hout hbody hmark (x := s.stop) (by omega)
          hinner.2 fun q own hown e he => hown.cuts hblock s hs hends e he
        rw [if_pos rfl, hsome]
        refine (within_replace hsound.isBoundary_stop hsound.isBoundary_stop (Nat.le_refl _)
          (by omega) (by omega) text).append hwithin fun e he d hd => ?_
        rw [List.mem_singleton.mp he]
        exact (hcuts d hd).symm
    | false =>
      rw [if_neg Bool.false_ne_true, List.nil_append]
      refine ⟨hwithin, fun hmark => ?_, fun hblock s hs hends => ?_⟩
      · have hword : n.isNamed = false := by
          cases hk : n.kind? with
          | none => exact Node.kind?_eq_none_iff.mp hk
          | some k =>
            rw [Node.isSeparator_of_kind? hk] at hmark
            cases hmark
        have hbare := (Node.isRegular_iff.mp hn.isRegular).2.1.resolve_left (by simp [hword])
        rw [Place.children, hbare] at hout
        exact hout.eq_nil
      · obtain ⟨-, -, hplain⟩ := Node.isBlock_iff.mp hblock
        exact children_cuts hb hn hp hclear hout hs (hplain s hs).2.1 (hn.child hs).start_le_stop
          (Nat.le_refl _) fun q own hown e he => .inl (stop_le_of_endsPlainly hends hown e he)

/-- Every node of any depth is compiled. -/
theorem visit_isComplete (fuel : Nat) : IsComplete t.source (visit t fuel) := by
  induction fuel with
  | zero => exact fun _ _ _ _ _ _ _ => .pure .nil
  | succ fuel ih => exact visitNode_isComplete ih

/-- Every node of any depth is compiled without a look at what is no text. -/
theorem checkedVisit_isComplete (fuel : Nat) : IsComplete t.source (checkedVisit t fuel) := by
  induction fuel with
  | zero => exact fun _ _ _ _ _ _ _ => .pure .nil
  | succ fuel ih => exact (visitNode_isComplete ih).checked

end CompilingProxy.Emit

namespace CompilingProxy

open Emit Text

/-! ### The whole module -/

theorem visitStatements_gives {v : Visit} {f : Frame}
    (kind : Place → Node → List TextEdit → Prop) {ps : List (Place × Node)}
    (hvisit : ∀ x ∈ ps, ∀ scope, Gives (fun out => kind x.1 x.2 out.edits) (v f x.1 scope x.2))
    (scope : List String) :
    Gives (fun out => Collects kind ps out.1) (visitStatements v f scope ps) := by
  induction ps generalizing scope with
  | nil => exact .pure .nil
  | cons x ps ih =>
    refine (hvisit x List.mem_cons_self scope).andThen fun out hout => ?_
    refine (ih (fun y hy => hvisit y (List.mem_cons_of_mem _ hy)) out.scope).andThen
      fun rest hrest => ?_
    exact .pure (.cons hout hrest)

/-- The compiled text of a module whose statements are compiled by the visit. -/
def ModuleRecord.emitBy (r : ModuleRecord) (a : ModuleAnalysis) (o : CompilerOptions)
    (visit : Setting → Visit) : Except EditError String := do
  if !r.kind.isTypeScript then return r.text
  else
    let t := Setting.ofModule r a o.verbatimModuleSyntax
    let frame : Frame := ⟨[], ⟨0, width t.source⟩⟩
    let (edits, gone) ← visitStatements (visit t) frame (topScope a) (Place.children {} r.tree)
    let (text, _) ← applyEdits t.source edits
    return String.ofList (text ++ moduleMark text gone)

theorem ModuleRecord.emit_eq_emitBy {r : ModuleRecord} {a : ModuleAnalysis} {o : CompilerOptions} :
    r.emit a o = r.emitBy a o (visit · r.tree.depth) := rfl

section

variable {r : ModuleRecord} {a : ModuleAnalysis} {o : CompilerOptions}

/-- The edits that the statements of a module come to can be performed. -/
theorem ModuleRecord.emitBy_isOk {visit : Setting → Visit} (hsound : r.tree.IsSound r.text.toList)
    (hvisit : ∀ t, IsComplete t.source (visit t)) : ∃ out, r.emitBy a o visit = .ok out := by
  rw [ModuleRecord.emitBy]
  split
  case isTrue => exact ⟨r.text, rfl⟩
  case isFalse =>
    have hlast : r.tree.stop ≤ width r.text.toList := le_width_of_isBoundary hsound.isBoundary_stop
    have hcut : Range.IsCut r.text.toList ⟨0, width r.text.toList⟩ := isCut_whole
    have hstop : r.tree.stop ≤ Range.stop ⟨0, width r.text.toList⟩ := hlast
    have hinside : ∀ x ∈ Place.children {} r.tree,
        x.1.IsWithin r.text.toList ⟨0, width r.text.toList⟩ x.2 :=
      children_isWithin hsound (Nat.zero_le _) hstop
    have hclear : (Place.children {} r.tree).Pairwise
        (IsClear r.text.toList ⟨0, width r.text.toList⟩) :=
      (children_isClear hcut hsound).imp_of_mem fun hx hy hclear =>
        hclear (hinside _ hx).start (hinside _ hy).stop
    obtain ⟨⟨edits, gone⟩, hedits, hcollects⟩ :=
      visitStatements_gives (Stays r.text.toList ⟨0, width r.text.toList⟩)
        (fun x hx scope => hvisit (.ofModule r a o.verbatimModuleSyntax)
          ⟨[], ⟨0, width r.text.toList⟩⟩ x.1 scope x.2 hcut (hsound.child (mem_row hx).1)
            (hinside x hx)) (topScope a)
    have hwithin := hcollects.within hclear (children_edges hcut hsound (Nat.zero_le _) hstop)
    obtain ⟨out, hout⟩ := applyEdits_isOk hwithin.fits hwithin.apart
    exact ⟨_, bind_eq_ok_iff.mpr ⟨_, hedits, bind_eq_ok_iff.mpr ⟨out, hout, rfl⟩⟩⟩

/-- Every module is compiled whose tree lies in its text as the trees of the grammar do, unless an
operand that text is deleted behind takes blanks along, or a namespace ends inside a character. -/
theorem ModuleRecord.emit_isOk (hordered : r.tree.isOrdered)
    (hregular : r.tree.everywhere (Node.isRegular r.text.toList))
    (hfirm : r.tree.everywhere Node.isFirm)
    (hbodies : r.tree.everywhere (Node.endsInByte r.text.toList)) :
    (∃ out, r.emit a o = .ok out) ∧ ∃ out, r.emitBy a o (checkedVisit · r.tree.depth) = .ok out :=
  have hsound : r.tree.IsSound r.text.toList := ⟨hordered, hregular, hfirm, hbodies⟩
  ⟨emitBy_isOk hsound fun _ => visit_isComplete _,
    emitBy_isOk hsound fun _ => checkedVisit_isComplete _⟩

end

section

open Node

/-- A namespace with a constant that is asserted to be of a type. -/
def assertsInNamespace : ModuleRecord :=
  .ofTree "m.ts" "namespace N \x7b\n  export const a = b as T;\n\x7d\n" <|
    script 43
      [branch .expressionStatement
        [branch .internalModule
          [word 0 "namespace", playing .name (leaf .identifier 10 11),
            playing .body <| branch .statementBlock
              [word 12 "\x7b",
                branch .exportStatement
                  [word 16 "export",
                    playing .declaration <| branch .lexicalDeclaration
                      [playing .kind (word 23 "const"),
                        branch .variableDeclarator
                          [playing .name (leaf .identifier 29 30), word 31 "=",
                            playing .value <| branch .asExpression
                              [leaf .identifier 33 34, word 35 "as", leaf .typeIdentifier 38 39]],
                        word 39 ";"]],
                word 41 "\x7d"]]]]

theorem assertsInNamespace_emit_isOk :
    (∃ out, assertsInNamespace.emit assertsInNamespace.analysis {} = .ok out) ∧
      ∃ out, assertsInNamespace.emitBy assertsInNamespace.analysis {}
        (checkedVisit · assertsInNamespace.tree.depth) = .ok out :=
  ModuleRecord.emit_isOk (by decide) (by decide +kernel) (by decide +kernel) (by decide +kernel)

/-- A namespace of nothing is asserted to be of a type. -/
def assertsNamespace : ModuleRecord :=
  .ofTree "m.ts" "x = namespace T \x7b\x7d as any;\n" <|
    script 27
      [branch .expressionStatement
        [branch .assignmentExpression
          [playing .left (leaf .identifier 0 1), word 2 "=",
            playing .right <| branch .asExpression
              [branch .internalModule
                [word 4 "namespace", playing .name (leaf .identifier 14 15),
                  playing .body (branch .statementBlock [word 16 "\x7b", word 17 "\x7d"])],
                word 19 "as",
                branch .predefinedType [word 22 "any"]]],
          word 25 ";"]]

/-- The body of a namespace reaches over the comment behind its brace. -/
def endsInComment : ModuleRecord :=
  .ofTree "m.ts" "namespace A \x7b\n  export const x = 1;\n\x7d // é\n" <|
    script 44
      [branch .expressionStatement
        [branch .internalModule
          [word 0 "namespace", playing .name (leaf .identifier 10 11),
            playing .body <| branch .statementBlock
              [word 12 "\x7b",
                branch .exportStatement
                  [word 16 "export",
                    playing .declaration <| branch .lexicalDeclaration
                      [playing .kind (word 23 "const"),
                        branch .variableDeclarator
                          [playing .name (leaf .identifier 29 30), word 31 "=",
                            playing .value (leaf .number 33 34)],
                        word 34 ";"]],
                word 36 "\x7d", leaf .comment 38 43]]]]

theorem endsInComment_unreadable : endsInComment.tree.hasError = false ∧
    endsInComment.emit endsInComment.analysis {} = .error (.unreadable ⟨13, 42⟩) :=
  ⟨by decide, by cbv⟩

/-- Modules without a fault in their trees are not compiled: of one, the blank behind a namespace is
deleted twice, and of the other, the text to be compiled ends inside a character. -/
theorem namespaces_stop_emission :
    (assertsNamespace.tree.hasError = false ∧ assertsNamespace.tree.isOrdered ∧
      assertsNamespace.tree.everywhere (isRegular assertsNamespace.text.toList) ∧
      assertsNamespace.emit assertsNamespace.analysis {} = .error (.overlaps ⟨18, 25⟩ 19)) ∧
    (endsInComment.tree.hasError = false ∧ endsInComment.tree.isOrdered ∧
      endsInComment.tree.everywhere (isRegular endsInComment.text.toList) ∧
      endsInComment.emit endsInComment.analysis {} = .error (.unreadable ⟨13, 42⟩)) := by
  obtain ⟨hread, hstops⟩ := endsInComment_unreadable
  refine ⟨⟨by decide, by decide, by decide +kernel, by cbv⟩,
    hread, by decide, by decide +kernel, hstops⟩

end

end CompilingProxy
