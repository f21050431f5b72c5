import CompilingProxy.Proofs.Emit.Enum
import CompilingProxy.Proofs.Emit.Scope
import CompilingProxy.Proofs.Emit.Totality
import CompilingProxy.Proofs.Text.Splice

/-!
# What stands between the braces of a namespace

A namespace is compiled to a call with the compiled text of what stands between its braces, as long
as the block that is its body ends with the second one. A block that reaches over a comment behind
its brace is cut one byte in front of the end of the comment.
-/

namespace CompilingProxy

open Text

/-- The nodes of a block between two braces, which stand where the block begins and ends. -/
structure Node.IsBraced (source : List Char) (body left : Node) (inner : List Node)
    (right : Node) : Prop where
  children : body.children = left :: (inner ++ [right])
  left_isWord : left.isWord "\x7b"
  right_isWord : right.isWord "\x7d"
  left_start : left.start = body.start
  right_stop : right.stop = body.stop
  left_text : left.text source = "\x7b"
  right_text : right.text source = "\x7d"

namespace Emit

/-- The nodes between two others, at their places. -/
def Place.between (around : List Node) (left : Node) (inner : List Node) (right : Node) :
    List (Place × Node) :=
  (row around (some left) (inner ++ [right])).dropLast

/-- The compiled text of what stands between two braces: the text between them with the edits of
the nodes between them, or the lines of those nodes if there is no line break. -/
def textBetween (t : Setting) (v : Visit) (f : Frame) (around : List Node) (indent : List Char)
    (left : Node) (inner : List Node) (right : Node) : Except EditError String := do
  let nodes := Place.between around left inner right
  let span : Range := ⟨left.stop, right.start⟩
  if (slice t.source span.start span.stop).contains '\n' then
    let (edits, _) ← visitAll v { f with bounds := span } [] nodes
    return String.ofList (← Layout.edited t.source span edits)
  else
    return bracedLines (String.ofList indent)
      (← statementLines t v f indent [] (nodes.filter fun (_, n) => n.isNamed))

/-- The names of a namespace, the outermost first. -/
def spaceNames (source : List Char) (name : Node) : List String :=
  (splitOnChar '.' (slice source name.start name.stop)).map fun part => String.ofList (trim part)

/-- The call that fills a namespace, with the text between its braces. -/
def spaceText (t : Setting) (f : Frame) (scope : List String) (name statement : Node)
    (text : String) : String × List String :=
  let indent := String.ofList (Layout.indentAt t.source statement.start)
  let names := spaceNames t.source name
  wrap f scope (names.headD "") (statement.isA .exportStatement) (wrapInner text indent names)
    indent

variable {t : Setting} {v : Visit} {f : Frame} {p : Place} {scope : List String}
  {n d body left right name : Node} {inner around : List Node}

theorem visitNode_of_space (hd : n.container? = some d) (hspace : d.isSpace) :
    visitNode t v f p scope n =
      namespaceDeclaration t v f p scope d n (n.isA .exportStatement) := by
  have hplain : ¬ d.isA .enumDeclaration := by
    intro henum
    rw [Node.isSpace_iff, Node.isA_iff.mp henum] at hspace
    rcases hspace with hk | hk <;> cases hk
  obtain ⟨p', heq⟩ := visitNode_of_container (t := t) (v := v) (f := f) (p := p) hd
  rw [heq, if_neg hplain]

/-! ### The nodes between the braces -/

theorem row_concat (around : List Node) (before : Option Node) (ns : List Node) (right : Node) :
    ∃ q, Place.row around before (ns ++ [right]) =
      (Place.row around before (ns ++ [right])).dropLast ++ [(q, right)] := by
  induction ns generalizing before with
  | nil => exact ⟨_, rfl⟩
  | cons m ns ih =>
    obtain ⟨q, hq⟩ := ih (some m)
    refine ⟨q, ?_⟩
    have hne : Place.row around (some m) (ns ++ [right]) ≠ [] := by
      rw [hq]
      simp
    rw [List.cons_append, Place.row, List.dropLast_cons_of_ne_nil hne, List.cons_append, ← hq]

theorem mem_between {x : Place × Node} (hx : x ∈ Place.between around left inner right) :
    x.2 ∈ inner := by
  have hnodes : (Place.between around left inner right).map (·.2) = inner := by
    rw [Place.between, List.map_dropLast, map_snd_row, List.dropLast_concat]
  rw [← hnodes]
  exact List.mem_map_of_mem hx

/-- A node that is written with one character lies around it. -/
theorem cut_of_text {source : List Char} {c : Char} (h : n.text source = String.singleton c) :
    isBoundary source n.start ∧ isBoundary source n.stop ∧ n.stop = n.start + c.utf8Size ∧
      slice source n.start n.stop = [c] := by
  have hslice : slice source n.start n.stop = [c] := by
    rw [← String.toList_singleton, ← h, Node.text, String.toList_ofList]
  rw [slice] at hslice ⊢
  cases hcut : slice? source n.start n.stop with
  | none =>
    rw [hcut] at hslice
    cases hslice
  | some mid =>
    rw [hcut] at hslice
    obtain rfl : mid = [c] := hslice
    obtain ⟨hfits, hwidth⟩ := fits_of_slice? hcut
    rw [width_cons, width_nil] at hwidth
    exact ⟨hfits.start, hfits.stop, hwidth.symm, rfl⟩

theorem isNamed_of_isWord {text : String} (h : n.isWord text) : n.isNamed = false := by
  obtain ⟨label, role, start, stop, missing, children⟩ := n
  cases label with
  | word => rfl
  | kind => cases h

section

variable (hbraced : body.IsBraced t.source left inner right)

include hbraced

/-- Those children of a block that stand between its braces are the nodes between them. -/
theorem filter_children_of_isBraced {q : Node → Bool} (hleft : q left = false)
    (hright : q right = false) :
    ((Place.children p body).filter fun x => q x.2) =
      (Place.between (body :: p.around) left inner right).filter fun x => q x.2 := by
  obtain ⟨place, hrow⟩ := row_concat (body :: p.around) (some left) inner right
  rw [Place.children, hbraced.children, Place.row, List.filter_cons_of_neg (by simp [hleft]), hrow,
    List.filter_append, List.filter_cons_of_neg (by simp [hright]), List.filter_nil,
    List.append_nil]
  rfl

/-- Each brace takes one byte, and the text of a block stands between them. -/
theorem slice_of_isBraced (hordered : body.isOrdered) :
    left.stop = body.start + 1 ∧ right.start + 1 = body.stop ∧ left.stop ≤ right.start ∧
      slice? t.source left.stop right.start = some (slice t.source left.stop right.start) ∧
      slice t.source body.start body.stop =
        '\x7b' :: (slice t.source left.stop right.start ++ ['\x7d']) := by
  obtain ⟨hbegin, hleft, hafter, hopen⟩ := cut_of_text (c := '\x7b') hbraced.left_text
  obtain ⟨hright, hend, hbefore, hclose⟩ := cut_of_text (c := '\x7d') hbraced.right_text
  have hrow := (Node.isOrdered_iff.mp hordered).2
  rw [hbraced.children] at hrow
  have hbetween := (Node.bounds_of_mem (Node.allOrdered_cons_iff.mp hrow).2.2
    (List.mem_append_right inner (List.mem_singleton_self right))).1
  rw [hbraced.left_start] at hafter hopen hbegin
  rw [hbraced.right_stop] at hbefore hclose hend
  refine ⟨hafter, hbefore.symm, hbetween, (exists_slice hleft hright hbetween).1, ?_⟩
  have hwidth : body.start ≤ left.stop := by omega
  have hwidth' : right.start ≤ body.stop := by omega
  rw [slice_split hbegin hleft hend hwidth (Nat.le_trans hbetween hwidth'),
    slice_split hleft hright hend hbetween hwidth', hopen, hclose]
  rfl

theorem inner_bounds (hordered : body.isOrdered) {c : Node} (hc : c ∈ inner) :
    left.stop ≤ c.start ∧ c.stop ≤ right.start := by
  have hrow := (Node.isOrdered_iff.mp hordered).2
  rw [hbraced.children] at hrow
  have hbehind := (Node.allOrdered_cons_iff.mp hrow).2.2
  exact Node.bounds_of_mem (Node.allOrdered_append_cons hbehind).1 hc

/-- The text between the braces of a namespace is compiled from what stands between them. -/
theorem bodyText_eq_textBetween (hordered : body.isOrdered) (indent : List Char) :
    bodyText t v f p indent body =
      textBetween t v f (body :: p.around) indent left inner right := by
  obtain ⟨hafter, hbefore, hbetween, -, hslice⟩ := slice_of_isBraced hbraced hordered
  have hstart : body.start + 1 = left.stop := hafter.symm
  have hstop : max (body.stop - 1) left.stop = right.start := by omega
  have hbreak : (slice t.source body.start body.stop).contains '\n' =
      (slice t.source left.stop right.start).contains '\n' := by
    rw [hslice]
    simp
  rw [bodyText, textBetween]
  dsimp only
  simp only [hstart, hstop, hbreak]
  congr 1
  · have hfirst := hbraced.left_start
    have hlast := hbraced.right_stop
    rw [filter_children_of_isBraced hbraced (p := p)
      (q := fun n => decide (left.stop ≤ n.start) && decide (n.stop ≤ right.start))
      (by simp; omega) (by simp; omega)]
    rw [List.filter_eq_self.mpr fun x hx => ?_]
    have hbounds := inner_bounds hbraced hordered (mem_between hx)
    simpa using hbounds
  · rw [filter_children_of_isBraced hbraced (p := p) (q := Node.isNamed)
      (isNamed_of_isWord hbraced.left_isWord) (isNamed_of_isWord hbraced.right_isWord)]

end

/-! ### The text in the call -/

/-- A name behind another one puts a call around the text. -/
theorem exists_wrapInner_cons (text indent parent name : String) (names : List String) :
    ∃ front back, wrapInner text indent (parent :: name :: names) =
      front ++ opening name ++ wrapInner text (indent ++ Layout.unit) (name :: names) ++
        "\x7d)(" ++ back := by
  rw [wrapInner, innerText, callText]
  refine ⟨"\n" ++ (indent ++ Layout.unit) ++ declarationText "let" name (indent ++ Layout.unit),
    memberText parent name ++ ");" ++ "\n" ++ indent, ?_⟩
  simp only [String.append_assoc]

/-- The text stands between the braces of the innermost call. -/
theorem exists_wrapInner_eq {names : List String} (hne : names ≠ []) (text indent : String) :
    ∃ front back, opening (names.headD "") ++ wrapInner text indent names ++ "\x7d)(" =
      front ++ opening (names.getLastD "") ++ text ++ "\x7d)(" ++ back := by
  induction names generalizing indent with
  | nil => exact absurd rfl hne
  | cons parent names ih =>
    cases names with
    | nil =>
      have hnone : wrapInner text indent [parent] = text := rfl
      refine ⟨"", "", ?_⟩
      rw [hnone, String.empty_append, String.append_empty]
      rfl
    | cons name names =>
      obtain ⟨front, back, hinner⟩ := ih (List.cons_ne_nil _ _) (indent ++ Layout.unit)
      obtain ⟨front', back', hcall⟩ := exists_wrapInner_cons text indent parent name names
      rw [List.headD_cons] at hinner
      rw [List.headD_cons, List.getLastD_cons, hcall]
      generalize wrapInner text (indent ++ Layout.unit) (name :: names) = inner at hinner
      refine ⟨opening parent ++ front' ++ front, back ++ back' ++ "\x7d)(", ?_⟩
      calc opening parent ++ (front' ++ opening name ++ inner ++ "\x7d)(" ++ back') ++ "\x7d)("
        _ = opening parent ++ front' ++ (opening name ++ inner ++ "\x7d)(") ++
              (back' ++ "\x7d)(") := by simp only [String.append_assoc]
        _ = opening parent ++ front' ++
              (front ++ opening ((name :: names).getLastD "") ++ text ++ "\x7d)(" ++ back) ++
              (back' ++ "\x7d)(") := by rw [hinner]
        _ = _ := by simp only [String.append_assoc, List.getLastD_cons]

theorem exists_spaceText_eq (text : String) :
    ∃ front back, (spaceText t f scope name n text).1 =
      front ++ opening ((spaceNames t.source name).getLastD "") ++ text ++ "\x7d)(" ++ back := by
  have hne : spaceNames t.source name ≠ [] := by
    rw [spaceNames, ne_eq, List.map_eq_nil_iff]
    exact splitOnChar_ne_nil
  rw [spaceText]
  generalize spaceNames t.source name = names at hne
  generalize String.ofList (Layout.indentAt t.source n.start) = indent
  obtain ⟨binding, hcall⟩ := exists_wrap_eq f scope (names.headD "") n
    (wrapInner text indent names) indent
  obtain ⟨front, back, hinner⟩ := exists_wrapInner_eq hne text indent
  rw [hcall]
  generalize (if scope.contains (names.headD "") then "" else
    f.keyword n ++ " " ++ names.headD "" ++ ";\n" ++ indent) = head
  generalize wrapInner text indent names = inner at hinner
  refine ⟨head ++ front, back ++ binding, ?_⟩
  calc head ++ opening (names.headD "") ++ (inner ++ "\x7d)(" ++ binding)
    _ = head ++ (opening (names.headD "") ++ inner ++ "\x7d)(") ++ binding := by
        simp only [String.append_assoc]
    _ = _ := by
        rw [hinner]
        simp only [String.append_assoc]

/-- What comes of a namespace: between the braces of the innermost call stands the compiled text of
what stands between its own, which begins and ends between characters. -/
structure FillsBraces (t : Setting) (v : Visit) (f : Frame) (scope : List String)
    (around : List Node) (name statement left : Node) (inner : List Node) (right : Node)
    (out : Except EditError Emission) : Prop where
  readable : slice? t.source left.stop right.start = some (slice t.source left.stop right.start)
  compiled : out =
    (textBetween t v { f with namespaces := (spaceNames t.source name).getLastD "" :: f.namespaces }
        around (Layout.indentAt t.source statement.start) left inner right).map fun text =>
      ⟨[.replace statement.start statement.stop (spaceText t f scope name statement text).1], false,
        (spaceText t f scope name statement text).2⟩
  enclosed : ∀ text, ∃ front back, (spaceText t f scope name statement text).1 =
    front ++ opening ((spaceNames t.source name).getLastD "") ++ text ++ "\x7d)(" ++ back

/-- A namespace is compiled to a call with the compiled text of what stands between its braces, if
the block ends with the second one. -/
theorem visit_fillsBraces {fuel : Nat} (hd : n.container? = some d) (hspace : d.isSpace)
    (hname : d.child? .name = some name) (hplain : name.isA .string = false)
    (hinstantiated : d.isInstantiated) (hbody : d.child? .body = some body)
    (hbraced : body.IsBraced t.source left inner right) (hordered : body.isOrdered) :
    FillsBraces t (visit t fuel) f scope (body :: d :: p.around) name n left inner right
        (visit t (fuel + 1) f p scope n) ∧
      body.text t.source =
        "\x7b" ++ String.ofList (slice t.source left.stop right.start) ++ "\x7d" := by
  obtain ⟨-, -, -, hcut, hslice⟩ := slice_of_isBraced hbraced hordered
  refine ⟨⟨hcut, ?_, exists_spaceText_eq⟩, ?_⟩
  · rw [visit, visitNode_of_space hd hspace, namespaceDeclaration, hname, hbody]
    dsimp only
    rw [hplain, hinstantiated, bodyText_eq_textBetween hbraced hordered, ← spaceNames]
    cases textBetween t (visit t fuel)
      { f with namespaces := (spaceNames t.source name).getLastD "" :: f.namespaces }
      (body :: d :: p.around) (Layout.indentAt t.source n.start) left inner right <;> rfl
  · rw [Node.text, hslice]
    apply String.toList_inj.mp
    simp

section

open Node

/-- `export const x = 1;` -/
def exportOfOne (start : Nat) : Node :=
  branch .exportStatement
    [word start "export",
      playing .declaration <| branch .lexicalDeclaration
        [playing .kind (word (start + 7) "const"),
          branch .variableDeclarator
            [playing .name (leaf .identifier (start + 13) (start + 14)), word (start + 15) "=",
              playing .value (leaf .number (start + 17) (start + 18))],
          word (start + 18) ";"]]

def dottedBlock : Node :=
  branch .statementBlock [word 14 "\x7b", exportOfOne 18, word 38 "\x7d"]

def dottedName : Node :=
  branch .nestedIdentifier
    [playing .object (leaf .identifier 10 11), word 11 ".",
      playing .property (leaf .propertyIdentifier 12 13)]

def dottedSpace : Node :=
  branch .internalModule
    [word 0 "namespace", playing .name dottedName, playing .body dottedBlock]

def dottedStatement : Node := branch .expressionStatement [dottedSpace]

def dottedModule : ModuleRecord :=
  .ofTree "m.ts" "namespace A.B \x7b\n  export const x = 1;\n\x7d\n" (script 40 [dottedStatement])

def dottedOut : Except EditError Emission :=
  visit (settingOf dottedModule) 6 ⟨[], ⟨0, 40⟩⟩ {} [] dottedStatement

set_option maxRecDepth 4000 in
/-- `visit_fillsBraces` for a namespace in another one. -/
theorem dottedSpace_fillsBraces :
    dottedOut.map (·.edits) = .ok [.replace 0 39 ("var A;\n(function (A) \x7b\n    let B;\n" ++
      "    (function (B) \x7b\n  const x = 1;\n  B.x = x;\n" ++
      "\x7d)(B = A.B || (A.B = \x7b\x7d));\n\x7d)(A || (A = \x7b\x7d));")] ∧
    FillsBraces (settingOf dottedModule) (visit (settingOf dottedModule) 5) ⟨[], ⟨0, 40⟩⟩ []
      [playing .body dottedBlock, dottedSpace] (playing .name dottedName) dottedStatement
      (word 14 "\x7b") [exportOfOne 18] (word 38 "\x7d") dottedOut ∧
    (playing .body dottedBlock).text dottedModule.text.toList =
      "\x7b\n  export const x = 1;\n\x7d" := by
  have hbraced : (playing .body dottedBlock).IsBraced dottedModule.text.toList (word 14 "\x7b")
      [exportOfOne 18] (word 38 "\x7d") :=
    ⟨rfl, rfl, rfl, rfl, rfl, by decide +kernel, by decide +kernel⟩
  have hname : dottedSpace.child? .name = some (playing .name dottedName) := rfl
  have hbody : dottedSpace.child? .body = some (playing .body dottedBlock) := rfl
  obtain ⟨hfills, htext⟩ := visit_fillsBraces (t := settingOf dottedModule) (f := ⟨[], ⟨0, 40⟩⟩)
    (p := {}) (n := dottedStatement) (d := dottedSpace) rfl rfl hname rfl (by decide) hbody hbraced
    (by decide)
  have hbetween : String.ofList (slice dottedModule.text.toList 15 38) =
      "\n  export const x = 1;\n" := by
    decide +kernel
  refine ⟨by cbv, hfills, htext.trans ?_⟩
  exact congrArg (fun text => "\x7b" ++ text ++ "\x7d") hbetween

/-- The block of the namespace reaches over the comment behind its brace. -/
def commentBehind : ModuleRecord :=
  .ofTree "m.ts" "namespace A \x7b\n  f();\n\x7d // c\n" <|
    script 28
      [branch .expressionStatement
        [branch .internalModule
          [word 0 "namespace", playing .name (leaf .identifier 10 11),
            playing .body <| branch .statementBlock
              [word 12 "\x7b", branch .expressionStatement [call 16, word 19 ";"],
                word 21 "\x7d", leaf .comment 23 27]]]]

/-- The brace and all of a comment behind it but for its last byte are taken for a part of what
stands between the braces, and the text to be compiled may end inside the last character. -/
theorem brace_compiled_with_body :
    (commentBehind.tree.hasError = false ∧
      commentBehind.emit commentBehind.analysis {} = .ok
        "var A;\n(function (A) \x7b\n  f();\n\x7d // \x7d)(A || (A = \x7b\x7d));\n") ∧
    endsInComment.tree.hasError = false ∧
      endsInComment.emit endsInComment.analysis {} = .error (.unreadable ⟨13, 42⟩) :=
  ⟨⟨by decide, by decide +kernel⟩, endsInComment_unreadable⟩

end

end Emit

end CompilingProxy
