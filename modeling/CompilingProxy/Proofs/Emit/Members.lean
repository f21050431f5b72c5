import CompilingProxy.Proofs.Emit.Declaring
import CompilingProxy.Proofs.Emit.Exports
import CompilingProxy.Proofs.Emit.Lines

/-!
# Members of namespaces

What a namespace exports becomes a member of the object that is filled for it. The main result is
that in the call which fills the object each value that is exported by a name of its own is assigned
to the member of that name, whether the namespace is written on one line or over several, and
wherever it stands in other ones.
-/

namespace CompilingProxy

open Emit Text

namespace Emit

/-- The text assigns what a name is bound to to the member of that name: on a line of its own, or
where an object is filled. -/
def SetsMember (container name : String) (text : List Char) : Prop :=
  (∃ blanks, (∀ c ∈ blanks, Layout.isBlankOfLine c) ∧
    '\n' :: (blanks ++ (container ++ "." ++ name ++ " = " ++ name ++ ";").toList) <:+: text) ∨
  ("\x7d)(" ++ memberText container name ++ ");").toList <:+: text

variable {t : Setting} {v : Visit} {f : Frame} {p : Place} {scope : List String} {n d : Node}
  {container name : String} {x : ExportedName} {out : Emission}

theorem SetsMember.mono {text text' : List Char} (h : SetsMember container name text)
    (hput : text <:+: text') : SetsMember container name text' := by
  rcases h with ⟨blanks, hblanks, h⟩ | h
  · exact .inl ⟨blanks, hblanks, h.trans hput⟩
  · exact .inr (h.trans hput)

/-- Where a member is assigned it is written. -/
theorem SetsMember.writes_member {text : List Char} (h : SetsMember container name text) :
    (container ++ "." ++ name).toList <:+: text := by
  rcases h with ⟨blanks, -, h⟩ | h
  · refine List.IsInfix.trans ⟨'\n' :: blanks, (" = " ++ name ++ ";").toList, ?_⟩ h
    simp
  · refine List.IsInfix.trans ⟨("\x7d)(" ++ name ++ " = ").toList,
      (" || (" ++ (container ++ "." ++ name) ++ " = \x7b\x7d));").toList, ?_⟩ h
    simp [memberText, objectText]

/-- In a call that fills the object, the text assigns what a name is bound to to its member. -/
def FillsMember (container name : String) (text : List Char) : Prop :=
  ∃ front body back, text =
      front ++ (opening container).toList ++ body ++ "\x7d)(".toList ++ back ∧
    SetsMember container name body

theorem FillsMember.mono {text text' : List Char} (h : FillsMember container name text)
    (hput : text <:+: text') : FillsMember container name text' := by
  obtain ⟨front, body, back, rfl, hsets⟩ := h
  obtain ⟨before, after, rfl⟩ := hput
  exact ⟨before ++ front, body, back ++ after, by simp only [List.append_assoc], hsets⟩

theorem FillsMember.writes_member {text : List Char} (h : FillsMember container name text) :
    (container ++ "." ++ name).toList <:+: text := by
  obtain ⟨front, body, back, rfl, hsets⟩ := h
  refine hsets.writes_member.trans
    ⟨front ++ (opening container).toList, "\x7d)(".toList ++ back, ?_⟩
  simp only [List.append_assoc]

theorem setsMember_wrap {body indent : String} (hf : f.namespaces.head? = some container) :
    SetsMember container name (wrap f scope name true body indent).1.toList := by
  obtain ⟨namespaces, bounds⟩ := f
  cases namespaces with
  | nil => cases hf
  | cons parent namespaces =>
    obtain rfl := Option.some.inj hf
    refine .inr ?_
    have hcall : (wrap ⟨parent :: namespaces, bounds⟩ scope name true body indent).1 =
        (if scope.contains name then "" else declarationText "let" name indent) ++ opening name ++
          body ++ ("\x7d)(" ++ memberText parent name ++ ");") := by
      rw [wrap.eq_def]
      simp only [callText, String.append_assoc]
    generalize "\x7d)(" ++ memberText parent name ++ ");" = binding at hcall
    rw [hcall, String.toList_append]
    exact (List.suffix_append _ _).isInfix

/-- A name that a declaration binds by itself is one of those that are assigned. -/
theorem mem_boundNames {source : List Char} (hx : x ∈ d.boundNames source) (hform : x.form = .name)
    (hspace : d.isSpace = false) (hambient : d.isA .ambientDeclaration = false) :
    x.name ∈ boundNames source d := by
  obtain ⟨label, role, start, stop, missing, children⟩ := d
  rw [boundNames]
  rw [Node.boundNames] at hx
  dsimp only at hx
  split at hx
  case h_1 hk | h_2 hk =>
    obtain ⟨name, hname, hx⟩ := List.mem_flatMap.mp hx
    obtain ⟨hidentifier, htext⟩ := Node.eq_of_mem_variableNames hx hform
    rw [Node.isOneOf_of_kind? hk, if_pos (by decide), htext]
    exact List.mem_map_of_mem (List.mem_filter.mpr ⟨hname, hidentifier⟩)
  case h_3 hk =>
    rw [Node.isSpace_iff.mpr (.inl hk)] at hspace
    cases hspace
  case h_4 hk =>
    rw [Node.isSpace_iff.mpr (.inr hk)] at hspace
    cases hspace
  case h_5 =>
    obtain ⟨name, -, rfl⟩ := Option.map_eq_some_iff.mp (Option.mem_toList.mp hx)
    cases hform
  case h_6 hk =>
    rw [Node.isA_iff.mpr hk] at hambient
    cases hambient
  case h_7 kind hlexical hvariable _ _ _ _ hk =>
    rw [Node.isOneOf_of_kind? hk, if_neg (by simpa using ⟨hlexical, hvariable⟩)]
    split at hx
    case isTrue =>
      obtain ⟨name, hname, rfl⟩ := Option.map_eq_some_iff.mp (Option.mem_toList.mp hx)
      rw [hname]
      exact List.mem_singleton_self _
    case isFalse => cases hx
  case h_8 => cases hx

theorem namespaceExport_setsMember (hname : name ∈ boundNames t.source d)
    (hout : namespaceExport t v f p scope n d container = .ok out) :
    ∃ e ∈ out.edits, SetsMember container name e.replacement.toList := by
  obtain ⟨inner, -, hout⟩ := bind_eq_ok_iff.mp hout
  cases hout
  dsimp only
  generalize hindent : Layout.indentAt t.source n.start = indent
  have hblanks : ∀ c ∈ indent, Layout.isBlankOfLine c := by
    rw [← hindent]
    exact fun c hc => List.mem_takeWhile_imp hc
  have hmem := List.mem_map_of_mem (f := fun name =>
    "\n" ++ String.ofList indent ++ container ++ "." ++ name ++ " = " ++ name ++ ";") hname
  generalize List.map _ (boundNames t.source d) = texts at hmem
  have hput := infix_join hmem
  have hne : (String.join texts).isEmpty = false := by
    rw [Bool.eq_false_iff, ne_eq, String.isEmpty_iff]
    intro hnone
    rw [hnone] at hput
    simp at hput
  rw [hne, if_neg Bool.false_ne_true]
  refine ⟨.insert n.stop (String.join texts), by simp, .inl ⟨indent, hblanks, ?_⟩⟩
  refine List.IsInfix.trans ?_ hput
  simp

theorem namespaceDeclaration_setsMember {statement : Node}
    (hf : f.namespaces.head? = some container) (hspace : d.isSpace)
    (hstays : d.leavesNothing = false) (hx : x ∈ d.boundNames t.source) (hform : x.form = .name)
    (hout : namespaceDeclaration t v f p scope d statement true = .ok out) :
    ∃ e ∈ out.edits, SetsMember container x.name e.replacement.toList := by
  rw [Node.boundNames_space hspace] at hx
  obtain ⟨name, hname, rfl⟩ := Option.map_eq_some_iff.mp (Option.mem_toList.mp hx)
  obtain ⟨hname, -⟩ := Option.filter_eq_some_iff.mp hname
  have htight : name.isTight t.source := by
    by_contra hloose
    simp [Node.spaceName, hloose] at hform
  have hpresent : (name.isA .string || !d.isInstantiated || (d.child? .body).isNone) = false := by
    rw [Node.leavesNothing, hname, Option.any_some] at hstays
    rw [Node.isSpace] at hspace
    rwa [hspace, Bool.true_and] at hstays
  obtain ⟨hnothing, hsome⟩ := Bool.or_eq_false_iff.mp hpresent
  rw [namespaceDeclaration, hname] at hout
  dsimp only at hout
  rw [if_neg (by simp [hnothing])] at hout
  cases hbody : d.child? .body with
  | none =>
    rw [hbody] at hsome
    cases hsome
  | some body =>
    rw [hbody] at hout
    obtain ⟨text, -, hout⟩ := bind_eq_ok_iff.mp hout
    cases hout
    have hfirst : (Node.spaceName t.source name).name =
        ((splitOnChar '.' (slice t.source name.start name.stop)).map fun part =>
          String.ofList (trim part)).headD "" := by
      rw [headD_parts]
      exact (firstName_of_isTight htight).symm
    rw [hfirst]
    exact ⟨_, List.mem_singleton_self _, setsMember_wrap hf⟩

theorem enumDeclaration_setsMember {statement : Node} (hf : f.namespaces.head? = some container)
    (henum : d.isA .enumDeclaration) (hx : x ∈ d.boundNames t.source)
    (hout : enumDeclaration t v f p scope d statement true = .ok out) :
    ∃ e ∈ out.edits, SetsMember container x.name e.replacement.toList := by
  rw [Node.boundNames_of_kind? (Node.isA_iff.mp henum) (by decide), if_pos (by decide)] at hx
  obtain ⟨name, hname, rfl⟩ := Option.map_eq_some_iff.mp (Option.mem_toList.mp hx)
  rw [enumDeclaration, hname] at hout
  obtain ⟨state, -, hout⟩ := bind_eq_ok_iff.mp hout
  cases hout
  exact ⟨_, List.mem_singleton_self _, setsMember_wrap hf⟩

/-- In a namespace, the export of a declaration that no object is filled for is compiled to the
declaration with the assignments behind it. -/
theorem visitNode_eq_namespaceExport (hd : n.ExportsDeclaration d)
    (hf : f.namespaces.head? = some container) (henum : d.isA .enumDeclaration = false)
    (hspace : d.isSpace = false) :
    visitNode t v f p scope n = namespaceExport t v f p scope n d container := by
  have hmodule : (d.isA .internalModule || d.isA .module) = false := by
    simpa only [Node.isSpace, Node.isOneOf_cons, Node.isOneOf_nil, Bool.or_false] using hspace
  rw [visitNode, lowered?, Node.isA_iff.mp hd.isExport]
  dsimp only
  rw [exportStatement, if_neg (by simp [hd.plain]), hd.declaration]
  dsimp only
  rw [if_neg (by simp [hd.stays]), if_neg (by simp [henum]), if_neg (by simp [hmodule]), hf]

/-- An export of a namespace comes to edits that assign what it exports by a name of its own. -/
theorem visit_setsMember {fuel : Nat} (hf : f.namespaces.head? = some container)
    (hx : x ∈ n.exportedValues t.source) (hform : x.form = .name)
    (hout : visit t (fuel + 1) f p scope n = .ok out) :
    ∃ e ∈ out.edits, SetsMember container x.name e.replacement.toList := by
  obtain ⟨d, hd, hx⟩ := Node.exists_exportsDeclaration hx
  rw [visit] at hout
  by_cases hobject : d.isA .enumDeclaration || d.isSpace
  · obtain ⟨p', hvisit⟩ := visitNode_of_container (t := t) (v := visit t fuel) (f := f) (p := p)
      (hd.container hobject)
    rw [hvisit, hd.isExport] at hout
    split at hout
    case isTrue henum => exact enumDeclaration_setsMember hf henum hx hout
    case isFalse henum =>
      rw [Bool.eq_false_iff.mpr henum, Bool.false_or] at hobject
      exact namespaceDeclaration_setsMember hf hobject (hd.fills hobject) hx hform hout
  · rw [Bool.not_eq_true, Bool.or_eq_false_iff] at hobject
    have hambient : d.isA .ambientDeclaration = false := by
      rw [Bool.eq_false_iff]
      intro hambient
      have hstays := hd.stays
      rw [Node.isOneOf_of_kind? (Node.isA_iff.mp hambient)] at hstays
      cases hstays
    rw [visitNode_eq_namespaceExport hd hf hobject.1 hobject.2] at hout
    exact namespaceExport_setsMember (mem_boundNames hx hform hobject.2 hambient) hout

/-! ### The text of a namespace -/

theorem visitAll_mem {ps : List (Place × Node)} {edits : List TextEdit} {scope' : List String}
    (h : visitAll v f scope ps = .ok (edits, scope')) (hmem : (p, n) ∈ ps) :
    ∃ before own, v f p before n = .ok own ∧ own.edits <:+: edits := by
  induction ps generalizing scope edits scope' with
  | nil => cases hmem
  | cons first ps ih =>
    obtain ⟨q, m⟩ := first
    rw [visitAll] at h
    obtain ⟨own, hown, h⟩ := bind_eq_ok_iff.mp h
    obtain ⟨⟨rest, next⟩, hrest, h⟩ := bind_eq_ok_iff.mp h
    cases h
    rcases List.mem_cons.mp hmem with heq | hmem
    · cases heq
      exact ⟨scope, own, hown, (List.prefix_append _ _).isInfix⟩
    · obtain ⟨before, own', hown', hedits⟩ := ih hrest hmem
      exact ⟨before, own', hown', hedits.trans (List.suffix_append _ _).isInfix⟩

/-- What the edits of a span put in is found in its compiled text. -/
theorem replacement_infix_edited {source text : List Char} {span : Range} {edits : List TextEdit}
    (h : Layout.edited source span edits = .ok text) {e : TextEdit} (he : e ∈ edits) :
    e.replacement.toList <:+: text := by
  rw [Layout.edited] at h
  dsimp only at h
  split at h
  case h_1 | h_2 => cases h
  case h_3 cut _ _ =>
    cases happly : applyEdits cut (edits.map fun e => TextEdit.replace
        (e.range.start - span.start) (e.range.stop - span.start) e.replacement) with
    | error err =>
      rw [happly] at h
      cases h
    | ok out =>
      rw [happly] at h
      cases h
      have hput := replacement_infix_applyEdits happly (List.mem_map_of_mem he)
      exact hput

/-! ### Texts that are laid out anew -/

theorem isPiece_closing : IsPiece "\x7d)(".toList where
  notMem := by decide
  head c hc := by
    obtain rfl : '\x7d' = c := by simpa using hc
    decide
  last := ⟨"\x7d)".toList, '(', by decide, by decide⟩

section

variable {own indent : List Char}
  (hhead : ∀ c, container.toList.head? = some c → isBlank c = false)
  (hcontainer : '\n' ∉ container.toList) (hname : '\n' ∉ name.toList)
  (hindent : ∀ c ∈ indent, Layout.isBlankOfLine c)

include hcontainer

theorem isPiece_opening : IsPiece (opening container).toList where
  notMem := by simp [opening, hcontainer]
  head c hc := by
    obtain rfl : '(' = c := by simpa [opening] using hc
    decide
  last := ⟨("(function (" ++ container ++ ") ").toList, '\x7b', by simp [opening], by decide⟩

include hname

theorem isPiece_binding : IsPiece ("\x7d)(" ++ memberText container name ++ ");").toList where
  notMem := by simp [memberText, objectText, hcontainer, hname]
  head c hc := by
    obtain rfl : '\x7d' = c := by simpa using hc
    decide
  last := ⟨("\x7d)(" ++ memberText container name ++ ")").toList, ';', by simp, by decide⟩

include hhead

theorem isPiece_assignment :
    IsPiece (container ++ "." ++ name ++ " = " ++ name ++ ";").toList where
  notMem := by simp [hcontainer, hname]
  head c hc := by
    cases hcs : container.toList with
    | nil =>
      obtain rfl : '.' = c := by simpa [hcs] using hc
      decide
    | cons d cs =>
      refine hhead c ?_
      simpa [hcs] using hc
  last := ⟨(container ++ "." ++ name ++ " = " ++ name).toList, ';', by simp, by decide⟩

include hindent

/-- What a text assigns is assigned when its lines are laid out anew. -/
theorem SetsMember.relaid (h : SetsMember container name own) :
    SetsMember container name (relaid indent own) := by
  rcases h with ⟨blanks, hblanks, front, back, rfl⟩ | ⟨front, back, rfl⟩
  · have hpiece := isPiece_assignment hhead hcontainer hname
    obtain ⟨before, margin, after, hrelaid, hmargin⟩ :=
      exists_relaid hindent hpiece (front ++ '\n' :: blanks) back
    refine .inl ⟨margin, hmargin ?_, before, after, ?_⟩
    · rwa [lastLine_append_cons fun hbreak => absurd (hblanks _ hbreak) (by decide)]
    · rw [← hrelaid]
      simp
  · obtain ⟨before, margin, after, hrelaid, -⟩ :=
      exists_relaid hindent (isPiece_binding hcontainer hname) front back
    refine .inr ⟨before ++ '\n' :: margin, after, ?_⟩
    rw [List.append_assoc front, hrelaid]
    simp

/-- A call that fills the object fills it when its lines are laid out anew. -/
theorem FillsMember.relaid (h : FillsMember container name own) :
    FillsMember container name (relaid indent own) := by
  obtain ⟨front, body, back, rfl, hsets⟩ := h
  have hopening := isPiece_opening hcontainer
  rcases hsets with ⟨blanks, hblanks, first, second, rfl⟩ | ⟨first, second, rfl⟩
  · obtain ⟨before, margin, after, hcall, -⟩ := exists_relaid hindent hopening front first
    obtain ⟨before', margin', between, after', hassigned, hmargin⟩ := exists_relaid_pair hindent
      (isPiece_assignment hhead hcontainer hname) isPiece_closing blanks second back
    rw [lastLine_of_notMem fun hbreak => absurd (hblanks _ hbreak) (by decide)] at hmargin
    generalize htext : (container ++ "." ++ name ++ " = " ++ name ++ ";").toList = text
      at hassigned ⊢
    refine ⟨before ++ '\n' :: margin, after ++ before' ++ '\n' :: (margin' ++ text) ++ between,
      after', ?_, .inl ⟨margin', hmargin hblanks, after ++ before', between, ?_⟩⟩
    · have hbreak : front ++ (opening container).toList ++
            (first ++ '\n' :: (blanks ++ text) ++ second) ++ "\x7d)(".toList ++ back =
          (front ++ ((opening container).toList ++ first)) ++
            '\n' :: (blanks ++ (text ++ (second ++ ("\x7d)(".toList ++ back)))) := by
        simp only [List.append_assoc, List.cons_append]
      rw [hbreak, relaid_append_cons, hcall, hassigned]
      simp only [List.append_assoc, List.cons_append]
    · rw [htext]
  · obtain ⟨before, between, between', after, hrelaid⟩ := exists_relaid_triple hindent hopening
      (isPiece_binding hcontainer hname) isPiece_closing front first second back
    refine ⟨before, between ++ _ ++ between', after, ?_, .inr ⟨between, between', rfl⟩⟩
    rw [← List.append_assoc (before ++ _), ← List.append_assoc (before ++ _), ← hrelaid]
    simp only [List.append_assoc]

end

/-- What stands between the braces of a block lies at least a byte inside it. -/
theorem within_of_isBlock {body right : Node} {inner rest : List Node} (hordered : body.isOrdered)
    (hblock : body.isBlock) (hclosed : body.children = inner ++ right :: rest)
    (hwidth : right.start < right.stop) (hn : n ∈ inner) (hnamed : n.isNamed) :
    body.start + 1 ≤ n.start ∧ n.stop ≤ body.stop - 1 := by
  have hrow := (Node.isOrdered_iff.mp hordered).2
  obtain ⟨-, ⟨brace, others, hchildren, hword, -, hstop⟩, -⟩ := Node.isBlock_iff.mp hblock
  constructor
  · have hmem : n ∈ brace :: others := by
      rw [← hchildren, hclosed]
      exact List.mem_append_left _ hn
    rcases List.mem_cons.mp hmem with rfl | hmem
    · rw [isNamed_of_isWord hword] at hnamed
      cases hnamed
    · rw [hchildren] at hrow
      rw [← hstop]
      exact (Node.bounds_of_mem (Node.allOrdered_cons_iff.mp hrow).2.2 hmem).1
  · rw [hclosed] at hrow
    have hbefore := (Node.bounds_of_mem (Node.allOrdered_append_cons hrow).1 hn).2
    have hright : right.stop ≤ body.stop :=
      (Node.bounds_of_mem hrow (List.mem_append_right _ List.mem_cons_self)).2
    omega

/-- What is true of a text that an edit of a statement puts in is true of the compiled text of the
body, if it stays true in a longer text and in one that is laid out anew. -/
theorem bodyText_keeps {holds : List Char → Prop} {indent : List Char} {body right : Node}
    {inner rest : List Node} {text : String}
    (hlonger : ∀ {own own'}, holds own → own <:+: own' → holds own')
    (hrelaid : '\n' ∉ slice t.source body.start body.stop → ∀ {own}, holds own →
      holds (relaid indent own))
    (hordered : body.isOrdered) (hblock : body.isBlock)
    (hclosed : body.children = inner ++ right :: rest) (hwidth : right.start < right.stop)
    (hn : n ∈ inner) (hnamed : n.isNamed)
    (hvisit : ∀ {bounds q before own}, v ⟨f.namespaces, bounds⟩ q before n = .ok own →
      ∃ e ∈ own.edits, holds e.replacement.toList)
    (htext : bodyText t v f p indent body = .ok text) : holds text.toList := by
  have hmem : n ∈ body.children := by
    rw [hclosed]
    exact List.mem_append_left _ hn
  obtain ⟨q, hq⟩ := Place.exists_mem_row (body :: p.around) none hmem
  rw [bodyText] at htext
  dsimp only at htext
  split at htext
  case isTrue =>
    obtain ⟨⟨edits, scope'⟩, hedits, htext⟩ := bind_eq_ok_iff.mp htext
    obtain ⟨out, hout, htext⟩ := bind_eq_ok_iff.mp htext
    cases htext
    have hinside : (q, n) ∈ (p.children body).filter fun x =>
        body.start + 1 ≤ x.2.start && x.2.stop ≤ max (body.stop - 1) (body.start + 1) := by
      have hwithin := within_of_isBlock hordered hblock hclosed hwidth hn hnamed
      refine List.mem_filter.mpr ⟨hq, ?_⟩
      simp only [Bool.and_eq_true, decide_eq_true_eq]
      omega
    obtain ⟨before, own, hown, hput⟩ := visitAll_mem hedits hinside
    obtain ⟨e, he, hholds⟩ := hvisit hown
    rw [String.toList_ofList]
    exact hlonger hholds (replacement_infix_edited hout (hput.subset he))
  case isFalse hbreak =>
    obtain ⟨laid, hlaid, htext⟩ := bind_eq_ok_iff.mp htext
    cases htext
    have hinside : (q, n) ∈ (p.children body).filter fun x => x.2.isNamed :=
      List.mem_filter.mpr ⟨hq, hnamed⟩
    obtain ⟨before, own, scope', hrender, hlines⟩ := statementLines_mem hlaid hinside
    obtain ⟨out, hout, hrender⟩ := bind_eq_ok_iff.mp hrender
    obtain ⟨text, htext, hrender⟩ := bind_eq_ok_iff.mp hrender
    cases hrender
    obtain ⟨e, he, hholds⟩ := hvisit hout
    have hown := hlonger hholds (replacement_infix_edited htext he)
    exact hlonger (hrelaid (by simpa using hbreak) hown) (relaid_infix_bracedLines hlines _)

/-- The name of the innermost of the namespaces that are written with dots. -/
def innermost (source : List Char) (name : Node) : String := (spaceNames source name).getLastD ""

theorem isBlank_head_innermost {source : List Char} {name : Node} (c : Char)
    (h : (innermost source name).toList.head? = some c) : isBlank c = false := by
  have hne : spaceNames source name ≠ [] := by
    rw [spaceNames, ne_eq, List.map_eq_nil_iff]
    exact splitOnChar_ne_nil
  have hmem : innermost source name ∈ spaceNames source name := by
    rw [innermost, List.getLastD_eq_getLast?, List.getLast?_eq_some_getLast hne]
    exact List.getLast_mem hne
  obtain ⟨part, -, hpart⟩ := List.mem_map.mp hmem
  rw [← hpart, String.toList_ofList] at h
  exact isBlank_head_trim h

/-- What is true of a text that an edit of a statement of a namespace puts in is true of the text
between the braces of the call that takes the place of the namespace. -/
theorem visit_keeps {fuel : Nat} {body space s : Node} {inner : List Node}
    {holds : List Char → Prop} (h : n.FillsSpace d space body inner) (hn : n.IsSound t.source)
    (hs : s ∈ inner) (hnamed : s.isNamed)
    (hlonger : ∀ {own own'}, holds own → own <:+: own' → holds own')
    (hrelaid : '\n' ∉ slice t.source body.start body.stop → ∀ {indent own},
      (∀ c ∈ indent, Layout.isBlankOfLine c) → holds own → holds (relaid indent own))
    (hvisit : ∀ {bounds q before own},
      visit t fuel ⟨innermost t.source space :: f.namespaces, bounds⟩ q before s = .ok own →
        ∃ e ∈ own.edits, holds e.replacement.toList)
    (hout : visit t (fuel + 1) f p scope n = .ok out) :
    ∃ e ∈ out.edits, ∃ front text back, e.replacement =
        front ++ opening (innermost t.source space) ++ text ++ "\x7d)(" ++ back ∧
      holds text.toList := by
  obtain ⟨right, rest, hclosed, hwidth⟩ := h.closed
  have hspace := h.isSound_space hn
  have hbody := h.isSound_body hn
  rw [visit, visitNode_of_space h.container h.isSpace, namespaceDeclaration, h.called,
    h.block] at hout
  dsimp only at hout
  rw [h.plain, h.isInstantiated, ← spaceNames] at hout
  obtain ⟨text, htext, hout⟩ := bind_eq_ok_iff.mp hout
  cases hout
  obtain ⟨front, back, hcall⟩ := exists_spaceText_eq (t := t) (f := f) (n := n) text
  refine ⟨_, List.mem_singleton_self _, front, text, back, hcall, ?_⟩
  exact bodyText_keeps hlonger (fun hunbroken _ => hrelaid hunbroken
      fun c hc => List.mem_takeWhile_imp hc)
    hbody.ordered (isBlock_of_isModule hspace h.isSpace h.block) hclosed hwidth hs hnamed hvisit
    htext

/-- Where a statement is compiled, each value that a namespace exports in it is assigned to a member
of the object that is filled for the namespace. -/
theorem visit_fillsMember {fuel : Nat} {space : Node} {member : String}
    (h : n.Exports t.source space member) (hline : '\n' ∉ (innermost t.source space).toList)
    (hn : n.IsSound t.source) (hdepth : n.depth ≤ fuel)
    (hout : visit t fuel f p scope n = .ok out) :
    ∃ e ∈ out.edits, FillsMember (innermost t.source space) member e.replacement.toList := by
  induction h generalizing fuel f p scope out with
  | own h hs hx hform =>
    have hlevel := h.depth_lt hs
    obtain ⟨fuel, rfl⟩ := Nat.exists_eq_add_of_le' (show 2 ≤ fuel by omega)
    obtain ⟨c, hc, -⟩ := Node.exists_exportsDeclaration hx
    have hunbroken := h.notMem_member hn hs (Node.exists_reaches_of_mem_exportedValues hx hform)
    obtain ⟨e, he, front, text, back, hcall, hsets⟩ := visit_keeps h hn hs
      (Node.isNamed_of_isA hc.isExport) SetsMember.mono
      (fun hbody _ _ hindent =>
        SetsMember.relaid isBlank_head_innermost hline (hunbroken hbody) hindent)
      (fun hown => visit_setsMember rfl hx hform hown) hout
    refine ⟨e, he, front.toList, text.toList, back.toList, ?_, hsets⟩
    rw [hcall]
    simp only [String.toList_append]
  | @inner n d outer body s name inner member h hs hnamed hbelow ih =>
    have hlevel := h.depth_lt hs
    obtain ⟨fuel, rfl⟩ := Nat.exists_eq_add_of_le' (show 1 ≤ fuel by omega)
    have hunbroken := h.notMem_member hn hs hbelow.exists_reaches
    have hsound := (h.isSound_body hn).child (h.mem_children hs)
    obtain ⟨e, he, front, text, back, hcall, hfills⟩ := visit_keeps h hn hs hnamed FillsMember.mono
      (fun hbody _ _ hindent =>
        FillsMember.relaid isBlank_head_innermost hline (hunbroken hbody) hindent)
      (fun hown => ih hline hsound (by omega) hown) hout
    refine ⟨e, he, hfills.mono ⟨(front ++ opening (innermost t.source outer)).toList,
      ("\x7d)(" ++ back).toList, ?_⟩⟩
    rw [hcall]
    simp only [String.toList_append, List.append_assoc]
  | part h hc hnamed hbelow ih =>
    have hlevel := Node.depth_lt_of_mem hc
    obtain ⟨fuel, rfl⟩ := Nat.exists_eq_add_of_le' (show 1 ≤ fuel by omega)
    rw [visit, visitNode, h] at hout
    obtain ⟨children, hchildren, hout⟩ := bind_eq_ok_iff.mp hout
    cases hout
    obtain ⟨q, hq⟩ := Place.exists_mem_row (_ :: p.around) none hc
    obtain ⟨before, own, hown, hedits⟩ := visitChildren_mem hchildren hq hnamed
    obtain ⟨e, he, hfills⟩ := ih hline (hn.child hc) (by omega) hown
    exact ⟨e, List.mem_append_right _ (hedits he), hfills⟩

end Emit

/-- When a module is compiled, each value that a namespace in it exports by a name of its own is
assigned to a member of the object, in a call that fills the object of the namespace. -/
theorem ModuleRecord.emit_fills_members {r : ModuleRecord} {o : CompilerOptions}
    (hkind : r.kind.isTypeScript) (hordered : r.tree.isOrdered)
    (hregular : r.tree.everywhere (Node.isRegular r.text.toList))
    (hfirm : r.tree.everywhere Node.isFirm)
    (hbodies : r.tree.everywhere (Node.endsInByte r.text.toList)) :
    ∃ out, r.emit r.analysis o = .ok out ∧ ∀ n ∈ r.tree.children, ∀ space member,
      n.Exports r.text.toList space member → '\n' ∉ (innermost r.text.toList space).toList →
        FillsMember (innermost r.text.toList space) member out.toList := by
  have hsound : r.tree.IsSound r.text.toList := ⟨hordered, hregular, hfirm, hbodies⟩
  obtain ⟨out, hemit⟩ : ∃ out, r.emit r.analysis o = .ok out := by
    rw [emit_eq_emitBy]
    exact emitBy_isOk hsound fun _ => visit_isComplete _
  refine ⟨out, hemit, fun n hmem space member hexports hline => ?_⟩
  obtain ⟨fuel, p, scope, own, hdepth, hown, hcompiles⟩ := r.exists_compiles hkind hemit hmem
  have hlevel : n.depth ≤ fuel + 1 := hdepth ▸ Nat.le_of_lt (Node.depth_lt_of_mem hmem)
  obtain ⟨e, he, hfills⟩ := visit_fillsMember (t := .ofModule r r.analysis o.verbatimModuleSyntax)
    hexports hline (hsound.child hmem) hlevel hown
  exact hfills.mono (hcompiles.infix_out he)

section

open Node

/-- `namespace N { export const x = 1; }` -/
def spaceOfOne : Node :=
  branch .expressionStatement
    [branch .internalModule
      [word 14 "namespace", playing .name (leaf .identifier 24 25),
        playing .body (branch .statementBlock [word 26 "\x7b", exportOfOne 28, word 48 "\x7d"])]]

def spaceInSpace : Node :=
  branch .expressionStatement
    [branch .internalModule
      [word 0 "namespace", playing .name (leaf .identifier 10 11),
        playing .body (branch .statementBlock [word 12 "\x7b", spaceOfOne, word 50 "\x7d"])]]

/-- A namespace in another one, both on one line. -/
def exportsInLine : ModuleRecord :=
  .ofTree "m.ts" "namespace A \x7b namespace N \x7b export const x = 1; \x7d \x7d\n" <|
    script 52 [spaceInSpace]

/-- `emit_fills_members` for a namespace that another one has in its one line. -/
theorem exportsInLine_fills_members :
    ∃ out, exportsInLine.emit exportsInLine.analysis {} = .ok out ∧
      FillsMember "N" "x" out.toList := by
  obtain ⟨out, hemit, hfills⟩ := exportsInLine.emit_fills_members (o := {}) rfl (by decide)
    (by decide +kernel) (by decide) (by decide +kernel)
  refine ⟨out, hemit, ?_⟩
  have hcontainer : innermost exportsInLine.text.toList (playing .name (leaf .identifier 24 25)) =
      "N" := by decide
  have hinner : spaceOfOne.FillsSpace _ (playing .name (leaf .identifier 24 25)) _
      [word 26 "\x7b", exportOfOne 28] :=
    ⟨rfl, rfl, rfl, rfl, by decide, rfl, word 48 "\x7d", [], rfl, by decide⟩
  have houter : spaceInSpace.FillsSpace _ (playing .name (leaf .identifier 10 11)) _
      [word 12 "\x7b", spaceOfOne] :=
    ⟨rfl, rfl, rfl, rfl, by decide, rfl, word 50 "\x7d", [], rfl, by decide⟩
  have hexports : (⟨.name, "x"⟩ : ExportedName) ∈
      (exportOfOne 28).exportedValues exportsInLine.text.toList := by decide
  have hmember := hfills spaceInSpace List.mem_cons_self _ _
    (.inner houter (.tail _ (.head _)) rfl (.own hinner (.tail _ (.head _)) hexports rfl))
    (by decide)
  rwa [hcontainer] at hmember

/-- `export const { a } = x;` -/
def exportOfPattern : Node :=
  branch .exportStatement
    [word 16 "export",
      playing .declaration <| branch .lexicalDeclaration
        [playing .kind (word 23 "const"),
          branch .variableDeclarator
            [playing .name <| branch .objectPattern
              [word 29 "\x7b", leaf .shorthandPropertyIdentifierPattern 31 32, word 33 "\x7d"],
              word 35 "=", playing .value (leaf .identifier 37 38)],
          word 38 ";"]]

def exportsPattern : ModuleRecord :=
  .ofTree "m.ts" "namespace N \x7b\n  export const \x7b a \x7d = x;\n\x7d\n" <|
    script 42
      [branch .expressionStatement
        [branch .internalModule
          [word 0 "namespace", playing .name (leaf .identifier 10 11),
            playing .body <|
              branch .statementBlock [word 12 "\x7b", exportOfPattern, word 40 "\x7d"]]]]

/-- `export import A = B.C;` -/
def exportOfAlias : Node :=
  branch .exportStatement
    [word 16 "export",
      playing .declaration <| branch .importAlias
        [word 23 "import", leaf .identifier 30 31, word 32 "=",
          branch .nestedIdentifier
            [playing .object (leaf .identifier 34 35), word 35 ".",
              playing .property (leaf .propertyIdentifier 36 37)],
          word 37 ";"]]

def exportsAlias : ModuleRecord :=
  .ofTree "m.ts" "namespace N \x7b\n  export import A = B.C;\n\x7d\n" <|
    script 41
      [branch .expressionStatement
        [branch .internalModule
          [word 0 "namespace", playing .name (leaf .identifier 10 11),
            playing .body <|
              branch .statementBlock [word 12 "\x7b", exportOfAlias, word 39 "\x7d"]]]]

/-- What a namespace exports out of a pattern, or as an alias, is bound in the call and assigned to
no member. -/
theorem exportsPattern_sets_no_member :
    (exportsPattern.tree.hasError = false ∧
      ⟨.pattern, "a"⟩ ∈ exportOfPattern.exportedValues exportsPattern.text.toList ∧
      ∃ out, exportsPattern.emit exportsPattern.analysis {} = .ok out ∧
        out = "var N;\n(function (N) \x7b\n  const \x7b a \x7d = x;\n" ++
          "\x7d)(N || (N = \x7b\x7d));\n" ∧
        ¬ FillsMember "N" "a" out.toList) ∧
    exportsAlias.tree.hasError = false ∧
      ⟨.alias, "A"⟩ ∈ exportOfAlias.exportedValues exportsAlias.text.toList ∧
      ∃ out, exportsAlias.emit exportsAlias.analysis {} = .ok out ∧
        out = "var N;\n(function (N) \x7b\n  var A = B.C;\n" ++
          "\x7d)(N || (N = \x7b\x7d));\n" ∧
        ¬ FillsMember "N" "A" out.toList :=
  ⟨⟨by decide, by decide, _, by cbv, rfl, fun h => absurd h.writes_member (by decide +kernel)⟩,
    by decide, by decide, _, by cbv, rfl, fun h => absurd h.writes_member (by decide +kernel)⟩

end

end CompilingProxy
