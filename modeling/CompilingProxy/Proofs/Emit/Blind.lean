import CompilingProxy.Proofs.Emit.Elision
import CompilingProxy.Proofs.Emit.Reading
import CompilingProxy.Proofs.Sketch

/-!
# Types leave no trace

Two texts that differ in types alone are compiled to the same text. What a type says does not reach
the output, neither from where it stands nor by way of the text that enums and namespaces are
written out again with.
-/

namespace CompilingProxy

open Text

namespace Emit

/-- The setting of another text of the module. -/
def Setting.reading (t : Setting) (source : List Char) : Setting := { t with source }

@[simp]
theorem Setting.reading_source {t : Setting} {source : List Char} :
    (t.reading source).source = source := rfl

/-- A node that is not too deep has room for its edits at its place, and nothing but types is hidden
in it. -/
structure Place.Admits (hidden : Nat → Prop) (source source' : List Char) (depth : Nat)
    (bounds : Range) (p : Place) (n : Node) : Prop where
  depth : n.depth ≤ depth
  encloses : p.Encloses bounds n
  veiled : n.IsVeiled hidden source source'

/-- The visits come to the same on every node that they may be given. -/
def AreAlike (hidden : Nat → Prop) (source source' : List Char) (depth : Nat) (v v' : Visit) :
    Prop :=
  ∀ f p scope n, p.Admits hidden source source' depth f.bounds n →
    v f p scope n = v' f p scope n

variable {t : Setting} {v v' : Visit} {f : Frame} {p : Place} {scope : List String}
  {n c d statement : Node} {es : List TextEdit} {hidden : Nat → Prop} {source' : List Char}

theorem Erases.exists_edit {x : Nat} (h : Erases es n) (hx : n.HasTypeAt x) :
    ∃ e ∈ es, e.range.start ≤ x ∧ x < e.range.stop := by
  obtain ⟨m, hm, hstart, hstop⟩ := hx
  obtain ⟨e, he, hbegin, hend⟩ := h m hm
  exact ⟨e, he, Nat.le_trans hbegin hstart, Nat.lt_of_lt_of_le hstop hend⟩

theorem Place.Admits.erases {source : List Char} {depth : Nat} {out : Emission}
    (h : p.Admits hidden source source' depth f.bounds n) (hv : IsErasing depth v)
    (hout : v f p scope n = .ok out) : Erases out.edits n :=
  hv f p scope n out h.depth h.veiled.ordered h.encloses hout

/-- The children of a node are admitted where the bounds go over them. -/
theorem children_admit {source : List Char} {depth : Nat} {bounds : Range}
    {x : Place × Node} (hdepth : n.depth ≤ depth + 1) (hn : n.isOrdered)
    (hx : x ∈ p.children n) (hveiled : x.2.IsVeiled hidden source source')
    (hstart : bounds.start ≤ x.2.start) (hstop : x.2.stop ≤ bounds.stop) :
    x.1.Admits hidden source source' depth bounds x.2 where
  depth := by
    have hlevel := Node.depth_lt_of_mem (mem_row hx).1
    omega
  encloses := row_encloses (Node.isOrdered_iff.mp hn).2 (fun _ hb => by cases hb) hx hstart hstop
  veiled := hveiled

/-- Edits that erase all types of a node go over all that is hidden in it. -/
theorem Erases.hides {source : List Char} (h : Erases es n)
    (hn : n.IsVeiled hidden source source') : Hides hidden 0 n.start n.stop es := by
  intro x hfirst hlast hx
  rw [Nat.zero_add] at hx
  exact h.exists_edit (hn.only x hfirst hlast hx)

/-! ### One node -/

section

variable (halike : AlikeBut hidden 0 t.source source')

include halike

theorem remove_eq : remove t f p scope n = remove (t.reading source') f p scope n := by
  rw [remove, remove]
  simp only [Setting.reading, Layout.removalRange_eq halike]

theorem deleteWithBlanks_eq (bounds r : Range) :
    Layout.deleteWithBlanks t.source bounds r = Layout.deleteWithBlanks source' bounds r := by
  rw [Layout.deleteWithBlanks, Layout.deleteWithBlanks, Layout.skipBlanks_eq halike]

theorem wordEdits_eq : wordEdits t f n c = wordEdits (t.reading source') f n c := by
  rw [wordEdits, wordEdits]
  simp only [Setting.reading, deleteWithBlanks_eq halike]

theorem importText_eq {i : ImportDecl} {kept : List ImportBinding} (hn : n.range.IsOpen hidden)
    (hi : i.IsOpen hidden) (hkept : kept ⊆ i.bindings) :
    importText t n i kept = importText (t.reading source') n i kept := by
  obtain ⟨hspecifier, hbindings⟩ := hi
  have htext (q : ImportBinding → Bool) :
      (kept.filter q).map (fun b => String.ofList (slice t.source b.range.start b.range.stop)) =
        (kept.filter q).map fun b => String.ofList (slice source' b.range.start b.range.stop) := by
    refine List.map_congr_left fun b hb => ?_
    rw [slice_eq halike (hbindings b (hkept (List.mem_filter.mp hb).1))]
  have hwhole : slice t.source n.start n.stop = slice source' n.start n.stop := slice_eq halike hn
  unfold importText
  simp only [Setting.reading, htext, hwhole, slice_eq halike hspecifier]
  rfl

theorem importStatement_eq (himports : ∀ i ∈ t.analysis.imports, i.IsOpen hidden)
    (hn : n.range.IsOpen hidden) :
    importStatement t f p scope n = importStatement (t.reading source') f p scope n := by
  rw [importStatement, importStatement]
  dsimp only [Setting.reading]
  cases hfind : t.analysis.imports.find? (·.range.start == n.start) with
  | none => rfl
  | some i =>
    have hi := himports i (List.mem_of_find?_eq_some hfind)
    dsimp only
    rw [importText_eq halike hn hi List.filter_sublist.subset, remove_eq halike]
    rfl

/-- The same specifiers stay of an export in which nothing is hidden, with the same texts. -/
theorem keptSpecifiers_eq {clause : Node} (goes : Node → Bool) (hclause : clause.isOrdered)
    (hopen : clause.range.IsOpen hidden) :
    ((clause.children.filter (·.isA .exportSpecifier)).filter fun spec =>
        !(spec.hasWord "type" || (goes n &&
          (spec.child? .name).any fun name => t.typeOnly.contains (name.text t.source)))).map
        (·.text t.source) =
      ((clause.children.filter (·.isA .exportSpecifier)).filter fun spec =>
        !(spec.hasWord "type" || (goes n &&
          (spec.child? .name).any fun name => t.typeOnly.contains (name.text source')))).map
        (·.text source') := by
  have hspecifier : ∀ spec ∈ clause.children, spec.isOrdered ∧ spec.range.IsOpen hidden :=
    fun spec h => ⟨Node.isOrdered_of_mem (Node.isOrdered_iff.mp hclause).2 h,
      Node.isOpen_of_mem hopen hclause h⟩
  have hgoes : ∀ spec ∈ clause.children,
      (spec.child? .name).any (fun name => t.typeOnly.contains (name.text t.source)) =
        (spec.child? .name).any fun name => t.typeOnly.contains (name.text source') := by
    intro spec hspec
    obtain ⟨hspec, hopen⟩ := hspecifier spec hspec
    cases hname : spec.child? .name with
    | none => rfl
    | some name =>
      have hname := Node.isOpen_of_mem hopen hspec (List.mem_of_find?_eq_some hname)
      rw [Option.any_some, Option.any_some, Node.text_eq halike hname]
  rw [List.filter_congr fun spec hspec => by rw [hgoes spec (List.mem_filter.mp hspec).1]]
  refine List.map_congr_left fun spec hspec => ?_
  have hmem := (List.mem_filter.mp (List.mem_filter.mp hspec).1).1
  exact Node.text_eq halike (hspecifier spec hmem).2

theorem exportClause_eq (hn : n.range.IsOpen hidden) (hordered : n.isOrdered)
    (hd : d ∈ n.children) :
    exportClause t f p scope n d = exportClause (t.reading source') f p scope n d := by
  have hclause := Node.isOrdered_of_mem (Node.isOrdered_iff.mp hordered).2 hd
  have hkept := keptSpecifiers_eq (n := n) halike (fun n => (n.child? .source).isNone) hclause
    (Node.isOpen_of_mem hn hordered hd)
  rw [exportClause, exportClause]
  dsimp only [Setting.reading]
  rw [hkept, remove_eq halike]
  rfl

theorem propertyAssignments_eq (hn : n.IsVeiled hidden t.source source')
    (hkind : n.kind? = some .methodDefinition) :
    propertyAssignments t p n = propertyAssignments (t.reading source') p n := by
  rw [propertyAssignments, propertyAssignments]
  simp only [Setting.reading, parameterProperties_eq halike hn hkind, Layout.indentAt_eq halike]
  rfl

end

/-! ### Rendered text -/

section

variable {depth : Nat} (halike : AlikeBut hidden 0 t.source source')
  (herases : IsErasing depth v) (hv : AreAlike hidden t.source source' depth v v')

include halike herases hv

theorem render_eq (h : p.Admits hidden t.source source' depth n.range n) :
    render t v f p scope n = render (t.reading source') v' f p scope n := by
  rw [render, render, ← hv { f with bounds := n.range } p scope n h]
  cases hout : v { f with bounds := n.range } p scope n with
  | error e => rfl
  | ok out =>
    have hhides := (h.erases (f := { f with bounds := n.range }) herases hout).hides h.veiled
    have hedited : Layout.edited t.source n.range out.edits =
        Layout.edited source' n.range out.edits := Layout.edited_eq halike hhides
    simp only [bind, Except.bind, Setting.reading, hedited]

omit halike herases in
theorem visitAll_eq {ps : List (Place × Node)}
    (h : ∀ x ∈ ps, x.1.Admits hidden t.source source' depth f.bounds x.2) :
    visitAll v f scope ps = visitAll v' f scope ps := by
  induction ps generalizing scope with
  | nil => rfl
  | cons first ps ih =>
    obtain ⟨q, m⟩ := first
    rw [visitAll, visitAll, hv f q scope m (h _ List.mem_cons_self)]
    simp only [ih fun x hx => h x (List.mem_cons_of_mem _ hx)]

omit halike hv in
/-- The edits of nodes in a row erase the types of each one of them. -/
theorem visitAll_erases {ps : List (Place × Node)} {edits : List TextEdit} {scope' : List String}
    (h : ∀ x ∈ ps, x.1.Admits hidden t.source source' depth f.bounds x.2)
    (hout : visitAll v f scope ps = .ok (edits, scope')) : ∀ x ∈ ps, Erases edits x.2 := by
  induction ps generalizing scope edits with
  | nil => exact fun x hx => by cases hx
  | cons first ps ih =>
    obtain ⟨q, m⟩ := first
    rw [visitAll] at hout
    obtain ⟨own, hown, hout⟩ := bind_eq_ok_iff.mp hout
    obtain ⟨⟨rest, last⟩, hrest, hout⟩ := bind_eq_ok_iff.mp hout
    cases hout
    intro x hx
    rcases List.mem_cons.mp hx with rfl | hx
    · exact ((h _ List.mem_cons_self).erases herases hown).mono (List.subset_append_left _ _)
    · exact (ih (fun x hx => h x (List.mem_cons_of_mem _ hx)) hrest x hx).mono
        (List.subset_append_right _ _)

theorem statementLines_eq {indent : List Char} {ps : List (Place × Node)}
    (h : ∀ x ∈ ps, x.1.Admits hidden t.source source' depth x.2.range x.2) :
    statementLines t v f indent scope ps =
      statementLines (t.reading source') v' f indent scope ps := by
  induction ps generalizing scope with
  | nil => rfl
  | cons first ps ih =>
    obtain ⟨q, m⟩ := first
    rw [statementLines, statementLines, render_eq halike herases hv (h _ List.mem_cons_self)]
    simp only [ih fun x hx => h x (List.mem_cons_of_mem _ hx)]

/-- The text of a span is the same after the edits of nodes that hold all the types in it. -/
theorem span_eq {span : Range} {ps : List (Place × Node)}
    (h : ∀ x ∈ ps, x.1.Admits hidden t.source source' depth span x.2)
    (hheld : ∀ x, span.start ≤ x → x < span.stop → hidden x → ∃ y ∈ ps, y.2.HasTypeAt x) :
    (do
      let out ← visitAll v { f with bounds := span } scope ps
      return String.ofList (← Layout.edited t.source span out.1)) = do
      let out ← visitAll v' { f with bounds := span } scope ps
      return String.ofList (← Layout.edited source' span out.1) := by
  rw [← visitAll_eq hv h]
  cases hout : visitAll v { f with bounds := span } scope ps with
  | error e => rfl
  | ok out =>
    have herased : ∀ x ∈ ps, Erases out.1 x.2 :=
      visitAll_erases (f := { f with bounds := span }) herases h hout
    have hhides : Hides hidden 0 span.start span.stop out.1 := by
      intro x hfirst hlast hx
      rw [Nat.zero_add] at hx
      obtain ⟨y, hy, htype⟩ := hheld x hfirst hlast hx
      exact (herased y hy).exists_edit htype
    simp only [bind, Except.bind, Layout.edited_eq halike hhides]

/-- A body is laid out alike if it is a block, or if nothing is hidden in it at all. -/
theorem bodyText_eq {indent : List Char} {body : Node} (hdepth : body.depth ≤ depth + 1)
    (hbody : body.IsVeiled hidden t.source source')
    (hchildren : ∀ c ∈ body.children, c.IsVeiled hidden t.source source')
    (hblock : body.isA .statementBlock ∨ body.range.IsOpen hidden) :
    bodyText t v f p indent body = bodyText (t.reading source') v' f p indent body := by
  have hchild : ∀ x ∈ p.children body, ∀ bounds : Range, bounds.start ≤ x.2.start →
      x.2.stop ≤ bounds.stop → x.1.Admits hidden t.source source' depth bounds x.2 :=
    fun x hx _ => children_admit hdepth hbody.ordered hx (hchildren x.2 (mem_row hx).1)
  have hbreak : (slice t.source body.start body.stop).contains '\n' =
      (slice (t.reading source').source body.start body.stop).contains '\n' :=
    contains_break_of_alike (halike.slice body.start body.stop).forall₂
  rw [bodyText, bodyText, hbreak]
  by_cases hlines : (slice (t.reading source').source body.start body.stop).contains '\n'
  · rw [if_pos hlines, if_pos hlines]
    refine span_eq halike herases hv (fun x hx => ?_) fun x hfirst hlast hx => ?_
    · obtain ⟨hx, hinside⟩ := List.mem_filter.mp hx
      rw [Bool.and_eq_true, decide_eq_true_eq, decide_eq_true_eq] at hinside
      exact hchild x hx _ hinside.1 hinside.2
    · dsimp only at hfirst hlast
      rcases hblock with hblock | hopen
      · have hkind := Node.isA_iff.mp hblock
        obtain ⟨m, hm, hmx⟩ := hbody.only x (by omega) (by omega) hx
        obtain ⟨c, hc, hm⟩ := hm.exists_part (Node.isUnerased_of_kind? hkind (by decide))
        obtain ⟨q, hq⟩ := Place.exists_mem_row (body :: p.around) none (Node.parts_subset hc)
        simp only [Node.parts, hkind, List.mem_filter, Bool.and_eq_true, decide_eq_true_eq] at hc
        refine ⟨(q, c), List.mem_filter.mpr ⟨hq, ?_⟩, m, hm, hmx⟩
        rw [Bool.and_eq_true, decide_eq_true_eq, decide_eq_true_eq]
        dsimp only
        omega
      · refine absurd hx (hopen x ?_ ?_)
        · dsimp only [Node.range]
          omega
        · dsimp only [Node.range]
          omega
  · rw [if_neg hlines, if_neg hlines]
    rw [statementLines_eq halike herases hv fun x hx => ?_]
    exact hchild x (List.mem_filter.mp hx).1 x.2.range (Nat.le_refl _) (Nat.le_refl _)

/-! ### Enums and namespaces -/

theorem memberValue_eq {around : List Node} {s : EnumState} {value : Option Node}
    (h : ∀ m, value = some m → m.depth ≤ depth ∧ m.IsVeiled hidden t.source source' ∧
      m.IsApart t.source source' s.values.enumName) :
    memberValue t v f around s value = memberValue (t.reading source') v' f around s value := by
  cases value with
  | none => rfl
  | some m =>
    obtain ⟨hdepth, hm, hapart⟩ := h m rfl
    have hencloses : Place.Encloses m.range { around } m :=
      encloses_alone (Nat.le_refl _) (Nat.le_refl _)
    rw [memberValue, memberValue]
    dsimp only
    rw [EnumValue.ofNode?_eq halike hm hapart, render_eq halike herases hv ⟨hdepth, hencloses, hm⟩]
    rfl

omit halike herases hv in
/-- The members of an enum are filled into the same one. -/
theorem enumMember_enumName {around : List Node} {indent : String} {s s' : EnumState}
    (h : enumMember t v f around indent s n = .ok s') :
    s'.values.enumName = s.values.enumName := by
  rw [enumMember] at h
  dsimp only at h
  split at h
  case h_1 =>
    cases h
    rfl
  case h_2 =>
    obtain ⟨⟨computed, last⟩, -, h⟩ := bind_eq_ok_iff.mp h
    dsimp only at h
    split at h <;>
      · cases h
        rfl

theorem enumMember_eq {around : List Node} {indent : String} {s : EnumState}
    (hdepth : n.depth ≤ depth) (hn : n.IsVeiled hidden t.source source')
    (hopen : n.isA .enumAssignment ∨ n.range.IsOpen hidden)
    (hapart : n.IsApart t.source source' s.values.enumName) :
    enumMember t v f around indent s n =
      enumMember (t.reading source') v' f around indent s n := by
  rw [enumMember, enumMember]
  cases hassigned : n.isA .enumAssignment with
  | false =>
    have hopen := hopen.resolve_left (by simp [hassigned])
    simp only [Bool.false_eq_true, if_false]
    rw [Node.unquoted_eq halike hopen, memberValue_eq halike herases hv (by simp)]
    rfl
  | true =>
    have hkind := Node.isA_iff.mp hassigned
    have hunerased := Node.isUnerased_of_kind? hkind (by decide)
    have hvalue : ∀ m, n.child? .value = some m → m.depth ≤ depth ∧
        m.IsVeiled hidden t.source source' ∧ m.IsApart t.source source' s.values.enumName := by
      intro m hm
      have hmem : m ∈ n.children := List.mem_of_find?_eq_some hm
      have hlevel := Node.depth_lt_of_mem hmem
      exact ⟨by omega, hn.child hunerased hmem, hapart.child hmem⟩
    simp only [if_true]
    cases hname : n.child? .name with
    | none => rfl
    | some key =>
      have hkey := hn.isOpen_of_role hunerased hname fun d hd => by
        simp only [Node.parts, hkind, Option.mem_toList] at hd
        simp [Node.role_of_child? hd]
      dsimp only
      rw [Node.unquoted_eq halike hkey, memberValue_eq halike herases hv hvalue]
      rfl

theorem foldlM_enumMember_eq {around members : List Node} {indent : String} {s : EnumState}
    (h : ∀ m ∈ members, m.depth ≤ depth ∧ m.IsVeiled hidden t.source source' ∧
      (m.isA .enumAssignment ∨ m.range.IsOpen hidden) ∧
      m.IsApart t.source source' s.values.enumName) :
    members.foldlM (enumMember t v f around indent) s =
      members.foldlM (enumMember (t.reading source') v' f around indent) s := by
  induction members generalizing s with
  | nil => rfl
  | cons m members ih =>
    obtain ⟨hdepth, hm, hopen, hapart⟩ := h m List.mem_cons_self
    have hfirst : enumMember t v f around indent s m =
        enumMember (t.reading source') v' f around indent s m :=
      enumMember_eq halike herases hv hdepth hm hopen hapart
    rw [List.foldlM_cons, List.foldlM_cons, hfirst]
    cases hout : enumMember (t.reading source') v' f around indent s m with
    | error e => rfl
    | ok s' =>
      have hname := enumMember_enumName hout
      refine ih fun m hm => ?_
      rw [hname]
      exact h m (List.mem_cons_of_mem _ hm)

theorem enumDeclaration_eq {exported : Bool} (hkind : n.kind? = some .enumDeclaration)
    (hdepth : n.depth ≤ depth + 1) (hn : n.IsVeiled hidden t.source source') :
    enumDeclaration t v f p scope n statement exported =
      enumDeclaration (t.reading source') v' f p scope n statement exported := by
  have hunerased := Node.isUnerased_of_kind? hkind (by decide)
  rw [enumDeclaration, enumDeclaration]
  cases hname : n.child? .name with
  | none => rfl
  | some name =>
    have hparts : n.parts = ((n.child? .body).filter (·.isA .enumBody)).toList := by
      simp [Node.parts, hkind, hname]
    have htext : name.text t.source = name.text source' :=
      Node.text_eq halike (hn.isOpen_name hunerased hparts hname)
    have hmembers : ∀ m ∈ (((n.child? .body).map Node.namedChildren).getD []).filter
          (fun m => !m.isA .comment), m.depth ≤ depth ∧ m.IsVeiled hidden t.source source' ∧
        (m.isA .enumAssignment ∨ m.range.IsOpen hidden) ∧
        m.IsApart t.source source' (name.text source') := by
      intro m hm
      cases hbody : n.child? .body with
      | none =>
        rw [hbody] at hm
        cases hm
      | some body =>
        rw [hbody] at hm
        have hmem : m ∈ body.children := (List.mem_filter.mp (List.mem_filter.mp hm).1).1
        have hlevel := Node.depth_lt_of_mem (List.mem_of_find?_eq_some hbody)
        have hlevel' := Node.depth_lt_of_mem hmem
        obtain ⟨hveiled, hopen⟩ := hn.member hkind hparts hbody hmem
        exact ⟨by omega, hveiled, hopen, (hn.isApart_body hkind hname hbody htext).child hmem⟩
    dsimp only
    rw [Setting.reading_source, htext, Layout.indentAt_eq halike,
      foldlM_enumMember_eq (s := { values := ⟨name.text source', []⟩, scope }) halike herases hv
        hmembers]

theorem namespaceDeclaration_eq {exported : Bool} (hmodule : n.isOneOf [.internalModule, .module])
    (hdepth : n.depth ≤ depth + 1) (hn : n.IsVeiled hidden t.source source') :
    namespaceDeclaration t v f p scope n statement exported =
      namespaceDeclaration (t.reading source') v' f p scope n statement exported := by
  have hunerased := Node.isUnerased_of_isOneOf hmodule (by decide)
  have hremove : remove t f p scope statement = remove (t.reading source') f p scope statement :=
    remove_eq halike
  rw [namespaceDeclaration, namespaceDeclaration]
  cases hname : n.child? .name with
  | none => rfl
  | some name =>
    have hparts : n.parts = ((n.child? .body).filter (·.isA .statementBlock)).toList := by
      obtain ⟨k, hk, hkind⟩ := Node.isOneOf_iff.mp hmodule
      simp only [List.mem_cons, List.not_mem_nil, or_false] at hk
      rcases hk with rfl | rfl <;> simp [Node.parts, hkind, hname]
    have hslice : slice t.source name.start name.stop = slice source' name.start name.stop :=
      slice_eq halike (hn.isOpen_name hunerased hparts hname)
    dsimp only
    rw [hremove, Setting.reading_source, hslice, Layout.indentAt_eq halike]
    cases hbody : n.child? .body with
    | none => rfl
    | some body =>
      have hmem : body ∈ n.children := List.mem_of_find?_eq_some hbody
      have hlevel := Node.depth_lt_of_mem hmem
      obtain ⟨hchildren, hblock⟩ := hn.body hunerased hparts
        (fun m hm => Node.isUnerased_of_kind? (Node.isA_iff.mp hm) (by decide)) hbody
      dsimp only
      rw [bodyText_eq halike herases hv (by omega) (hn.child hunerased hmem) hchildren hblock]

/-! ### Exports and values -/

section

variable (hdepth : n.depth ≤ depth + 1) (hp : p.Encloses f.bounds n)
  (hn : n.IsVeiled hidden t.source source')

include hdepth hp hn

omit halike herases in
theorem part_eq {around : List Node} (hunerased : n.isUnerased) (hc : c ∈ n.children) :
    v f { around } scope c = v' f { around } scope c := by
  have hlevel := Node.depth_lt_of_mem hc
  obtain ⟨hstart, hstop⟩ := Node.bounds_of_mem hn.row hc
  have hencloses : Place.Encloses f.bounds { around } c :=
    encloses_alone (Nat.le_trans hp.start hstart) (Nat.le_trans hstop hp.stop)
  exact hv f { around } scope c ⟨by omega, hencloses, hn.child hunerased hc⟩

omit halike herases in
theorem keepValue_eq (hassertion : n.isAssertion) :
    keepValue v f p scope n = keepValue v' f p scope n := by
  rw [keepValue, keepValue]
  cases hvalue : n.namedChildren.head? with
  | none => rfl
  | some value =>
    have hmem : value ∈ n.children := (List.mem_filter.mp (List.mem_of_head? hvalue)).1
    have hlevel := Node.depth_lt_of_mem hmem
    obtain ⟨hstart, hstop⟩ := Node.bounds_of_mem hn.row hmem
    have hencloses : Place.Encloses f.bounds { around := n :: p.around } value :=
      encloses_alone (Nat.le_trans hp.start hstart) (Nat.le_trans hstop hp.stop)
    dsimp only
    rw [hv f _ scope value ⟨by omega, hencloses, hn.value hassertion hvalue⟩]

omit herases in
theorem namespaceExport_eq {container : String} (hunerased : n.isUnerased) (hd : d ∈ n.children)
    (hplain : d.isUnerased) (hbare : (d.child? .name).all Node.isBare) :
    namespaceExport t v f p scope n d container =
      namespaceExport (t.reading source') v' f p scope n d container := by
  rw [namespaceExport, namespaceExport]
  rw [part_eq hv hdepth hp hn hunerased hd, Setting.reading_source,
    boundNames_eq halike (hn.child hunerased hd) hplain hbare, Layout.indentAt_eq halike]

theorem exportStatement_eq (hkind : n.kind? = some .exportStatement) :
    exportStatement t v f p scope n = exportStatement (t.reading source') v' f p scope n := by
  have hunerased := Node.isUnerased_of_kind? hkind (by decide)
  have hremove : remove t f p scope n = remove (t.reading source') f p scope n := remove_eq halike
  rw [exportStatement, exportStatement, hremove]
  by_cases htype : n.hasWord "type"
  · rw [if_pos htype, if_pos htype]
  rw [if_neg htype, if_neg htype]
  cases hdeclaration : n.child? .declaration with
  | some d =>
    have hd : d ∈ n.children := List.mem_of_find?_eq_some hdeclaration
    have hlevel := Node.depth_lt_of_mem hd
    have hveiled := hn.child hunerased hd
    dsimp only
    by_cases herased : d.isOneOf erasedDeclarations
    · rw [if_pos herased, if_pos herased]
    rw [if_neg herased, if_neg herased]
    by_cases henum : d.isA .enumDeclaration
    · rw [if_pos henum, if_pos henum]
      exact enumDeclaration_eq halike herases hv (Node.isA_iff.mp henum) (by omega) hveiled
    rw [if_neg henum, if_neg henum]
    by_cases hmodule : d.isA .internalModule || d.isA .module
    · rw [if_pos hmodule, if_pos hmodule]
      have hone : d.isOneOf [.internalModule, .module] := by
        rwa [Node.isOneOf_cons, Node.isOneOf_cons, Node.isOneOf_nil, Bool.or_false]
      exact namespaceDeclaration_eq halike herases hv hone (by omega) hveiled
    rw [if_neg hmodule, if_neg hmodule]
    cases f.namespaces.head? with
    | none =>
      dsimp only
      rw [part_eq hv hdepth hp hn hunerased hd]
    | some container =>
      obtain ⟨hplain, hbare⟩ := hn.exported hkind hdeclaration herased henum hmodule
      exact namespaceExport_eq halike hv hdepth hp hn hunerased hd hplain hbare
  | none =>
    cases hvalue : n.child? .value with
    | some value =>
      have hmem : value ∈ n.children := List.mem_of_find?_eq_some hvalue
      have hname : (value.isA .identifier && t.typeOnly.contains (value.text t.source)) =
          (value.isA .identifier && t.typeOnly.contains (value.text source')) := by
        cases hidentifier : value.isA .identifier with
        | false => rfl
        | true =>
          have hveiled := hn.child hunerased hmem
          have hopen := hveiled.isOpen_of_kind? (Node.isA_iff.mp hidentifier) (by decide)
          rw [Node.text_eq halike hopen]
      dsimp only
      rw [hname, part_eq hv hdepth hp hn hunerased hmem]
      rfl
    | none =>
      have hparts : n.parts = [] := by simp [Node.parts, hkind, hdeclaration, hvalue]
      have hopen := hn.isOpen_of_parts hunerased hparts
      cases hclause : n.childOf? .exportClause with
      | none => rfl
      | some clause =>
        have hmem : clause ∈ n.children := List.mem_of_find?_eq_some hclause
        dsimp only
        rw [exportClause_eq halike hopen hn.ordered hmem]

/-! ### Nodes -/

theorem lowered?_eq (himports : ∀ i ∈ t.analysis.imports, i.IsOpen hidden) :
    lowered? t v f p scope n = lowered? (t.reading source') v' f p scope n := by
  have hremove : remove t f p scope n = remove (t.reading source') f p scope n := remove_eq halike
  have hone {k : Kind} (hkind : n.kind? = some k) {kinds : List Kind} (hk : k ∈ kinds) :
      n.isOneOf kinds := Node.isOneOf_iff.mpr ⟨k, hk, hkind⟩
  rw [lowered?, lowered?]
  dsimp only
  rw [hremove]
  split
  case h_9 hkind =>
    have hopen := hn.isOpen_of_kind? hkind (by decide)
    rw [importStatement_eq halike himports hopen]
  case h_10 hkind => rw [exportStatement_eq halike herases hv hdepth hp hn hkind]
  case h_11 hkind =>
    refine Option.map_congr fun inner hinner => ?_
    obtain ⟨hhead, hmodule⟩ := Option.filter_eq_some_iff.mp hinner
    have hmem : inner ∈ n.children := (List.mem_filter.mp (List.mem_of_head? hhead)).1
    have hlevel := Node.depth_lt_of_mem hmem
    have hinner := hn.child (Node.isUnerased_of_kind? hkind (by decide)) hmem
    have hone : inner.isOneOf [.internalModule, .module] :=
      Node.isOneOf_iff.mpr ⟨_, by decide, Node.isA_iff.mp hmodule⟩
    exact namespaceDeclaration_eq halike herases hv hone (by omega) hinner
  case h_12 hkind | h_13 hkind =>
    rw [namespaceDeclaration_eq halike herases hv (hone hkind (by decide)) hdepth hn]
  case h_14 hkind => rw [enumDeclaration_eq halike herases hv hkind hdepth hn]
  case h_26 | h_27 => rw [Setting.reading_source, deleteWithBlanks_eq halike]
  case h_28 hkind | h_29 hkind | h_30 hkind =>
    rw [keepValue_eq hv hdepth hp hn (hone hkind (by decide))]
  case h_31 =>
    simp only [Setting.reading_source, Layout.skipBlanks_eq halike]
  all_goals rfl

end

omit herases in
theorem visitChildren_eq {ps : List (Place × Node)}
    (h : ∀ x ∈ ps, x.1.Admits hidden t.source source' depth f.bounds x.2) :
    visitChildren t v f n scope ps = visitChildren (t.reading source') v' f n scope ps := by
  induction ps generalizing scope with
  | nil => rfl
  | cons first ps ih =>
    obtain ⟨q, m⟩ := first
    rw [visitChildren, visitChildren, hv f q scope m (h _ List.mem_cons_self), wordEdits_eq halike]
    simp only [ih fun x hx => h x (List.mem_cons_of_mem _ hx)]

theorem visitNode_areAlike (himports : ∀ i ∈ t.analysis.imports, i.IsOpen hidden) :
    AreAlike hidden t.source source' (depth + 1) (visitNode t v)
      (visitNode (t.reading source') v') := by
  intro f p scope n ⟨hdepth, hp, hn⟩
  rw [visitNode, visitNode, ← lowered?_eq halike herases hv hdepth hp hn himports]
  cases hlowered : lowered? t v f p scope n with
  | some out => rfl
  | none =>
    have hunerased := isUnerased_of_lowered? hlowered
    have hchildren : ∀ x ∈ p.children n,
        x.1.Admits hidden t.source source' depth f.bounds x.2 := by
      intro x hx
      have hmem := (mem_row hx).1
      obtain ⟨hstart, hstop⟩ := Node.bounds_of_mem hn.row hmem
      exact children_admit hdepth hn.ordered hx (hn.child hunerased hmem)
        (Nat.le_trans hp.start hstart) (Nat.le_trans hstop hp.stop)
    dsimp only
    rw [visitChildren_eq halike hv hchildren]
    cases hmethod : n.isA .methodDefinition with
    | false => simp only [Bool.false_eq_true, if_false]
    | true => rw [propertyAssignments_eq halike hn (Node.isA_iff.mp hmethod)]

end

theorem visit_areAlike (halike : AlikeBut hidden 0 t.source source')
    (himports : ∀ i ∈ t.analysis.imports, i.IsOpen hidden) (fuel : Nat) :
    AreAlike hidden t.source source' fuel (visit t fuel) (visit (t.reading source') fuel) := by
  induction fuel with
  | zero =>
    intro f p scope n ⟨hdepth, _, _⟩
    obtain ⟨label, role, start, stop, missing, children⟩ := n
    rw [Node.depth] at hdepth
    omega
  | succ fuel ih => exact visitNode_areAlike halike (visit_isErasing fuel) ih himports

theorem visitStatements_eq {source : List Char} {depth : Nat}
    (hv : AreAlike hidden source source' depth v v') {ps : List (Place × Node)}
    (h : ∀ x ∈ ps, x.1.Admits hidden source source' depth f.bounds x.2) :
    visitStatements v f scope ps = visitStatements v' f scope ps := by
  induction ps generalizing scope with
  | nil => rfl
  | cons first ps ih =>
    obtain ⟨q, m⟩ := first
    rw [visitStatements, visitStatements, hv f q scope m (h _ List.mem_cons_self)]
    simp only [ih fun x hx => h x (List.mem_cons_of_mem _ hx)]

end Emit

open Emit

namespace ModuleRecord

/-- The edits that the statements of a module come to, and whether each statement goes. -/
def statementEdits (r : ModuleRecord) (o : CompilerOptions) (a : ModuleAnalysis) :
    Except EditError (List TextEdit × List (Node × Bool)) :=
  let t := Setting.ofModule r a o.verbatimModuleSyntax
  visitStatements (visit t r.tree.depth) ⟨[], ⟨0, width t.source⟩⟩ (topScope a)
    (Place.children {} r.tree)

/-- The compiled text comes of the edits that the statements come to. -/
def IsCompiledBy (r : ModuleRecord) (o : CompilerOptions) (edits : List TextEdit) (out : String) :
    Prop :=
  ∃ gone text offsets, r.statementEdits o r.analysis = .ok (edits, gone) ∧
    applyEdits r.text.toList edits = .ok (text, offsets) ∧
    out = String.ofList (text ++ moduleMark text gone)

variable {r : ModuleRecord} {o : CompilerOptions} {hidden : Nat → Prop}

theorem emit_of_isTypeScript {a : ModuleAnalysis} (h : r.kind.isTypeScript) :
    r.emit a o = do
      let (edits, gone) ← r.statementEdits o a
      let (text, _) ← applyEdits r.text.toList edits
      return String.ofList (text ++ moduleMark text gone) := by
  rw [emit, if_neg (by simp [h])]
  rfl

section

variable (hprogram : r.tree.isA .program) (hordered : r.tree.isOrdered)
  (hwithin : r.tree.stop ≤ width r.text.toList)

include hordered hwithin

theorem place_of_statement {x : Place × Node} (hx : x ∈ Place.children {} r.tree) :
    x.2.depth ≤ r.tree.depth ∧ x.1.Encloses ⟨0, width r.text.toList⟩ x.2 := by
  have hrow := (Node.isOrdered_iff.mp hordered).2
  have hmem := (mem_row hx).1
  have hstop := (Node.bounds_of_mem hrow hmem).2
  exact ⟨Nat.le_of_lt (Node.depth_lt_of_mem hmem),
    row_encloses hrow (fun _ hb => by cases hb) hx (Nat.zero_le _) (Nat.le_trans hstop hwithin)⟩

include hprogram

/-- The edits of the statements erase all types. -/
theorem statementEdits_erases {edits : List TextEdit} {gone : List (Node × Bool)}
    (h : r.statementEdits o r.analysis = .ok (edits, gone)) : Erases edits r.tree := by
  have hunerased := Node.isUnerased_of_kind? (Node.isA_iff.mp hprogram) (by decide)
  refine erases_of_parts hunerased fun c hc x hx => ?_
  have hmem := Node.parts_subset hc
  obtain ⟨q, hq⟩ := Place.exists_mem_row [r.tree] none hmem
  obtain ⟨hdepth, hencloses⟩ := place_of_statement hordered hwithin hq
  obtain ⟨scope, own, hown, hedits, -⟩ := visitStatements_mem h hq
  have hc := Node.isOrdered_of_mem (Node.isOrdered_iff.mp hordered).2 hmem
  exact (visit_isErasing _ _ q scope c own hdepth hc hencloses hown x hx).mono hedits.subset

theorem statementEdits_eq {text : String}
    (halike : AlikeBut hidden 0 r.text.toList text.toList)
    (hveiled : r.tree.IsVeiled hidden r.text.toList text.toList) :
    { r with text }.statementEdits o r.analysis = r.statementEdits o r.analysis := by
  have hunerased := Node.isUnerased_of_kind? (Node.isA_iff.mp hprogram) (by decide)
  have hchildren : ∀ c ∈ r.tree.children, c.IsVeiled hidden r.text.toList text.toList :=
    fun c hc => hveiled.child hunerased hc
  have hvisit := visit_areAlike (t := .ofModule r r.analysis o.verbatimModuleSyntax) halike
    (r.analysis_isOpen hchildren) r.tree.depth
  have hwidth : width text.toList = width r.text.toList := halike.width_eq.symm
  rw [statementEdits, statementEdits]
  dsimp only [Setting.ofModule]
  rw [hwidth]
  refine (visitStatements_eq hvisit fun x hx => ?_).symm
  obtain ⟨hdepth, hencloses⟩ := place_of_statement hordered hwithin hx
  exact ⟨hdepth, hencloses, hchildren x.2 (mem_row hx).1⟩

end

/-- Every type in a module that stands where the module is compiled lies inside the range of an edit
that is applied; where types stand nowhere else, these are all that there are at whatever depth. And
nothing of what the types say reaches the compiled text: whatever is written in their place, blanks
and widths apart, the module is compiled to the same text. -/
theorem types_leave_no_trace (hkind : r.kind.isTypeScript) (hprogram : r.tree.isA .program)
    (hordered : r.tree.isOrdered) (hwithin : r.tree.stop ≤ width r.text.toList)
    (hplain : r.tree.everywhere Node.readsPlainly)
    (hapart : r.tree.everywhere (Node.namesApart r.text.toList)) :
    (∀ out, r.emit r.analysis o = .ok out → ∃ edits, r.IsCompiledBy o edits out ∧
      (∀ x, r.tree.HoldsType x → Covers edits x) ∧
      (r.tree.everywhere Node.sparesTypes →
        ∀ way n x, r.tree.Reaches way n → n.SaysType x → Covers edits x)) ∧
    ∀ text : String, AlikeBut r.tree.HasTypeAt 0 r.text.toList text.toList →
      r.tree.everywhere (Node.namesApart text.toList) →
      { r with text }.emit r.analysis o = r.emit r.analysis o := by
  constructor
  · intro out hemit
    rw [emit_of_isTypeScript hkind] at hemit
    obtain ⟨⟨edits, gone⟩, hvisit, hemit⟩ := bind_eq_ok_iff.mp hemit
    obtain ⟨⟨text, offsets⟩, happly, hemit⟩ := bind_eq_ok_iff.mp hemit
    cases hemit
    have herases := statementEdits_erases hprogram hordered hwithin hvisit
    refine ⟨edits, ⟨gone, text, offsets, hvisit, happly, rfl⟩, herases, ?_⟩
    intro hspares way n x hway hx
    obtain ⟨m, hm, hstart, hstop⟩ := hx.exists_holdsType hway hordered hspares
    exact (herases m hm).within hstart hstop
  · intro text halike hapart'
    have hveiled : r.tree.IsVeiled r.tree.HasTypeAt r.text.toList text.toList :=
      ⟨hordered, fun x _ _ hx => hx, hplain, hapart, hapart'⟩
    rw [emit_of_isTypeScript (r := { r with text }) hkind, emit_of_isTypeScript (r := r) hkind,
      statementEdits_eq hprogram hordered hwithin halike hveiled]
    cases hvisit : r.statementEdits o r.analysis with
    | error e => rfl
    | ok result =>
      have herases := statementEdits_erases hprogram hordered hwithin hvisit
      have hhides : Hides r.tree.HasTypeAt 0 0 (width r.text.toList) result.1 := by
        intro x _ _ hx
        rw [Nat.zero_add] at hx
        exact herases.exists_edit hx
      -- Only the text matters of what applying the edits comes to.
      have hread : ∀ applied : Except EditError (List Char × OffsetMap), (do
            let (out, _) ← applied
            return String.ofList (out ++ moduleMark out result.2)) =
          (applied.map (·.1)).map fun out => String.ofList (out ++ moduleMark out result.2) := by
        intro applied
        cases applied <;> rfl
      have happly := applyEdits_eq halike hhides
      exact (hread _).trans ((congrArg _ happly.symm).trans (hread _).symm)

end ModuleRecord

section

open Node

/-- A namespace in which something is asserted to be of a type. -/
def assertsInside : ModuleRecord :=
  .ofTree "m.ts" "namespace N \x7b\n  a as T;\n\x7d\n" <|
    script 26
      [branch .expressionStatement
        [branch .internalModule
          [word 0 "namespace", playing .name (leaf .identifier 10 11),
            playing .body <| branch .statementBlock
              [word 12 "\x7b",
                branch .expressionStatement
                  [branch .asExpression
                    [leaf .identifier 16 17, word 18 "as", leaf .typeIdentifier 21 22],
                    word 22 ";"],
                word 24 "\x7d"]]]]

theorem assertsInside_holdsType {x : Node}
    (hx : x ∈ [word 18 "as", leaf .typeIdentifier 21 22]) : assertsInside.tree.HoldsType x := by
  have hassertion : (branch .asExpression
      [leaf .identifier 16 17, word 18 "as", leaf .typeIdentifier 21 22]).HoldsType x := by
    simp only [List.mem_cons, List.not_mem_nil, or_false] at hx
    rcases hx with rfl | rfl <;> exact .here (.said rfl rfl (by decide) (by decide))
  -- Down to the namespace, its block and the statement in it.
  refine .part List.mem_cons_self (.part List.mem_cons_self (.part List.mem_cons_self ?_))
  exact .part List.mem_cons_self (.part List.mem_cons_self hassertion)

/-- `types_leave_no_trace` for a namespace with an assertion, and for other words in its place. -/
theorem assertsInside_leaves_no_trace :
    assertsInside.tree.everywhere Node.sparesTypes ∧ (∃ edits, assertsInside.IsCompiledBy {} edits
        "var N;\n(function (N) \x7b\n  a;\n\x7d)(N || (N = \x7b\x7d));\n" ∧
      Covers edits (word 18 "as") ∧ Covers edits (leaf .typeIdentifier 21 22)) ∧
    { assertsInside with text := "namespace N \x7b\n  a is S;\n\x7d\n" }.emit
      assertsInside.analysis {} =
        .ok "var N;\n(function (N) \x7b\n  a;\n\x7d)(N || (N = \x7b\x7d));\n" := by
  have hemit : assertsInside.emit assertsInside.analysis {} =
      .ok "var N;\n(function (N) \x7b\n  a;\n\x7d)(N || (N = \x7b\x7d));\n" :=
    eq_ok_of_toOption (by decide +kernel)
  obtain ⟨hcovers, hblind⟩ := ModuleRecord.types_leave_no_trace (r := assertsInside) (o := {})
    rfl (by decide) (by decide) (by decide) (by decide) (by decide)
  obtain ⟨edits, hcompiled, herased, -⟩ := hcovers _ hemit
  have has := assertsInside_holdsType (x := word 18 "as") (by decide)
  have htype := assertsInside_holdsType (x := leaf .typeIdentifier 21 22) (by decide)
  refine ⟨by decide, ⟨edits, hcompiled, herased _ has, herased _ htype⟩,
    (hblind _ ?_ (by decide)).trans hemit⟩
  have hother : AlikeBut assertsInside.tree.HasTypeAt 18 "as T;\n\x7d\n".toList
      "is S;\n\x7d\n".toList :=
    .cons (.inr ⟨⟨_, has, by decide, by decide⟩, .inr ⟨rfl, rfl, rfl⟩⟩) <| .cons (.inl rfl) <|
      .cons (.inl rfl) <|
        .cons (.inr ⟨⟨_, htype, by decide, by decide⟩, .inr ⟨rfl, rfl, rfl⟩⟩) (.refl _ _)
  exact (AlikeBut.refl 0 "namespace N \x7b\n  a ".toList).append hother

/-- A class is exported behind its decorator, which has a type among its words. -/
def decoratesExport : ModuleRecord :=
  .ofTree "m.ts" "@d<string>() export class A \x7b\x7d\n" <|
    script 31
      [branch .exportStatement
        [playing .decorator <| branch .decorator
          [word 0 "@", branch .callExpression
            [playing .function (leaf .identifier 1 2),
              playing .typeArguments <| branch .typeArguments
                [word 2 "<", branch .predefinedType [word 3 "string"], word 9 ">"],
              playing .arguments <| branch .arguments [word 10 "(", word 11 ")"]]],
          word 13 "export",
          playing .declaration <| branch .classDeclaration
            [word 20 "class", playing .name (leaf .typeIdentifier 26 27),
              playing .body <| branch .classBody [word 28 "\x7b", word 29 "\x7d"]]]]

/-- The one export of a module is asserted to be of a type. -/
def assignsExport : ModuleRecord :=
  .ofTree "m.ts" "export = x as any;\n" <|
    script 19
      [branch .exportStatement
        [word 0 "export", word 7 "=",
          branch .asExpression
            [leaf .identifier 9 10, word 11 "as", branch .predefinedType [word 14 "any"]],
          word 17 ";"]]

/-- The name of an enum's member is computed from what is asserted to be of a type. -/
def computesMember : ModuleRecord :=
  .ofTree "m.ts" "enum E \x7b [a as string] = 'x' \x7d\n" <|
    script 31
      [branch .enumDeclaration
        [word 0 "enum", playing .name (leaf .identifier 5 6),
          playing .body <| branch .enumBody
            [word 7 "\x7b",
              branch .enumAssignment
                [playing .name <| branch .computedPropertyName
                  [word 9 "[",
                    branch .asExpression
                      [leaf .identifier 10 11, word 12 "as",
                        branch .predefinedType [word 15 "string"]],
                    word 21 "]"],
                  word 23 "=", playing .value (literal 25 1)],
              word 29 "\x7d"]]]

/-- Trees without a fault whose types stay: in the decorator of an export, in what an export is set
to, and in the computed name of an enum's member, which is written out as a text. -/
theorem types_stay_beside_declarations :
    (decoratesExport.tree.hasError = false ∧
      decoratesExport.emit decoratesExport.analysis {} =
        .ok "@d<string>() export class A \x7b\x7d\n" ∧
      ∃ way n, decoratesExport.tree.Reaches way n ∧ n.isA .typeArguments ∧ n.SaysType n ∧
        ∀ edits, decoratesExport.IsCompiledBy {} edits "@d<string>() export class A \x7b\x7d\n" →
          ¬Covers edits n) ∧
    (assignsExport.tree.hasError = false ∧
      assignsExport.emit assignsExport.analysis {} = .ok "export = x as any;\n") ∧
    computesMember.tree.hasError = false ∧
      computesMember.emit computesMember.analysis {} =
        .ok ("var E;\n(function (E) \x7b\n    E[\"[a as string]\"] = 'x';\n\x7d)" ++
          "(E || (E = \x7b\x7d));\n") := by
  refine ⟨⟨by decide, eq_ok_of_toOption (by decide +kernel), ?_⟩,
    ⟨by decide, eq_ok_of_toOption (by decide +kernel)⟩, by decide,
    eq_ok_of_toOption (by decide +kernel)⟩
  have hexport : decoratesExport.tree.children = [] ++ _ :: _ := rfl
  have hdecorator : decoratesExport.tree.children[0].children = [] ++ _ :: _ := rfl
  have hcall : decoratesExport.tree.children[0].children[0].children = [_] ++ _ :: _ := rfl
  have htypes : decoratesExport.tree.children[0].children[0].children[1].children = [_] ++ _ :: _ :=
    rfl
  refine ⟨_, _, .down hexport (.down hdecorator (.down hcall (.down htypes (.here _)))), rfl,
    .own (by decide), ?_⟩
  rintro edits ⟨gone, text, offsets, hedits, -⟩ ⟨e, he, -⟩
  have hnone : (decoratesExport.statementEdits {} decoratesExport.analysis).toOption.map (·.1) =
      some [] := by decide +kernel
  rw [hedits] at hnone
  obtain rfl : edits = [] := Option.some.inj hnone
  cases he

end

end CompilingProxy
