import CompilingProxy.Proofs.Emit.Visit

/-!
# Nodes that do not stay as they are

Every way to lower a node comes to edits that stay between the edges of the node, given a complete
visit of what is below it.
-/

namespace CompilingProxy.Emit

open Text Layout

variable {source : List Char} {bounds : Range} {t : Setting} {v : Visit} {f : Frame}
  {p : Place} {scope : List String} {n c d statement : Node} {es : List TextEdit}
  {around : List Node}

/-- The edits stay between the edges of the node. -/
abbrev Place.Holds (source : List Char) (bounds : Range) (p : Place) (n : Node)
    (es : List TextEdit) : Prop :=
  Within source (p.startEdge source bounds n) (p.stopEdge source bounds n) es

/-! ### Parts -/

theorem mem_of_child? {role : Role} (h : n.child? role = some c) : c ∈ n.children :=
  List.mem_of_find?_eq_some h

theorem mem_of_namedChildren (h : c ∈ n.namedChildren) : c ∈ n.children :=
  (List.mem_filter.mp h).1

section

variable (hn : n.IsSound source)

include hn

theorem holdsPlainly_of_isSound : n.holdsPlainly :=
  (Node.isRegular_iff.mp hn.isRegular).2.2.2.2.2

theorem isBlock_of_isModule (h : n.isOneOf [.internalModule, .module])
    (hbody : n.child? .body = some d) : d.isBlock := by
  have hplain := holdsPlainly_of_isSound hn
  obtain ⟨k, hk, hkind⟩ := Node.isOneOf_iff.mp h
  simp only [List.mem_cons, List.not_mem_nil, or_false] at hk
  rcases hk with rfl | rfl <;> simpa [Node.holdsPlainly, hkind, hbody] using hplain

/-- A body over several lines is cut in front of its closing brace. -/
theorem isBoundary_of_isModule (h : n.isOneOf [.internalModule, .module])
    (hbody : n.child? .body = some d) (hbreak : (slice source d.start d.stop).contains '\n') :
    isBoundary source (d.stop - 1) := by
  have hends := hn.endsInByte
  obtain ⟨k, hk, hkind⟩ := Node.isOneOf_iff.mp h
  simp only [List.mem_cons, List.not_mem_nil, or_false] at hk
  rcases hk with rfl | rfl <;>
    simpa only [Node.endsInByte, hkind, hbody, Option.all_some, hbreak, Bool.not_true,
      Bool.false_or] using hends

theorem endsPlainly_of_isAssertion
    (h : n.isOneOf [.asExpression, .satisfiesExpression, .nonNullExpression])
    (hvalue : n.namedChildren.head? = some d) : d.endsPlainly := by
  have hfirm := (Bool.and_eq_true_iff.mp hn.isFirm).2
  obtain ⟨k, hk, hkind⟩ := Node.isOneOf_iff.mp h
  simp only [List.mem_cons, List.not_mem_nil, or_false] at hk
  rcases hk with rfl | rfl | rfl <;> simpa [hkind, hvalue] using hfirm

theorem declaration_isPlain (h : n.kind? = some .exportStatement)
    (hdeclaration : n.child? .declaration = some d)
    (hother : d.isOneOf (.internalModule :: .module :: erasedDeclarations) = false) :
    d.beginsPlainly ∧ d.endsPlainly := by
  have hplain := holdsPlainly_of_isSound hn
  have hfirm := (Bool.and_eq_true_iff.mp hn.isFirm).2
  constructor
  · simpa [Node.holdsPlainly, h, hdeclaration, hother] using hplain
  · simpa [h, hdeclaration, hother] using hfirm

theorem body_of_isMethod (h : n.kind? = some .methodDefinition)
    (hbody : n.child? .body = some d) :
    d.isBlock ∧ ∀ s ∈ d.children, isSuperCall s → s.endsPlainly := by
  have hplain := holdsPlainly_of_isSound hn
  simp only [Node.holdsPlainly, h, hbody, Option.all_some, Bool.and_eq_true, List.all_eq_true,
    Bool.or_eq_true, Bool.not_eq_true'] at hplain
  refine ⟨hplain.1, fun s hs hcall => (hplain.2 s hs).resolve_left ?_⟩
  simp [hcall]

end

/-! ### Edges of what nothing stands beside -/

theorem startEdge_of_alone (h : d.beginsPlainly) :
    Place.startEdge source bounds { around } d = d.start := by
  rw [Place.startEdge, Node.startEdge, if_pos h]
  exact ite_self _

theorem stopEdge_of_alone (h : d.endsPlainly) :
    Place.stopEdge source bounds { around } d = d.stop := by
  rw [Place.stopEdge_of_not_takes fun mark hmark => (by cases hmark), Node.stopEdge, if_pos h]

/-! ### Deleting -/

section

variable (hb : bounds.IsCut source) (hn : n.IsSound source) (hp : p.IsWithin source bounds n)

include hb hn hp

theorem holds_of_within (h : Within source n.start n.stop es) : p.Holds source bounds n es :=
  h.widen (hp.startEdge_le hb hn) (hp.le_stopEdge hb hn)

theorem holds_replace (text : String) :
    p.Holds source bounds n [.replace n.start n.stop text] :=
  holds_of_within hb hn hp <| within_replace hn.isBoundary_start hn.isBoundary_stop
    hn.start_le_stop (Nat.le_refl _) (Nat.le_refl _) text

theorem holds_deleteWithBlanks (h : n.trails) :
    p.Holds source bounds n [deleteWithBlanks source bounds n.range] := by
  obtain ⟨hcut, hle, htrailing⟩ := skipBlanks_spec hb hn.isBoundary_stop hp.stop
  have hstop := hp.stopEdge_le_stopEdge hb hn
  rw [Node.stopEdge_of_trails h] at hstop
  exact within_replace hn.isBoundary_start hcut (Nat.le_trans hn.start_le_stop hle)
    (hp.startEdge_le hb hn) (Nat.le_trans htrailing hstop) _

/-- A parameter is deleted with the comma behind it, and with the blanks behind that. -/
theorem holds_parameter (h : n.isA .requiredParameter) (hbehind : p.behind = some d)
    (hmark : d.isWord ",") :
    p.Holds source bounds n [.delete n.start (skipBlanks source bounds d.stop)] := by
  have htakes : p.takes n d := by
    obtain ⟨parent, hparent⟩ := Option.isSome_iff_exists.mp (hp.parent (by rw [hbehind]; rfl))
    rw [Place.takes, hparent, Option.any_some, Node.takes, h, hmark]
    simp
  obtain ⟨hcut, hle, hlast⟩ := hp.behind d hbehind htakes
  obtain ⟨hskipped, hbegin, htrailing⟩ := skipBlanks_spec hb hcut hlast
  have hwidth := hn.start_le_stop
  rw [← Place.stopEdge_of_takes hbehind htakes] at htrailing
  exact within_replace hn.isBoundary_start hskipped (by omega) (hp.startEdge_le hb hn) htrailing _

/-- A clause of heritage is deleted from where the node in front of it ends. -/
theorem holds_clause (h : n.isHeritage) :
    p.Holds source bounds n [.delete (p.start n) n.stop] := by
  obtain ⟨hcut, -, hle⟩ := hp.ahead h
  exact within_replace hcut hn.isBoundary_stop (Nat.le_trans hle hn.start_le_stop)
    (Nat.le_of_eq (if_pos h)) (hp.le_stopEdge hb hn) _

end

section

variable (hb : f.bounds.IsCut t.source) (hn : n.IsSound t.source)
  (hp : p.IsWithin t.source f.bounds n)

include hb hn hp

theorem remove_holds (h : n.isErasable) :
    p.Holds t.source f.bounds n (remove t f p scope n).edits := by
  have hstart : p.startEdge t.source f.bounds n = leading t.source f.bounds n.start := by
    rw [Place.startEdge, if_neg (by simp [Node.isHeritage_of_isErasable h]),
      Node.startEdge_of_isErasable h]
  -- The deletion ends with the node, or with the mark that goes with it.
  have hdeleted : ∀ stop, isBoundary t.source stop → n.stop ≤ stop → stop ≤ f.bounds.stop →
      trailing t.source f.bounds stop ≤ p.stopEdge t.source f.bounds n →
      p.Holds t.source f.bounds n
        [.delete (removalRange t.source f.bounds ⟨n.start, stop⟩).start
          (removalRange t.source f.bounds ⟨n.start, stop⟩).stop] := by
    intro stop hcut hle hlast hedge
    obtain ⟨hrange, hleading, hbegin, hend, htrailing⟩ := removalRange_spec hb
      (r := ⟨n.start, stop⟩) ⟨hn.isBoundary_start, hcut⟩ hp.start hlast
    have hwidth := hn.start_le_stop
    dsimp only at hbegin hend
    exact within_replace hrange.start hrange.stop (by omega) (hstart ▸ hleading)
      (Nat.le_trans htrailing hedge) _
  have hown : p.Holds t.source f.bounds n
      [.delete (removalRange t.source f.bounds ⟨n.start, n.stop⟩).start
        (removalRange t.source f.bounds ⟨n.start, n.stop⟩).stop] := by
    refine hdeleted n.stop hn.isBoundary_stop (Nat.le_refl _) hp.stop ?_
    rw [← Node.stopEdge_of_trails (Node.trails_of_isErasable h)]
    exact hp.stopEdge_le_stopEdge hb hn
  rw [remove]
  cases hbehind : p.behind with
  | none => exact hown
  | some next =>
    dsimp only
    split
    case isTrue hmark =>
      obtain ⟨hword, hclass⟩ := Bool.and_eq_true_iff.mp hmark
      have htakes : p.takes n next := by
        rw [Place.takes]
        cases hparent : p.parent? with
        | none =>
          rw [hparent] at hclass
          cases hclass
        | some parent =>
          rw [hparent, Option.any_some] at hclass
          rw [Option.any_some, Node.takes, hclass, h, hword]
          rfl
      obtain ⟨hcut, hle, hlast⟩ := hp.behind next hbehind htakes
      exact hdeleted next.stop hcut hle hlast
        (Nat.le_of_eq (Place.stopEdge_of_takes hbehind htakes).symm)
    case isFalse => exact hown

theorem importStatement_holds (h : n.isErasable) :
    p.Holds t.source f.bounds n (importStatement t f p scope n).edits := by
  rw [importStatement]
  split
  · exact .nil
  · dsimp only
    split
    · exact remove_holds hb hn hp h
    · split
      · exact .nil
      · split
        · exact remove_holds hb hn hp h
        · exact holds_replace hb hn hp _

theorem exportClause_holds (h : n.isErasable) (hd : d ∈ n.children) :
    p.Holds t.source f.bounds n (exportClause t f p scope n d).edits := by
  have hsound := hn.child hd
  obtain ⟨hfirst, hlast⟩ := Node.bounds_of_mem hn.row hd
  rw [exportClause]
  dsimp only
  split
  · exact .nil
  · split
    · exact remove_holds hb hn hp h
    · exact holds_of_within hb hn hp (within_replace hsound.isBoundary_start
        hsound.isBoundary_stop hsound.start_le_stop hfirst hlast _)

end

/-! ### Enums -/

section

variable (hv : IsComplete t.source v)

include hv

/-- A node that nothing stands beside is compiled on its own. -/
theorem render_alone_gives (hn : n.IsSound t.source) :
    Gives (fun _ => True) (render t v f { around } scope n) := by
  refine render_gives hv hn ⟨Nat.le_refl _, Nat.le_refl _, (fun h => by cases h), fun _ => ?_,
    (fun mark hmark => by cases hmark)⟩
  exact ⟨hn.isBoundary_start, Nat.le_refl _, Nat.le_refl _⟩

theorem memberValue_gives {s : EnumState} {value : Option Node}
    (hvalue : ∀ d, value = some d → d.IsSound t.source) :
    Gives (fun _ => True) (memberValue t v f around s value) := by
  cases value with
  | some value =>
    rw [memberValue]
    split
    · exact .pure trivial
    · exact (render_alone_gives hv (hvalue value rfl)).andThen fun _ _ => .pure trivial
  | none =>
    rw [memberValue]
    split <;> exact .pure trivial

theorem enumMember_gives {indent : String} {s : EnumState} (hn : n.IsSound t.source) :
    Gives (fun _ => True) (enumMember t v f around indent s n) := by
  rw [enumMember]
  split
  next key value hsplit =>
  have hvalue : ∀ d, value = some d → d.IsSound t.source := by
    rintro d rfl
    split at hsplit
    · exact hn.child (mem_of_child? (Prod.ext_iff.mp hsplit).2)
    · cases (Prod.ext_iff.mp hsplit).2
  cases key with
  | none => exact .pure trivial
  | some key =>
    refine (memberValue_gives hv hvalue).andThen fun ⟨computed, scope⟩ _ => ?_
    dsimp only
    split <;> exact .pure trivial

/-- An enum comes to one edit, of the statement that it stands in. -/
theorem enumDeclaration_gives {exported : Bool} (hn : n.IsSound t.source)
    (hs : statement.IsSound t.source) :
    Gives (fun out => Within t.source statement.start statement.stop out.edits)
      (enumDeclaration t v f p scope n statement exported) := by
  rw [enumDeclaration]
  cases n.child? .name with
  | none => exact .pure .nil
  | some name =>
    dsimp only
    refine Gives.andThen (show Gives (fun _ => True) _ from
      .foldlM (fun s _ m hm => enumMember_gives hv ?_) trivial) fun state _ => ?_
    · cases hbody : n.child? .body with
      | none =>
        rw [hbody] at hm
        cases hm
      | some body =>
        rw [hbody] at hm
        exact (hn.child (mem_of_child? hbody)).child
          (mem_of_namedChildren (List.mem_filter.mp hm).1)
    · exact .pure (within_replace hs.isBoundary_start hs.isBoundary_stop hs.start_le_stop
        (Nat.le_refl _) (Nat.le_refl _) _)

/-! ### Namespaces -/

theorem statementLines_gives {indent : List Char} {ps : List (Place × Node)}
    (hps : ∀ x ∈ ps, x.2.IsSound t.source ∧ x.1.IsWithin t.source x.2.range x.2)
    (scope : List String) : Gives (fun _ => True) (statementLines t v f indent scope ps) := by
  induction ps generalizing scope with
  | nil => exact .pure trivial
  | cons x ps ih =>
    obtain ⟨hsound, hwithin⟩ := hps x List.mem_cons_self
    refine (render_gives hv hsound hwithin).andThen fun ⟨text, scope⟩ _ => ?_
    exact (ih (fun y hy => hps y (List.mem_cons_of_mem _ hy)) scope).andThen
      fun _ _ => .pure trivial

/-- What stands in a body over several lines is compiled where it stands. -/
theorem visitBody_gives {body : Node} {span : Range} (hspan : span.IsCut t.source)
    (hbody : body.IsSound t.source) (hblock : body.isBlock) :
    Gives (fun out => Within t.source span.start span.stop out.1)
      (visitAll v { f with bounds := span } []
        ((p.children body).filter fun (_, n) => span.start ≤ n.start && n.stop ≤ span.stop)) := by
  have hinside : ∀ x ∈ (p.children body).filter
      (fun (_, n) => span.start ≤ n.start && n.stop ≤ span.stop),
      x.2.IsSound t.source ∧ x.1.IsWithin t.source span x.2 := by
    intro x hx
    obtain ⟨hx, hspan⟩ := List.mem_filter.mp hx
    obtain ⟨hfirst, hlast⟩ := Bool.and_eq_true_iff.mp hspan
    exact ⟨hbody.child (mem_row hx).1,
      block_isWithin hblock hx (of_decide_eq_true hfirst) (of_decide_eq_true hlast)⟩
  have hrow : (p.children body).Pairwise fun x y =>
      span.start ≤ x.2.start → y.2.stop ≤ span.stop → IsClear t.source span x y :=
    children_isClear hspan hbody
  have hclear := (hrow.filter
    fun (_, n) => span.start ≤ n.start && n.stop ≤ span.stop).imp_of_mem
      fun hx hy hclear => hclear (hinside _ hx).2.start (hinside _ hy).2.stop
  refine (visitAll_gives (Stays t.source span) (fun x hx scope => ?_) []).imp
    fun out hout => ?_
  · obtain ⟨hsound, hwithin⟩ := hinside x hx
    exact hv { f with bounds := span } x.1 scope x.2 hspan hsound hwithin
  · refine hout.within hclear fun x hx => ?_
    obtain ⟨hsound, hwithin⟩ := hinside x hx
    exact ⟨hwithin.bounds_le hspan hsound, hwithin.le_bounds hspan hsound⟩

theorem bodyText_gives {indent : List Char} {body : Node} (hbody : body.IsSound t.source)
    (hblock : body.isBlock)
    (hends : (slice t.source body.start body.stop).contains '\n' →
      isBoundary t.source (body.stop - 1)) :
    Gives (fun _ => True) (bodyText t v f p indent body) := by
  obtain ⟨-, ⟨brace, rest, hchildren, -, -, hstop⟩, -⟩ := Node.isBlock_iff.mp hblock
  have hbrace : isBoundary t.source (body.start + 1) := by
    rw [← hstop]
    exact (hbody.child (by rw [hchildren]; exact List.mem_cons_self)).isBoundary_stop
  rw [bodyText]
  split
  case isTrue hbreak =>
    have hspan : Range.IsCut t.source
        ⟨body.start + 1, max (body.stop - 1) (body.start + 1)⟩ :=
      ⟨hbrace, isBoundary_max (hends hbreak) hbrace⟩
    refine (visitBody_gives hv hspan hbody hblock).andThen fun out hout => ?_
    exact (edited_gives hspan (Nat.le_max_right _ _) hout).andThen fun _ _ => .pure trivial
  case isFalse =>
    refine (statementLines_gives hv (fun x hx => ?_) []).andThen fun _ _ => .pure trivial
    obtain ⟨hx, -⟩ := List.mem_filter.mp hx
    exact ⟨hbody.child (mem_row hx).1,
      block_isWithin hblock hx (Nat.le_refl _) (Nat.le_refl _)⟩

/-- A namespace comes to one edit, of the statement that it stands in, or goes with it. -/
theorem namespaceDeclaration_gives {exported : Bool} (hb : f.bounds.IsCut t.source)
    (hs : statement.IsSound t.source) (hp : p.IsWithin t.source f.bounds statement)
    (hn : n.IsSound t.source) (hmodule : n.isOneOf [.internalModule, .module])
    (herasable : n.leavesNothing → statement.isErasable) :
    Gives (fun out => p.Holds t.source f.bounds statement out.edits)
      (namespaceDeclaration t v f p scope n statement exported) := by
  rw [namespaceDeclaration]
  cases hname : n.child? .name with
  | none => exact .pure .nil
  | some name =>
    dsimp only
    have hremoved (h : name.isA .string || !n.isInstantiated || (n.child? .body).isNone) :
        p.Holds t.source f.bounds statement (remove t f p scope statement).edits := by
      refine remove_holds hb hs hp (herasable ?_)
      rw [Node.leavesNothing, hmodule, hname, Option.any_some, h]
      rfl
    split
    case isTrue hgone => exact .pure (hremoved (by rw [hgone]; rfl))
    case isFalse hstays =>
      cases hbody : n.child? .body with
      | none => exact .pure (hremoved (by rw [hbody]; simp))
      | some body =>
        exact (bodyText_gives hv (hn.child (mem_of_child? hbody))
          (isBlock_of_isModule hn hmodule hbody)
          (isBoundary_of_isModule hn hmodule hbody)).andThen
            fun _ _ => .pure (holds_replace hb hs hp _)

/-! ### Statements and expressions -/

section

variable (hb : f.bounds.IsCut t.source) (hn : n.IsSound t.source)
  (hp : p.IsWithin t.source f.bounds n)

include hb hn hp

/-- A part that is compiled as if nothing stood beside it comes to edits that stay between the edges
of the node. -/
theorem part_gives (hd : d ∈ n.children) :
    Gives (fun out => p.Holds t.source f.bounds n out.edits) (v f { around } scope d) := by
  refine (hv f { around } scope d hb (hn.child hd)
    (inside_isWithin hn hp.start hp.stop hd)).imp fun out hout => ?_
  obtain ⟨hstart, hstop⟩ := inside_edges hb hn hp.start hp.stop hd
  exact hout.within.widen (Nat.le_trans (hp.startEdge_le_startEdge hn) hstart)
    (Nat.le_trans hstop (hp.stopEdge_le_stopEdge hb hn))

theorem keepValue_gives
    (h : n.isOneOf [.asExpression, .satisfiesExpression, .nonNullExpression]) :
    Gives (fun out => p.Holds t.source f.bounds n out.edits) (keepValue v f p scope n) := by
  rw [keepValue]
  cases hvalue : n.namedChildren.head? with
  | none => exact .pure .nil
  | some value =>
    have hmem := mem_of_namedChildren (List.mem_of_head? hvalue)
    have hd := hn.child hmem
    have hends := endsPlainly_of_isAssertion hn h hvalue
    obtain ⟨hfirst, hlast⟩ := Node.bounds_of_mem hn.row hmem
    obtain ⟨hstart, -⟩ := inside_edges hb hn hp.start hp.stop hmem
    have hbegin := hp.startEdge_le_startEdge hn
    have hend := hp.le_stopEdge hb hn
    have hown := hp.startEdge_le hb hn
    have hwidth := hd.start_le_stop
    refine (hv f { around := n :: p.around } scope value hb hd
      (inside_isWithin hn hp.start hp.stop hmem)).andThen fun inner hinner => .pure ?_
    have hinside : Within t.source (p.startEdge t.source f.bounds n) value.stop inner.edits :=
      hinner.within.widen (Nat.le_trans hbegin hstart)
        (Nat.le_of_eq (stopEdge_of_alone hends))
    have hdeleted : Within t.source value.stop (p.stopEdge t.source f.bounds n)
        [.delete value.stop n.stop] :=
      within_replace hd.isBoundary_stop hn.isBoundary_stop hlast (Nat.le_refl _) hend _
    exact within_of_perm (within_append hinside hdeleted (by omega) (by omega))
      List.perm_append_comm

theorem namespaceExport_gives {container : String} (hd : d ∈ n.children) (hbegins : d.beginsPlainly)
    (hends : d.endsPlainly) :
    Gives (fun out => p.Holds t.source f.bounds n out.edits)
      (namespaceExport t v f p scope n d container) := by
  have hsound := hn.child hd
  obtain ⟨hfirst, hlast⟩ := Node.bounds_of_mem hn.row hd
  have hwidth := hsound.start_le_stop
  refine (hv f { around := n :: p.around } scope d hb hsound
    (inside_isWithin hn hp.start hp.stop hd)).andThen fun inner hinner => .pure ?_
  have hinside : Within t.source d.start d.stop inner.edits :=
    hinner.within.widen (Nat.le_of_eq (startEdge_of_alone hbegins).symm)
      (Nat.le_of_eq (stopEdge_of_alone hends))
  have hdeleted : Within t.source n.start d.start [.delete n.start d.start] :=
    within_replace hn.isBoundary_start hsound.isBoundary_start hfirst (Nat.le_refl _)
      (Nat.le_refl _) _
  refine holds_of_within hb hn hp
    (within_append (within_append hdeleted hinside hfirst hwidth) ?_ (by omega) hlast)
  split
  · exact .nil
  · exact within_replace hn.isBoundary_stop hn.isBoundary_stop (Nat.le_refl _) hlast
      (Nat.le_refl _) _

theorem exportStatement_gives (h : n.kind? = some .exportStatement) :
    Gives (fun out => p.Holds t.source f.bounds n out.edits)
      (exportStatement t v f p scope n) := by
  have herasable : n.isErasable := Node.isErasable_of_kind? h (by decide)
  have hremoved : p.Holds t.source f.bounds n (remove t f p scope n).edits :=
    remove_holds hb hn hp herasable
  have hpart : ∀ d ∈ n.children, Gives (fun out => p.Holds t.source f.bounds n out.edits) (do
      return { ← v f { around := n :: p.around } scope d with removed := false }) :=
    fun d hd => (part_gives hv hb hn hp hd).andThen fun _ hout => .pure hout
  rw [exportStatement]
  split
  case isTrue => exact .pure hremoved
  case isFalse =>
    cases hdeclaration : n.child? .declaration with
    | some d =>
      have hmem := mem_of_child? hdeclaration
      have hd := hn.child hmem
      dsimp only
      split
      case isTrue => exact .pure hremoved
      case isFalse hstays =>
        split
        case isTrue =>
          exact (enumDeclaration_gives hv hd hn).imp fun _ hout => holds_of_within hb hn hp hout
        case isFalse =>
          split
          case isTrue hmodule =>
            refine namespaceDeclaration_gives hv hb hn hp hd ?_ fun _ => herasable
            rw [Node.isOneOf_cons, Node.isOneOf_cons, Node.isOneOf_nil, Bool.or_false]
            exact hmodule
          case isFalse hmodule =>
            have hplain : d.beginsPlainly ∧ d.endsPlainly := by
              refine declaration_isPlain hn h hdeclaration ?_
              rw [Node.isOneOf_cons, Node.isOneOf_cons, ← Bool.or_assoc,
                Bool.eq_false_iff.mpr hmodule, Bool.eq_false_iff.mpr hstays]
              rfl
            cases f.namespaces.head? with
            | some container => exact namespaceExport_gives hv hb hn hp hmem hplain.1 hplain.2
            | none => exact hpart d hmem
    | none =>
      cases hvalue : n.child? .value with
      | some value =>
        dsimp only
        split
        · exact .pure hremoved
        · exact hpart value (mem_of_child? hvalue)
      | none =>
        cases hclause : n.childOf? .exportClause with
        | some clause =>
          exact .pure (exportClause_holds hb hn hp herasable (List.mem_of_find?_eq_some hclause))
        | none => exact .pure .nil

end

end

end CompilingProxy.Emit
