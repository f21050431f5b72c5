import CompilingProxy.Proofs.Emit.Margin
import CompilingProxy.Proofs.Grammar.Regular
import CompilingProxy.Proofs.Module.Placement

/-!
# What stands in a row

The edits of a node stay between two edges, which lie in the margins of the node. The edges of nodes
that stand in a row do not cross, so that the edits of one are clear of those of all others.
-/

namespace CompilingProxy

open Text Layout

namespace Node

variable {source : List Char} {bounds : Range} {n c d : Node}

/-- A node that the emitter may be given. -/
structure IsSound (source : List Char) (n : Node) : Prop where
  ordered : n.isOrdered
  regular : n.everywhere (isRegular source)
  firm : n.everywhere isFirm
  bodies : n.everywhere (endsInByte source)

namespace IsSound

theorem isRegular (h : n.IsSound source) : n.isRegular source :=
  (everywhere_iff.mp h.regular).1

theorem isFirm (h : n.IsSound source) : n.isFirm :=
  (everywhere_iff.mp h.firm).1

theorem heritageIsFirm (h : n.IsSound source) : heritageIsFirm n.children :=
  (Bool.and_eq_true_iff.mp h.isFirm).1

theorem endsInByte (h : n.IsSound source) : n.endsInByte source :=
  (everywhere_iff.mp h.bodies).1

theorem row (h : n.IsSound source) : allOrdered n.start n.stop n.children :=
  (isOrdered_iff.mp h.ordered).2

theorem child (h : n.IsSound source) (hc : c ∈ n.children) : c.IsSound source :=
  ⟨isOrdered_of_mem h.row hc, (everywhere_iff.mp h.regular).2 c hc,
    (everywhere_iff.mp h.firm).2 c hc, (everywhere_iff.mp h.bodies).2 c hc⟩

theorem isBoundary_start (h : n.IsSound source) : isBoundary source n.start :=
  (isRegular_iff.mp h.isRegular).1.1

theorem isBoundary_stop (h : n.IsSound source) : isBoundary source n.stop :=
  (isRegular_iff.mp h.isRegular).1.2

theorem start_le_stop (h : n.IsSound source) : n.start ≤ n.stop :=
  start_le_stop_of_isOrdered h.ordered

end IsSound

theorem isSolid_range (h : n.IsSound source) (hsolid : n.isSolid source) :
    IsSolid source n.range := by
  obtain ⟨hfirst, hlast⟩ := Bool.and_eq_true_iff.mp hsolid
  exact isSolid_of_slice ⟨h.isBoundary_start, h.isBoundary_stop⟩ h.start_le_stop hfirst hlast

/-! ### Edges -/

/-- Where the edits of a node begin at the earliest. -/
def startEdge (source : List Char) (bounds : Range) (n : Node) : Nat :=
  if n.beginsPlainly then n.start else leading source bounds n.start

/-- Where the edits of a node end at the latest. -/
def stopEdge (source : List Char) (bounds : Range) (n : Node) : Nat :=
  if n.endsPlainly then n.stop else trailing source bounds n.stop

theorem startEdge_of_isErasable (h : n.isErasable) :
    n.startEdge source bounds = leading source bounds n.start := by
  refine if_neg fun hplain => ?_
  rw [(beginsPlainly_iff.mp hplain).1] at h
  cases h

theorem stopEdge_of_trails (h : n.trails) :
    n.stopEdge source bounds = trailing source bounds n.stop := by
  refine if_neg fun hplain => ?_
  rw [(endsPlainly_iff.mp hplain).1] at h
  cases h

section

variable (hb : bounds.IsCut source) (hn : n.IsSound source)

include hb hn

theorem leading_le_startEdge (hfirst : bounds.start ≤ n.start) :
    leading source bounds n.start ≤ n.startEdge source bounds := by
  obtain ⟨-, -, hle, -⟩ := leading_spec hb hn.isBoundary_start hfirst
  rw [startEdge]
  split
  · exact hle
  · exact Nat.le_refl _

theorem startEdge_le_start (hfirst : bounds.start ≤ n.start) :
    n.startEdge source bounds ≤ n.start := by
  obtain ⟨-, -, hle, -⟩ := leading_spec hb hn.isBoundary_start hfirst
  rw [startEdge]
  split
  · exact Nat.le_refl _
  · exact hle

theorem bounds_le_startEdge (hfirst : bounds.start ≤ n.start) :
    bounds.start ≤ n.startEdge source bounds := by
  obtain ⟨-, hle, -, -⟩ := leading_spec hb hn.isBoundary_start hfirst
  exact Nat.le_trans hle (leading_le_startEdge hb hn hfirst)

theorem stop_le_trailing (hlast : n.stop ≤ bounds.stop) :
    n.stop ≤ trailing source bounds n.stop :=
  (trailing_spec hb hn.isBoundary_stop hlast).2.2.1

theorem stopEdge_le_trailing (hlast : n.stop ≤ bounds.stop) :
    n.stopEdge source bounds ≤ trailing source bounds n.stop := by
  rw [stopEdge]
  split
  · exact stop_le_trailing hb hn hlast
  · exact Nat.le_refl _

theorem stop_le_stopEdge (hlast : n.stop ≤ bounds.stop) :
    n.stop ≤ n.stopEdge source bounds := by
  rw [stopEdge]
  split
  · exact Nat.le_refl _
  · exact stop_le_trailing hb hn hlast

theorem stopEdge_le_bounds (hlast : n.stop ≤ bounds.stop) :
    n.stopEdge source bounds ≤ bounds.stop :=
  Nat.le_trans (stopEdge_le_trailing hb hn hlast) (trailing_spec hb hn.isBoundary_stop hlast).2.1

end

end Node

namespace Emit

/-! ### Places -/

variable {source : List Char} {bounds : Range} {p q : Place} {n c d : Node} {around : List Node}
  {before : Option Node} {ns : List Node} {start stop : Nat}

/-- Whether the mark behind a node may be deleted along with it. -/
def Place.takes (p : Place) (n mark : Node) : Bool := p.parent?.any fun parent => parent.takes n mark

/-- Where the edits of a node at its place begin at the earliest. -/
def Place.startEdge (source : List Char) (bounds : Range) (p : Place) (n : Node) : Nat :=
  if n.isHeritage then p.start n else n.startEdge source bounds

/-- Where the edits of a node at its place end at the latest. -/
def Place.stopEdge (source : List Char) (bounds : Range) (p : Place) (n : Node) : Nat :=
  match p.behind.filter (p.takes n) with
  | some mark => trailing source bounds mark.stop
  | none => n.stopEdge source bounds

theorem Place.stopEdge_of_takes (hmark : p.behind = some d) (h : p.takes n d) :
    p.stopEdge source bounds n = trailing source bounds d.stop := by
  rw [Place.stopEdge, hmark, Option.filter_some, if_pos h]

theorem Place.stopEdge_of_not_takes (h : ∀ mark, p.behind = some mark → p.takes n mark = false) :
    p.stopEdge source bounds n = n.stopEdge source bounds := by
  rw [Place.stopEdge]
  split
  case h_1 mark hmark =>
    obtain ⟨hmark, htakes⟩ := Option.filter_eq_some_iff.mp hmark
    rw [h mark hmark] at htakes
    cases htakes
  case h_2 => rfl

/-- The bounds leave room for the edits of the node. -/
structure Place.IsWithin (source : List Char) (bounds : Range) (p : Place) (n : Node) : Prop where
  start : bounds.start ≤ n.start
  stop : n.stop ≤ bounds.stop
  parent : p.behind.isSome → p.parent?.isSome
  ahead : n.isHeritage → isBoundary source (p.start n) ∧ bounds.start ≤ p.start n ∧
    p.start n ≤ n.start
  behind : ∀ mark, p.behind = some mark → p.takes n mark →
    isBoundary source mark.stop ∧ n.stop ≤ mark.stop ∧ mark.stop ≤ bounds.stop

namespace Place.IsWithin

variable (h : p.IsWithin source bounds n) (hb : bounds.IsCut source) (hn : n.IsSound source)

include h hb hn

theorem startEdge_le : p.startEdge source bounds n ≤ n.start := by
  rw [Place.startEdge]
  split
  case isTrue hheritage => exact (h.ahead hheritage).2.2
  case isFalse => exact Node.startEdge_le_start hb hn h.start

omit hb in
theorem startEdge_le_startEdge : p.startEdge source bounds n ≤ n.startEdge source bounds := by
  rw [Place.startEdge]
  split
  case isTrue hheritage =>
    obtain ⟨-, -, -, -, hplain, -⟩ := Node.isRegular_iff.mp hn.isRegular
    rw [Node.startEdge, if_pos (hplain hheritage)]
    exact (h.ahead hheritage).2.2
  case isFalse => exact Nat.le_refl _

theorem bounds_le : bounds.start ≤ p.startEdge source bounds n := by
  rw [Place.startEdge]
  split
  case isTrue hheritage => exact (h.ahead hheritage).2.1
  case isFalse => exact Node.bounds_le_startEdge hb hn h.start

theorem stopEdge_le_stopEdge : n.stopEdge source bounds ≤ p.stopEdge source bounds n := by
  rw [Place.stopEdge]
  split
  case h_1 mark hmark =>
    obtain ⟨hmark, htakes⟩ := Option.filter_eq_some_iff.mp hmark
    obtain ⟨hcut, hle, hlast⟩ := h.behind mark hmark htakes
    exact Nat.le_trans (Node.stopEdge_le_trailing hb hn h.stop)
      (trailing_mono hb hn.isBoundary_stop hcut hle hlast)
  case h_2 => exact Nat.le_refl _

theorem le_stopEdge : n.stop ≤ p.stopEdge source bounds n :=
  Nat.le_trans (Node.stop_le_stopEdge hb hn h.stop) (h.stopEdge_le_stopEdge hb hn)

theorem le_bounds : p.stopEdge source bounds n ≤ bounds.stop := by
  rw [Place.stopEdge]
  split
  case h_1 mark hmark =>
    obtain ⟨hmark, htakes⟩ := Option.filter_eq_some_iff.mp hmark
    obtain ⟨hcut, -, hlast⟩ := h.behind mark hmark htakes
    exact (trailing_spec hb hcut hlast).2.1
  case h_2 => exact Node.stopEdge_le_bounds hb hn h.stop

end Place.IsWithin

/-! ### Rows -/

theorem mem_row {x : Place × Node} (hx : x ∈ Place.row around before ns) :
    x.2 ∈ ns ∧ x.1.around = around := by
  induction ns generalizing before with
  | nil => cases hx
  | cons c rest ih =>
    rcases List.mem_cons.mp hx with rfl | hx
    · exact ⟨List.mem_cons_self, rfl⟩
    · exact ⟨List.mem_cons_of_mem _ (ih hx).1, (ih hx).2⟩

theorem Place.exists_mem_row (around : List Node) (before : Option Node) {n : Node}
    {ns : List Node} (h : n ∈ ns) : ∃ p, (p, n) ∈ Place.row around before ns := by
  induction ns generalizing before with
  | nil => cases h
  | cons m ns ih =>
    rw [Place.row]
    rcases List.mem_cons.mp h with rfl | h
    · exact ⟨_, List.mem_cons_self⟩
    · obtain ⟨p, hp⟩ := ih (some m) h
      exact ⟨p, List.mem_cons_of_mem _ hp⟩

theorem parent?_of_mem_row {x : Place × Node} (hx : x ∈ Place.row (n :: around) before ns) :
    x.1.parent? = some n := by
  rw [Place.parent?, (mem_row hx).2, List.head?_cons]

theorem row_pairwise (hrow : Node.allOrdered start stop ns) :
    (Place.row around before ns).Pairwise fun x y => x.2.stop ≤ y.2.start := by
  induction ns generalizing start before with
  | nil => exact .nil
  | cons c rest ih =>
    obtain ⟨-, -, hrest⟩ := Node.allOrdered_cons_iff.mp hrow
    refine List.pairwise_cons.mpr ⟨fun y hy => ?_, ih hrest⟩
    exact (Node.bounds_of_mem hrest (mem_row hy).1).1

/-- The bounds of a row leave room for the edits of each node in it. -/
theorem row_isWithin (hrow : Node.allOrdered start stop ns)
    (hcut : ∀ c ∈ ns, isBoundary source c.start ∧ isBoundary source c.stop)
    (hbefore : ∀ b, before = some b →
      isBoundary source b.stop ∧ bounds.start ≤ b.stop ∧ b.stop ≤ start)
    (hfirst : bounds.start ≤ start) (hlast : stop ≤ bounds.stop) :
    ∀ x ∈ Place.row (n :: around) before ns, x.1.IsWithin source bounds x.2 := by
  induction ns generalizing start before with
  | nil => exact fun x hx => by cases hx
  | cons c rest ih =>
    obtain ⟨hstart, hc, hrest⟩ := Node.allOrdered_cons_iff.mp hrow
    obtain ⟨hcutStart, hcutStop⟩ := hcut c List.mem_cons_self
    have hwidth := Node.start_le_stop_of_isOrdered hc
    have hend := Node.start_le_stop_of_allOrdered hrest
    intro x hx
    rcases List.mem_cons.mp hx with rfl | hx
    · refine ⟨by dsimp only; omega, by dsimp only; omega, fun _ => rfl, fun _ => ?_,
        fun mark hmark _ => ?_⟩
      · cases before with
        | none => exact ⟨hcutStart, by dsimp only [Place.start, Option.map, Option.getD]; omega,
            Nat.le_refl _⟩
        | some b =>
          obtain ⟨hcutBefore, hle, hbehind⟩ := hbefore b rfl
          exact ⟨hcutBefore, hle, Nat.le_trans hbehind hstart⟩
      · obtain ⟨back, rfl⟩ := List.head?_eq_some_iff.mp hmark
        obtain ⟨hnext, hmark, hback⟩ := Node.allOrdered_cons_iff.mp hrest
        have hmarkWidth := Node.start_le_stop_of_isOrdered hmark
        have hmarkEnd := Node.start_le_stop_of_allOrdered hback
        exact ⟨(hcut mark (by simp)).2, Nat.le_trans hnext hmarkWidth,
          Nat.le_trans hmarkEnd hlast⟩
    · refine ih hrest (fun d hd => hcut d (List.mem_cons_of_mem _ hd)) ?_ (by omega) x hx
      rintro b ⟨⟩
      exact ⟨hcutStop, by omega, Nat.le_refl _⟩

/-- The edits of the first node are in front of those of the second, or the second has none. -/
def IsClear (source : List Char) (bounds : Range) (x y : Place × Node) : Prop :=
  y.2.isSeparator ∨ x.1.stopEdge source bounds x.2 ≤ y.1.startEdge source bounds y.2

section

variable (hb : bounds.IsCut source)

include hb

/-- What stands behind a node in its row begins behind the node's margin, but for a clause of
heritage. -/
theorem trailing_le_startEdge (hrow : Node.allOrdered c.stop stop ns)
    (hsound : ∀ d ∈ c :: ns, d.IsSound source ∧ d.isSolid source) (hfirst : bounds.start ≤ c.start)
    {x : Place × Node} (hx : x ∈ Place.row around (some c) ns) (hlast : x.2.stop ≤ bounds.stop) :
    (x.2.isHeritage ∧ ns.head? = some x.2 ∧ x.1.startEdge source bounds x.2 = c.stop) ∨
      trailing source bounds c.stop ≤ x.1.startEdge source bounds x.2 := by
  induction ns generalizing c with
  | nil => cases hx
  | cons d rest ih =>
    obtain ⟨hgap, hordered, hrest⟩ := Node.allOrdered_cons_iff.mp hrow
    obtain ⟨hc, hcSolid⟩ := hsound c List.mem_cons_self
    obtain ⟨hd, hdSolid⟩ := hsound d (List.mem_cons_of_mem _ List.mem_cons_self)
    have hcWidth := hc.start_le_stop
    have hdWidth := hd.start_le_stop
    rcases List.mem_cons.mp hx with rfl | hx
    · change d.stop ≤ bounds.stop at hlast
      cases hheritage : d.isHeritage with
      | true => exact .inl ⟨rfl, rfl, if_pos hheritage⟩
      | false =>
        have hedge : Place.startEdge source bounds ⟨around, some c, rest.head?⟩ d =
            d.startEdge source bounds := if_neg (by simp [hheritage])
        have hmargins : trailing source bounds c.stop ≤ leading source bounds d.start :=
          trailing_le_leading (r := c.range) (s := d.range) hb (Node.isSolid_range hc hcSolid)
            (Node.isSolid_range hd hdSolid) hc.isBoundary_stop hd.isBoundary_start hfirst hgap
            (Nat.le_trans hdWidth hlast)
        refine .inr ?_
        dsimp only
        rw [hedge]
        exact Nat.le_trans hmargins (Node.leading_le_startEdge hb hd (by omega))
    · obtain ⟨hbehind, -⟩ := Node.bounds_of_mem hrest (mem_row hx).1
      have hxWidth := (hsound x.2 (by simp [(mem_row hx).1])).1.start_le_stop
      obtain ⟨e, he, heSolid⟩ := (Node.isSolid_range hd hdSolid).first
      have hover : trailing source bounds c.stop ≤ d.start :=
        trailing_le_of_standsAt hb hc.isBoundary_stop (by omega) he heSolid hgap
      have hmargin := Node.stop_le_trailing hb hd (by omega)
      rcases ih hrest (fun e he => hsound e (List.mem_cons_of_mem _ he)) (by omega) hx with
        ⟨-, -, heq⟩ | hle
      · exact .inr (by omega)
      · exact .inr (by omega)

theorem row_isClear_of_isSolid (hrow : Node.allOrdered start stop ns)
    (hsound : ∀ d ∈ ns, d.IsSound source ∧ d.isSolid source) (haligned : n.isAligned ns)
    (hfirm : Node.heritageIsFirm ns) :
    (Place.row (n :: around) before ns).Pairwise fun x y =>
      bounds.start ≤ x.2.start → y.2.stop ≤ bounds.stop → IsClear source bounds x y := by
  induction ns generalizing start before with
  | nil => exact .nil
  | cons c rest ih =>
    obtain ⟨-, -, hrest⟩ := Node.allOrdered_cons_iff.mp hrow
    refine List.pairwise_cons.mpr ⟨fun y hy hfirst hlast => ?_,
      ih hrest (fun d hd => hsound d (List.mem_cons_of_mem _ hd)) (Node.isAligned_tail haligned)
        (Node.heritageIsFirm_tail hfirm)⟩
    dsimp only at hfirst
    obtain ⟨hc, -⟩ := hsound c List.mem_cons_self
    have hbehind := trailing_le_startEdge hb hrest hsound hfirst hy hlast
    cases rest with
    | nil => cases hy
    | cons d rest =>
      obtain ⟨-, -, haligned⟩ := Node.isAligned_cons_iff.mp haligned
      obtain ⟨hheritage, -⟩ := Node.heritageIsFirm_cons_iff.mp hfirm
      obtain ⟨hgap, -, hback⟩ := Node.allOrdered_cons_iff.mp hrest
      obtain ⟨hd, -⟩ := hsound d (by simp)
      have hdWidth := hd.start_le_stop
      have hcWidth := hc.start_le_stop
      have hdLast : d.stop ≤ bounds.stop := by
        rcases List.mem_cons.mp hy with rfl | hy
        · exact hlast
        · have hafter := (Node.bounds_of_mem hback (mem_row hy).1).1
          have hyWidth := (hsound y.2 (by simp [(mem_row hy).1])).1.start_le_stop
          omega
      cases htakes : n.takes c d with
      | true =>
        have hmark := Node.isSeparator_of_takes htakes
        rcases List.mem_cons.mp hy with rfl | hy
        · exact .inl hmark
        · have hstopEdge : Place.stopEdge source bounds ⟨n :: around, before, some d⟩ c =
              trailing source bounds d.stop := Place.stopEdge_of_takes rfl htakes
          have hnext := trailing_le_startEdge hb hback
            (fun e he => hsound e (List.mem_cons_of_mem _ he)) (by omega) hy hlast
          rcases hnext with ⟨hy', hhead, -⟩ | hle
          · obtain ⟨back, rfl⟩ := List.head?_eq_some_iff.mp hhead
            have hplain := (Node.isAligned_cons_iff.mp haligned).1 hy'
            rw [hmark] at hplain
            cases hplain
          · exact .inr (by dsimp only; rw [List.head?_cons, hstopEdge]; exact hle)
      | false =>
        have hstopEdge : Place.stopEdge source bounds ⟨n :: around, before, some d⟩ c =
            c.stopEdge source bounds :=
          Place.stopEdge_of_not_takes fun mark hmark => by cases hmark; exact htakes
        refine .inr ?_
        dsimp only
        rw [List.head?_cons, hstopEdge]
        rcases hbehind with ⟨hy', hhead, heq⟩ | hle
        · obtain rfl : d = y.2 := by simpa using hhead
          rw [heq, Node.stopEdge, if_pos (hheritage hy')]
        · exact Nat.le_trans (Node.stopEdge_le_trailing hb hc (by omega)) hle

theorem stopEdge_le_of_isSolid {limit : Nat} (hrow : Node.allOrdered start stop ns)
    (hsound : ∀ d ∈ ns, d.IsSound source ∧ d.isSolid source) (haligned : n.isAligned ns)
    (hstop : stop ≤ bounds.stop) (hlimit : stop ≤ limit)
    (hlast : ∀ d, ns.getLast? = some d → d.stopEdge source bounds ≤ limit) :
    ∀ x ∈ Place.row (n :: around) before ns, x.1.stopEdge source bounds x.2 ≤ limit := by
  induction ns generalizing start before with
  | nil => exact fun x hx => by cases hx
  | cons c rest ih =>
    obtain ⟨-, -, hrest⟩ := Node.allOrdered_cons_iff.mp hrow
    obtain ⟨hc, -⟩ := hsound c List.mem_cons_self
    have hcLast := Node.start_le_stop_of_allOrdered hrest
    cases rest with
    | nil =>
      intro x hx
      obtain rfl := List.mem_singleton.mp hx
      have hedge : Place.stopEdge source bounds ⟨n :: around, before, none⟩ c =
          c.stopEdge source bounds := Place.stopEdge_of_not_takes fun mark hmark => by cases hmark
      exact Nat.le_trans (Nat.le_of_eq hedge) (hlast c rfl)
    | cons d rest =>
      obtain ⟨-, hend, haligned⟩ := Node.isAligned_cons_iff.mp haligned
      obtain ⟨hgap, -, hback⟩ := Node.allOrdered_cons_iff.mp hrest
      obtain ⟨hd, hdSolid⟩ := hsound d (by simp)
      have hdWidth := hd.start_le_stop
      have hdLast := Node.start_le_stop_of_allOrdered hback
      intro x hx
      rcases List.mem_cons.mp hx with rfl | hx
      · cases htakes : n.takes c d with
        | true =>
          have hedge : Place.stopEdge source bounds ⟨n :: around, before, some d⟩ c =
              trailing source bounds d.stop := Place.stopEdge_of_takes rfl htakes
          refine Nat.le_trans (Nat.le_of_eq hedge) ?_
          cases rest with
          | nil =>
            rw [hend rfl] at htakes
            cases htakes
          | cons e rest =>
            obtain ⟨he, heSolid⟩ := hsound e (by simp)
            obtain ⟨hnext, -, hafter⟩ := Node.allOrdered_cons_iff.mp hback
            obtain ⟨first, hfirst, hsolid⟩ := (Node.isSolid_range he heSolid).first
            have hover : trailing source bounds d.stop ≤ e.start :=
              trailing_le_of_standsAt hb hd.isBoundary_stop (by omega) hfirst hsolid hnext
            have heWidth := he.start_le_stop
            have heLast := Node.start_le_stop_of_allOrdered hafter
            omega
        | false =>
          have hedge : Place.stopEdge source bounds ⟨n :: around, before, some d⟩ c =
              c.stopEdge source bounds :=
            Place.stopEdge_of_not_takes fun mark hmark => by cases hmark; exact htakes
          refine Nat.le_trans (Nat.le_of_eq hedge) ?_
          obtain ⟨first, hfirst, hsolid⟩ := (Node.isSolid_range hd hdSolid).first
          have hover : trailing source bounds c.stop ≤ d.start :=
            trailing_le_of_standsAt hb hc.isBoundary_stop (by omega) hfirst hsolid hgap
          have hmargin := Node.stopEdge_le_trailing hb hc (by omega)
          omega
      · exact ih hrest (fun e he => hsound e (List.mem_cons_of_mem _ he)) haligned hlast x hx

end

/-! ### Parts of a node -/

theorem takes_of_endsPlainly (hd : d.endsPlainly) (mark : Node) : p.takes d mark = false := by
  rw [Place.takes]
  cases hparent : p.parent? with
  | none => rfl
  | some parent =>
    rw [Option.any_some, Bool.eq_false_iff]
    intro htakes
    have htrails := Node.trails_of_takes htakes
    rw [(Node.endsPlainly_iff.mp hd).1] at htrails
    cases htrails

theorem edges_of_isPlain (hd : d.isPlain) :
    p.startEdge source bounds d = d.start ∧ p.stopEdge source bounds d = d.stop := by
  obtain ⟨hbegins, hends, hheritage⟩ := Node.isPlain_iff.mp hd
  rw [Place.startEdge, Place.stopEdge_of_not_takes fun mark _ => takes_of_endsPlainly hends mark,
    Node.startEdge, Node.stopEdge, if_pos hbegins, if_pos hends, hheritage]
  exact ⟨if_neg Bool.false_ne_true, rfl⟩

section

variable (hn : n.IsSound source) (hfirst : bounds.start ≤ n.start) (hlast : n.stop ≤ bounds.stop)

include hn hfirst hlast

theorem children_isWithin :
    ∀ x ∈ Place.row (n :: around) none n.children, x.1.IsWithin source bounds x.2 :=
  row_isWithin hn.row
    (fun c hc => ⟨(hn.child hc).isBoundary_start, (hn.child hc).isBoundary_stop⟩)
    (fun b hbefore => by cases hbefore) hfirst hlast

/-- The bounds of a node leave room for a part that is compiled as if nothing stood beside it. -/
theorem inside_isWithin (hc : c ∈ n.children) : Place.IsWithin source bounds { around } c := by
  obtain ⟨hstart, hstop⟩ := Node.bounds_of_mem hn.row hc
  refine ⟨Nat.le_trans hfirst hstart, Nat.le_trans hstop hlast, (fun h => by cases h),
    fun _ => ?_, (fun mark hmark => by cases hmark)⟩
  exact ⟨(hn.child hc).isBoundary_start, Nat.le_trans hfirst hstart, Nat.le_refl _⟩

end

section

variable (hb : bounds.IsCut source) (hn : n.IsSound source)

include hb hn

/-- The edits of a node's parts are clear of each other. -/
theorem children_isClear :
    (Place.row (n :: around) none n.children).Pairwise fun x y =>
      bounds.start ≤ x.2.start → y.2.stop ≤ bounds.stop → IsClear source bounds x y := by
  obtain ⟨-, -, hrow, haligned, -, -⟩ := Node.isRegular_iff.mp hn.isRegular
  rcases hrow with hsolid | hplain
  · exact row_isClear_of_isSolid hb hn.row (fun d hd => ⟨hn.child hd, hsolid d hd⟩) haligned
      hn.heritageIsFirm
  · refine (row_pairwise hn.row).imp_of_mem fun hx hy hle _ _ => .inr ?_
    rw [(edges_of_isPlain (hplain _ (mem_row hx).1)).2,
      (edges_of_isPlain (hplain _ (mem_row hy).1)).1]
    exact hle

/-- The edits of what a node begins with begin behind the node's edge. -/
theorem startEdge_le_head (hfirst : bounds.start ≤ n.start) (hc : n.children.head? = some c) :
    n.startEdge source bounds ≤ c.startEdge source bounds := by
  have hmem := List.mem_of_head? hc
  obtain ⟨hle, -⟩ := Node.bounds_of_mem hn.row hmem
  rw [Node.startEdge]
  split
  case isTrue hplain =>
    rw [Node.startEdge, if_pos ((Node.beginsPlainly_iff.mp hplain).2 c hc)]
    exact hle
  case isFalse =>
    exact Nat.le_trans (leading_mono hb hn.isBoundary_start (hn.child hmem).isBoundary_start hle
      hfirst) (Node.leading_le_startEdge hb (hn.child hmem) (by omega))

/-- The edits of what a node ends with end before the node's edge. -/
theorem getLast_le_stopEdge (hlast : n.stop ≤ bounds.stop)
    (hc : n.children.getLast? = some c) :
    c.stopEdge source bounds ≤ n.stopEdge source bounds := by
  have hmem := List.mem_of_getLast? hc
  obtain ⟨-, hle⟩ := Node.bounds_of_mem hn.row hmem
  rw [Node.stopEdge.eq_def source bounds n]
  split
  case isTrue hplain =>
    rw [Node.stopEdge, if_pos ((Node.endsPlainly_iff.mp hplain).2 c hc)]
    exact hle
  case isFalse =>
    exact Nat.le_trans (Node.stopEdge_le_trailing hb (hn.child hmem) (by omega))
      (trailing_mono hb (hn.child hmem).isBoundary_stop hn.isBoundary_stop hle hlast)

/-- The edits of a node's parts stay between the edges of the node. -/
theorem children_edges (hfirst : bounds.start ≤ n.start) (hlast : n.stop ≤ bounds.stop) :
    ∀ x ∈ Place.row (n :: around) none n.children,
      n.startEdge source bounds ≤ x.1.startEdge source bounds x.2 ∧
        x.1.stopEdge source bounds x.2 ≤ n.stopEdge source bounds := by
  obtain ⟨-, -, hrow, haligned, -, -⟩ := Node.isRegular_iff.mp hn.isRegular
  have hordered := hn.row
  have hstartEdge := Node.startEdge_le_start hb hn hfirst
  have hstopEdge := Node.stop_le_stopEdge hb hn hlast
  rcases hrow with hsolid | hplain
  · have hsound : ∀ d ∈ n.children, d.IsSound source ∧ d.isSolid source :=
      fun d hd => ⟨hn.child hd, hsolid d hd⟩
    intro x hx
    refine ⟨?_, stopEdge_le_of_isSolid hb hordered hsound haligned hlast hstopEdge
      (fun d hd => getLast_le_stopEdge hb hn hlast hd) x hx⟩
    have hhead := fun d => startEdge_le_head (c := d) hb hn hfirst
    have hlastOf := fun d hd => (Node.bounds_of_mem (n := d) hordered hd).2
    cases hchildren : n.children with
    | nil =>
      rw [hchildren] at hx
      cases hx
    | cons first rest =>
      rw [hchildren] at hx hordered hsound hhead hlastOf
      obtain ⟨hle, -, hrest⟩ := Node.allOrdered_cons_iff.mp hordered
      obtain ⟨hfirstSound, -⟩ := hsound first List.mem_cons_self
      have hwidth := hfirstSound.start_le_stop
      rcases List.mem_cons.mp hx with rfl | hx
      · rw [Place.startEdge]
        split
        · exact Nat.le_trans hstartEdge hle
        · exact hhead first rfl
      · have hxLast := hlastOf x.2 (List.mem_cons_of_mem _ (mem_row hx).1)
        have hend := Node.start_le_stop_of_allOrdered hrest
        have hmargin := Node.stop_le_trailing hb hfirstSound (by omega)
        rcases trailing_le_startEdge hb hrest hsound (by omega) hx (by omega) with
          ⟨-, -, heq⟩ | hover
        · omega
        · omega
  · intro x hx
    obtain ⟨hstart, hstop⟩ := Node.bounds_of_mem hordered (mem_row hx).1
    obtain ⟨hedgeStart, hedgeStop⟩ : x.1.startEdge source bounds x.2 = x.2.start ∧
        x.1.stopEdge source bounds x.2 = x.2.stop := edges_of_isPlain (hplain _ (mem_row hx).1)
    omega

/-- A part that is compiled as if nothing stood beside it stays between the edges of the node. -/
theorem inside_edges (hfirst : bounds.start ≤ n.start) (hlast : n.stop ≤ bounds.stop)
    (hc : c ∈ n.children) :
    n.startEdge source bounds ≤ Place.startEdge source bounds { around } c ∧
      Place.stopEdge source bounds { around } c ≤ n.stopEdge source bounds := by
  obtain ⟨q, hq⟩ := Place.exists_mem_row (n :: around) none hc
  have hwithin : q.IsWithin source bounds c := children_isWithin hn hfirst hlast _ hq
  obtain ⟨hstart, hstop⟩ := children_edges hb hn hfirst hlast _ hq
  have hstopEdge : Place.stopEdge source bounds { around } c = c.stopEdge source bounds :=
    Place.stopEdge_of_not_takes fun mark hmark => by cases hmark
  refine ⟨Nat.le_trans hstart ?_, ?_⟩
  · have hle := hwithin.startEdge_le hb (hn.child hc)
    rw [Place.startEdge] at hle ⊢
    split at hle
    case isTrue hheritage =>
      rw [Place.startEdge, if_pos hheritage, if_pos hheritage]
      exact hle
    case isFalse hheritage =>
      rw [Place.startEdge, if_neg hheritage, if_neg hheritage]
  · rw [hstopEdge]
    exact Nat.le_trans (hwithin.stopEdge_le_stopEdge hb (hn.child hc)) hstop

end

/-- Bounds that a part of a block stays in leave room for its edits. -/
theorem block_isWithin (hblock : n.isBlock) {x : Place × Node}
    (hx : x ∈ Place.row (n :: around) none n.children) (hfirst : bounds.start ≤ x.2.start)
    (hlast : x.2.stop ≤ bounds.stop) : x.1.IsWithin source bounds x.2 := by
  obtain ⟨hkind, -, hplain⟩ := Node.isBlock_iff.mp hblock
  obtain ⟨hheritage, -, hparameter⟩ := hplain x.2 (mem_row hx).1
  have hparent := parent?_of_mem_row hx
  refine ⟨hfirst, hlast, fun _ => by rw [hparent]; rfl, fun h => ?_, fun mark _ htakes => ?_⟩
  · rw [hheritage] at h
    cases h
  · have hclass : n.isA .classBody = false := by
      rw [Node.isA_eq_kind?, Node.isA_iff.mp hkind]
      rfl
    rw [Place.takes, hparent, Option.any_some, Node.takes, hclass, hparameter] at htakes
    cases htakes

end Emit

end CompilingProxy
