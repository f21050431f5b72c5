import CompilingProxy.Proofs.Grammar.Tree
import CompilingProxy.Emit.Constant

/-!
# Which initialisers are constants
-/

namespace CompilingProxy.EnumValue

open Text

/-- What an initialiser is by its form, given what the members before it are. -/
inductive Denotes (source : List Char) (s : EnumScope) : Node → EnumValue → Prop
  | number {n : Node} {x : Float} (hkind : n.kind? = some .number)
      (hread : Number.literal? (n.text source).toList = some x) : Denotes source s n (.number x)
  | string {n : Node} (hkind : n.kind? = some .string) :
      Denotes source s n (.string (n.text source))
  /-- A template in which no text stands. -/
  | template {n : Node} (hkind : n.kind? = some .templateString) (hparts : n.namedChildren = []) :
      Denotes source s n (.string (quoted (n.unquoted source)))
  | group {n c : Node} {v : EnumValue} (hkind : n.kind? = some .parenthesizedExpression)
      (hinner : n.namedChildren.head? = some c) (hc : Denotes source s c v) : Denotes source s n v
  /-- A member of the same enum, by its name alone. -/
  | name {n : Node} {v : EnumValue} (hkind : n.kind? = some .identifier)
      (hknown : s.get? (n.text source) = some v) : Denotes source s n v
  | member {n object property : Node} {v : EnumValue} (hkind : n.kind? = some .memberExpression)
      (hobject : n.child? .object = some object) (hproperty : n.child? .property = some property)
      (henum : object.text source = s.enumName)
      (hknown : s.get? (property.text source) = some v) : Denotes source s n v
  | unary {n operator a : Node} {x y : Float} (hkind : n.kind? = some .unaryExpression)
      (hoperator : n.child? .operator = some operator) (hargument : n.child? .argument = some a)
      (ha : Denotes source s a (.number x))
      (hfold : ofUnary? (operator.text source) x = some y) : Denotes source s n (.number y)
  | binary {n operator a b : Node} {x y z : Float} (hkind : n.kind? = some .binaryExpression)
      (hoperator : n.child? .operator = some operator) (hleft : n.child? .left = some a)
      (hright : n.child? .right = some b) (ha : Denotes source s a (.number x))
      (hb : Denotes source s b (.number y))
      (hfold : ofBinary? (operator.text source) x y = some z) : Denotes source s n (.number z)

variable {source : List Char} {s : EnumScope} {n : Node} {v : EnumValue}

theorem ofFirst?_eq_bind (ns : List Node) :
    ofFirst? source s ns = (ns.filter Node.isNamed).head?.bind (ofNode? source s) := by
  induction ns with
  | nil => rfl
  | cons n ns ih =>
    rw [ofFirst?, List.filter_cons]
    by_cases hn : n.isNamed
    · rw [if_pos hn, if_pos hn]
      rfl
    · rw [if_neg hn, if_neg hn, ih]

theorem ofRole?_eq_bind (role : Role) (ns : List Node) :
    ofRole? source s role ns = (ns.find? (·.role == some role)).bind (ofNode? source s) := by
  induction ns with
  | nil => rfl
  | cons n ns ih =>
    rw [ofRole?, List.find?_cons]
    cases n.role == some role with
    | true => rfl
    | false => exact ih

/-- How the value of an initialiser comes from the values of its parts. -/
theorem ofNode?_eq_match :
    ofNode? source s n =
      match n.kind? with
      | some .number => (Number.literal? (n.text source).toList).map .number
      | some .string => some (.string (n.text source))
      | some .templateString =>
        if n.namedChildren.isEmpty then some (.string (quoted (n.unquoted source))) else none
      | some .parenthesizedExpression => n.namedChildren.head?.bind (ofNode? source s)
      | some .identifier => s.get? (n.text source)
      | some .memberExpression => do
        let object ← n.child? .object
        let property ← n.child? .property
        if object.text source == s.enumName then s.get? (property.text source) else none
      | some .unaryExpression => do
        let operator ← n.child? .operator
        match ← (n.child? .argument).bind (ofNode? source s) with
        | .number x => (ofUnary? (operator.text source) x).map .number
        | .string _ => none
      | some .binaryExpression => do
        let operator ← n.child? .operator
        match ← (n.child? .left).bind (ofNode? source s),
            ← (n.child? .right).bind (ofNode? source s) with
        | .number x, .number y => (ofBinary? (operator.text source) x y).map .number
        | _, _ => none
      | _ => none := by
  obtain ⟨label, role, start, stop, missing, children⟩ := n
  rw [ofNode?]
  simp only [ofFirst?_eq_bind, ofRole?_eq_bind]
  rfl

theorem ofNode?_sound (h : ofNode? source s n = some v) : Denotes source s n v := by
  induction n using Node.induction_below generalizing v with
  | step n ih =>
    -- The parts that are looked up are children.
    have hpart {role : Role} {c : Node} (hc : n.child? role = some c) {w : EnumValue} :
        ofNode? source s c = some w → Denotes source s c w :=
      ih c (List.mem_of_find?_eq_some hc)
    rw [ofNode?_eq_match] at h
    split at h
    case h_1 hkind =>
      obtain ⟨x, hread, rfl⟩ := Option.map_eq_some_iff.mp h
      exact .number hkind hread
    case h_2 hkind =>
      cases h
      exact .string hkind
    case h_3 hkind =>
      split at h
      case isTrue hparts =>
        cases h
        exact .template hkind (List.isEmpty_iff.mp hparts)
      case isFalse => cases h
    case h_4 hkind =>
      obtain ⟨c, hinner, hc⟩ := Option.bind_eq_some_iff.mp h
      exact .group hkind hinner
        (ih c (List.mem_filter.mp (List.mem_of_head? hinner)).1 hc)
    case h_5 hkind => exact .name hkind h
    case h_6 hkind =>
      obtain ⟨object, hobject, h⟩ := Option.bind_eq_some_iff.mp h
      obtain ⟨property, hproperty, h⟩ := Option.bind_eq_some_iff.mp h
      split at h
      case isTrue henum => exact .member hkind hobject hproperty (beq_iff_eq.mp henum) h
      case isFalse => cases h
    case h_7 hkind =>
      obtain ⟨operator, hoperator, h⟩ := Option.bind_eq_some_iff.mp h
      obtain ⟨w, hw, h⟩ := Option.bind_eq_some_iff.mp h
      obtain ⟨a, hargument, ha⟩ := Option.bind_eq_some_iff.mp hw
      cases w with
      | string literal => cases h
      | number x =>
        obtain ⟨y, hfold, rfl⟩ := Option.map_eq_some_iff.mp h
        exact .unary hkind hoperator hargument (hpart hargument ha) hfold
    case h_8 hkind =>
      obtain ⟨operator, hoperator, h⟩ := Option.bind_eq_some_iff.mp h
      obtain ⟨wa, hwa, h⟩ := Option.bind_eq_some_iff.mp h
      obtain ⟨wb, hwb, h⟩ := Option.bind_eq_some_iff.mp h
      obtain ⟨a, hleft, ha⟩ := Option.bind_eq_some_iff.mp hwa
      obtain ⟨b, hright, hb⟩ := Option.bind_eq_some_iff.mp hwb
      split at h
      case h_1 x y =>
        obtain ⟨z, hfold, rfl⟩ := Option.map_eq_some_iff.mp h
        exact .binary hkind hoperator hleft hright (hpart hleft ha) (hpart hright hb) hfold
      case h_2 => cases h
    case h_9 => cases h

theorem Denotes.ofNode?_eq (h : Denotes source s n v) : ofNode? source s n = some v := by
  induction h with
  | number hkind hread => rw [ofNode?_eq_match, hkind, hread]; rfl
  | string hkind => rw [ofNode?_eq_match, hkind]
  | template hkind hparts => rw [ofNode?_eq_match, hkind, hparts]; rfl
  | group hkind hinner _ ih => rw [ofNode?_eq_match, hkind, hinner]; exact ih
  | name hkind hknown => rw [ofNode?_eq_match, hkind]; exact hknown
  | member hkind hobject hproperty henum hknown =>
    rw [ofNode?_eq_match, hkind, hobject, hproperty]
    exact (if_pos (beq_iff_eq.mpr henum)).trans hknown
  | unary hkind hoperator hargument _ hfold ih =>
    rw [ofNode?_eq_match, hkind, hoperator, hargument]
    simp [ih, hfold]
  | binary hkind hoperator hleft hright _ _ hfold iha ihb =>
    rw [ofNode?_eq_match, hkind, hoperator, hleft, hright]
    simp [iha, ihb, hfold]

theorem ofNode?_eq_some_iff : ofNode? source s n = some v ↔ Denotes source s n v :=
  ⟨ofNode?_sound, Denotes.ofNode?_eq⟩

theorem ofNode?_eq_none_iff : ofNode? source s n = none ↔ ∀ v, ¬ Denotes source s n v := by
  simp only [Option.eq_none_iff_forall_ne_some, ne_eq, ofNode?_eq_some_iff]

end CompilingProxy.EnumValue
