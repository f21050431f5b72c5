import CompilingProxy.Proofs.Json.Number
import CompilingProxy.Proofs.Json.Order

/-!
# What documents can hold

Whatever is read of a document is nested no deeper than documents may be, and its numbers are ones
that documents can hold. Its objects have their members in the order of the keys, so that it is the
value of the document that it would be written as.
-/

namespace CompilingProxy

/-! ### Values -/

namespace Json

mutual

/-- The numbers in a value. -/
def numbers : Json → List JsonNumber
  | .number n => [n]
  | .array items => numbersOfItems items
  | .object members => numbersOfMembers members
  | .null | .bool _ | .string _ => []

def numbersOfItems : List Json → List JsonNumber
  | [] => []
  | j :: js => numbers j ++ numbersOfItems js

def numbersOfMembers : List (String × Json) → List JsonNumber
  | [] => []
  | (_, j) :: ms => numbers j ++ numbersOfMembers ms

end

variable {n : JsonNumber} {items : List Json} {members : List (String × Json)}

theorem mem_numbersOfItems_iff : n ∈ numbersOfItems items ↔ ∃ j ∈ items, n ∈ j.numbers := by
  induction items with
  | nil => simp [numbersOfItems]
  | cons j js ih => simp [numbersOfItems, ih]

theorem mem_numbersOfMembers_iff :
    n ∈ numbersOfMembers members ↔ ∃ m ∈ members, n ∈ m.2.numbers := by
  induction members with
  | nil => simp [numbersOfMembers]
  | cons m ms ih => simp [numbersOfMembers, ih]

/-- A document can hold the value, in a place where so many levels are open to it. -/
inductive Legible : Nat → Json → Prop where
  | null {depth : Nat} : Legible depth .null
  | bool {depth : Nat} {b : Bool} : Legible depth (.bool b)
  | number {depth : Nat} {n : JsonNumber} (h : n.Fits) : Legible depth (.number n)
  | string {depth : Nat} {s : String} : Legible depth (.string s)
  | array {depth : Nat} {items : List Json} (h : ∀ j ∈ items, Legible (depth + 1) j) :
      Legible (depth + 2) (.array items)
  | object {depth : Nat} {members : List (String × Json)}
      (h : ∀ m ∈ members, Legible (depth + 1) m.2) : Legible (depth + 2) (.object members)

/-- The members of all objects in the value stand in the order of their keys. -/
inductive Ordered : Json → Prop where
  | null : Ordered .null
  | bool {b : Bool} : Ordered (.bool b)
  | number {n : JsonNumber} : Ordered (.number n)
  | string {s : String} : Ordered (.string s)
  | array {items : List Json} (h : ∀ j ∈ items, Ordered j) : Ordered (.array items)
  | object {members : List (String × Json)} (horder : InOrder members)
      (h : ∀ m ∈ members, Ordered m.2) : Ordered (.object members)

end Json

namespace JsonDocument

/-! ### Documents -/

/-- The document is nested no deeper than its place lets it, and its numbers fit. -/
inductive Legible : Nat → JsonDocument → Prop where
  | null {depth : Nat} : Legible depth .null
  | bool {depth : Nat} {b : Bool} : Legible depth (.bool b)
  | number {depth : Nat} {n : JsonNumber} (h : n.Fits) : Legible depth (.number n)
  | string {depth : Nat} {s : String} : Legible depth (.string s)
  | array {depth : Nat} {items : List JsonDocument} {closing : Option JsonFault}
      (h : ∀ d ∈ items, Legible (depth + 1) d) : Legible (depth + 2) (.array items closing)
  | object {depth : Nat} {members : List (String × JsonDocument)} {closing : Option JsonFault}
      (h : ∀ m ∈ members, Legible (depth + 1) m.2) : Legible (depth + 2) (.object members closing)
  | fault {depth : Nat} {f : JsonFault} : Legible depth (.fault f)

variable {depth : Nat}

theorem legible_scalar {α : Type} {make : α → JsonDocument} {x : Except JsonFault (α × Bytes)}
    (h : ∀ a rest, x = .ok (a, rest) → (make a).Legible depth) :
    (scalar make x).1.Legible depth := by
  cases x with
  | error f => exact .fault
  | ok found => exact h found.1 found.2 rfl

theorem legible_array {read : List JsonDocument} (h : ∀ d ∈ read, d.Legible (depth + 1))
    (closing : Option JsonFault) : (array read.reverse closing).Legible (depth + 2) :=
  .array fun d hd => h d (List.mem_reverse.mp hd)

theorem legible_object {read : List (String × JsonDocument)}
    (h : ∀ m ∈ read, m.2.Legible (depth + 1)) (closing : Option JsonFault) :
    (object read.reverse closing).Legible (depth + 2) :=
  .object fun m hm => h m (List.mem_reverse.mp hm)

theorem legible_read (fuel : Nat) :
    (∀ depth bs, (value fuel depth bs).1.Legible depth) ∧
    (∀ depth first read bs, (∀ d ∈ read, d.Legible (depth + 1)) →
      (items fuel (depth + 1) first read bs).1.Legible (depth + 2)) ∧
    ∀ depth first (read : List (String × JsonDocument)) bs,
      (∀ m ∈ read, m.2.Legible (depth + 1)) →
      (members fuel (depth + 1) first read bs).1.Legible (depth + 2) := by
  -- The three readers call one another with less fuel, so one induction is for all of them.
  induction fuel with
  | zero =>
    exact ⟨fun _ _ => .fault, fun _ _ _ _ h => legible_array h _,
      fun _ _ _ _ h => legible_object h _⟩
  | succ fuel ih =>
    obtain ⟨ihValue, ihItems, ihMembers⟩ := ih
    refine ⟨?_, ?_, ?_⟩
    · intro depth bs
      rw [value]
      split
      · exact .fault
      split
      · exact legible_scalar fun _ _ _ => .string
      split
      · exact legible_scalar fun _ _ h => .number (fits_of_numberText h)
      split
      · exact legible_scalar fun _ _ h => .number (fits_of_numberText h)
      split
      · exact legible_scalar fun _ _ _ => .null
      split
      · exact legible_scalar fun _ _ _ => .bool
      split
      · exact legible_scalar fun _ _ _ => .bool
      split
      · split
        · exact .fault
        · obtain ⟨depth, rfl⟩ : ∃ k, depth = k + 2 := ⟨depth - 2, by omega⟩
          exact ihItems depth true [] _ fun d hd => absurd hd List.not_mem_nil
      split
      · split
        · exact .fault
        · obtain ⟨depth, rfl⟩ : ∃ k, depth = k + 2 := ⟨depth - 2, by omega⟩
          exact ihMembers depth true [] _ fun d hd => absurd hd List.not_mem_nil
      · exact .fault
    · intro depth first read bs h
      rw [items]
      split
      · exact legible_array h _
      · exact legible_array h _
      case h_3 bs _ =>
        have hfirst := ihValue (depth + 1) bs
        split
        case h_1 v hv =>
          rw [hv] at hfirst
          exact legible_array (List.forall_mem_cons.mpr ⟨hfirst, h⟩) _
        case h_2 v rest hv =>
          rw [hv] at hfirst
          exact ihItems depth false _ rest (List.forall_mem_cons.mpr ⟨hfirst, h⟩)
    · intro depth first read bs h
      rw [members]
      split
      · exact legible_object h _
      · exact legible_object h _
      · split
        · exact legible_object h _
        case h_2 key rest _ =>
          split
          · exact legible_object (List.forall_mem_cons.mpr ⟨.fault, h⟩) _
          case h_2 rest _ =>
            have hfirst := ihValue (depth + 1) rest
            split
            case h_1 v rest hv =>
              rw [hv] at hfirst
              have hread : ∀ m ∈ (key, v) :: read, m.2.Legible (depth + 1) :=
                List.forall_mem_cons.mpr ⟨hfirst, h⟩
              exact ihMembers depth false _ rest hread
            case h_2 v hv =>
              rw [hv] at hfirst
              have hread : ∀ m ∈ (key, v) :: read, m.2.Legible (depth + 1) :=
                List.forall_mem_cons.mpr ⟨hfirst, h⟩
              split
              · exact ihMembers depth false _ _ hread
              · exact legible_object hread _
          · exact legible_object (List.forall_mem_cons.mpr ⟨.fault, h⟩) _
      · exact legible_object h _

theorem ofBytes_fst (bs : Bytes) :
    (ofBytes bs).1 = (value (2 * bs.length + 2) depthLimit bs).1 := by
  rw [ofBytes]
  split <;> simp only [*]

theorem legible_ofBytes (bs : Bytes) : (ofBytes bs).1.Legible depthLimit := by
  rw [ofBytes_fst]
  exact (legible_read (2 * bs.length + 2)).1 depthLimit bs

/-! ### The value of a document -/

theorem mem_toJsonItems {ds : List JsonDocument} {js : List Json} (h : toJsonItems ds = .ok js)
    {j : Json} (hj : j ∈ js) : ∃ d ∈ ds, d.toJson = .ok j := by
  induction ds generalizing js with
  | nil =>
    cases h
    cases hj
  | cons d ds ih =>
    obtain ⟨j', hd, h⟩ := bind_eq_ok_iff.mp h
    obtain ⟨js', hds, h⟩ := bind_eq_ok_iff.mp h
    cases h
    rcases List.mem_cons.mp hj with rfl | hj
    · exact ⟨d, List.mem_cons_self, hd⟩
    · obtain ⟨d', hd', hj⟩ := ih hds hj
      exact ⟨d', List.mem_cons_of_mem _ hd', hj⟩

theorem mem_toJsonMembers {ds : List (String × JsonDocument)} {js : List (String × Json)}
    (h : toJsonMembers ds = .ok js) {m : String × Json} (hm : m ∈ js) :
    ∃ d, (m.1, d) ∈ ds ∧ d.toJson = .ok m.2 := by
  induction ds generalizing js with
  | nil =>
    cases h
    cases hm
  | cons d ds ih =>
    obtain ⟨key, d⟩ := d
    obtain ⟨j', hd, h⟩ := bind_eq_ok_iff.mp h
    obtain ⟨js', hds, h⟩ := bind_eq_ok_iff.mp h
    cases h
    rcases List.mem_cons.mp hm with rfl | hm
    · exact ⟨d, List.mem_cons_self, hd⟩
    · obtain ⟨d', hd', hj⟩ := ih hds hm
      exact ⟨d', List.mem_cons_of_mem _ hd', hj⟩

theorem toJson_array_eq_ok_iff {ds : List JsonDocument} {closing : Option JsonFault} {j : Json} :
    (array ds closing).toJson = .ok j ↔
      closing = none ∧ ∃ js, toJsonItems ds = .ok js ∧ j = .array js := by
  rw [toJson, bind_eq_ok_iff]
  cases closing with
  | none =>
    constructor
    · rintro ⟨js, hjs, h⟩
      exact ⟨rfl, js, hjs, (Except.ok.inj h).symm⟩
    · rintro ⟨-, js, hjs, rfl⟩
      exact ⟨js, hjs, rfl⟩
  | some f =>
    constructor
    · rintro ⟨js, -, h⟩
      cases h
    · rintro ⟨h, -⟩
      cases h

theorem toJson_object_eq_ok_iff {ds : List (String × JsonDocument)} {closing : Option JsonFault}
    {j : Json} :
    (object ds closing).toJson = .ok j ↔
      closing = none ∧ ∃ js, toJsonMembers ds = .ok js ∧ j = .object (Json.ofMembers js) := by
  rw [toJson, bind_eq_ok_iff]
  cases closing with
  | none =>
    constructor
    · rintro ⟨js, hjs, h⟩
      exact ⟨rfl, js, hjs, (Except.ok.inj h).symm⟩
    · rintro ⟨-, js, hjs, rfl⟩
      exact ⟨js, hjs, rfl⟩
  | some f =>
    constructor
    · rintro ⟨js, -, h⟩
      cases h
    · rintro ⟨h, -⟩
      cases h

theorem mem_of_mem_ofMembers {ms : List (String × Json)} {m : String × Json}
    (h : m ∈ Json.ofMembers ms) : m ∈ ms :=
  (Json.mem_of_mem_insertAll h).resolve_left List.not_mem_nil

theorem Legible.toJson {d : JsonDocument} (h : d.Legible depth) {j : Json}
    (hj : d.toJson = .ok j) : j.Legible depth ∧ j.Ordered := by
  induction h generalizing j with
  | null =>
    cases hj
    exact ⟨.null, .null⟩
  | bool =>
    cases hj
    exact ⟨.bool, .bool⟩
  | number hn =>
    cases hj
    exact ⟨.number hn, .number⟩
  | string =>
    cases hj
    exact ⟨.string, .string⟩
  | @array depth ds _ _ ih =>
    obtain ⟨-, js, hjs, rfl⟩ := toJson_array_eq_ok_iff.mp hj
    have hitems : ∀ j ∈ js, j.Legible (depth + 1) ∧ j.Ordered := by
      intro j hj
      obtain ⟨d, hd, hj⟩ := mem_toJsonItems hjs hj
      exact ih d hd hj
    exact ⟨.array fun j hj => (hitems j hj).1, .array fun j hj => (hitems j hj).2⟩
  | @object depth ds _ _ ih =>
    obtain ⟨-, js, hjs, rfl⟩ := toJson_object_eq_ok_iff.mp hj
    have hmembers : ∀ m ∈ Json.ofMembers js, m.2.Legible (depth + 1) ∧ m.2.Ordered := by
      intro m hm
      obtain ⟨d, hd, hm⟩ := mem_toJsonMembers hjs (mem_of_mem_ofMembers hm)
      exact ih _ hd hm
    exact ⟨.object fun m hm => (hmembers m hm).1,
      .object (Json.inOrder_ofMembers js) fun m hm => (hmembers m hm).2⟩
  | fault => cases hj

theorem toJsonItems_ofJsonItems {js : List Json} (h : ∀ j ∈ js, (ofJson j).toJson = .ok j) :
    toJsonItems (ofJsonItems js) = .ok js := by
  induction js with
  | nil => rfl
  | cons j js ih =>
    rw [ofJsonItems, toJsonItems, h j List.mem_cons_self,
      ih fun j hj => h j (List.mem_cons_of_mem _ hj)]
    rfl

theorem toJsonMembers_ofJsonMembers {ms : List (String × Json)}
    (h : ∀ m ∈ ms, (ofJson m.2).toJson = .ok m.2) :
    toJsonMembers (ofJsonMembers ms) = .ok ms := by
  induction ms with
  | nil => rfl
  | cons m ms ih =>
    obtain ⟨key, j⟩ := m
    rw [ofJsonMembers, toJsonMembers, h (key, j) List.mem_cons_self,
      ih fun m hm => h m (List.mem_cons_of_mem _ hm)]
    rfl

theorem toJson_ofJson {j : Json} (h : j.Ordered) : (ofJson j).toJson = .ok j := by
  induction h with
  | null | bool | number | string => rfl
  | array _ ih =>
    exact toJson_array_eq_ok_iff.mpr ⟨rfl, _, toJsonItems_ofJsonItems ih, rfl⟩
  | object horder _ ih =>
    refine toJson_object_eq_ok_iff.mpr ⟨rfl, _, toJsonMembers_ofJsonMembers ih, ?_⟩
    rw [Json.ofMembers_of_inOrder horder]

end JsonDocument

end CompilingProxy
