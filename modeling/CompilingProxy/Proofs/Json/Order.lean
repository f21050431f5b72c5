import CompilingProxy.Json.Value

/-!
# Members in the order of their keys

Members are put in their places one after the other. What stands by a key is what was put there
last, and members that are in order already stay as they are.
-/

namespace CompilingProxy.Json

variable {key k : String} {v : Json} {m : String × Json} {ms start : List (String × Json)}
  {keep : String → Bool}

/-- No key stands behind a greater one or behind itself. -/
abbrev InOrder (ms : List (String × Json)) : Prop := ms.Pairwise fun m n => m.1 < n.1

theorem lt_of_not_lt_of_ne (hlt : ¬key < k) (hne : key ≠ k) : k < key := by
  refine Decidable.byContradiction fun hle => hne ?_
  exact String.le_antisymm (String.not_lt.mp hle) (String.not_lt.mp hlt)

theorem lookup_cons_eq_ite (key : String) (v : Json) (ms : List (String × Json)) (k : String) :
    ((key, v) :: ms).lookup k = if k = key then some v else ms.lookup k := by
  rw [List.lookup_cons]
  by_cases hk : k = key
  · rw [if_pos hk, beq_iff_eq.mpr hk]
  · rw [if_neg hk, beq_false_of_ne hk]

theorem mem_of_mem_insert (h : m ∈ insert key v ms) : m = (key, v) ∨ m ∈ ms := by
  induction ms with
  | nil => exact .inl (List.mem_singleton.mp h)
  | cons n ms ih =>
    rw [insert] at h
    split at h
    · exact List.mem_cons.mp h
    · split at h
      · exact (List.mem_cons.mp h).imp id (List.mem_cons_of_mem _)
      · rcases List.mem_cons.mp h with rfl | h
        · exact .inr List.mem_cons_self
        · exact (ih h).imp id (List.mem_cons_of_mem _)

theorem InOrder.insert (h : InOrder ms) (key : String) (v : Json) :
    InOrder (insert key v ms) := by
  induction ms with
  | nil => exact List.pairwise_singleton _ _
  | cons n ms ih =>
    obtain ⟨hfirst, hrest⟩ := List.pairwise_cons.mp h
    rw [Json.insert]
    split
    case isTrue hlt =>
      refine List.pairwise_cons.mpr ⟨fun m hm => ?_, h⟩
      rcases List.mem_cons.mp hm with rfl | hm
      · exact hlt
      · exact String.lt_trans hlt (hfirst m hm)
    case isFalse hlt =>
      split
      case isTrue heq => exact List.pairwise_cons.mpr ⟨fun m hm => heq ▸ hfirst m hm, hrest⟩
      case isFalse hne =>
        refine List.pairwise_cons.mpr ⟨fun m hm => ?_, ih hrest⟩
        rcases mem_of_mem_insert hm with rfl | hm
        · exact lt_of_not_lt_of_ne hlt hne
        · exact hfirst m hm

/-- A member whose key is behind all others is put behind them. -/
theorem insert_of_forall_lt (h : ∀ m ∈ ms, m.1 < key) : insert key v ms = ms ++ [(key, v)] := by
  induction ms with
  | nil => rfl
  | cons n ms ih =>
    have hlt := h n List.mem_cons_self
    have hne : key ≠ n.1 := fun heq => String.lt_irrefl key (by rwa [heq] at hlt ⊢)
    rw [insert, if_neg (String.lt_asymm hlt), if_neg hne,
      ih fun m hm => h m (List.mem_cons_of_mem _ hm)]
    rfl

theorem lookup_insert (key : String) (v : Json) (ms : List (String × Json)) (k : String) :
    (insert key v ms).lookup k = if k = key then some v else ms.lookup k := by
  induction ms with
  | nil => exact lookup_cons_eq_ite key v [] k
  | cons n ms ih =>
    rw [insert]
    split
    · exact lookup_cons_eq_ite key v _ k
    · split
      case isTrue heq =>
        rw [lookup_cons_eq_ite, lookup_cons_eq_ite, ← heq]
        split <;> rfl
      case isFalse hne =>
        rw [lookup_cons_eq_ite, lookup_cons_eq_ite, ih]
        split
        case isTrue hk => rw [if_neg (by rw [hk]; exact Ne.symm hne)]
        case isFalse => rfl

/-! ### Many members -/

abbrev insertAll (start ms : List (String × Json)) : List (String × Json) :=
  ms.foldl (fun acc (k, v) => insert k v acc) start

theorem mem_of_mem_insertAll (h : m ∈ insertAll start ms) : m ∈ start ∨ m ∈ ms := by
  induction ms generalizing start with
  | nil => exact .inl h
  | cons n ms ih =>
    rcases ih h with h | h
    · rcases mem_of_mem_insert h with rfl | h
      · exact .inr List.mem_cons_self
      · exact .inl h
    · exact .inr (List.mem_cons_of_mem _ h)

theorem InOrder.insertAll (h : InOrder start) (ms : List (String × Json)) :
    InOrder (insertAll start ms) := by
  induction ms generalizing start with
  | nil => exact h
  | cons n ms ih => exact ih (h.insert n.1 n.2)

theorem insertAll_cons (start : List (String × Json)) (m : String × Json)
    (ms : List (String × Json)) :
    insertAll start (m :: ms) = insertAll (insert m.1 m.2 start) ms := rfl

theorem lookup_insertAll (start ms : List (String × Json)) (key : String) :
    (insertAll start ms).lookup key = (ms.reverse.lookup key).or (start.lookup key) := by
  induction ms generalizing start with
  | nil => rfl
  | cons n ms ih =>
    rw [insertAll_cons, ih, lookup_insert, List.reverse_cons, List.lookup_append,
      lookup_cons_eq_ite, Option.or_assoc]
    split <;> rfl

theorem insertAll_of_inOrder (h : InOrder (start ++ ms)) : insertAll start ms = start ++ ms := by
  induction ms generalizing start with
  | nil => exact (List.append_nil _).symm
  | cons n ms ih =>
    have hlt : ∀ m ∈ start, m.1 < n.1 := fun m hm =>
      (List.pairwise_append.mp h).2.2 m hm n List.mem_cons_self
    rw [insertAll_cons, insert_of_forall_lt hlt, ih, List.append_assoc]
    · rfl
    · rwa [List.append_assoc]

theorem inOrder_ofMembers (ms : List (String × Json)) : InOrder (ofMembers ms) :=
  InOrder.insertAll .nil ms

theorem lookup_ofMembers (ms : List (String × Json)) (key : String) :
    (ofMembers ms).lookup key = ms.reverse.lookup key := by
  rw [ofMembers, lookup_insertAll, List.lookup_nil, Option.or_none]

theorem ofMembers_of_inOrder (h : InOrder ms) : ofMembers ms = ms :=
  insertAll_of_inOrder h

/-- What stands by a key does not depend on members that are left out for other keys. -/
theorem lookup_filter (hkey : keep key) :
    (ms.filter fun m => keep m.1).lookup key = ms.lookup key := by
  induction ms with
  | nil => rfl
  | cons n ms ih =>
    rw [List.filter_cons, lookup_cons_eq_ite]
    split
    · rw [lookup_cons_eq_ite, ih]
    case isFalse hdrop =>
      have hne : key ≠ n.1 := fun heq => hdrop (by rwa [← heq])
      rw [ih, if_neg hne]

end CompilingProxy.Json
