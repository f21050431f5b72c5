import Mathlib.Data.List.Basic

/-!
# Stable sorting

Sorting moves no two entries of one rank past each other. So a sorted list is known from the entries
of each rank, in their order, and to sort and to leave entries out is the same in either order.
-/

namespace CompilingProxy.Sorting

variable {α κ : Type} [DecidableEq κ] {before : α → α → Bool} {rank : α → κ} {xs ys : List α}

/-- The comparison is a linear one, but for entries of one rank. -/
structure Ranks (before : α → α → Bool) (rank : α → κ) : Prop where
  trans : ∀ a b c, before a b → before b c → before a c
  total : ∀ a b, before a b || before b a
  antisymm : ∀ a b, before a b → before b a → rank a = rank b
  congr : ∀ a b, rank a = rank b → before a b

theorem Ranks.filter_mergeSort (h : Ranks before rank) (xs : List α) (k : κ) :
    (xs.mergeSort before).filter (rank · = k) = xs.filter (rank · = k) := by
  have hsame : (xs.filter (rank · = k)).Pairwise fun a b => before a b := by
    refine List.pairwise_of_forall_mem_list fun a ha b hb => h.congr a b ?_
    rw [of_decide_eq_true (List.mem_filter.mp ha).2, of_decide_eq_true (List.mem_filter.mp hb).2]
  have hsub :=
    (List.sublist_mergeSort h.trans h.total hsame List.filter_sublist).filter (rank · = k)
  rw [List.filter_filter, List.filter_congr fun _ _ => Bool.and_self _] at hsub
  have hperm := (List.mergeSort_perm xs before).filter (rank · = k)
  exact (hsub.eq_of_length hperm.length_eq.symm).symm

theorem mem_iff_of_filter_eq
    (hfilter : ∀ k, xs.filter (rank · = k) = ys.filter (rank · = k)) (a : α) :
    a ∈ xs ↔ a ∈ ys := by
  have hsame : a ∈ xs.filter (rank · = rank a) ↔ a ∈ ys.filter (rank · = rank a) := by
    rw [hfilter]
  simpa using hsame

theorem Ranks.eq_of_filter_eq (h : Ranks before rank)
    (hxs : xs.Pairwise fun a b => before a b) (hys : ys.Pairwise fun a b => before a b)
    (hfilter : ∀ k, xs.filter (rank · = k) = ys.filter (rank · = k)) : xs = ys := by
  have hmem := mem_iff_of_filter_eq hfilter
  induction xs generalizing ys with
  | nil =>
    cases ys with
    | nil => rfl
    | cons b ys => exact absurd ((hmem b).mpr List.mem_cons_self) List.not_mem_nil
  | cons a xs ih =>
    cases ys with
    | nil => exact absurd ((hmem a).mp List.mem_cons_self) List.not_mem_nil
    | cons b ys =>
      obtain ⟨hfirst, hrest⟩ := List.pairwise_cons.mp hxs
      obtain ⟨hfirst', hrest'⟩ := List.pairwise_cons.mp hys
      have hab : before a b := by
        rcases List.mem_cons.mp ((hmem b).mpr List.mem_cons_self) with rfl | hb
        · exact h.congr _ _ rfl
        · exact hfirst b hb
      have hba : before b a := by
        rcases List.mem_cons.mp ((hmem a).mp List.mem_cons_self) with rfl | ha
        · exact h.congr _ _ rfl
        · exact hfirst' a ha
      -- The first entries have one rank, so that they are the first ones of that rank, too.
      have hrank := h.antisymm a b hab hba
      have hhead := hfilter (rank b)
      rw [List.filter_cons_of_pos (by simpa using hrank), List.filter_cons_of_pos (by simp)]
        at hhead
      obtain ⟨rfl, -⟩ := List.cons.inj hhead
      have htail : ∀ k, xs.filter (rank · = k) = ys.filter (rank · = k) := by
        intro k
        have hk := hfilter k
        by_cases hfront : rank a = k
        · rw [List.filter_cons_of_pos (by simpa using hfront),
            List.filter_cons_of_pos (by simpa using hfront)] at hk
          exact (List.cons.inj hk).2
        · rwa [List.filter_cons_of_neg (by simpa using hfront),
            List.filter_cons_of_neg (by simpa using hfront)] at hk
      rw [ih hrest hrest' htail (mem_iff_of_filter_eq htail)]

/-- Lists are sorted alike if they have the same entries of every rank, in the same order. -/
theorem Ranks.mergeSort_congr (h : Ranks before rank)
    (hfilter : ∀ k, xs.filter (rank · = k) = ys.filter (rank · = k)) :
    xs.mergeSort before = ys.mergeSort before := by
  apply h.eq_of_filter_eq (List.pairwise_mergeSort h.trans h.total xs)
    (List.pairwise_mergeSort h.trans h.total ys)
  intro k
  rw [h.filter_mergeSort, h.filter_mergeSort, hfilter]

theorem Ranks.mergeSort_filter (h : Ranks before rank) (xs : List α) (p : α → Bool) :
    (xs.filter p).mergeSort before = (xs.mergeSort before).filter p := by
  apply h.eq_of_filter_eq (List.pairwise_mergeSort h.trans h.total _)
    ((List.pairwise_mergeSort h.trans h.total xs).filter p)
  intro k
  rw [h.filter_mergeSort, List.filter_comm, ← h.filter_mergeSort xs k, List.filter_comm]

theorem ranks_natKey (key : α → Nat) : Ranks (fun a b => decide (key a ≤ key b)) key where
  trans a b c hab hbc := by
    simp only [decide_eq_true_eq] at *
    omega
  total a b := by
    simp only [Bool.or_eq_true, decide_eq_true_eq]
    omega
  antisymm a b hab hba := by
    simp only [decide_eq_true_eq] at *
    omega
  congr a b hab := by
    simp only [decide_eq_true_eq]
    omega

theorem eq_of_perm_of_length_le_one (hperm : xs.Perm ys) (hshort : ys.length ≤ 1) : xs = ys := by
  match ys with
  | [] => exact hperm.eq_nil
  | [a] => exact List.perm_singleton.mp hperm
  | _ :: _ :: _ => simp at hshort

/-- Entries that each have a rank of their own are sorted alike in whatever order they stand between
whatever else. -/
theorem mergeSort_append_perm {key : α → Nat} (front back : List α) (hperm : xs.Perm ys)
    (hapart : (ys.map key).Nodup) :
    (front ++ (xs ++ back)).mergeSort (fun a b => decide (key a ≤ key b)) =
      (front ++ (ys ++ back)).mergeSort (fun a b => decide (key a ≤ key b)) := by
  apply (ranks_natKey key).mergeSort_congr
  intro k
  have hshort : (ys.filter (key · = k)).length ≤ 1 := by
    have hnodup : ((ys.filter (key · = k)).map key).Nodup :=
      hapart.sublist (List.filter_sublist.map key)
    have hsingle : ∀ n ∈ (ys.filter (key · = k)).map key, n = k := by
      intro n hn
      obtain ⟨a, ha, rfl⟩ := List.mem_map.mp hn
      exact of_decide_eq_true (List.mem_filter.mp ha).2
    rw [List.eq_replicate_of_mem hsingle, List.nodup_replicate] at hnodup
    rwa [List.length_map] at hnodup
  have hsame := eq_of_perm_of_length_le_one (hperm.filter (key · = k)) hshort
  simp only [List.filter_append, hsame]

end CompilingProxy.Sorting
