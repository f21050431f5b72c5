/-!
# Outcomes of computations that can fail
-/

namespace CompilingProxy

variable {ε α β : Type}

/-- A computation in two steps gives a result when both steps do. -/
theorem bind_eq_ok_iff {x : Except ε α} {f : α → Except ε β} {b : β} :
    x >>= f = .ok b ↔ ∃ a, x = .ok a ∧ f a = .ok b := by
  cases x with
  | error e =>
    constructor
    · intro h
      cases h
    · rintro ⟨a, h, -⟩
      cases h
  | ok a =>
    constructor
    · intro h
      exact ⟨a, rfl, h⟩
    · rintro ⟨a, h, hf⟩
      cases h
      exact hf

/-- Every result that the computation can give is of the kind. -/
def Yields (kind : α → Prop) (x : Except ε α) : Prop := ∀ a, x = .ok a → kind a

namespace Yields

variable {kind : β → Prop}

theorem pure {b : β} (h : kind b) : Yields kind (pure b : Except ε β) := by
  intro a ha
  cases ha
  exact h

/-- A second step may count on what the first one yields. -/
theorem andThen {kind' : α → Prop} {x : Except ε α} {f : α → Except ε β} (hx : Yields kind' x)
    (hf : ∀ a, kind' a → Yields kind (f a)) : Yields kind (x >>= f) := by
  intro b hb
  obtain ⟨a, ha, hb⟩ := bind_eq_ok_iff.mp hb
  exact hf a (hx a ha) b hb

theorem bind {x : Except ε α} {f : α → Except ε β} (hf : ∀ a, Yields kind (f a)) :
    Yields kind (x >>= f) :=
  have hx : Yields (fun _ => True) x := fun _ _ => trivial
  hx.andThen fun a _ => hf a

theorem ite {c : Prop} [Decidable c] {x y : Except ε β} (hx : Yields kind x)
    (hy : Yields kind y) : Yields kind (if c then x else y) := by
  split
  · exact hx
  · exact hy

theorem mapM {f : α → Except ε β} (hf : ∀ a, Yields kind (f a)) (as : List α) :
    Yields (fun bs => ∀ b ∈ bs, kind b) (as.mapM f) := by
  induction as with
  | nil =>
    rw [List.mapM_nil]
    exact pure fun b hb => by cases hb
  | cons a as ih =>
    rw [List.mapM_cons]
    refine (hf a).andThen fun b hb => ih.andThen fun bs hbs => pure ?_
    exact List.forall_mem_cons.mpr ⟨hb, hbs⟩

end Yields

/-- The computation gives a result, and one of the kind. -/
def Gives (kind : α → Prop) (x : Except ε α) : Prop := ∃ a, x = .ok a ∧ kind a

namespace Gives

variable {kind kind' : α → Prop} {x : Except ε α}

theorem pure {a : α} (h : kind a) : Gives kind (pure a : Except ε α) := ⟨a, rfl, h⟩

theorem imp (hx : Gives kind x) (h : ∀ a, kind a → kind' a) : Gives kind' x := by
  obtain ⟨a, rfl, ha⟩ := hx
  exact ⟨a, rfl, h a ha⟩

/-- A second step may count on what the first one gives. -/
theorem andThen {kind' : β → Prop} {f : α → Except ε β} (hx : Gives kind x)
    (hf : ∀ a, kind a → Gives kind' (f a)) : Gives kind' (x >>= f) := by
  obtain ⟨a, rfl, ha⟩ := hx
  exact hf a ha

theorem foldlM {f : α → β → Except ε α} {bs : List β}
    (hf : ∀ a, kind a → ∀ b ∈ bs, Gives kind (f a b)) {a : α} (ha : kind a) :
    Gives kind (bs.foldlM f a) := by
  induction bs generalizing a with
  | nil => exact pure ha
  | cons b bs ih =>
    rw [List.foldlM_cons]
    exact (hf a ha b List.mem_cons_self).andThen fun a' ha' =>
      ih (fun a ha b hb => hf a ha b (List.mem_cons_of_mem _ hb)) ha'

end Gives

theorem eq_ok_of_toOption {x : Except ε α} {a : α} (h : x.toOption = some a) : x = .ok a := by
  cases x with
  | error e => cases h
  | ok a' =>
    cases h
    rfl

theorem eq_ok_of_fst_toOption {x : Except ε α × β} {a : α} (h : x.1.toOption = some a) :
    x = (.ok a, x.2) :=
  Prod.ext (eq_ok_of_toOption h) rfl

end CompilingProxy
