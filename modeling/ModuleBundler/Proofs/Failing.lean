import Mathlib.Data.List.Forall2

/-!
# Computations that may fail

A computation made of several ends well if each of them does, and fails where the first of them
fails. This is said of two computations one after the other, and of a fold, which takes one step for
each item of a list. Where answers go with the items of a list (`List.Forall₂`), each of them is for
one of the items.
-/

namespace ModuleBundler

variable {ε α β : Type} {e : ε}

/-- A computation that succeeds consists of two that do. -/
theorem bind_eq_ok {x : Except ε α} {f : α → Except ε β} {b : β} :
    x >>= f = .ok b ↔ ∃ a, x = .ok a ∧ f a = .ok b := by
  cases x <;> simp [bind, Except.bind]

/-- A computation fails where its first part does, or the second. -/
theorem bind_eq_error {x : Except ε α} {f : α → Except ε β} :
    x >>= f = .error e ↔ x = .error e ∨ ∃ a, x = .ok a ∧ f a = .error e := by
  cases x <;> simp [bind, Except.bind]

variable {as : List α} {bs : List β}

/-- What goes with the items of a list goes with one of them. -/
theorem exists_of_forall₂ {R : α → β → Prop} {b : β} (h : List.Forall₂ R as bs) (hb : b ∈ bs) :
    ∃ a ∈ as, R a b := by
  induction h with
  | nil => exact absurd hb List.not_mem_nil
  | cons hab _ ih =>
    rcases List.mem_cons.1 hb with rfl | hb
    · exact ⟨_, List.mem_cons_self, hab⟩
    · obtain ⟨a, ha, hab⟩ := ih hb
      exact ⟨a, List.mem_cons_of_mem _ ha, hab⟩

/-! ### Folds -/

variable {step : β → α → Except ε β} {b b' : β}

/-- What every step keeps holds in the end, if a fold succeeds. -/
theorem foldlM_keeps {P : β → Prop} (hstep : ∀ {a b b'}, P b → step b a = .ok b' → P b')
    (hb : P b) (h : as.foldlM step b = .ok b') : P b' := by
  induction as generalizing b with
  | nil =>
    obtain rfl := Except.ok.inj h
    exact hb
  | cons a as ih =>
    rw [List.foldlM_cons] at h
    obtain ⟨next, hnext, h⟩ := bind_eq_ok.1 h
    exact ih (hstep hb hnext) h

/-- A fold that succeeds takes a step at each item. -/
theorem exists_of_foldlM_eq_ok (h : as.foldlM step b = .ok b') :
    ∀ a ∈ as, ∃ c c', step c a = .ok c' := by
  induction as generalizing b with
  | nil => exact nofun
  | cons a as ih =>
    rw [List.foldlM_cons] at h
    obtain ⟨next, hnext, h⟩ := bind_eq_ok.1 h
    exact List.forall_mem_cons.2 ⟨⟨b, next, hnext⟩, ih h⟩

/-- A fold that fails does so at one of the items. -/
theorem exists_of_foldlM_eq_error (h : as.foldlM step b = .error e) :
    ∃ a ∈ as, ∃ c, step c a = .error e := by
  induction as generalizing b with
  | nil => cases h
  | cons a as ih =>
    rw [List.foldlM_cons] at h
    rcases bind_eq_error.1 h with hfirst | ⟨next, -, h⟩
    · exact ⟨a, List.mem_cons_self, b, hfirst⟩
    · obtain ⟨a', ha', hrest⟩ := ih h
      exact ⟨a', List.mem_cons_of_mem _ ha', hrest⟩

end ModuleBundler
