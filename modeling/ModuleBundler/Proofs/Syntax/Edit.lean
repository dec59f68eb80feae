import Mathlib.Order.Nat
import ModuleBundler.Syntax.Edit

/-!
# What an edit is good for

Whoever is told of an edit relies on three things: that it leads from the one content to the other
(`Edit.Turns`), that the lines and columns in it say the same as its offsets, and that it does not
replace more than it has to. All three hold of the edit between any two contents, and there is one
whenever they are different.

* `Edit.turns_of_between?` rests on what the two contents share being alike (`take_sharedLength`),
  and on the end being looked for behind the front only.
* `Edit.le_of_between?` rests on nothing longer being shared (`le_sharedLength_iff`). The front is
  taken as long as possible before the end is, and this is not a loss: what another edit shares more
  at the end, it shares less at the front.
-/

namespace ModuleBundler

variable {old new content : Bytes} {m n : Nat} {e e' : Edit}

/-! ### What is shared at the front -/

theorem sharedLength_le (old new : Bytes) :
    sharedLength old new ≤ old.length ∧ sharedLength old new ≤ new.length := by
  fun_induction sharedLength old new with
  | case1 a as bs ih =>
    simp only [List.length_cons]
    omega
  | case2 => exact ⟨Nat.zero_le _, Nat.zero_le _⟩
  | case3 => exact ⟨Nat.zero_le _, Nat.zero_le _⟩

/-- **What is shared is what both start with**, as far as both go. -/
theorem le_sharedLength_iff (hold : n ≤ old.length) (hnew : n ≤ new.length) :
    n ≤ sharedLength old new ↔ old.take n = new.take n := by
  induction n generalizing old new with
  | zero => simp
  | succ n ih =>
    obtain ⟨a, as, rfl⟩ := List.exists_cons_of_length_pos (Nat.zero_lt_of_lt hold)
    obtain ⟨b, bs, rfl⟩ := List.exists_cons_of_length_pos (Nat.zero_lt_of_lt hnew)
    have hrest := ih (Nat.le_of_succ_le_succ hold) (Nat.le_of_succ_le_succ hnew)
    rw [sharedLength, List.take_succ_cons, List.take_succ_cons, List.cons.injEq, ← hrest]
    split <;> simp [*]

theorem take_sharedLength (old new : Bytes) :
    old.take (sharedLength old new) = new.take (sharedLength old new) :=
  (le_sharedLength_iff (sharedLength_le old new).1 (sharedLength_le old new).2).1 le_rfl

/-! ### What is shared at the end, behind the front -/

/-- How many bytes two contents share at the end, behind the first `m` of each. -/
def sharedBehind (m : Nat) (old new : Bytes) : Nat :=
  sharedLength (old.drop m).reverse (new.drop m).reverse

theorem sharedBehind_le (m : Nat) (old new : Bytes) :
    sharedBehind m old new ≤ old.length - m ∧ sharedBehind m old new ≤ new.length - m := by
  simpa [sharedBehind] using sharedLength_le (old.drop m).reverse (new.drop m).reverse

theorem take_reverse_drop (hn : n ≤ content.length - m) :
    (content.drop m).reverse.take n = (content.drop (content.length - n)).reverse := by
  rw [List.take_reverse, List.drop_drop, List.length_drop]
  rcases Nat.le_total m content.length with hle | hle
  · congr 2
    omega
  · rw [List.drop_eq_nil_of_le (by omega), List.drop_eq_nil_of_le (by omega)]

theorem le_sharedBehind_iff (hold : n ≤ old.length - m) (hnew : n ≤ new.length - m) :
    n ≤ sharedBehind m old new ↔
      old.drop (old.length - n) = new.drop (new.length - n) := by
  rw [sharedBehind, le_sharedLength_iff (by simpa using hold) (by simpa using hnew),
    take_reverse_drop hold, take_reverse_drop hnew, List.reverse_inj]

theorem drop_sharedBehind (m : Nat) (old new : Bytes) :
    old.drop (old.length - sharedBehind m old new) =
      new.drop (new.length - sharedBehind m old new) :=
  (le_sharedBehind_iff (sharedBehind_le m old new).1 (sharedBehind_le m old new).2).1 le_rfl

/-- What is shared at the end is shared from any later place on. -/
theorem drop_length_sub_of_le (hmn : m ≤ n)
    (h : old.drop (old.length - n) = new.drop (new.length - n)) (hold : n ≤ old.length)
    (hnew : n ≤ new.length) : old.drop (old.length - m) = new.drop (new.length - m) := by
  have hlater (content : Bytes) (hn : n ≤ content.length) :
      content.drop (content.length - m) = (content.drop (content.length - n)).drop (n - m) := by
    rw [List.drop_drop]
    congr 1
    omega
  rw [hlater old hold, hlater new hnew, h]

/-! ### Edits -/

namespace Edit

/-- The edit leads from one content to the other: they are alike outside of what it says was
replaced, and it says where. -/
structure Turns (e : Edit) (old new : Bytes) : Prop where
  start_le_oldEnd : e.start ≤ e.oldEnd
  oldEnd_le : e.oldEnd ≤ old.length
  start_le_newEnd : e.start ≤ e.newEnd
  newEnd_le : e.newEnd ≤ new.length
  /-- The contents are alike up to the start. -/
  front : old.take e.start = new.take e.start
  /-- They are alike from the ends on. -/
  behind : old.drop e.oldEnd = new.drop e.newEnd
  startPoint_eq : e.startPoint = .ofOffset old e.start
  oldEndPoint_eq : e.oldEndPoint = .ofOffset old e.oldEnd
  newEndPoint_eq : e.newEndPoint = .ofOffset new e.newEnd

/-- What stays behind has the same length in both contents. -/
theorem Turns.length_behind (h : e.Turns old new) :
    old.length - e.oldEnd = new.length - e.newEnd := by
  simpa using congrArg List.length h.behind

theorem between?_eq_none : between? old new = none ↔ old = new := by
  rw [between?]
  split <;> simp [*]

theorem offsets_of_between? (h : between? old new = some e) :
    e.start = sharedLength old new ∧
      e.oldEnd = old.length - sharedBehind e.start old new ∧
      e.newEnd = new.length - sharedBehind e.start old new := by
  rw [between?] at h
  split at h
  · cases h
  · obtain rfl := Option.some.inj h
    exact ⟨rfl, rfl, rfl⟩

/-- **The edit between two contents leads from the one to the other.** -/
theorem turns_of_between? (h : between? old new = some e) : e.Turns old new := by
  obtain ⟨hstart, holdEnd, hnewEnd⟩ := offsets_of_between? h
  obtain ⟨hfront, hfront'⟩ := sharedLength_le old new
  obtain ⟨hbehind, hbehind'⟩ := sharedBehind_le e.start old new
  rw [between?] at h
  split at h
  · cases h
  · obtain rfl := Option.some.inj h
    exact {
      start_le_oldEnd := by omega
      oldEnd_le := by omega
      start_le_newEnd := by omega
      newEnd_le := by omega
      front := take_sharedLength old new
      behind := drop_sharedBehind _ old new
      startPoint_eq := rfl
      oldEndPoint_eq := rfl
      newEndPoint_eq := rfl }

/-- **No edit between two contents replaces less**, neither of the old content nor of the new one.
-/
theorem le_of_between? (h : between? old new = some e) (h' : e'.Turns old new) :
    e.oldEnd - e.start ≤ e'.oldEnd - e'.start ∧ e.newEnd - e.start ≤ e'.newEnd - e'.start := by
  obtain ⟨hstart, holdEnd, hnewEnd⟩ := offsets_of_between? h
  obtain ⟨hfront, hfront'⟩ := sharedLength_le old new
  obtain ⟨hbehind, hbehind'⟩ := sharedBehind_le e.start old new
  have hlengths := h'.length_behind
  obtain ⟨hle, hold, hle', hnew, hshared, hrest, -, -, -⟩ := h'
  have hstart' : e'.start ≤ e.start :=
    hstart ▸ (le_sharedLength_iff (hle.trans hold) (hle'.trans hnew)).2 hshared
  -- what the other edit leaves at the end, as far as it lies behind the front
  let kept := min (old.length - e'.oldEnd) (min (old.length - e.start) (new.length - e.start))
  have hkept : kept ≤ sharedBehind e.start old new := by
    refine (le_sharedBehind_iff (by omega) (by omega)).2 ?_
    refine drop_length_sub_of_le (n := old.length - e'.oldEnd) (by omega) ?_ (by omega) (by omega)
    have hold' : old.length - (old.length - e'.oldEnd) = e'.oldEnd := by omega
    have hnew' : new.length - (old.length - e'.oldEnd) = e'.newEnd := by omega
    rw [hold', hnew', hrest]
  omega

end Edit

end ModuleBundler
