import ModuleBundler.Syntax.Cursor

/-!
# The order in which a cursor visits a tree

A cursor knows nothing of what it has visited. It goes down, on and back up by what stands next to
it, and yet visits every node once: each before its parts, and the parts one after the other. This
order is `Node.preorder`, said by recursion on the tree and without a cursor.

The walk is compared with it by `Cursor.remaining`, the nodes from the present one on. One step
takes the first of them away (`Cursor.remaining_of_next?`), however far up it has to go for the next
one, and so the whole walk goes through all of them (`Cursor.visits_ofRoot`).
-/

namespace ModuleBundler

namespace Node

variable {n m c : Node}

/-! ### Nodes and what stands below them -/

mutual

/-- The node and all below it, each before its parts. -/
def preorder : Node → List Node
  | mk kind label start stop children => mk kind label start stop children :: preorders children

/-- Nodes and all below them. -/
def preorders : List Node → List Node
  | [] => []
  | n :: rest => preorder n ++ preorders rest

end

/-- What holds of a node if it holds of its parts, holds of all nodes. -/
theorem induction {P : Node → Prop}
    (h : ∀ kind label start stop children, (∀ c ∈ children, P c) →
      P (mk kind label start stop children)) : ∀ n, P n
  | mk kind label start stop children =>
    h kind label start stop children fun c _hc ↦ induction h c
termination_by n => sizeOf n
decreasing_by
  have := List.sizeOf_lt_of_mem _hc
  simp only [mk.sizeOf_spec]
  omega

theorem preorders_eq (nodes : List Node) : preorders nodes = nodes.flatMap preorder := by
  induction nodes with
  | nil => rfl
  | cons n rest ih => rw [preorders, ih, List.flatMap_cons]

theorem preorder_eq (n : Node) : n.preorder = n :: n.children.flatMap preorder := by
  obtain ⟨kind, label, start, stop, children⟩ := n
  rw [preorder, preorders_eq]
  rfl

theorem mem_preorder : m ∈ n.preorder ↔ m = n ∨ ∃ c ∈ n.children, m ∈ c.preorder := by
  rw [preorder_eq, List.mem_cons, List.mem_flatMap]

theorem mem_preorder_self (n : Node) : n ∈ n.preorder :=
  mem_preorder.2 (Or.inl rfl)

theorem mem_preorder_of_child (hc : c ∈ n.children) (hm : m ∈ c.preorder) : m ∈ n.preorder :=
  mem_preorder.2 (Or.inr ⟨c, hc, hm⟩)

theorem mem_preorder_trans (hc : c ∈ n.preorder) (hm : m ∈ c.preorder) : m ∈ n.preorder := by
  induction n using Node.induction with
  | h kind label start stop children ih =>
    rcases mem_preorder.1 hc with rfl | ⟨d, hd, hc⟩
    · exact hm
    · exact mem_preorder_of_child hd (ih d hd hc)

end Node

namespace Cursor

variable {c c' : Cursor}

/-! ### Steps and walks -/

/-- The nodes that are not visited yet: the present one, those below it and those that come behind.
-/
def remaining (c : Cursor) : List Node :=
  (c.node :: c.ahead).flatMap Node.preorder

/-- **A step takes the present node away**, and no other one. -/
theorem remaining_of_next? (h : c.next? = some c') : c.remaining = c.node :: c'.remaining := by
  rw [remaining, remaining, ahead_of_next? h, List.flatMap_cons, Node.preorder_eq, List.cons_append,
    List.flatMap_append]

theorem ahead_eq_nil_of_leave? (h : c.leave? = none) : c.ahead = [] := by
  fun_induction leave? c with
  | case1 => cases h
  | case2 c hlast up hup ih => rw [← ahead_of_parent? hlast hup, ih h]
  | case3 c hlast hroot =>
    rw [parent?] at hroot
    split at hroot
    · simp [ahead, behind_eq_nil hlast, *]
    · cases hroot

/-- Where the walk ends, nothing is left. -/
theorem remaining_of_next?_eq_none (h : c.next? = none) : c.remaining = [c.node] := by
  rw [next?] at h
  split at h
  · cases h
  · rw [remaining, ahead_eq_nil_of_leave? h, List.flatMap_singleton, Node.preorder_eq,
      children_eq_nil ‹_›, List.flatMap_nil]

/-- A walk visits the nodes that are not visited yet, each of them once. -/
theorem visits_eq_remaining (c : Cursor) : c.visits = c.remaining := by
  fun_induction visits c with
  | case1 c next hnext ih => rw [remaining_of_next? hnext, ih]
  | case2 c hnext => rw [remaining_of_next?_eq_none hnext]

/-- **A walk from the root visits the nodes of the tree in pre-order.** -/
theorem visits_ofRoot (tree : Node) : (ofRoot tree).visits = tree.preorder := by
  rw [visits_eq_remaining, remaining]
  exact List.flatMap_singleton ..

end Cursor

end ModuleBundler
