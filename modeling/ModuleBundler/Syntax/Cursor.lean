import ModuleBundler.Syntax.Node

/-!
# Cursors

A cursor is at one node of a tree, and moves to the first part of it, to the next sibling or to the
node above. It never leaves the tree that it started from.

To visit all nodes, it goes down as long as there are parts. Where there are none it goes on with
the next sibling, and where there is no sibling either it goes back up until some node above has
one. The walk is over when it comes back to the root in this way.
-/

namespace ModuleBundler

/-- A place in a tree. -/
structure Cursor where
  /-- The node there. -/
  node : Node
  /-- The siblings behind it. -/
  behind : List Node
  /-- The nodes above it, from the nearest on, each with the siblings behind it. -/
  above : List (Node × List Node)

namespace Cursor

/-- The place of the root of a tree. -/
def ofRoot (tree : Node) : Cursor :=
  ⟨tree, [], []⟩

/-! ### Moves -/

/-- The first part of the node. -/
def firstChild? (c : Cursor) : Option Cursor :=
  match c.node.children with
  | [] => none
  | first :: rest => some ⟨first, rest, (c.node, c.behind) :: c.above⟩

/-- The next sibling of the node. -/
def nextSibling? (c : Cursor) : Option Cursor :=
  match c.behind with
  | [] => none
  | next :: rest => some ⟨next, rest, c.above⟩

/-- The node above. -/
def parent? (c : Cursor) : Option Cursor :=
  match c.above with
  | [] => none
  | (node, behind) :: above => some ⟨node, behind, above⟩

/-- The nodes that come behind the node and all below it: the roots of what is still to be visited.
-/
def ahead (c : Cursor) : List Node :=
  c.behind ++ c.above.flatMap Prod.snd

variable {c c' : Cursor}

theorem ahead_of_firstChild? (h : c.firstChild? = some c') :
    c'.node :: c'.ahead = c.node.children ++ c.ahead := by
  rw [firstChild?] at h
  split at h
  · cases h
  · obtain rfl := Option.some.inj h
    simp [ahead, *]

theorem children_eq_nil (h : c.firstChild? = none) : c.node.children = [] := by
  rw [firstChild?] at h
  split at h
  · assumption
  · cases h

theorem ahead_of_nextSibling? (h : c.nextSibling? = some c') : c'.node :: c'.ahead = c.ahead := by
  rw [nextSibling?] at h
  split at h
  · cases h
  · obtain rfl := Option.some.inj h
    simp [ahead, *]

theorem behind_eq_nil (h : c.nextSibling? = none) : c.behind = [] := by
  rw [nextSibling?] at h
  split at h
  · assumption
  · cases h

/-- Up from the last of its siblings, nothing is passed over and nothing is visited again. -/
theorem ahead_of_parent? (hlast : c.nextSibling? = none) (h : c.parent? = some c') :
    c'.ahead = c.ahead := by
  rw [parent?] at h
  split at h
  · cases h
  · obtain rfl := Option.some.inj h
    simp [ahead, behind_eq_nil hlast, *]

theorem length_above_of_parent? (h : c.parent? = some c') : c'.above.length < c.above.length := by
  rw [parent?] at h
  split at h
  · cases h
  · obtain rfl := Option.some.inj h
    simp [*]

/-! ### The walk -/

/-- The next sibling of the node or of the nearest node above it that has one. -/
def leave? (c : Cursor) : Option Cursor :=
  match c.nextSibling? with
  | some next => some next
  | none =>
    match _h : c.parent? with
    | some up => up.leave?
    | none => none
termination_by c.above.length
decreasing_by exact length_above_of_parent? _h

/-- Where the walk goes from here. -/
def next? (c : Cursor) : Option Cursor :=
  match c.firstChild? with
  | some first => some first
  | none => c.leave?

theorem ahead_of_leave? (h : c.leave? = some c') : c'.node :: c'.ahead = c.ahead := by
  fun_induction leave? c with
  | case1 c next hnext =>
    obtain rfl := Option.some.inj h
    exact ahead_of_nextSibling? hnext
  | case2 c hlast up hup ih => rw [ih h, ahead_of_parent? hlast hup]
  | case3 => cases h

/-- **One step visits one node.** Ahead of the next node is what is ahead of this one, with the
parts of this one in front. -/
theorem ahead_of_next? (h : c.next? = some c') :
    c'.node :: c'.ahead = c.node.children ++ c.ahead := by
  rw [next?] at h
  split at h
  · obtain rfl := Option.some.inj h
    exact ahead_of_firstChild? ‹_›
  · rw [children_eq_nil ‹_›, List.nil_append, ahead_of_leave? h]

/-- The nodes that the walk visits from here on. -/
def visits (c : Cursor) : List Node :=
  match _h : c.next? with
  | some next => c.node :: next.visits
  | none => [c.node]
termination_by Node.sizes (c.node :: c.ahead)
decreasing_by
  have hsizes := congrArg Node.sizes (ahead_of_next? _h)
  rw [hsizes, Node.sizes_append, Node.sizes, Node.size_eq]
  omega

end Cursor

end ModuleBundler
