import ModuleBundler.Graph.Basic

/-!
# Orders on a graph

A bundle lists modules as they were found, or a module after what it imports. The second order is
the one in which a depth-first walk along dependencies leaves the modules; on a cycle, the edge that
closes it has no say.

The walk keeps a stack of the modules it has entered and not left, each with the position of the
dependency to look at next. Every place it looks up may lie outside the graph, and then there is no
order: a dependency that names no module is not passed over.

A step enters a module, or it leaves fewer dependencies to look at on the stack, so the walk ends.
-/

namespace ModuleBundler

/-- The order in which a bundle lists its modules. -/
inductive Order where
  /-- As they were found. -/
  | discovery
  /-- After what they import. -/
  | dependency
  deriving DecidableEq, Repr, Inhabited

/-- A module that a walk has entered and not left. -/
structure Frame where
  /-- The place of the module. -/
  place : Nat
  /-- The position of the dependency to look at next. -/
  next : Nat := 0
  deriving DecidableEq, Repr

/-- Where a walk along dependencies stands. -/
structure Traversal where
  /-- For every place, whether its module was entered. -/
  entered : List Bool
  /-- The modules that were entered and not left, the last one first. -/
  stack : List Frame := []
  /-- The places of the modules that were left, in order. -/
  left : List Nat := []
  deriving DecidableEq, Repr

/-- Enters the module at a place. -/
def Traversal.enter (t : Traversal) (i : Nat) : Traversal :=
  { t with entered := t.entered.set i true, stack := ⟨i, 0⟩ :: t.stack }

namespace Graph

/-- One step of a walk: the module that was entered last looks at its next dependency, or is left if
it has looked at all. `none` if a place is outside the graph. -/
def step (g : Graph) (t : Traversal) : Option Traversal :=
  match t.stack with
  | [] => some t
  | ⟨place, next⟩ :: rest =>
    match g.modules[place]? with
    | none => none
    | some m =>
      match m.dependencies[next]? with
      | none => some { t with stack := rest, left := t.left ++ [place] }
      | some dependency =>
        match t.entered[dependency]? with
        | none => none
        | some true => some { t with stack := ⟨place, next + 1⟩ :: rest }
        | some false => some ({ t with stack := ⟨place, next + 1⟩ :: rest }.enter dependency)

/-- How many steps a module on the stack still takes, if nothing is entered in between. -/
def pending (g : Graph) (frame : Frame) : Nat :=
  (g.dependenciesOf frame.place).length - frame.next + 1

/-- How many steps the modules on the stack still take, if nothing is entered in between. -/
def pendingOf (g : Graph) (stack : List Frame) : Nat :=
  stack.foldr (fun frame steps ↦ g.pending frame + steps) 0

/-- **What a step can do.** The module on top is left, or looks at a dependency that was entered
before, or enters one that was not. -/
theorem step_cases {g : Graph} {t t' : Traversal} {frame : Frame} {rest : List Frame}
    (hstack : t.stack = frame :: rest) (h : g.step t = some t') :
    (frame.place < g.size ∧ (g.dependenciesOf frame.place)[frame.next]? = none ∧
      t' = { t with stack := rest, left := t.left ++ [frame.place] }) ∨
    ∃ dependency, (g.dependenciesOf frame.place)[frame.next]? = some dependency ∧
      ((t.entered[dependency]? = some true ∧
          t' = { t with stack := ⟨frame.place, frame.next + 1⟩ :: rest }) ∨
        (t.entered[dependency]? = some false ∧
          t' = ({ t with stack := ⟨frame.place, frame.next + 1⟩ :: rest }.enter dependency))) := by
  obtain ⟨place, next⟩ := frame
  rcases hm : g.modules[place]? with - | m
  · simp [step, hstack, hm] at h
  · have hdeps : g.dependenciesOf place = m.dependencies := by simp [dependenciesOf, hm]
    rw [hdeps]
    rcases hd : m.dependencies[next]? with - | dependency
    · refine Or.inl ⟨(List.getElem?_eq_some_iff.1 hm).1, rfl, ?_⟩
      simpa [step, hstack, hm, hd] using h.symm
    · refine Or.inr ⟨dependency, rfl, ?_⟩
      rcases he : t.entered[dependency]? with - | _ | _
      · simp [step, hstack, hm, hd, he] at h
      · exact Or.inr ⟨rfl, by simpa [step, hstack, hm, hd, he] using h.symm⟩
      · exact Or.inl ⟨rfl, by simpa [step, hstack, hm, hd, he] using h.symm⟩

/-- A step enters a module, or leaves fewer steps to the modules on the stack. -/
theorem step_decreases {g : Graph} {t t' : Traversal} (hne : t.stack ≠ [])
    (h : g.step t = some t') :
    Prod.Lex (· < ·) (· < ·) (t'.entered.count false, g.pendingOf t'.stack)
      (t.entered.count false, g.pendingOf t.stack) := by
  obtain ⟨frame, rest, hstack⟩ := List.exists_cons_of_ne_nil hne
  obtain ⟨-, hd, rfl⟩ | ⟨d, hd, ⟨-, rfl⟩ | ⟨he, rfl⟩⟩ := step_cases hstack h
  · refine Prod.Lex.right _ ?_
    simp only [hstack, pendingOf, List.foldr_cons, pending]
    omega
  · refine Prod.Lex.right _ ?_
    have hlt := (List.getElem?_eq_some_iff.1 hd).1
    simp only [hstack, pendingOf, List.foldr_cons, pending]
    omega
  · refine Prod.Lex.left _ _ ?_
    obtain ⟨hlt, hval⟩ := List.getElem?_eq_some_iff.1 he
    have hpos : 0 < t.entered.count false := List.count_pos_iff.2 (hval ▸ List.getElem_mem hlt)
    have hcount : (t.entered.set d true).count false = t.entered.count false - 1 := by
      rw [List.count_set hlt, hval]
      rfl
    show (t.entered.set d true).count false < t.entered.count false
    omega

/-- Takes steps until the stack is empty. -/
def run (g : Graph) (t : Traversal) : Option Traversal :=
  if _hne : t.stack = [] then some t
  else
    match _h : g.step t with
    | none => none
    | some t' => g.run t'
termination_by (t.entered.count false, g.pendingOf t.stack)
decreasing_by exact step_decreases _hne _h

/-- Walks from the module at a place, unless it was entered before. -/
def search (g : Graph) (t : Traversal) (root : Nat) : Option Traversal :=
  match t.entered[root]? with
  | none => none
  | some true => some t
  | some false => g.run (t.enter root)

/-- The places of the modules in the order in which a walk from each of them in turn leaves them;
`none` if a dependency is no place of the graph. -/
def dependencyOrder? (g : Graph) : Option (List Nat) :=
  ((List.range g.size).foldlM g.search { entered := List.replicate g.size false }).map
    Traversal.left

/-- The places of the modules, in the given order. -/
def order (g : Graph) : Order → List Nat
  | .discovery => List.range g.size
  | .dependency => g.dependencyOrder?.getD []

end Graph

end ModuleBundler
