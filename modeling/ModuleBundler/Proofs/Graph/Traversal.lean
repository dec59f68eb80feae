import Mathlib.Data.List.Chain
import Mathlib.Data.List.Range
import Mathlib.Logic.Relation
import ModuleBundler.Graph.Order

/-!
# The order of dependencies

What the walk behind `Graph.dependencyOrder?` guarantees on a graph of any shape: with cycles, with
modules that import themselves, with parts that nothing links.

One invariant carries everything. `Traversal.Valid` says of a walk at any of its steps that

* a module was entered exactly if it is on the stack or was left, and nothing is listed twice;
* each module on the stack is a dependency of the one below it, so that **a module reaches whatever
  is above it on the stack**;
* the dependencies a module on the stack has looked at were entered;
* a dependency of a module that was left stands before it, or reaches it.

The last clause is the edge law of the order. When a module is left, it is on top of
the stack and all of its dependencies were entered; those that were not left before are on the
stack, and reach the top by the second clause. Nothing is assumed about cycles, so there is no case
of a walk that meets one.

`step` answers `none` where a place is outside the graph. That it never does is the *progress* half
of the step lemma, `Traversal.Valid.exists_step`; the other half is `Traversal.Valid.step`.
-/

namespace ModuleBundler

/-- The place `a` stands before the place `b` in a list. -/
def StandsBefore (l : List Nat) (a b : Nat) : Prop :=
  [a, b].Sublist l

theorem StandsBefore.append {l : List Nat} {a b : Nat} (h : StandsBefore l a b) (l' : List Nat) :
    StandsBefore (l ++ l') a b :=
  h.trans (List.sublist_append_left l l')

/-- What is listed stands before what comes behind the list. -/
theorem standsBefore_append {l l' : List Nat} {a b : Nat} (ha : a ∈ l) (hb : b ∈ l') :
    StandsBefore (l ++ l') a b :=
  List.Sublist.append (List.singleton_sublist.2 ha) (List.singleton_sublist.2 hb)

namespace Graph

/-- The module at place `u` imports the one at place `v`. -/
def DependsOn (g : Graph) (u v : Nat) : Prop :=
  v ∈ g.dependenciesOf u

/-- Every recorded dependency is the place of a module. -/
def InRange (g : Graph) : Prop :=
  ∀ m ∈ g.modules, ∀ v ∈ m.dependencies, v < g.size

instance (g : Graph) : Decidable g.InRange :=
  inferInstanceAs (Decidable (∀ m ∈ g.modules, ∀ v ∈ m.dependencies, v < g.size))

theorem dependenciesOf_eq {g : Graph} {u : Nat} {m : Module} (h : g.modules[u]? = some m) :
    g.dependenciesOf u = m.dependencies := by
  simp [dependenciesOf, h]

/-- Only places of modules have dependencies. -/
theorem DependsOn.exists_module {g : Graph} {u v : Nat} (h : g.DependsOn u v) :
    ∃ m, g.modules[u]? = some m ∧ v ∈ m.dependencies := by
  rcases hm : g.modules[u]? with - | m
  · simp [DependsOn, dependenciesOf, hm] at h
  · exact ⟨m, rfl, by rwa [DependsOn, dependenciesOf_eq hm] at h⟩

theorem DependsOn.lt_size {g : Graph} {u v : Nat} (h : g.DependsOn u v) : u < g.size := by
  obtain ⟨m, hm, -⟩ := h.exists_module
  exact (List.getElem?_eq_some_iff.1 hm).1

theorem InRange.lt_size {g : Graph} (hg : g.InRange) {u v : Nat} (h : g.DependsOn u v) :
    v < g.size := by
  obtain ⟨m, hm, hv⟩ := h.exists_module
  exact hg m (List.mem_of_getElem? hm) v hv

end Graph

namespace Traversal

/-- The places on the stack, the last one entered first. -/
def places (t : Traversal) : List Nat :=
  t.stack.map Frame.place

/-- What holds of a walk on the graph `g` at each of its steps. -/
structure Valid (g : Graph) (t : Traversal) : Prop where
  /-- There is a mark for every module. -/
  length_entered : t.entered.length = g.size
  /-- A module was entered if it is on the stack or was left, and only then. -/
  entered_iff : ∀ i, t.entered[i]? = some true ↔ i ∈ t.places ∨ i ∈ t.left
  /-- Nothing is listed twice. -/
  nodup : (t.left ++ t.places).Nodup
  /-- What is on the stack is a dependency of what is below it. -/
  chain : t.places.IsChain fun above below ↦ g.DependsOn below above
  /-- What a module on the stack has looked at was entered. -/
  looked : ∀ frame ∈ t.stack, ∀ v ∈ (g.dependenciesOf frame.place).take frame.next,
    t.entered[v]? = some true
  /-- What a module that was left imports stands before it or reaches it. -/
  ordered : ∀ u ∈ t.left, ∀ v, g.DependsOn u v →
    StandsBefore t.left v u ∨ Relation.TransGen g.DependsOn v u

variable {g : Graph} {t t' : Traversal}

/-! ### What the invariant says -/

theorem Valid.lt_size (h : Valid g t) {i : Nat} (hi : t.entered[i]? = some true) : i < g.size :=
  h.length_entered ▸ (List.getElem?_eq_some_iff.1 hi).1

/-- **A module reaches whatever is above it on the stack.** -/
theorem Valid.reaches_top (h : Valid g t) {top : Nat} {rest : List Nat}
    (hplaces : t.places = top :: rest) {v : Nat} (hv : v ∈ rest) :
    Relation.TransGen g.DependsOn v top := by
  have hchain : (top :: rest).IsChain fun above below ↦ Relation.TransGen g.DependsOn below above :=
    (hplaces ▸ h.chain).imp fun _ _ hab ↦ Relation.TransGen.single hab
  have : Trans (fun above below ↦ Relation.TransGen g.DependsOn below above)
      (fun above below ↦ Relation.TransGen g.DependsOn below above)
      (fun above below ↦ Relation.TransGen g.DependsOn below above) :=
    ⟨fun hab hbc ↦ hbc.trans hab⟩
  exact hchain.rel_cons hv

/-- When a module on top of the stack has looked at all it imports, each of these was left before
it, or reaches it. -/
theorem Valid.left_or_reaches (h : Valid g t) {frame : Frame} {rest : List Frame}
    (hstack : t.stack = frame :: rest) (hdone : (g.dependenciesOf frame.place)[frame.next]? = none)
    {v : Nat} (hv : g.DependsOn frame.place v) :
    v ∈ t.left ∨ Relation.TransGen g.DependsOn v frame.place := by
  have hplaces : t.places = frame.place :: rest.map Frame.place := by simp [places, hstack]
  have hentered : t.entered[v]? = some true := by
    refine h.looked frame (by simp [hstack]) v ?_
    rwa [List.take_of_length_le (List.getElem?_eq_none_iff.1 hdone)]
  rcases (h.entered_iff v).1 hentered with hon | hleft
  · rcases List.mem_cons.1 (hplaces ▸ hon) with rfl | hbelow
    · exact Or.inr (Relation.TransGen.single hv)
    · exact Or.inr (h.reaches_top hplaces hbelow)
  · exact Or.inl hleft

/-! ### What a step keeps -/

/-- Leaving the module on top, when it has looked at all it imports. -/
theorem Valid.leave (h : Valid g t) {frame : Frame} {rest : List Frame}
    (hstack : t.stack = frame :: rest)
    (hdone : (g.dependenciesOf frame.place)[frame.next]? = none) :
    Valid g { t with stack := rest, left := t.left ++ [frame.place] } := by
  have hplaces : t.places = frame.place :: rest.map Frame.place := by simp [places, hstack]
  refine ⟨h.length_entered, fun i ↦ ?_, ?_, ?_, fun f hf ↦ h.looked f (by simp [hstack, hf]),
    fun u hu v huv ↦ ?_⟩
  · rw [h.entered_iff, hplaces]
    simp only [places, List.mem_cons, List.mem_append, List.not_mem_nil, or_false]
    tauto
  · have hnodup := h.nodup
    rw [hplaces] at hnodup
    simpa [places] using hnodup
  · have hchain := h.chain
    rw [hplaces] at hchain
    exact hchain.tail
  · rcases List.mem_append.1 hu with hu | hu
    · exact (h.ordered u hu v huv).imp_left fun hb ↦ hb.append _
    · -- the module that is left now: what it imports was left before, or is below it on the stack
      obtain rfl := List.mem_singleton.1 hu
      exact (h.left_or_reaches hstack hdone huv).imp_left fun hv ↦
        standsBefore_append hv (List.mem_singleton_self _)

/-- Looking at a dependency that was entered, wherever on the stack. -/
theorem Valid.look (h : Valid g t) (above : List Frame) {rest : List Frame} {place next v : Nat}
    (hstack : t.stack = above ++ ⟨place, next⟩ :: rest)
    (hv : (g.dependenciesOf place)[next]? = some v) (hentered : t.entered[v]? = some true) :
    Valid g { t with stack := above ++ ⟨place, next + 1⟩ :: rest } := by
  have hplaces : places { t with stack := above ++ ⟨place, next + 1⟩ :: rest } = t.places := by
    simp [places, hstack]
  refine ⟨h.length_entered, fun i ↦ ?_, ?_, ?_, fun f hf w hw ↦ ?_, h.ordered⟩
  · rw [hplaces]
    exact h.entered_iff i
  · rw [hplaces]
    exact h.nodup
  · rw [hplaces]
    exact h.chain
  · rcases List.mem_append.1 hf with hf | hf
    · exact h.looked f (by simp [hstack, hf]) w hw
    · rcases List.mem_cons.1 hf with rfl | hf
      · rw [List.take_add_one, hv] at hw
        rcases List.mem_append.1 hw with hw | hw
        · exact h.looked ⟨place, next⟩ (by simp [hstack]) w hw
        · obtain rfl : w = v := by simpa using hw
          exact hentered
      · exact h.looked f (by simp [hstack, hf]) w hw

/-- Entering a module that was not entered before, from the module on top if there is one. -/
theorem Valid.enter (h : Valid g t) {i : Nat} (hi : t.entered[i]? = some false)
    (hlink : ∀ top ∈ t.places.head?, g.DependsOn top i) : Valid g (t.enter i) := by
  have hlt : i < t.entered.length := (List.getElem?_eq_some_iff.1 hi).1
  have hnew : ¬ (i ∈ t.places ∨ i ∈ t.left) := by
    rw [← h.entered_iff, hi]
    simp
  have hmarks : ∀ j, (t.enter i).entered[j]? = some true ↔ j = i ∨ t.entered[j]? = some true := by
    intro j
    rcases eq_or_ne i j with rfl | hij
    · simp [Traversal.enter, hlt]
    · simp [Traversal.enter, List.getElem?_set_ne hij, hij.symm]
  have hplaces : (t.enter i).places = i :: t.places := rfl
  have hleft : (t.enter i).left = t.left := rfl
  refine ⟨by simp [Traversal.enter, h.length_entered], fun j ↦ ?_, ?_, ?_, fun f hf w hw ↦ ?_,
    h.ordered⟩
  · rw [hmarks, h.entered_iff, hplaces, List.mem_cons, or_assoc]
    rfl
  · -- what has no mark is listed nowhere
    rw [hplaces, hleft]
    refine List.perm_middle.nodup_iff.2 (List.nodup_cons.2 ⟨?_, h.nodup⟩)
    simpa [List.mem_append, or_comm] using hnew
  · rw [hplaces]
    exact h.chain.cons hlink
  · rcases List.mem_cons.1 hf with rfl | hf
    · simp at hw
    · exact (hmarks w).2 (Or.inr (h.looked f hf w hw))

/-- **A step keeps the invariant**, whichever it is. -/
theorem Valid.step (h : Valid g t) (hne : t.stack ≠ []) (hstep : g.step t = some t') :
    Valid g t' := by
  obtain ⟨⟨place, next⟩, rest, hstack⟩ := List.exists_cons_of_ne_nil hne
  obtain ⟨-, hd, rfl⟩ | ⟨v, hd, ⟨he, rfl⟩ | ⟨he, rfl⟩⟩ := Graph.step_cases hstack hstep
  · exact h.leave hstack hd
  · exact h.look [] hstack hd he
  · -- entering first keeps the clause about what was looked at, in the order of the two changes
    have henter : Valid g (t.enter v) := by
      refine h.enter he fun top htop ↦ ?_
      obtain rfl : top = place := by simpa [places, hstack] using htop.symm
      exact List.mem_of_getElem? hd
    have hv : (t.enter v).entered[v]? = some true := (henter.entered_iff v).2 (Or.inl (by
      simp [places, Traversal.enter]))
    exact henter.look [⟨v, 0⟩] (by simp [Traversal.enter, hstack]) hd hv

/-- **A walk is never stuck**: where every dependency is the place of a module, every place a step
looks up is there. -/
theorem Valid.exists_step (h : Valid g t) (hg : g.InRange) : ∃ t', g.step t = some t' := by
  rcases hstack : t.stack with - | ⟨⟨place, next⟩, rest⟩
  · exact ⟨t, by simp [Graph.step, hstack]⟩
  · have hplace : place < g.size := by
      refine h.lt_size ((h.entered_iff place).2 (Or.inl ?_))
      simp [places, hstack]
    obtain ⟨m, hm⟩ : ∃ m, g.modules[place]? = some m := ⟨_, List.getElem?_eq_getElem hplace⟩
    rcases hd : m.dependencies[next]? with - | v
    · exact ⟨_, by simp only [Graph.step, hstack, hm, hd]; rfl⟩
    · have hv : v < t.entered.length := by
        rw [h.length_entered]
        refine hg.lt_size (u := place) ?_
        rw [Graph.DependsOn, Graph.dependenciesOf_eq hm]
        exact List.mem_of_getElem? hd
      rcases he : t.entered[v] with - | -
      · exact ⟨_, by simp only [Graph.step, hstack, hm, hd, List.getElem?_eq_getElem hv, he]; rfl⟩
      · exact ⟨_, by simp only [Graph.step, hstack, hm, hd, List.getElem?_eq_getElem hv, he]; rfl⟩

/-- What was entered stays entered. -/
theorem entered_of_step (hne : t.stack ≠ []) (hstep : g.step t = some t') {i : Nat}
    (hi : t.entered[i]? = some true) : t'.entered[i]? = some true := by
  obtain ⟨frame, rest, hstack⟩ := List.exists_cons_of_ne_nil hne
  obtain ⟨-, -, rfl⟩ | ⟨v, -, ⟨-, rfl⟩ | ⟨he, rfl⟩⟩ := Graph.step_cases hstack hstep
  · exact hi
  · exact hi
  · have hvi : v ≠ i := fun heq ↦ by simp [heq, hi] at he
    simpa [Traversal.enter, List.getElem?_set_ne hvi] using hi

/-! ### What a run keeps -/

/-- A walk between two modules to start from: nothing is on the stack. -/
structure Idle (g : Graph) (t : Traversal) : Prop extends Valid g t where
  stack_eq_nil : t.stack = []

/-- **A run ends**, with nothing on the stack, and undoes no entering. -/
theorem Valid.exists_run (h : Valid g t) (hg : g.InRange) :
    ∃ t' : Traversal, g.run t = some t' ∧ Idle g t' ∧
      ∀ i : Nat, t.entered[i]? = some true → t'.entered[i]? = some true := by
  fun_induction Graph.run g t with
  | case1 t hnil => exact ⟨t, rfl, ⟨h, hnil⟩, fun _ hi ↦ hi⟩
  | case2 t hne hnone =>
    obtain ⟨t', hstep⟩ := h.exists_step hg
    simp [hstep] at hnone
  | case3 t hne t₁ hstep ih =>
    obtain ⟨t', hrun, hidle, hmono⟩ := ih (h.step hne hstep)
    exact ⟨t', hrun, hidle, fun i hi ↦ hmono i (entered_of_step hne hstep hi)⟩

/-- A search from one module. -/
theorem Idle.exists_search (h : Idle g t) (hg : g.InRange) {root : Nat} (hroot : root < g.size) :
    ∃ t' : Traversal, g.search t root = some t' ∧ Idle g t' ∧ t'.entered[root]? = some true ∧
      ∀ i : Nat, t.entered[i]? = some true → t'.entered[i]? = some true := by
  have hlt : root < t.entered.length := by rwa [h.length_entered]
  rcases he : t.entered[root] with - | -
  · have hfalse : t.entered[root]? = some false := by rw [List.getElem?_eq_getElem hlt, he]
    have hvalid : Valid g (t.enter root) :=
      h.enter hfalse (by simp [places, h.stack_eq_nil])
    have hmark : (t.enter root).entered[root]? = some true := by simp [Traversal.enter, hlt]
    obtain ⟨t', hrun, hidle, hmono⟩ := hvalid.exists_run hg
    refine ⟨t', by simp [Graph.search, hfalse, hrun], hidle, hmono root hmark, fun i hi ↦ ?_⟩
    refine hmono i ((hvalid.entered_iff i).2 ?_)
    exact ((h.entered_iff i).1 hi).imp_left fun hon ↦ List.mem_cons_of_mem root hon
  · have htrue : t.entered[root]? = some true := by rw [List.getElem?_eq_getElem hlt, he]
    exact ⟨t, by simp [Graph.search, htrue], h, htrue, fun _ hi ↦ hi⟩

/-- A search from modules one after the other. -/
theorem Idle.exists_foldlM_search (h : Idle g t) (hg : g.InRange) (roots : List Nat)
    (hroots : ∀ r ∈ roots, r < g.size) :
    ∃ t' : Traversal, roots.foldlM g.search t = some t' ∧ Idle g t' ∧
      (∀ r ∈ roots, t'.entered[r]? = some true) ∧
      ∀ i : Nat, t.entered[i]? = some true → t'.entered[i]? = some true := by
  induction roots generalizing t with
  | nil => exact ⟨t, rfl, h, by simp, fun _ hi ↦ hi⟩
  | cons root rest ih =>
    obtain ⟨t₁, hsearch, hidle₁, hroot, hmono₁⟩ := h.exists_search hg (hroots root (by simp))
    obtain ⟨t', hfold, hidle', hrest, hmono'⟩ := ih hidle₁ fun r hr ↦ hroots r (by simp [hr])
    refine ⟨t', by simp [hsearch, hfold], hidle', ?_, fun i hi ↦ hmono' i (hmono₁ i hi)⟩
    rintro r hr
    rcases List.mem_cons.1 hr with rfl | hr
    · exact hmono' r hroot
    · exact hrest r hr

/-- Before the first step nothing was entered. -/
theorem idle_start (g : Graph) : Idle g { entered := List.replicate g.size false } where
  length_entered := by simp
  entered_iff := by simp [places, List.getElem?_replicate]
  nodup := by simp [places]
  chain := by simp [places]
  looked := by simp
  ordered := by simp
  stack_eq_nil := rfl

end Traversal

/-! ### The order -/

namespace Graph

/-- **The order of dependencies.** On a graph whose recorded dependencies are places of modules, the
walk ends without ever looking outside the graph and lists every place exactly once. Whatever a
module imports stands before it, or reaches it along dependencies; so that without cycles every
module stands behind all that it imports. -/
theorem exists_dependencyOrder (g : Graph) (hg : g.InRange) :
    ∃ l, g.dependencyOrder? = some l ∧ g.order .dependency = l ∧ l.Perm (List.range g.size) ∧
      (∀ u v, g.DependsOn u v → StandsBefore l v u ∨ Relation.TransGen g.DependsOn v u) ∧
      ((∀ u, ¬ Relation.TransGen g.DependsOn u u) →
        ∀ u v, g.DependsOn u v → StandsBefore l v u) := by
  obtain ⟨t, hfold, hidle, hall, -⟩ :=
    (Traversal.idle_start g).exists_foldlM_search hg (List.range g.size) (by simp)
  have horder : g.dependencyOrder? = some t.left := by simp [dependencyOrder?, hfold]
  -- every module was entered, and the stack is empty: all of them were left
  have hmem : ∀ i, i ∈ t.left ↔ i < g.size := by
    intro i
    have hplaces : t.places = [] := by simp [Traversal.places, hidle.stack_eq_nil]
    have hiff := hidle.entered_iff i
    simp only [hplaces, List.not_mem_nil, false_or] at hiff
    rw [← hiff]
    exact ⟨hidle.lt_size, fun hi ↦ hall i (List.mem_range.2 hi)⟩
  have hnodup : t.left.Nodup := (List.nodup_append.1 hidle.nodup).1
  have hedge : ∀ u v, g.DependsOn u v →
      StandsBefore t.left v u ∨ Relation.TransGen g.DependsOn v u := by
    intro u v huv
    exact hidle.ordered u ((hmem u).2 huv.lt_size) v huv
  refine ⟨t.left, horder, by simp [order, horder], ?_, hedge, fun hacyclic u v huv ↦ ?_⟩
  · exact (List.perm_ext_iff_of_nodup hnodup List.nodup_range).2 fun i ↦ by
      rw [hmem, List.mem_range]
  · exact (hedge u v huv).resolve_right fun hvu ↦ hacyclic u (hvu.head huv)

/-- A cycle with a module that imports itself, and a module that nothing links to it. -/
def sampleGraph : Graph :=
  ⟨[⟨⟨true, ["a.ts"]⟩, [], [], [1], []⟩, ⟨⟨true, ["b.ts"]⟩, [], [], [0, 1], []⟩,
    ⟨⟨true, ["c.ts"]⟩, [], [], [], []⟩]⟩

/-- The order of the sample graph lists all of its modules. -/
theorem exists_dependencyOrder_sampleGraph :
    sampleGraph.InRange ∧
      ∃ l, sampleGraph.order .dependency = l ∧ l.Perm (List.range 3) := by
  have hinRange : sampleGraph.InRange := by decide
  obtain ⟨l, -, horder, hperm, -⟩ := exists_dependencyOrder sampleGraph hinRange
  exact ⟨hinRange, l, horder, hperm⟩

end Graph

end ModuleBundler
