import ModuleBundler.Proofs.Graph.Traversal

/-!
# Graphs numbered in the order of discovery

A graph that was collected depth first knows the walk it was collected by: the places of its modules
are the times at which that walk found them. `Explores` says so without the walk. To explore
dependencies when the modules before the place `c` are known is to pass over those among them, and
to find every other **at `c` itself**, explore what it depends on, and go on behind the last module
found that way.

Two things are read off an exploration.

* The walk behind the order of dependencies, started with the same modules entered, takes the same
  course (`Explores.run_eq`). The two walks are written differently and keep different records; all
  they share is the exploration.
* A module found later than the module that imports it is left before it
  (`Explores.standsBefore_or_discovers`). Any other dependency is an edge back, to a module from
  which the importing one was found.

That a module was *found from* another is a statement about the graph alone as well: see
`Graph.Discovers`.
-/

namespace ModuleBundler

namespace Graph

/-- The module at place `b` was found while the references of the one at place `a` were followed. A
module is found by the first that asks for it, and of all modules that ask for it and were found
before it, this is the last: the others found before it either still wait for it further down, or
have seen to all they import. -/
def Discovers (g : Graph) (a b : Nat) : Prop :=
  g.DependsOn a b ∧ a < b ∧ ∀ c, g.DependsOn c b → c < b → c ≤ a

/-- Exploring dependencies finds the modules from the place `start` up to the place `stop`, when
those before `start` are known, and a walk that does so leaves them in the order `post`. -/
inductive Explores (g : Graph) :
    (start : Nat) → (dependencies : List Nat) → (stop : Nat) → (post : List Nat) → Prop
  /-- There is nothing to explore. -/
  | nil {c : Nat} : Explores g c [] c []
  /-- A known module is passed over. -/
  | known {c v stop : Nat} {vs post : List Nat} : v < c → Explores g c vs stop post →
      Explores g c (v :: vs) stop post
  /-- A module is found, and explored to its end before the next. -/
  | found {c mid stop : Nat} {vs inner outer : List Nat} :
      Explores g (c + 1) (g.dependenciesOf c) mid inner → Explores g mid vs stop outer →
      Explores g c (c :: vs) stop (inner ++ c :: outer)

namespace Explores

variable {g : Graph} {c stop : Nat} {vs post : List Nat}

theorem le (h : Explores g c vs stop post) : c ≤ stop := by
  induction h with
  | nil => exact le_rfl
  | known _ _ ih => exact ih
  | found _ _ ih₁ ih₂ => omega

/-- All that was to be explored is known in the end. -/
theorem lt_of_mem (h : Explores g c vs stop post) {v : Nat} (hv : v ∈ vs) : v < stop := by
  induction h with
  | nil => simp at hv
  | known hlt hrest ih =>
    rcases List.mem_cons.1 hv with rfl | hv
    · exact hlt.trans_le hrest.le
    · exact ih hv
  | found hinner houter _ ih =>
    rcases List.mem_cons.1 hv with rfl | hv
    · exact (Nat.lt_of_succ_le hinner.le).trans_le houter.le
    · exact ih hv

/-- The modules left are the ones found. -/
theorem mem_post_iff (h : Explores g c vs stop post) {a : Nat} :
    a ∈ post ↔ c ≤ a ∧ a < stop := by
  induction h with
  | nil => simp
  | known _ _ ih => exact ih
  | found hinner houter ih₁ ih₂ =>
    have := hinner.le
    have := houter.le
    simp only [List.mem_append, List.mem_cons, ih₁, ih₂]
    omega

/-- **Exploring leaves nothing open**: what the modules found depend on is known in the end. -/
theorem lt_of_dependsOn (h : Explores g c vs stop post) {a b : Nat} (hca : c ≤ a) (ha : a < stop)
    (hab : g.DependsOn a b) : b < stop := by
  induction h with
  | nil => omega
  | known _ _ ih => exact ih hca ha
  | found hinner houter ih₁ ih₂ =>
    rename_i c mid _ _ _ _
    rcases Nat.lt_or_ge a mid with hmid | hmid
    · rcases Nat.eq_or_lt_of_le hca with rfl | hlt
      · exact (hinner.lt_of_mem hab).trans_le houter.le
      · exact (ih₁ hlt hmid).trans_le houter.le
    · exact ih₂ hmid ha

/-- One exploration after another. -/
theorem append {mid : Nat} {ws post' : List Nat} (h : Explores g c vs mid post)
    (h' : Explores g mid ws stop post') : Explores g c (vs ++ ws) stop (post ++ post') := by
  induction h with
  | nil => exact h'
  | known hlt _ ih => exact .known hlt (ih h')
  | found hinner _ _ ih =>
    rw [List.append_assoc, List.cons_append, List.cons_append]
    exact .found hinner (ih h')

/-! ### Modules found from others -/

/-- Whatever is found while the dependencies of the module at place `u` are explored was found from
it. What was found from it before, between `u` and `c`, has no dependency left to find. -/
theorem discovers (h : Explores g c vs stop post) {u : Nat} (hvs : ∀ v ∈ vs, g.DependsOn u v)
    (huc : u < c) (hclosed : ∀ a, u < a → a < c → ∀ b, g.DependsOn a b → b < c)
    {w : Nat} (hcw : c ≤ w) (hw : w < stop) : Relation.ReflTransGen g.Discovers u w := by
  induction h generalizing u with
  | nil => omega
  | known _ _ ih =>
    exact ih (fun v hv ↦ hvs v (List.mem_cons_of_mem _ hv)) huc hclosed hcw hw
  | found hinner houter ih₁ ih₂ =>
    rename_i c mid _ vs _ _
    have hfirst : g.Discovers u c := by
      refine ⟨hvs c List.mem_cons_self, huc, fun a hac hlt ↦ ?_⟩
      by_contra hua
      exact absurd (hclosed a (Nat.lt_of_not_le hua) hlt c hac) (lt_irrefl c)
    rcases Nat.lt_or_ge w mid with hmid | hmid
    · rcases Nat.eq_or_lt_of_le hcw with rfl | hlt
      · exact Relation.ReflTransGen.single hfirst
      · refine Relation.ReflTransGen.head hfirst
          (ih₁ (fun v hv ↦ hv) (Nat.lt_succ_self c) ?_ hlt hmid)
        intro a hca hac
        omega
    · -- the part found from the module at `c` is closed when the next dependency is explored
      refine ih₂ (fun v hv ↦ hvs v (List.mem_cons_of_mem _ hv)) ?_ ?_ hmid hw
      · exact huc.trans (Nat.lt_of_succ_le hinner.le)
      · intro a hua ha b hab
        have := hinner.le
        rcases Nat.lt_trichotomy a c with hac | rfl | hac
        · exact (hclosed a hua hac b hab).trans (Nat.lt_of_succ_le hinner.le)
        · exact hinner.lt_of_mem hab
        · exact hinner.lt_of_dependsOn hac ha hab

/-- **The edge law.** Of two modules found, the one that the other imports is left first, unless it
was found no later and the other was found from it. -/
theorem standsBefore_or_discovers (h : Explores g c vs stop post) {a b : Nat} (hca : c ≤ a)
    (ha : a < stop) (hcb : c ≤ b) (hab : g.DependsOn a b) :
    StandsBefore post b a ∨ (b ≤ a ∧ Relation.ReflTransGen g.Discovers b a) := by
  induction h with
  | nil => omega
  | known _ _ ih => exact ih hca ha hcb
  | found hinner houter ih₁ ih₂ =>
    rename_i c mid _ _ inner outer
    have hmem : ∀ {x}, c ≤ x → x < mid → x ∈ inner ++ [c] := by
      intro x hcx hx
      rcases Nat.eq_or_lt_of_le hcx with rfl | hlt
      · simp
      · exact List.mem_append_left _ (hinner.mem_post_iff.2 ⟨hlt, hx⟩)
    rw [List.append_cons]
    rcases Nat.lt_or_ge a mid with hmid | hmid
    · -- both lie in the part found from the module at `c`
      rcases Nat.eq_or_lt_of_le hcb with rfl | hltb
      · -- an edge back to the module at `c`, from which all of the part was found
        refine Or.inr ⟨hca, ?_⟩
        rcases Nat.eq_or_lt_of_le hca with rfl | hlta
        · exact Relation.ReflTransGen.refl
        · refine hinner.discovers (fun v hv ↦ hv) (Nat.lt_succ_self c) ?_ hlta hmid
          intro x hcx hxc
          omega
      · rcases Nat.eq_or_lt_of_le hca with rfl | hlta
        · refine Or.inl (StandsBefore.append (standsBefore_append ?_ (List.mem_singleton_self c)) _)
          exact hinner.mem_post_iff.2 ⟨hltb, hinner.lt_of_mem hab⟩
        · exact (ih₁ hlta hmid hltb).imp_left fun hb ↦ (hb.append _).append _
    · -- the importing module lies behind that part, the imported one in it or behind it
      rcases Nat.lt_or_ge b mid with hbmid | hbmid
      · exact Or.inl (standsBefore_append (hmem hcb hbmid) (houter.mem_post_iff.2 ⟨hmid, ha⟩))
      · exact (ih₂ hmid ha hbmid).imp_left fun hb ↦ hb.trans (List.sublist_append_right _ _)

end Explores

end Graph

/-! ### The other walk takes the same course -/

/-- The marks of a graph of `n` modules in which those before the place `c` were entered. -/
def marks (n c : Nat) : List Bool :=
  (List.range n).map fun i ↦ decide (i < c)

theorem getElem?_marks {n c i : Nat} (hi : i < n) : (marks n c)[i]? = some (decide (i < c)) := by
  simp [marks, hi]

theorem marks_zero (n : Nat) : marks n 0 = List.replicate n false := by
  simp [marks, List.map_const']

theorem set_marks {n c : Nat} : (marks n c).set c true = marks n (c + 1) := by
  refine List.ext_getElem (by simp [marks]) fun i hi _ ↦ ?_
  simp only [marks, List.length_set, List.length_map, List.length_range] at hi
  simp only [marks, List.getElem_set, List.getElem_map, List.getElem_range]
  split_ifs with h
  · simp [h]
  · rw [decide_eq_decide]
    omega

namespace Graph

theorem run_of_stack_eq_nil {g : Graph} {t : Traversal} (h : t.stack = []) : g.run t = some t := by
  rw [run, dif_pos h]

theorem run_of_step {g : Graph} {t t' : Traversal} (hne : t.stack ≠ []) (h : g.step t = some t') :
    g.run t = g.run t' := by
  rw [run, dif_neg hne]
  split
  · simp_all
  · simp_all

variable {g : Graph} {place next c : Nat} {rest : List Frame} {left : List Nat}

/-- The module on top looks at a known dependency. -/
theorem run_known {v : Nat} (hd : (g.dependenciesOf place)[next]? = some v) (hv : v < c)
    (hc : c ≤ g.size) :
    g.run ⟨marks g.size c, ⟨place, next⟩ :: rest, left⟩ =
      g.run ⟨marks g.size c, ⟨place, next + 1⟩ :: rest, left⟩ := by
  obtain ⟨m, hm, -⟩ := DependsOn.exists_module (List.mem_of_getElem? hd : g.DependsOn place v)
  rw [dependenciesOf_eq hm] at hd
  have hmark : (marks g.size c)[v]? = some true := by
    rw [getElem?_marks (hv.trans_le hc), decide_eq_true hv]
  exact run_of_step (List.cons_ne_nil _ _) (by simp [step, hm, hd, hmark])

/-- The module on top enters the first module that is not known. -/
theorem run_found (hd : (g.dependenciesOf place)[next]? = some c) (hc : c < g.size) :
    g.run ⟨marks g.size c, ⟨place, next⟩ :: rest, left⟩ =
      g.run ⟨marks g.size (c + 1), ⟨c, 0⟩ :: ⟨place, next + 1⟩ :: rest, left⟩ := by
  obtain ⟨m, hm, -⟩ := DependsOn.exists_module (List.mem_of_getElem? hd : g.DependsOn place c)
  rw [dependenciesOf_eq hm] at hd
  have hmark : (marks g.size c)[c]? = some false := by
    rw [getElem?_marks hc, decide_eq_false (lt_irrefl c)]
  exact run_of_step (List.cons_ne_nil _ _) (by
    simp [step, hm, hd, hmark, Traversal.enter, set_marks])

/-- The module on top is left. -/
theorem run_leave {marks : List Bool} (hplace : place < g.size)
    (hd : (g.dependenciesOf place)[next]? = none) :
    g.run ⟨marks, ⟨place, next⟩ :: rest, left⟩ = g.run ⟨marks, rest, left ++ [place]⟩ := by
  have hm : g.modules[place]? = some g.modules[place] := List.getElem?_eq_getElem hplace
  rw [dependenciesOf_eq hm] at hd
  exact run_of_step (List.cons_ne_nil _ _) (by simp [step, hm, hd])

theorem getElem?_and_drop_of_drop_eq_cons {l as : List Nat} {n a : Nat} (h : l.drop n = a :: as) :
    l[n]? = some a ∧ l.drop (n + 1) = as := by
  constructor
  · have hhead : (l.drop n)[0]? = some a := by rw [h, List.getElem?_cons_zero]
    rwa [List.getElem?_drop, Nat.add_zero] at hhead
  · rw [← List.tail_drop, h, List.tail_cons]

/-- **The walk follows the exploration.** With the modules before `c` entered, the module on top of
the stack explores its next dependencies `vs` and leaves what is found in the order `post`. -/
theorem Explores.run_eq {stop : Nat} {vs post : List Nat} (h : Explores g c vs stop post)
    (hstop : stop ≤ g.size) (hd : (g.dependenciesOf place).drop next = vs) :
    g.run ⟨marks g.size c, ⟨place, next⟩ :: rest, left⟩ =
      g.run ⟨marks g.size stop, ⟨place, next + vs.length⟩ :: rest, left ++ post⟩ := by
  induction h generalizing place next rest left with
  | nil => simp
  | known hlt hrest ih =>
    obtain ⟨hnext, hdrop⟩ := getElem?_and_drop_of_drop_eq_cons hd
    rw [run_known hnext hlt (hrest.le.trans hstop), ih hstop hdrop, List.length_cons]
    congr 4
    omega
  | found hinner houter ih₁ ih₂ =>
    rename_i c mid _ vs inner outer
    obtain ⟨hnext, hdrop⟩ := getElem?_and_drop_of_drop_eq_cons hd
    have hmid : mid ≤ g.size := houter.le.trans hstop
    have hc : c < g.size := (Nat.lt_of_succ_le hinner.le).trans_le hmid
    have hdone : (g.dependenciesOf c)[0 + (g.dependenciesOf c).length]? = none := by simp
    calc g.run ⟨marks g.size c, ⟨place, next⟩ :: rest, left⟩
        = g.run ⟨marks g.size (c + 1), ⟨c, 0⟩ :: ⟨place, next + 1⟩ :: rest, left⟩ :=
          run_found hnext hc
      _ = g.run ⟨marks g.size mid, ⟨c, 0 + (g.dependenciesOf c).length⟩ ::
            ⟨place, next + 1⟩ :: rest, left ++ inner⟩ := ih₁ hmid rfl
      _ = g.run ⟨marks g.size mid, ⟨place, next + 1⟩ :: rest, left ++ inner ++ [c]⟩ :=
          run_leave hc hdone
      _ = g.run ⟨marks g.size _, ⟨place, next + 1 + vs.length⟩ :: rest,
            left ++ inner ++ [c] ++ outer⟩ := ih₂ hstop hdrop
      _ = g.run ⟨marks g.size _, ⟨place, next + (c :: vs).length⟩ :: rest,
            left ++ (inner ++ c :: outer)⟩ := by
          simp [Nat.add_assoc, Nat.add_comm 1]

/-- A search from modules that were all entered before changes nothing. -/
theorem foldlM_search_of_entered {t : Traversal} {roots : List Nat}
    (h : ∀ r ∈ roots, t.entered[r]? = some true) : roots.foldlM g.search t = some t := by
  induction roots with
  | nil => rfl
  | cons root roots ih =>
    have hroot : g.search t root = some t := by simp [search, h root List.mem_cons_self]
    rw [List.foldlM_cons, hroot]
    exact ih fun r hr ↦ h r (List.mem_cons_of_mem root hr)

/-- **The order of dependencies is the one in which the exploration leaves the modules**, when all
of them are found from the first. -/
theorem Explores.dependencyOrder?_eq {post : List Nat} (h : Explores g 0 [0] g.size post) :
    g.dependencyOrder? = some post := by
  cases h with
  | known hlt _ => omega
  | found hinner houter =>
    rename_i mid inner outer
    cases houter
    have hpos : 0 < g.size := hinner.le
    have hmark : (marks g.size 0)[0]? = some false := by simp [getElem?_marks hpos]
    have hsearch : g.search ⟨marks g.size 0, [], []⟩ 0 =
        some ⟨marks g.size g.size, [], inner ++ [0]⟩ := by
      calc g.search ⟨marks g.size 0, [], []⟩ 0
          = g.run ⟨marks g.size 1, [⟨0, 0⟩], []⟩ := by
            simp [search, hmark, Traversal.enter, set_marks]
        _ = g.run ⟨marks g.size g.size, [⟨0, 0 + (g.dependenciesOf 0).length⟩], [] ++ inner⟩ :=
            hinner.run_eq le_rfl rfl
        _ = g.run ⟨marks g.size g.size, [], [] ++ inner ++ [0]⟩ := run_leave hpos (by simp)
        _ = some ⟨marks g.size g.size, [], inner ++ [0]⟩ := run_of_stack_eq_nil rfl
    -- the first search leaves nothing to the others
    have hrange : List.range g.size = 0 :: (List.range (g.size - 1)).map Nat.succ := by
      rw [← List.range_succ_eq_map, Nat.sub_add_cancel hpos]
    have hothers : ∀ r ∈ (List.range (g.size - 1)).map Nat.succ,
        (marks g.size g.size)[r]? = some true := by
      intro r hr
      have hlt : r < g.size := List.mem_range.1 (hrange ▸ List.mem_cons_of_mem 0 hr)
      rw [getElem?_marks hlt, decide_eq_true hlt]
    rw [dependencyOrder?, ← marks_zero, hrange, List.foldlM_cons, hsearch]
    simp only [Option.bind_eq_bind, Option.bind_some]
    rw [foldlM_search_of_entered hothers]
    rfl

end Graph

end ModuleBundler
