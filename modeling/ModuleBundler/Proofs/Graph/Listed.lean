import ModuleBundler.Proofs.Graph.Discovery

/-!
# The modules of a graph in an order

An order of a graph is a list of places. Whatever is made of a graph in an order goes through these
places and looks up the module at each of them, and would pass over a place that is none
(`Graph.listed`). In a graph that is explored from its first module no place is passed over and none
is missing or listed twice, so that **either order lists the modules of the graph, each once**
(`Graph.Explores.listed_perm`).

The order of dependencies lists a module behind those that it imports and that do not lead back to
it (`Graph.Explores.standsBefore`).
-/

namespace ModuleBundler

/-- What stands before something in a list stands at an earlier position. -/
theorem StandsBefore.exists_positions {l : List Nat} {a b : Nat} (h : StandsBefore l a b) :
    ∃ j k : Nat, j < k ∧ l[j]? = some a ∧ l[k]? = some b := by
  obtain ⟨front, rest, rfl, ha, hb⟩ := List.cons_sublist_iff.1 h
  obtain ⟨j, hj, rfl⟩ := List.getElem_of_mem ha
  obtain ⟨k, hk, rfl⟩ := List.getElem_of_mem (List.singleton_sublist.1 hb)
  refine ⟨j, front.length + k, by omega, ?_, ?_⟩
  · rw [List.getElem?_append_left hj, List.getElem?_eq_getElem hj]
  · rw [List.getElem?_append_right (Nat.le_add_right _ _), Nat.add_sub_cancel_left,
      List.getElem?_eq_getElem hk]

namespace Graph

/-- The modules at the places of an order. -/
def listed (g : Graph) (order : Order) : List Module :=
  (g.order order).filterMap fun i ↦ g.modules[i]?

variable {g : Graph} {c stop : Nat} {vs post : List Nat} {order : Order}

namespace Explores

/-- No module is left twice. -/
theorem nodup_post (h : Explores g c vs stop post) : post.Nodup := by
  induction h with
  | nil => exact List.nodup_nil
  | known _ _ ih => exact ih
  | @found c mid stop vs inner outer hinner houter ihinner ihouter =>
    have hle := hinner.le
    -- the part found from a module lies behind it, and what is found later lies behind that part
    refine List.nodup_append.2 ⟨ihinner, List.nodup_cons.2 ⟨fun hc ↦ ?_, ihouter⟩, ?_⟩
    · have := (houter.mem_post_iff.1 hc).1
      omega
    · rintro i hi j hj rfl
      have := hinner.mem_post_iff.1 hi
      rcases List.mem_cons.1 hj with rfl | hj
      · omega
      · have := houter.mem_post_iff.1 hj
        omega

/-- The order of dependencies is the one in which the modules are left. -/
theorem order_dependency (h : g.Explores 0 [0] g.size post) : g.order .dependency = post := by
  rw [order, h.dependencyOrder?_eq]
  rfl

/-- **Either order lists every place of the graph once.** -/
theorem order_perm (h : g.Explores 0 [0] g.size post) (order : Order) :
    (g.order order).Perm (List.range g.size) := by
  rcases order with - | -
  · exact List.Perm.refl _
  · rw [h.order_dependency]
    refine (List.perm_ext_iff_of_nodup h.nodup_post List.nodup_range).2 fun i ↦ ?_
    rw [h.mem_post_iff, List.mem_range]
    exact and_iff_right (Nat.zero_le i)

/-- No place of an order is passed over. -/
theorem map_order (h : g.Explores 0 [0] g.size post) (order : Order) :
    (g.order order).map (fun i ↦ g.modules[i]?) = (g.listed order).map some := by
  have hplaces : ∀ i ∈ g.order order, i < g.modules.length := fun i hi ↦
    List.mem_range.1 ((h.order_perm order).mem_iff.1 hi)
  rw [listed]
  generalize g.order order = places at hplaces
  induction places with
  | nil => rfl
  | cons i places ih =>
    have hlt : i < g.modules.length := hplaces i List.mem_cons_self
    have hi : g.modules[i]? = some g.modules[i] := List.getElem?_eq_getElem hlt
    rw [List.map_cons, List.filterMap_cons_some hi, List.map_cons, hi,
      ih fun j hj ↦ hplaces j (List.mem_cons_of_mem i hj)]

/-- The module that stands at a position of an order. -/
theorem getElem?_listed (h : g.Explores 0 [0] g.size post) {k i : Nat}
    (hk : (g.order order)[k]? = some i) : (g.listed order)[k]? = g.modules[i]? := by
  have hat := congrArg (fun l ↦ l[k]?) (h.map_order order)
  simp only [List.getElem?_map, hk, Option.map_some] at hat
  rcases hlisted : (g.listed order)[k]? with - | m
  · rw [hlisted] at hat
    cases hat
  · rw [hlisted, Option.map_some] at hat
    exact (Option.some.inj hat).symm

theorem listed_discovery (h : g.Explores 0 [0] g.size post) :
    g.listed .discovery = g.modules := by
  have hall : (List.range g.size).map (fun i ↦ g.modules[i]?) = g.modules.map some := by
    refine List.ext_getElem (by simp [size]) fun i hi _ ↦ ?_
    simp only [List.length_map, List.length_range] at hi
    simp only [List.getElem_map, List.getElem_range]
    exact List.getElem?_eq_getElem hi
  have hsome : Function.Injective (some : Module → Option Module) := fun _ _ ↦ Option.some.inj
  exact hsome.list_map ((h.map_order .discovery).symm.trans hall)

/-- **Either order lists the modules of the graph, each once.** -/
theorem listed_perm (h : g.Explores 0 [0] g.size post) (order : Order) :
    (g.listed order).Perm g.modules := by
  rw [← h.listed_discovery]
  exact (h.order_perm order).filterMap _

/-- **A module is listed behind what it imports**, unless that leads back to it. -/
theorem standsBefore (h : g.Explores 0 [0] g.size post) {u v : Nat} (huv : g.DependsOn u v)
    (hback : ¬ Relation.TransGen g.DependsOn v u) :
    StandsBefore (g.order .dependency) v u := by
  rw [h.order_dependency]
  refine (h.standsBefore_or_discovers (Nat.zero_le u) huv.lt_size (Nat.zero_le v) huv).resolve_right
    fun hfrom ↦ hback ?_
  have hdiscovers : g.Discovers ≤ g.DependsOn := fun _ _ hab ↦ hab.1
  rcases Relation.reflTransGen_iff_eq_or_transGen.1 hfrom.2 with rfl | hfrom
  · exact .single huv
  · exact Relation.TransGen.mono hdiscovers v u hfrom

end Explores

end Graph

end ModuleBundler
