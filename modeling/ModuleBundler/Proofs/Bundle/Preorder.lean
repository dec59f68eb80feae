import Mathlib.Order.Bounds.Basic
import Mathlib.Order.Interval.Set.Defs
import ModuleBundler.Proofs.Bundle.Agreement
import ModuleBundler.Syntax.Program

/-!
# The order of discovery

The places of a bundle number its modules as a depth-first walk finds them. What this means is said
of the finished graph alone: the *block* of a module are the modules it leads to without passing
through one that was found before it (`Graph.block`).

* A block is a run of places that begins with its module (`Graph.Explores.block_eq_Ico`). Whatever a
  module leads to among the modules that were not found when it was, is found before the walk
  returns from it.
* The dependencies of a module cut its block into theirs: each of them lies in the block of an
  earlier one, or it is the first module that no earlier one has found.

Both are read off `Graph.Explores`, which a bundle is by `exists_explores_of_collect`. The walk that
reads files is not looked at again.
-/

namespace ModuleBundler

namespace Graph

/-- The modules that the one at place `u` leads to through modules that were found no earlier. -/
def block (g : Graph) (u : Nat) : Set Nat :=
  {w | Relation.ReflTransGen (fun a b ↦ g.DependsOn a b ∧ u ≤ b) u w}

namespace Explores

variable {g : Graph} {c stop u mid : Nat} {vs ws post inner : List Nat}

/-- Every module found is explored to its end, and this is a part of the exploration. -/
theorem exists_inner (h : Explores g c vs stop post) (hcu : c ≤ u) (hu : u < stop) :
    ∃ mid inner, mid ≤ stop ∧ Explores g (u + 1) (g.dependenciesOf u) mid inner := by
  induction h with
  | nil => omega
  | known _ _ ih => exact ih hcu hu
  | @found c mid _ _ inner _ hinner houter ihinner ihouter =>
    rcases Nat.lt_or_ge u mid with hmid | hmid
    · rcases Nat.eq_or_lt_of_le hcu with rfl | hlt
      · exact ⟨mid, inner, houter.le, hinner⟩
      · obtain ⟨mid', inner', hle, hexplores⟩ := ihinner hlt hmid
        exact ⟨mid', inner', hle.trans houter.le, hexplores⟩
    · exact ihouter hmid hu

/-- A module that was found from another lies in its block. -/
theorem mem_block_of_discovers {w : Nat} (h : Relation.ReflTransGen g.Discovers u w) :
    u ≤ w ∧ w ∈ g.block u := by
  induction h with
  | refl => exact ⟨le_rfl, .refl⟩
  | tail _ hab ih =>
    have hle := ih.1.trans hab.2.1.le
    exact ⟨hle, ih.2.tail ⟨hab.1, hle⟩⟩

/-- **A block is a run of places.** The part found from a module is closed under dependencies, but
for those that lead back behind the module; and all of it was found from the module. -/
theorem block_eq_Ico (h : Explores g (u + 1) (g.dependenciesOf u) mid inner) :
    g.block u = Set.Ico u mid := by
  ext w
  constructor
  · intro hw
    induction hw with
    | refl => exact ⟨le_rfl, h.le⟩
    | @tail a b _ hab ih =>
      refine ⟨hab.2, ?_⟩
      rcases Nat.eq_or_lt_of_le ih.1 with rfl | hlt
      · exact h.lt_of_mem hab.1
      · exact h.lt_of_dependsOn hlt ih.2 hab.1
  · rintro ⟨huw, hw⟩
    rcases Nat.eq_or_lt_of_le huw with rfl | hlt
    · exact .refl
    · -- whatever was found behind the module was found from it
      have hfrom : Relation.ReflTransGen g.Discovers u w :=
        h.discovers (fun _ hv ↦ hv) (Nat.lt_succ_self u) (fun a hua hau ↦ by omega) hlt hw
      exact (mem_block_of_discovers hfrom).2

/-- What a module found leads to is found, if it is not known. -/
theorem lt_of_mem_block (h : Explores g c vs stop post) (hcu : c ≤ u) (hu : u < stop) {w : Nat}
    (hw : w ∈ g.block u) : w < stop := by
  obtain ⟨mid, inner, hle, hinner⟩ := h.exists_inner hcu hu
  rw [hinner.block_eq_Ico] at hw
  exact hw.2.trans_le hle

/-- The modules found are those in the blocks of the dependencies that were not known. -/
theorem lt_iff_exists_block (h : Explores g c vs stop post) {w : Nat} (hcw : c ≤ w) :
    w < stop ↔ ∃ d ∈ vs, c ≤ d ∧ w ∈ g.block d := by
  refine ⟨fun hw ↦ ?_, fun ⟨d, hd, hcd, hw⟩ ↦ h.lt_of_mem_block hcd (h.lt_of_mem hd) hw⟩
  induction h with
  | nil => omega
  | known _ _ ih =>
    obtain ⟨d, hd, hblock⟩ := ih hcw hw
    exact ⟨d, List.mem_cons_of_mem _ hd, hblock⟩
  | @found c mid _ _ _ _ hinner _ _ ih =>
    rcases Nat.lt_or_ge w mid with hmid | hmid
    · refine ⟨c, List.mem_cons_self, le_rfl, ?_⟩
      rw [hinner.block_eq_Ico]
      exact ⟨hcw, hmid⟩
    · obtain ⟨d, hd, hle, hblock⟩ := ih hmid hw
      have := hinner.le
      exact ⟨d, List.mem_cons_of_mem _ hd, by omega, hblock⟩

/-- An exploration can be stopped between two dependencies. -/
theorem exists_split (h : Explores g c (vs ++ ws) stop post) :
    ∃ mid before after, Explores g c vs mid before ∧ Explores g mid ws stop after := by
  induction vs generalizing c post with
  | nil => exact ⟨c, [], post, .nil, h⟩
  | cons v vs ih =>
    cases h with
    | known hlt hrest =>
      obtain ⟨mid, before, after, hbefore, hafter⟩ := ih hrest
      exact ⟨mid, before, after, .known hlt hbefore, hafter⟩
    | found hinner hrest =>
      obtain ⟨mid, before, after, hbefore, hafter⟩ := ih hrest
      exact ⟨mid, _, after, .found hinner hbefore, hafter⟩

/-- **The dependencies of a module cut its block into theirs.** A later one was found from an
earlier one, or is the first module that none of them found. -/
theorem mem_block_or_isLeast (h : Explores g (u + 1) (g.dependenciesOf u) mid inner) {j v : Nat}
    (hv : (g.dependenciesOf u)[j]? = some v) (huv : u < v) :
    (∃ d ∈ (g.dependenciesOf u).take j, u < d ∧ v ∈ g.block d) ∨
      IsLeast {w | u < w ∧ ∀ d ∈ (g.dependenciesOf u).take j, u < d → w ∉ g.block d} v := by
  obtain ⟨hj, rfl⟩ := List.getElem?_eq_some_iff.1 hv
  have hcut : (g.dependenciesOf u).take j ++ (g.dependenciesOf u)[j] ::
      (g.dependenciesOf u).drop (j + 1) = g.dependenciesOf u := by
    rw [← List.drop_eq_getElem_cons hj, List.take_append_drop]
  obtain ⟨c, before, after, hbefore, hafter⟩ := (hcut ▸ h).exists_split
  cases hafter with
  | known hlt _ => exact Or.inl ((hbefore.lt_iff_exists_block huv).1 hlt)
  | found _ _ =>
    refine Or.inr ⟨⟨huv, fun d hd hud hblock ↦ ?_⟩, fun w hw ↦ Nat.le_of_not_lt fun hlt ↦ ?_⟩
    · exact lt_irrefl _ ((hbefore.lt_iff_exists_block huv).2 ⟨d, hd, hud, hblock⟩)
    · obtain ⟨d, hd, hud, hblock⟩ := (hbefore.lt_iff_exists_block hw.1).1 hlt
      exact hw.2 d hd hud hblock

end Explores

end Graph

variable {σ : Type} [FileStore σ]

/-- **Modules are numbered as a depth-first walk finds them.** In a bundle, the modules that the one
at place `u` leads to through modules that were found no earlier make up a run of places that begins
with `u`. Of the dependencies of a module that were found after it, each lies in the run of one that
is listed before it, or it is the first module behind `u` that lies in none of these. -/
theorem collect_preorder [Engine] (options : BundleOptions σ) (depth : Nat) (entry : Path)
    (s s' : σ) (g : Graph) (h : collect options depth entry s = some (.ok g, s')) (u : Nat)
    (hu : u < g.size) :
    (∃ stop, u < stop ∧ stop ≤ g.size ∧ g.block u = Set.Ico u stop) ∧
      ∀ j v, (g.dependenciesOf u)[j]? = some v → u < v →
        (∃ d ∈ (g.dependenciesOf u).take j, u < d ∧ v ∈ g.block d) ∨
          IsLeast {w | u < w ∧ ∀ d ∈ (g.dependenciesOf u).take j, u < d → w ∉ g.block d} v := by
  obtain ⟨post, hexplores⟩ := exists_explores_of_collect h
  have hwhole : g.Explores 0 [0] g.size (post ++ [0]) := .found hexplores .nil
  obtain ⟨mid, inner, hle, hinner⟩ := hwhole.exists_inner (Nat.zero_le u) hu
  exact ⟨⟨mid, hinner.le, hle, hinner.block_eq_Ico⟩,
    fun _ _ hv huv ↦ hinner.mem_block_or_isLeast hv huv⟩

/-- Two files that both import a third one, and a file that imports them. -/
def diamondStore : MemoryStore :=
  Operation.run
    [.save ⟨true, ["main.ts"]⟩ (Utf8.encode "import './a'; import './b';"),
      .save ⟨true, ["a.ts"]⟩ (Utf8.encode "import './c';"),
      .save ⟨true, ["b.ts"]⟩ (Utf8.encode "import './c';"),
      .save ⟨true, ["c.ts"]⟩ []] .empty

/-- In the bundle of these files, the second dependency of the first module is the first module that
its other dependency has not found. -/
theorem collect_preorder_diamondStore :
    ∃ g s', collect {} 4 ⟨true, ["main.ts"]⟩ diamondStore = some (.ok g, s') ∧
      g.dependenciesOf 0 = [1, 3] ∧ (∃ stop, g.block 0 = Set.Ico 0 stop) ∧
      (3 ∈ g.block 1 ∨ IsLeast {w | 0 < w ∧ w ∉ g.block 1} 3) := by
  have hrun : ∃ g s', collect {} 4 ⟨true, ["main.ts"]⟩ diamondStore = some (.ok g, s') ∧
      (g.size, g.dependenciesOf 0) = (4, [1, 3]) :=
    exists_of_map_collect (by decide +kernel)
  obtain ⟨g, s', hcollect, hgraph⟩ := hrun
  obtain ⟨hsize, hdeps⟩ := Prod.mk.inj hgraph
  obtain ⟨⟨stop, -, -, hblock⟩, hcut⟩ :=
    collect_preorder _ _ _ _ _ g hcollect 0 (by rw [hsize]; decide)
  have hsecond := hcut 1 3 (by rw [hdeps]; rfl) (by decide)
  rw [hdeps] at hsecond
  exact ⟨g, s', hcollect, hdeps, ⟨stop, hblock⟩, by simpa using hsecond⟩

end ModuleBundler
