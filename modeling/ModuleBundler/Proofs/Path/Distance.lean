import ModuleBundler.Path.Relative
import ModuleBundler.Proofs.Path.NormalForm
import ModuleBundler.Proofs.Path.RoundTrip

/-!
# The shortest way from a directory to a path

From a directory one gets to a path out of the names that only the directory has, and down the names
that only the path has. `Path.relativeTo` writes these steps down, and whoever reads the text from
the directory is led to the path (`Path.climb_stepsFrom`, `Path.parse_relativeTo`).

That there is no shorter way is a statement about all relative paths, whatever detours they take. It
rests on a distance. Two lists of names are apart by what is left of them behind the front they
share (`Path.distance`). A segment adds a name at the end of the names above, or takes the last one,
and by either the distance changes by one (`Path.distance_concat`). So a path that leads over a
distance has that many segments at least (`Path.distance_le_length`), and the way that is written
down has no more.
-/

namespace ModuleBundler.Path

variable {absolute : Bool} {names others above left out segments : List String} {path base : Path}

/-! ### How far paths are apart -/

/-- Two lists share a front, and behind it they have what is left of them. -/
theorem exists_shared (names others : List String) : ∃ shared,
    names = shared ++ (dropShared names others).1 ∧
      others = shared ++ (dropShared names others).2 := by
  fun_induction dropShared names others with
  | case1 names name others ih =>
    obtain ⟨shared, hnames, hothers⟩ := ih
    exact ⟨name :: shared, congrArg _ hnames, congrArg _ hothers⟩
  | case2 => exact ⟨[], rfl, rfl⟩
  | case3 => exact ⟨[], rfl, rfl⟩

/-- How many names the lists have behind the front that they share. -/
def distance (names others : List String) : Nat :=
  (dropShared names others).1.length + (dropShared names others).2.length

theorem distance_self (names : List String) : distance names names = 0 := by
  induction names with
  | nil => rfl
  | cons name names ih =>
    rw [distance, dropShared, if_pos rfl]
    exact ih

/-- **One name more brings one nearer, or takes one farther away.** -/
theorem distance_concat (names others : List String) (name : String) :
    distance names (others ++ [name]) + 1 = distance names others ∨
      distance names (others ++ [name]) = distance names others + 1 := by
  fun_induction dropShared names others with
  | case1 names first others ih =>
    rw [List.cons_append, distance, dropShared, if_pos rfl, distance, dropShared, if_pos rfl]
    exact ih
  | case2 first names other others hne =>
    refine Or.inr ?_
    simp only [distance, List.cons_append, dropShared, if_neg hne, List.length_cons,
      List.length_append, List.length_nil]
    omega
  | case3 names others hends =>
    rcases names with - | ⟨first, names⟩
    · exact Or.inr (by simp [distance, dropShared])
    · -- only the empty list shares nothing with a list that has a first name
      obtain rfl : others = [] := by
        rcases others with - | ⟨other, others⟩
        · rfl
        · exact absurd rfl (hends first names other others rfl)
      by_cases hfirst : first = name
      · exact Or.inl (by simp [distance, dropShared, hfirst])
      · exact Or.inr (by simp [distance, dropShared, hfirst])

/-- **A way has as many segments as it leads far**, and may have more. -/
theorem distance_le_length (h : climb true above segments = some left) :
    distance left.reverse above.reverse ≤ segments.length := by
  fun_induction climb true above segments with
  | case1 =>
    obtain rfl := Option.some.inj h
    rw [distance_self]
    exact Nat.zero_le _
  | case2 above segment rest hname ih =>
    have hrest := ih h
    rw [List.reverse_cons] at hrest
    have hstep := distance_concat left.reverse above.reverse segment
    rw [List.length_cons]
    omega
  | case3 segment rest hname last higher hlast ih =>
    have hrest := ih h
    have hstep := distance_concat left.reverse higher.reverse last
    rw [List.reverse_cons, List.length_cons]
    omega
  | case4 => cases h
  | case5 _ _ _ _ _ _ habsolute => exact absurd rfl habsolute
  | case6 => cases h
  | case7 _ _ _ habsolute => exact absurd rfl habsolute

/-! ### The way that is written down -/

/-- The way leads out of the names that are not shared, and then down. -/
theorem stepsFrom_eq (hpath : path.WellFormed) :
    stepsFrom base path =
      List.replicate (dropShared path.segments base.segments).2.length parentName ++
        (dropShared path.segments base.segments).1 := by
  obtain ⟨shared, hshared, -⟩ := exists_shared path.segments base.segments
  have hbelow : ∀ segment ∈ (dropShared path.segments base.segments).1, Plain segment :=
    fun segment hsegment ↦ hpath segment (hshared ▸ List.mem_append_right shared hsegment)
  simp only [stepsFrom, List.map_const', flatMap_split hbelow]

/-- The way is as long as the distance. -/
theorem length_stepsFrom (hpath : path.WellFormed) :
    (stepsFrom base path).length = distance path.segments base.segments := by
  rw [stepsFrom_eq hpath, List.length_append, List.length_replicate, distance, Nat.add_comm]

/-- Steps up remove the names above. -/
theorem climb_replicate_append (hout : parentName ∉ out) :
    climb absolute (out ++ above) (List.replicate out.length parentName) = some above := by
  induction out with
  | nil => rfl
  | cons name out ih =>
    rw [List.mem_cons, not_or] at hout
    have hstep : climb absolute (name :: (out ++ above))
        (parentName :: List.replicate out.length parentName) =
          climb absolute (out ++ above) (List.replicate out.length parentName) := by
      simp [climb, Ne.symm hout.1]
    rw [List.length_cons, List.replicate_succ, List.cons_append, hstep, ih hout.2]

/-- **The way leads from the directory to the path.** -/
theorem climb_stepsFrom (hplain : path.WellFormed) (hpath : parentName ∉ path.segments)
    (hbase : parentName ∉ base.segments) :
    climb absolute base.segments.reverse (stepsFrom base path) = some path.segments.reverse := by
  obtain ⟨shared, hnames, hothers⟩ := exists_shared path.segments base.segments
  rw [stepsFrom_eq hplain]
  generalize (dropShared path.segments base.segments).1 = below at hnames ⊢
  generalize (dropShared path.segments base.segments).2 = out at hothers ⊢
  rw [hnames, List.mem_append, not_or] at hpath
  rw [hothers, List.mem_append, not_or] at hbase
  have hup : climb absolute (out.reverse ++ shared.reverse)
      (List.replicate out.length parentName) = some shared.reverse := by
    rw [← List.length_reverse]
    exact climb_replicate_append fun hmem ↦ hbase.2 (List.mem_reverse.1 hmem)
  rw [hnames, hothers, List.reverse_append, List.reverse_append, climb_append, hup,
    Option.bind_some, climb_of_not_mem hpath.2]

/-- **The text is read as the way that it was written for.** -/
theorem parse_relativeTo (path base : Path) :
    parse (path.relativeTo base) = ⟨false, stepsFrom base path⟩ := by
  have hplain : ∀ segment ∈ stepsFrom base path, Plain segment := by
    have hup : Plain parentName := by decide
    intro segment hsegment
    rcases List.mem_append.1 hsegment with hsegment | hsegment
    · obtain ⟨-, -, rfl⟩ := List.mem_map.1 hsegment
      exact hup
    · obtain ⟨name, -, hname⟩ := List.mem_flatMap.1 hsegment
      exact plain_of_mem_split hname
  rw [relativeTo]
  generalize stepsFrom base path = steps at hplain ⊢
  rcases steps with - | ⟨first, rest⟩
  · decide
  · obtain ⟨hempty, -, hslash⟩ := hplain first List.mem_cons_self
    -- the first step is a name or leads up, and neither begins with a slash
    have hhead : ("/".intercalate (first :: rest)).toList.head? ≠ some '/' := by
      rw [intercalate_eq_append_slashed, String.toList_append]
      rcases hfirst : first.toList with - | ⟨c, cs⟩
      · exact absurd (String.toList_eq_nil_iff.1 hfirst) hempty
      · rw [hfirst] at hslash
        exact fun hc ↦ hslash (Option.some.inj hc ▸ List.mem_cons_self)
    rw [List.isEmpty_cons, if_neg Bool.false_ne_true, parse, split_intercalate,
      flatMap_split hplain, beq_false_of_ne hhead]

/-! ### Back to the path -/

/-- **What is shown of a path leads back to it, by the shortest way.** The text that names a path
for a reader in a directory is read as a relative path, which leads from the directory to the path.
No relative path that leads there has fewer segments, whatever they are. So for one directory,
different paths have different texts. -/
theorem relativeTo_leadsBack (path base : Path) (hplain : path.WellFormed)
    (hpath : path.isCanonical = true) (hbase : base.isCanonical = true) :
    (parse (path.relativeTo base)).absolute = false ∧
      (base.join (parse (path.relativeTo base))).normalize = .ok path ∧
      (∀ r : Path, r.absolute = false → (base.join r).normalize = .ok path →
        (parse (path.relativeTo base)).segments.length ≤ r.segments.length) ∧
      ∀ other : Path, other.WellFormed → other.isCanonical = true →
        other.relativeTo base = path.relativeTo base → other = path := by
  have hnames {p : Path} (hp : p.isCanonical = true) :
      p = ⟨true, p.segments⟩ ∧ parentName ∉ p.segments := by
    obtain ⟨absolute, segments⟩ := p
    simpa [isCanonical] using hp
  obtain ⟨hroot, hupBase⟩ := hnames hbase
  have hclimb {segments : List String} : climb true [] (base.segments ++ segments) =
      climb true base.segments.reverse segments := by
    rw [climb_append, climb_of_not_mem hupBase, List.append_nil, Option.bind_some]
  have hleads {p : Path} (hp : p.WellFormed) (hcanonical : p.isCanonical = true) :
      (base.join (parse (p.relativeTo base))).normalize = .ok p := by
    obtain ⟨hp', hup⟩ := hnames hcanonical
    rw [parse_relativeTo, hroot]
    refine normalize_eq_ok.2 ⟨p.segments.reverse, ?_, ?_⟩
    · rw [hclimb]
      exact climb_stepsFrom hp hup hupBase
    · rw [List.reverse_reverse]
      exact hp'.symm
  refine ⟨by rw [parse_relativeTo], hleads hplain hpath, fun r hr hnormalize ↦ ?_,
    fun other hother hcanonical heq ↦ ?_⟩
  · obtain ⟨absolute, segments⟩ := r
    obtain rfl : absolute = false := hr
    rw [hroot] at hnormalize
    obtain ⟨left, hleft, rfl⟩ := normalize_eq_ok.1 hnormalize
    rw [hclimb] at hleft
    have hdistance := distance_le_length hleft
    rw [List.reverse_reverse] at hdistance
    rwa [parse_relativeTo, length_stepsFrom hplain]
  · have hback := hleads hother hcanonical
    rw [heq, hleads hplain hpath] at hback
    exact (Except.ok.inj hback).symm

/-- A page beside an interface, as it is seen from a directory of the interface; the way over the
root is longer. -/
theorem relativeTo_leadsBack_web :
    relativeTo ⟨true, ["apps", "web", "index.ts"]⟩ ⟨true, ["apps", "api", "v1"]⟩ =
        "../../web/index.ts" ∧
      (join ⟨true, ["apps", "api", "v1"]⟩ (parse "../../web/index.ts")).normalize =
        .ok ⟨true, ["apps", "web", "index.ts"]⟩ ∧
      (parse "../../web/index.ts").segments.length ≤
        ["..", "..", "..", "apps", "web", "index.ts"].length := by
  have htext : relativeTo ⟨true, ["apps", "web", "index.ts"]⟩ ⟨true, ["apps", "api", "v1"]⟩ =
      "../../web/index.ts" := by decide
  obtain ⟨-, hleads, hshortest, -⟩ := relativeTo_leadsBack ⟨true, ["apps", "web", "index.ts"]⟩
    ⟨true, ["apps", "api", "v1"]⟩ (by decide) (by decide) (by decide)
  rw [htext] at hleads hshortest
  exact ⟨htext, hleads, hshortest ⟨false, ["..", "..", "..", "apps", "web", "index.ts"]⟩ rfl
    (by decide)⟩

end ModuleBundler.Path
