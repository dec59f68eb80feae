import Mathlib.Data.List.Induction
import ModuleBundler.Path.Operations

/-!
# The lexical meaning of absolute paths

`Path.normalize` reads the segments of an absolute path from the first to the last and keeps what is
left of them. The meaning of a path with one segment more is therefore the meaning of the path
without it, changed by this segment: `Path.next?` says how, and `Path.normalize_concat` that nothing
else matters. What is left never leads up, so that a step up removes a name, or fails at the root.

A path that never leaves the root behind means the same under any directory
(`Path.normalize_under`): its steps up remove its own names only.
-/

namespace ModuleBundler.Path

variable {absolute : Bool} {above left front rest : List String} {segment : String} {d q : Path}

/-- Where a segment leads from a canonical path, whatever exists. -/
def next? (p : Path) (segment : String) : Option Path :=
  if segment = parentName then
    if p.segments = [] then none else some ⟨true, p.segments.dropLast⟩
  else some ⟨true, p.segments ++ [segment]⟩

theorem next?_of_ne (hname : segment ≠ parentName) :
    d.next? segment = some ⟨true, d.segments ++ [segment]⟩ :=
  if_neg hname

/-- Following segments goes on from what is left of those before. -/
theorem climb_append : climb absolute above (front ++ rest) =
    (climb absolute above front).bind fun left ↦ climb absolute left rest := by
  fun_induction climb absolute above front <;> simp_all [climb]

/-- What is left of an absolute path does not lead up. -/
theorem not_mem_of_climb (h : climb true above front = some left) (habove : parentName ∉ above) :
    parentName ∉ left := by
  fun_induction climb true above front
  case case2 above segment rest hname ih =>
    have hup : parentName ≠ segment := fun heq ↦ bne_iff_ne.1 hname heq.symm
    exact ih h (List.not_mem_cons_of_ne_of_not_mem hup habove)
  all_goals simp_all

/-- One segment more changes what is left as `next?` says. -/
theorem map_climb_singleton (habove : parentName ∉ above) :
    (climb true above [segment]).map (fun left ↦ ⟨true, left.reverse⟩) =
      (⟨true, above.reverse⟩ : Path).next? segment := by
  by_cases hname : segment = parentName
  · subst hname
    rcases above with - | ⟨last, higher⟩
    · rfl
    · have hlast : last ≠ parentName := fun heq ↦ habove (heq ▸ List.mem_cons_self)
      simp [climb, next?, hlast]
  · simp [climb, next?, hname]

theorem normalize_eq_ok : normalize ⟨true, front⟩ = .ok q ↔
    ∃ left, climb true [] front = some left ∧ ⟨true, left.reverse⟩ = q := by
  rw [normalize]
  rcases climb true [] front with - | left <;> simp [invalid]

theorem isCanonical_of_normalize (h : normalize ⟨true, front⟩ = .ok q) : q.isCanonical = true := by
  obtain ⟨left, hleft, rfl⟩ := normalize_eq_ok.1 h
  have hup : parentName ∉ left := not_mem_of_climb hleft List.not_mem_nil
  simp [isCanonical, hup]

theorem absolute_of_isCanonical {p : Path} (h : p.isCanonical = true) : p.absolute = true :=
  (Bool.and_eq_true_iff.1 h).1

theorem absolute_of_normalize (h : normalize ⟨true, front⟩ = .ok q) : q.absolute = true :=
  absolute_of_isCanonical (isCanonical_of_normalize h)

/-- **The last segment changes what the others mean**, and depends on nothing else. -/
theorem normalize_concat : normalize ⟨true, front ++ [segment]⟩ = .ok q ↔
    ∃ d, normalize ⟨true, front⟩ = .ok d ∧ d.next? segment = some q := by
  simp only [normalize_eq_ok, climb_append, Option.bind_eq_some_iff]
  constructor
  · rintro ⟨left, ⟨above, habove, hleft⟩, rfl⟩
    refine ⟨_, ⟨above, habove, rfl⟩, ?_⟩
    rw [← map_climb_singleton (not_mem_of_climb habove List.not_mem_nil), hleft, Option.map_some]
  · rintro ⟨d, ⟨above, habove, rfl⟩, hnext⟩
    rw [← map_climb_singleton (not_mem_of_climb habove List.not_mem_nil)] at hnext
    obtain ⟨left, hleft, hq⟩ := Option.map_eq_some_iff.1 hnext
    exact ⟨left, ⟨above, habove, hleft⟩, hq⟩

/-! ### Paths under a directory -/

/-- The path that `p` becomes if the root is moved to `base`. -/
def under (base p : Path) : Path :=
  ⟨true, base.segments ++ p.segments⟩

variable {base p : Path}

theorem parent_under (h : p.parent = .ok d) : (base.under p).parent = .ok (base.under d) := by
  rw [parent] at h
  split at h
  · cases h
  · rename_i hne
    rw [List.isEmpty_iff] at hne
    obtain rfl := Except.ok.inj h
    simp [parent, under, hne, List.dropLast_append_of_ne_nil hne]

theorem next?_under (h : d.next? segment = some q) :
    (base.under d).next? segment = some (base.under q) := by
  rw [next?] at h ⊢
  split at h
  · split at h
    · cases h
    · rename_i hup hne
      obtain rfl := Option.some.inj h
      simp [under, hup, hne, List.dropLast_append_of_ne_nil hne]
  · rename_i hname
    obtain rfl := Option.some.inj h
    simp [under, hname]

/-- **A path means under a directory what it means from the root.** A step up that removes a name of
the directory would have failed at the root. -/
theorem normalize_under (hbase : normalize ⟨true, base.segments⟩ = .ok (base.under root))
    (h : normalize ⟨true, front⟩ = .ok q) :
    normalize ⟨true, base.segments ++ front⟩ = .ok (base.under q) := by
  induction front using List.reverseRecOn generalizing q with
  | nil =>
    obtain rfl : root = q := Except.ok.inj h
    rwa [List.append_nil]
  | append_singleton front segment ih =>
    obtain ⟨d, hd, hnext⟩ := normalize_concat.1 h
    rw [← List.append_assoc]
    exact normalize_concat.2 ⟨base.under d, ih hd, next?_under hnext⟩

end ModuleBundler.Path
