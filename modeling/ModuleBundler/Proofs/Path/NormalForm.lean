import Mathlib.Data.List.Infix
import ModuleBundler.Proofs.Path.Grounded

/-!
# Normal forms of paths

`Path.normalize` reads a path from the first segment to the last and keeps what is left so far. What
is left has a shape that no reading leaves: names, on top of steps up that found nothing to remove
(`Path.Settled`). From this shape follow the two laws of a normal form.

* Reading what is left once more changes nothing (`Path.Settled.climb_reverse`).
* **Parts of a path may be read first.** The front may, since a reading goes on from what is left of
  the front, whatever the front was (`Path.climb_append`). The rest may, since the steps up that are
  left of it are those that reach into the front (`Path.climb_of_reading`); that needs an induction
  from the end of the rest, for the last segment decides which of its own names are still there.

A relative path reads as something always. An absolute one does not if at some point it has taken
more steps up than it has gone down, and this is a matter of counting (`Path.climb_eq_none_iff`).
-/

namespace ModuleBundler.Path

variable {absolute : Bool} {above left names front rest segments : List String}
  {segment name : String} {p q : Path}

/-! ### What is left -/

/-- What is left of segments, in reverse: names on top of steps up, of which an absolute path has
none. -/
def Settled (absolute : Bool) (left : List String) : Prop :=
  ∃ names ups, left = names ++ List.replicate ups parentName ∧ parentName ∉ names ∧
    (absolute = true → ups = 0)

theorem settled_nil (absolute : Bool) : Settled absolute [] :=
  ⟨[], 0, rfl, List.not_mem_nil, fun _ ↦ rfl⟩

theorem settled_parentName : Settled false [parentName] :=
  ⟨[], 1, rfl, List.not_mem_nil, fun h ↦ absurd h Bool.false_ne_true⟩

/-- A name goes on top. -/
theorem Settled.cons (h : Settled absolute left) (hname : name ≠ parentName) :
    Settled absolute (name :: left) := by
  obtain ⟨names, ups, rfl, hnames, hups⟩ := h
  exact ⟨name :: names, ups, rfl, List.not_mem_cons_of_ne_of_not_mem hname.symm hnames, hups⟩

/-- A step up takes the name from the top. -/
theorem Settled.tail (h : Settled absolute (name :: left)) (hname : name ≠ parentName) :
    Settled absolute left := by
  obtain ⟨names, ups, heq, hnames, hups⟩ := h
  rcases names with - | ⟨first, names⟩
  · have hmem : name ∈ List.replicate ups parentName := by
      rw [← List.nil_append (List.replicate ups parentName), ← heq]
      exact List.mem_cons_self
    exact absurd (List.eq_of_mem_replicate hmem) hname
  · obtain ⟨-, rfl⟩ := List.cons.inj heq
    exact ⟨names, ups, rfl, fun hmem ↦ hnames (List.mem_cons_of_mem _ hmem), hups⟩

/-- Where a step up is on top, there are no names. -/
theorem Settled.push (h : Settled false (parentName :: left)) :
    Settled false (parentName :: parentName :: left) := by
  obtain ⟨names, ups, heq, hnames, -⟩ := h
  rcases names with - | ⟨first, names⟩
  · exact ⟨[], ups + 1, by rw [heq, List.replicate_succ]; rfl, List.not_mem_nil,
      fun h ↦ absurd h Bool.false_ne_true⟩
  · obtain ⟨rfl, -⟩ := List.cons.inj heq
    exact absurd List.mem_cons_self hnames

/-- **Reading keeps the shape of what is left.** -/
theorem Settled.climb (habove : Settled absolute above)
    (h : climb absolute above segments = some left) : Settled absolute left := by
  fun_induction Path.climb absolute above segments with
  | case1 => exact Option.some.inj h ▸ habove
  | case2 above segment rest hname ih => exact ih (habove.cons (bne_iff_ne.1 hname)) h
  | case3 segment rest hname last higher hlast ih => exact ih (habove.tail (bne_iff_ne.1 hlast)) h
  | case4 => cases h
  | case5 segment rest hname last higher hlast habsolute ih =>
    obtain rfl : absolute = false := Bool.eq_false_iff.2 habsolute
    obtain rfl : segment = parentName := by simpa using hname
    obtain rfl : last = parentName := by simpa using hlast
    exact ih habove.push h
  | case6 => cases h
  | case7 segment rest hname habsolute ih =>
    obtain rfl : absolute = false := Bool.eq_false_iff.2 habsolute
    obtain rfl : segment = parentName := by simpa using hname
    exact ih settled_parentName h

/-- A name is read by putting it on top. -/
theorem climb_name (hname : name ≠ parentName) :
    climb absolute above [name] = some (name :: above) := by
  simp [climb, hname]

/-- Names are read one after the other. -/
theorem climb_of_not_mem (h : parentName ∉ names) :
    climb absolute above names = some (names.reverse ++ above) := by
  induction names generalizing above with
  | nil => rfl
  | cons name names ih =>
    rw [List.mem_cons, not_or] at h
    have hname : climb absolute above (name :: names) = climb absolute (name :: above) names := by
      simp [climb, Ne.symm h.1]
    rw [hname, ih h.2, List.reverse_cons, List.append_assoc, List.singleton_append]

/-- Steps up that find nothing to remove are kept. -/
theorem climb_replicate (ups k : Nat) :
    climb false (List.replicate k parentName) (List.replicate ups parentName) =
      some (List.replicate (k + ups) parentName) := by
  induction ups generalizing k with
  | zero => rfl
  | succ ups ih =>
    have hstep : climb false (List.replicate k parentName) (List.replicate (ups + 1) parentName) =
        climb false (List.replicate (k + 1) parentName) (List.replicate ups parentName) := by
      rcases k with - | k <;> simp [List.replicate_succ, climb]
    rw [hstep, ih (k + 1), Nat.add_right_comm, Nat.add_assoc]

/-- **What is left reads as itself.** -/
theorem Settled.climb_reverse (h : Settled absolute left) :
    Path.climb absolute [] left.reverse = some left := by
  obtain ⟨names, ups, rfl, hnames, hups⟩ := h
  have hbottom : Path.climb absolute [] (List.replicate ups parentName) =
      some (List.replicate ups parentName) := by
    cases absolute with
    | false => rw [← List.replicate_zero (a := parentName), climb_replicate, Nat.zero_add]
    | true => rw [hups rfl]; rfl
  rw [List.reverse_append, List.reverse_replicate, climb_append, hbottom, Option.bind_some,
    climb_of_not_mem fun hmem ↦ hnames (List.mem_reverse.1 hmem), List.reverse_reverse]

/-! ### Reading the rest first -/

/-- A relative path reads as something. -/
theorem exists_climb (above segments : List String) :
    ∃ left, climb false above segments = some left := by
  fun_induction climb false above segments <;> simp_all

/-- What one segment more does to a relative path: it stays as it is, or it is a step up that takes
the name that was last. -/
theorem climb_singleton_cases (h : climb false above [segment] = some left) :
    left = segment :: above ∨
      segment = parentName ∧ ∃ name, name ≠ parentName ∧ above = name :: left := by
  by_cases hname : segment = parentName
  · rcases above with - | ⟨last, higher⟩
    · exact Or.inl (by simpa [climb, hname, eq_comm] using h)
    · by_cases hlast : last = parentName
      · exact Or.inl (by simpa [climb, hname, hlast, eq_comm] using h)
      · have hleft : higher = left := by simpa [climb, hname, hlast] using h
        exact Or.inr ⟨hname, last, hlast, by rw [hleft]⟩
  · rw [climb_name hname] at h
    exact Or.inl (Option.some.inj h).symm

/-- A name and a step up come to nothing. -/
theorem climb_concat_parentName (hname : name ≠ parentName) :
    climb absolute above (front ++ [name] ++ [parentName]) = climb absolute above front := by
  have hpair (left : List String) : climb absolute left [name, parentName] = some left := by
    simp [climb, hname]
  rw [List.append_assoc, climb_append]
  simp only [List.cons_append, List.nil_append, hpair]
  exact Option.bind_fun_some _

/-- **Behind any front, segments may be read first.** -/
theorem climb_of_reading (h : climb false [] segments = some left) :
    climb absolute above segments = climb absolute above left.reverse := by
  induction segments using List.reverseRecOn generalizing left with
  | nil =>
    obtain rfl := Option.some.inj h
    rfl
  | append_singleton front segment ih =>
    rw [climb_append] at h
    obtain ⟨before, hbefore, hlast⟩ := Option.bind_eq_some_iff.1 h
    -- the last segment is read behind what is left of the others
    have hfront : climb absolute above (front ++ [segment]) =
        climb absolute above (before.reverse ++ [segment]) := by
      rw [climb_append, climb_append, ih hbefore]
    rw [hfront]
    rcases climb_singleton_cases hlast with rfl | ⟨rfl, name, hname, rfl⟩
    · rw [List.reverse_cons]
    · rw [List.reverse_cons, climb_concat_parentName hname]

/-! ### Paths that lead above their root -/

/-- At some point, more steps up were taken than names were gone down. -/
def LeavesRoot (segments : List String) : Prop :=
  ∃ front, front <+: segments ∧ front.countP (· != parentName) < front.count parentName

/-- A front of a list is empty, or it is the first element with a front of the others. -/
theorem exists_prefix_cons {P : List String → Prop} :
    (∃ front, front <+: segment :: rest ∧ P front) ↔
      P [] ∨ ∃ front, front <+: rest ∧ P (segment :: front) := by
  simp only [List.prefix_cons_iff]
  constructor
  · rintro ⟨front, rfl | ⟨front, rfl, hfront⟩, hP⟩
    · exact Or.inl hP
    · exact Or.inr ⟨front, hfront, hP⟩
  · rintro (hP | ⟨front, hfront, hP⟩)
    · exact ⟨[], Or.inl rfl, hP⟩
    · exact ⟨segment :: front, Or.inr ⟨front, rfl, hfront⟩, hP⟩

/-- **Reading fails where the steps up outnumber the names**, those that were there before
included. -/
theorem climb_eq_none_iff (habove : parentName ∉ above) :
    climb true above segments = none ↔ ∃ front, front <+: segments ∧
      above.length + front.countP (· != parentName) < front.count parentName := by
  induction segments generalizing above with
  | nil => simp [climb]
  | cons segment rest ih =>
    -- the empty front has no steps up, so that a front that leads up starts with `segment`
    rw [exists_prefix_cons, or_iff_right (by simp)]
    by_cases hname : segment = parentName
    · rcases above with - | ⟨last, higher⟩
      · have hnone : climb true [] (segment :: rest) = none := by simp [climb, hname]
        exact iff_of_true hnone ⟨[], List.nil_prefix, by simp [hname]⟩
      · have hlast : last ≠ parentName := fun heq ↦ habove (heq ▸ List.mem_cons_self)
        have hstep : climb true (last :: higher) (segment :: rest) = climb true higher rest := by
          simp [climb, hname, hlast]
        rw [hstep, ih fun hmem ↦ habove (List.mem_cons_of_mem _ hmem)]
        refine exists_congr fun front ↦ and_congr_right fun _ ↦ ?_
        simp only [hname, List.length_cons, List.countP_cons, List.count_cons, bne_self_eq_false,
          beq_self_eq_true, Bool.false_eq_true, if_true, if_false]
        omega
    · have hstep : climb true above (segment :: rest) = climb true (segment :: above) rest := by
        simp [climb, hname]
      rw [hstep, ih (List.not_mem_cons_of_ne_of_not_mem (Ne.symm hname) habove)]
      refine exists_congr fun front ↦ and_congr_right fun _ ↦ ?_
      have hup : (segment == parentName) = false := beq_eq_false_iff_ne.2 hname
      simp only [List.length_cons, List.countP_cons, List.count_cons, bne, hup, Bool.not_false,
        Bool.false_eq_true, if_true, if_false]
      omega

/-! ### Normal forms -/

theorem toOption_normalize (p : Path) : p.normalize.toOption =
    (climb p.absolute [] p.segments).map fun left ↦ ⟨p.absolute, left.reverse⟩ := by
  rw [normalize]
  rcases climb p.absolute [] p.segments with - | left <;> rfl

theorem normalize_eq_ok_iff : p.normalize = .ok q ↔
    ∃ left, climb p.absolute [] p.segments = some left ∧ ⟨p.absolute, left.reverse⟩ = q := by
  rw [normalize]
  rcases climb p.absolute [] p.segments with - | left <;> simp [invalid]

theorem exists_normalize_eq_error_iff :
    (∃ e, p.normalize = .error e) ↔ climb p.absolute [] p.segments = none := by
  rw [normalize]
  rcases climb p.absolute [] p.segments with - | left <;> simp [invalid]

/-- The front of a path may be read first. If it cannot be read, nor can the whole. -/
theorem toOption_normalize_join (hq : q.absolute = false) : (p.join q).normalize.toOption =
    p.normalize.toOption.bind fun read ↦ (read.join q).normalize.toOption := by
  obtain ⟨absolute, segments⟩ := q
  obtain rfl : absolute = false := hq
  simp only [toOption_normalize, join, Bool.false_eq_true, if_false, climb_append, Option.map_bind,
    Option.bind_map, Function.comp_def]
  refine Option.bind_congr fun left hleft ↦ ?_
  rw [((settled_nil p.absolute).climb hleft).climb_reverse, Option.bind_some]

/-- The rest of a path may be read first. -/
theorem toOption_normalize_join_normalize {read : Path} (hq : q.absolute = false)
    (hread : q.normalize = .ok read) :
    (p.join q).normalize.toOption = (p.join read).normalize.toOption := by
  obtain ⟨absolute, segments⟩ := q
  obtain rfl : absolute = false := hq
  obtain ⟨left, hleft, rfl⟩ := normalize_eq_ok_iff.1 hread
  simp only [toOption_normalize, join, Bool.false_eq_true, if_false, climb_append,
    climb_of_reading hleft]

/-- **Reading a path is lexical, and parts of it may be read first.** A relative path reads as
something, and an absolute one does unless at some point it has taken more steps up than it has gone
down; then it is invalid, and nothing else is. What it reads as starts where the path starts, leads
up at its beginning only, and not at all if it is absolute, and reads as itself.

A path with a relative one behind it reads as the same, or as nothing, if either of the two is
replaced by what it reads as. If the front reads as nothing, the whole does. -/
theorem normalize_lexical (p : Path) :
    (p.absolute = false → ∃ q, p.normalize = .ok q) ∧
    (p.absolute = true → ((∃ e, p.normalize = .error e) ↔ LeavesRoot p.segments)) ∧
    (∀ e, p.normalize = .error e → ∃ cause, e = .invalidPath cause) ∧
    (∀ q, p.normalize = .ok q →
      q.absolute = p.absolute ∧
      (∃ ups names, q.segments = List.replicate ups parentName ++ names ∧ parentName ∉ names ∧
        (p.absolute = true → ups = 0)) ∧
      q.normalize = .ok q) ∧
    ∀ q : Path, q.absolute = false →
      (p.join q).normalize.toOption =
        p.normalize.toOption.bind (fun read ↦ (read.join q).normalize.toOption) ∧
      ∃ read, q.normalize = .ok read ∧
        (p.join q).normalize.toOption = (p.join read).normalize.toOption := by
  have hrelative : ∀ {q : Path}, q.absolute = false → ∃ read, q.normalize = .ok read := by
    intro q hq
    obtain ⟨left, hleft⟩ := exists_climb [] q.segments
    exact ⟨_, normalize_eq_ok_iff.2 ⟨left, by rw [hq]; exact hleft, rfl⟩⟩
  refine ⟨hrelative, fun hp ↦ ?_, fun e ↦ normalize_eq_error, fun q hq ↦ ?_, fun q hq ↦ ?_⟩
  · rw [exists_normalize_eq_error_iff, hp, climb_eq_none_iff List.not_mem_nil]
    simp [LeavesRoot]
  · obtain ⟨left, hleft, rfl⟩ := normalize_eq_ok_iff.1 hq
    have hsettled := (settled_nil p.absolute).climb hleft
    refine ⟨rfl, ?_, normalize_eq_ok_iff.2 ⟨left, hsettled.climb_reverse, rfl⟩⟩
    obtain ⟨names, ups, rfl, hnames, hups⟩ := hsettled
    refine ⟨ups, names.reverse, ?_, fun hmem ↦ hnames (List.mem_reverse.1 hmem), hups⟩
    rw [List.reverse_append, List.reverse_replicate]
  · obtain ⟨read, hread⟩ := hrelative hq
    exact ⟨toOption_normalize_join hq, read, hread, toOption_normalize_join_normalize hq hread⟩

end ModuleBundler.Path
