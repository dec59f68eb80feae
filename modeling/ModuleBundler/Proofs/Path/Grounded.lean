import ModuleBundler.Proofs.Path.Lexical
import ModuleBundler.Proofs.Path.WellFormed

/-!
# Steps up from the root

An absolute path that leads above its root reads as nothing. The operating system has another
opinion: it takes a step up from the root for a step to the root. What it makes of a path is what
the path means without these steps, `Path.grounded`.

They are found by counting how many names one stands below the root. A path that reads as something
has none of them (`Path.grounded_of_normalize`).
-/

namespace ModuleBundler.Path

/-- Segments without the steps up from the root, for one who stands `depth` names below it. -/
def ground : (depth : Nat) → List String → List String
  | _, [] => []
  | depth, segment :: rest =>
    if segment ≠ parentName then segment :: ground (depth + 1) rest
    else if depth = 0 then ground 0 rest
    else segment :: ground (depth - 1) rest

/-- The path without the steps up from the root. -/
def grounded (p : Path) : Path :=
  ⟨p.absolute, ground 0 p.segments⟩

variable {depth : Nat} {segments above left : List String} {name : String} {p q : Path}

theorem ground_sublist (depth : Nat) (segments : List String) :
    (ground depth segments).Sublist segments := by
  induction segments generalizing depth with
  | nil => exact List.nil_sublist []
  | cons segment rest ih =>
    rw [ground]
    split
    · exact (ih _).cons_cons segment
    · split
      · exact (ih _).cons segment
      · exact (ih _).cons_cons segment

theorem WellFormed.grounded (h : p.WellFormed) : p.grounded.WellFormed :=
  fun segment hsegment ↦ h segment ((ground_sublist 0 p.segments).subset hsegment)

/-- Names are kept. -/
theorem ground_of_not_mem (h : parentName ∉ segments) : ground depth segments = segments := by
  induction segments generalizing depth with
  | nil => rfl
  | cons segment rest ih =>
    have hname : segment ≠ parentName := fun heq ↦ h (heq ▸ List.mem_cons_self)
    rw [ground, if_pos hname, ih fun hmem ↦ h (List.mem_cons_of_mem _ hmem)]

/-- A name at the end is kept. -/
theorem ground_concat (hname : name ≠ parentName) :
    ground depth (segments ++ [name]) = ground depth segments ++ [name] := by
  induction segments generalizing depth with
  | nil => simp [ground, hname]
  | cons segment rest ih =>
    rw [List.cons_append, ground, ground]
    split
    · rw [ih, List.cons_append]
    · split
      · exact ih
      · rw [ih, List.cons_append]

/-- Of segments that end in a step up nothing is left, or a step up at the end. -/
theorem ground_concat_parentName (depth : Nat) (segments : List String) :
    (∃ front, ground depth (segments ++ [parentName]) = front ++ [parentName]) ∨
      depth = 0 ∧ ground depth (segments ++ [parentName]) = [] := by
  induction segments generalizing depth with
  | nil =>
    rcases depth with - | above
    · exact Or.inr ⟨rfl, rfl⟩
    · exact Or.inl ⟨[], rfl⟩
  | cons segment rest ih =>
    rw [List.cons_append, ground]
    split
    case isTrue =>
      -- below a name there is something left
      obtain ⟨front, hfront⟩ := (ih (depth + 1)).resolve_right (by simp)
      exact Or.inl ⟨segment :: front, by rw [hfront, List.cons_append]⟩
    case isFalse hup =>
      split
      case isTrue hzero =>
        rw [hzero]
        exact ih 0
      case isFalse =>
        rcases ih (depth - 1) with ⟨front, hfront⟩ | ⟨-, hnil⟩
        · exact Or.inl ⟨segment :: front, by rw [hfront, List.cons_append]⟩
        · exact Or.inl ⟨[], by rw [hnil, not_not.1 hup, List.nil_append]⟩

/-- Where segments lead somewhere, there is no step up from the root among them. -/
theorem ground_of_climb (h : climb true above segments = some left) (habove : parentName ∉ above) :
    ground above.length segments = segments := by
  fun_induction climb true above segments with
  | case1 => rfl
  | case2 above segment rest hname ih =>
    have hup : segment ≠ parentName := bne_iff_ne.1 hname
    rw [ground, if_pos hup]
    exact congrArg _ (ih h (List.not_mem_cons_of_ne_of_not_mem hup.symm habove))
  | case3 segment rest hname last higher hlast ih =>
    have hup : ¬ segment ≠ parentName := fun hne ↦ hname (bne_iff_ne.2 hne)
    rw [ground, if_neg hup, if_neg (by simp)]
    exact congrArg _ (ih h fun hmem ↦ habove (List.mem_cons_of_mem _ hmem))
  | case4 segment rest hname last higher hlast => cases h
  | case5 segment rest hname last higher hlast habsolute => exact absurd rfl habsolute
  | case6 segment rest hname => cases h
  | case7 segment rest hname habsolute => exact absurd rfl habsolute

/-- **Of a path that reads as something, nothing is taken away.** -/
theorem grounded_of_normalize (hp : p.absolute = true) (h : p.normalize = .ok q) :
    p.grounded = p := by
  obtain ⟨absolute, segments⟩ := p
  obtain rfl : absolute = true := hp
  obtain ⟨left, hleft, -⟩ := normalize_eq_ok.1 h
  rw [grounded]
  exact congrArg (Path.mk true) (ground_of_climb hleft List.not_mem_nil)

/-- A path that reads as nothing is invalid. -/
theorem normalize_eq_error {e : Error} (h : p.normalize = .error e) :
    ∃ cause, e = .invalidPath cause := by
  rw [normalize] at h
  split at h
  · cases h
  · exact ⟨_, (Except.error.inj h).symm⟩

end ModuleBundler.Path
