import ModuleBundler.Proofs.Disk.Canonical

/-!
# Walks in parts

A walk along a path that uses what the path leads to falls apart at every step: what is in front of
the step is walked first, and the rest from where that led to (`Disk.walk_goes_on`). The parts share
one thing, the number of links that may still be followed. So the parts of a walk succeed where the
walk does; and where the parts do, the walk does so with as many links as the parts need together.

How many links there are matters for nothing else. A walk that has more of them gives the same
answer, unless it had run out of them (`Disk.walk_more`).

All of this is read off what one step can do (`Disk.walk_cons_cases`), by induction on the links
that are left and on the steps.
-/

namespace ModuleBundler.Disk

variable {d : Disk} {place mid : Place} {front rest : List Step} {entry : DiskEntry}
  {whole : Bool} {links : Nat} {fault : OsFault}

theorem walk_here (hplace : d.isDirectory place = true) :
    d.walk .use whole links place (.here :: rest) = d.walk .use whole links place rest := by
  rw [walk, hplace]
  rfl

theorem walk_slash (hplace : d.isDirectory place = true) :
    d.walk .use whole links place (.slash :: rest) = d.walk .use whole links place rest := by
  rw [walk, hplace]
  rfl

/-- **What a step can do.** It fails, it leads on to some place, or it is replaced by the steps of a
link, if there are links left. Neither the links nor the steps behind it have a say in this. -/
theorem walk_cons_cases (d : Disk) (whole : Bool) (place : Place) (step : Step) :
    (∃ fault, fault ≠ .tooManyLinks ∧
      ∀ links rest, d.walk .use whole links place (step :: rest) = .error fault) ∨
    (∃ next, ∀ links rest,
      d.walk .use whole links place (step :: rest) = d.walk .use whole links next rest) ∨
    ∃ start steps,
      (∀ rest, d.walk .use whole 0 place (step :: rest) = .error .tooManyLinks) ∧
      ∀ links rest, d.walk .use whole (links + 1) place (step :: rest) =
        d.walk .use whole links start (steps ++ rest) := by
  rcases hdirectory : d.isDirectory place with - | -
  · exact Or.inl ⟨.notDirectory, by decide, fun _ _ ↦ walk_of_not_isDirectory hdirectory⟩
  rcases step with - | - | - | name
  · exact Or.inr (Or.inl ⟨place.dropLast, fun _ _ ↦ walk_up hdirectory⟩)
  · exact Or.inr (Or.inl ⟨place, fun _ _ ↦ walk_here hdirectory⟩)
  · exact Or.inr (Or.inl ⟨place, fun _ _ ↦ walk_slash hdirectory⟩)
  rcases hshort : isTooLong whole place name with - | -
  · rcases hentry : d.entry? (place ++ [name]) with - | data | - | target
    · refine Or.inl ⟨.notFound, by decide, fun _ _ ↦ ?_⟩
      rw [walk.eq_def]
      simp [hdirectory, hshort, hentry, Ending.use, Ending.obtain]
    · exact Or.inr (Or.inl ⟨_, walk_present hdirectory hshort hentry (by simp)⟩)
    · exact Or.inr (Or.inl ⟨_, walk_present hdirectory hshort hentry (by simp)⟩)
    · refine Or.inr (Or.inr ⟨_, _, fun _ ↦ ?_, walk_link hdirectory hshort hentry⟩)
      rw [walk.eq_def]
      simp [hdirectory, hshort, hentry, Ending.use, Ending.obtain]
  · refine Or.inl ⟨.nameTooLong, by decide, fun _ _ ↦ ?_⟩
    rw [walk.eq_def]
    simp [hdirectory, hshort, Ending.use, Ending.obtain]

/-- Induction along a walk: on the links that are left, and on the steps. -/
theorem walk_induction (d : Disk) (whole : Bool) {motive : Nat → Place → List Step → Prop}
    (nil : ∀ links place, motive links place [])
    (fails : ∀ links place step rest fault, fault ≠ .tooManyLinks →
      (∀ links rest, d.walk .use whole links place (step :: rest) = .error fault) →
      motive links place (step :: rest))
    (goes : ∀ links place step rest next,
      (∀ links rest, d.walk .use whole links place (step :: rest) =
        d.walk .use whole links next rest) →
      motive links next rest → motive links place (step :: rest))
    (spent : ∀ place step rest,
      (∀ rest, d.walk .use whole 0 place (step :: rest) = .error .tooManyLinks) →
      motive 0 place (step :: rest))
    (link : ∀ links place step rest start target,
      (∀ links rest, d.walk .use whole (links + 1) place (step :: rest) =
        d.walk .use whole links start (target ++ rest)) →
      motive links start (target ++ rest) → motive (links + 1) place (step :: rest))
    (links : Nat) (place : Place) (steps : List Step) : motive links place steps := by
  induction links generalizing place steps with
  | zero =>
    induction steps generalizing place with
    | nil => exact nil 0 place
    | cons step rest ih =>
      obtain ⟨fault, hne, hfails⟩ | ⟨next, hnext⟩ | ⟨_, _, hspent, -⟩ :=
        walk_cons_cases d whole place step
      · exact fails 0 place step rest fault hne hfails
      · exact goes 0 place step rest next hnext (ih next)
      · exact spent place step rest hspent
  | succ links ihlinks =>
    induction steps generalizing place with
    | nil => exact nil (links + 1) place
    | cons step rest ih =>
      obtain ⟨fault, hne, hfails⟩ | ⟨next, hnext⟩ | ⟨start, target, -, hlink⟩ :=
        walk_cons_cases d whole place step
      · exact fails (links + 1) place step rest fault hne hfails
      · exact goes (links + 1) place step rest next hnext (ih next)
      · exact link links place step rest start target hlink (ihlinks start (target ++ rest))

/-- **More links make a difference only where a walk ran out of them.** -/
theorem walk_more (d : Disk) (whole : Bool) (more links : Nat) (place : Place)
    (steps : List Step) :
    d.walk .use whole links place steps = .error .tooManyLinks ∨
      d.walk .use whole (links + more) place steps = d.walk .use whole links place steps := by
  induction links, place, steps using walk_induction d whole with
  | nil links place => exact Or.inr (by rw [walk, walk])
  | fails links place step rest fault _ hfails =>
    exact Or.inr ((hfails _ _).trans (hfails _ _).symm)
  | goes links place step rest next hnext ih =>
    rw [hnext, hnext]
    exact ih
  | spent place step rest hspent => exact Or.inl (hspent rest)
  | link links place step rest start target hlink ih =>
    rw [hlink, Nat.succ_add, hlink]
    exact ih

/-- A walk that ends at something does so with more links as well. -/
theorem walk_of_le {steps : List Step} {more : Nat} (hle : links ≤ more)
    (h : d.walk .use whole links place steps = .ok (.found mid entry)) :
    d.walk .use whole more place steps = .ok (.found mid entry) := by
  have hmore := walk_more d whole (more - links) links place steps
  rw [h, Nat.add_sub_cancel' hle] at hmore
  exact hmore.resolve_left nofun

/-- The links that the system follows suffice for a walk, or the system runs out of them. -/
theorem walk_mostLinks {steps : List Step}
    (h : d.walk .use whole links place steps = .ok (.found mid entry)) :
    d.walk .use whole mostLinks place steps = .ok (.found mid entry) ∨
      d.walk .use whole mostLinks place steps = .error .tooManyLinks := by
  rcases Nat.le_total links mostLinks with hle | hle
  · exact Or.inl (walk_of_le hle h)
  · have hmore := walk_more d whole (links - mostLinks) mostLinks place steps
    rw [Nat.add_sub_cancel' hle, h] at hmore
    exact hmore.symm.imp Eq.symm id

/-- A walk that uses what a path leads to ends at something, if it does not fail. -/
theorem exists_found_of_walk {landing : Landing}
    (h : d.walk .use whole links place front = .ok landing) :
    ∃ mid entry, landing = .found mid entry := by
  induction links, place, front using walk_induction d whole with
  | nil links place =>
    rw [walk] at h
    split at h
    · exact ⟨_, _, (Except.ok.inj h).symm⟩
    · cases h
  | fails links place step rest fault _ hfails =>
    rw [hfails] at h
    cases h
  | goes links place step rest next hnext ih => exact ih ((hnext _ _).symm.trans h)
  | spent place step rest hspent =>
    rw [hspent] at h
    cases h
  | link links place step rest start target hlink ih => exact ih ((hlink _ _).symm.trans h)

/-- **A walk goes on from where its first part ends**, with the links that this part has left. -/
theorem walk_goes_on (h : d.walk .use whole links place front = .ok (.found mid entry)) :
    ∃ left ≤ links, ∀ more rest, d.walk .use whole (links + more) place (front ++ rest) =
      d.walk .use whole (left + more) mid rest := by
  induction links, place, front using walk_induction d whole with
  | nil links place =>
    rw [walk] at h
    split at h
    · obtain ⟨rfl, -⟩ := Landing.found.inj (Except.ok.inj h)
      exact ⟨links, le_rfl, fun _ _ ↦ rfl⟩
    · cases h
  | fails links place step rest fault _ hfails =>
    rw [hfails] at h
    cases h
  | goes links place step rest next hnext ih =>
    obtain ⟨left, hle, hgoes⟩ := ih ((hnext _ _).symm.trans h)
    exact ⟨left, hle, fun more further ↦ (hnext _ _).trans (hgoes more further)⟩
  | spent place step rest hspent =>
    rw [hspent] at h
    cases h
  | link links place step rest start target hlink ih =>
    obtain ⟨left, hle, hgoes⟩ := ih ((hlink _ _).symm.trans h)
    refine ⟨left, Nat.le_succ_of_le hle, fun more further ↦ ?_⟩
    rw [List.cons_append, Nat.succ_add, hlink, ← List.append_assoc]
    exact hgoes more further

/-- A walk fails if its first part does. -/
theorem exists_error_of_walk (h : d.walk .use whole links place front = .error fault)
    (rest : List Step) :
    ∃ fault, d.walk .use whole links place (front ++ rest) = .error fault := by
  induction links, place, front using walk_induction d whole with
  | nil links place =>
    rcases rest with - | ⟨step, rest⟩
    · exact ⟨fault, h⟩
    · have hnothing : d.isDirectory place = false := by
        rw [walk] at h
        split at h
        · cases h
        · rw [isDirectory, ‹d.entry? place = none›]
          rfl
      exact ⟨.notDirectory, walk_of_not_isDirectory hnothing⟩
  | fails links place step front fault _ hfails => exact ⟨fault, hfails _ _⟩
  | goes links place step front next hnext ih =>
    rw [List.cons_append, hnext]
    exact ih ((hnext _ _).symm.trans h)
  | spent place step front hspent => exact ⟨.tooManyLinks, hspent _⟩
  | link links place step front start target hlink ih =>
    rw [List.cons_append, hlink, ← List.append_assoc]
    exact ih ((hlink _ _).symm.trans h)

/-- **The first part of a walk that ends at something ends at something**, and the rest leads on
from there, with the links that are left. -/
theorem exists_parts_of_walk {q : Place} {last : DiskEntry}
    (h : d.walk .use whole links place (front ++ rest) = .ok (.found q last)) :
    ∃ mid entry left, left ≤ links ∧
      d.walk .use whole links place front = .ok (.found mid entry) ∧
      d.walk .use whole left mid rest = .ok (.found q last) := by
  rcases hfront : d.walk .use whole links place front with fault | landing
  · obtain ⟨fault, hfails⟩ := exists_error_of_walk hfront rest
    rw [hfails] at h
    cases h
  · obtain ⟨mid, entry, rfl⟩ := exists_found_of_walk hfront
    obtain ⟨left, hle, hgoes⟩ := walk_goes_on hfront
    exact ⟨mid, entry, left, hle, rfl, (hgoes 0 rest).symm.trans h⟩

/-- Two parts make a walk, with the links that both need together. -/
theorem walk_of_parts {q : Place} {last : DiskEntry} {more : Nat}
    (hfront : d.walk .use whole links place front = .ok (.found mid entry))
    (hrest : d.walk .use whole more mid rest = .ok (.found q last)) :
    d.walk .use whole (links + more) place (front ++ rest) = .ok (.found q last) := by
  obtain ⟨left, -, hgoes⟩ := walk_goes_on hfront
  rw [hgoes]
  exact walk_of_le (Nat.le_add_left more left) hrest

/-- The names of a canonical place lead from the root to it, whatever follows them. -/
theorem IsCanonical.walk_root (h : d.IsCanonical place) (whole : Bool) (links : Nat)
    (rest : List Step) : d.walk .use whole links [] (place.map Step.ofSegment ++ rest) =
      d.walk .use whole links place rest := by
  obtain ⟨entry, hentry, -⟩ := h.standing
  have hnames : d.walk .use whole 0 [] (place.map Step.ofSegment) = .ok (.found place entry) :=
    h.walk_segments hentry whole 0
  obtain ⟨left, hle, hgoes⟩ := walk_goes_on hnames
  obtain rfl := Nat.le_zero.1 hle
  have hon := hgoes links rest
  rwa [Nat.zero_add] at hon

end ModuleBundler.Disk
