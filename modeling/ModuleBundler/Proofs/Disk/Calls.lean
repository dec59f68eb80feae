import ModuleBundler.Proofs.Disk.Walk

/-!
# What the system answers about paths

The answers of the system to a path are those of the catalog to the path without the steps up from
the root. Two questions are asked: where a path leads to, and which entry a change at a path is
about.

* The canonical place is that of what the path denotes (`Disk.canonical_finds`). What is asked of
  the path is that the system takes it (`Disk.Takes`): it fails for nothing else than what is
  missing or is no directory. A path whose names and text are short enough is taken whatever stands
  on the disk (`Disk.takes_of_fits`).
* An operation on the last name of a path finds the entry that the change is about, or the name
  that is free (`Disk.reach_of_slot?`). Where the catalog has no such entry, what the system finds
  does not depend on the operation (`Disk.reach_of_slot?_eq_none`).
-/

namespace ModuleBundler

/-! ### Catalogs of trees -/

namespace Catalog

variable {m : Catalog} {p q : Path} {front segments : List String} {segment name : String}

/-- What a path denotes is what it reads as. -/
theorem normalize_of_denoted? (h : m.denoted? p = some q) :
    Path.normalize ⟨true, p.segments⟩ = .ok q := by
  rw [denoted?] at h
  generalize p.segments = segments at h ⊢
  induction segments using List.reverseRecOn generalizing q with
  | nil =>
    obtain rfl : Path.root = q := Option.some.inj h
    rfl
  | append_singleton front segment ih =>
    rw [List.foldlM_append] at h
    obtain ⟨above, habove, hstep⟩ := Option.bind_eq_some_iff.1 h
    have hnext : m.step above segment = some q := by simpa using hstep
    exact Path.normalize_concat.2 ⟨above, ih habove, (step_eq_some.1 hnext).2.1⟩

/-- A path that denotes something has no steps up from the root. -/
theorem grounded_of_denoted? (hp : p.absolute = true) (h : m.denoted? p = some q) :
    p.grounded = p := by
  obtain ⟨absolute, segments⟩ := p
  obtain rfl : absolute = true := hp
  exact Path.grounded_of_normalize rfl (normalize_of_denoted? h)

theorem slot?_concat (hname : name ≠ Path.parentName) : m.slot? ⟨true, front ++ [name]⟩ =
    (m.denoted? ⟨true, front⟩).bind fun above ↦
      if m above = some .directory then some (above.below name) else none := by
  rcases habove : m.denoted? ⟨true, front⟩ with - | above
  · simp [slot?, habove]
  · simp [slot?, habove, hname]

theorem slot?_concat_parentName : m.slot? ⟨true, front ++ [Path.parentName]⟩ = none := by
  rcases habove : m.denoted? ⟨true, front⟩ with - | above <;> simp [slot?, habove]

theorem slot?_root : m.slot? Path.root = none := rfl

/-- No entry goes by a step up, whatever is above. -/
theorem slot?_grounded_parentName :
    m.slot? (Path.grounded ⟨true, front ++ [Path.parentName]⟩) = none := by
  rw [Path.grounded]
  rcases Path.ground_concat_parentName 0 front with ⟨left, hleft⟩ | ⟨-, hnil⟩
  · simp only [hleft]
    exact slot?_concat_parentName
  · simp only [hnil]
    exact slot?_root

/-- Below something that is denoted, a change is about the same entry with or without the steps up
from the root. -/
theorem slot?_grounded (hfront : m.denoted? ⟨true, front⟩ ≠ none) :
    m.slot? (Path.grounded ⟨true, front ++ [segment]⟩) = m.slot? ⟨true, front ++ [segment]⟩ := by
  obtain ⟨q, hq⟩ := Option.ne_none_iff_exists'.1 hfront
  by_cases hname : segment = Path.parentName
  · rw [hname, slot?_grounded_parentName, slot?_concat_parentName]
  · have hground : Path.ground 0 front = front :=
      (Path.mk.inj (grounded_of_denoted? rfl hq)).2
    rw [Path.grounded, Path.ground_concat hname, hground]

namespace IsTree

/-- The path of an entry is the path of its place. -/
theorem path_segments (hm : m.IsTree) (hq : m q ≠ none) : Place.path q.segments = q := by
  obtain ⟨absolute, segments⟩ := q
  obtain rfl : absolute = true := Path.absolute_of_isCanonical (hm.canonical hq)
  rfl

theorem parentName_not_mem (hm : m.IsTree) (hq : m q ≠ none) : Path.parentName ∉ q.segments := by
  have hcanonical := hm.canonical hq
  rw [Path.isCanonical, Bool.and_eq_true] at hcanonical
  simpa using hcanonical.2

theorem grounded_eq (hm : m.IsTree) (hq : m q ≠ none) : q.grounded = q := by
  rw [Path.grounded, Path.ground_of_not_mem (hm.parentName_not_mem hq)]

/-- One step up from a directory there is a directory; the root is above itself. -/
theorem directory_above {place : Place} (hm : m.IsTree) (hplace : m place.path = some .directory) :
    m (Place.path place.dropLast) = some .directory := by
  by_cases hroot : place = []
  · rw [hroot]
    exact hm.root
  · exact hm.above (hplace ▸ Option.some_ne_none _) hroot

/-- The path of an entry denotes the entry. -/
theorem denoted?_self (hm : m.IsTree) (hq : m q ≠ none) : m.denoted? q = some q := by
  obtain ⟨segments, rfl⟩ : ∃ segments, Place.path segments = q := ⟨_, hm.path_segments hq⟩
  induction segments using List.reverseRecOn with
  | nil => rfl
  | append_singleton front name ih =>
    have habove : m (Place.path front) = some .directory := by
      have hdirectory := hm.above hq (by simp [Place.path])
      rwa [Place.path, List.dropLast_concat] at hdirectory
    have hname : name ≠ Path.parentName := by
      rintro rfl
      exact hm.parentName_not_mem hq (by simp [Place.path])
    have hfront : front.foldlM m.step Path.root = some (Place.path front) :=
      ih (habove ▸ Option.some_ne_none _)
    have hstep : m.step (Place.path front) name = some (Place.path (front ++ [name])) := by
      rw [step, if_pos habove, if_neg hname]
      exact if_neg hq
    have hfold : (front ++ [name]).foldlM m.step Path.root =
        some (Place.path (front ++ [name])) := by
      rw [List.foldlM_append, hfront]
      simpa using hstep
    exact hfold

/-- What a path denotes is there. -/
theorem ne_none_of_denoted? (hm : m.IsTree) (h : m.denoted? p = some q) : m q ≠ none := by
  rw [denoted?] at h
  rcases p.segments.eq_nil_or_concat' with hnil | ⟨front, segment, hconcat⟩
  · rw [hnil] at h
    obtain rfl : Path.root = q := Option.some.inj h
    exact hm.root ▸ Option.some_ne_none _
  · rw [hconcat, List.foldlM_append] at h
    obtain ⟨above, -, hstep⟩ := Option.bind_eq_some_iff.1 h
    have hnext : m.step above segment = some q := by simpa using hstep
    obtain ⟨hdirectory, hq, hup | hexists⟩ := step_eq_some.1 hnext
    · -- what is above a directory is there
      rw [Path.next?, if_pos hup] at hq
      split at hq
      · cases hq
      · rw [← Option.some.inj hq, hm.above (hdirectory ▸ Option.some_ne_none _) ‹_›]
        exact Option.some_ne_none _
    · exact hexists

/-- A change at the path of an entry is about this entry, unless it is the root. -/
theorem slot?_self (hm : m.IsTree) (hq : m q ≠ none) (hne : q.segments ≠ []) :
    m.slot? q = some q := by
  obtain ⟨front, name, hsegments⟩ := q.segments.eq_nil_or_concat'.resolve_left hne
  have habove : m ⟨true, front⟩ = some .directory := by
    have hdirectory := hm.above hq hne
    rwa [hsegments, List.dropLast_concat] at hdirectory
  have hname : name ≠ Path.parentName := by
    rintro rfl
    exact hm.parentName_not_mem hq (by simp [hsegments])
  have hpath : q = ⟨true, front ++ [name]⟩ := by
    rw [← hsegments]
    exact (hm.path_segments hq).symm
  rw [hpath, slot?_concat hname, hm.denoted?_self (habove ▸ Option.some_ne_none _),
    Option.bind_some, if_pos habove]
  rfl

end IsTree

end Catalog

namespace Disk

variable {d : Disk} {m : Catalog} {cwd place : Place} {p q : Path} {name : String}
  {ending : Ending} {whole : Bool} {links : Nat}

/-! ### Canonical places -/

/-- The slash of the root leads nowhere else. -/
theorem walk_ofPath (d : Disk) (ending : Ending) (whole : Bool) (links : Nat) (p : Path) :
    d.walk ending whole links [] (Step.ofPath p) =
      d.walk ending whole links [] (p.segments.map Step.ofSegment) := by
  rw [Step.ofPath]
  split
  case isTrue hnil =>
    have hroot : d.isDirectory [] = true := by simp [isDirectory, entry?]
    rw [hnil, List.map_nil, walk.eq_def]
    simp only [hroot, Bool.not_true, Bool.false_eq_true, if_false]
  case isFalse => rfl

/-- Where the system comes to, for an absolute path. -/
theorem canonical_toOsText (hp : p.absolute = true) (hplain : p.WellFormed) :
    d.canonical cwd p.toOsText =
      if hasNul p.toOsText then .error .nulInName
      else
        match d.walk .use true mostLinks [] (p.segments.map Step.ofSegment) with
        | .ok (.found place _) => .ok place
        | .ok (.vacant ..) => .error .notFound
        | .error fault => .error fault := by
  have hwalk : d.walk .use true mostLinks (Step.start cwd p.toOsText) (Step.ofText p.toOsText) =
      d.walk .use true mostLinks [] (p.segments.map Step.ofSegment) := by
    rw [Step.start_toOsText hp, Step.ofText_toOsText hp hplain, walk_ofPath]
  rw [← hwalk]
  rfl

/-- At a canonical place, whatever the path is like, something stands. -/
theorem entry?_of_canonical {text : String} (h : d.canonical cwd text = .ok place) :
    d.entry? place ≠ none := by
  rw [canonical] at h
  split at h
  case isTrue => cases h
  case isFalse =>
    split at h
    case h_1 q entry hwalk =>
      obtain rfl := Except.ok.inj h
      exact entry?_of_walk hwalk ▸ Option.some_ne_none entry
    all_goals cases h

/-- What the question for a canonical place is answered with: the place of what is denoted, or that
nothing is. -/
def Finds (answer : Except OsFault Place) : Option Path → Prop
  | some q => answer = .ok q.segments
  | none => answer = .error .notFound ∨ answer = .error .notDirectory

/-- The canonical place is that of what the path denotes, if the system gets there. -/
theorem canonical_finds_of_walk (cwd : Place) (h : d.Mirrors m) (hm : m.IsTree)
    (hp : p.absolute = true) (hplain : p.WellFormed) (hnul : hasNul p.toOsText = false)
    (hshort : d.walk .use true mostLinks [] (p.segments.map Step.ofSegment) ≠
      .error .nameTooLong) : Finds (d.canonical cwd p.toOsText) (m.denoted? p.grounded) := by
  have hroot : m (Place.path []) ≠ none := hm.root ▸ Option.some_ne_none _
  have hlands : Lands m _ (m.denoted? p.grounded) := walk_lands h hm hroot hshort
  rw [canonical_toOsText hp hplain, hnul, if_neg Bool.false_ne_true]
  rcases hdenoted : m.denoted? p.grounded with - | q
  · rw [hdenoted] at hlands
    rcases hlands with hfault | hfault <;> rw [hfault]
    · exact Or.inl rfl
    · exact Or.inr rfl
  · rw [hdenoted] at hlands
    obtain ⟨entry, -, hfound⟩ := hlands
    rw [hfound]
    rfl

/-- The system takes the path: where it does not come to an end, something is missing or is no
directory. -/
def Takes (d : Disk) (p : Path) : Prop :=
  ∀ fault, d.canonical [] p.toOsText = .error fault → fault = .notFound ∨ fault = .notDirectory

/-- A path is taken if no character in it ends it, and nothing is too long on the way. -/
theorem takes_iff (h : d.Mirrors m) (hm : m.IsTree) (hp : p.absolute = true)
    (hplain : p.WellFormed) : d.Takes p ↔ hasNul p.toOsText = false ∧
      d.walk .use true mostLinks [] (p.segments.map Step.ofSegment) ≠ .error .nameTooLong := by
  constructor
  · intro htakes
    have hnul : hasNul p.toOsText = false := by
      refine Bool.eq_false_iff.2 fun hnul ↦ ?_
      rcases htakes .nulInName (by rw [canonical, if_pos hnul]) with hfault | hfault <;>
        cases hfault
    refine ⟨hnul, fun hlong ↦ ?_⟩
    have hcanonical : d.canonical [] p.toOsText = .error .nameTooLong := by
      rw [canonical_toOsText hp hplain, hnul, if_neg Bool.false_ne_true, hlong]
    rcases htakes _ hcanonical with hfault | hfault <;> cases hfault
  · rintro ⟨hnul, hshort⟩ fault hfault
    have hfinds := canonical_finds_of_walk [] h hm hp hplain hnul hshort
    rcases hdenoted : m.denoted? p.grounded with - | q
    · rw [hdenoted, hfault] at hfinds
      exact hfinds.imp Except.error.inj Except.error.inj
    · rw [hdenoted, hfault] at hfinds
      cases hfinds

/-- **The canonical place is that of what the path denotes.** -/
theorem canonical_finds (cwd : Place) (h : d.Mirrors m) (hm : m.IsTree) (hp : p.absolute = true)
    (hplain : p.WellFormed) (htakes : d.Takes p) :
    Finds (d.canonical cwd p.toOsText) (m.denoted? p.grounded) := by
  obtain ⟨hnul, hshort⟩ := (takes_iff h hm hp hplain).1 htakes
  exact canonical_finds_of_walk cwd h hm hp hplain hnul hshort

/-- The canonical place of a path fits, whatever the path is like. -/
theorem fits_of_canonical (h : d.Mirrors m) (hp : p.absolute = true) (hplain : p.WellFormed)
    (hplace : d.canonical cwd p.toOsText = .ok place) : (Place.path place).Fits := by
  rw [canonical_toOsText hp hplain] at hplace
  split at hplace
  case isTrue => cases hplace
  case isFalse hnul =>
    rw [hasNul_toOsText hp, List.any_eq_true] at hnul
    split at hplace
    case h_1 q entry hwalk =>
      obtain rfl := Except.ok.inj hplace
      refine fits_of_walk h Path.fits_root (fun segment hsegment ↦ ?_) hwalk
      exact Bool.eq_false_iff.2 fun hsegment' ↦ hnul ⟨segment, hsegment, hsegment'⟩
    all_goals cases hplace

/-- What a path that is taken denotes, fits. -/
theorem fits_of_denoted? (h : d.Mirrors m) (hm : m.IsTree) (hp : p.absolute = true)
    (hplain : p.WellFormed) (htakes : d.Takes p) (hdenoted : m.denoted? p = some q) : q.Fits := by
  have hfinds := canonical_finds [] h hm hp hplain htakes
  rw [Catalog.grounded_of_denoted? hp hdenoted, hdenoted] at hfinds
  rw [← hm.path_segments (hm.ne_none_of_denoted? hdenoted)]
  exact fits_of_canonical h hp hplain hfinds

theorem hasNul_of_fits (hp : p.absolute = true) (hfits : p.Fits) : hasNul p.toOsText = false := by
  rw [hasNul_toOsText hp, List.any_eq_false]
  exact fun segment hsegment ↦ Bool.eq_false_iff.1 (hfits.1 segment hsegment).1

/-- **A path that fits is taken.** -/
theorem takes_of_fits (h : d.Mirrors m) (hm : m.IsTree) (hp : p.absolute = true)
    (hplain : p.WellFormed) (hfits : p.Fits) : d.Takes p := by
  have hpath : (Place.path ([] ++ p.segments)).Fits := hfits.of_sublist hp rfl (List.Sublist.refl _)
  exact (takes_iff h hm hp hplain).2 ⟨hasNul_of_fits hp hfits, walk_ne_nameTooLong h hpath⟩

/-- The front of a path that is taken is taken. -/
theorem Takes.front {front rest : List String} (h : d.Mirrors m) (hm : m.IsTree)
    (hplain : Path.WellFormed ⟨true, front ++ rest⟩) (htakes : d.Takes ⟨true, front ++ rest⟩) :
    d.Takes ⟨true, front⟩ := by
  have hroot : m (Place.path []) ≠ none := hm.root ▸ Option.some_ne_none _
  have hfront : Path.WellFormed ⟨true, front⟩ :=
    fun segment hsegment ↦ hplain segment (List.mem_append_left _ hsegment)
  by_cases hnil : rest = []
  · rwa [hnil, List.append_nil] at htakes
  · obtain ⟨hnul, hshort⟩ := (takes_iff h hm rfl hplain).1 htakes
    rw [hasNul_toOsText rfl, List.any_append, Bool.or_eq_false_iff] at hnul
    refine (takes_iff h hm rfl hfront).2 ⟨(hasNul_toOsText rfl).trans hnul.1, fun hlong ↦ hshort ?_⟩
    rw [walk_append h hm hroot hnil, hlong]

/-- Nothing is too long on the rest of the way along a path that is taken. -/
theorem Takes.walk_rest {front rest : List String} (h : d.Mirrors m) (hm : m.IsTree)
    (hplain : Path.WellFormed ⟨true, front ++ rest⟩) (htakes : d.Takes ⟨true, front ++ rest⟩)
    (hfront : m.denoted? ⟨true, front⟩ = some q) :
    d.walk .use true mostLinks q.segments (rest.map Step.ofSegment) ≠ .error .nameTooLong := by
  have hroot : m (Place.path []) ≠ none := hm.root ▸ Option.some_ne_none _
  have hplain' : Path.WellFormed ⟨true, front⟩ :=
    fun segment hsegment ↦ hplain segment (List.mem_append_left _ hsegment)
  have hshort := ((takes_iff h hm rfl hplain').1 (htakes.front h hm hplain)).2
  have hlands : Lands m _ (m.denoted? (Path.grounded ⟨true, front⟩)) :=
    walk_lands h hm hroot hshort
  rw [Catalog.grounded_of_denoted? rfl hfront, hfront] at hlands
  obtain ⟨entry, -, hfound⟩ := hlands
  by_cases hnil : rest = []
  · rw [hnil, List.map_nil, walk]
    split <;> simp
  · have hwhole := ((takes_iff h hm rfl hplain).1 htakes).2
    rw [walk_append h hm hroot hnil, hfound] at hwhole
    exact hwhole

/-- One name below a directory, which fits: the system comes to the entry of that name. -/
theorem canonical_below (cwd : Place) (h : d.Mirrors m) (hm : m.IsTree)
    (hplace : m place.path = some .directory) (hfits : (Place.path place).Fits)
    (hplain : Path.Plain name) (hname : name ≠ Path.parentName) (hnul : hasNul name = false)
    (hshort : isTooLong true place name = false) :
    Finds (d.canonical cwd (Place.text (place ++ [name]))) (m.step place.path name) := by
  have hexists : m place.path ≠ none := hplace ▸ Option.some_ne_none _
  have hself : m.denoted? (Place.path place) = some place.path := hm.denoted?_self hexists
  have hpath : (Place.path (place ++ [name])).WellFormed := by
    intro segment hsegment
    rcases List.mem_append.1 hsegment with hsegment | hsegment
    · exact hm.wellFormed hexists segment hsegment
    · exact List.mem_singleton.1 hsegment ▸ hplain
  have hdenoted : m.denoted? (Path.grounded (Place.path (place ++ [name]))) =
      m.step place.path name := by
    have hground : Path.ground 0 (place ++ [name]) = place ++ [name] := by
      have hup : Path.parentName ∉ place := hm.parentName_not_mem hexists
      rw [Path.ground_concat hname, Path.ground_of_not_mem hup]
    have hfold : place.foldlM m.step Path.root = some place.path := hself
    rw [Path.grounded, Place.path, hground, Catalog.denoted?, List.foldlM_append, hfold]
    simp
  rw [← hdenoted]
  have htakes : d.Takes (Place.path (place ++ [name])) :=
    takes_of_fits h hm rfl hpath (fits_concat hfits hnul hshort)
  exact canonical_finds cwd h hm rfl hpath htakes

/-! ### What operations find -/

/-- An operation on an absolute path that fits is a walk along its segments. -/
theorem reach_toOsText (hp : p.absolute = true) (hplain : p.WellFormed) (hfits : p.Fits) :
    d.reach cwd p.toOsText ending =
      d.walk ending false mostLinks [] (p.segments.map Step.ofSegment) := by
  rw [reach, hasNul_of_fits hp hfits, if_neg Bool.false_ne_true, if_neg (Nat.not_lt.2 hfits.2),
    Step.start_toOsText hp, Step.ofText_toOsText hp hplain, walk_ofPath]

/-- Where an operation gets to its end, this is the end of a walk, whatever the path is like. -/
theorem walk_of_reach {landing : Landing} (hp : p.absolute = true) (hplain : p.WellFormed)
    (h : d.reach cwd p.toOsText ending = .ok landing) :
    d.walk ending false mostLinks [] (p.segments.map Step.ofSegment) = .ok landing := by
  rw [reach] at h
  split_ifs at h
  rwa [Step.start_toOsText hp, Step.ofText_toOsText hp hplain, walk_ofPath] at h

/-- Using what a path leads to is using what it denotes. -/
theorem reach_lands (cwd : Place) (h : d.Mirrors m) (hm : m.IsTree) (hp : p.absolute = true)
    (hplain : p.WellFormed) (hfits : p.Fits) :
    Lands m (d.reach cwd p.toOsText .use) (m.denoted? p.grounded) := by
  have hroot : m (Place.path []) ≠ none := hm.root ▸ Option.some_ne_none _
  have hpath : (Place.path ([] ++ p.segments)).Fits := hfits.of_sublist hp rfl (List.Sublist.refl _)
  rw [reach_toOsText hp hplain hfits]
  exact walk_lands h hm hroot (walk_ne_nameTooLong h hpath)

section

variable {front : List String} {last : String} {above : Path}

theorem lands_of_front (h : d.Mirrors m) (hm : m.IsTree)
    (hfits : Path.Fits ⟨true, front ++ [last]⟩) :
    Lands m (d.walk .use false mostLinks [] (front.map Step.ofSegment))
      (m.denoted? (Path.grounded ⟨true, front⟩)) := by
  have hfront : (Place.path ([] ++ front)).Fits :=
    hfits.of_sublist rfl rfl (List.sublist_append_left front [last])
  exact walk_lands h hm (hm.root ▸ Option.some_ne_none _) (walk_ne_nameTooLong h hfront)

/-- An operation takes its last step from what the rest of the path denotes. -/
theorem reach_concat (h : d.Mirrors m) (hm : m.IsTree)
    (hplain : Path.WellFormed ⟨true, front ++ [last]⟩) (hfits : Path.Fits ⟨true, front ++ [last]⟩)
    (habove : m.denoted? (Path.grounded ⟨true, front⟩) = some above) (ending : Ending) :
    d.reach cwd (Path.toOsText ⟨true, front ++ [last]⟩) ending =
      d.walk ending false mostLinks above.segments [Step.ofSegment last] := by
  have hroot : m (Place.path []) ≠ none := hm.root ▸ Option.some_ne_none _
  have hlands := lands_of_front h hm hfits
  rw [habove] at hlands
  obtain ⟨entry, -, hfound⟩ := hlands
  rw [reach_toOsText rfl hplain hfits, walk_append h hm hroot (List.cons_ne_nil last []), hfound]
  rfl

/-- Where the rest of the path denotes nothing, no operation gets to its last step. -/
theorem reach_concat_of_eq_none (cwd : Place) (h : d.Mirrors m) (hm : m.IsTree)
    (hplain : Path.WellFormed ⟨true, front ++ [last]⟩) (hfits : Path.Fits ⟨true, front ++ [last]⟩)
    (habove : m.denoted? (Path.grounded ⟨true, front⟩) = none) :
    ∃ answer, (∀ ending, d.reach cwd (Path.toOsText ⟨true, front ++ [last]⟩) ending = answer) ∧
      (answer = .error .notFound ∨ answer = .error .notDirectory) := by
  have hroot : m (Place.path []) ≠ none := hm.root ▸ Option.some_ne_none _
  have hlands := lands_of_front h hm hfits
  rw [habove] at hlands
  refine ⟨_, fun ending ↦ ?_, hlands⟩
  rw [reach_toOsText rfl hplain hfits, walk_append h hm hroot (List.cons_ne_nil last [])]
  rcases hlands with hfault | hfault <;> rw [hfault]

/-- A step up from a directory leads to a directory, whatever the operation. -/
theorem walk_up_last (h : d.Mirrors m) (hm : m.IsTree) (hplace : m place.path = some .directory) :
    d.walk ending whole links place [.up] = .ok (.found place.dropLast .directory) := by
  rw [walk_up (h.isDirectory_iff.2 hplace), walk, h place.dropLast, hm.directory_above hplace]
  rfl

end

/-- What an operation finds at an entry, or where there may be one. -/
def answerAt (ending : Ending) (directory : Place) (name : String) :
    Option Entry → Except OsFault Landing
  | some entry => .ok (.found (directory ++ [name]) entry.onDisk)
  | none => if ending.mayMiss then .ok (.vacant directory name) else .error .notFound

/-- A last step to a name. -/
theorem walk_name_last (h : d.Mirrors m) (hplace : m place.path = some .directory)
    (hname : name.utf8ByteSize ≤ longestName) :
    d.walk ending false links place [.name name] =
      answerAt ending place name (m (place.path.below name)) := by
  have hshort : isTooLong false place name = false := by
    simpa [isTooLong] using hname
  rw [walk_name h (h.isDirectory_iff.2 hplace) (List.cons_ne_nil _ _).symm, hshort,
    if_neg Bool.false_ne_true]
  rcases hbelow : m (place.path.below name) with - | entry
  · simp [answerAt]
  · have hentry : d.entry? (place ++ [name]) = some entry.onDisk := by
      rw [h (place ++ [name])]
      exact congrArg (Option.map Entry.onDisk) hbelow
    rw [if_neg (Option.some_ne_none _), walk, hentry]
    rfl

/-- **An operation finds the entry that a change at the path is about**, or the name that is free
for it. -/
theorem reach_of_slot? (cwd : Place) (h : d.Mirrors m) (hm : m.IsTree) (hp : p.absolute = true)
    (hplain : p.WellFormed) (hfits : p.Fits) (hslot : m.slot? p.grounded = some q) :
    ∃ directory name, q = Place.path (directory ++ [name]) ∧
      ∀ ending, d.reach cwd p.toOsText ending = answerAt ending directory name (m q) := by
  obtain ⟨absolute, segments⟩ := p
  obtain rfl : absolute = true := hp
  obtain rfl | ⟨front, name, rfl⟩ := segments.eq_nil_or_concat'
  · cases hslot
  · have hname : name ≠ Path.parentName := by
      rintro rfl
      rw [Catalog.slot?_grounded_parentName] at hslot
      cases hslot
    rw [Path.grounded, Path.ground_concat hname, Catalog.slot?_concat hname,
      Option.bind_eq_some_iff] at hslot
    obtain ⟨above, habove, hq⟩ := hslot
    split at hq
    case isFalse => cases hq
    case isTrue hdirectory =>
      have hexists : m above ≠ none := hdirectory ▸ Option.some_ne_none _
      obtain ⟨place, rfl⟩ : ∃ place, Place.path place = above := ⟨_, hm.path_segments hexists⟩
      obtain rfl := Option.some.inj hq
      refine ⟨place, name, rfl, fun ending ↦ ?_⟩
      rw [reach_concat h hm hplain hfits habove, Step.ofSegment, if_neg hname]
      exact walk_name_last h hdirectory (hfits.1 name (by simp)).2

/-- **Where a change is about no entry, all operations find the same**: a directory, or nothing. -/
theorem reach_of_slot?_eq_none (cwd : Place) (h : d.Mirrors m) (hm : m.IsTree)
    (hp : p.absolute = true) (hplain : p.WellFormed) (hfits : p.Fits)
    (hslot : m.slot? p.grounded = none) :
    ∃ answer, (∀ ending, d.reach cwd p.toOsText ending = answer) ∧
      ((∃ place, answer = .ok (.found place .directory)) ∨ answer = .error .notFound ∨
        answer = .error .notDirectory) := by
  obtain ⟨absolute, segments⟩ := p
  obtain rfl : absolute = true := hp
  obtain rfl | ⟨front, last, rfl⟩ := segments.eq_nil_or_concat'
  · refine ⟨.ok (.found [] .directory), fun ending ↦ ?_, Or.inl ⟨[], rfl⟩⟩
    rw [reach_toOsText rfl hplain hfits, List.map_nil, walk]
    rfl
  · rcases habove : m.denoted? (Path.grounded ⟨true, front⟩) with - | above
    · obtain ⟨answer, hanswer, hfault⟩ :=
        reach_concat_of_eq_none cwd h hm hplain hfits habove
      exact ⟨answer, hanswer, Or.inr hfault⟩
    · have hexists : m above ≠ none := hm.ne_none_of_denoted? habove
      obtain ⟨place, rfl⟩ : ∃ place, Place.path place = above := ⟨_, hm.path_segments hexists⟩
      by_cases hdirectory : m (Place.path place) = some .directory
      · -- an entry of a directory would be the one that the change is about
        have hup : last = Path.parentName := by
          by_contra hname
          replace habove : m.denoted? ⟨true, Path.ground 0 front⟩ =
            some (Place.path place) := habove
          rw [Path.grounded, Path.ground_concat hname, Catalog.slot?_concat hname, habove,
            Option.bind_some, if_pos hdirectory] at hslot
          cases hslot
        refine ⟨_, fun ending ↦ ?_, Or.inl ⟨place.dropLast, rfl⟩⟩
        rw [reach_concat h hm hplain hfits habove, Step.ofSegment, if_pos hup]
        exact walk_up_last h hm hdirectory
      · have hstands : d.isDirectory place = false :=
          Bool.eq_false_iff.2 (mt h.isDirectory_iff.1 hdirectory)
        refine ⟨.error .notDirectory, fun ending ↦ ?_, Or.inr (Or.inr rfl)⟩
        rw [reach_concat h hm hplain hfits habove]
        exact walk_of_not_isDirectory hstands

end Disk

end ModuleBundler
