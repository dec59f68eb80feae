import Mathlib.Data.List.Infix
import ModuleBundler.Path.Operations

/-!
# Well-formed paths

A path that is read from a text, or grown by the segments of a text, has *plain* segments only: none
is empty, none is `.`, and none has a slash in it. What is shown about stores is shown for
operations on such paths. A plain segment is its own only piece (`Path.Plain.split_eq`), so that it
makes no difference whether a name is put into a path as it stands or as the segments it names.

`..` is plain. Whether a path leads up is a question of its own, `Path.isCanonical`.
-/

namespace ModuleBundler

/-- No part between separators has a separator in it. -/
theorem not_mem_of_mem_splitOn {α : Type} [BEq α] [LawfulBEq α] {a : α} {l part : List α}
    (h : part ∈ l.splitOn a) : a ∉ part := by
  induction l generalizing part with
  | nil =>
    obtain rfl : part = [] := by simpa using h
    exact List.not_mem_nil
  | cons b l ih =>
    rw [List.splitOn_eq_splitOnP, List.splitOnP_cons_eq_if_modifyHead] at h
    split at h
    case isTrue =>
      rcases List.mem_cons.1 h with rfl | h
      · exact List.not_mem_nil
      · exact ih h
    case isFalse hne =>
      obtain ⟨first, rest, hparts⟩ :=
        List.exists_cons_of_ne_nil (List.splitOnP_ne_nil (fun x ↦ x == a) l)
      rw [hparts, List.modifyHead_cons] at h
      rcases List.mem_cons.1 h with rfl | h
      · have hfirst : a ∉ first := ih (by
          rw [List.splitOn_eq_splitOnP, hparts]
          exact List.mem_cons_self)
        have hb : a ≠ b := fun hab ↦ hne (beq_iff_eq.2 hab.symm)
        simp [hb, hfirst]
      · refine ih ?_
        rw [List.splitOn_eq_splitOnP, hparts]
        exact List.mem_cons_of_mem _ h

namespace Path

/-- What reading and building paths make of a segment: it is neither empty nor `.`, and has no slash
in it. -/
def Plain (segment : String) : Prop :=
  segment ≠ "" ∧ segment ≠ "." ∧ '/' ∉ segment.toList

instance (segment : String) : Decidable (Plain segment) :=
  inferInstanceAs (Decidable (_ ∧ _ ∧ _))

/-- A path with plain segments only. -/
def WellFormed (p : Path) : Prop :=
  ∀ segment ∈ p.segments, Plain segment

instance (p : Path) : Decidable p.WellFormed :=
  inferInstanceAs (Decidable (∀ segment ∈ p.segments, Plain segment))

variable {p q d : Path} {segment name s : String} {above segments : List String}

/-- A text without slashes is in one piece. -/
theorem pieces_of_not_mem (h : '/' ∉ s.toList) : pieces s = [s] := by
  rw [pieces, List.splitOn_eq_singleton h, List.map_singleton, String.ofList_toList]

/-- A plain segment names itself. -/
theorem Plain.split_eq (h : Plain segment) : split segment = [segment] := by
  obtain ⟨hempty, hdot, hslash⟩ := h
  rw [split, pieces_of_not_mem hslash]
  simp [isSegment, hempty, hdot]

/-- Plain segments are not cut any further. -/
theorem flatMap_split (h : ∀ segment ∈ segments, Plain segment) :
    segments.flatMap split = segments := by
  rw [List.flatMap_congr fun segment hsegment ↦ (h segment hsegment).split_eq]
  exact List.flatMap_singleton' segments

theorem plain_of_mem_split (h : segment ∈ split s) : Plain segment := by
  obtain ⟨hpiece, hsegment⟩ := List.mem_filter.1 h
  obtain ⟨part, hpart, rfl⟩ := List.mem_map.1 hpiece
  simp only [isSegment, Bool.and_eq_true, bne_iff_ne, ne_eq] at hsegment
  refine ⟨hsegment.1, hsegment.2, ?_⟩
  rw [String.toList_ofList]
  exact not_mem_of_mem_splitOn hpart

/-- **What is read is well formed.** -/
theorem wellFormed_parse (s : String) : (parse s).WellFormed :=
  fun _ h ↦ plain_of_mem_split h

theorem wellFormed_root : root.WellFormed :=
  fun _ h ↦ nomatch h

theorem WellFormed.child (h : p.WellFormed) (name : String) : (p.child name).WellFormed := by
  intro segment hsegment
  rcases List.mem_append.1 hsegment with hsegment | hsegment
  · exact h segment hsegment
  · exact plain_of_mem_split hsegment

theorem WellFormed.join (hp : p.WellFormed) (hq : q.WellFormed) : (p.join q).WellFormed := by
  rw [Path.join]
  split
  · exact hq
  · exact fun segment hsegment ↦ (List.mem_append.1 hsegment).elim (hp segment) (hq segment)

/-! ### The last segment -/

theorem basename_eq_ok : p.basename = .ok name ↔ ∃ above, p.segments = above ++ [name] := by
  rw [basename]
  rcases p.segments.eq_nil_or_concat' with hnil | ⟨above, last, hlast⟩
  · simp [hnil, invalid]
  · simp [hlast]

theorem parent_eq (h : p.segments = above ++ [name]) : p.parent = .ok ⟨p.absolute, above⟩ := by
  simp [parent, h]

theorem eq_of_parent (h : p.parent = .ok d) : d = ⟨p.absolute, p.segments.dropLast⟩ := by
  rw [parent] at h
  split at h
  · cases h
  · exact (Except.ok.inj h).symm

theorem WellFormed.parent (h : p.WellFormed) (hparent : p.parent = .ok d) : d.WellFormed := by
  obtain rfl := eq_of_parent hparent
  exact fun segment hsegment ↦ h segment (List.mem_of_mem_dropLast hsegment)

end Path

end ModuleBundler
