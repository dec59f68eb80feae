import Mathlib
import ModuleBundler.Disk.Calls
import ModuleBundler.Proofs.Path.RoundTrip

/-!
# Paths as the system reads them

A store on a disk hands a path to the system as a text, and the system cuts the text into steps
again. For an absolute path with plain segments nothing is lost on the way: the steps are those of
its segments (`Step.ofText_toOsText`), with one exception, the root, whose text has a slash and no
segment. The length of the text, which the system limits, is the length of the segments and of a
slash before each of them.
-/

namespace ModuleBundler

namespace Path

variable {segments : List String} {p : Path}

theorem toOsText_of_ne_nil (hp : p.absolute = true) (hne : p.segments ≠ []) :
    p.toOsText = slashed p.segments := by
  rw [toOsText, if_neg (by simpa using hne), if_pos hp, String.empty_append]

theorem toOsText_of_eq_nil (hp : p.absolute = true) (hnil : p.segments = []) :
    p.toOsText = "/" := by
  rw [toOsText, if_pos (by simpa using hnil), if_pos hp]

/-- The text of an absolute path starts at the root. -/
theorem head?_toOsText (hp : p.absolute = true) : p.toOsText.toList.head? = some '/' := by
  rcases hsegments : p.segments with - | ⟨segment, rest⟩
  · rw [toOsText_of_eq_nil hp hsegments]
    rfl
  · rw [toOsText_of_ne_nil hp (hsegments ▸ List.cons_ne_nil _ _), toList_slashed, hsegments]
    rfl

/-- A text of segments ends in a slash only if its last segment does. -/
theorem getLast?_toOsText (hp : p.absolute = true) (hplain : p.WellFormed)
    (hne : p.segments ≠ []) : p.toOsText.toList.getLast? ≠ some '/' := by
  obtain ⟨absolute, segments⟩ := p
  obtain ⟨front, name, rfl⟩ := segments.eq_nil_or_concat'.resolve_left hne
  obtain ⟨hempty, -, hslash⟩ := hplain name (by simp)
  rw [toOsText_of_ne_nil hp hne, toList_slashed, List.flatMap_append, List.getLast?_append,
    List.flatMap_singleton]
  have hname : name.toList ≠ [] := fun hnil ↦
    hempty (by rw [← String.ofList_toList (s := name), hnil])
  rw [List.getLast?_cons_of_ne_nil hname, List.getLast?_eq_some_getLast hname, Option.some_or]
  exact fun hlast ↦ hslash (Option.some.inj hlast ▸ List.getLast_mem hname)

/-- The length of a text is that of the segments, with a slash before each. -/
theorem utf8ByteSize_slashed (segments : List String) :
    (slashed segments).utf8ByteSize =
      (segments.map fun segment ↦ segment.utf8ByteSize + 1).sum := by
  induction segments with
  | nil => rfl
  | cons segment rest ih =>
    have hcons : slashed (segment :: rest) = "/" ++ segment ++ slashed rest := rfl
    have hslash : "/".utf8ByteSize = 1 := rfl
    rw [hcons, String.utf8ByteSize_append, String.utf8ByteSize_append, ih, List.map_cons,
      List.sum_cons, hslash]
    omega

end Path

namespace Disk

/-- A text has the character that ends paths if a segment has it. -/
theorem hasNul_toOsText {p : Path} (hp : p.absolute = true) :
    hasNul p.toOsText = p.segments.any hasNul := by
  rcases hsegments : p.segments with - | ⟨segment, rest⟩
  · rw [Path.toOsText_of_eq_nil hp hsegments]
    rfl
  · rw [Path.toOsText_of_ne_nil hp (hsegments ▸ List.cons_ne_nil _ _), hasNul, Path.toList_slashed,
      hsegments, Bool.eq_iff_iff]
    simp [hasNul]

end Disk

namespace Step

/-- The step that a segment stands for. -/
def ofSegment (segment : String) : Step :=
  if segment = Path.parentName then .up else .name segment

/-- The steps of an absolute path. The root has no segment, but a slash. -/
def ofPath (p : Path) : List Step :=
  if p.segments = [] then [.slash] else p.segments.map ofSegment

theorem ofPiece_of_plain {segment : String} (h : Path.Plain segment) :
    ofPiece segment = some (ofSegment segment) := by
  rw [ofPiece, if_neg h.1, if_neg h.2.1, ofSegment, Path.parentName]
  split <;> rfl

theorem start_toOsText {p : Path} (hp : p.absolute = true) (place : Place) :
    start place p.toOsText = [] := by
  rw [start, if_pos (Path.head?_toOsText hp)]

/-- **The system takes the steps of the segments.** -/
theorem ofText_toOsText {p : Path} (hp : p.absolute = true) (hplain : p.WellFormed) :
    ofText p.toOsText = ofPath p := by
  by_cases hnil : p.segments = []
  · rw [ofPath, if_pos hnil, Path.toOsText_of_eq_nil hp hnil]
    decide
  · have hlast := Path.getLast?_toOsText hp hplain hnil
    have hpieces : Path.pieces ("" ++ Path.slashed p.segments) = "" :: p.segments :=
      Path.pieces_append_slashed List.not_mem_nil fun segment hsegment ↦
        (hplain segment hsegment).2.2
    rw [String.empty_append] at hpieces
    rw [ofText, if_neg hlast, List.append_nil, ofPath, if_neg hnil, Path.toOsText_of_ne_nil hp hnil,
      hpieces]
    have hempty : ofPiece "" = none := rfl
    rw [List.filterMap_cons_none hempty, ← List.filterMap_eq_map]
    exact List.filterMap_congr fun segment hsegment ↦ ofPiece_of_plain (hplain segment hsegment)

end Step

end ModuleBundler
