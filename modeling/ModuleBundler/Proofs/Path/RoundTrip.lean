import Mathlib
import ModuleBundler.Path.Os
import ModuleBundler.Proofs.Failing
import ModuleBundler.Proofs.Path.WellFormed
import ModuleBundler.Proofs.Text.Utf8

/-!
# The written form of a path says everything

A path with plain segments is read back from its written form (`Path.parse_render`). The mark in
front of the first slash is what makes it true for all of them: it is empty for an absolute path and
a `.` for a relative one, and reading drops it either way.

The paths that there are, `Path.Obtained`, are those that come from texts and from names of the
operating system by the operations on paths and builders, in any order. All of them have plain
segments, and nothing else is true of them: a path with plain segments is obtained, for it is read
from its written form (`Path.obtained_iff`). One of the operations puts a segment together and does
not cut it out of a text: an extension is put behind a name as it stands, which is why it must not
have a slash in it.
-/

namespace ModuleBundler

theorem intercalate_cons {α : Type} (separator : α) (first : List α) (rest : List (List α)) :
    [separator].intercalate (first :: rest) = first ++ rest.flatMap (separator :: ·) := by
  induction rest generalizing first with
  | nil => simp [List.intercalate]
  | cons next rest ih =>
    rw [List.flatMap_cons, List.cons_append, ← ih next]
    simp [List.intercalate]

namespace Path

variable {absolute : Bool} {segments above left : List String}
  {first name suffix extension : String} {os : Bytes} {p q d : Path}

/-! ### Reading what was written -/

theorem toList_slashed (segments : List String) :
    (slashed segments).toList = segments.flatMap fun segment ↦ '/' :: segment.toList := by
  induction segments with
  | nil => rfl
  | cons segment rest ih =>
    have hcons : slashed (segment :: rest) = "/" ++ segment ++ slashed rest := rfl
    rw [hcons, String.toList_append, String.toList_append, ih]
    rfl

/-- A slash ends a piece. -/
theorem pieces_append_slash_append (front back : String) :
    pieces (front ++ "/" ++ back) = pieces front ++ pieces back := by
  have hslash : (front ++ "/" ++ back).toList = front.toList ++ '/' :: back.toList := by
    rw [String.append_assoc, String.toList_append, String.toList_append]
    rfl
  rw [pieces, hslash, List.splitOn_append_cons_self, List.map_append]
  rfl

/-- Texts behind slashes fall apart into the pieces of each, whatever they are. -/
theorem pieces_append_slashed_eq (first : String) (parts : List String) :
    pieces (first ++ slashed parts) = pieces first ++ parts.flatMap pieces := by
  induction parts generalizing first with
  | nil => simp [slashed]
  | cons part parts ih =>
    have hcons : first ++ slashed (part :: parts) = first ++ "/" ++ (part ++ slashed parts) := by
      show first ++ ("/" ++ part ++ slashed parts) = _
      rw [String.append_assoc, String.append_assoc]
    rw [hcons, pieces_append_slash_append, ih, List.flatMap_cons]

/-- The written form of segments without slashes falls apart into these segments, behind what
stands in front of the first slash. -/
theorem pieces_append_slashed (hfirst : '/' ∉ first.toList)
    (h : ∀ segment ∈ segments, '/' ∉ segment.toList) :
    pieces (first ++ slashed segments) = first :: segments := by
  have hpieces : ∀ segment ∈ segments, pieces segment = [segment] :=
    fun segment hsegment ↦ pieces_of_not_mem (h segment hsegment)
  rw [pieces_append_slashed_eq, pieces_of_not_mem hfirst, List.flatMap_congr hpieces,
    List.flatMap_singleton', List.singleton_append]

/-- Texts behind slashes name the segments of each. -/
theorem split_append_slashed_eq (first : String) (parts : List String) :
    split (first ++ slashed parts) = split first ++ parts.flatMap split := by
  rw [split, pieces_append_slashed_eq, List.filter_append, List.filter_flatMap]
  rfl

/-- What stands in front of the first slash of a path is dropped. -/
theorem split_append_slashed (hfirst : '/' ∉ first.toList) (hdropped : isSegment first = false)
    (h : ∀ segment ∈ segments, Plain segment) : split (first ++ slashed segments) = segments := by
  have hnone : split first = [] := by
    rw [split, pieces_of_not_mem hfirst, List.filter_singleton, hdropped]
    rfl
  rw [split_append_slashed_eq, hnone, flatMap_split h, List.nil_append]

theorem intercalate_eq_append_slashed (first : String) (rest : List String) :
    "/".intercalate (first :: rest) = first ++ slashed rest := by
  have hslash : "/".toList = ['/'] := rfl
  rw [← String.toList_inj, String.toList_intercalate, hslash, List.map_cons, intercalate_cons,
    String.toList_append, toList_slashed, List.flatMap_map]

/-- Texts with slashes between them name the segments of each. -/
theorem split_intercalate (parts : List String) :
    split ("/".intercalate parts) = parts.flatMap split := by
  rcases parts with - | ⟨first, rest⟩
  · decide
  · rw [intercalate_eq_append_slashed, split_append_slashed_eq, List.flatMap_cons]

/-- **A path with plain segments is read back from its written form.** -/
theorem parse_render (h : p.WellFormed) : parse p.render = p := by
  obtain ⟨absolute, segments⟩ := p
  rcases segments with - | ⟨segment, rest⟩
  · cases absolute <;> decide
  · have hsplit (first : String) (hfirst : '/' ∉ first.toList)
        (hdropped : isSegment first = false) : split (first ++ slashed (segment :: rest)) =
          segment :: rest :=
      split_append_slashed hfirst hdropped h
    have hhead (first : String) : (first ++ slashed (segment :: rest)).toList.head? =
        (first.toList ++ ['/']).head? := by
      rw [String.toList_append, toList_slashed, List.flatMap_cons]
      cases first.toList <;> rfl
    cases absolute with
    | true =>
      show (⟨_, split ("" ++ slashed (segment :: rest))⟩ : Path) = _
      rw [hsplit "" (by decide) (by decide)]
      exact congrArg (Path.mk · _) (congrArg (· == some '/') (hhead ""))
    | false =>
      show (⟨_, split ("." ++ slashed (segment :: rest))⟩ : Path) = _
      rw [hsplit "." (by decide) (by decide)]
      exact congrArg (Path.mk · _) (congrArg (· == some '/') (hhead "."))

/-- Paths with plain segments that are written alike are equal. -/
theorem render_injOn : Set.InjOn render {p | p.WellFormed} := by
  intro p hp q hq heq
  rw [← parse_render hp, heq, parse_render hq]

/-! ### Segments that are put together -/

/-- A name with something behind it is plain, if there is no slash in it. -/
theorem Plain.append (h : Plain name) (hsuffix : '/' ∉ suffix.toList) (hne : suffix ≠ "") :
    Plain (name ++ suffix) := by
  have hlength (short : String) (hshort : short.length ≤ 1) : name ++ suffix ≠ short := by
    rintro rfl
    rw [String.length_append] at hshort
    have hname : name.length ≠ 0 := String.length_eq_zero_iff.not.2 h.1
    have hbehind : suffix.length ≠ 0 := String.length_eq_zero_iff.not.2 hne
    omega
  refine ⟨hlength "" (by decide), hlength "." (by decide), fun hmem ↦ ?_⟩
  rw [String.toList_append] at hmem
  exact (List.mem_append.1 hmem).elim h.2.2 hsuffix

namespace Builder

variable {b b' : Builder} {component : Component}

theorem foldl_putBack (segments : List String) (b : Builder) :
    segments.foldl putBack b = ⟨b.segments ++ segments⟩ := by
  induction segments generalizing b with
  | nil => simp
  | cons segment rest ih => simp [ih, putBack]

theorem foldl_putFront (segments : List String) (b : Builder) :
    segments.foldl putFront b = ⟨segments.reverse ++ b.segments⟩ := by
  induction segments generalizing b with
  | nil => rfl
  | cons segment rest ih => simp [ih, putFront]

/-- The segments of a text come behind the others. -/
theorem push_eq (b : Builder) (s : String) : b.push s = ⟨b.segments ++ split s⟩ :=
  foldl_putBack _ b

/-- The segments of a text come in front of the others, in the order of the text. -/
theorem pushFront_eq (b : Builder) (s : String) : b.pushFront s = ⟨split s ++ b.segments⟩ := by
  rw [pushFront, List.filter_reverse, foldl_putFront, List.reverse_reverse, split]

/-- A part of a name of the operating system adds the segments of a text, or none. -/
theorem pushPart_eq_ok (h : b.pushPart os component = .ok b') : b' = b ∨ ∃ s, b' = b.push s := by
  cases component with
  | root => exact Or.inl (Except.ok.inj h).symm
  | current => exact Or.inl (Except.ok.inj h).symm
  | parent => exact Or.inr ⟨parentName, (Except.ok.inj h).symm⟩
  | normal name =>
    rw [pushPart] at h
    split at h
    · exact Or.inr ⟨_, (Except.ok.inj h).symm⟩
    · cases h

theorem plain_push (h : ∀ segment ∈ b.segments, Plain segment) (s : String) :
    ∀ segment ∈ (b.push s).segments, Plain segment := by
  rw [push_eq]
  exact fun segment hsegment ↦ (List.mem_append.1 hsegment).elim (h segment) plain_of_mem_split

theorem plain_pushFront (h : ∀ segment ∈ b.segments, Plain segment) (s : String) :
    ∀ segment ∈ (b.pushFront s).segments, Plain segment := by
  rw [pushFront_eq]
  exact fun segment hsegment ↦ (List.mem_append.1 hsegment).elim plain_of_mem_split (h segment)

end Builder

/-! ### What the operations keep -/

theorem wellFormed_ofOs (h : ofOs os = .ok p) : p.WellFormed := by
  rw [ofOs] at h
  obtain ⟨b, hfold, h⟩ := bind_eq_ok.1 h
  obtain rfl := Except.ok.inj h
  refine foldlM_keeps (P := fun b : Builder ↦ ∀ segment ∈ b.segments, Plain segment) ?_
    (fun _ hsegment ↦ absurd hsegment List.not_mem_nil) hfold
  rintro component b b' hb hpush
  obtain rfl | ⟨s, rfl⟩ := Builder.pushPart_eq_ok hpush
  · exact hb
  · exact Builder.plain_push hb s

/-- What is left of segments is some of them. -/
theorem mem_of_climb (h : climb absolute above segments = some left) (hname : name ∈ left) :
    name ∈ above ∨ name ∈ segments := by
  fun_induction climb absolute above segments <;> grind

theorem WellFormed.normalize (h : p.WellFormed) (hq : p.normalize = .ok q) : q.WellFormed := by
  rw [Path.normalize] at hq
  split at hq
  case h_1 left hleft =>
    obtain rfl := Except.ok.inj hq
    intro segment hsegment
    exact h segment ((mem_of_climb hleft (List.mem_reverse.1 hsegment)).resolve_left
      List.not_mem_nil)
  case h_2 => cases hq

theorem WellFormed.withExtension (h : p.WellFormed) (hextension : '/' ∉ extension.toList)
    (hq : p.withExtension extension = .ok q) : q.WellFormed := by
  rcases p.segments.eq_nil_or_concat' with hnil | ⟨front, name, hsegments⟩
  · simp [Path.withExtension, basename, hnil, invalid, bind, Except.bind] at hq
  · have hname : Plain name :=
      h name (hsegments ▸ List.mem_append_right _ (List.mem_singleton_self _))
    have hbehind : '/' ∉ ("." ++ extension).toList := by simpa using hextension
    rw [Path.withExtension, basename_eq_ok.2 ⟨front, hsegments⟩, parent_eq hsegments] at hq
    obtain rfl : _ = q := Except.ok.inj hq
    intro segment hsegment
    rcases List.mem_append.1 hsegment with hsegment | hsegment
    · exact h segment (hsegments ▸ List.mem_append_left _ hsegment)
    · obtain rfl := List.mem_singleton.1 hsegment
      rw [String.append_assoc]
      exact hname.append hbehind (by simp)

/-! ### The paths that there are -/

mutual

/-- The paths that come from texts and from names of the operating system by operations on paths and
builders. -/
inductive Obtained : Path → Prop
  /-- A path is read from a text. -/
  | parse (s : String) : Obtained (parse s)
  /-- A path is read from a name of the operating system. -/
  | ofOs {os : Bytes} {p : Path} (h : ofOs os = .ok p) : Obtained p
  /-- The segments of a builder make an absolute path. -/
  | toAbsolute {b : Builder} (h : Gathered b) : Obtained b.toAbsolute
  /-- The segments of a builder make a relative path. -/
  | toRelative {b : Builder} (h : Gathered b) : Obtained b.toRelative
  /-- A path is grown by the segments of a text. -/
  | child {p : Path} (h : Obtained p) (name : String) : Obtained (p.child name)
  /-- A path is followed from another. -/
  | join {p q : Path} (hp : Obtained p) (hq : Obtained q) : Obtained (p.join q)
  /-- A path loses its last segment. -/
  | parent {p d : Path} (h : Obtained p) (hd : p.parent = .ok d) : Obtained d
  /-- A path loses the steps up that have a segment to remove. -/
  | normalize {p q : Path} (h : Obtained p) (hq : p.normalize = .ok q) : Obtained q
  /-- A name is given an extension, which has no slash in it. -/
  | withExtension {p q : Path} {extension : String} (h : Obtained p)
      (hextension : '/' ∉ extension.toList) (hq : p.withExtension extension = .ok q) : Obtained q

/-- The builders that gather segments of texts and of paths, from either end. -/
inductive Gathered : Builder → Prop
  /-- A builder starts without segments. -/
  | empty : Gathered {}
  /-- A builder starts with the segments of a path. -/
  | ofPath {p : Path} (h : Obtained p) : Gathered (.ofPath p)
  /-- Segments are added behind the others. -/
  | push {b : Builder} (h : Gathered b) (s : String) : Gathered (b.push s)
  /-- Segments are added in front of the others. -/
  | pushFront {b : Builder} (h : Gathered b) (s : String) : Gathered (b.pushFront s)

end

mutual

theorem Obtained.wellFormed {p : Path} : p.Obtained → p.WellFormed
  | .parse s => wellFormed_parse s
  | .ofOs h => wellFormed_ofOs h
  | .toAbsolute h => h.plain
  | .toRelative h => h.plain
  | .child h name => h.wellFormed.child name
  | .join hp hq => hp.wellFormed.join hq.wellFormed
  | .parent h hd => h.wellFormed.parent hd
  | .normalize h hq => h.wellFormed.normalize hq
  | .withExtension h hextension hq => h.wellFormed.withExtension hextension hq

theorem Gathered.plain {b : Builder} : Gathered b → ∀ segment ∈ b.segments, Plain segment
  | .empty => fun _ hsegment ↦ nomatch hsegment
  | .ofPath h => h.wellFormed
  | .push h s => Builder.plain_push h.plain s
  | .pushFront h s => Builder.plain_pushFront h.plain s

end

/-- **The paths that there are, are those with plain segments.** -/
theorem obtained_iff : p.Obtained ↔ p.WellFormed := by
  refine ⟨Obtained.wellFormed, fun h ↦ ?_⟩
  rw [← parse_render h]
  exact .parse p.render

/-- **The written form of a path says everything.** A path that is obtained in whatever way has
plain segments only and is read back from its written form. Therefore it is told from all other
paths by its written form, and no absolute path is written like a relative one. -/
theorem Obtained.told_by_render (hp : p.Obtained) :
    p.WellFormed ∧ Path.parse p.render = p ∧
      ∀ q : Path, q.Obtained →
        (p = q ↔ p.render = q.render) ∧ (p.absolute ≠ q.absolute → p.render ≠ q.render) := by
  refine ⟨hp.wellFormed, parse_render hp.wellFormed, fun q hq ↦ ?_⟩
  have htold : p.render = q.render → p = q := render_injOn hp.wellFormed hq.wellFormed
  exact ⟨⟨congrArg render, htold⟩, fun hne heq ↦ hne (congrArg absolute (htold heq))⟩

/-- A declaration file beside a directory, along the segments of a builder that is filled from its
end. -/
def upward : Builder := ((({} : Builder).pushFront "m.d.ts").pushFront "/lib//.").pushFront "../."

/-- The same path, from a name of the operating system. -/
theorem obtained_upward : upward.toRelative.Obtained := by
  have hread : ofOs (Utf8.encode "./.././lib") = .ok ⟨false, ["..", "lib"]⟩ := by cbv
  have hextension : (child ⟨false, ["..", "lib"]⟩ "./m").withExtension "d.ts" =
      .ok upward.toRelative := by
    cbv
  exact .withExtension ((Obtained.ofOs hread).child "./m") (by decide) hextension

/-- A path that is obtained in several steps is told apart from the same path made absolute. -/
theorem Obtained.told_by_render_upward :
    upward.toRelative.Obtained ∧ upward.toAbsolute.Obtained ∧ upward.toRelative.WellFormed ∧
      Path.parse "./../lib/m.d.ts" = upward.toRelative ∧
      upward.toRelative.render ≠ upward.toAbsolute.render := by
  have habsolute : upward.toAbsolute.Obtained :=
    .toAbsolute (((Gathered.empty.pushFront _).pushFront _).pushFront _)
  obtain ⟨hplain, hread, htold⟩ := obtained_upward.told_by_render
  exact ⟨obtained_upward, habsolute, hplain, hread, (htold _ habsolute).2 (by decide)⟩

end Path

end ModuleBundler
