import ModuleBundler.Proofs.Path.RoundTrip
import ModuleBundler.Resolution.Packages

/-!
# Prefixes of package names

Which requests a name covers is decided on characters: the request is the name, or goes on behind it
with a slash. Said of the segments between slashes, the name is a front of the request
(`ExternalPackages.contains_iff_pieces`). A name that ends in a slash has an empty segment at its
end, which is not compared, and asks for something in its place: the rest of it is a strict front.

The two come to the same because of how slashes cut a text. One text is a front of another segment
by segment exactly if it is the whole of it or a slash follows (`splitOn_isPrefix_iff`); a front
that ends inside a segment is none. Nothing is asked of either text, so that it holds for empty
names, for doubled slashes, and for requests that are shorter than the name.
-/

namespace ModuleBundler

theorem intercalate_append_cons {α : Type} (separator : α) {front : List (List α)}
    (hfront : front ≠ []) (next : List α) (rest : List (List α)) :
    [separator].intercalate (front ++ next :: rest) =
      [separator].intercalate front ++ separator :: [separator].intercalate (next :: rest) := by
  obtain ⟨first, more, rfl⟩ := List.exists_cons_of_ne_nil hfront
  simp [intercalate_cons]

section

variable {α : Type} [BEq α] [LawfulBEq α] {a : α} {l l' : List α}

/-- **Piece by piece, a list is a front of another** exactly if it is the other, or the separator
follows it there. -/
theorem splitOn_isPrefix_iff :
    l.splitOn a <+: l'.splitOn a ↔ l' = l ∨ l ++ [a] <+: l' := by
  constructor
  · rintro ⟨rest, hrest⟩
    -- the pieces with separators between them are the lists again
    have hl' : l' = [a].intercalate (l.splitOn a ++ rest) := by
      rw [hrest, List.intercalate_splitOn]
    rcases rest with - | ⟨next, rest⟩
    · rw [List.append_nil, List.intercalate_splitOn] at hl'
      exact Or.inl hl'
    · rw [intercalate_append_cons a (List.splitOn_ne_nil a l), List.intercalate_splitOn] at hl'
      exact Or.inr ⟨[a].intercalate (next :: rest), by simp [hl']⟩
  · rintro (rfl | ⟨rest, rfl⟩)
    · exact List.prefix_rfl
    · rw [List.append_assoc, List.singleton_append, List.splitOn_append_cons_self]
      exact List.prefix_append _ _

/-- The front is strict exactly if the separator follows. -/
theorem splitOn_isPrefix_and_ne_iff :
    l.splitOn a <+: l'.splitOn a ∧ l.splitOn a ≠ l'.splitOn a ↔ l ++ [a] <+: l' := by
  rw [splitOn_isPrefix_iff]
  constructor
  · rintro ⟨rfl | hfollows, hne⟩
    · exact absurd rfl hne
    · exact hfollows
  · intro hfollows
    refine ⟨Or.inr hfollows, fun heq ↦ ?_⟩
    have hl : l = l' := calc
      l = [a].intercalate (l.splitOn a) := (List.intercalate_splitOn a).symm
      _ = [a].intercalate (l'.splitOn a) := by rw [heq]
      _ = l' := List.intercalate_splitOn a
    have hlength := hfollows.length_le
    rw [hl, List.length_append, List.length_singleton] at hlength
    omega

end

namespace Path

variable {name request : String}

theorem map_ofList_injective : Function.Injective (List.map String.ofList) :=
  List.map_injective_iff.2 fun _ _ h ↦ String.ofList_inj.1 h

theorem pieces_isPrefix_iff :
    pieces name <+: pieces request ↔
      request.toList = name.toList ∨ name.toList ++ ['/'] <+: request.toList := by
  rw [pieces, pieces, List.prefix_map_iff_of_injective fun _ _ h ↦ String.ofList_inj.1 h,
    splitOn_isPrefix_iff]

theorem pieces_isPrefix_and_ne_iff :
    pieces name <+: pieces request ∧ pieces name ≠ pieces request ↔
      name.toList ++ ['/'] <+: request.toList := by
  rw [pieces, pieces, List.prefix_map_iff_of_injective fun _ _ h ↦ String.ofList_inj.1 h,
    map_ofList_injective.ne_iff, splitOn_isPrefix_and_ne_iff]

/-- A text that goes on inside of the last piece of another does not begin with its pieces. -/
theorem not_pieces_isPrefix_append {more : String} (hne : more ≠ "")
    (hmore : more.toList.head? ≠ some '/') : ¬ pieces name <+: pieces (name ++ more) := by
  rw [pieces_isPrefix_iff, String.toList_append]
  rintro (hsame | hfollows)
  · exact hne (String.toList_eq_nil_iff.1 (List.append_right_eq_self.1 hsame))
  · obtain ⟨rest, hrest⟩ := (List.prefix_append_right_inj _).1 hfollows
    exact hmore (by rw [← hrest]; rfl)

/-- A slash at the end of a text cuts off an empty piece. -/
theorem pieces_append_slash (name : String) : pieces (name ++ "/") = pieces name ++ [""] := by
  have hempty : pieces "" = [""] := rfl
  rw [← hempty, ← pieces_append_slash_append, String.append_empty]

end Path

namespace ExternalPackages

variable {name request : String}

/-- A name without a slash at its end covers the requests that it is a front of. -/
theorem covers_iff (hname : name.toList.getLast? ≠ some '/') :
    covers name.toList request.toList = true ↔ Path.pieces name <+: Path.pieces request := by
  rw [covers, if_neg hname, Path.pieces_isPrefix_iff]
  simp

/-- A name with a slash at its end covers the requests that the rest of it is a strict front of. -/
theorem covers_append_slash_iff :
    covers (name ++ "/").toList request.toList = true ↔
      Path.pieces name <+: Path.pieces request ∧ Path.pieces name ≠ Path.pieces request := by
  have hslash : (name ++ "/").toList = name.toList ++ ['/'] := String.toList_append
  rw [covers, hslash, if_pos List.getLast?_concat, List.isPrefixOf_iff_prefix,
    Path.pieces_isPrefix_and_ne_iff]

theorem exists_append_slash (hname : name.toList.getLast? = some '/') :
    ∃ front, name = front ++ "/" := by
  obtain ⟨front, hfront⟩ := List.getLast?_eq_some_iff.1 hname
  refine ⟨String.ofList front, String.toList_inj.1 ?_⟩
  rw [hfront, String.toList_append, String.toList_ofList]
  rfl

/-- **A name covers the requests that it is a front of, segment by segment.** -/
theorem covers_iff_pieces :
    covers name.toList request.toList = true ↔
      name.toList.getLast? ≠ some '/' ∧ Path.pieces name <+: Path.pieces request ∨
      name.toList.getLast? = some '/' ∧ ∃ front, Path.pieces name = front ++ [""] ∧
        front <+: Path.pieces request ∧ front ≠ Path.pieces request := by
  by_cases hname : name.toList.getLast? = some '/'
  · obtain ⟨front, rfl⟩ := exists_append_slash hname
    rw [covers_append_slash_iff, Path.pieces_append_slash]
    simp
  · rw [covers_iff hname]
    simp [hname]

/-- **External names cover whole segments.** A request is left out of the bundle if and only if one
of the names is a front of it, segment by segment; a name that ends in a slash is without the empty
segment at its end, and has to be a strict front. So a request that goes on inside of the last
segment of a name is not covered by the name, with or without a slash at its end, and what is
covered with the slash is covered without it. -/
theorem contains_iff_pieces (packages : ExternalPackages) (request : String) :
    (packages.contains request = true ↔ ∃ name ∈ packages.prefixes,
      name.toList.getLast? ≠ some '/' ∧ Path.pieces name <+: Path.pieces request ∨
      name.toList.getLast? = some '/' ∧ ∃ front, Path.pieces name = front ++ [""] ∧
        front <+: Path.pieces request ∧ front ≠ Path.pieces request) ∧
    (∀ name more : String, name.toList.getLast? ≠ some '/' → request = name ++ more → more ≠ "" →
      more.toList.head? ≠ some '/' → (mk [name, name ++ "/"]).contains request = false) ∧
    ∀ name : String, name.toList.getLast? ≠ some '/' →
      (mk [name ++ "/"]).contains request = true → (mk [name]).contains request = true := by
  refine ⟨?_, ?_, ?_⟩
  · simp only [contains, List.any_eq_true, covers_iff_pieces]
  · rintro name more hname rfl hne hmore
    have hnot : ¬ Path.pieces name <+: Path.pieces (name ++ more) :=
      Path.not_pieces_isPrefix_append hne hmore
    refine Bool.eq_false_iff.2 fun hcontains ↦ ?_
    simp only [contains, List.any_cons, List.any_nil, Bool.or_false, Bool.or_eq_true,
      covers_iff hname, covers_append_slash_iff] at hcontains
    exact hcontains.elim hnot fun hstrict ↦ hnot hstrict.1
  · intro name hname hslash
    simp only [contains, List.any_cons, List.any_nil, Bool.or_false, covers_iff hname,
      covers_append_slash_iff] at hslash ⊢
    exact hslash.1

/-- A scope with a slash, and a package. Both cover what is below them; the package covers itself,
and nothing covers a request that only begins with the same characters. -/
theorem contains_iff_pieces_scoped :
    (mk ["@std/", "react"]).contains "react/jsx-runtime" = true ∧
    "react".toList.getLast? ≠ some '/' ∧ "-dom" ≠ "" ∧ "-dom".toList.head? ≠ some '/' ∧
    (mk ["react", "react" ++ "/"]).contains "react-dom" = false ∧
    (mk ["@std" ++ "/"]).contains "@std//core" = true ∧ (mk ["@std"]).contains "@std//core" = true := by
  have hpieces : Path.pieces "react" <+: Path.pieces "react/jsx-runtime" := by decide
  have hlast : "react".toList.getLast? ≠ some '/' := by decide
  have hinside := (contains_iff_pieces ⟨["@std/", "react"]⟩ "react-dom").2.1 "react" "-dom" hlast
    (by decide) (by decide) (by decide)
  have hcovered : (mk ["@std" ++ "/"]).contains "@std//core" = true := by decide
  refine ⟨?_, hlast, by decide, by decide, hinside, hcovered, ?_⟩
  · exact (contains_iff_pieces _ _).1.2
      ⟨"react", by simp, Or.inl ⟨hlast, hpieces⟩⟩
  · exact (contains_iff_pieces ⟨["@std/", "react"]⟩ "@std//core").2.2 "@std" (by decide) hcovered

end ExternalPackages

end ModuleBundler
