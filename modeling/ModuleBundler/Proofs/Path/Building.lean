import ModuleBundler.Proofs.Path.RoundTrip

/-!
# Building from both ends

A builder is given texts in front and behind, in any order. What comes of it can be written down as
one text, with everything behind slashes: the texts that were added in front, the last one first,
then the segments that the builder started with, then the texts that were added behind
(`Path.Builder.written`). The path that is read from this text is the one along the segments of the
builder (`Path.Builder.gathers_written`).

It rests on where each text goes. A text is taken apart and put in piece by piece, from its last
piece on if it goes in front, so that its segments stand in the order of the text
(`Path.Builder.push_eq`, `Path.Builder.pushFront_eq`). Of several texts, the builder holds the
segments in front of and behind those that it started with (`Path.Builder.addAll_eq`), and nothing
is left of the turns that the two ends took.

The segments that a builder starts with are taken over as they stand and not read anew. For the
paths that there are, it comes to the same, since their segments name themselves.
-/

namespace ModuleBundler.Path.Builder

/-- A text that is added to a builder, at one of its ends. -/
inductive Addition where
  /-- A text that is added in front. -/
  | front (s : String)
  /-- A text that is added behind. -/
  | back (s : String)
  deriving DecidableEq, Repr

/-- The builder with one more text. -/
def add (b : Builder) : Addition → Builder
  | .front s => b.pushFront s
  | .back s => b.push s

/-- The builder with one text added after the other. -/
def addAll (b : Builder) (additions : List Addition) : Builder :=
  additions.foldl add b

/-- The texts that are added in front, the first one first. -/
def fronts (additions : List Addition) : List String :=
  additions.filterMap fun
    | .front s => some s
    | .back _ => none

/-- The texts that are added behind, the first one first. -/
def backs (additions : List Addition) : List String :=
  additions.filterMap fun
    | .front _ => none
    | .back s => some s

/-- All that is added to the segments of a path, as one text: a text that is added in front later
stands further in front. -/
def written (start : Path) (additions : List Addition) : String :=
  slashed ((fronts additions).reverse ++ "/".intercalate start.segments :: backs additions)

variable {start : Path} {additions : List Addition}

@[simp] theorem fronts_cons_front (s : String) :
    fronts (.front s :: additions) = s :: fronts additions := rfl

@[simp] theorem fronts_cons_back (s : String) :
    fronts (.back s :: additions) = fronts additions := rfl

@[simp] theorem backs_cons_front (s : String) :
    backs (.front s :: additions) = backs additions := rfl

@[simp] theorem backs_cons_back (s : String) :
    backs (.back s :: additions) = s :: backs additions := rfl

/-- **Where texts go**: those that are added in front stand in front, in reverse, and those that are
added behind stand behind. -/
theorem addAll_eq (b : Builder) (additions : List Addition) :
    b.addAll additions =
      ⟨(fronts additions).reverse.flatMap split ++ b.segments ++
        (backs additions).flatMap split⟩ := by
  induction additions generalizing b with
  | nil => simp [addAll, fronts, backs]
  | cons addition additions ih =>
    have hnext : b.addAll (addition :: additions) = (b.add addition).addAll additions := rfl
    rw [hnext, ih]
    cases addition with
    | front s => simp [add, pushFront_eq]
    | back s => simp [add, push_eq]

/-- The text names what is added, and the segments of the path in between. -/
theorem split_written (hstart : start.WellFormed) (additions : List Addition) :
    split (written start additions) = ((ofPath start).addAll additions).segments := by
  have hparts : split (written start additions) =
      ((fronts additions).reverse ++ "/".intercalate start.segments :: backs additions).flatMap
        split := by
    rw [written, ← String.empty_append (s := slashed _), split_append_slashed_eq]
    rfl
  rw [hparts, List.flatMap_append, List.flatMap_cons, split_intercalate, flatMap_split hstart,
    addAll_eq, ofPath, List.append_assoc]

/-- The text begins with a slash. -/
theorem absolute_parse_written (start : Path) (additions : List Addition) :
    (parse (written start additions)).absolute = true := by
  have hslash (first : String) (rest : List String) :
      (parse (slashed (first :: rest))).absolute = true := by
    rw [parse, toList_slashed]
    rfl
  rw [written]
  rcases (fronts additions).reverse with - | ⟨first, rest⟩
  · exact hslash _ _
  · exact hslash _ _

/-- **A builder gathers what is written in the order of its ends.** Texts are added in front of and
behind the segments of a path. Then the absolute path along all segments is the one that is read
from the texts in front, the last one first, from the segments of the path with slashes between
them, and from the texts behind. The relative path has the same segments. After each text, the
builder has as many segments as are written so far. And the turns that the two ends take are of no
account. -/
theorem gathers_written (hstart : start.Obtained) (additions : List Addition) :
    ((ofPath start).addAll additions).toAbsolute = parse (written start additions) ∧
      ((ofPath start).addAll additions).toRelative =
        ⟨false, (parse (written start additions)).segments⟩ ∧
      (∀ done, done <+: additions →
        ((ofPath start).addAll done).length = (parse (written start done)).segments.length) ∧
      ∀ others, fronts others = fronts additions → backs others = backs additions →
        (ofPath start).addAll others = (ofPath start).addAll additions := by
  have hread (additions : List Addition) : (parse (written start additions)).segments =
      ((ofPath start).addAll additions).segments :=
    split_written hstart.wellFormed additions
  refine ⟨?_, ?_, fun done _ ↦ ?_, fun others hfronts hbacks ↦ ?_⟩
  · rw [toAbsolute, finish, ← hread, ← absolute_parse_written start additions]
  · rw [toRelative, finish, hread]
  · rw [length, hread]
  · rw [addAll_eq, addAll_eq, hfronts, hbacks]

/-- A path that leads up is built upon with compound texts, with turns taken between the ends. -/
theorem gathers_written_compound :
    ((ofPath (parse "./../lib")).addAll
        [.front "a//b/", .back "/./c", .front "..", .back "d/../e."]).toAbsolute =
      ⟨true, ["..", "a", "b", "..", "lib", "c", "d", "..", "e."]⟩ ∧
    parse "/../a//b//../lib//./c/d/../e." =
      ⟨true, ["..", "a", "b", "..", "lib", "c", "d", "..", "e."]⟩ ∧
    ((ofPath (parse "./../lib")).addAll [.front "a//b/", .back "/./c"]).length = 5 ∧
    (ofPath (parse "./../lib")).addAll
        [.back "/./c", .back "d/../e.", .front "a//b/", .front ".."] =
      (ofPath (parse "./../lib")).addAll
        [.front "a//b/", .back "/./c", .front "..", .back "d/../e."] := by
  have hparse : parse "/../a//b//../lib//./c/d/../e." =
      ⟨true, ["..", "a", "b", "..", "lib", "c", "d", "..", "e."]⟩ := by
    decide
  have hwritten : written (parse "./../lib")
      [.front "a//b/", .back "/./c", .front "..", .back "d/../e."] =
        "/../a//b//../lib//./c/d/../e." := by
    decide
  have hdone : (parse (written (parse "./../lib") [.front "a//b/", .back "/./c"])).segments.length =
      5 := by
    decide
  obtain ⟨habsolute, -, hlength, hturns⟩ := gathers_written (.parse "./../lib")
    [.front "a//b/", .back "/./c", .front "..", .back "d/../e."]
  refine ⟨?_, hparse, ?_, hturns _ rfl rfl⟩
  · rw [habsolute, hwritten, hparse]
  · rw [hlength _ ⟨_, rfl⟩, hdone]

end ModuleBundler.Path.Builder
