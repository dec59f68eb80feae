import ModuleBundler.Text.Utf8

/-!
# Edits

What has changed between two contents, as one edit: up to an offset they are alike, from an offset
on they are alike again, and what stands between was replaced. An edit says each of its offsets
twice, by the number of bytes and by line and column, both of which count from zero.

What two contents share at their ends is looked for behind what they share at their fronts. A byte
that was added to a row of equal ones is so added behind the row, and no byte is shared twice.
-/

namespace ModuleBundler

/-- A place in a content: its line, and how many bytes stand before it on this line. -/
structure Point where
  /-- The line. -/
  row : Nat
  /-- The bytes before it on its line. -/
  column : Nat
  deriving DecidableEq, Repr

/-- The place of an offset. -/
def Point.ofOffset (content : Bytes) (offset : Nat) : Point :=
  let before := content.take offset
  ⟨before.count 0x0A, (before.reverse.takeWhile (· != 0x0A)).length⟩

/-- What was replaced by what. -/
structure Edit where
  /-- Up to here both contents are alike. -/
  start : Nat
  /-- From here on the old content is alike. -/
  oldEnd : Nat
  /-- From here on the new content is alike. -/
  newEnd : Nat
  /-- The place of `start`. -/
  startPoint : Point
  /-- The place of `oldEnd` in the old content. -/
  oldEndPoint : Point
  /-- The place of `newEnd` in the new content. -/
  newEndPoint : Point
  deriving DecidableEq, Repr

/-- How many bytes two contents share at the front. -/
def sharedLength : Bytes → Bytes → Nat
  | a :: as, b :: bs => if a = b then sharedLength as bs + 1 else 0
  | _, _ => 0

/-- The edit that makes one content of another, if they are different. -/
def Edit.between? (old new : Bytes) : Option Edit :=
  if old = new then none
  else
    let start := sharedLength old new
    let behind := sharedLength (old.drop start).reverse (new.drop start).reverse
    let oldEnd := old.length - behind
    let newEnd := new.length - behind
    some {
      start, oldEnd, newEnd
      startPoint := .ofOffset old start
      oldEndPoint := .ofOffset old oldEnd
      newEndPoint := .ofOffset new newEnd }

end ModuleBundler
