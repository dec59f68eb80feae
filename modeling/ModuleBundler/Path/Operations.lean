import ModuleBundler.Error

/-!
# Operations on paths

The last segment, what stands above it, the lexical meaning of `..`, and a fingerprint.

`normalize` keeps the segments read so far in reverse, so that a `..` removes the head of that
list. A relative path keeps the `..` that find nothing to remove; an absolute one has nothing above
its root and is refused.
-/

namespace ModuleBundler.Path

/-- The last segment. -/
def basename (p : Path) : Except Error String :=
  match p.segments.getLast? with
  | some name => .ok name
  | none => invalid (.noBasename p)

/-- The path without its last segment. -/
def parent (p : Path) : Except Error Path :=
  if p.segments.isEmpty then invalid (.noParent p)
  else .ok ⟨p.absolute, p.segments.dropLast⟩

/-- The path whose last segment has `.extension` at its end. -/
def withExtension (p : Path) (extension : String) : Except Error Path := do
  let name ← p.basename
  let directory ← p.parent
  return ⟨directory.absolute, directory.segments ++ [name ++ "." ++ extension]⟩

/-! ### The lexical meaning of `..` -/

/-- The segments left, in reverse, when `segments` are followed from the place `above` leads to
(also in reverse); `none` when an absolute path leaves its root. -/
def climb (absolute : Bool) (above : List String) : List String → Option (List String)
  | [] => some above
  | segment :: rest =>
    if segment != parentName then climb absolute (segment :: above) rest
    else
      match above with
      | last :: higher =>
        if last != parentName then climb absolute higher rest
        else if absolute then none
        else climb absolute (segment :: above) rest
      | [] => if absolute then none else climb absolute [segment] rest

/-- The path without the `..` that have a segment to remove. -/
def normalize (p : Path) : Except Error Path :=
  match climb p.absolute [] p.segments with
  | some above => .ok ⟨p.absolute, above.reverse⟩
  | none => invalid (.ascendsPastRoot p)

/-! ### Fingerprints -/

/-- The multiplier of a fingerprint. -/
def fingerprintPrime : UInt64 := 0x00000100000001b3

/-- Where the fingerprint of a path starts; absolute and relative paths start apart. -/
def fingerprintSeed (absolute : Bool) : UInt64 :=
  if absolute then 0xcbf29ce484222325 else 0x84222325cbf29ce4

/-- A fingerprint after one more byte. -/
def mix (hash : UInt64) (byte : UInt8) : UInt64 :=
  (hash ^^^ byte.toUInt64) * fingerprintPrime

/-- The bytes of segments, each closed by a byte that no text holds. -/
def fingerprintBytes (segments : List String) : Bytes :=
  segments.flatMap fun segment ↦ Utf8.encode segment ++ [0xFF]

/-- A number that equal paths share, also between runs. -/
def fingerprint (p : Path) : UInt64 :=
  (fingerprintBytes p.segments).foldl mix (fingerprintSeed p.absolute)

end ModuleBundler.Path
