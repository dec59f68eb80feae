import ModuleBundler.Error

/-!
# Open files

A store gives out a handle for each file it opens. Handles are numbered in the order they are given
out and no number comes back, so that a handle that was closed stays closed. The table keeps, for
each open handle, what it leads to and the path the file had when it was opened.
-/

namespace ModuleBundler

/-- What a caller holds of an open file. -/
structure Handle where
  /-- The number of the handle. -/
  id : Nat
  deriving DecidableEq, Repr

/-- The written form of a handle. -/
instance : ToString Handle := ⟨fun handle ↦ s!"#{handle.id}"⟩

/-- What a store keeps of an open file. -/
structure OpenFile (τ : Type) where
  /-- What the handle leads to. -/
  target : τ
  /-- The path of the file when it was opened. -/
  realPath : Path
  deriving DecidableEq, Repr

/-- The open files of a store. -/
structure HandleTable (τ : Type) where
  /-- The open files with the numbers of their handles. -/
  entries : List (Nat × OpenFile τ) := []
  /-- The number of the next handle. -/
  next : Nat := 0
  deriving DecidableEq, Repr

namespace HandleTable

variable {τ : Type}

/-- Gives out the next handle for a file. -/
def insert (table : HandleTable τ) (file : OpenFile τ) : Handle × HandleTable τ :=
  (⟨table.next⟩, ⟨table.entries ++ [(table.next, file)], table.next + 1⟩)

/-- The open file behind a handle. -/
def find? (table : HandleTable τ) (handle : Handle) : Option (OpenFile τ) :=
  table.entries.lookup handle.id

/-- The open file behind a handle, which has to be open. -/
def get (table : HandleTable τ) (handle : Handle) : Except Error (OpenFile τ) :=
  match table.find? handle with
  | some file => .ok file
  | none => .error (.io (.notOpen handle.id))

/-- Takes back a handle, which has to be open. -/
def close (table : HandleTable τ) (handle : Handle) : Except Error (HandleTable τ) :=
  match table.find? handle with
  | some _ => .ok { table with entries := table.entries.filter (·.1 != handle.id) }
  | none => .error (.io (.notOpen handle.id))

/-- How many handles are open. -/
def size (table : HandleTable τ) : Nat :=
  table.entries.length

end HandleTable

end ModuleBundler
