import ModuleBundler.Proofs.Source.Engine
import ModuleBundler.Proofs.Store.Refinement
import ModuleBundler.Syntax.Program

/-!
# What a source file remembers

A source file and the store it is read from go their own ways between two readings: files are
written, removed, made again and replaced by directories, and the source file hears nothing of it.
A session is the two together, and what may happen in it comes in any order.

The contents that the file had whenever it was read again are the *readings* of a session. They are
said by the catalog of the store, which knows nothing of handles, and not by what reading answers.
Two results hold at each moment of a session:

* `Session.Remembers`: the source file is what its last reading makes of a file that was never read
  before, and it was never read as long as there are no readings. Nothing is left of the readings
  before the last one, and nothing is seen of the store as it is now.
* `Session.Rereads`: to read it again succeeds exactly if its path names a file now. If it does not,
  the source file stays as it is; and the store has the same files and the same open handles in both
  cases.

Both are results about every exact engine. They rest on two equations for reading a source file from
a store in use, one for each outcome (`MemoryStore.Tree.refresh_of_read`,
`MemoryStore.Tree.refresh_of_read_eq_none`), and the first on an induction along the session: what
the engine is handed at each reading is true, because the source file is genuine at each moment
(`Session.genuine_apply`).
-/

namespace ModuleBundler

/-- A source file, and the store that it is read from. -/
structure Session where
  /-- The source file. -/
  file : SourceFile
  /-- The store. -/
  store : MemoryStore

namespace Session

/-- A source file that was not read yet, and a store to read it from. -/
def start (path : Path) (s : MemoryStore) : Session :=
  ⟨⟨path, none⟩, s⟩

/-- What can happen in a session. -/
inductive Event where
  /-- The source file is read again. -/
  | refresh
  /-- The references of the source file are asked for. -/
  | references
  /-- Something is done with the store. -/
  | use (operation : Operation)
  deriving DecidableEq, Repr

/-- The path that an event brings into the store. -/
def Event.path? : Event → Option Path
  | .refresh => none
  | .references => none
  | .use operation => operation.path?

/-- What an event leaves, whether it succeeds or fails. -/
def Event.apply [Engine] (event : Event) (x : Session) : Session :=
  match event with
  | .refresh => ⟨(x.file.refresh x.store).2.1, (x.file.refresh x.store).2.2⟩
  | .references => x
  | .use operation => { x with store := operation.apply x.store }

/-- The session after events, one after the other. -/
def run [Engine] (events : List Event) (x : Session) : Session :=
  events.foldl (fun x event ↦ event.apply x) x

/-- The content of the file, if the event reads it. -/
def Event.reading? (event : Event) (x : Session) : Option Bytes :=
  match event with
  | .refresh => x.store.catalog.read x.file.path
  | .references => none
  | .use _ => none

/-- The contents that the file had whenever it was read. -/
def readings [Engine] : List Event → Session → List Bytes
  | [], _ => []
  | event :: rest, x => (event.reading? x).toList ++ readings rest (event.apply x)

end Session

/-- The references of a file that was read may fail to be told, but not because it was not read. -/
theorem SourceFile.references_ne_notParsed [Engine] (path q : Path) (content : Bytes) :
    (reading path content).references ≠ .error (.notParsed q) := by
  show Reference.references path content (Engine.parse (.ofPath path) content none) ≠ _
  rw [Reference.references]
  generalize Reference.collect content _ = found
  cases found <;> simp [Except.mapError]

namespace MemoryStore

variable [Engine] {s : MemoryStore} {f : SourceFile} {content : Bytes}

/-! ### One reading -/

/-- If its path names a file, a source file has the content of it afterwards, and the number of one
handle is used up. -/
theorem Tree.refresh_of_read (h : s.Tree) (hs : s.Sound) (hf : f.Genuine) (hengine : Engine.Exact)
    (hread : s.catalog.read f.path = some content) :
    f.refresh s = (.ok (), .reading f.path content, s.skip 1) := by
  rw [hf.refresh_eq hengine, hs.load_eq_ok (h.read_eq_some.1 hread)]

/-- If its path names no file, nothing changes. -/
theorem Tree.refresh_of_read_eq_none (h : s.Tree) (hread : s.catalog.read f.path = none) :
    ∃ cause, f.refresh s = (.error (.invalidPath cause), f, s) := by
  rcases hcontent : s.contentAt f.path with e | content
  · obtain ⟨cause, rfl⟩ := contentAt_eq_error hcontent
    exact ⟨cause, by simp only [SourceFile.refresh, load_eq_error hcontent]⟩
  · rw [h.read_eq_some.2 hcontent] at hread
    cases hread

/-- All that reading a source file changes in a store is what number comes next. -/
theorem Sound.store_refresh (hs : s.Sound) (f : SourceFile) :
    ∃ n, (f.refresh s).2.2 = s.skip n := by
  have hload : (f.refresh s).2.2 = (FileStore.load f.path s).2 := by
    rw [SourceFile.refresh]
    rcases FileStore.load f.path s with ⟨e | content, loaded⟩ <;> rfl
  exact hload ▸ hs.snd_load f.path

end MemoryStore

namespace Session

variable [Engine] {x : Session} {event : Event} {events : List Event} {path : Path}
  {s : MemoryStore}
  {content : Bytes}

/-! ### One event -/

/-- What an event leaves of the source file depends only on what it reads. -/
theorem file_apply (hengine : Engine.Exact) (hfile : x.file.Genuine) (htree : x.store.Tree)
    (hs : x.store.Sound) (event : Event) :
    (event.apply x).file = ((event.reading? x).map (.reading x.file.path)).getD x.file := by
  rcases event with - | - | operation
  · show (x.file.refresh x.store).2.1 = ((x.store.catalog.read x.file.path).map _).getD _
    rcases hread : x.store.catalog.read x.file.path with - | content
    · obtain ⟨cause, hrefresh⟩ := htree.refresh_of_read_eq_none hread
      rw [hrefresh]
      rfl
    · rw [htree.refresh_of_read hs hfile hengine hread]
      rfl
  · rfl
  · rfl

theorem path_apply (hengine : Engine.Exact) (hfile : x.file.Genuine) (htree : x.store.Tree)
    (hs : x.store.Sound) (event : Event) : (event.apply x).file.path = x.file.path := by
  rw [file_apply hengine hfile htree hs]
  cases event.reading? x <;> rfl

/-- What an event leaves tells the truth at the next reading. -/
theorem genuine_apply (hengine : Engine.Exact) (hfile : x.file.Genuine) (htree : x.store.Tree)
    (hs : x.store.Sound) (event : Event) : (event.apply x).file.Genuine := by
  rw [file_apply hengine hfile htree hs]
  rcases event.reading? x with - | content
  · exact hfile
  · exact SourceFile.genuine_reading x.file.path content

/-- An event leaves a tree, if its path is well formed. The path of the source file need not be. -/
theorem tree_apply (htree : x.store.Tree) (hs : x.store.Sound) (event : Event)
    (hpath : ∀ p ∈ event.path?, p.WellFormed) :
    (event.apply x).store.Tree ∧ (event.apply x).store.Sound := by
  rcases event with - | - | operation
  · obtain ⟨n, hstore⟩ := hs.store_refresh x.file
    show (x.file.refresh x.store).2.2.Tree ∧ (x.file.refresh x.store).2.2.Sound
    rw [hstore]
    exact ⟨htree.sameTree (x.store.sameTree_skip n), hs.skip n⟩
  · exact ⟨htree, hs⟩
  · exact ⟨MemoryStore.keeps_tree.apply htree operation hpath,
      MemoryStore.keeps_sound.apply hs operation fun _ _ ↦ trivial⟩

/-! ### A run of events -/

/-- **The source file is what its last reading makes of it.** -/
theorem file_run (hengine : Engine.Exact) (hfile : x.file.Genuine) (htree : x.store.Tree)
    (hs : x.store.Sound) (hevents : ∀ event ∈ events, ∀ p ∈ event.path?, p.WellFormed) :
    (run events x).file =
      ((readings events x).getLast?.map (.reading x.file.path)).getD x.file := by
  induction events generalizing x with
  | nil => rfl
  | cons event rest ih =>
    obtain ⟨htree', hs'⟩ := tree_apply htree hs event (hevents event List.mem_cons_self)
    have hfile' := genuine_apply hengine hfile htree hs event
    have hrest := ih hfile' htree' hs' fun event hevent ↦
      hevents event (List.mem_cons_of_mem _ hevent)
    rw [path_apply hengine hfile htree hs, file_apply hengine hfile htree hs] at hrest
    show (run rest (event.apply x)).file =
      (((event.reading? x).toList ++ readings rest (event.apply x)).getLast?.map _).getD _
    rw [hrest, List.getLast?_append]
    rcases readings rest (event.apply x) |>.getLast? with - | content
    · cases event.reading? x <;> rfl
    · rfl

/-- The source file tells the truth at the end, too. -/
theorem genuine_run (hengine : Engine.Exact) (hfile : x.file.Genuine) (htree : x.store.Tree)
    (hs : x.store.Sound) (hevents : ∀ event ∈ events, ∀ p ∈ event.path?, p.WellFormed) :
    (run events x).file.Genuine := by
  rw [file_run hengine hfile htree hs hevents]
  rcases (readings events x).getLast? with - | content
  · exact hfile
  · exact SourceFile.genuine_reading x.file.path content

theorem tree_run (htree : x.store.Tree) (hs : x.store.Sound)
    (hevents : ∀ event ∈ events, ∀ p ∈ event.path?, p.WellFormed) :
    (run events x).store.Tree ∧ (run events x).store.Sound := by
  induction events generalizing x with
  | nil => exact ⟨htree, hs⟩
  | cons event rest ih =>
    obtain ⟨htree', hs'⟩ := tree_apply htree hs event (hevents event List.mem_cons_self)
    exact ih htree' hs' fun event hevent ↦ hevents event (List.mem_cons_of_mem _ hevent)

/-! ### What holds at each moment -/

/-- What a source file is after readings: nothing is left of them but the last. -/
structure Remembers (f : SourceFile) (path : Path) (contents : List Bytes) : Prop where
  /-- It has the bytes that were read last. -/
  content : f.content? = contents.getLast?
  /-- It counts as read from the first reading on. -/
  isRead : f.isRead = true ↔ contents ≠ []
  /-- Its references are refused, because it was not read, until the first reading and no longer. -/
  references : ∀ q, f.references = .error (.notParsed q) ↔ contents = [] ∧ q = path
  /-- It is like a source file that is read for the first time, from any store in which the file has
  the content that was read last. -/
  fresh : ∀ s : MemoryStore, s.InUse → ∀ content ∈ contents.getLast?,
    s.catalog.read path = some content → f = ((start path s).file.refresh s).2.1

/-- What it is to read the source file again. -/
structure Rereads (x : Session) : Prop where
  /-- It succeeds exactly if the path names a file. -/
  succeeds : (x.file.refresh x.store).1 = .ok () ↔
    ∃ content, x.store.catalog.read x.file.path = some content
  /-- Then the source file has the content of the file, and is like one that was never read
  before. -/
  read : ∀ content, x.store.catalog.read x.file.path = some content →
    (x.file.refresh x.store).2.1.content? = some content ∧
      (x.file.refresh x.store).2.1 =
        ((start x.file.path x.store).file.refresh x.store).2.1
  /-- If it fails, the source file is what it was. -/
  fails : ∀ e, (x.file.refresh x.store).1 = .error e → (x.file.refresh x.store).2.1 = x.file
  /-- The store has the same nodes in the same places. -/
  nodes : (x.file.refresh x.store).2.2.nodes = x.store.nodes
  /-- So all files and directories are the same. -/
  catalog : (x.file.refresh x.store).2.2.catalog = x.store.catalog
  /-- The same handles are open and lead to the same files. -/
  entries : (x.file.refresh x.store).2.2.handles.entries = x.store.handles.entries

theorem remembers_none (path : Path) : Remembers ⟨path, none⟩ path [] where
  content := rfl
  isRead := by simp [SourceFile.isRead]
  references q := by simp [SourceFile.references, eq_comm]
  fresh _ _ _ hcontent := by cases hcontent

theorem remembers_reading (hengine : Engine.Exact) {contents : List Bytes}
    (h : contents.getLast? = some content) :
    Remembers (.reading path content) path contents where
  content := h.symm
  isRead := by
    have hne : contents ≠ [] := by
      rintro rfl
      cases h
    exact iff_of_true rfl hne
  references q := by
    refine iff_of_false (SourceFile.references_ne_notParsed path q content) ?_
    rintro ⟨rfl, -⟩
    cases h
  fresh s hs content' hcontent hread := by
    obtain rfl : content = content' := Option.some.inj (h.symm.trans hcontent)
    have hrefresh : (start path s).file.refresh s = _ :=
      hs.tree.refresh_of_read hs.sound (SourceFile.genuine_none path) hengine hread
    rw [hrefresh]
    rfl

theorem rereads (hengine : Engine.Exact) (hfile : x.file.Genuine) (htree : x.store.Tree)
    (hs : x.store.Sound) : x.Rereads := by
  rcases hread : x.store.catalog.read x.file.path with - | content
  · obtain ⟨cause, hrefresh⟩ := htree.refresh_of_read_eq_none hread
    exact {
      succeeds := by simp [hrefresh, hread]
      read := by simp [hread]
      fails _ _ := by rw [hrefresh]
      nodes := by rw [hrefresh]
      catalog := by rw [hrefresh]
      entries := by rw [hrefresh] }
  · have hrefresh := htree.refresh_of_read hs hfile hengine hread
    have hfresh : (start x.file.path x.store).file.refresh x.store = _ :=
      htree.refresh_of_read hs (SourceFile.genuine_none x.file.path) hengine hread
    exact {
      succeeds := by simp [hrefresh, hread]
      read content' hread' := by
        obtain rfl : content = content' := Option.some.inj (hread.symm.trans hread')
        rw [hrefresh, hfresh]
        exact ⟨rfl, rfl⟩
      fails := by simp [hrefresh]
      nodes := by rw [hrefresh]; rfl
      catalog := by rw [hrefresh]; exact (x.store.sameTree_skip 1).catalog
      entries := by rw [hrefresh]; rfl }

/-- **A source file remembers its last reading, and nothing else**, if the engine is exact. Whatever
was read, asked and done to the store before, in whatever order: the source file is what the last
reading makes of it; to read it again succeeds exactly if its path names a file now, and does
nothing to the store but use up a number; and no event that reads nothing changes the source file.
Such an event is a change of the store, a question, or a reading that fails. -/
theorem run_remembers (hengine : Engine.Exact) (hs : s.InUse) (path : Path) (events : List Event)
    (hevents : ∀ event ∈ events, ∀ p ∈ event.path?, p.WellFormed) :
    Remembers (run events (start path s)).file path (readings events (start path s)) ∧
      (run events (start path s)).Rereads ∧
      ∀ event : Event, event.reading? (run events (start path s)) = none →
        (event.apply (run events (start path s))).file = (run events (start path s)).file := by
  have htree : (start path s).store.Tree := hs.tree
  have hfile : (start path s).file.Genuine := SourceFile.genuine_none path
  obtain ⟨htree', hs'⟩ := tree_run htree hs.sound hevents
  have hfile' := genuine_run hengine hfile htree hs.sound hevents
  refine ⟨?_, rereads hengine hfile' htree' hs', fun event hnone ↦ ?_⟩
  · rw [file_run hengine hfile htree hs.sound hevents]
    rcases hlast : (readings events (start path s)).getLast? with - | content
    · rw [List.getLast?_eq_none_iff.1 hlast]
      exact remembers_none path
    · exact remembers_reading hengine hlast
  · rw [file_apply hengine hfile' htree' hs', hnone]
    rfl

end Session

namespace Session

/-- A file that is read, written over, removed, and replaced by a directory of its name. -/
def replacing : List Event :=
  [.refresh, .use (.save ⟨true, ["a.ts"]⟩ (Utf8.encode "import './b';")), .refresh, .references,
    .use (.save ⟨true, ["a.ts"]⟩ (Utf8.encode "import './c';")), .use (.remove ⟨true, ["a.ts"]⟩),
    .use (.makeDirectory ⟨true, ["a.ts"]⟩), .refresh]

/-- Three times the file is read, and once there is something to read. -/
theorem run_remembers_replacing :
    Engine.Exact ∧ MemoryStore.empty.InUse ∧
      (∀ event ∈ replacing, ∀ p ∈ event.path?, p.WellFormed) ∧
      readings replacing (start ⟨true, ["a.ts"]⟩ .empty) = [Utf8.encode "import './b';"] ∧
      (run replacing (start ⟨true, ["a.ts"]⟩ .empty)).file.content? =
        some (Utf8.encode "import './b';") ∧
      (run replacing (start ⟨true, ["a.ts"]⟩ .empty)).Rereads := by
  have hengine : Engine.Exact := by
    constructor <;> intros <;> rfl
  have hs : MemoryStore.empty.InUse := FileStore.ReachableOn.start
  have hevents : ∀ event ∈ replacing, ∀ p ∈ event.path?, p.WellFormed := by decide
  have hreadings : readings replacing (start ⟨true, ["a.ts"]⟩ .empty) =
      [Utf8.encode "import './b';"] := by
    decide +kernel
  obtain ⟨hremembers, hrereads, -⟩ :=
    run_remembers hengine hs ⟨true, ["a.ts"]⟩ replacing hevents
  exact ⟨hengine, hs, hevents, hreadings, by rw [hremembers.content, hreadings]; rfl, hrereads⟩

end Session

end ModuleBundler
