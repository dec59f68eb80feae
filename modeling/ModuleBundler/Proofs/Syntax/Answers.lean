import ModuleBundler.Reference
import ModuleBundler.Proofs.Syntax.Cursor
import ModuleBundler.Proofs.Text.Utf8

/-!
# What the nodes of a tree answer

Extraction goes through the nodes of a tree and asks each for its reference. What a node answers
depends on this node only (`Reference.answer?`): nothing if it is no reference, a fault if it is one
that cannot be read, and its record otherwise. So much is true of every tree, whatever the ranges of
its nodes are.

A node is a reference in one of three ways (`Node.refersBy?`), and its source is found in one of
three places (`Node.source?`). The record has the text between the quotes of the source, and its
range (`Node.Records`). Three facts carry this over to lists of nodes: when there is no fault
(`Reference.exists_collect`), what the records are then (`Reference.forall₂_records`), and where the
fault is otherwise (`Reference.exists_first_fault`).
-/

namespace ModuleBundler

namespace Node

variable {n m c s : Node} {content : Bytes} {l : Label}

theorem mem_children_of_part (h : n.part l = some c) : c ∈ n.children :=
  List.mem_of_find?_eq_some h

theorem mem_children_of_head? (h : n.namedChildren.head? = some c) : c ∈ n.children :=
  (List.mem_filter.1 (List.mem_of_mem_head? h)).1

/-! ### References among the nodes -/

/-- The first argument of a call. -/
def firstArgument? (n : Node) : Option Node :=
  (n.part .arguments).bind (·.namedChildren.head?)

/-- How a node refers to a module, if it does. A statement that imports always does, a statement
that exports if it names a source, and a call if it calls `import` with a string literal. -/
def refersBy? (n : Node) : Option ReferenceKind :=
  match n.kind with
  | .importStatement => some .static
  | .exportStatement => if (n.part .source).isSome then some .reExport else none
  | .call =>
    if (n.part .function).any (·.kind == .keyword "import") &&
      n.firstArgument?.any (·.kind == .string) then some .dynamic else none
  | _ => none

theorem refersBy?_of_call (hcall : n.kind = .call) (h : n.refersBy? ≠ none) :
    n.refersBy? = some .dynamic := by
  rw [refersBy?, hcall] at h ⊢
  exact if_pos (by_contra fun hnot ↦ h (if_neg hnot))

/-- The node that has to name the module. -/
def source? (n : Node) : Option Node :=
  match n.kind with
  | .importStatement => n.importSource
  | .call => n.firstArgument?
  | _ => n.part .source

/-- Whether a reference is limited to types. A call never is. -/
def limitsToTypes (n : Node) : Bool :=
  n.kind != .call && n.isTypeOnly

theorem referent_eq (n : Node) : n.referent =
    match n.refersBy?, n.source? with
    | none, _ => .ok none
    | some kind, some source => .ok (some (source, kind, n.limitsToTypes))
    | some _, none => .error .noSource := by
  rcases hkind : n.kind <;> simp only [referent, refersBy?, source?, limitsToTypes, hkind]
  case importStatement => cases n.importSource <;> rfl
  case exportStatement => cases n.part .source <;> rfl
  case call =>
    rw [dynamicSource, firstArgument?]
    rcases n.part .function with - | callee
    · rfl
    · rcases n.part .arguments with - | arguments
      · simp
      · rcases hfirst : arguments.namedChildren.head? with - | first
        · simp [hfirst]
        · by_cases hcall : callee.kind = .keyword "import" <;>
            by_cases hstring : first.kind = .string <;> simp [hfirst, hcall, hstring]

/-- A string literal with a text between its quotes, which has the given range. -/
structure Quotes (content : Bytes) (n : Node) (start stop : Nat) (text : String) : Prop where
  /-- It is a string literal. -/
  kind : n.kind = .string
  /-- Something stands between its first part and its last, which are the quotes. -/
  between : ∃ opening first middle closing, n.children = opening :: first :: (middle ++ [closing]) ∧
    first.start = start ∧ closing.start = stop
  /-- The bytes there are those of the text. -/
  bytes : Reference.slice content start stop = some (Utf8.encode text)

/-- The source of a node is a string literal with a text between its quotes. -/
def Readable (content : Bytes) (n : Node) : Prop :=
  ∃ s start stop text, n.source? = some s ∧ s.Quotes content start stop text

/-- The record of a reference. -/
structure Records (content : Bytes) (n : Node) (r : Reference) : Prop where
  /-- It says how the node refers to the module. -/
  kind : n.refersBy? = some r.kind
  /-- It says whether the reference is limited to types. -/
  typeOnly : r.typeOnly = n.limitsToTypes
  /-- It has the text of the literal that names the module, and the range of it. -/
  source : ∃ s, n.source? = some s ∧ s.Quotes content r.start r.stop r.request

/-! ### What is read of a literal -/

theorem literalSpan_eq_some {start stop : Nat} : s.literalSpan = some (start, stop) ↔
    s.kind = .string ∧ ∃ opening first middle closing,
      s.children = opening :: first :: (middle ++ [closing]) ∧ first.start = start ∧
        closing.start = stop := by
  obtain ⟨kind, label, sstart, sstop, children⟩ := s
  by_cases hkind : kind = .string
  · subst hkind
    rcases children with - | ⟨opening, - | ⟨first, rest⟩⟩
    · simp [literalSpan, Node.kind, Node.children]
    · simp [literalSpan, Node.kind, Node.children]
    · rcases rest.eq_nil_or_concat' with rfl | ⟨middle, closing, rfl⟩
      · simp [literalSpan, Node.kind, Node.children]
      · have hspan : literalSpan (mk .string label sstart sstop
            (opening :: first :: (middle ++ [closing]))) = some (first.start, closing.start) := by
          rcases middle with - | ⟨second, middle⟩
          · rfl
          · show some (first.start,
                Node.start (((second :: (middle ++ [closing])).getLast?).getD _)) = _
            rw [← List.cons_append, List.getLast?_concat]
            rfl
        rw [hspan]
        constructor
        · rintro ⟨⟩
          exact ⟨rfl, opening, first, middle, closing, rfl, rfl, rfl⟩
        · rintro ⟨-, opening', first', middle', closing', hchildren, rfl, rfl⟩
          obtain ⟨-, hrest⟩ := List.cons.inj hchildren
          obtain ⟨rfl, htail⟩ := List.cons.inj hrest
          rw [List.singleton_inj.1 (List.append_inj' htail rfl).2]
  · have hnone : literalSpan (mk kind label sstart sstop children) = none := by
      rw [literalSpan]
      split
      · exact absurd ‹_› hkind
      · rfl
    rw [hnone]
    exact iff_of_false (by simp) fun h ↦ hkind h.1

theorem literalSpan_eq_none :
    s.literalSpan = none ↔ (s.kind = .string → s.children.length < 3) := by
  rw [Option.eq_none_iff_forall_ne_some, Prod.forall]
  simp only [ne_eq, literalSpan_eq_some, not_and]
  refine ⟨fun h hkind ↦ ?_, fun h start stop hkind ↦ ?_⟩
  · rcases hchildren : s.children with - | ⟨opening, - | ⟨first, rest⟩⟩
    · simp
    · simp
    · rcases rest.eq_nil_or_concat' with rfl | ⟨middle, closing, rfl⟩
      · simp
      · exact absurd ⟨opening, first, middle, closing, hchildren, rfl, rfl⟩ (h _ _ hkind)
  · rintro ⟨opening, first, middle, closing, hchildren, -, -⟩
    have hlength := h hkind
    rw [hchildren, List.length_cons, List.length_cons, List.length_append,
      List.length_singleton] at hlength
    omega

theorem exists_records (h : n.refersBy? ≠ none) :
    (∃ r, n.Records content r) ↔ n.Readable content := by
  obtain ⟨kind, hkind⟩ := Option.ne_none_iff_exists'.1 h
  constructor
  · rintro ⟨r, hr⟩
    obtain ⟨s, hs, hquotes⟩ := hr.source
    exact ⟨s, _, _, _, hs, hquotes⟩
  · rintro ⟨s, start, stop, text, hs, hquotes⟩
    exact ⟨⟨text, kind, n.limitsToTypes, start, stop⟩, hkind, rfl, s, hs, hquotes⟩

end Node

namespace Reference

variable {n s : Node} {content : Bytes} {nodes : List Node} {r : Reference}
  {found : List Reference} {fault : ReferenceFault} {kind : ReferenceKind} {typeOnly : Bool}

/-! ### Answers of the nodes -/

/-- What a node answers when it is asked for its reference; nothing if it is none. -/
def answer? (content : Bytes) (n : Node) : Option (Except ReferenceFault Reference) :=
  n.refersBy?.map fun kind ↦
    match n.source? with
    | some source => ofSource content source kind n.limitsToTypes
    | none => .error .noSource

theorem collect_cons (content : Bytes) (n : Node) (rest : List Node) : collect content (n :: rest) =
    match answer? content n with
    | none => collect content rest
    | some (.ok r) => (collect content rest).map (r :: ·)
    | some (.error fault) => .error fault := by
  rw [collect, Node.referent_eq, answer?]
  rcases n.refersBy? with - | kind
  · rfl
  · rcases n.source? with - | source
    · rfl
    · simp only [Option.map_some, bind, Except.bind]
      rcases ofSource content source kind n.limitsToTypes with fault | r
      · rfl
      · cases collect content rest <;> rfl

theorem ofSource_eq_ok : ofSource content s kind typeOnly = .ok r ↔
    r.kind = kind ∧ r.typeOnly = typeOnly ∧ s.Quotes content r.start r.stop r.request := by
  have hquotes : s.Quotes content r.start r.stop r.request ↔
      s.literalSpan = some (r.start, r.stop) ∧
        slice content r.start r.stop = some (Utf8.encode r.request) := by
    rw [Node.literalSpan_eq_some]
    exact ⟨fun h ↦ ⟨⟨h.kind, h.between⟩, h.bytes⟩, fun h ↦ ⟨h.1.1, h.1.2, h.2⟩⟩
  rw [hquotes, ofSource]
  rcases hspan : s.literalSpan with - | ⟨start, stop⟩
  · simp
  · have hrange :
        some (start, stop) = some (r.start, r.stop) ↔ start = r.start ∧ stop = r.stop := by
      rw [Option.some.injEq, Prod.mk.injEq]
    rw [hrange]
    dsimp only
    rcases hslice : slice content start stop with - | bytes
    · refine iff_of_false (by simp) ?_
      rintro ⟨-, -, ⟨rfl, rfl⟩, hbytes⟩
      rw [hslice] at hbytes
      cases hbytes
    · have hdecoded :
          Utf8.decode bytes = .ok r.request ↔ some bytes = some (Utf8.encode r.request) := by
        rw [Utf8.decode_eq_ok, Option.some.injEq, eq_comm]
      dsimp only
      rcases hdecode : Utf8.decode bytes with cause | request
      · refine iff_of_false (by simp) ?_
        rintro ⟨-, -, ⟨rfl, rfl⟩, hbytes⟩
        rw [hslice, ← hdecoded, hdecode] at hbytes
        cases hbytes
      · rw [hdecode, Except.ok.injEq] at hdecoded
        constructor
        · rintro ⟨⟩
          exact ⟨rfl, rfl, ⟨rfl, rfl⟩, by rw [hslice, ← hdecoded]⟩
        · rintro ⟨rfl, rfl, ⟨rfl, rfl⟩, hbytes⟩
          rw [hslice, ← hdecoded] at hbytes
          rw [hbytes]

theorem answer?_eq_none : answer? content n = none ↔ n.refersBy? = none :=
  Option.map_eq_none_iff

/-- **A node answers with the record of it.** -/
theorem answer?_eq_ok : answer? content n = some (.ok r) ↔ n.Records content r := by
  have hrecords : n.Records content r ↔ n.refersBy? = some r.kind ∧ r.typeOnly = n.limitsToTypes ∧
      ∃ s, n.source? = some s ∧ s.Quotes content r.start r.stop r.request :=
    ⟨fun h ↦ ⟨h.kind, h.typeOnly, h.source⟩, fun h ↦ ⟨h.1, h.2.1, h.2.2⟩⟩
  rw [hrecords, answer?]
  rcases n.refersBy? with - | kind
  · simp
  · rcases n.source? with - | s
    · simp
    · simp only [Option.map_some, Option.some.injEq, ofSource_eq_ok, exists_eq_left']
      rw [eq_comm]

/-! ### The answers of a list of nodes -/

theorem exists_collect : (∃ found, collect content nodes = .ok found) ↔
    ∀ n ∈ nodes, n.refersBy? ≠ none → ∃ r, n.Records content r := by
  induction nodes with
  | nil => simp [collect]
  | cons n rest ih =>
    rw [collect_cons, List.forall_mem_cons, ← ih]
    rcases hanswer : answer? content n with - | fault | r
    · simp [answer?_eq_none.1 hanswer]
    · refine iff_of_false (by simp) ?_
      rintro ⟨hn, -⟩
      have hne : answer? content n ≠ none := by simp [hanswer]
      obtain ⟨r, hr⟩ := hn (answer?_eq_none.not.1 hne)
      rw [← answer?_eq_ok, hanswer] at hr
      cases hr
    · have hr := answer?_eq_ok.1 hanswer
      have hn : n.refersBy? ≠ none → ∃ r, n.Records content r := fun _ ↦ ⟨r, hr⟩
      rw [and_iff_right hn]
      cases collect content rest <;> simp [Except.map]

theorem forall₂_records (h : collect content nodes = .ok found) :
    List.Forall₂ (Node.Records content) (nodes.filter (·.refersBy?.isSome)) found := by
  induction nodes generalizing found with
  | nil =>
    obtain rfl : [] = found := by simpa [collect] using h
    exact .nil
  | cons n rest ih =>
    rw [collect_cons] at h
    rcases hanswer : answer? content n with - | fault | r
    · rw [hanswer] at h
      rw [List.filter_cons_of_neg (by simp [answer?_eq_none.1 hanswer])]
      exact ih h
    · rw [hanswer] at h
      cases h
    · rw [hanswer] at h
      have hr := answer?_eq_ok.1 hanswer
      rcases hrest : collect content rest with fault | found'
      · simp [hrest, Except.map] at h
      · obtain rfl : r :: found' = found := by simpa [hrest, Except.map] using h
        rw [List.filter_cons_of_pos (by simp [hr.kind])]
        exact .cons hr (ih hrest)

theorem exists_first_fault (h : collect content nodes = .error fault) :
    ∃ before n after, nodes = before ++ n :: after ∧
      (∀ m ∈ before, m.refersBy? ≠ none → ∃ r, m.Records content r) ∧
      answer? content n = some (.error fault) := by
  induction nodes with
  | nil => cases h
  | cons n rest ih =>
    rw [collect_cons] at h
    rcases hanswer : answer? content n with - | fault' | r
    · rw [hanswer] at h
      obtain ⟨before, m, after, rfl, hbefore, hm⟩ := ih h
      refine ⟨n :: before, m, after, rfl, List.forall_mem_cons.2 ⟨fun hrefers ↦ ?_, hbefore⟩, hm⟩
      exact absurd (answer?_eq_none.1 hanswer) hrefers
    · rw [hanswer] at h
      obtain rfl := Except.error.inj h
      exact ⟨[], n, rest, rfl, fun _ hm ↦ absurd hm List.not_mem_nil, hanswer⟩
    · rw [hanswer] at h
      have hrest : collect content rest = .error fault := by
        cases hrest : collect content rest <;> simp_all [Except.map]
      obtain ⟨before, m, after, rfl, hbefore, hm⟩ := ih hrest
      exact ⟨n :: before, m, after, rfl,
        List.forall_mem_cons.2 ⟨fun _ ↦ ⟨r, answer?_eq_ok.1 hanswer⟩, hbefore⟩, hm⟩

/-- The path of a file is in the errors of its references only. -/
theorem references_eq_ok {path : Path} {tree : Node} :
    references path content tree = .ok found ↔ collect content tree.preorder = .ok found := by
  rw [references, Cursor.visits_ofRoot]
  cases collect content tree.preorder <;> simp [Except.mapError]

theorem references_eq_error {path : Path} {tree : Node} {e : Error} :
    references path content tree = .error e ↔
      ∃ fault, collect content tree.preorder = .error fault ∧ e = .parse path fault := by
  rw [references, Cursor.visits_ofRoot]
  cases collect content tree.preorder <;> simp [Except.mapError, eq_comm]

end Reference

end ModuleBundler
