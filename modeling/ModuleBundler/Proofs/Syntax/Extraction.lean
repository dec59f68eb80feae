import Mathlib.Data.List.Pairwise
import ModuleBundler.Proofs.Failing
import ModuleBundler.Proofs.Syntax.Answers
import ModuleBundler.Syntax.Program

/-!
# What is extracted from a tree

A tree over a content has ranges that are nested, ordered and inside the content, and no string
literal of it has parts with parts (`Node.Over`). The main result is about all such trees:

* `Node.Over.extracts`: extraction succeeds exactly if every reference has a readable literal, and
  gives one record for each reference in the order of the tree, with the text of the literal and the
  range of it. Otherwise it reports the first reference that cannot be read, and why.

That no two records share a byte takes one more fact about the grammar. A reference may stand inside
another one, but not in the literal that names its module, and so the literals are apart; unless a
call is called with a reference in the place of a list of arguments, and both are read for the same
literal (`Node.Over.not_apart_of_shared`). `Node.OwnSources` says that there is no such call, and
this is all that it takes.
-/

namespace ModuleBundler

/-- Two records have no byte in common. -/
def Reference.Apart (r r' : Reference) : Prop :=
  r.stop ≤ r'.start ∨ r'.stop ≤ r.start

/-! ### Trees over a content -/

namespace Node

variable {n m c q s tree : Node} {content : Bytes} {r r' : Reference} {fault : ReferenceFault}

/-- What holds of a tree that was read from a content. -/
structure Over (content : Bytes) (tree : Node) : Prop where
  /-- The tree is inside the content. -/
  inside : tree.stop ≤ content.length
  /-- No node stops before it starts. -/
  ranged : ∀ n ∈ tree.preorder, n.start ≤ n.stop
  /-- The parts of a node are inside it. -/
  nested : ∀ n ∈ tree.preorder, ∀ c ∈ n.children, n.start ≤ c.start ∧ c.stop ≤ n.stop
  /-- The parts of a node stand one behind the other. -/
  ordered : ∀ n ∈ tree.preorder, n.children.Pairwise fun a b ↦ a.stop ≤ b.start
  /-- The parts of a string literal have no parts. -/
  flat : ∀ n ∈ tree.preorder, n.kind = .string → ∀ c ∈ n.children, c.children = []

/-- No call is read for the same literal as what it is called with, where that is a reference too.
-/
def OwnSources (tree : Node) : Prop :=
  ∀ n ∈ tree.preorder, n.refersBy? = some .dynamic → ∀ q ∈ n.part .arguments,
    q.refersBy? ≠ none → q.source? ≠ n.source?

instance (tree : Node) : Decidable tree.OwnSources :=
  inferInstanceAs (Decidable (∀ n ∈ tree.preorder, n.refersBy? = some .dynamic →
    ∀ q ∈ n.part .arguments, q.refersBy? ≠ none → q.source? ≠ n.source?))

/-- Why a reference cannot be read. -/
inductive Offends (content : Bytes) (n : Node) : ReferenceFault → Prop
  /-- It names no source. -/
  | noSource : n.refersBy? ≠ none → n.source? = none → Offends content n .noSource
  /-- Its source is no string literal, or one with nothing between its quotes. -/
  | notLiteral {s : Node} : n.refersBy? ≠ none → n.source? = some s →
      (s.kind = .string → s.children.length < 3) → Offends content n (.notLiteral s.start)
  /-- What stands between the quotes is no text. -/
  | notUtf8 {s opening first closing : Node} {middle : List Node} {bytes : Bytes}
      {cause : Utf8.Fault} : n.refersBy? ≠ none → n.source? = some s → s.kind = .string →
      s.children = opening :: first :: (middle ++ [closing]) →
      Reference.slice content first.start closing.start = some bytes →
      Utf8.decode bytes = .error cause → Offends content n (.notUtf8 cause)

namespace Over

theorem child (h : n.Over content) (hc : c ∈ n.children) : c.Over content where
  inside := (h.nested n (mem_preorder_self n) c hc).2.trans h.inside
  ranged m hm := h.ranged m (mem_preorder_of_child hc hm)
  nested m hm := h.nested m (mem_preorder_of_child hc hm)
  ordered m hm := h.ordered m (mem_preorder_of_child hc hm)
  flat m hm := h.flat m (mem_preorder_of_child hc hm)

theorem child_range (h : n.Over content) (hc : c ∈ n.children) :
    n.start ≤ c.start ∧ c.stop ≤ n.stop :=
  h.nested n (mem_preorder_self n) c hc

/-- All nodes of a tree are trees over the content, inside the range of it. -/
theorem of_mem (h : n.Over content) (hm : m ∈ n.preorder) :
    m.Over content ∧ n.start ≤ m.start ∧ m.stop ≤ n.stop := by
  induction n using Node.induction with
  | h kind label start stop children ih =>
    rcases mem_preorder.1 hm with rfl | ⟨c, hc, hm⟩
    · exact ⟨h, le_rfl, le_rfl⟩
    · obtain ⟨hover, hstart, hstop⟩ := ih c hc (h.child hc) hm
      have hrange := h.child_range hc
      exact ⟨hover, hrange.1.trans hstart, hstop.trans hrange.2⟩

end Over

/-! ### Where the literal of a reference stands -/

theorem source?_cases (h : n.source? = some s) : s ∈ n.children ∨
    ∃ q ∈ n.children, s ∈ q.children ∧
      (q.refersBy? = none ∨ n.kind = .call ∧ n.part .arguments = some q) := by
  have hpart (hs : n.part .source = some s) : s ∈ n.children := mem_children_of_part hs
  rcases hkind : n.kind <;> simp only [source?, hkind] at h
  case importStatement =>
    rw [importSource] at h
    rcases hsource : n.part .source with - | source
    · rw [hsource] at h
      obtain ⟨q, hq, hs⟩ := Option.bind_eq_some_iff.1 h
      have hclause : q.kind = .requireClause := by simpa using List.find?_some hq
      refine Or.inr ⟨q, (List.mem_filter.1 (List.mem_of_find?_eq_some hq)).1,
        mem_children_of_part hs, Or.inl ?_⟩
      rw [refersBy?, hclause]
    · rw [hsource] at h
      exact Or.inl (hpart (hsource.trans h))
  case call =>
    obtain ⟨q, hq, hs⟩ := Option.bind_eq_some_iff.1 h
    exact Or.inr ⟨q, mem_children_of_part hq, mem_children_of_head? hs, Or.inr ⟨rfl, hq⟩⟩
  all_goals exact Or.inl (hpart h)

theorem mem_preorder_of_source? (h : n.source? = some s) : s ∈ n.preorder := by
  rcases source?_cases h with hs | ⟨q, hq, hs, -⟩
  · exact mem_preorder_of_child hs (mem_preorder_self s)
  · exact mem_preorder_of_child hq (mem_preorder_of_child hs (mem_preorder_self s))

namespace Over

/-- What stands between the quotes of a literal is inside it. -/
theorem literal_range (h : s.Over content) {start stop : Nat}
    (hspan : s.literalSpan = some (start, stop)) :
    s.start ≤ start ∧ start ≤ stop ∧ stop ≤ s.stop := by
  obtain ⟨-, opening, first, middle, closing, hchildren, rfl, rfl⟩ := literalSpan_eq_some.1 hspan
  have hself := mem_preorder_self s
  have hfirst : first ∈ s.children := by simp [hchildren]
  have hclosing : closing ∈ s.children := by simp [hchildren]
  have hordered : first.stop ≤ closing.start := by
    have hpairwise := h.ordered s hself
    rw [hchildren, List.pairwise_cons, List.pairwise_cons] at hpairwise
    exact hpairwise.2.1 closing (by simp)
  have hforward := (h.child hfirst).ranged first (mem_preorder_self first)
  have hforward' := (h.child hclosing).ranged closing (mem_preorder_self closing)
  have hrange := h.child_range hfirst
  have hrange' := h.child_range hclosing
  omega

theorem records_range (h : n.Over content) (hr : n.Records content r) :
    ∃ s ∈ n.preorder, n.source? = some s ∧ s.kind = .string ∧
      s.start ≤ r.start ∧ r.start ≤ r.stop ∧ r.stop ≤ s.stop := by
  obtain ⟨s, hs, hquotes⟩ := hr.source
  have hmem := mem_preorder_of_source? hs
  exact ⟨s, hmem, hs, hquotes.kind,
    (h.of_mem hmem).1.literal_range (literalSpan_eq_some.2 ⟨hquotes.kind, hquotes.between⟩)⟩

/-- The record of a reference is inside every node that the reference is below. -/
theorem record_inside (h : n.Over content) (hm : m ∈ n.preorder) (hr : m.Records content r) :
    n.start ≤ r.start ∧ r.stop ≤ n.stop := by
  obtain ⟨hover, hstart, hstop⟩ := h.of_mem hm
  obtain ⟨s, hs, -, -, hrange⟩ := hover.records_range hr
  have hinside := (hover.of_mem hs).2
  omega

/-- A fault that a node answers with is said of it. That the literal is outside the content is never
the answer. -/
theorem offends (h : n.Over content)
    (hanswer : Reference.answer? content n = some (.error fault)) : n.Offends content fault := by
  obtain ⟨kind, hkind, hfault⟩ := Option.map_eq_some_iff.1 hanswer
  have hrefers : n.refersBy? ≠ none := Option.ne_none_iff_exists'.2 ⟨kind, hkind⟩
  rcases hsource : n.source? with - | s
  · rw [hsource] at hfault
    obtain rfl := Except.error.inj hfault
    exact .noSource hrefers hsource
  · rw [hsource] at hfault
    dsimp only at hfault
    rw [Reference.ofSource] at hfault
    rcases hspan : s.literalSpan with - | ⟨start, stop⟩
    · rw [hspan] at hfault
      obtain rfl := Except.error.inj hfault
      exact .notLiteral hrefers hsource (literalSpan_eq_none.1 hspan)
    · obtain ⟨hover, -⟩ := h.of_mem (mem_preorder_of_source? hsource)
      have hrange := hover.literal_range hspan
      have hinside := hover.inside
      have hslice : Reference.slice content start stop = some _ := if_pos ⟨hrange.2.1, by omega⟩
      rw [hspan] at hfault
      dsimp only at hfault
      rw [hslice] at hfault
      dsimp only at hfault
      rcases hdecode : Utf8.decode ((content.drop start).take (stop - start)) with cause | request
      · rw [hdecode] at hfault
        obtain rfl := Except.error.inj hfault
        obtain ⟨hstring, opening, first, middle, closing, hchildren, rfl, rfl⟩ :=
          literalSpan_eq_some.1 hspan
        exact .notUtf8 hrefers hsource hstring hchildren hslice hdecode
      · rw [hdecode] at hfault
        cases hfault

/-! ### Records are apart -/

/-- There is no reference in a string literal. -/
theorem not_records_of_string (h : s.Over content) (hkind : s.kind = .string)
    (hm : m ∈ s.preorder) : ¬ m.Records content r := by
  intro hr
  rcases mem_preorder.1 hm with rfl | ⟨c, hc, hm⟩
  · have hnone : m.refersBy? = none := by rw [refersBy?, hkind]
    cases hnone.symm.trans hr.kind
  · have hleaf := h.flat s (mem_preorder_self s) hkind c hc
    rw [preorder_eq, hleaf, List.flatMap_nil, List.mem_singleton] at hm
    obtain rfl := hm
    obtain ⟨source, hsource, -⟩ := hr.source
    have hparts := source?_cases hsource
    simp [hleaf] at hparts

/-- Different parts of a node are apart. -/
theorem children_apart (h : n.Over content) (hc : c ∈ n.children) (hq : q ∈ n.children)
    (hne : c ≠ q) : c.stop ≤ q.start ∨ q.stop ≤ c.start := by
  have hpairwise : n.children.Pairwise fun a b ↦ a.stop ≤ b.start ∨ b.stop ≤ a.start :=
    (h.ordered n (mem_preorder_self n)).imp Or.inl
  have : Std.Symm fun a b : Node ↦ a.stop ≤ b.start ∨ b.stop ≤ a.start := ⟨fun _ _ ↦ Or.symm⟩
  exact hpairwise.forall hc hq hne

/-- A range in a literal is apart from all records from the same node. -/
theorem apart_of_literal (h : n.Over content) (hs : s ∈ n.children) (hkind : s.kind = .string)
    (hstart : s.start ≤ r.start) (hstop : r.stop ≤ s.stop) (hc : c ∈ n.children)
    (hm : m ∈ c.preorder) (hr' : m.Records content r') : r.Apart r' := by
  by_cases hne : c = s
  · subst hne
    exact absurd hr' ((h.child hc).not_records_of_string hkind hm)
  · have hapart := h.children_apart hc hs hne
    have hinside := (h.child hc).record_inside hm hr'
    rw [Reference.Apart]
    omega

/-- A range in a literal is apart from the record of the node that the literal is a part of, if this
is read for another one. -/
theorem apart_of_source?_ne (h : n.Over content) (hs : s ∈ n.children) (hkind : s.kind = .string)
    (hstart : s.start ≤ r.start) (hstop : r.stop ≤ s.stop) (hr' : n.Records content r')
    (hne : n.source? ≠ some s) : r.Apart r' := by
  obtain ⟨s', hsource, hquotes⟩ := hr'.source
  obtain ⟨_, -, hsource', -, hrange⟩ := h.records_range hr'
  obtain rfl := Option.some.inj (hsource.symm.trans hsource')
  rw [Reference.Apart]
  rcases source?_cases hsource with hs' | ⟨q, hq, hs', -⟩
  · have hapart := h.children_apart hs' hs fun heq ↦ hne (heq ▸ hsource)
    omega
  · have hqs : q ≠ s := by
      rintro rfl
      obtain ⟨opening, first, middle, closing, hchildren, -, -⟩ := hquotes.between
      rw [(h.child hq).flat q (mem_preorder_self q) hkind _ hs'] at hchildren
      cases hchildren
    have hapart := h.children_apart hq hs hqs
    have hinside := (h.child hq).child_range hs'
    omega

/-- **The record of a node is apart from those of the nodes below it.** -/
theorem apart_of_below (h : n.Over content)
    (hown : n.refersBy? = some .dynamic → ∀ q ∈ n.part .arguments, q.refersBy? ≠ none →
      q.source? ≠ n.source?)
    (hr : n.Records content r) (hc : c ∈ n.children) (hm : m ∈ c.preorder)
    (hr' : m.Records content r') : r.Apart r' := by
  obtain ⟨s, -, hsource, hkind, hstart, -, hstop⟩ := h.records_range hr
  rcases source?_cases hsource with hs | ⟨q, hq, hs, hquiet⟩
  · exact h.apart_of_literal hs hkind hstart hstop hc hm hr'
  · by_cases hne : c = q
    · subst hne
      rcases mem_preorder.1 hm with rfl | ⟨d, hd, hm⟩
      · have hrefers : m.refersBy? ≠ none := by simp [hr'.kind]
        obtain ⟨hcall, harguments⟩ := hquiet.resolve_left hrefers
        have hdynamic := refersBy?_of_call hcall (by simp [hr.kind])
        exact (h.child hc).apart_of_source?_ne hs hkind hstart hstop hr'
          (hsource ▸ hown hdynamic m harguments hrefers)
      · exact (h.child hc).apart_of_literal hs hkind hstart hstop hd hm hr'
    · have hapart := h.children_apart hc hq hne
      have hinside := (h.child hc).record_inside hm hr'
      have hrange := (h.child hq).child_range hs
      rw [Reference.Apart]
      omega

theorem pairwise_apart (h : tree.Over content) (hown : tree.OwnSources) :
    tree.preorder.Pairwise fun m n ↦
      ∀ r r', m.Records content r → n.Records content r' → r.Apart r' := by
  induction tree using Node.induction with
  | h kind label start stop children ih =>
    rw [preorder_eq, List.pairwise_cons, List.pairwise_flatMap]
    refine ⟨fun m hm r r' hr hr' ↦ ?_, fun c hc ↦ ?_, ?_⟩
    · obtain ⟨c, hc, hm⟩ := List.mem_flatMap.1 hm
      exact h.apart_of_below (hown _ (mem_preorder_self _)) hr hc hm hr'
    · exact ih c hc (h.child hc) fun n hn ↦ hown n (mem_preorder_of_child hc hn)
    · refine (h.ordered _ (mem_preorder_self _)).imp_of_mem
        fun hc hd hordered m hm n hn r r' hr hr' ↦ ?_
      have hinside := (h.child hc).record_inside hm hr
      have hinside' := (h.child hd).record_inside hn hr'
      exact Or.inl (by omega)

end Over

end Node

section

variable {α β : Type} {R : α → β → Prop} {S : α → α → Prop} {T : β → β → Prop} {as : List α}
  {bs : List β}

/-- What holds between the items of a list holds between those that go with them. -/
theorem pairwise_of_forall₂ (h : List.Forall₂ R as bs) (has : as.Pairwise S)
    (hT : ∀ {a a' b b'}, R a b → R a' b' → S a a' → T b b') : bs.Pairwise T := by
  induction h with
  | nil => exact .nil
  | cons hab hrest ih =>
    obtain ⟨ha, has⟩ := List.pairwise_cons.1 has
    refine List.pairwise_cons.2 ⟨fun b' hb' ↦ ?_, ih has⟩
    obtain ⟨a', ha', hab'⟩ := exists_of_forall₂ hrest hb'
    exact hT hab hab' (ha a' ha')

end

namespace Node

variable {tree : Node} {content : Bytes}

/-- **Extraction is complete, in order, and to the letter.** Of a tree over a content, extraction
succeeds exactly if each of its references has a literal with a text between its quotes. Then there
is one record for each reference, in the order of the tree, with the text and the range of the
literal; and no two records have a byte in common, unless a call shares its literal with what it is
called with. Otherwise the first reference that cannot be read is reported with the reason. -/
theorem Over.extracts (h : tree.Over content) (path : Path) :
    ((∃ found, Reference.references path content tree = .ok found) ↔
      ∀ n ∈ tree.preorder, n.refersBy? ≠ none → n.Readable content) ∧
    (∀ found, Reference.references path content tree = .ok found →
      List.Forall₂ (Records content) (tree.preorder.filter (·.refersBy?.isSome)) found ∧
        (tree.OwnSources → found.Pairwise Reference.Apart)) ∧
    ∀ e, Reference.references path content tree = .error e →
      ∃ before n after fault, tree.preorder = before ++ n :: after ∧
        (∀ m ∈ before, m.refersBy? ≠ none → m.Readable content) ∧
        n.Offends content fault ∧ e = .parse path fault := by
  have hreadable (nodes : List Node) :
      (∀ n ∈ nodes, n.refersBy? ≠ none → ∃ r, n.Records content r) ↔
        ∀ n ∈ nodes, n.refersBy? ≠ none → n.Readable content :=
    forall₂_congr fun n _ ↦ forall_congr' exists_records
  refine ⟨?_, fun found hfound ↦ ?_, fun e he ↦ ?_⟩
  · simp only [Reference.references_eq_ok, Reference.exists_collect, hreadable]
  · have hrecords := Reference.forall₂_records (Reference.references_eq_ok.1 hfound)
    refine ⟨hrecords, fun hown ↦ ?_⟩
    have hapart := (h.pairwise_apart hown).filter (·.refersBy?.isSome)
    exact pairwise_of_forall₂ hrecords hapart fun hr hr' hmn ↦ hmn _ _ hr hr'
  · obtain ⟨fault, hfault, rfl⟩ := Reference.references_eq_error.1 he
    obtain ⟨before, n, after, hsplit, hbefore, hn⟩ := Reference.exists_first_fault hfault
    have hmem : n ∈ tree.preorder := by simp [hsplit]
    exact ⟨before, n, after, fault, hsplit, (hreadable before).1 hbefore,
      (h.of_mem hmem).1.offends hn, rfl⟩

/-- A call with a call inside its arguments, and a statement behind it. -/
def nestedCalls : Bytes :=
  Utf8.encode "import('./a', () => import('./b')); export * from './c';"

/-- Three literals, of which the second stands inside the call that the first belongs to. -/
theorem Over.extracts_nestedCalls :
    (Program.parse .plain nestedCalls).Over nestedCalls ∧
      (Program.parse .plain nestedCalls).OwnSources ∧
      ∃ found, Reference.references Path.root nestedCalls (Program.parse .plain nestedCalls) =
          .ok found ∧
        found.map (·.request) = ["./a", "./b", "./c"] ∧ found.Pairwise Reference.Apart := by
  have hover : (Program.parse .plain nestedCalls).Over nestedCalls := {
    inside := by decide +kernel
    ranged := by decide +kernel
    nested := by decide +kernel
    ordered := by decide +kernel
    flat := by decide +kernel }
  have hown : (Program.parse .plain nestedCalls).OwnSources := by decide +kernel
  have hrequests : (Reference.references Path.root nestedCalls
      (Program.parse .plain nestedCalls)).map (·.map (·.request)) = .ok ["./a", "./b", "./c"] := by
    decide +kernel
  rcases hfound : Reference.references Path.root nestedCalls (Program.parse .plain nestedCalls)
    with e | found
  · rw [hfound] at hrequests
    cases hrequests
  · rw [hfound] at hrequests
    obtain ⟨-, hok, -⟩ := hover.extracts Path.root
    exact ⟨hover, hown, found, rfl, Except.ok.inj hrequests, (hok found hfound).2 hown⟩

/-- A call that is called with a statement. Both are read for the literal between the parentheses.
-/
def shared : Node :=
  .mk .call none 0 13 [
    .mk (.keyword "import") (some .function) 0 6 [],
    .mk .importStatement (some .arguments) 6 13 [
      leaf (.mark "(") 6 7,
      .mk .string (some .source) 7 12 [
        leaf (.mark "'") 7 8, leaf .content 8 11, leaf (.mark "'") 11 12],
      leaf (.mark ")") 12 13]]

/-- Two references have one range, where a call shares its literal with what it is called with. -/
theorem Over.not_apart_of_shared :
    shared.Over (Utf8.encode "import('./x')") ∧ ¬ shared.OwnSources ∧
      Reference.references Path.root (Utf8.encode "import('./x')") shared =
        .ok [⟨"./x", .dynamic, false, 8, 11⟩, ⟨"./x", .static, false, 8, 11⟩] ∧
      ¬ Reference.Apart ⟨"./x", .dynamic, false, 8, 11⟩ ⟨"./x", .static, false, 8, 11⟩ := by
  have hover : shared.Over (Utf8.encode "import('./x')") := {
    inside := by decide +kernel
    ranged := by decide +kernel
    nested := by decide +kernel
    ordered := by decide +kernel
    flat := by decide +kernel }
  exact ⟨hover, by decide +kernel, by decide +kernel, by simp [Reference.Apart]⟩

end Node

end ModuleBundler
