import ModuleBundler.Proofs.Syntax.Comments
import ModuleBundler.Proofs.Syntax.Extraction

/-!
# A comment more in a tree

A comment that is written between two tokens of a file becomes one more part of some node around it,
and what stands behind it moves on by its length (`Node.Commented`). That is what a grammar promises
of comments, and no more of the engine is used here: which of the nodes around it gets the comment
is left open.

The nodes of the tree then say what they said before (`Node.Commented.remarks`). For this no literal
may get the comment, and it does not where the offset is between tokens (`Node.BetweenTokens`).
-/

namespace ModuleBundler

/-! ### Contents -/

/-- The one content is the other with `k` more bytes at the offset `p`. -/
structure Inserted (p k : Nat) (content content' : Bytes) : Prop where
  inside : p ≤ content.length
  length : content'.length = content.length + k
  front : content'.take p = content.take p
  behind : content'.drop (p + k) = content.drop p

namespace Inserted

variable {p k start stop : Nat} {content content' : Bytes}

theorem slice_of_le (h : Inserted p k content content') (hstop : stop ≤ p) :
    Reference.slice content' start stop = Reference.slice content start stop := by
  have htake (bytes : Bytes) : (bytes.drop start).take (stop - start) =
      ((bytes.take p).take stop).drop start := by
    rw [List.take_take, Nat.min_eq_left hstop, List.drop_take]
  have hinside := h.inside
  have hlength := h.length
  rw [Reference.slice, Reference.slice, htake, htake, h.front]
  exact if_congr (by omega) rfl rfl

theorem slice_add (h : Inserted p k content content') (hstart : p ≤ start) :
    Reference.slice content' (start + k) (stop + k) = Reference.slice content start stop := by
  have hdrop : content'.drop (start + k) = content.drop start := by
    have hcontent : content.drop start = (content.drop p).drop (start - p) := by
      rw [List.drop_drop, Nat.add_sub_cancel' hstart]
    rw [hcontent, ← h.behind, List.drop_drop]
    congr 1
    omega
  have hlength := h.length
  rw [Reference.slice, Reference.slice, hdrop, Nat.add_sub_add_right]
  exact if_congr (by omega) rfl rfl

end Inserted

namespace Node

variable {p k : Nat} {c n n' m tree tree' : Node} {nodes : List Node} {content content' : Bytes}
  {l : Label}

/-! ### Nodes further on -/

mutual

/-- The node and all below it, `k` bytes further on. -/
def moved (k : Nat) : Node → Node
  | mk kind label start stop children => mk kind label (start + k) (stop + k) (movedAll k children)

/-- Nodes and all below them, `k` bytes further on. -/
def movedAll (k : Nat) : List Node → List Node
  | [] => []
  | n :: rest => moved k n :: movedAll k rest

end

theorem movedAll_eq (k : Nat) (nodes : List Node) : movedAll k nodes = nodes.map (moved k) := by
  induction nodes with
  | nil => rfl
  | cons n rest ih => rw [movedAll, ih, List.map_cons]

@[simp] theorem kind_moved (k : Nat) (n : Node) : (n.moved k).kind = n.kind := by
  cases n
  rfl

@[simp] theorem label_moved (k : Nat) (n : Node) : (n.moved k).label = n.label := by
  cases n
  rfl

@[simp] theorem start_moved (k : Nat) (n : Node) : (n.moved k).start = n.start + k := by
  cases n
  rfl

@[simp] theorem children_moved (k : Nat) (n : Node) :
    (n.moved k).children = n.children.map (moved k) := by
  cases n
  exact movedAll_eq k _

@[simp] theorem isMeaningful_moved (k : Nat) (n : Node) :
    (n.moved k).isMeaningful = n.isMeaningful := by
  simp [isMeaningful]

@[simp] theorem part_moved (k : Nat) (n : Node) (l : Label) :
    (n.moved k).part l = (n.part l).map (moved k) := by
  simp [part, List.find?_map]

theorem meaningful_moved (k : Nat) (n : Node) :
    (n.moved k).meaningful = n.meaningful.map (moved k) := by
  have hpreorder : (n.moved k).preorder = n.preorder.map (moved k) := by
    induction n using Node.induction with
    | h kind label start stop children ih =>
      rw [preorder_eq, preorder_eq, children_moved, List.map_cons, List.flatMap_map,
        List.map_flatMap]
      congr 1
      exact List.flatMap_congr ih
  rw [meaningful, meaningful, hpreorder, List.filter_map]
  congr 1
  exact List.filter_congr fun m _ ↦ isMeaningful_moved k m

theorem opensWithComment_moved (k : Nat) (n : Node) :
    (n.moved k).opensWithComment = n.opensWithComment := by
  simp [opensWithComment, namedChildren, List.head?_filter, List.find?_map, Option.any_map]

theorem literalSpan_moved (k : Nat) (n : Node) :
    (n.moved k).literalSpan = n.literalSpan.map fun (start, stop) ↦ (start + k, stop + k) := by
  rw [literalSpan, literalSpan, kind_moved, children_moved]
  by_cases hkind : n.kind = .string
  · rw [hkind]
    rcases n.children with - | ⟨opening, - | ⟨first, - | ⟨second, rest⟩⟩⟩
    · rfl
    · rfl
    · rfl
    · simp [List.getLast?_cons]
  · split <;> split <;> simp_all

/-! ### What is said in front of the comment and behind it -/

/-- What is known of some parts of a tree over a content is known of trees over it. -/
theorem Over.parts {P : Node → Prop} (h : n.Over content) (hsub : nodes ⊆ n.children)
    (hP : ∀ c ∈ nodes, P c) : ∀ c ∈ nodes, c.Over content ∧ P c :=
  fun c hc ↦ ⟨h.child (hsub hc), hP c hc⟩

theorem text?_of_stop_le (hcontent : Inserted p k content content') (h : n.Over content)
    (hstop : n.stop ≤ p) : n.text? content' = n.text? content := by
  rw [text?, text?]
  rcases hspan : n.literalSpan with - | ⟨start, stop⟩
  · rfl
  · have hrange := h.literal_range hspan
    simp only [Option.bind_some, hcontent.slice_of_le (hrange.2.2.trans hstop)]

theorem text?_moved (hcontent : Inserted p k content content') (h : n.Over content)
    (hstart : p ≤ n.start) : (n.moved k).text? content' = n.text? content := by
  rw [text?, text?, literalSpan_moved]
  rcases hspan : n.literalSpan with - | ⟨start, stop⟩
  · rfl
  · have hrange := h.literal_range hspan
    simp only [Option.map_some, Option.bind_some, hcontent.slice_add (hstart.trans hrange.1)]

theorem gists_congr {f : Node → Node} (hmeaningful : ∀ c, (f c).isMeaningful = c.isMeaningful)
    (hgist : ∀ c ∈ nodes, (f c).gist content' = c.gist content) :
    gists content' (nodes.map f) = gists content nodes := by
  rw [gists_eq, gists_eq, List.filter_map, List.map_map]
  have hfilter : nodes.filter (isMeaningful ∘ f) = nodes.filter isMeaningful :=
    List.filter_congr fun c _ ↦ hmeaningful c
  rw [hfilter]
  exact List.map_congr_left fun c hc ↦ hgist c (List.mem_filter.1 hc).1

/-- What stands in front of the comment says the same. -/
theorem gist_of_stop_le (hcontent : Inserted p k content content') (h : n.Over content)
    (hstop : n.stop ≤ p) : n.gist content' = n.gist content := by
  induction n using Node.induction with
  | h kind label start stop children ih =>
    have hparts : gists content' (children.map id) = gists content children :=
      gists_congr (fun _ ↦ rfl) fun c hc ↦ ih c hc (h.child hc) ((h.child_range hc).2.trans hstop)
    rw [List.map_id] at hparts
    rw [gist_eq, gist_eq, text?_of_stop_le hcontent h hstop]
    exact congrArg _ hparts

/-- What stands behind the comment says the same. -/
theorem gist_moved (hcontent : Inserted p k content content') (h : n.Over content)
    (hstart : p ≤ n.start) : (n.moved k).gist content' = n.gist content := by
  induction n using Node.induction with
  | h kind label start stop children ih =>
    have hparts : gists content' (children.map (moved k)) = gists content children :=
      gists_congr (isMeaningful_moved k)
        fun c hc ↦ ih c hc (h.child hc) (hstart.trans (h.child_range hc).1)
    rw [gist_eq, gist_eq, text?_moved hcontent h hstart, kind_moved, label_moved, children_moved]
    exact congrArg _ hparts

theorem gists_of_stop_le (hcontent : Inserted p k content content')
    (h : ∀ b ∈ nodes, b.Over content ∧ b.stop ≤ p) :
    gists content' nodes = gists content nodes := by
  have hgists : gists content' (nodes.map id) = gists content nodes :=
    gists_congr (fun _ ↦ rfl) fun b hb ↦ gist_of_stop_le hcontent (h b hb).1 (h b hb).2
  rwa [List.map_id] at hgists

theorem gists_moved (hcontent : Inserted p k content content')
    (h : ∀ a ∈ nodes, a.Over content ∧ p ≤ a.start) :
    gists content' (nodes.map (moved k)) = gists content nodes :=
  gists_congr (isMeaningful_moved k) fun a ha ↦ gist_moved hcontent (h a ha).1 (h a ha).2

/-! ### Nodes with one comment more -/

/-- The one tree is the other with the comment `c` at the offset `p`, and `k` bytes more there. The
comment is a part of some node around the offset, and not the first; what stands behind it has moved
on. -/
inductive Commented (p k : Nat) (c : Node) : Node → Node → Prop
  /-- The comment is a part of the node itself. -/
  | here {kind : NodeKind} {label : Option Label} {start stop : Nat} (before after : List Node) :
      start < p → p < stop → before ≠ [] → (∀ b ∈ before, b.stop ≤ p) →
      (∀ a ∈ after, p ≤ a.start) →
      Commented p k c (mk kind label start stop (before ++ after))
        (mk kind label start (stop + k) (before ++ c :: after.map (moved k)))
  /-- The comment is in one of the parts of the node. -/
  | deeper {kind : NodeKind} {label : Option Label} {start stop : Nat} {d d' : Node}
      (before after : List Node) :
      start < p → p < stop → (∀ b ∈ before, b.stop ≤ p) → (∀ a ∈ after, p ≤ a.start) →
      Commented p k c d d' →
      Commented p k c (mk kind label start stop (before ++ d :: after))
        (mk kind label start (stop + k) (before ++ d' :: after.map (moved k)))

namespace Commented

theorem kind_eq (h : Commented p k c n n') : n'.kind = n.kind := by
  cases h <;> rfl

theorem label_eq (h : Commented p k c n n') : n'.label = n.label := by
  cases h <;> rfl

theorem isMeaningful (h : Commented p k c n n') : n.isMeaningful ∧ n'.isMeaningful := by
  cases h <;> simp [Node.isMeaningful, Node.children, *]

theorem around (h : Commented p k c n n') : n.start < p ∧ p < n.stop := by
  cases h <;> exact ⟨‹_›, ‹_›⟩

/-- A comment at the second place of a node stays there, or gives way to the new one. -/
theorem second (h : Commented p k c n n') (hc : ¬ c.isMeaningful)
    (hsecond : n.children[1]?.any (!·.isMeaningful)) : n'.children[1]?.any (!·.isMeaningful) := by
  cases h with
  | here before after _ _ hbefore =>
    rcases before with - | ⟨first, - | ⟨second, rest⟩⟩
    · exact absurd rfl hbefore
    · simpa [Node.children] using hc
    · simpa [Node.children] using hsecond
  | deeper before after _ _ _ _ hd =>
    rcases before with - | ⟨first, - | ⟨second, rest⟩⟩
    · simpa [Node.children, Option.any_map] using hsecond
    · simp [Node.children, hd.isMeaningful] at hsecond
    · simpa [Node.children] using hsecond

/-- What is looked for among the parts of a node is found in the same place, or it is the comment.
-/
theorem any_find? {q f : Node → Bool} (h : Commented p k c n n')
    (hmoved : ∀ d, q (d.moved k) = q d) (hbelow : ∀ {d d'}, Commented p k c d d' → q d' = q d)
    (hfmoved : ∀ d, f (d.moved k) = f d) (hfbelow : ∀ {d d'}, Commented p k c d d' → f d → f d')
    (hc : q c → f c) (hfound : (n.children.find? q).any f) : (n'.children.find? q).any f := by
  have hafter (nodes : List Node) :
      ((nodes.map (moved k)).find? q).any f = (nodes.find? q).any f := by
    rw [List.find?_map, Option.any_map]
    simp only [Function.comp_def, hmoved, hfmoved]
  cases h with
  | here before after =>
    rw [Node.children, List.find?_append] at hfound ⊢
    rcases hbefore : before.find? q with - | first
    · rw [hbefore, Option.none_or] at hfound
      rw [Option.none_or, List.find?_cons]
      cases hcomment : q c
      · rw [← hafter] at hfound
        exact hfound
      · exact hc hcomment
    · rw [hbefore] at hfound
      exact hfound
  | @deeper _ _ _ _ d d' before after _ _ _ _ hd =>
    rw [Node.children, List.find?_append, List.find?_cons] at hfound ⊢
    rcases hbefore : before.find? q with - | first
    · rw [hbefore, Option.none_or] at hfound
      rw [Option.none_or, hbelow hd]
      cases hpart : q d
      · rw [hpart, ← hafter] at hfound
        exact hfound
      · rw [hpart] at hfound
        exact hfbelow hd hfound
    · rw [hbefore] at hfound
      exact hfound

/-- A comment that stands first among arguments stays there, or gives way to the new one. -/
theorem opensWithComment (h : Commented p k c n n') (hc : ¬ c.isMeaningful)
    (hopens : n.opensWithComment) : n'.opensWithComment := by
  rw [Node.opensWithComment, namedChildren, List.head?_filter] at hopens ⊢
  refine h.any_find? (fun d ↦ by rw [kind_moved]) (fun hd ↦ by rw [hd.kind_eq])
    (fun d ↦ by rw [isMeaningful_moved]) (fun hd hopens ↦ ?_) (fun _ ↦ by simpa using hc) hopens
  simp [hd.isMeaningful] at hopens

/-- A comment that stands first among the arguments of a call stays there, or gives way to the new
one. -/
theorem arguments (h : Commented p k c n n') (hc : ¬ c.isMeaningful)
    (hopens : (n.part .arguments).any Node.opensWithComment) :
    (n'.part .arguments).any Node.opensWithComment := by
  refine h.any_find? (fun d ↦ by rw [label_moved]) (fun hd ↦ by rw [hd.label_eq])
    (opensWithComment_moved k) (fun hd ↦ hd.opensWithComment hc) (fun hlabel ↦ ?_) hopens
  rw [(eq_of_not_isMeaningful hc).2.1] at hlabel
  cases hlabel

/-- A statement that starts with a word of its own does so still. -/
theorem isHeaded (h : Commented p k c n n') (hheaded : n.IsHeaded) : n'.IsHeaded := by
  intro hstatement
  have hhead := hheaded (by rwa [isStatement, ← h.kind_eq])
  cases h with
  | here before after _ _ hbefore =>
    rcases before with - | ⟨first, rest⟩
    · exact absurd rfl hbefore
    · exact hhead
  | deeper before after _ _ _ _ hd =>
    rcases before with - | ⟨first, rest⟩
    · simp [Node.children, hd.isMeaningful]
    · exact hhead

/-- **A node says the same with one comment more**, if this is not in a literal. -/
theorem gist_eq (h : Commented p k c n n') (hc : ¬ c.isMeaningful)
    (hcontent : Inserted p k content content') (hover : n.Over content)
    (hliteral : ∀ m ∈ n.preorder, m.start < p → p < m.stop → m.kind ≠ .string) :
    n'.gist content' = n.gist content := by
  induction h with
  | @here kind label start stop before after hstart hstop _ hbefore hafter =>
    have hkind : kind ≠ .string := hliteral _ (mem_preorder_self _) hstart hstop
    have hfront := gists_of_stop_le hcontent
      (hover.parts (List.subset_append_left before after) hbefore)
    have hbehind := gists_moved hcontent
      (hover.parts (List.subset_append_right before after) hafter)
    rw [gist_mk hkind, gist_mk hkind, gists_append, gists_append, gists_comment content' hc, hfront,
      hbehind]
  | @deeper kind label start stop d d' before after hstart hstop hbefore hafter hd ih =>
    have hkind : kind ≠ .string := hliteral _ (mem_preorder_self _) hstart hstop
    have hmem : d ∈ before ++ d :: after := List.mem_append_right _ List.mem_cons_self
    have hgist := ih (hover.child hmem) fun m hm ↦ hliteral m (mem_preorder_of_child hmem hm)
    have hfront := gists_of_stop_le hcontent
      (hover.parts (List.subset_append_left before (d :: after)) hbefore)
    have hbehind := gists_moved hcontent (hover.parts
      (List.subset_append_of_subset_right before (List.subset_cons_self d after)) hafter)
    rw [gist_mk hkind, gist_mk hkind, gists_append, gists_append, gists_cons _ hd.isMeaningful.1,
      gists_cons _ hd.isMeaningful.2, hfront, hbehind, hgist]

end Commented

/-! ### All nodes of a tree -/

theorem remarked_of_stop_le (hcontent : Inserted p k content content') (h : n.Over content)
    (hstop : n.stop ≤ p) : Remarked content content' n n where
  gist_eq := gist_of_stop_le hcontent h hstop
  misread := id
  headed := id

theorem remarked_moved (hcontent : Inserted p k content content') (h : n.Over content)
    (hstart : p ≤ n.start) : Remarked content content' n (n.moved k) where
  gist_eq := gist_moved hcontent h hstart
  misread := isMisread_of_gist_eq (gist_moved hcontent h hstart) (by simp [Option.any_map])
    (by simp [Option.any_map, opensWithComment_moved])
  headed hheaded hstatement := by
    have hhead := hheaded (by rwa [isStatement, ← kind_moved k])
    simpa [List.head?_map] using hhead

theorem Commented.remarked (h : Commented p k c n n') (hc : ¬ c.isMeaningful)
    (hcontent : Inserted p k content content') (hover : n.Over content)
    (hliteral : ∀ m ∈ n.preorder, m.start < p → p < m.stop → m.kind ≠ .string) :
    Remarked content content' n n' :=
  have hgist := h.gist_eq hc hcontent hover hliteral
  ⟨hgist, isMisread_of_gist_eq hgist (h.second hc) (h.arguments hc), h.isHeaded⟩

theorem remarks_of_stop_le (hcontent : Inserted p k content content')
    (h : ∀ b ∈ nodes, b.Over content ∧ b.stop ≤ p) :
    List.Forall₂ (Remarked content content') (nodes.flatMap meaningful)
      (nodes.flatMap meaningful) := by
  refine List.forall₂_same.2 fun m hm ↦ ?_
  obtain ⟨b, hb, hm⟩ := List.mem_flatMap.1 hm
  obtain ⟨hover, -, hstop⟩ := (h b hb).1.of_mem (List.mem_filter.1 hm).1
  exact remarked_of_stop_le hcontent hover (hstop.trans (h b hb).2)

theorem remarks_moved (hcontent : Inserted p k content content')
    (h : ∀ a ∈ nodes, a.Over content ∧ p ≤ a.start) :
    List.Forall₂ (Remarked content content') (nodes.flatMap meaningful)
      ((nodes.map (moved k)).flatMap meaningful) := by
  have hmoved :
      (nodes.map (moved k)).flatMap meaningful = (nodes.flatMap meaningful).map (moved k) := by
    rw [List.flatMap_map, List.map_flatMap]
    simp only [meaningful_moved]
  rw [hmoved, List.forall₂_map_right_iff, List.forall₂_same]
  intro m hm
  obtain ⟨a, ha, hm⟩ := List.mem_flatMap.1 hm
  obtain ⟨hover, hstart, -⟩ := (h a ha).1.of_mem (List.mem_filter.1 hm).1
  exact remarked_moved hcontent hover ((h a ha).2.trans hstart)

theorem meaningful_eq (hn : n.isMeaningful) :
    n.meaningful = n :: n.children.flatMap meaningful := by
  rw [meaningful, preorder_eq, List.filter_cons_of_pos hn, List.filter_flatMap]
  rfl

theorem meaningful_of_not_isMeaningful (hn : ¬ n.isMeaningful) : n.meaningful = [] := by
  rw [meaningful, preorder_eq, (eq_of_not_isMeaningful hn).2.2, List.flatMap_nil,
    List.filter_cons_of_neg hn, List.filter_nil]

/-- What is below a node with one comment more says the same. -/
theorem Commented.remarks_children (h : Commented p k c n n') (hc : ¬ c.isMeaningful)
    (hcontent : Inserted p k content content') (hover : n.Over content)
    (hliteral : ∀ m ∈ n.preorder, m.start < p → p < m.stop → m.kind ≠ .string) :
    List.Forall₂ (Remarked content content') (n.children.flatMap meaningful)
      (n'.children.flatMap meaningful) := by
  induction h with
  | here before after _ _ _ hbefore hafter =>
    have hfront := remarks_of_stop_le hcontent
      (hover.parts (List.subset_append_left before after) hbefore)
    have hbehind := remarks_moved hcontent
      (hover.parts (List.subset_append_right before after) hafter)
    rw [Node.children, Node.children, List.flatMap_append, List.flatMap_append, List.flatMap_cons,
      meaningful_of_not_isMeaningful hc, List.nil_append]
    exact List.rel_append hfront hbehind
  | @deeper _ _ _ _ d d' before after _ _ hbefore hafter hd ih =>
    have hmem : d ∈ before ++ d :: after := List.mem_append_right _ List.mem_cons_self
    have hover' := hover.child hmem
    have hliteral' := fun m hm ↦ hliteral m (mem_preorder_of_child hmem hm)
    have hfront := remarks_of_stop_le hcontent
      (hover.parts (List.subset_append_left before (d :: after)) hbefore)
    have hbehind := remarks_moved hcontent (hover.parts
      (List.subset_append_of_subset_right before (List.subset_cons_self d after)) hafter)
    rw [Node.children, Node.children, List.flatMap_append, List.flatMap_append, List.flatMap_cons,
      List.flatMap_cons, meaningful_eq hd.isMeaningful.1, meaningful_eq hd.isMeaningful.2]
    have hpart := List.Forall₂.cons (hd.remarked hc hcontent hover' hliteral') (ih hover' hliteral')
    exact List.rel_append hfront (List.rel_append hpart hbehind)

/-- **A tree with one comment more says the same**, node by node, and what was misread in it is. -/
theorem Commented.remarks (h : Commented p k c tree tree') (hc : ¬ c.isMeaningful)
    (hcontent : Inserted p k content content') (hover : tree.Over content)
    (hliteral : ∀ m ∈ tree.preorder, m.start < p → p < m.stop → m.kind ≠ .string) :
    Remarks content content' tree tree' := by
  rw [Remarks, meaningful_eq h.isMeaningful.1, meaningful_eq h.isMeaningful.2]
  exact .cons (h.remarked hc hcontent hover hliteral)
    (h.remarks_children hc hcontent hover hliteral)

/-! ### Places for a comment -/

/-- No node of the tree is an error. -/
def Faultless (tree : Node) : Prop :=
  ∀ n ∈ tree.preorder, n.kind ≠ .error

instance (tree : Node) : Decidable tree.Faultless :=
  inferInstanceAs (Decidable (∀ n ∈ tree.preorder, n.kind ≠ .error))

end Node

/-- Whether what is written between the parts of a node of the kind is text. -/
def NodeKind.holdsText : NodeKind → Bool
  | .string => true
  | .template => true
  | .regex => true
  | .element => true
  | _ => false

namespace Node

variable {p : Nat} {tree m : Node} {content : Bytes}

/-- The offset is between two tokens of a tree, and not in a text. -/
structure BetweenTokens (tree : Node) (p : Nat) : Prop where
  /-- A token stands in front of it. -/
  front : ∃ n ∈ tree.preorder, n.children = [] ∧ n.start < n.stop ∧ n.stop ≤ p
  /-- A token stands behind it. -/
  behind : ∃ n ∈ tree.preorder, n.children = [] ∧ n.start < n.stop ∧ p ≤ n.start
  /-- No token stands around it. -/
  uncut : ∀ n ∈ tree.preorder, n.children = [] → ¬ (n.start < p ∧ p < n.stop)
  /-- What is written there is no text, for some part of every literal around it is around it too.
  -/
  outside : ∀ n ∈ tree.preorder, n.kind.holdsText → n.start < p → p < n.stop →
    ∃ q ∈ n.children, q.start < p ∧ p < q.stop

theorem BetweenTokens.kind_ne_string (h : tree.BetweenTokens p) (hover : tree.Over content)
    (hm : m ∈ tree.preorder) (hstart : m.start < p) (hstop : p < m.stop) : m.kind ≠ .string := by
  intro hkind
  obtain ⟨q, hq, haround⟩ := h.outside m hm (by rw [hkind]; rfl) hstart hstop
  have hq' := mem_preorder_trans hm (mem_preorder_of_child hq (mem_preorder_self q))
  exact h.uncut q hq' (hover.flat m hm hkind q hq) haround

end Node

end ModuleBundler
