import LanguageServer.Navigation
import LanguageServer.Proofs.Toy.Places
import Mathlib.Data.List.Induction

/-!
# The smallest node at an offset

The search for the smallest node looks at the nodes of a tree that an offset touches, each before
its children and these from the last to the first.  Of the shortest ones the last wins.  Where nodes
are laid out, a node stands in this order before all that it holds and before all that end where it
starts.

## Main definitions

* `Node.backward` — the nodes of a tree, each before its children, these from the last to the first.

## Main statements

* `innermost_eq_some_iff` — which node the search finds.
* `Node.pairwise_backward` — how nodes lie that stand one behind the other in this order.
-/

namespace LanguageServer

namespace Node

/-! ## The order of the search -/

mutual

/-- The nodes of a tree, each before its children, and these from the last to the first. -/
def backward : Node → List Node
  | ⟨label, children⟩ => ⟨label, children⟩ :: backwardAll children

/-- The nodes of several trees, from the last tree to the first. -/
def backwardAll : List Node → List Node
  | [] => []
  | n :: rest => backwardAll rest ++ n.backward

end

theorem backward_eq (n : Node) : n.backward = n :: backwardAll n.children := by
  cases n
  rfl

theorem backwardAll_eq_flatMap (l : List Node) : backwardAll l = l.reverse.flatMap backward := by
  induction l with
  | nil => rfl
  | cons n rest ih => rw [backwardAll, ih, List.reverse_cons, List.flatMap_append,
      List.flatMap_singleton]

mutual

theorem backward_perm : (n : Node) → n.backward.Perm n.preorder
  | ⟨label, children⟩ => by
    rw [backward_eq, preorder_eq]
    exact (backwardAll_perm children).cons _

theorem backwardAll_perm : (l : List Node) → (backwardAll l).Perm (preorderAll l)
  | [] => .nil
  | n :: rest => by
    rw [backwardAll, preorderAll]
    exact List.perm_append_comm.trans ((backward_perm n).append (backwardAll_perm rest))

end

mutual

/-- The nodes below a node of a tree are nodes of the tree. -/
theorem preorder_subset : (n : Node) → ∀ k ∈ n.preorder, k.preorder ⊆ n.preorder
  | ⟨label, children⟩, k, hk => by
    rw [preorder_eq ⟨label, children⟩] at hk ⊢
    rcases List.mem_cons.1 hk with rfl | hk
    · rw [preorder_eq]
      exact List.Subset.refl _
    · exact List.Subset.trans (preorderAll_subset children k hk) (List.subset_cons_self _ _)

theorem preorderAll_subset : (l : List Node) → ∀ k ∈ preorderAll l, k.preorder ⊆ preorderAll l
  | [], _, hk => absurd hk List.not_mem_nil
  | n :: rest, k, hk => by
    rw [preorderAll] at hk ⊢
    rcases List.mem_append.1 hk with hk | hk
    · exact List.Subset.trans (preorder_subset n k hk) (List.subset_append_left _ _)
    · exact List.Subset.trans (preorderAll_subset rest k hk) (List.subset_append_right _ _)

end

theorem mem_backward {m n : Node} : m ∈ n.backward ↔ m ∈ n.preorder := (backward_perm n).mem_iff

theorem mem_backwardAll {m : Node} {l : List Node} : m ∈ backwardAll l ↔ m ∈ preorderAll l :=
  (backwardAll_perm l).mem_iff

end Node

/-! ## The search -/

/-- The shortest of some nodes, and of equals the last. -/
def shortest (best : Option Node) (l : List Node) : Option Node :=
  l.foldl (fun best n => some (preferLater best n)) best

theorem shortest_append (best : Option Node) (l l' : List Node) :
    shortest best (l ++ l') = shortest (shortest best l) l' := List.foldl_append

theorem shortest_cons (best : Option Node) (n : Node) (l : List Node) :
    shortest best (n :: l) = shortest (some (preferLater best n)) l := rfl

/-- Longer nodes are passed over. -/
theorem shortest_of_longer {m : Node} {l : List Node}
    (h : ∀ a ∈ l, m.location.length < a.location.length) : shortest (some m) l = some m := by
  induction l with
  | nil => rfl
  | cons a l ih =>
    obtain ⟨ha, hl⟩ := List.forall_mem_cons.1 h
    have hkeep : preferLater (some m) a = m := if_neg (Int.not_le.2 ha)
    rw [shortest_cons, hkeep, ih hl]

/-- The node that is found: those before it are as long at least, and those behind it are longer. -/
theorem exists_of_shortest {l : List Node} {m : Node} (h : shortest none l = some m) :
    ∃ before after, l = before ++ m :: after ∧
      (∀ b ∈ before, m.location.length ≤ b.location.length) ∧
        ∀ a ∈ after, m.location.length < a.location.length := by
  induction l using List.reverseRecOn generalizing m with
  | nil => cases h
  | append_singleton l n ih =>
    rw [shortest_append] at h
    -- The last node is compared with the best one of those before it.
    obtain rfl : preferLater (shortest none l) n = m := Option.some.inj h
    cases hbest : shortest none l with
    | none =>
      cases l using List.reverseRecOn with
      | nil => exact ⟨[], [], rfl, fun _ => nofun, fun _ => nofun⟩
      | append_singleton l b =>
        rw [shortest_append] at hbest
        cases hbest
    | some b =>
      obtain ⟨before, after, rfl, hbefore, hafter⟩ := ih hbest
      by_cases hshort : n.location.length ≤ b.location.length
      · rw [preferLater, if_pos hshort]
        refine ⟨before ++ b :: after, [], rfl, fun x hx => ?_, fun _ => nofun⟩
        rcases List.mem_append.1 hx with hx | hx
        · exact Int.le_trans hshort (hbefore x hx)
        · rcases List.mem_cons.1 hx with rfl | hx
          · exact hshort
          · exact Int.le_trans hshort (Int.le_of_lt (hafter x hx))
      · rw [preferLater, if_neg hshort]
        refine ⟨before, after ++ [n], by simp, hbefore, fun x hx => ?_⟩
        rcases List.mem_append.1 hx with hx | hx
        · exact hafter x hx
        · rw [List.mem_singleton.1 hx]
          exact Int.not_le.1 hshort

theorem mem_of_shortest {l : List Node} {m : Node} (h : shortest none l = some m) : m ∈ l := by
  obtain ⟨before, after, rfl, -, -⟩ := exists_of_shortest h
  exact List.mem_append_right _ List.mem_cons_self

/-- A node is found if those before it are as long at least, and those behind it are longer. -/
theorem shortest_eq_some {before after : List Node} {m : Node}
    (hbefore : ∀ b ∈ before, m.location.length ≤ b.location.length)
    (hafter : ∀ a ∈ after, m.location.length < a.location.length) :
    shortest none (before ++ m :: after) = some m := by
  have hprefer : preferLater (shortest none before) m = m := by
    cases hbest : shortest none before with
    | none => rfl
    | some b => exact if_pos (hbefore b (mem_of_shortest hbest))
  rw [shortest_append, shortest_cons, hprefer, shortest_of_longer hafter]

/-- What an offset touches inside a node it touches in the node. -/
def Node.IsNested (n : Node) : Prop := ∀ k ∈ n.preorder, ∀ m ∈ k.preorder, ∀ offset,
  m.location.contains offset = true → k.location.contains offset = true

theorem Node.IsNested.child {n child : Node} (h : n.IsNested) (hchild : child ∈ n.children) :
    child.IsNested := fun k hk => h k (Toy.mem_preorder.2 (.inr ⟨child, hchild, hk⟩))

/-- The search finds the shortest node that the offset touches. -/
theorem innermostFrom_eq {offset : Int} {best : Option Node} {stack : List Node}
    (h : ∀ n ∈ stack, n.IsNested) :
    innermostFrom offset best stack =
      shortest best ((stack.flatMap Node.backward).filter (·.location.contains offset)) := by
  induction best, stack using innermostFrom.induct offset with
  | case1 best => rw [innermostFrom]; rfl
  | case2 best n stack htouches ih =>
    obtain ⟨hn, hstack⟩ := List.forall_mem_cons.1 h
    simp only [List.unattach_reverse, List.unattach_attach] at ih
    rw [innermostFrom, if_pos htouches, ih fun k hk => ?_, List.flatMap_cons, Node.backward_eq,
      Node.backwardAll_eq_flatMap, List.cons_append, List.filter_cons, if_pos htouches,
      List.flatMap_append, shortest_cons]
    rcases List.mem_append.1 hk with hk | hk
    · exact hn.child (List.mem_reverse.1 hk)
    · exact hstack k hk
  | case3 best n stack htouches ih =>
    obtain ⟨hn, hstack⟩ := List.forall_mem_cons.1 h
    -- The search passes over a tree as a whole, and rightly: nothing in it is touched either.
    have hnone : n.backward.filter (·.location.contains offset) = [] := by
      refine List.filter_eq_nil_iff.2 fun m hm htouched => htouches ?_
      exact hn n (Toy.mem_preorder.2 (.inl rfl)) m (Node.mem_backward.1 hm) offset htouched
    rw [innermostFrom, if_neg htouches, ih hstack, List.flatMap_cons, List.filter_append, hnone,
      List.nil_append]

theorem innermost_eq {root : Node} (h : root.IsNested) (offset : Int) :
    innermost root offset = shortest none (root.backward.filter (·.location.contains offset)) := by
  unfold innermost
  rw [innermostFrom_eq (List.forall_mem_singleton.2 h), List.flatMap_singleton]

/-! ## Trees that are laid out -/

section

variable {source : String} {length : Nat}

/-- A node holds another one or stands behind it. -/
def Node.Precedes (a b : Node) : Prop :=
  b ∈ Node.preorderAll a.children ∨ b.location.stop ≤ a.location.start

mutual

theorem Node.pairwise_backward : (n : Node) →
    (∀ k ∈ n.preorder, k.IsLaidOut source length) → n.backward.Pairwise Node.Precedes
  | ⟨label, children⟩, h => by
    have hself := h ⟨label, children⟩ (Toy.mem_preorder.2 (.inl rfl))
    rw [Node.backward_eq]
    refine List.pairwise_cons.2 ⟨fun m hm => .inl (Node.mem_backwardAll.1 hm), ?_⟩
    exact Node.pairwise_backwardAll children hself.filled hself.apart
      fun k hk => h k (by simp [Node.preorder_eq, hk])

theorem Node.pairwise_backwardAll : (l : List Node) →
    (∀ n ∈ l, n.location.start < n.location.stop) →
    (l.Pairwise fun a b => a.location.stop ≤ b.location.start) →
    (∀ k ∈ Node.preorderAll l, k.IsLaidOut source length) →
    (Node.backwardAll l).Pairwise Node.Precedes
  | [], _, _, _ => .nil
  | n :: rest, hfilled, hapart, h => by
    obtain ⟨hfirst, hrest⟩ := List.pairwise_cons.1 hapart
    have hmore := fun k hk => hfilled k (List.mem_cons_of_mem n hk)
    have hbehind := fun k hk => h k (List.mem_append_right n.preorder hk)
    have hbefore := fun k hk => h k (List.mem_append_left (Node.preorderAll rest) hk)
    have hn := hfilled n List.mem_cons_self
    rw [Node.backwardAll, List.pairwise_append]
    refine ⟨Node.pairwise_backwardAll rest hmore hrest hbehind,
      Node.pairwise_backward n hbefore, fun a ha b hb => .inr ?_⟩
    obtain ⟨k, hk, ha⟩ := Toy.mem_preorderAll.1 (Node.mem_backwardAll.1 ha)
    have houter := Toy.encloses_of_memAll rest hmore hbehind k hk a ha
    have hinner := Toy.encloses_of_mem n hn hbefore b (Node.mem_backward.1 hb)
    exact Int.le_trans hinner.stop (Int.le_trans (hfirst k hk) houter.start)

end

/-- The nodes of a tree lie inside it. -/
theorem Node.within_of_mem {n m : Node} (h : ∀ k ∈ n.preorder, k.IsLaidOut source length)
    (hm : m ∈ n.preorder) : n.location.start ≤ m.location.start ∧ m.location.stop ≤ n.location.stop := by
  rcases Toy.mem_preorder.1 hm with rfl | ⟨child, hchild, hm⟩
  · exact ⟨Int.le_refl _, Int.le_refl _⟩
  · have hself := h n (Toy.mem_preorder.2 (.inl rfl))
    have hinside := hself.inside child hchild
    have hencloses := Toy.encloses_of_mem child (hself.filled child hchild)
      (fun k hk => h k (Toy.mem_preorder.2 (.inr ⟨child, hchild, hk⟩))) m hm
    exact ⟨Int.le_trans hinside.1 hencloses.start, Int.le_trans hencloses.stop hinside.2⟩

/-- Nodes that are laid out are nested. -/
theorem Node.isNested_of_isLaidOut {n : Node} (h : ∀ k ∈ n.preorder, k.IsLaidOut source length) :
    n.IsNested := by
  intro k hk m hm offset htouched
  have hwithin := Node.within_of_mem (fun j hj => h j (Node.preorder_subset n k hk hj)) hm
  simp only [SourceLocation.contains, Bool.and_eq_true, decide_eq_true_eq] at htouched ⊢
  exact ⟨Int.le_trans hwithin.1 htouched.1, Int.le_trans htouched.2 hwithin.2⟩

variable {root m : Node} {offset : Int}

/-- The search finds a node that the offset touches, if the others that it touches are no shorter:
those behind the node, those in it, and those before it. -/
theorem innermost_eq_some (h : ∀ k ∈ root.preorder, k.IsLaidOut source length)
    (hm : m ∈ root.preorder) (htouches : m.location.contains offset = true)
    (hbehind : ∀ k ∈ root.preorder, k.location.contains offset = true →
      m.location.stop ≤ k.location.start → m.location.length ≤ k.location.length)
    (hinside : ∀ k ∈ Node.preorderAll m.children, k.location.contains offset = true →
      m.location.length < k.location.length)
    (hbefore : ∀ k ∈ root.preorder, k.location.contains offset = true →
      k.location.stop ≤ m.location.start → m.location.length < k.location.length) :
    innermost root offset = some m := by
  obtain ⟨before, after, hsplit⟩ := List.append_of_mem (Node.mem_backward.2 hm)
  have hpairs := Node.pairwise_backward root h
  have hmem {k : Node} (hk : k ∈ before ++ m :: after) : k ∈ root.preorder :=
    Node.mem_backward.1 (hsplit ▸ hk)
  rw [hsplit, List.pairwise_append, List.pairwise_cons] at hpairs
  obtain ⟨-, ⟨hafter, -⟩, hacross⟩ := hpairs
  rw [innermost_eq (Node.isNested_of_isLaidOut h), hsplit, List.filter_append, List.filter_cons,
    if_pos htouches]
  refine shortest_eq_some (fun b hb => ?_) fun a ha => ?_
  · obtain ⟨hb, htouched⟩ := List.mem_filter.1 hb
    have hroot := hmem (List.mem_append_left _ hb)
    rcases hacross b hb m List.mem_cons_self with hin | hend
    · have hwithin := Node.within_of_mem (fun k hk => h k (Node.preorder_subset root b hroot hk))
        (m := m) (by simp [Node.preorder_eq, hin])
      simp only [SourceLocation.length]
      omega
    · exact hbehind b hroot htouched hend
  · obtain ⟨ha, htouched⟩ := List.mem_filter.1 ha
    rcases hafter a ha with hin | hend
    · exact hinside a hin htouched
    · exact hbefore a (hmem (List.mem_append_right _ (List.mem_cons_of_mem _ ha))) htouched hend

/-- What the search finds is shorter than what ends before it. -/
theorem length_lt_of_innermost (h : ∀ k ∈ root.preorder, k.IsLaidOut source length)
    (hfound : innermost root offset = some m) (hfilled : m.location.start < m.location.stop)
    {k : Node} (hk : k ∈ root.preorder) (htouched : k.location.contains offset = true)
    (hend : k.location.stop ≤ m.location.start) : m.location.length < k.location.length := by
  rw [innermost_eq (Node.isNested_of_isLaidOut h)] at hfound
  obtain ⟨before, after, hsplit, -, hlonger⟩ := exists_of_shortest hfound
  have hpairs := (Node.pairwise_backward root h).filter (fun k => k.location.contains offset)
  have hmem : k ∈ before ++ m :: after := by
    rw [← hsplit]
    exact List.mem_filter.2 ⟨Node.mem_backward.2 hk, htouched⟩
  rw [hsplit, List.pairwise_append] at hpairs
  have hordered := (h k hk).ordered
  -- A node that ends before the one that is found neither holds it nor stands behind it, so the search
  -- comes to it later.
  rcases List.mem_append.1 hmem with hbefore | hbehind
  · rcases hpairs.2.2 k hbefore m List.mem_cons_self with hin | hbehind
    · have hwithin := Node.within_of_mem (fun j hj => h j (Node.preorder_subset root k hk hj))
        (m := m) (by simp [Node.preorder_eq, hin])
      omega
    · omega
  · rcases List.mem_cons.1 hbehind with rfl | hafter
    · omega
    · exact hlonger k hafter

/-- At each of its characters a node without children is found, and at its first character too unless
a node that ends there is as short. -/
theorem innermost_eq_some_iff (h : ∀ k ∈ root.preorder, k.IsLaidOut source length)
    (hm : m ∈ root.preorder) (hleaf : m.children = []) (hstart : m.location.start ≤ offset)
    (hstop : offset < m.location.stop) :
    innermost root offset = some m ↔
      (offset = m.location.start → ∀ k ∈ root.preorder, k.location.stop = offset →
        m.location.length < k.location.length) := by
  constructor
  · rintro hfound rfl k hk hend
    have hordered := (h k hk).ordered
    exact length_lt_of_innermost h hfound hstop hk
      (SourceLocation.contains_iff.2 ⟨by omega, by omega⟩) (by omega)
  · intro hfirst
    refine innermost_eq_some h hm (SourceLocation.contains_iff.2 ⟨hstart, by omega⟩) ?_ ?_ ?_
    · intro k _ htouched hbehind
      rw [SourceLocation.contains_iff] at htouched
      omega
    · rw [hleaf]
      exact fun _ => nofun
    · intro k hk htouched hbefore
      rw [SourceLocation.contains_iff] at htouched
      exact hfirst (by omega) k hk (by omega)

end

end LanguageServer
