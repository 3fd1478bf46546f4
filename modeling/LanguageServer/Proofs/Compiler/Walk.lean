import LanguageServer.Compiler.Program

/-!
# Walking a tree

The walk with a stack lists the nodes in pre-order.

## Main statements

* `Node.walk_eq_preorder` — both lists are the same.
-/

namespace LanguageServer

namespace Node

theorem walkFrom_eq_preorderAll (stack : List Node) : walkFrom stack = preorderAll stack := by
  induction stack using walkFrom.induct with
  | case1 => rw [walkFrom, preorderAll]
  | case2 n stack ih => rw [walkFrom, ih, preorderAll_append, preorderAll, preorder_eq, List.cons_append]

/-- The walk lists the nodes of a tree in pre-order. -/
theorem walk_eq_preorder (n : Node) : n.walk = n.preorder := by
  unfold walk
  rw [walkFrom_eq_preorderAll, preorderAll, preorderAll, List.append_nil]

end Node

end LanguageServer
