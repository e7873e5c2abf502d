import Showtime.Library.Worklist
import Showtime.Lifecycle
/-!
# The calls that `add_child` makes

`add_child`, `remove_child` and `set_parent` call each other, and nothing
bounds how deep they do. Here they are the tasks of a worklist, next to the
functions of the hierarchy, which count their depth.
-/

namespace Showtime.Calls

open ZstHierarchy Library

/-- `set_parent` of a component takes every child off and adds it again, so the
functions call each other as deep as the tree is. -/
inductive Call
  | addChild (p c : EntityId) (autoActivate : Bool)
  | removeChild (p c : EntityId)
  | setParent (e : EntityId) (parent : Option EntityId)
  /-- The rest of `ZstComponent::add_child`, once the child has its parent. -/
  | adopt (p c : EntityId) (autoActivate : Bool)

def perform (v : Overrides) (h : ZstHierarchy) : Call → ZstHierarchy × List Call
  | .addChild p c autoActivate =>
    if (h.entities p).isComponent then
      if (h.entities c).uri ∈ (h.entities p).children then (h, [])
      else (h, [.setParent c (some p), .adopt p c autoActivate])
    else (h, [.setParent c (some p)])
  | .removeChild p c =>
    if (h.entities p).isComponent then
      (h.modify p fun x => { x with children := x.children.erase (h.entities c).uri },
        [.setParent c none])
    else (h, [.setParent c none])
  | .setParent e parent =>
    (h.setParentBase e parent, ((h.setParentBase e parent).childEntities e).flatMap fun c =>
      [.removeChild e c, .addChild e c true])
  | .adopt p c autoActivate => (adoptChild v h p c autoActivate, [])

/-- A call as the functions make it that count how deep they are. -/
def eval (v : Overrides) (n : Nat) (h : ZstHierarchy) : Call → ZstHierarchy
  | .addChild p c autoActivate => addChildWith v (setParent v (n / 2)) h p c autoActivate
  | .removeChild p c => removeChildWith (setParent v (n / 2)) h p c
  | .setParent e parent => setParent v ((n + 1) / 2) h e parent
  | .adopt p c autoActivate => adoptChild v h p c autoActivate

section Calls

variable (v : Overrides)

theorem eval_succ (n : Nat) (h : ZstHierarchy) (call : Call) :
    eval v (n + 1) h call = (perform v h call).2.foldl (eval v n) (perform v h call).1 := by
  cases call with
  | addChild p c autoActivate =>
    by_cases hcomponent : (h.entities p).isComponent = true
    · by_cases hlisted : (h.entities c).uri ∈ (h.entities p).children
      · simp only [eval, perform, addChildWith, hcomponent, hlisted, if_true, List.foldl_nil]
      · simp only [eval, perform, addChildWith, hcomponent, hlisted, if_true, if_false,
          List.foldl_cons, List.foldl_nil]
    · simp only [eval, perform, addChildWith, hcomponent, Bool.false_eq_true, if_false,
        List.foldl_cons, List.foldl_nil]
  | removeChild p c =>
    by_cases hcomponent : (h.entities p).isComponent = true
    · simp only [eval, perform, removeChildWith, hcomponent, if_true, List.foldl_cons,
        List.foldl_nil]
    · simp only [eval, perform, removeChildWith, hcomponent, Bool.false_eq_true, if_false,
        List.foldl_cons, List.foldl_nil]
  | setParent e parent =>
    have hdepth : (n + 1 + 1) / 2 = n / 2 + 1 := by omega
    simp only [eval, perform, hdepth, setParent, List.foldl_flatMap, List.foldl_cons,
      List.foldl_nil]
  | adopt p c autoActivate => rfl

/-- Where the calls come to an end, `add_child` is what they do, once it may go
so deep. -/
theorem addChild_of_ends {n depth : Nat} {h k : ZstHierarchy} {p c : EntityId} {autoActivate : Bool}
    (hends : Worklist.Ends (perform v) n h [.addChild p c autoActivate] k)
    (hdepth : n ≤ 2 * depth) :
    addChildWith v (setParent v depth) h p c autoActivate = k := by
  have heval := Worklist.Ends.foldl_eq (eval_succ v) hends hdepth
  have hhalf : 2 * depth / 2 = depth := by omega
  simpa only [List.foldl_cons, List.foldl_nil, eval, hhalf] using heval

end Calls

end Showtime.Calls
