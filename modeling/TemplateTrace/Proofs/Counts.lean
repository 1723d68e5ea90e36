import TemplateTrace.Proofs.Picture
import Mathlib.Data.List.Find
import Mathlib.Data.List.GetD

/-!
What the counts of the open levels stand for, whatever the nodes are.

The pass takes the nodes as they come, also if no tree has their depths and numbers of children. The
count at a level belongs to the last node at that level, as long as all nodes after it are deeper: it
is the number of the node's children less the nodes one level deeper that came after it. A level
without such a node counts as zero, whether it was skipped, left, or not yet reached. So for any
nodes the connectors and leads can be told from the nodes alone.
-/

namespace TemplateTrace

namespace Drawing

/-- The place of the last node at the level, if all nodes after it are deeper. -/
def lastAt? (level : Nat) (nodes : List OutlineNode) : Option Nat :=
  (List.range nodes.length).reverse.find? fun j =>
    nodes[j]?.any (·.depth = level) && (nodes.drop (j + 1)).all (level < ·.depth)

/-- How many children of the node at the place, which stands at the level, are not among the nodes
after it. -/
def missing (nodes : List OutlineNode) (level j : Nat) : Nat :=
  nodes[j]?.elim 0 (·.children) - (nodes.drop (j + 1)).countP (·.depth = level + 1)

/-- What the nodes leave to come at the level. -/
def ahead (level : Nat) (nodes : List OutlineNode) : Nat :=
  (lastAt? level nodes).elim 0 (missing nodes level)

/-- What is still to come at the level when the node with the index is drawn: the children of the last
node before it at the level, if all between are deeper, less those up to the node with the index. -/
def left (nodes : List OutlineNode) (level i : Nat) : Nat :=
  (lastAt? level (nodes.take i)).elim 0 (missing (nodes.take (i + 1)) level)

/-- What leads to the node with the index, if it stands at the depth. -/
def connectorAt (nodes : List OutlineNode) (depth i : Nat) : List Char :=
  if depth = 0 then [] else if 0 < left nodes (depth - 1) i then fork else corner

def leadAt (nodes : List OutlineNode) (depth i : Nat) : List Char :=
  (List.range (depth - 1)).flatMap fun k => if 0 < left nodes k i then bar else noBar

variable {level : Nat} {before : List OutlineNode} {node : OutlineNode}

/-! ### One node more -/

lemma lt_length_of_lastAt? {j : Nat} (h : lastAt? level before = some j) : j < before.length := by
  have hmem := List.mem_of_find?_eq_some h
  simpa using hmem

/-- A node ends what is open at deeper levels, is the last one at its own, and keeps open what is
open at the levels above it. -/
lemma lastAt?_append (level : Nat) (before : List OutlineNode) (node : OutlineNode) :
    lastAt? level (before ++ [node]) =
      if node.depth < level then none
      else if node.depth = level then some before.length
      else lastAt? level before := by
  have hlast : (before ++ [node])[before.length]?.any (·.depth = level) =
      decide (node.depth = level) := by simp
  have hbetween : ((before ++ [node]).drop (before.length + 1)).all (level < ·.depth) = true := by
    simp
  have hearlier (j : Nat) (hj : j ∈ (List.range before.length).reverse) :
      ((before ++ [node])[j]?.any (·.depth = level) &&
        ((before ++ [node]).drop (j + 1)).all (level < ·.depth)) =
      (before[j]?.any (·.depth = level) && (before.drop (j + 1)).all (level < ·.depth) &&
        decide (level < node.depth)) := by
    have hlt : j < before.length := by simpa using hj
    rw [List.getElem?_append_left hlt, List.drop_append_of_le_length hlt, List.all_append,
      Bool.and_assoc]
    simp
  rw [lastAt?, List.length_append, List.length_singleton, List.range_succ, List.reverse_append,
    List.reverse_singleton, List.singleton_append, List.find?_cons, hlast, hbetween, Bool.and_true,
    List.find?_congr hearlier]
  rcases Nat.lt_trichotomy node.depth level with h | h | h
  · simp [h, h.ne, Nat.not_lt.mpr h.le]
  · simp [h]
  · simp [h, h.ne', Nat.not_lt.mpr h.le, lastAt?]

lemma missing_append {j : Nat} (hj : j < before.length) : missing (before ++ [node]) level j =
    missing before level j - if node.depth = level + 1 then 1 else 0 := by
  rw [missing, missing, List.getElem?_append_left hj, List.drop_append_of_le_length hj,
    List.countP_append, Nat.sub_sub, List.countP_singleton]
  simp

/-- **What one node changes**: it puts its children in the place of what its own level had, takes one
from the level above it, and ends the levels below. -/
lemma ahead_append (level : Nat) (before : List OutlineNode) (node : OutlineNode) :
    ahead level (before ++ [node]) =
      if node.depth < level then 0
      else if node.depth = level then node.children
      else ahead level before - if node.depth = level + 1 then 1 else 0 := by
  rw [ahead, lastAt?_append]
  by_cases hbelow : node.depth < level
  · rw [if_pos hbelow, if_pos hbelow]
    rfl
  · rw [if_neg hbelow, if_neg hbelow]
    by_cases hhere : node.depth = level
    · rw [if_pos hhere, if_pos hhere]
      simp [missing]
    · rw [if_neg hhere, if_neg hhere, ahead]
      cases hlast : lastAt? level before with
      | none => simp
      | some j => exact missing_append (lt_length_of_lastAt? hlast)

lemma left_eq_ahead (h : level < node.depth) (after : List OutlineNode) :
    left (before ++ node :: after) level before.length = ahead level (before ++ [node]) := by
  have hbefore : (before ++ node :: after).take before.length = before := List.take_left
  have hhere : (before ++ node :: after).take (before.length + 1) = before ++ [node] := by
    simp [List.take_append]
  rw [left, hbefore, hhere, ahead, lastAt?_append, if_neg (Nat.not_lt.mpr h.le), if_neg h.ne']

/-! ### The counts -/

@[simp] lemma length_resize (depth : Nat) (counts : List Nat) :
    (resize depth counts).length = depth := by
  rw [resize, List.length_append, List.length_take, List.length_replicate]
  omega

@[simp] lemma length_countDown (depth : Nat) (counts : List Nat) :
    (countDown depth counts).length = depth := by
  rw [countDown, List.length_modify, length_resize]

lemma getD_resize {depth k : Nat} (hk : k < depth) (counts : List Nat) :
    (resize depth counts).getD k 0 = counts.getD k 0 := by
  unfold resize
  rcases Nat.lt_or_ge k counts.length with hc | hc
  · rw [List.getD_append _ _ _ _ (by rw [List.length_take]; omega), List.getD_eq_getElem?_getD,
      List.getElem?_take_of_lt hk, List.getD_eq_getElem?_getD]
  · rw [List.getD_append_right _ _ _ _ (by rw [List.length_take]; omega),
      List.getD_eq_getElem?_getD, List.getElem?_getD_replicate_default_eq,
      List.getD_eq_default _ _ hc]

/-- Only the count of the level above is counted down. -/
lemma getD_countDown {depth k : Nat} (hk : k < depth) (counts : List Nat) :
    (countDown depth counts).getD k 0 =
      counts.getD k 0 - if depth = k + 1 then 1 else 0 := by
  have hlt : k < (resize depth counts).length := by rwa [length_resize]
  rw [← getD_resize hk counts, List.getD_eq_getElem _ _ hlt, countDown,
    List.getD_eq_getElem _ _ (by rwa [List.length_modify]), List.getElem_modify]
  by_cases hparent : depth = k + 1
  · rw [if_pos (by omega), if_pos hparent]
  · rw [if_neg (by omega), if_neg hparent, Nat.sub_zero]

/-- The counts tell of every level what the nodes leave to come there. -/
def Tells (counts : List Nat) (nodes : List OutlineNode) : Prop :=
  ∀ level, counts.getD level 0 = ahead level nodes

lemma tells_nil : Tells [] [] := fun _ => rfl

variable {counts : List Nat}

lemma Tells.getD_countDown (h : Tells counts before) {k : Nat} (hk : k < node.depth) :
    (countDown node.depth counts).getD k 0 = ahead k (before ++ [node]) := by
  rw [Drawing.getD_countDown hk, ahead_append, if_neg (Nat.not_lt.mpr hk.le), if_neg hk.ne', h]

/-- **The counts go on to tell it** when a node is drawn. -/
lemma Tells.append (h : Tells counts before) (node : OutlineNode) :
    Tells (countDown node.depth counts ++ [node.children]) (before ++ [node]) := by
  intro k
  rcases Nat.lt_trichotomy k node.depth with hk | hk | hk
  · rw [List.getD_append _ _ _ _ (by rwa [length_countDown]), h.getD_countDown hk]
  · rw [ahead_append, if_neg (by omega), if_pos hk.symm,
      List.getD_append_right _ _ _ _ (by rw [length_countDown]; omega), length_countDown, hk,
      Nat.sub_self]
    rfl
  · rw [ahead_append, if_pos hk,
      List.getD_eq_default _ _ (by rw [List.length_append, length_countDown]; exact hk)]

lemma Tells.connector_eq (h : Tells counts before) (node : OutlineNode)
    (after : List OutlineNode) : connector node.depth (countDown node.depth counts) =
      connectorAt (before ++ node :: after) node.depth before.length := by
  unfold connector connectorAt
  by_cases hdepth : node.depth = 0
  · rw [if_pos hdepth, if_pos hdepth]
  · have hparent : node.depth - 1 < node.depth := by omega
    rw [if_neg hdepth, if_neg hdepth, h.getD_countDown hparent, left_eq_ahead hparent]

lemma Tells.lead_eq (h : Tells counts before) (node : OutlineNode) (after : List OutlineNode) :
    lead node.depth (countDown node.depth counts) =
      leadAt (before ++ node :: after) node.depth before.length := by
  have hcounts : (countDown node.depth counts).take (node.depth - 1) =
      (List.range (node.depth - 1)).map fun k => left (before ++ node :: after) k before.length := by
    apply List.ext_getElem
    · rw [List.length_take, length_countDown, List.length_map, List.length_range]
      omega
    · intro k hk hk'
      rw [List.length_map, List.length_range] at hk'
      have hlt : k < node.depth := by omega
      rw [List.getElem_take, List.getElem_map, List.getElem_range, left_eq_ahead hlt,
        ← h.getD_countDown hlt, List.getD_eq_getElem]
  rw [lead, hcounts, leadAt, List.flatMap_map]
  rfl

/-- The node with the index, and what its lines begin with as told from the nodes. -/
def rowAt (nodes : List OutlineNode) (i : Nat) (node : OutlineNode) : Row :=
  ⟨node, leadAt nodes node.depth i, connectorAt nodes node.depth i⟩

/-- **The pass finds the rows that can be told from the nodes.** -/
lemma Tells.rowsFrom_eq (h : Tells counts before) (after : List OutlineNode) :
    rowsFrom counts after =
      after.mapIdx fun i node => rowAt (before ++ after) (before.length + i) node := by
  induction after generalizing before counts with
  | nil => rfl
  | cons node after ih =>
    have hrest := ih (h.append node)
    rw [List.append_assoc, List.singleton_append, List.length_append, List.length_singleton] at hrest
    rw [rowsFrom, List.mapIdx_cons, h.lead_eq node after, h.connector_eq node after, hrest]
    simp only [rowAt, Nat.add_zero, Nat.add_assoc, Nat.add_comm 1]

/-! ### Counts that are looked up -/

/-- What leads to a node at the depth, and the counts with one child less to come; there is nothing if
the count of the node's parent is not there. -/
def strike? : Nat → List Nat → Option (List Char × List Nat)
  | 0, counts => some ([], counts)
  | parent + 1, counts => do
    let count ← counts[parent]?
    return (if 0 < count - 1 then fork else corner, counts.set parent (count - 1))

/-- The pass that gives up where a count is not there. -/
def drawFrom? (width : Nat) : List Nat → List OutlineNode → Option (List (List Char))
  | _, [] => some []
  | counts, node :: nodes => do
    let (connector, counts) ← strike? node.depth (resize node.depth counts)
    let lines ← drawFrom? width (counts ++ [node.children]) nodes
    return wrap (lead node.depth counts) connector node.content.toList width ++ lines

lemma strike?_resize (depth : Nat) (counts : List Nat) :
    strike? depth (resize depth counts) =
      some (connector depth (countDown depth counts), countDown depth counts) := by
  cases depth with
  | zero => simp [strike?, connector, countDown, resize]
  | succ parent =>
    have hlt : parent < (resize (parent + 1) counts).length := by simp
    have hcount : (countDown (parent + 1) counts).getD parent 0 =
        (resize (parent + 1) counts)[parent] - 1 := by
      rw [getD_countDown (Nat.lt_succ_self parent), if_pos rfl,
        ← getD_resize (Nat.lt_succ_self parent), List.getD_eq_getElem _ _ hlt]
    have hset : countDown (parent + 1) counts = (resize (parent + 1) counts).set parent
        ((resize (parent + 1) counts)[parent] - 1) := by
      rw [countDown, Nat.add_sub_cancel, List.modify_eq_set, List.getElem?_eq_getElem hlt]
      rfl
    rw [strike?, List.getElem?_eq_getElem hlt, connector, if_neg (Nat.succ_ne_zero parent),
      Nat.add_sub_cancel, hcount, hset]
    rfl

lemma drawFrom?_eq (width : Nat) (counts : List Nat) (nodes : List OutlineNode) :
    drawFrom? width counts nodes = some (drawFrom width counts nodes) := by
  induction nodes generalizing counts with
  | nil => rfl
  | cons node nodes ih =>
    rw [drawFrom?, strike?_resize]
    simp only [Option.bind_eq_bind, Option.bind_some, ih]
    rfl

/-- **Every node is drawn as the nodes before it demand**, whatever the nodes are. The pass never
looks for a count that is not there, and it draws the nodes one after the other, each behind the
bars of the levels at which something is still to come, and with a fork if something is still to
come at the level of its parent. -/
theorem draw_eq_flatten (width : Nat) (nodes : List OutlineNode) :
    drawFrom? width [] nodes = some (draw width nodes) ∧
      draw width nodes = (nodes.mapIdx fun i node =>
        wrap (leadAt nodes node.depth i) (connectorAt nodes node.depth i) node.content.toList
          width).flatten := by
  refine ⟨drawFrom?_eq width [] nodes, ?_⟩
  have hrows := tells_nil.rowsFrom_eq nodes
  simp only [List.nil_append, List.length_nil, Nat.zero_add] at hrows
  rw [draw, drawFrom_eq_rows, hrows, List.flatMap_def]
  congr 1
  apply List.ext_getElem?
  intro i
  rw [List.getElem?_map, List.getElem?_mapIdx, List.getElem?_mapIdx, Option.map_map]
  rfl

/-- The level of the first node goes on below a node that skips a level, and counts a surplus child as
none; the second node at depth zero starts anew. -/
example :
    let node (depth children : Nat) : OutlineNode := ⟨"n", none, depth, children⟩
    let nodes := [node 0 2, node 1 0, node 3 1, node 1 0, node 1 0, node 0 1, node 2 0]
    ((List.range 7).map (left nodes 0) = [0, 1, 1, 0, 0, 0, 1]) ∧
      draw 0 nodes = ["n".toList, fork ++ "n".toList, bar ++ noBar ++ corner ++ "n".toList,
        corner ++ "n".toList, corner ++ "n".toList, "n".toList, bar ++ corner ++ "n".toList] := by
  decide

end Drawing

end TemplateTrace
