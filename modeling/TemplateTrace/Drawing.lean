import TemplateTrace.Evaluation

/-!
Drawing an outline as a tree of characters. The drawing is made in one pass: for every open level it
counts the children that are still to come, and from these counts it knows which child is the last
and which levels go on below. A line is cut to a width after a fixed number of characters, and every
further line begins with what keeps the branches of the drawing going.
-/

namespace TemplateTrace

namespace Drawing

/-! ### The lines of a node -/

/-- Leads to a child that has later siblings; the corner leads to the last one. -/
def fork : List Char := ['+', ' ']

def corner : List Char := ['`', ' ']

/-- Stands at a level that goes on below; where a level has ended, there is no bar. -/
def bar : List Char := ['|', ' ']

def noBar : List Char := [' ', ' ']

/-- What stands in the further lines where the first line has the connector. -/
def continuation (connector : List Char) : List Char :=
  if connector = fork then bar
  else if connector = corner then noBar
  else List.replicate connector.length ' '

/-- Cuts a text into pieces: the first has `first + 1` characters and each of the others
`later + 1`, except that the last may have fewer. -/
def pieces (first later : Nat) (text : List Char) : List (List Char) :=
  match h : text.drop (first + 1) with
  | [] => [text]
  | c :: rest => text.take (first + 1) :: pieces later later (c :: rest)
termination_by text.length
decreasing_by
  have := congrArg List.length h
  simp at this ⊢
  omega

/-- The characters that a line has for its text after the lead, less one: there is always room for
one character. -/
def room (width : Nat) (lead : List Char) : Nat := width - lead.length - 1

def wrap (lead connector content : List Char) (width : Nat) : List (List Char) :=
  if width ≤ 1 then [lead ++ connector ++ content]
  else
    let further := lead ++ continuation connector
    match pieces (room width lead) (room width further) (connector ++ content) with
    | [] => []
    | piece :: rest => (lead ++ piece) :: rest.map (further ++ ·)

/-! ### The pass -/

/-- The counts of the levels above the depth; levels that were skipped have no children to come. -/
def resize (depth : Nat) (counts : List Nat) : List Nat :=
  counts.take depth ++ List.replicate (depth - counts.length) 0

/-- The counts once the node is drawn: its parent has one child less to come. -/
def countDown (depth : Nat) (counts : List Nat) : List Nat :=
  (resize depth counts).modify (depth - 1) (· - 1)

def connector (depth : Nat) (counts : List Nat) : List Char :=
  if depth = 0 then []
  else if 0 < counts.getD (depth - 1) 0 then fork
  else corner

def level (count : Nat) : List Char := if 0 < count then bar else noBar

/-- The bars of the levels above the node's parent. -/
def lead (depth : Nat) (counts : List Nat) : List Char :=
  (counts.take (depth - 1)).flatMap level

/-- Draws the nodes, with the counts that the nodes before them left. -/
def drawFrom (width : Nat) : List Nat → List OutlineNode → List (List Char)
  | _, [] => []
  | counts, node :: nodes =>
    let counts := countDown node.depth counts
    wrap (lead node.depth counts) (connector node.depth counts) node.content.toList width ++
      drawFrom width (counts ++ [node.children]) nodes

def draw (width : Nat) (nodes : List OutlineNode) : List (List Char) := drawFrom width [] nodes

end Drawing

def Evaluation.drawing (e : Evaluation) (width : Nat) : List String :=
  (Drawing.draw width e.outline).map String.ofList

end TemplateTrace
