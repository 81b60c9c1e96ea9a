import Mathlib.Data.List.Basic
import TapeFlow.Graph.Dot
import TapeFlow.Proofs.Numerals
import TapeFlow.Proofs.Texts
import TapeFlow.Proofs.Validity

namespace TapeFlow

/-! What a drawing tells about a graph. A drawing is a list of statements, and its text can be read in
one way only: a name ends at its second quote, a number at the blank behind it, and a statement at the
line feed. The statements of a graph without faults in turn have all its edges, in order, and name all
its nodes. -/

namespace Dot

/-- A node as it is named. -/
structure Vertex where
  id : Nat
  instruction : Instruction
  deriving DecidableEq

inductive Statement where
  | node (vertex : Vertex)
  | edge (source target : Vertex) (condition : Condition)
  deriving DecidableEq

def Vertex.node (vertex : Vertex) : Node :=
  ⟨vertex.id, vertex.instruction, []⟩

namespace Statement

def text : Statement → Text
  | .node vertex => nodeStatement vertex.node
  | .edge source target condition => edgeStatement source.node target.node condition

/-- The edge that a statement draws, beside the number of the node that it leaves. -/
def edge? : Statement → Option (Nat × Edge)
  | .node _ => none
  | .edge source target condition => some (source.id, ⟨target.id, condition⟩)

def vertices : Statement → List Vertex
  | .node vertex => [vertex]
  | .edge source target _ => [source, target]

end Statement

def document (statements : List Statement) : Text :=
  header ++ (statements.map Statement.text).flatten ++ footer

section Reading

variable {left right : Text}

theorem quote_not_mem_instruction (instruction : Instruction) : '"' ∉ instruction.label := by
  have all : ∀ instruction ∈ Instruction.all, '"' ∉ instruction.label := by decide
  exact all instruction (Instruction.mem_all instruction)

theorem quote_not_mem_condition (condition : Condition) : '"' ∉ condition.label := by
  have all : ∀ condition ∈ Condition.all, '"' ∉ condition.label := by decide
  exact all condition (Condition.mem_all condition)

theorem name_append_inj {first second : Vertex}
    (same : name first.node ++ left = name second.node ++ right) : first = second ∧ left = right := by
  simp only [name, Vertex.node, List.append_assoc, List.cons_append, List.nil_append,
    List.cons.injEq, true_and] at same
  obtain ⟨ids, behindIds⟩ := Text.append_mark_inj (Text.not_mem_ofNat (by decide))
    (Text.not_mem_ofNat (by decide)) same
  obtain ⟨labels, behind⟩ := Text.append_mark_inj (quote_not_mem_instruction first.instruction)
    (quote_not_mem_instruction second.instruction) behindIds
  cases first
  cases second
  cases Text.ofNat_injective ids
  cases Instruction.label_injective labels
  exact ⟨rfl, behind⟩

theorem Statement.text_append_inj {first second : Statement}
    (same : first.text ++ left = second.text ++ right) : first = second ∧ left = right := by
  cases first with
  | node vertex =>
      cases second with
      | node other =>
          simp only [text, nodeStatement, List.append_assoc] at same
          obtain ⟨rfl, behind⟩ := name_append_inj (List.append_cancel_left same)
          exact ⟨rfl, List.append_cancel_left behind⟩
      | edge source target condition =>
          simp only [text, nodeStatement, edgeStatement, List.append_assoc] at same
          obtain ⟨_, behind⟩ := name_append_inj (List.append_cancel_left same)
          simp at behind
  | edge source target condition =>
      cases second with
      | node other =>
          simp only [text, nodeStatement, edgeStatement, List.append_assoc] at same
          obtain ⟨_, behind⟩ := name_append_inj (List.append_cancel_left same)
          simp at behind
      | edge otherSource otherTarget otherCondition =>
          simp only [text, edgeStatement, List.append_assoc] at same
          obtain ⟨rfl, behindSource⟩ := name_append_inj (List.append_cancel_left same)
          obtain ⟨rfl, behindTarget⟩ := name_append_inj (List.append_cancel_left behindSource)
          obtain ⟨labels, behind⟩ := Text.append_mark_inj (quote_not_mem_condition condition)
            (quote_not_mem_condition otherCondition) (List.append_cancel_left behindTarget)
          cases Condition.label_injective labels
          exact ⟨rfl, List.append_cancel_left behind⟩

theorem Statement.head?_text (statement : Statement) : statement.text.head? = some ' ' := by
  have begins : margin.head? = some ' ' := rfl
  cases statement <;> simp [text, nodeStatement, edgeStatement, begins]

theorem text_append_ne_footer (statement : Statement) (rest : Text) :
    statement.text ++ rest ≠ footer := by
  intro same
  have heads := congrArg List.head? same
  simp [statement.head?_text, footer] at heads

theorem document_injective {first second : List Statement}
    (same : document first = document second) : first = second := by
  rw [document, document, List.append_assoc, List.append_assoc] at same
  replace same := List.append_cancel_left same
  -- The footer begins like no statement, so neither list can end before the other.
  induction first generalizing second with
  | nil =>
      cases second with
      | nil => rfl
      | cons statement rest =>
          rw [List.map_cons, List.flatten_cons, List.append_assoc] at same
          exact absurd same.symm (text_append_ne_footer statement _)
  | cons statement rest ih =>
      rw [List.map_cons, List.flatten_cons, List.append_assoc] at same
      cases second with
      | nil => exact absurd same (text_append_ne_footer statement _)
      | cons other others =>
          rw [List.map_cons, List.flatten_cons, List.append_assoc] at same
          obtain ⟨rfl, behind⟩ := Statement.text_append_inj same
          rw [ih behind]

end Reading

end Dot

def Node.vertex (node : Node) : Dot.Vertex :=
  ⟨node.id, node.instruction⟩

namespace Graph

variable {graph left right : Graph} {place : Nat} {node : Node}

/-- The statement of an edge, where both its ends are places of nodes. -/
def drawnEdge? (graph : Graph) (source : Nat) (edge : Edge) : Option Dot.Statement :=
  match graph.node? source, graph.node? edge.target with
  | some source, some target => some (.edge source.vertex target.vertex edge.condition)
  | _, _ => none

def statements (graph : Graph) : List Dot.Statement :=
  (graph.nodes.filter graph.isolated).map (fun node => .node node.vertex) ++
    graph.edges.filterMap fun (source, edge) => graph.drawnEdge? source edge

theorem edgeStatement?_eq (graph : Graph) (source : Nat) (edge : Edge) :
    graph.edgeStatement? source edge = (graph.drawnEdge? source edge).map Dot.Statement.text := by
  unfold edgeStatement? drawnEdge?
  cases graph.node? source <;> cases graph.node? edge.target <;> rfl

theorem dot_eq_document (graph : Graph) : graph.dot = Dot.document graph.statements := by
  have edges : (graph.edges.filterMap fun (source, edge) => graph.edgeStatement? source edge) =
      (graph.edges.filterMap fun (source, edge) => graph.drawnEdge? source edge).map
        Dot.Statement.text := by
    simp only [List.map_filterMap, edgeStatement?_eq]
  have nodes : (graph.nodes.filter graph.isolated).map Dot.nodeStatement =
      ((graph.nodes.filter graph.isolated).map fun node => .node node.vertex).map
        Dot.Statement.text := by
    rw [List.map_map]
    rfl
  unfold dot Dot.document statements
  rw [edges, nodes, List.map_append, List.flatten_append, ← List.append_assoc]

theorem Numbered.nodup_ids (numbered : graph.Numbered) : (graph.nodes.map (·.id)).Nodup := by
  have ids : graph.nodes.map (·.id) = List.range graph.size := by
    apply List.ext_getElem?
    intro place
    rw [List.getElem?_map]
    cases found : graph.nodes[place]? with
    | none =>
        have outside := List.getElem?_eq_none_iff.mp found
        simpa [size] using outside
    | some node =>
        have inside := (List.getElem?_eq_some_iff.mp found).1
        simp [numbered place node found, size, inside]
  rw [ids]
  exact List.nodup_range

/-- Where no two nodes have one number, the edges of a node are those beside its number. -/
theorem edges_of_nodup {nodes : List Node} (distinct : (nodes.map (·.id)).Nodup)
    (member : node ∈ nodes) :
    ((Graph.mk nodes).edges.filter (·.1 = node.id)).map (·.2) = node.edges := by
  induction nodes with
  | nil => cases member
  | cons first rest ih =>
      obtain ⟨fresh, distinct⟩ := List.nodup_cons.mp distinct
      have split : (Graph.mk (first :: rest)).edges =
          first.edges.map (first.id, ·) ++ (Graph.mk rest).edges := by
        simp [edges]
      rw [split, List.filter_append, List.map_append]
      rcases List.mem_cons.mp member with rfl | member
      · have others : (Graph.mk rest).edges.filter (·.1 = node.id) = [] := by
          apply List.filter_eq_nil_iff.mpr
          rintro ⟨source, edge⟩ inside same
          obtain ⟨other, member, named, _⟩ := mem_edges.mp inside
          have repeated := named.trans (of_decide_eq_true same)
          exact fresh (List.mem_map.mpr ⟨other, member, repeated⟩)
        simp [others, List.filter_map, Function.comp_def]
      · have other : first.id ≠ node.id := by
          intro same
          exact fresh (List.mem_map.mpr ⟨node, member, same.symm⟩)
        simp [List.filter_map, Function.comp_def, other, ih distinct member]

namespace Valid

theorem node_edges (valid : graph.Valid) (found : graph.node? place = some node) :
    node.edges = (graph.edges.filter (·.1 = place)).map (·.2) := by
  rw [← valid.numbered place node found]
  exact (edges_of_nodup valid.numbered.nodup_ids (List.mem_of_getElem? found)).symm

theorem ends (valid : graph.Valid) {source : Nat} {edge : Edge}
    (member : (source, edge) ∈ graph.edges) :
    ∃ first second, graph.node? source = some first ∧ first.id = source ∧
      graph.node? edge.target = some second ∧ second.id = edge.target ∧
      graph.drawnEdge? source edge = some (.edge first.vertex second.vertex edge.condition) := by
  obtain ⟨first, found, _⟩ := valid.numbered.mem_edges.mp member
  have inside := valid.target_lt source edge member
  have foundTarget : graph.node? edge.target = some graph.nodes[edge.target] :=
    List.getElem?_eq_getElem inside
  refine ⟨first, _, found, valid.numbered _ _ found, foundTarget,
    valid.numbered _ _ foundTarget, ?_⟩
  rw [drawnEdge?, node?, found, foundTarget]

/-- No edge is left out, none is drawn twice, and they are drawn in order. -/
theorem drawn_edges (valid : graph.Valid) :
    graph.statements.filterMap Dot.Statement.edge? = graph.edges := by
  have isolated : ((graph.nodes.filter graph.isolated).map fun node =>
      Dot.Statement.node node.vertex).filterMap Dot.Statement.edge? = [] := by
    simp [Dot.Statement.edge?]
  have drawn : ∀ entry ∈ graph.edges,
      (graph.drawnEdge? entry.1 entry.2).bind Dot.Statement.edge? = some entry := by
    rintro ⟨source, edge⟩ member
    obtain ⟨first, second, _, firstId, _, secondId, drawn⟩ := valid.ends member
    simp [drawn, Dot.Statement.edge?, Node.vertex, firstId, secondId]
  rw [statements, List.filterMap_append, isolated, List.nil_append, List.filterMap_filterMap]
  exact (List.filterMap_congr drawn).trans (List.filterMap_some ..)

theorem node?_id (valid : graph.Valid) (member : node ∈ graph.nodes) :
    graph.node? node.id = some node := by
  obtain ⟨place, found⟩ := List.mem_iff_getElem?.mp member
  rwa [valid.numbered place node found]

/-- A node that has no statement of its own is an end of an edge. -/
theorem exists_edge_of_not_isolated (valid : graph.Valid) (found : graph.node? place = some node)
    (touched : graph.isolated node = false) :
    ∃ source edge, (source, edge) ∈ graph.edges ∧ (source = place ∨ edge.target = place) := by
  have id := valid.numbered place node found
  simp only [isolated, Bool.and_eq_false_iff, Bool.not_eq_false'] at touched
  rcases touched with leaves | entered
  · obtain ⟨edge, inside⟩ := List.exists_mem_of_ne_nil node.edges (by simpa using leaves)
    exact ⟨place, edge, valid.numbered.mem_edges.mpr ⟨node, found, inside⟩, .inl rfl⟩
  · obtain ⟨⟨source, edge⟩, member, same⟩ := List.any_eq_true.mp entered
    exact ⟨source, edge, member, .inr ((of_decide_eq_true same).trans id)⟩

/-- The nodes are all named, each in a statement of its own or in that of an edge. -/
theorem mem_drawn_vertices (valid : graph.Valid) (vertex : Dot.Vertex) :
    vertex ∈ graph.statements.flatMap Dot.Statement.vertices ↔
      ∃ node, graph.node? vertex.id = some node ∧ node.vertex = vertex := by
  constructor
  · intro named
    obtain ⟨statement, stated, named⟩ := List.mem_flatMap.mp named
    rcases List.mem_append.mp stated with alone | drawn
    · obtain ⟨node, member, rfl⟩ := List.mem_map.mp alone
      obtain rfl := List.mem_singleton.mp named
      exact ⟨node, valid.node?_id (List.mem_filter.mp member).1, rfl⟩
    · obtain ⟨⟨source, edge⟩, member, drawn⟩ := List.mem_filterMap.mp drawn
      obtain ⟨first, second, found, firstId, foundTarget, secondId, same⟩ := valid.ends member
      cases same.symm.trans drawn
      rcases List.mem_cons.mp named with rfl | named
      · exact ⟨first, by simpa [Node.vertex, firstId] using found, rfl⟩
      · obtain rfl := List.mem_singleton.mp named
        exact ⟨second, by simpa [Node.vertex, secondId] using foundTarget, rfl⟩
  · rintro ⟨node, found, rfl⟩
    apply List.mem_flatMap.mpr
    cases alone : graph.isolated node with
    | true =>
        refine ⟨.node node.vertex, List.mem_append_left _ ?_, List.mem_singleton_self _⟩
        exact List.mem_map_of_mem (List.mem_filter.mpr ⟨List.mem_of_getElem? found, alone⟩)
    | false =>
        obtain ⟨source, edge, member, touches⟩ := valid.exists_edge_of_not_isolated found alone
        obtain ⟨first, second, foundSource, _, foundTarget, _, drawn⟩ := valid.ends member
        refine ⟨_, List.mem_append_right _ (List.mem_filterMap.mpr ⟨_, member, drawn⟩), ?_⟩
        rcases touches with rfl | same
        · cases found.symm.trans foundSource
          exact List.mem_cons_self
        · rw [same] at foundTarget
          cases found.symm.trans foundTarget
          exact List.mem_cons_of_mem _ (List.mem_singleton_self _)

theorem node?_of_statements_eq (leftValid : left.Valid) (rightValid : right.Valid)
    (same : left.statements = right.statements) (found : left.node? place = some node) :
    right.node? place = some node := by
  have id := leftValid.numbered place node found
  have named : node.vertex ∈ right.statements.flatMap Dot.Statement.vertices := by
    rw [← same]
    exact (leftValid.mem_drawn_vertices _).mpr ⟨node, by rwa [Node.vertex, id], rfl⟩
  obtain ⟨other, foundOther, vertices⟩ := (rightValid.mem_drawn_vertices _).mp named
  rw [Node.vertex, id] at foundOther
  have edges : node.edges = other.edges := by
    rw [leftValid.node_edges found, rightValid.node_edges foundOther, ← leftValid.drawn_edges,
      ← rightValid.drawn_edges, same]
  cases node
  cases other
  cases vertices
  cases edges
  exact foundOther

theorem eq_of_statements_eq (leftValid : left.Valid) (rightValid : right.Valid)
    (same : left.statements = right.statements) : left = right := by
  have nodes : left.nodes = right.nodes := by
    apply List.ext_getElem?
    intro place
    apply Option.ext
    intro node
    exact ⟨node?_of_statements_eq leftValid rightValid same,
      node?_of_statements_eq rightValid leftValid same.symm⟩
  cases left
  cases right
  exact congrArg Graph.mk nodes

end Valid

/-- The drawing of a graph without faults has all of it: its text is that of statements which draw
every edge once and in order and name every node, and no other such graph has that text. -/
theorem dot_tells_all (faultless : graph.fault? = none) :
    graph.dot = Dot.document graph.statements ∧
      graph.statements.filterMap Dot.Statement.edge? = graph.edges ∧
      (∀ vertex, vertex ∈ graph.statements.flatMap Dot.Statement.vertices ↔
        ∃ node, graph.node? vertex.id = some node ∧ node.vertex = vertex) ∧
      ∀ other : Graph, other.fault? = none → graph.dot = other.dot → graph = other := by
  have valid := fault?_eq_none_iff.mp faultless
  refine ⟨graph.dot_eq_document, valid.drawn_edges, valid.mem_drawn_vertices, ?_⟩
  intro other otherFaultless same
  rw [dot_eq_document, dot_eq_document] at same
  exact valid.eq_of_statements_eq (fault?_eq_none_iff.mp otherFaultless)
    (Dot.document_injective same)

/-- Graphs that differ in the order of two edges only, between the same nodes, beside a node without
edges. -/
theorem dot_tells_order :
    ∃ left right : Graph, left.fault? = none ∧ right.fault? = none ∧ left.dot ≠ right.dot := by
  let left : Graph := ⟨[⟨0, .start, []⟩, ⟨1, .loop, [⟨1, .breakLoop⟩, ⟨1, .continueLoop⟩]⟩]⟩
  let right : Graph := ⟨[⟨0, .start, []⟩, ⟨1, .loop, [⟨1, .continueLoop⟩, ⟨1, .breakLoop⟩]⟩]⟩
  have leftFaultless : left.fault? = none := by decide
  have rightFaultless : right.fault? = none := by decide
  refine ⟨left, right, leftFaultless, rightFaultless, fun same => ?_⟩
  have equal := (dot_tells_all leftFaultless).2.2.2 right rightFaultless same
  exact absurd equal (by decide)

end Graph

end TapeFlow
