import Mathlib.Data.List.Forall2
import TapeFlow.Graph.Document
import TapeFlow.Proofs.Drawing
import TapeFlow.Proofs.RoundTrip

namespace TapeFlow

/-! Which fault a graph is told of. Three scans look for one: at the first node, along the nodes and
along the edges of one node after another. Each of them stops at the first fault that it meets, and it
is made only where the scans before it met none. -/

namespace Graph

def Starts (graph : Graph) : Prop :=
  ∃ node, graph.node? 0 = some node ∧ node.instruction = .start

/-- The first fault of a graph, told by what is right in front of it. -/
inductive FailsFirst (graph : Graph) : Fault → Prop where
  | missingStart (unstarted : ¬ graph.Starts) : FailsFirst graph .missingStart
  | misnumbered {position : Nat} {node : Node} (starts : graph.Starts)
      (found : graph.node? position = some node) (wrong : node.id ≠ position)
      (earlier : ∀ place < position, ∀ other, graph.node? place = some other → other.id = place) :
      FailsFirst graph (.misnumbered position node.id)
  | dangling {position : Nat} {node : Node} {before after : List Edge} {edge : Edge}
      (starts : graph.Starts) (numbered : graph.Numbered)
      (found : graph.node? position = some node) (held : node.edges = before ++ edge :: after)
      (wrong : graph.size ≤ edge.target) (inFront : ∀ other ∈ before, other.target < graph.size)
      (earlier : ∀ place < position, ∀ other, graph.node? place = some other →
        ∀ edge ∈ other.edges, edge.target < graph.size) :
      FailsFirst graph (.dangling position edge.target)

variable {graph : Graph} {position source : Nat} {node : Node} {edge : Edge} {fault : Fault}

theorem misnumbered?_eq_some_iff :
    graph.misnumbered? = some (node, position) ↔
      graph.node? position = some node ∧ node.id ≠ position ∧
        ∀ place < position, ∀ other, graph.node? place = some other → other.id = place := by
  rw [misnumbered?, List.find?_eq_some_iff_getElem]
  simp only [List.length_zipIdx, List.getElem_zipIdx, Nat.zero_add, Prod.mk.injEq,
    decide_eq_true_eq, ne_eq, Bool.not_eq_true', decide_eq_false_iff_not, not_not]
  constructor
  · intro given
    obtain ⟨wrong, place, inside, ⟨here, rfl⟩, earlier⟩ := given
    refine ⟨List.getElem?_eq_some_iff.mpr ⟨inside, here⟩, wrong, ?_⟩
    intro before less other found
    obtain ⟨_, rfl⟩ := List.getElem?_eq_some_iff.mp found
    exact earlier before less
  · intro given
    obtain ⟨found, wrong, earlier⟩ := given
    obtain ⟨inside, here⟩ := List.getElem?_eq_some_iff.mp found
    refine ⟨wrong, position, inside, ⟨here, rfl⟩, ?_⟩
    intro before less
    exact earlier before less _ (List.getElem?_eq_getElem (less.trans inside))

/-- The first edge of a node that leads past a bound. -/
theorem find?_past_eq_some_iff {bound : Nat} :
    ((node.edges.map fun edge => (node.id, edge)).find? fun (_, edge) => bound ≤ edge.target) =
        some (source, edge) ↔
      node.id = source ∧ bound ≤ edge.target ∧ ∃ before after,
        node.edges = before ++ edge :: after ∧ ∀ other ∈ before, other.target < bound := by
  rw [List.find?_map, Option.map_eq_some_iff]
  simp only [Prod.mk.injEq, List.find?_eq_some_iff_append, Function.comp_apply, decide_eq_true_eq,
    Bool.not_eq_true', decide_eq_false_iff_not, Nat.not_le]
  constructor
  · intro given
    obtain ⟨_, first, same, held⟩ := given
    exact ⟨same, held ▸ first⟩
  · intro given
    obtain ⟨same, first⟩ := given
    exact ⟨edge, first, same, rfl⟩

theorem find?_past_eq_none_iff {bound : Nat} :
    ((node.edges.map fun edge => (node.id, edge)).find? fun (_, edge) => bound ≤ edge.target) =
        none ↔ ∀ edge ∈ node.edges, edge.target < bound := by
  simp

theorem dangling?_eq_some_iff :
    graph.dangling? = some (source, edge) ↔
      ∃ position node, graph.node? position = some node ∧
        (node.id = source ∧ graph.size ≤ edge.target ∧ ∃ before after,
          node.edges = before ++ edge :: after ∧ ∀ other ∈ before, other.target < graph.size) ∧
        ∀ place < position, ∀ other, graph.node? place = some other →
          ∀ edge ∈ other.edges, edge.target < graph.size := by
  rw [dangling?, edges, List.find?_flatMap, List.findSome?_eq_some_iff]
  simp only [find?_past_eq_some_iff, find?_past_eq_none_iff]
  constructor
  · intro given
    obtain ⟨front, node, behind, split, first, earlier⟩ := given
    refine ⟨front.length, node, by simp [node?, split], first, ?_⟩
    intro place less other found
    rw [node?, split, List.getElem?_append_left less] at found
    exact earlier other (List.mem_of_getElem? found)
  · intro given
    obtain ⟨position, node, found, first, earlier⟩ := given
    obtain ⟨inside, rfl⟩ := List.getElem?_eq_some_iff.mp found
    refine ⟨graph.nodes.take position, _, graph.nodes.drop (position + 1), ?_, first, ?_⟩
    · rw [← List.drop_eq_getElem_cons inside, List.take_append_drop]
    · intro other member
      obtain ⟨place, less, rfl⟩ := List.mem_take_iff_getElem.mp member
      exact earlier place (by omega) _ (List.getElem?_eq_getElem (by omega))

theorem failsFirst_of_fault? (found : graph.fault? = some fault) : graph.FailsFirst fault := by
  unfold fault? at found
  split at found
  next unstarted =>
    cases found
    refine .missingStart fun starts => ?_
    simp [startsAtStart_iff.mpr starts] at unstarted
  next started =>
    have starts : graph.Starts := startsAtStart_iff.mp (by simpa using started)
    split at found
    next node position misnumbered =>
      cases found
      obtain ⟨here, wrong, earlier⟩ := misnumbered?_eq_some_iff.mp misnumbered
      exact .misnumbered starts here wrong earlier
    next wellNumbered =>
      have numbered := misnumbered?_eq_none_iff.mp wellNumbered
      obtain ⟨⟨source, edge⟩, dangling, rfl⟩ := Option.map_eq_some_iff.mp found
      obtain ⟨position, node, here, ⟨rfl, wrong, before, after, held, inFront⟩, earlier⟩ :=
        dangling?_eq_some_iff.mp dangling
      rw [numbered position node here]
      exact .dangling starts numbered here held wrong inFront earlier

theorem fault?_of_failsFirst (first : graph.FailsFirst fault) : graph.fault? = some fault := by
  cases first with
  | missingStart unstarted =>
      have none : graph.startsAtStart = false := by
        rw [← Bool.not_eq_true, startsAtStart_iff]
        exact unstarted
      simp [fault?, none]
  | misnumbered starts found wrong earlier =>
      have first := misnumbered?_eq_some_iff.mpr ⟨found, wrong, earlier⟩
      simp [fault?, startsAtStart_iff.mpr starts, first]
  | @dangling position node before after edge starts numbered found held wrong inFront earlier =>
      have id := numbered position node found
      have first : graph.dangling? = some (position, edge) :=
        dangling?_eq_some_iff.mpr
          ⟨position, node, found, ⟨id, wrong, before, after, held, inFront⟩, earlier⟩
      simp [fault?, startsAtStart_iff.mpr starts, misnumbered?_eq_none_iff.mpr numbered, first]

theorem fault?_eq_some_iff : graph.fault? = some fault ↔ graph.FailsFirst fault :=
  ⟨failsFirst_of_fault?, fault?_of_failsFirst⟩

theorem ofJson_eq_ok_iff {text : Text} :
    ofJson text = .ok graph ↔ parseJson text = .ok graph ∧ graph.Valid := by
  rw [← fault?_eq_none_iff, ofJson]
  cases parseJson text with
  | error reason => simp
  | ok read =>
      dsimp only
      cases faults : read.fault? with
      | some fault =>
          simp only [reduceCtorEq, Except.ok.injEq, false_iff, not_and]
          intro same
          simp [← same, faults]
      | none =>
          simp only [Except.ok.injEq, iff_self_and]
          intro same
          rw [← same, faults]

theorem ofJson_eq_faulty_iff {text : Text} :
    ofJson text = .error (.faulty fault) ↔
      ∃ graph, parseJson text = .ok graph ∧ graph.FailsFirst fault := by
  simp only [← fault?_eq_some_iff, ofJson]
  cases parseJson text with
  | error reason => simp
  | ok read =>
      dsimp only
      cases faults : read.fault? <;> simp [faults]

/-- A text is the statement of an edge, with the two nodes that it joins. -/
def Draws (graph : Graph) (entry : Nat × Edge) (text : Text) : Prop :=
  ∃ first second, graph.node? entry.1 = some first ∧ graph.node? entry.2.target = some second ∧
    text = Dot.edgeStatement first second entry.2.condition

theorem draws_of_edgeStatement? {entry : Nat × Edge} {text : Text}
    (stated : graph.edgeStatement? entry.1 entry.2 = some text) : graph.Draws entry text := by
  rw [edgeStatement?] at stated
  split at stated
  · rename_i first second foundFirst foundSecond
    exact ⟨first, second, foundFirst, foundSecond, (Option.some.inj stated).symm⟩
  · cases stated

/-- No edge of a graph without a fault is left out of its drawing. -/
theorem Valid.dot_eq (valid : graph.Valid) :
    ∃ texts : List Text,
      graph.edges.map (fun entry => graph.edgeStatement? entry.1 entry.2) = texts.map some ∧
      List.Forall₂ graph.Draws graph.edges texts ∧
      graph.dot = Dot.header ++ ((graph.nodes.filter graph.isolated).map Dot.nodeStatement).flatten ++
        texts.flatten ++ Dot.footer := by
  have stated : graph.edges.map (fun entry => graph.edgeStatement? entry.1 entry.2) =
      (graph.edges.filterMap fun entry => graph.edgeStatement? entry.1 entry.2).map some := by
    rw [List.map_filterMap]
    symm
    refine List.filterMap_eq_map_iff_forall_eq_some.mpr ?_
    intro entry member
    obtain ⟨first, second, _, _, _, _, drawn⟩ := valid.ends member
    rw [edgeStatement?_eq, drawn]
    rfl
  refine ⟨_, stated, ?_, rfl⟩
  rw [← List.forall₂_eq_eq_eq, List.forall₂_map_left_iff, List.forall₂_map_right_iff] at stated
  exact stated.imp fun _ _ => draws_of_edgeStatement?

theorem valid_iff :
    graph.Valid ↔ 0 < graph.size ∧ graph.Starts ∧ graph.Numbered ∧
      ∀ position node, graph.node? position = some node →
        ∀ edge ∈ node.edges, edge.target < graph.size := by
  constructor
  · intro valid
    obtain ⟨first, found, _⟩ := valid.start
    refine ⟨(List.getElem?_eq_some_iff.mp found).1, valid.start, valid.numbered, ?_⟩
    intro position node found edge inside
    exact valid.target_lt position edge (valid.numbered.mem_edges.mpr ⟨node, found, inside⟩)
  · intro given
    obtain ⟨_, starts, numbered, bounded⟩ := given
    refine ⟨starts, numbered, ?_⟩
    intro source edge member
    obtain ⟨node, found, inside⟩ := numbered.mem_edges.mp member
    exact bounded source node found edge inside

/-- A graph passes the check where it begins with a start, every node has its place for a number and
every edge leads to a node, and else it is told of its first fault. So a graph that is read from a
document has both ends of every edge, and all of its edges are drawn. -/
theorem check_finds_first_fault (graph : Graph) :
    (graph.fault? = none ↔ 0 < graph.size ∧ graph.Starts ∧
      (∀ position node, graph.node? position = some node → node.id = position) ∧
      ∀ position node, graph.node? position = some node →
        ∀ edge ∈ node.edges, edge.target < graph.size) ∧
    (∀ fault, graph.fault? = some fault ↔ graph.FailsFirst fault) ∧
    ∀ text, (∀ fault, ofJson text = .error (.faulty fault) ↔
        ∃ read, parseJson text = .ok read ∧ read.FailsFirst fault) ∧
      (ofJson text = .ok graph →
        (∀ source edge, (source, edge) ∈ graph.edges →
          ∃ first second, graph.node? source = some first ∧ edge ∈ first.edges ∧
            graph.node? edge.target = some second) ∧
        ∃ texts : List Text,
          graph.edges.map (fun entry => graph.edgeStatement? entry.1 entry.2) = texts.map some ∧
          List.Forall₂ graph.Draws graph.edges texts ∧
          graph.dot = Dot.header ++
            ((graph.nodes.filter graph.isolated).map Dot.nodeStatement).flatten ++
            texts.flatten ++ Dot.footer) := by
  refine ⟨fault?_eq_none_iff.trans valid_iff, fun _ => fault?_eq_some_iff, ?_⟩
  intro text
  refine ⟨fun _ => ofJson_eq_faulty_iff, ?_⟩
  intro read
  have valid := (ofJson_eq_ok_iff.mp read).2
  refine ⟨?_, valid.dot_eq⟩
  intro source edge member
  obtain ⟨first, foundFirst, inside⟩ := valid.numbered.mem_edges.mp member
  have foundSecond := List.getElem?_eq_getElem (valid.target_lt source edge member)
  exact ⟨first, _, foundFirst, inside, foundSecond⟩

/-- The second of three edges dangles in one graph. In the other an edge leads back and a node is
touched by none. -/
theorem check_finds_second_edge :
    FailsFirst ⟨[⟨0, .start, []⟩, ⟨1, .loop, [⟨0, .endLoop⟩, ⟨2, .always⟩, ⟨7, .breakLoop⟩]⟩]⟩
      (.dangling 1 2) ∧
    ∃ text graph, ofJson text = .ok graph ∧ graph.edges.length = 2 ∧
      ∀ source edge, (source, edge) ∈ graph.edges →
        ∃ first second, graph.node? source = some first ∧ edge ∈ first.edges ∧
          graph.node? edge.target = some second := by
  let graph : Graph :=
    ⟨[⟨0, .start, [⟨1, .always⟩]⟩, ⟨1, .loop, [⟨1, .continueLoop⟩]⟩, ⟨2, .pause, []⟩]⟩
  have fits : graph.FitsWords := by simp [graph, FitsWords, Json.wordSize]
  have read : ofJson graph.toJson = .ok graph := ofJson_toJson fits (by decide)
  refine ⟨((check_finds_first_fault _).2.1 _).mp (by decide), graph.toJson, graph, read, rfl, ?_⟩
  exact (((check_finds_first_fault graph).2.2 graph.toJson).2 read).1

end Graph

end TapeFlow
