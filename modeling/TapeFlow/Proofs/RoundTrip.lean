import TapeFlow.Compile
import TapeFlow.Proofs.Lexing
import TapeFlow.Proofs.Reading
import TapeFlow.Proofs.Validity

namespace TapeFlow

/-! A graph is read back from its document: each reader takes what is written for a value of its type.
Numbers that do not fit in a word are read as something else, so they are left out. -/

/-- A graph whose numbers are those of machine words. -/
def Graph.FitsWords (graph : Graph) : Prop :=
  ∀ node ∈ graph.nodes, node.id < Json.wordSize ∧ ∀ edge ∈ node.edges, edge.target < Json.wordSize

namespace Json.Reader

variable {depth : Nat} {text : Text}

theorem plain_instruction (instruction : Instruction) : Plain instruction.label := by
  have all : ∀ instruction ∈ Instruction.all, Plain instruction.label := by decide
  exact all instruction instruction.mem_all

theorem plain_condition (condition : Condition) : Plain condition.label := by
  have all : ∀ condition ∈ Condition.all, Plain condition.label := by decide
  exact all condition condition.mem_all

theorem instruction_reads (value : Instruction) :
    instruction.Reads value (plainString value.label) := by
  have known : ∀ value ∈ Instruction.all,
      Instruction.all.find? (·.label = value.label) = some value := by decide
  exact variant_reads (known value value.mem_all) (plain_instruction value)

theorem condition_reads (value : Condition) : condition.Reads value (plainString value.label) := by
  have known : ∀ value ∈ Condition.all,
      Condition.all.find? (·.label = value.label) = some value := by decide
  exact variant_reads (known value value.mem_all) (plain_condition value)

theorem edge_reads {value : Edge} (fits : value.target < wordSize) :
    edge.Reads value (value.toJson depth) := by
  intro gap rest blank _
  have target : (elementAt .edge 0 index).run (spread depth ']' true
        [Text.ofNat value.target, plainString value.condition.label] ++ rest) =
      .ok (value.target, spread depth ']' false [plainString value.condition.label] ++ rest) :=
    run_elementAt_spread (index_reads fits) (opens_ofNat _) rest
  have reason : (elementAt .edge 1 condition).run
        (spread depth ']' false [plainString value.condition.label] ++ rest) =
      .ok (value.condition, spread depth ']' false [] ++ rest) :=
    run_elementAt_spread (condition_reads _) (opens_plainString _) rest
  rw [Edge.toJson, array, block_cons, List.cons_append, edge,
    run_bind (run_peekPart? blank (by decide) _)]
  split
  · cases ‹some '[' = none›
  · rw [run_bind (run_drop _ _), run_bind target, run_bind reason, run_bind (run_endList_spread rest)]
    rfl
  · rename_i other same
    exact absurd (Option.some.inj same).symm other

theorem opens_edge (edge : Edge) : Opens (edge.toJson depth) := by
  rw [Edge.toJson, array]
  exact opens_block (by decide) (by decide) _ _ _

/-- An object of members that are taken in one by one. -/
theorem run_object {σ α : Type} {shape : Shape} {take : Text → σ → Reader σ} {fields last : σ}
    {finish : σ → Reader α} {asList : Reader α} {items : List Text} {gap : Text}
    (fills : Fills take fields items last) (nonempty : items ≠ [])
    (blank : ∀ c ∈ gap, isGap c = true) (rest : Text) :
    (record shape (do finish (← members take true fields (← get))) asList).run
        (gap ++ (object depth items ++ rest)) = (finish last).run rest := by
  obtain ⟨item, more, rfl⟩ := List.exists_cons_of_ne_nil nonempty
  have enough : (item :: more).length < (spread depth '\x7d' true (item :: more) ++ rest).length := by
    rw [List.length_append]
    exact Nat.lt_add_right _ (length_lt_spread depth '\x7d' true (item :: more))
  have here : (get : Reader Text).run (spread depth '\x7d' true (item :: more) ++ rest) =
      .ok (spread depth '\x7d' true (item :: more) ++ rest,
        spread depth '\x7d' true (item :: more) ++ rest) := rfl
  rw [object, block_cons, List.cons_append, run_record blank, run_bind here,
    run_bind (fills.run_members enough rest)]

theorem node_reads {value : Node} (fits : value.id < wordSize)
    (fitEdges : ∀ edge ∈ value.edges, edge.target < wordSize) :
    node.Reads value (value.toJson depth) := by
  intro gap rest blank _
  have edges : (list edge).Reads value.edges
      (array (depth + 1) (value.edges.map (Edge.toJson (depth + 2)))) :=
    list_reads (fun edge member => edge_reads (fitEdges edge member)) fun edge _ => opens_edge edge
  -- The members are read in the order in which they are written, so each finds its field empty and
  -- those in front of it filled.
  have idTaken : ∀ rest, Stops rest →
      (nodeMember "id".toList {}).run (": ".toList ++ (Text.ofNat value.id ++ rest)) =
        .ok (⟨some value.id, none, none⟩, rest) := by
    intro rest stops
    rw [nodeMember, if_pos rfl, Option.isSome_none, run_bind (run_field (index_reads fits) stops)]
    rfl
  have instructionTaken : ∀ rest, Stops rest →
      (nodeMember "inst".toList ⟨some value.id, none, none⟩).run
          (": ".toList ++ (plainString value.instruction.label ++ rest)) =
        .ok (⟨some value.id, some value.instruction, none⟩, rest) := by
    intro rest stops
    rw [nodeMember, if_neg (by decide), if_pos rfl, Option.isSome_none,
      run_bind (run_field (instruction_reads value.instruction) stops)]
    rfl
  have edgesTaken : ∀ rest, Stops rest →
      (nodeMember "edges".toList ⟨some value.id, some value.instruction, none⟩).run
          (": ".toList ++
            (array (depth + 1) (value.edges.map (Edge.toJson (depth + 2))) ++ rest)) =
        .ok (⟨some value.id, some value.instruction, some value.edges⟩, rest) := by
    intro rest stops
    rw [nodeMember, if_neg (by decide), if_neg (by decide), if_pos rfl, Option.isSome_none,
      run_bind (run_field edges stops)]
    rfl
  have plain : Plain "id".toList ∧ Plain "inst".toList ∧ Plain "edges".toList := by
    decide
  have fills := Fills.next plain.1 idTaken <| .next plain.2.1 instructionTaken <|
    .next plain.2.2 edgesTaken .done
  exact run_object fills (by simp) blank rest

theorem opens_node (node : Node) : Opens (node.toJson depth) := by
  rw [Node.toJson, object]
  exact opens_block (by decide) (by decide) _ _ _

theorem graph_reads {value : Graph} (fits : value.FitsWords) : graph.Reads value value.toJson := by
  intro gap rest blank _
  have nodes : (list node).Reads value.nodes (array 1 (value.nodes.map (Node.toJson 2))) :=
    list_reads (fun node member => node_reads (fits node member).1 (fits node member).2)
      fun node _ => opens_node node
  have fills : Fills graphMember none
      [member "nodes" (array 1 (value.nodes.map (Node.toJson 2)))] (some value.nodes) := by
    refine .next (by decide) ?_ .done
    intro rest stops
    rw [graphMember, if_pos rfl, Option.isSome_none, run_bind (run_field nodes stops)]
    rfl
  exact run_object fills (by simp) blank rest

end Json.Reader

namespace Graph

variable {graph : Graph}

theorem parseJson_toJson (fits : graph.FitsWords) : parseJson graph.toJson = .ok graph := by
  have read := (Json.Reader.graph_reads fits).run (show Json.Stops [] by simp [Json.Stops])
  rw [List.append_nil] at read
  rw [parseJson, Json.Reader.readAll, read]
  rfl

theorem ofJson_toJson (fits : graph.FitsWords) (faultless : graph.fault? = none) :
    ofJson graph.toJson = .ok graph := by
  simp only [ofJson, parseJson_toJson fits, faultless]

theorem ofJson_toJson_of_fault {fault : Fault} (fits : graph.FitsWords)
    (found : graph.fault? = some fault) : ofJson graph.toJson = .error (.faulty fault) := by
  simp only [ofJson, parseJson_toJson fits, found]

theorem Valid.fitsWords (valid : graph.Valid) (small : graph.size ≤ Json.wordSize) :
    graph.FitsWords := by
  intro node member
  obtain ⟨place, bound, rfl⟩ := List.getElem_of_mem member
  have found : graph.node? place = some graph.nodes[place] := List.getElem?_eq_getElem bound
  have number := valid.numbered place _ found
  refine ⟨?_, ?_⟩
  · rw [number]
    exact Nat.lt_of_lt_of_le bound small
  · intro edge inside
    have target := valid.target_lt _ edge (mem_edges.mpr ⟨_, member, rfl, inside⟩)
    exact Nat.lt_of_lt_of_le target small

end Graph

/-- The graph of a program that can be numbered by words is read back from its document. -/
theorem ofJson_toJson_of_build {tokens : List Token} {graph : Graph}
    (short : tokens.length < Json.wordSize) (built : build tokens = .ok graph) :
    Graph.ofJson graph.toJson = .ok graph := by
  have valid := valid_of_build built
  have fits := valid.fitsWords ((size_le_of_build built).trans short)
  exact Graph.ofJson_toJson fits (Graph.fault?_eq_none_iff.mpr valid)

/-- Documents hold all of a graph. Reading one gives the graph that was written, or names its fault
if it has one; what is built from a program has none. -/
theorem json_round_trip :
    (∀ graph : Graph, graph.FitsWords → Graph.parseJson graph.toJson = .ok graph ∧
      (graph.fault? = none → Graph.ofJson graph.toJson = .ok graph) ∧
      ∀ fault, graph.fault? = some fault → Graph.ofJson graph.toJson = .error (.faulty fault)) ∧
    (∀ tokens graph, tokens.length < Json.wordSize → build tokens = .ok graph →
      Graph.ofJson graph.toJson = .ok graph) ∧
    ∀ text graph, text.length < Json.wordSize → compile text = .ok graph →
      Graph.ofJson graph.toJson = .ok graph := by
  refine ⟨?_, ?_, ?_⟩
  · intro graph fits
    exact ⟨graph.parseJson_toJson fits, graph.ofJson_toJson fits,
      fun fault found => graph.ofJson_toJson_of_fault fits found⟩
  · intro tokens graph short built
    exact ofJson_toJson_of_build short built
  · intro text graph short compiled
    exact ofJson_toJson_of_build ((length_tokenize_le text).trans_lt short) compiled

theorem json_round_trip_of_last_word :
    Graph.ofJson (Graph.toJson ⟨[⟨0, .start, [⟨Json.wordSize - 1, .always⟩]⟩, ⟨1, .write .one, []⟩]⟩) =
        .error (.faulty (.dangling 0 (Json.wordSize - 1))) ∧
      ∃ graph, compile "boucle si(0) G \x7d fin\x7d D #".toList = .ok graph ∧
        Graph.ofJson graph.toJson = .ok graph := by
  have fits : Graph.FitsWords ⟨[⟨0, .start, [⟨Json.wordSize - 1, .always⟩]⟩, ⟨1, .write .one, []⟩]⟩ := by
    simp [Graph.FitsWords, Json.wordSize]
  have tokens : tokenize "boucle si(0) G \x7d fin\x7d D #".toList =
      [.loop, .branch .zero, .moveLeft, .close, .leave, .close, .moveRight, .endOfFile] := by
    decide +kernel
  have built : build
      [.loop, .branch .zero, .moveLeft, .close, .leave, .close, .moveRight, .endOfFile] = .ok _ := rfl
  have compiled := (congrArg build tokens).trans built
  exact ⟨(json_round_trip.1 _ fits).2.2 _ (by decide), _, compiled,
    json_round_trip.2.2 _ _ (by decide) compiled⟩

end TapeFlow
