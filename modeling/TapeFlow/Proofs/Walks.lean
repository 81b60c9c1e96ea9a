import Mathlib.Logic.Relation
import TapeFlow.Graph

namespace TapeFlow.Graph

/-! Walks along the edges of a graph. Where the edges to larger numbers make a tree and every other
edge leads up in it, a node dominates all that is below it, and the smallest node of a cycle
dominates the cycle. -/

variable {graph larger : Graph} {first last id head source target : Nat} {visited cycle : List Nat}

def Leads (graph : Graph) (source target : Nat) : Prop :=
  ∃ condition, (source, ⟨target, condition⟩) ∈ graph.edges

/-- A walk from the first to the last of the nodes that it visits. -/
inductive Walk (graph : Graph) (first : Nat) : List Nat → Nat → Prop
  | stay : Walk graph first [first] first
  | onward {visited : List Nat} {last next : Nat} (walk : Walk graph first visited last)
      (leads : graph.Leads last next) : Walk graph first (visited ++ [next]) next

def Reaches (graph : Graph) (first last : Nat) : Prop :=
  ∃ visited, graph.Walk first visited last

/-- A walk that can go on to the node where it began. -/
def Cycle (graph : Graph) (visited : List Nat) : Prop :=
  ∃ first last, graph.Walk first visited last ∧ graph.Leads last first

/-- A node that every walk from the start to the other one visits. -/
def Dominates (graph : Graph) (id other : Nat) : Prop :=
  ∀ visited, graph.Walk 0 visited other → id ∈ visited

namespace Walk

theorem mono (walk : graph.Walk first visited last)
    (grows : ∀ source target, graph.Leads source target → larger.Leads source target) :
    larger.Walk first visited last := by
  induction walk with
  | stay => exact .stay
  | onward _ leads ih => exact .onward ih (grows _ _ leads)

theorem last_mem (walk : graph.Walk first visited last) : last ∈ visited := by
  cases walk <;> simp

theorem reaches_last (walk : graph.Walk first visited last) (member : id ∈ visited) :
    graph.Reaches id last := by
  induction walk with
  | stay =>
      cases List.mem_singleton.mp member
      exact ⟨_, .stay⟩
  | onward walk leads ih =>
      rcases List.mem_append.mp member with member | new
      · obtain ⟨after, rest⟩ := ih member
        exact ⟨_, rest.onward leads⟩
      · cases List.mem_singleton.mp new
        exact ⟨_, .stay⟩

/-- A walk comes to a node other than its first from a node that it has visited. -/
theorem entered (walk : graph.Walk first visited last) (member : id ∈ visited) :
    id = first ∨ ∃ source ∈ visited, graph.Leads source id := by
  induction walk with
  | stay => exact .inl (List.mem_singleton.mp member)
  | @onward visited last next walk leads ih =>
      rcases List.mem_append.mp member with member | new
      · rcases ih member with same | ⟨source, inside, leads⟩
        · exact .inl same
        · exact .inr ⟨source, List.mem_append_left _ inside, leads⟩
      · cases List.mem_singleton.mp new
        exact .inr ⟨last, List.mem_append_left _ walk.last_mem, leads⟩

theorem exists_least (walk : graph.Walk first visited last) :
    ∃ head ∈ visited, ∀ id ∈ visited, head ≤ id := by
  induction walk with
  | stay => exact ⟨first, by simp, by simp⟩
  | @onward visited last next _ _ ih =>
      obtain ⟨head, member, least⟩ := ih
      by_cases below : head ≤ next
      · refine ⟨head, List.mem_append_left _ member, ?_⟩
        simpa [or_imp, forall_and] using ⟨least, below⟩
      · refine ⟨next, by simp, ?_⟩
        have under : ∀ id ∈ visited, next ≤ id := by
          intro id inside
          have above := least id inside
          omega
        simpa [or_imp, forall_and] using under

end Walk

section Tree

def Parent (graph : Graph) (parent child : Nat) : Prop :=
  parent < child ∧ graph.Leads parent child

def Above (graph : Graph) : Nat → Nat → Prop :=
  Relation.ReflTransGen graph.Parent

theorem Above.mono (above : graph.Above id last)
    (grows : ∀ source target, graph.Leads source target → larger.Leads source target) :
    larger.Above id last := by
  induction above with
  | refl => exact .refl
  | tail _ parent ih => exact ih.tail ⟨parent.1, grows _ _ parent.2⟩

theorem Above.le (above : graph.Above id last) : id ≤ last := by
  induction above with
  | refl => exact Nat.le_refl _
  | tail _ parent ih => exact Nat.le_trans ih (Nat.le_of_lt parent.1)

/-- What is above a node is visited on every way to it: a step down comes from the parent, and a step
up keeps to what has been visited. -/
theorem Above.dominates (above : graph.Above id last)
    (oneParent : ∀ parent other child, graph.Parent parent child → graph.Parent other child →
      parent = other)
    (returns : ∀ source target, graph.Leads source target → target ≤ source →
      graph.Above target source) : graph.Dominates id last := by
  intro visited walk
  induction walk with
  | stay =>
      have first := above.le
      exact List.mem_singleton.mpr (Nat.le_zero.mp first)
  | @onward visited last next walk leads ih =>
      by_cases behind : next ≤ last
      · exact List.mem_append_left _ (ih (above.trans (returns last next leads behind)))
      · rcases Relation.ReflTransGen.cases_tail above with same | ⟨parent, higher, child⟩
        · exact List.mem_append_right _ (List.mem_singleton.mpr same.symm)
        · have here : graph.Parent last next := ⟨Nat.lt_of_not_le behind, leads⟩
          cases oneParent parent last next child here
          exact List.mem_append_left _ (ih higher)

end Tree

section Cycles

-- An edge that does not lead to a larger number leads to a dominator of its source.
variable (returns : ∀ source target, graph.Leads source target → target ≤ source →
  graph.Dominates target source)

include returns

theorem Dominates.back (dominates : graph.Dominates head target)
    (leads : graph.Leads source target) (least : head ≤ source) : graph.Dominates head source := by
  intro visited walk
  rcases List.mem_append.mp (dominates _ (walk.onward leads)) with member | new
  · exact member
  · cases List.mem_singleton.mp new
    exact returns source head leads least visited walk

theorem Walk.dominates_first (walk : graph.Walk first visited last)
    (least : ∀ id ∈ visited, head ≤ id) (member : id ∈ visited)
    (dominates : graph.Dominates head id) : graph.Dominates head first := by
  induction walk generalizing id with
  | stay =>
      cases List.mem_singleton.mp member
      exact dominates
  | onward walk leads ih =>
      have before := fun id inside => least id (List.mem_append_left _ inside)
      rcases List.mem_append.mp member with member | new
      · exact ih before member dominates
      · cases List.mem_singleton.mp new
        exact ih before walk.last_mem (dominates.back returns leads (before _ walk.last_mem))

theorem Walk.dominates_all (walk : graph.Walk first visited last)
    (least : ∀ id ∈ visited, head ≤ id) (dominates : graph.Dominates head last) :
    ∀ id ∈ visited, graph.Dominates head id := by
  induction walk with
  | stay =>
      intro id member
      cases List.mem_singleton.mp member
      exact dominates
  | onward walk leads ih =>
      have before := fun id inside => least id (List.mem_append_left _ inside)
      intro id member
      rcases List.mem_append.mp member with member | new
      · exact ih before (dominates.back returns leads (before _ walk.last_mem)) id member
      · cases List.mem_singleton.mp new
        exact dominates

/-- The smallest node of a cycle dominates it, and the cycle comes back to it from no smaller one. -/
theorem Cycle.exists_head (isCycle : graph.Cycle cycle) :
    ∃ head ∈ cycle, (∀ id ∈ cycle, head ≤ id) ∧
      (∃ source ∈ cycle, graph.Leads source head ∧ head ≤ source) ∧
      ∀ id ∈ cycle, graph.Dominates head id := by
  obtain ⟨first, last, walk, closes⟩ := isCycle
  obtain ⟨head, member, least⟩ := walk.exists_least
  have itself : graph.Dominates head head := fun _ walk => walk.last_mem
  have atLast : graph.Dominates head last :=
    (walk.dominates_first returns least member itself).back returns closes
      (least last walk.last_mem)
  refine ⟨head, member, least, ?_, walk.dominates_all returns least atLast⟩
  rcases walk.entered member with rfl | ⟨source, inside, leads⟩
  · exact ⟨last, walk.last_mem, closes, least last walk.last_mem⟩
  · exact ⟨source, inside, leads, least source inside⟩

end Cycles

/-- A walk from the start meets what a node dominates at that node first. -/
theorem Walk.find?_eq (walk : graph.Walk 0 visited last) (onCycle : head ∈ cycle)
    (dominates : ∀ id ∈ cycle, graph.Dominates head id) (meets : ∃ id ∈ visited, id ∈ cycle) :
    visited.find? (· ∈ cycle) = some head := by
  induction walk with
  | stay =>
      obtain ⟨id, member, inside⟩ := meets
      cases List.mem_singleton.mp member
      cases List.mem_singleton.mp (dominates 0 inside _ .stay)
      simp [inside]
  | @onward visited last next walk leads ih =>
      rw [List.find?_append]
      by_cases met : ∃ id ∈ visited, id ∈ cycle
      · rw [ih met]
        rfl
      · have none : visited.find? (· ∈ cycle) = none := by
          simpa using met
        obtain ⟨id, member, inside⟩ := meets
        have new : id = next := by
          rcases List.mem_append.mp member with member | new
          · exact absurd ⟨id, member, inside⟩ met
          · exact List.mem_singleton.mp new
        subst new
        rcases List.mem_append.mp (dominates id inside _ (walk.onward leads)) with member | same
        · exact absurd ⟨head, member, onCycle⟩ met
        · cases List.mem_singleton.mp same
          simp [none, inside]

end TapeFlow.Graph
