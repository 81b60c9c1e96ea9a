import TapeFlow.Proofs.FirstFault

namespace TapeFlow

/-! Which blocks are open at a place of a token list, by counting alone. A block stays open as long as
the count of open blocks stays above what it was in front of its opener, so the blocks that are open at
the next place are told by the count there. -/

def Token.block? : Token → Option BlockKind
  | .branch _ => some .branch
  | .loop => some .loop
  | _ => none

theorem Token.weight_of_block? {token : Token} {kind : BlockKind} (opens : token.block? = some kind) :
    token.weight = 1 := by
  cases token with
  | branch symbol => rfl
  | loop => rfl
  | _ => cases opens

/-- The kind of the block that the token at a place opens. -/
def blockAt? (tokens : List Token) (place : Nat) : Option BlockKind :=
  tokens[place]?.bind Token.block?

/-- The block that the token at `opener` opens is open in front of the token at `place`. -/
def OpenAt (tokens : List Token) (opener place : Nat) : Prop :=
  opener < place ∧ ∀ later ≤ place, opener < later → depth tokens opener < depth tokens later

instance (tokens : List Token) (opener place : Nat) : Decidable (OpenAt tokens opener place) :=
  inferInstanceAs (Decidable (opener < place ∧
    ∀ later ≤ place, opener < later → depth tokens opener < depth tokens later))

/-- The openers of the blocks that are open at a place, innermost first. -/
def openBlocks (tokens : List Token) (place : Nat) : List Nat :=
  (List.range place).reverse.filter (OpenAt tokens · place)

/-- The opener of the innermost loop that is open at a place. -/
def enclosingLoop? (tokens : List Token) (place : Nat) : Option Nat :=
  (openBlocks tokens place).find? (blockAt? tokens · = some .loop)

/-- The token at `place` is inside the block that the token at `opener` opens. -/
def InBody (tokens : List Token) (opener place : Nat) : Prop :=
  opener < place ∧ OpenAt tokens opener (place + 1)

instance (tokens : List Token) (opener place : Nat) : Decidable (InBody tokens opener place) :=
  inferInstanceAs (Decidable (opener < place ∧ OpenAt tokens opener (place + 1)))

/-- The block has a token that does more than leave. -/
def Filled (tokens : List Token) (opener : Nat) : Prop :=
  ∃ place < endPlace tokens, InBody tokens opener place ∧ tokens[place]? ≠ some .leave

instance (tokens : List Token) (opener : Nat) : Decidable (Filled tokens opener) :=
  inferInstanceAs (Decidable (∃ place < endPlace tokens,
    InBody tokens opener place ∧ tokens[place]? ≠ some .leave))

variable {tokens : List Token} {token : Token} {opener place : Nat}

theorem blockAt?_of_getElem? (found : tokens[place]? = some token) :
    blockAt? tokens place = token.block? := by
  rw [blockAt?, found, Option.bind_some]

theorem openAt_succ (before : opener < place) :
    OpenAt tokens opener (place + 1) ↔
      OpenAt tokens opener place ∧ depth tokens opener < depth tokens (place + 1) := by
  constructor
  · intro ⟨_, above⟩
    refine ⟨⟨before, ?_⟩, above _ (Nat.le_refl _) (by omega)⟩
    intro later reached after
    exact above later (by omega) after
  · intro ⟨⟨_, above⟩, here⟩
    refine ⟨by omega, ?_⟩
    intro later reached after
    rcases Nat.le_succ_iff.mp reached with reached | rfl
    · exact above later reached after
    · exact here

theorem openAt_self_succ :
    OpenAt tokens place (place + 1) ↔ depth tokens place < depth tokens (place + 1) := by
  constructor
  · intro ⟨_, above⟩
    exact above _ (Nat.le_refl _) (Nat.lt_succ_self _)
  · intro here
    refine ⟨Nat.lt_succ_self _, ?_⟩
    intro later reached after
    obtain rfl : later = place + 1 := by omega
    exact here

theorem OpenAt.depth_lt (opened : OpenAt tokens opener place) :
    depth tokens opener < depth tokens place :=
  opened.2 place (Nat.le_refl _) opened.1

theorem mem_openBlocks : opener ∈ openBlocks tokens place ↔ OpenAt tokens opener place := by
  simp only [openBlocks, List.mem_filter, List.mem_reverse, List.mem_range, decide_eq_true_eq,
    and_iff_right_iff_imp]
  exact And.left

/-- Inner blocks are opened behind outer ones. -/
theorem openBlocks_descending (tokens : List Token) (place : Nat) :
    (openBlocks tokens place).Pairwise (· > ·) :=
  (List.pairwise_reverse.mpr List.pairwise_lt_range).filter _

theorem openBlocks_succ (tokens : List Token) (place : Nat) :
    openBlocks tokens (place + 1) =
      (if depth tokens place < depth tokens (place + 1) then [place] else []) ++
        (openBlocks tokens place).filter (depth tokens · < depth tokens (place + 1)) := by
  have older : (List.range place).reverse.filter (OpenAt tokens · (place + 1)) =
      (openBlocks tokens place).filter (depth tokens · < depth tokens (place + 1)) := by
    rw [openBlocks, List.filter_filter]
    apply List.filter_congr
    intro opener member
    have before : opener < place := by simpa using member
    simp [openAt_succ before, Bool.and_comm]
  rw [openBlocks, List.range_succ, List.reverse_append, List.reverse_singleton,
    List.singleton_append, List.filter_cons, older]
  by_cases opens : depth tokens place < depth tokens (place + 1)
  · simp [openAt_self_succ, opens]
  · simp [openAt_self_succ, opens]

/-- A token that closes nothing leaves every block open. -/
theorem filter_openBlocks_eq_self (atLeast : depth tokens place ≤ depth tokens (place + 1)) :
    (openBlocks tokens place).filter (depth tokens · < depth tokens (place + 1)) =
      openBlocks tokens place := by
  rw [List.filter_eq_self]
  intro opener member
  have below := (mem_openBlocks.mp member).depth_lt
  exact decide_eq_true (by omega)

theorem openBlocks_opening (found : tokens[place]? = some token) (opens : token.weight = 1) :
    openBlocks tokens (place + 1) = place :: openBlocks tokens place := by
  have level := depth_succ found
  rw [openBlocks_succ, filter_openBlocks_eq_self (by omega), if_pos (by omega)]
  rfl

theorem openBlocks_keeping (found : tokens[place]? = some token) (keeps : token.weight = 0) :
    openBlocks tokens (place + 1) = openBlocks tokens place := by
  have level := depth_succ found
  rw [openBlocks_succ, filter_openBlocks_eq_self (by omega), if_neg (by omega)]
  rfl

theorem openBlocks_closing {outer : List Nat} (found : tokens[place]? = some .close)
    (innermost : openBlocks tokens place = opener :: outer)
    (level : depth tokens place = depth tokens opener + 1) :
    openBlocks tokens (place + 1) = outer := by
  have closes : depth tokens (place + 1) = depth tokens place + -1 := depth_succ found
  have opened : OpenAt tokens opener place := mem_openBlocks.mp (by simp [innermost])
  rw [openBlocks_succ, if_neg (by omega), List.nil_append, innermost,
    List.filter_cons_of_neg (by simp; omega), List.filter_eq_self]
  intro other member
  have stillOpen : OpenAt tokens other place := mem_openBlocks.mp (by simp [innermost, member])
  have descending := openBlocks_descending tokens place
  rw [innermost, List.pairwise_cons] at descending
  have below := stillOpen.2 opener (Nat.le_of_lt opened.1) (descending.1 other member)
  exact decide_eq_true (by omega)

/-- At the closer of a block its body is all that is behind its opener. -/
theorem filled_iff_of_closing (reached : place < endPlace tokens)
    (opened : OpenAt tokens opener place)
    (closes : depth tokens (place + 1) = depth tokens opener) :
    Filled tokens opener ↔
      ∃ inner, opener < inner ∧ inner < place ∧ tokens[inner]? ≠ some .leave := by
  constructor
  · intro ⟨inner, _, ⟨behind, body⟩, other⟩
    refine ⟨inner, behind, Nat.lt_of_not_le ?_, other⟩
    intro past
    have above := body.2 (place + 1) (by omega) (Nat.lt_succ_of_lt opened.1)
    omega
  · intro ⟨inner, behind, before, other⟩
    refine ⟨inner, by omega, ⟨behind, by omega, ?_⟩, other⟩
    intro later reached after
    exact opened.2 later (by omega) after

end TapeFlow
