import Erc8415.Foundation.BigIntText
import Erc8415.Foundation.InsertionMap
import Erc8415.Projection.Types

/-! # The chain port

The chain a register is projected from, behind one interface. An adapter is
given by its state and operations; the two laws are what admission relies on
when it advances a height it has just checked.
-/

namespace Erc8415

/-- The chain adapter over states `σ`. `advanceHeight` may throw, by message. -/
structure RemoteChainAdapter (σ : Type) where
  chainId : Int
  contract : String
  isFinalized : σ → Int → Bool
  stateRootAt : σ → Int → Option String
  acceptedHeight : σ → Int → Int
  advanceHeight : σ → Int → Int → Except String σ
  /-- A height above the accepted one is accepted, for that token alone. -/
  advances : ∀ a tokenId height, acceptedHeight a tokenId < height →
    ∃ a', advanceHeight a tokenId height = .ok a' ∧
      ∀ other, acceptedHeight a' other = if other = tokenId then height else acceptedHeight a other
  /-- Advancing a height moves neither the finalized frontier nor a root. -/
  advance_frame : ∀ a tokenId height a', advanceHeight a tokenId height = .ok a' →
    isFinalized a' = isFinalized a ∧ stateRootAt a' = stateRootAt a

/-- The heights an adapter keeps, keyed by the token's decimal text. -/
abbrev Heights := InsertionMap String Int

/-- `heights.get(tokenId.toString()) ?? 0n`. -/
def Heights.accepted (heights : Heights) (tokenId : Int) : Int :=
  (heights.get (toString tokenId)).getD 0

theorem Heights.accepted_set (heights : Heights) (tokenId height other : Int) :
    Heights.accepted (heights.set (toString tokenId) height) other =
      if other = tokenId then height else heights.accepted other := by
  unfold Heights.accepted
  by_cases h : other = tokenId
  · rw [if_pos h, h, InsertionMap.get_set_self]
    rfl
  · have hkey : toString tokenId ≠ toString other :=
      fun heq => h (BigIntText.toString_injective heq).symm
    rw [if_neg h, InsertionMap.get_set_of_ne hkey]

end Erc8415
