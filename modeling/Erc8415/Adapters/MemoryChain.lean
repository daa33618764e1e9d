import Erc8415.Projection.Ports

/-! # The memory adapter

Stands in for a chain so admission and the temporal queries can run without
one. Its `advanceHeight` is a plain setter.
-/

namespace Erc8415

structure MemoryChain where
  finalizedThrough : Int
  heights : Heights
  roots : InsertionMap String String
  deriving DecidableEq

namespace MemoryChain

structure Options where
  chainId : Int := 1
  contract : String := "0x1111111111111111111111111111111111111111"
  finalizedThrough : Int := 0x100000000

/-- `new MemoryChainAdapter(options)`. -/
def new (options : Options) : MemoryChain :=
  ⟨options.finalizedThrough, InsertionMap.empty, InsertionMap.empty⟩

def isFinalized (a : MemoryChain) (height : Int) : Bool :=
  height > 0 && height ≤ a.finalizedThrough

def stateRootAt (a : MemoryChain) (height : Int) : Option String := a.roots.get (toString height)

def setStateRoot (a : MemoryChain) (height : Int) (root : String) : MemoryChain :=
  { a with roots := a.roots.set (toString height) root }

def acceptedHeight (a : MemoryChain) (tokenId : Int) : Int := a.heights.accepted tokenId

def advanceHeight (a : MemoryChain) (tokenId height : Int) : Except String MemoryChain :=
  .ok { a with heights := a.heights.set (toString tokenId) height }

def setFinalizedThrough (a : MemoryChain) (height : Int) : MemoryChain :=
  { a with finalizedThrough := height }

/-- The memory adapter behind the port. -/
def adapter (options : Options) : RemoteChainAdapter MemoryChain where
  chainId := options.chainId
  contract := options.contract
  isFinalized := isFinalized
  stateRootAt := stateRootAt
  acceptedHeight := acceptedHeight
  advanceHeight := advanceHeight
  advances a tokenId height _ := ⟨_, rfl, Heights.accepted_set a.heights tokenId height⟩
  advance_frame a tokenId height a' h := by
    cases h
    exact ⟨rfl, rfl⟩

end MemoryChain

end Erc8415
