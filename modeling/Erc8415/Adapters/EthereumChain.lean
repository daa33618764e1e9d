import Erc8415.Projection.Ports

/-! # The Ethereum adapter

The same port over a finalized head and the application roots read at it. Its
`advanceHeight` checks that the height moves forward and throws when it does
not.
-/

namespace Erc8415

structure EthereumChain where
  hashes : InsertionMap String String
  roots : InsertionMap String String
  heights : Heights
  finalizedHeight : Int
  deriving DecidableEq

namespace EthereumChain

structure Options where
  chainId : Int
  contract : String

/-- `new EthereumChainAdapter(options)`. -/
def new : EthereumChain := ⟨InsertionMap.empty, InsertionMap.empty, InsertionMap.empty, 0⟩

def isFinalized (a : EthereumChain) (height : Int) : Bool :=
  height > 0 && height ≤ a.finalizedHeight

def stateRootAt (a : EthereumChain) (height : Int) : Option String := a.roots.get (toString height)

def acceptedHeight (a : EthereumChain) (tokenId : Int) : Int := a.heights.accepted tokenId

def advanceHeight (a : EthereumChain) (tokenId height : Int) : Except String EthereumChain :=
  let current := a.acceptedHeight tokenId
  if height ≤ current then .error s!"accepted height must advance: {height} <= {current}"
  else .ok { a with heights := a.heights.set (toString tokenId) height }

/-- The Ethereum adapter behind the port. -/
def adapter (options : Options) : RemoteChainAdapter EthereumChain where
  chainId := options.chainId
  contract := options.contract
  isFinalized := isFinalized
  stateRootAt := stateRootAt
  acceptedHeight := acceptedHeight
  advanceHeight := advanceHeight
  advances a tokenId height h :=
    ⟨_, if_neg (Int.not_le.mpr h), Heights.accepted_set a.heights tokenId height⟩
  advance_frame a tokenId height a' h := by
    simp only [advanceHeight] at h
    split at h
    · cases h
    · cases h
      exact ⟨rfl, rfl⟩

/-- A height that does not advance is refused. -/
theorem advanceHeight_of_le {a : EthereumChain} {tokenId height : Int}
    (h : height ≤ a.acceptedHeight tokenId) :
    a.advanceHeight tokenId height =
      .error s!"accepted height must advance: {height} <= {a.acceptedHeight tokenId}" :=
  if_pos h

end EthereumChain

end Erc8415
