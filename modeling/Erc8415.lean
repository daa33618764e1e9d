import Erc8415.Adapters.EthereumAbi
import Erc8415.Adapters.PinnedReads
import Erc8415.Adapters.Refresh
import Erc8415.Api.AllOrNothing
import Erc8415.Api.Isolation
import Erc8415.Api.RequestCounts
import Erc8415.Api.Transport
import Erc8415.Console.Outline
import Erc8415.Contracts.Announcements
import Erc8415.Contracts.AttestationProofVerifier
import Erc8415.Contracts.EngineRefinement
import Erc8415.Contracts.ExactResolution
import Erc8415.Contracts.GapWindows
import Erc8415.Contracts.KernelEquivalence
import Erc8415.Contracts.ProvedHistory
import Erc8415.Contracts.RecordDateClaim
import Erc8415.Ops.Archive
import Erc8415.Persistence.BoundIdentity
import Erc8415.Persistence.FailedAppends
import Erc8415.Persistence.Lifetimes
import Erc8415.Persistence.RestoreAgain
import Erc8415.Persistence.ServiceCrashes
import Erc8415.Persistence.ServiceReplay
import Erc8415.Persistence.SettlementRecords
import Erc8415.Persistence.Tampering
import Erc8415.Projection.Atomicity
import Erc8415.Projection.GapRecords
import Erc8415.Projection.Representation
import Erc8415.Proof.Encodings
import Erc8415.Proof.MerkleTree
import Erc8415.Sdk.KeyedReads
import Erc8415.Sdk.PagedHistory
import Erc8415.Sdk.PythonReads
import Erc8415.Settlement.CommittedAdmissions
import Erc8415.Settlement.Progress
import Erc8415.Settlement.RefreshedAdmissions
import Erc8415.Settlement.Relaying
import Erc8415.Settlement.SingleUse
import Erc8415.Settlement.StateMachine
import Erc8415.Settlement.TokenIndependence
