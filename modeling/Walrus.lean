import Walrus.Machine.Run
import Walrus.Machine.Count
import Walrus.Machine.VecMap
import Walrus.Core.Types
import Walrus.Node.BlobInfo
import Walrus.Node.BlobHistory
import Walrus.Node.BlobSim
import Walrus.Node.BlobInvariants
import Walrus.Contracts.BlsAggregate
import Walrus.Contracts.EventBlob
import Walrus.Contracts.EventBlobSafety
import Walrus.Contracts.Move
import Walrus.Machine.Ring
import Walrus.Contracts.StorageAccounting
import Walrus.Contracts.StorageAccountingSafety
import Walrus.Machine.Vector
import Walrus.Machine.InsertionSort
import Walrus.Machine.Heap
import Walrus.Staking.Apportionment
import Walrus.Staking.Dhondt
import Walrus.Staking.Committee
import Walrus.Core.Merkle
import Walrus.Machine.UInt
import Walrus.Encoding.Config
import Walrus.Contracts.Redstuff
import Walrus.Client.Certificate
import Walrus.Machine.Bitmap
import Walrus.Machine.Bcs
import Walrus.Core.Messages
import Walrus.Contracts.Messages
import Walrus.Node.BlobInfoTable
import Walrus.Contracts.BlobLifecycle
import Walrus.Machine.Slice
import Walrus.Encoding.Symbols
import Walrus.Encoding.BasicEncoding
import Walrus.Core.Metadata
import Walrus.Encoding.BlobEncoding
import Walrus.Encoding.ExpandedMatrix
import Walrus.Encoding.DirectEncoding
import Walrus.Encoding.MatrixEncoding
import Walrus.Encoding.Mapping
import Walrus.Staking.Transition
import Walrus.Staking.StakingPool
import Walrus.Staking.Voting
import Walrus.Contracts.SignerBitmap
import Walrus.Machine.Shares
import Walrus.Contracts.Rewards
import Walrus.Contracts.EpochBalance
import Walrus.Contracts.Subsidies
import Walrus.Contracts.SubsidiesRun
import Walrus.Staking.ActiveSet
import Walrus.Machine.BinarySearch
import Walrus.Encoding.QuiltUtils
import Walrus.Node.EventCursor
import Walrus.Encoding.QuiltColumns
import Walrus.Staking.QueueRuns
import Walrus.Encoding.QuiltDecode
import Walrus.Encoding.QuiltLayout
import Walrus.Machine.Select
import Walrus.Client.Resource
import Walrus.Machine.OrdMap
import Walrus.Node.EventBlobWriter
import Walrus.Node.EventBlobWriterSafety
import Walrus.Staking.PoolStake
import Walrus.Staking.PoolStakeSafety
import Walrus.Staking.EpochChange
import Walrus.Staking.EpochChangeSafety
import Walrus.Staking.PoolEpochs
import Walrus.Staking.VotingProgress
