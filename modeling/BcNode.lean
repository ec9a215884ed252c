import BcNode.Bc.BlockPool
import BcNode.Bc.BlockRules
import BcNode.Bc.Digests
import BcNode.Bc.HeaderTops
import BcNode.Engine.ChainSync
import BcNode.Engine.ForkChoice
import BcNode.Engine.Gossip
import BcNode.Engine.Helper
import BcNode.Engine.Init
import BcNode.Engine.Integrity
import BcNode.Engine.Linkage
import BcNode.Engine.MinedBlocks
import BcNode.Engine.MultiverseProof
import BcNode.Engine.Peers
import BcNode.Engine.ProveTwo
import BcNode.Engine.StepSync
import BcNode.Engine.StoreHeight
import BcNode.Mining.Readiness
import BcNode.Mining.Rebase
import BcNode.Mining.Templates
import BcNode.Mining.WorkerPool
import BcNode.Native.Miner
import BcNode.P2p.Broadcast
import BcNode.P2p.HeadersRpc
import BcNode.P2p.Manager
import BcNode.P2p.Stream
import BcNode.Persistence.Balance
import BcNode.Persistence.ChildHeaders
import BcNode.Persistence.Codec
import BcNode.Persistence.ForcedHeaders
import BcNode.Rover.BtcController
import BcNode.Rover.Controller
import BcNode.Rover.EthNetwork
import BcNode.Rpc.CollectBlock
