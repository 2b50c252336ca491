import Zcoin.Lelantus.Rebuild
import Zcoin.Validation.ConnectBlock
import Zcoin.Wallet.JoinSplitBuilder
import Zcoin.Mempool.Runs
import Zcoin.Evo.Payment
import Zcoin.Evo.ManagerRuns
import Zcoin.Sigma.Reorg
import Zcoin.Elysium.Fundraiser
import Zcoin.Evo.MempoolSpork
import Zcoin.Elysium.PopBlock
import Zcoin.Elysium.SigmaRuns
import Zcoin.Elysium.RoundTrip
import Zcoin.Elysium.FeeRollback
import Zcoin.Elysium.FeeDistribution
import Zcoin.Elysium.Freezing
import Zcoin.Elysium.TradeOffer
import Zcoin.Llmq.DKGMessages
import Zcoin.Llmq.ChainLocks
import Zcoin.Bls.ContributionVerifier
import Zcoin.Llmq.Signing
import Zcoin.Llmq.MinedCommitments
import Zcoin.Evo.ProviderTx
import Zcoin.Validation.TotalSupply
import Zcoin.Mtp.MerkleTree
import Zcoin.Evo.BlockReward
import Zcoin.Wallet.MintCounter
import Zcoin.Elysium.MetaDExShutdown
import Zcoin.Elysium.Denominations
import Zcoin.Llmq.QuorumConnections
import Zcoin.Elysium.TradeList
