import MutinyNet.Codec.LittleEndian
import MutinyNet.Codec.Reader
import MutinyNet.Codec.Accepted
import MutinyNet.Codec.Positional
import MutinyNet.Codec.Layout
import MutinyNet.Python.Integer
import MutinyNet.Floating.Binary64
import MutinyNet.Python.Number
import MutinyNet.Python.Text
import MutinyNet.Python.Format
import MutinyNet.Messages.Serialize
import MutinyNet.Messages.Transaction
import MutinyNet.Hashing.MerkleTree
import MutinyNet.Messages.TransactionId
import MutinyNet.Messages.Block
import MutinyNet.Messages.Validity
import MutinyNet.Messages.Script
import MutinyNet.Messages.ScriptNumber
import MutinyNet.Messages.Psbt
import MutinyNet.Messages.Truncation
import MutinyNet.Messages.Layout
import MutinyNet.Messages.NormalForm
import MutinyNet.Miner.Template
import MutinyNet.Miner.Assembly
import MutinyNet.Miner.CoinbaseScript
import MutinyNet.Miner.Handoff
import MutinyNet.Miner.Misreading
import MutinyNet.Miner.Finish
import MutinyNet.Miner.Verification
import MutinyNet.Miner.Binding
import MutinyNet.Miner.Consistency
import MutinyNet.Miner.Schedule
import MutinyNet.Miner.Double
import MutinyNet.Miner.Arguments
import MutinyNet.Miner.Validation
import MutinyNet.Miner.Reward
import MutinyNet.Miner.RewardCache
import MutinyNet.Transition.Driven
import MutinyNet.Miner.Loop
import MutinyNet.Miner.RunSafety
import MutinyNet.Miner.TipChange
import MutinyNet.Miner.Turns
import MutinyNet.Miner.Rounding
import MutinyNet.Miner.CompactTarget
import MutinyNet.Miner.ProofOfWork
import MutinyNet.Miner.Program
import MutinyNet.Miner.Counting
import MutinyNet.Miner.Polling
import MutinyNet.Miner.Acceptance
import MutinyNet.Miner.Retarget
import MutinyNet.Miner.VersionBits
import MutinyNet.Text.Infix
import MutinyNet.Files.Tree
import MutinyNet.Files.Walk
import MutinyNet.Spark.AccessLog
import MutinyNet.Shell.Script
import MutinyNet.Shell.Record
import MutinyNet.Shell.Processes
import MutinyNet.Shell.Guarantee
import MutinyNet.Spark.Reset
import MutinyNet.Spark.Entrypoint
import MutinyNet.Spark.Certificate
import MutinyNet.Spark.Identity
import MutinyNet.Spark.Rendezvous
import MutinyNet.Spark.Secrecy
import MutinyNet.Spark.Pubkeys
import MutinyNet.Dialogue.Client
import MutinyNet.Spark.FundSsp
import MutinyNet.Mine.Waiting
import MutinyNet.Mine.Consolidation
import MutinyNet.Shell.Echo
import MutinyNet.Setup.World
import MutinyNet.Setup.MinerWallet
import MutinyNet.Setup.Configuration
import MutinyNet.Setup.Install
import MutinyNet.Setup.Migration
import MutinyNet.Setup.Markers
import MutinyNet.Setup.Challenge
import MutinyNet.Setup.Permanence
import MutinyNet.Host.Prune
import MutinyNet.Nginx.Deploy
import MutinyNet.Nginx.Convergence
import MutinyNet.Nginx.Deployed
import MutinyNet.Nginx.HistoryCap
