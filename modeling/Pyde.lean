import Pyde.Tx.SlashSafety
import Pyde.Consensus.EpochRandomness
import Pyde.Node.ForgedMessages
import Pyde.Tx.MultisigAuthorization
import Pyde.Tx.AirdropRuns
import Pyde.Node.ValidatorAccounting
import Pyde.Tx.Deployment
import Pyde.Tx.Vesting
import Pyde.Pvm.MemoryBounds
import Pyde.Pvm.AccessLists
import Pyde.Crypto.Dkg
import Pyde.Node.BlockSync
import Pyde.Node.CrashSafety
import Pyde.Node.CanonicalCommit
import Pyde.Node.BaseFee
import Pyde.Consensus.ValidatorSet
import Pyde.Node.NetworkBlock
import Pyde.Node.BlockBuilder
