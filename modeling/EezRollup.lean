import EezRollup.Codec.Cursor
import EezRollup.Codec.Padding
import EezRollup.Signer.PairEnds
import EezRollup.Signer.Admission
import EezRollup.Deriver.Attested
import EezRollup.Signer.Determined
import EezRollup.Composer.PoolChains
import EezRollup.Composer.Disposal
import EezRollup.Driver.SequencedParent
import EezRollup.Driver.Timing
import EezRollup.Submitter.Verdict
import EezRollup.Deriver.Confluence
import EezRollup.Deriver.Restart
import EezRollup.Scan.Committed
import EezRollup.Scan.Chunks
import EezRollup.Watcher.Integrity
import EezRollup.Watcher.Depth
import EezRollup.Protocol.Projection
import EezRollup.Protocol.Binding
import EezRollup.Sessions.Retention
import EezRollup.Sessions.Retired
import EezRollup.Follower.Follow
import EezRollup.Protocol.Sidecars
import EezRollup.Protocol.OutboundGate
import EezRollup.Protocol.Composition
import EezRollup.Signer.Blame
import EezRollup.Scan.Insertion
import EezRollup.Composition.Calls
import EezRollup.Composition.Rollback
