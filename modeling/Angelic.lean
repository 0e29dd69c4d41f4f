import Angelic.Proofs.Attendance
import Angelic.Proofs.Bans
import Angelic.Proofs.Bursts
import Angelic.Proofs.Clock
import Angelic.Proofs.ClosedPcbs
import Angelic.Proofs.Conforming
import Angelic.Proofs.Counters
import Angelic.Proofs.Deliveries
import Angelic.Proofs.DirectMessages
import Angelic.Proofs.DiskWrites
import Angelic.Proofs.DriverKeys
import Angelic.Proofs.Evictions
import Angelic.Proofs.Frames
import Angelic.Proofs.GroupCopies
import Angelic.Proofs.LateCopies
import Angelic.Proofs.NullTables
import Angelic.Proofs.OfflineQuota
import Angelic.Proofs.PendingSubs
import Angelic.Proofs.Plaintext
import Angelic.Proofs.PoolPages
import Angelic.Proofs.PrivateRoundTrip
import Angelic.Proofs.PrivateStore
import Angelic.Proofs.Random
import Angelic.Proofs.ReceiveRefined
import Angelic.Proofs.RewrittenItems
import Angelic.Proofs.RoomForms
import Angelic.Proofs.RootAttributes
import Angelic.Proofs.RosterAnswers
import Angelic.Proofs.SaslPlain
import Angelic.Proofs.Staging
import Angelic.Proofs.StanzaEnd
import Angelic.Proofs.Starttls
import Angelic.Proofs.Trampolines
import Angelic.Proofs.Transmit
