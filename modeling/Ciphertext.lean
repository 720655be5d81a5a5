import Ciphertext.Server.Addressee
import Ciphertext.Server.Reporting
import Ciphertext.Server.Provenance
import Ciphertext.Server.Envelopes
import Ciphertext.Server.Plain
import Ciphertext.Server.NoRaise
import Ciphertext.Server.Isolation
import Ciphertext.Server.Accounting
import Ciphertext.Server.Access
import Ciphertext.Server.ReadLoop
import Ciphertext.Server.Outboxes
import Ciphertext.Client.Supervisor
import Ciphertext.Client.Secrecy
import Ciphertext.Client.Waiting
import Ciphertext.Server.Presence
import Ciphertext.Server.Integrity
import Ciphertext.Server.Tenancy
import Ciphertext.Server.Refusal
import Ciphertext.Server.RoomStores
import Ciphertext.Server.Paging
import Ciphertext.Server.Resending
import Ciphertext.Server.MemberLists
import Ciphertext.Server.ContactLists
import Ciphertext.Server.Ticks
import Ciphertext.Client.Ticks
import Ciphertext.Client.OwnRows
import Ciphertext.Client.LateKeys
import Ciphertext.Client.KeyReleases
import Ciphertext.Client.Closedown
import Ciphertext.Client.Screen
import Ciphertext.Client.Sessions
import Ciphertext.Client.Arrivals
import Ciphertext.Client.ReadReports
import Ciphertext.Client.Unread
import Ciphertext.Client.Requests
import Ciphertext.Client.RoomDialog
import Ciphertext.Client.Backoff
import Ciphertext.Common.LineLimit
import Ciphertext.Common.Relay
import Ciphertext.Client.Roster
import Ciphertext.Server.Slices
import Ciphertext.Server.Invites
import Ciphertext.Client.Search
import Ciphertext.Prog.Monitor
import Ciphertext.Server.Statements
import Ciphertext.Server.Transactions
import Ciphertext.Server.Lives
import Ciphertext.Client.Inlet
import Ciphertext.Client.Handshake
import Ciphertext.Client.Heartbeat
import Ciphertext.Server.Audience
import Ciphertext.Server.Permanence
import Ciphertext.Server.Shutdown
import Ciphertext.Client.Typing
