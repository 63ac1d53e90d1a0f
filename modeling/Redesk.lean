import Redesk.Machine.Runs
import Redesk.Machine.Past
import Redesk.Machine.Masks
import Redesk.Machine.Consent
import Redesk.Machine.Endian
import Redesk.Machine.Seats
import Redesk.Machine.Expiry
import Redesk.Machine.PrefixCode
import Redesk.Machine.Binary64
import Redesk.Machine.Rounding
import Redesk.Common.Types
import Redesk.Session.Manager
import Redesk.Session.Effects
import Redesk.Session.Lifecycle
import Redesk.Session.Provenance
import Redesk.Session.Audit
import Redesk.Session.Handshake
import Redesk.Session.Grants
import Redesk.Session.PeerPolicy
import Redesk.Session.DenyList
import Redesk.Crypto.Noise
import Redesk.Crypto.Handshake
import Redesk.Crypto.Replay
import Redesk.Crypto.Link
import Redesk.Crypto.Agreement
import Redesk.Crypto.Transport
import Redesk.Crypto.Fingerprint
import Redesk.Server.Net
import Redesk.Relay.AllocationTable
import Redesk.Relay.Pairing
import Redesk.Relay.Forward
import Redesk.Relay.Idle
import Redesk.Relay.Refusal
import Redesk.Relay.Accounting
import Redesk.Rendezvous.Protocol
import Redesk.Rendezvous.Registry
import Redesk.Rendezvous.Signer
import Redesk.Rendezvous.Loop
import Redesk.Rendezvous.Binding
import Redesk.Rendezvous.Staleness
import Redesk.Machine.Buffer
import Redesk.Rendezvous.Codec
import Redesk.Rendezvous.Introductions
import Redesk.Rendezvous.Outgoing
import Redesk.Rendezvous.Attestation
import Redesk.Rendezvous.Reflection
import Redesk.Rendezvous.Squatting
import Redesk.Service.IpcServer
import Redesk.Service.Requests
import Redesk.Service.Sessions
import Redesk.Ui.Framing
import Redesk.Ui.Authentication
import Redesk.Ui.Extraction
import Redesk.Ui.SessionController
import Redesk.Ui.TearDown
import Redesk.Transport.Loopback
import Redesk.Transport.Ciphertext
import Redesk.Transport.Delivery
import Redesk.Transport.Congestion
import Redesk.Transport.Overuse
import Redesk.Transport.Climb
import Redesk.Transport.Bounds
import Redesk.Proto.Fragmentation
import Redesk.Proto.Negotiation
import Redesk.Codec.Stub
import Redesk.Codec.RoundTrip
import Redesk.Codec.Keyframes
import Redesk.Codec.Negotiation
import Redesk.Crypto.KeyStore
import Redesk.Machine.Lease
import Redesk.Machine.Descriptors
import Redesk.Server.Socket
import Redesk.Rendezvous.Retention
import Redesk.Rendezvous.Housekeeping
import Redesk.Rendezvous.Brokering
import Redesk.Relay.Lifetime
import Redesk.Service.Endpoint
import Redesk.Session.Observers
import Redesk.Ui.Properties
import Redesk.Ui.Commands
import Redesk.Service.Daemon
import Redesk.Transport.Reentrancy
import Redesk.Input.Clipboard
import Redesk.Capture.Cursor
import Redesk.Capture.Capturer
import Redesk.Ui.ScreenSource
