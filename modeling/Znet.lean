import Znet.Lib.RunLength
import Znet.Lib.Word
import Znet.Lib.Machine
import Znet.Queue.Outbound
import Znet.Queue.OutboundInvariant
import Znet.Zdt.Wire
import Znet.Zdt.AckHistory
import Znet.Zdt.Channel
import Znet.Zdt.MixedDelivery
import Znet.Crypto.ReplayWindow
import Znet.Crypto.ChannelStream
import Znet.Queue.OutboundAccess
import Znet.Queue.OutboundSafety
import Znet.Queue.Encoder
import Znet.Queue.EncoderSafety
import Znet.Zdt.Acks
import Znet.Zdt.SenderRuns
import Znet.Zdt.AckCompleteness
import Znet.Zdt.SendSequence
import Znet.Zdt.Receiver
import Znet.Zdt.Link
import Znet.Zdt.LateCopy
import Znet.Buffer
import Znet.Codec
import Znet.Zdt.WireFormat
import Znet.Tcp
import Znet.Peer.Session
import Znet.Peer.Nonces
import Znet.Peer.Downgrade
import Znet.Peer.Messages
import Znet.Peer.Handshake
import Znet.Zdt.Endpoint
import Znet.Zdt.Mtu
import Znet.Lib.Pieces
import Znet.Zdt.Provenance
import Znet.Zdt.Integrity
import Znet.Zdt.Aliasing
import Znet.Zdt.SequencedDelivery
import Znet.Lib.Decimal
import Znet.Inet.Address
import Znet.Lib.BitPrefix
import Znet.Inet.Cidr
import Znet.Inet.Admission
import Znet.Zdt.Cookie
import Znet.Zdt.Offline
import Znet.Zdt.ClientHandshake
import Znet.Lib.Keyed
import Znet.Zdt.Server
import Znet.Zdt.ServerRoutes
import Znet.Zdt.Routability
import Znet.P2p.Registry
import Znet.P2p.Relay
import Znet.P2p.Rendezvous
import Znet.Ext.History
import Znet.TcpStream
import Znet.Zdt.RetransmitScan
import Znet.BufferContainers
import Znet.Ext.EnttArchive
import Znet.Peer.Pipeline
import Znet.P2p.Consent
import Znet.P2p.Punch
import Znet.P2p.PunchAgreement
import Znet.Lib.Custody
import Znet.P2p.Agent
import Znet.P2p.AgentCallbacks
import Znet.P2p.AgentSessions
import Znet.Lib.Tally
import Znet.Zdt.Reassembly
import Znet.Zdt.FragmentRoundTrip
import Znet.Zdt.InFlight
import Znet.Zdt.Lanes
import Znet.Zdt.FlushOrder
import Znet.Zdt.Backlog
import Znet.CodecRoundTrip
import Znet.Queue.MpscSafety
import Znet.Server.Lifecycle
import Znet.Server.SessionLife
import Znet.Server.EventPairing
import Znet.P2p.Gather
import Znet.Inet.Throttle
import Znet.Queue.MpscFifo
import Znet.Queue.OutboundWrapped
import Znet.Zdt.HandshakeRate
import Znet.Zdt.Residue
import Znet.Zdt.RttEstimator
