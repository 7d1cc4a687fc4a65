import UnknownTunnel.Foundation.Machine
import UnknownTunnel.Foundation.Table
import UnknownTunnel.Foundation.Resequencer
import UnknownTunnel.Foundation.Bytes
import UnknownTunnel.Transport.Crypto
import UnknownTunnel.Transport.UdpPacket
import UnknownTunnel.Transport.UdpSession
import UnknownTunnel.Transport.UdpLink
import UnknownTunnel.Transport.UdpOrder
import UnknownTunnel.Transport.UdpRetention
import UnknownTunnel.Transport.Handshake
import UnknownTunnel.Transport.UdpForgery
import UnknownTunnel.Transport.UdpServer
import UnknownTunnel.Transport.UdpServerTables
import UnknownTunnel.Transport.UdpServerReaper
import UnknownTunnel.Transport.Session
import UnknownTunnel.Transport.Dial
import UnknownTunnel.Transport.HandshakeWorld
import UnknownTunnel.Transport.HandshakeAgreement
import UnknownTunnel.Transport.Forwarding
import UnknownTunnel.App.TcpFlow
import UnknownTunnel.App.TcpTruncation
import UnknownTunnel.App.TcpAgreement
import UnknownTunnel.App.UdpNodes
import UnknownTunnel.App.UdpIntegrity
import UnknownTunnel.App.Dedupe
import UnknownTunnel.App.TcpOrder
import UnknownTunnel.Transport.UdpSlots
import UnknownTunnel.Foundation.Reads
import UnknownTunnel.Transport.SessionTable
import UnknownTunnel.Transport.TcpStream
import UnknownTunnel.ConfigFile.Identifier
import UnknownTunnel.Transport.NonceReuse
import UnknownTunnel.ConfigFile.Validate
import UnknownTunnel.App.UdpFlows
import UnknownTunnel.Foundation.Index
import UnknownTunnel.App.ReplyIsolation
import UnknownTunnel.App.TcpTable
import UnknownTunnel.App.Authorization
import UnknownTunnel.Admin.Console
import UnknownTunnel.Admin.Files
import UnknownTunnel.Admin.Wizard
import UnknownTunnel.Admin.Commands
import UnknownTunnel.Admin.SecretAtomicity
import UnknownTunnel.Foundation.Access
import UnknownTunnel.Protocol.Codec
import UnknownTunnel.Protocol.DecodeBounds
import UnknownTunnel.Transport.HandshakeCodec
import UnknownTunnel.Tun.Filter
import UnknownTunnel.Foundation.Arrivals
import UnknownTunnel.Transport.DialWelcome
import UnknownTunnel.App.FragmentRoundTrip
import UnknownTunnel.App.TcpCapacity
import UnknownTunnel.App.MessageSize
import UnknownTunnel.Foundation.TextRoundTrip
import UnknownTunnel.ConfigFile.NormalForm
import UnknownTunnel.Admin.Outcomes
import UnknownTunnel.Admin.Defaults
import UnknownTunnel.Admin.SavedConfig
import UnknownTunnel.Tun.Fragments
import UnknownTunnel.Admin.Panel
import UnknownTunnel.Foundation.Paths
import UnknownTunnel.Admin.DeleteSafety
import UnknownTunnel.Admin.Confinement
import UnknownTunnel.Admin.Starvation
import UnknownTunnel.Admin.Termination
import UnknownTunnel.Foundation.Channel
import UnknownTunnel.Transport.TcpLink
import UnknownTunnel.Transport.Carriers
import UnknownTunnel.App.Tunnel
import UnknownTunnel.App.TunnelInvariant
import UnknownTunnel.App.Direct
import UnknownTunnel.App.TunnelProgress
import UnknownTunnel.App.EndToEnd
import UnknownTunnel.Foundation.Spacing
import UnknownTunnel.Foundation.Progress
import UnknownTunnel.Transport.Retransmission
import UnknownTunnel.Transport.UdpRecovery
import UnknownTunnel.Transport.HandshakeCompletion
import UnknownTunnel.Transport.UdpHandshakeCompletion
import UnknownTunnel.Foundation.Crew
import UnknownTunnel.Foundation.Copies
import UnknownTunnel.Transport.ClientLoop
import UnknownTunnel.Transport.TcpListener
import UnknownTunnel.App.TcpOwnership
import UnknownTunnel.App.UdpExpiry
import UnknownTunnel.Admin.Startup
import UnknownTunnel.App.KeepAlive
import UnknownTunnel.App.Lifecycle
