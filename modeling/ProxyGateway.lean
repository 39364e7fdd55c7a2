import ProxyGateway.Quic.Sender
import ProxyGateway.Quic.Eviction
import ProxyGateway.Quic.HelloFrames
import ProxyGateway.Quic.Work
import ProxyGateway.Firewall.NftPorts
import ProxyGateway.Firewall.CertHooks
import ProxyGateway.Firewall.OpenPorts
import ProxyGateway.Firewall.Fallback
import ProxyGateway.Dns.UpdateRules
import ProxyGateway.Dns.Rollback
import ProxyGateway.Dns.LockLoser
import ProxyGateway.Dns.DotDomain
import ProxyGateway.Dns.SpoofPolicy
import ProxyGateway.Dns.GfwHistory
import ProxyGateway.Dns.Upstreams
import ProxyGateway.Dns.ExtrasFile
import ProxyGateway.Dns.LocalExtras
import ProxyGateway.Dns.ChinaChunks
import ProxyGateway.Dns.ResolverBlock
import ProxyGateway.Smart.AddRule
import ProxyGateway.Smart.Agreement
import ProxyGateway.Smart.PolicySeed
import ProxyGateway.Smart.Updates
import ProxyGateway.Smart.Lifecycle
import ProxyGateway.Smart.Logical
import ProxyGateway.Smart.LogicalSyntax
import ProxyGateway.Smart.Categories
import ProxyGateway.Smart.BadLines
import ProxyGateway.Smart.Download
import ProxyGateway.Smart.FromUrl
import ProxyGateway.Smart.UrlPolicies
import ProxyGateway.Smart.SetFinal
import ProxyGateway.Smart.ExtractEntries
import ProxyGateway.Smart.SeedTargets
import ProxyGateway.Smart.Rename
import ProxyGateway.Smart.PolicyEdits
import ProxyGateway.Smart.Transactions
import ProxyGateway.Smart.TopRule
import ProxyGateway.Smart.RuleSets
import ProxyGateway.Race.TcpService
import ProxyGateway.Race.Upstreams
import ProxyGateway.Race.ErrorResponse
import ProxyGateway.Race.Capacity
import ProxyGateway.Exits.Legacy
import ProxyGateway.Exits.Shadowsocks
import ProxyGateway.Exits.Socks
import ProxyGateway.Exits.WireGuard
import ProxyGateway.Exits.WgProxy
import ProxyGateway.Exits.PolicyRules
import ProxyGateway.Exits.Selection
import ProxyGateway.Exits.AddExit
import ProxyGateway.Exits.Engines
import ProxyGateway.Bot.Handlers
import ProxyGateway.Bot.BusyPanels
import ProxyGateway.Bot.ExitIpCache
import ProxyGateway.Bot.Polling
import ProxyGateway.Bot.Offers
import ProxyGateway.Quic.Traffic
import ProxyGateway.Quic.Delivery
import ProxyGateway.Race.UdpService
import ProxyGateway.Dns.DefaultDomains
import ProxyGateway.Logic.Purge
import ProxyGateway.Bot.Isolation
import ProxyGateway.Bot.RuleNumbers
import ProxyGateway.Smart.SourceRules
import ProxyGateway.Dns.Port53
import ProxyGateway.Dns.ExtraNames
import ProxyGateway.Dns.ForcedDomain
