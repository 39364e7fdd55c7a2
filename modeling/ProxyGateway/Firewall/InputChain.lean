/-
# ProxyGateway.Firewall.InputChain — what `setup_firewall` lets in

`setup_firewall` writes one input chain with policy drop, for nft where it is installed and for
iptables otherwise.  Every rule of it accepts, so a packet gets in exactly when some rule matches.
The rules are kept as data; `reachesProxies_iff` says for whom the ports of the two proxies are open.
-/
import Mathlib.Data.BitVec

namespace ProxyGateway.Firewall

/-! ## Addresses and packets -/

abbrev Addr := BitVec 32

/-- `a.b.c.d` -/
def ipv4 (a b c d : Nat) : Addr := BitVec.ofNat 32 (((a * 256 + b) * 256 + c) * 256 + d)

/-- `base/len` -/
structure Net where
  base : Addr
  len : Nat
  deriving DecidableEq, Repr

def Net.contains (n : Net) (a : Addr) : Bool := a >>> (32 - n.len) = n.base >>> (32 - n.len)

/-- The network of the clients. -/
def clientNet : Net := ⟨ipv4 172 22 0 0, 16⟩

inductive Proto where
  | tcp | udp | icmp
  deriving DecidableEq, Repr

/-- A packet that arrives, over the loopback interface or from outside. -/
structure Packet where
  loopback : Bool
  established : Bool
  source : Addr
  proto : Proto
  dport : Nat
  deriving DecidableEq, Repr

/-! ## Chains of accepting rules -/

/-- A rule that accepts; what it does not name it does not look at. -/
structure InputRule where
  loopback : Bool := false
  established : Bool := false
  source : Option Net := none
  proto : Option Proto := none
  dports : Option (List Nat) := none

def InputRule.matches (r : InputRule) (p : Packet) : Bool :=
  (!r.loopback || p.loopback) && (!r.established || p.established) &&
    r.source.all (·.contains p.source) && r.proto.all (· = p.proto) &&
    r.dports.all (p.dport ∈ ·)

/-- The policy of the chain is drop. -/
def accepts (chain : List InputRule) (p : Packet) : Bool := chain.any (·.matches p)

/-- `tcp_ports` -/
def tcpPorts : List Nat := [22, 53, 853, 8111]

/-- The input chain of `/etc/nftables.conf`; the rule for ICMPv6 cannot match here. -/
def nftInput : List InputRule :=
  [{ loopback := true },
   { established := true },
   { proto := some .tcp, dports := some tcpPorts },
   { proto := some .udp, dports := some [53] },
   { source := some clientNet, proto := some .tcp, dports := some [80, 443] },
   { source := some clientNet, proto := some .udp, dports := some [443] },
   { proto := some .icmp }]

/-- The iptables fallback. -/
def iptablesInput : List InputRule :=
  [{ loopback := true },
   { established := true },
   { proto := some .tcp, dports := some tcpPorts },
   { proto := some .udp, dports := some [53] },
   { source := some clientNet, proto := some .tcp, dports := some [80, 443] },
   { source := some clientNet, proto := some .udp, dports := some [443] },
   { proto := some .icmp }]

/-- **`setup_firewall`** -/
def setupFirewall (hasNft : Bool) : List InputRule := if hasNft then nftInput else iptablesInput

/-! ## The ports of the proxies -/

/-- Where a query comes from: an address, and whether over the loopback interface. -/
structure Client where
  source : Addr
  loopback : Bool
  deriving DecidableEq, Repr

/-- A packet that opens a connection. -/
def Client.opens (c : Client) (proto : Proto) (dport : Nat) : Packet :=
  ⟨c.loopback, false, c.source, proto, dport⟩

/-- What SNIProxy and the QUIC proxy listen on. -/
def proxyPorts : List (Proto × Nat) := [(.tcp, 80), (.tcp, 443), (.udp, 443)]

/-- **`ReachesProxies`** — the chain lets a client open connections to both proxies. -/
def ReachesProxies (chain : List InputRule) (c : Client) : Prop :=
  ∀ pp ∈ proxyPorts, accepts chain (c.opens pp.1 pp.2) = true

theorem reachesProxies_iff (hasNft : Bool) (c : Client) :
    ReachesProxies (setupFirewall hasNft) c ↔
      c.loopback = true ∨ clientNet.contains c.source = true := by
  have hport : ∀ pp ∈ proxyPorts, accepts (setupFirewall hasNft) (c.opens pp.1 pp.2) =
      (c.loopback || clientNet.contains c.source) := by
    intro pp hpp
    simp only [proxyPorts, List.mem_cons, List.not_mem_nil, or_false] at hpp
    rcases hpp with rfl | rfl | rfl <;>
      cases hasNft <;>
      simp [setupFirewall, nftInput, iptablesInput, tcpPorts, accepts, InputRule.matches,
        Client.opens]
  constructor
  · intro h
    have hfirst := h (.tcp, 80) (by simp [proxyPorts])
    rw [hport _ (by simp [proxyPorts])] at hfirst
    exact Bool.or_eq_true_iff.mp hfirst
  · intro h pp hpp
    rw [hport pp hpp]
    exact Bool.or_eq_true_iff.mpr h

end ProxyGateway.Firewall
