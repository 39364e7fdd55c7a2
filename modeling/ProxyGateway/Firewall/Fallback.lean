/-
# ProxyGateway.Firewall.Fallback — one firewall in two rule languages

`setup_firewall` writes an nftables ruleset where `nft` is installed, and otherwise runs `iptables`
command by command.  The tables of the ruleset are of family `inet`: they see IPv4 and IPv6.
`iptables` sees IPv4, and nothing is said to `ip6tables`.

Both languages are given as data with a meaning each, over one kind of packet.  The commands of the
fallback act on a kernel that may hold anything before.  What a run leaves is
`iptablesFallback_eq`: a fixed INPUT chain, and in the mangle table the rules of others followed by
nine of its own; so a second run changes nothing.  `sameFirewall_iff` compares the decisions.
-/
import ProxyGateway.Firewall.InputChain
import ProxyGateway.Logic.RuleChain
import ProxyGateway.Lang.Text

namespace ProxyGateway.Firewall

open ProxyGateway.Lang
open ProxyGateway.Logic

/-! ## Packets -/

/-- The conntrack states. -/
inductive CtState where
  | invalid | new | established | related | untracked
  deriving DecidableEq, Repr

/-- The header of either family, as far as a rule reads it. -/
inductive Header where
  | ip (saddr daddr : Addr)
  | ip6 (saddr daddr : BitVec 128) (nexthdr : Nat)
  deriving DecidableEq, Repr

namespace IpProto

def icmp : Nat := 1

def tcp : Nat := 6

def udp : Nat := 17

def icmpv6 : Nat := 58

end IpProto

/-- A packet of either family, on its way in or out.  `skuid` is the user whose socket sent it, if a
socket of this host did. -/
structure Datagram where
  iif : Text
  header : Header
  l4proto : Nat
  dport : Nat
  ctState : CtState
  skuid : Option Nat
  mark : Nat
  deriving DecidableEq, Repr

inductive Verdict where
  | accept | drop
  deriving DecidableEq, Repr

/-- What a rule does. -/
inductive Target where
  | accept
  | ret
  | setMark (mark : Nat)
  deriving DecidableEq, Repr

/-- In a chain that a hook calls, `return` is the policy; a mark does not end the chain. -/
def Target.effect : Target → Datagram → Effect Datagram Verdict
  | .accept, _ => .stop (some .accept)
  | .ret, _ => .stop none
  | .setMark mark, p => .go { p with mark }

/-! ## nftables -/

/-- The matches of the ruleset. -/
inductive NftMatch where
  | iif (name : Text)
  | ctState (states : List CtState)
  | tcpDport (ports : List Nat)
  | udpDport (ports : List Nat)
  | ipSaddr (net : Net)
  | ipDaddr (nets : List Net)
  | ipProtocol (proto : Nat)
  | ip6Nexthdr (proto : Nat)
  | l4proto (protos : List Nat)
  | thDport (port : Nat)
  | skuid (uid : Nat)

/-- A match on a header of one family fails for the other. -/
def NftMatch.holds (p : Datagram) : NftMatch → Bool
  | .iif name => p.iif = name
  | .ctState states => p.ctState ∈ states
  | .tcpDport ports => p.l4proto = IpProto.tcp ∧ p.dport ∈ ports
  | .udpDport ports => p.l4proto = IpProto.udp ∧ p.dport ∈ ports
  | .ipSaddr net =>
    match p.header with
    | .ip saddr _ => net.contains saddr
    | .ip6 .. => false
  | .ipDaddr nets =>
    match p.header with
    | .ip _ daddr => nets.any (·.contains daddr)
    | .ip6 .. => false
  | .ipProtocol proto =>
    match p.header with
    | .ip .. => p.l4proto = proto
    | .ip6 .. => false
  | .ip6Nexthdr proto =>
    match p.header with
    | .ip .. => false
    | .ip6 _ _ nexthdr => nexthdr = proto
  | .l4proto protos => p.l4proto ∈ protos
  | .thDport port => p.dport = port
  | .skuid uid => p.skuid = some uid

structure NftRule where
  exprs : List NftMatch
  target : Target

def NftRule.fires (r : NftRule) (p : Datagram) : Bool := r.exprs.all (·.holds p)

def NftRule.act (r : NftRule) (p : Datagram) : Effect Datagram Verdict := r.target.effect p

/-- The chain `input` of table `filter`. -/
def inputChain : List NftRule :=
  [⟨[.iif (lit "lo")], .accept⟩,
   ⟨[.ctState [.established, .related]], .accept⟩,
   ⟨[.tcpDport tcpPorts], .accept⟩,
   ⟨[.udpDport [53]], .accept⟩,
   ⟨[.ipSaddr clientNet, .tcpDport [80, 443]], .accept⟩,
   ⟨[.ipSaddr clientNet, .udpDport [443]], .accept⟩,
   ⟨[.ipProtocol IpProto.icmp], .accept⟩,
   ⟨[.ip6Nexthdr IpProto.icmpv6], .accept⟩]

/-- The destinations that stay on the normal route. -/
def privateNets : List Net :=
  [⟨ipv4 127 0 0 0, 8⟩, ⟨ipv4 10 0 0 0, 8⟩, ⟨ipv4 172 16 0 0, 12⟩, ⟨ipv4 192 168 0 0, 16⟩,
   ⟨ipv4 169 254 0 0, 16⟩, ⟨ipv4 100 64 0 0, 10⟩]

/-- `EXIT_MARK` -/
def exitMark : Nat := 0x1

/-- The chain `mark_out` of table `pgw_exit`; `pxout` is the number of the user. -/
def markOut (pxout : Nat) : List NftRule :=
  [⟨[.ipDaddr privateNets], .ret⟩,
   ⟨[.l4proto [IpProto.tcp, IpProto.udp], .thDport 53], .ret⟩,
   ⟨[.skuid pxout], .setMark exitMark⟩]

/-- The INPUT verdict of the ruleset. -/
def nftVerdict (p : Datagram) : Verdict := (runChain NftRule.fires NftRule.act .drop inputChain p).2

/-- The mark on a packet behind the ruleset. -/
def nftMark (pxout : Nat) (p : Datagram) : Nat :=
  (runChain NftRule.fires NftRule.act .accept (markOut pxout) p).1.mark

/-! ## iptables -/

/-- A rule of `iptables`; what it does not name it does not look at. -/
structure IptRule where
  inIface : Option Text := none
  source : Option Net := none
  destination : Option Net := none
  proto : Option Nat := none
  dports : Option (List Nat) := none
  ctstate : Option (List CtState) := none
  uidOwner : Option Nat := none
  target : Target
  deriving DecidableEq

/-- Only packets of IPv4 come here. -/
def IptRule.fires (r : IptRule) (p : Datagram) : Bool :=
  match p.header with
  | .ip saddr daddr =>
    r.inIface.all (p.iif = ·) && r.source.all (·.contains saddr) &&
      r.destination.all (·.contains daddr) && r.proto.all (p.l4proto = ·) &&
      r.dports.all (p.dport ∈ ·) && r.ctstate.all (p.ctState ∈ ·) &&
      r.uidOwner.all (p.skuid = some ·)
  | .ip6 .. => false

def IptRule.act (r : IptRule) (p : Datagram) : Effect Datagram Verdict := r.target.effect p

/-- A rule of `ip6tables`. -/
structure Ip6Rule where
  fires : Datagram → Bool
  target : Target

def Ip6Rule.act (r : Ip6Rule) (p : Datagram) : Effect Datagram Verdict := r.target.effect p

/-- The INPUT chains with their policies, and the OUTPUT chains of the mangle tables. -/
structure Kernel where
  policy : Verdict
  input : List IptRule
  mangle : List IptRule
  policy6 : Verdict
  input6 : List Ip6Rule
  mangle6 : List Ip6Rule

namespace Kernel

/-- `iptables -F INPUT` -/
def flushInput (k : Kernel) : Kernel := { k with input := [] }

/-- `iptables -P INPUT` -/
def setPolicy (policy : Verdict) (k : Kernel) : Kernel := { k with policy }

/-- `iptables -A INPUT` -/
def appendInput (k : Kernel) (r : IptRule) : Kernel := { k with input := k.input ++ [r] }

/-- The INPUT verdict. -/
def verdict (k : Kernel) (p : Datagram) : Verdict :=
  match p.header with
  | .ip .. => (runChain IptRule.fires IptRule.act k.policy k.input p).2
  | .ip6 .. => (runChain Ip6Rule.fires Ip6Rule.act k.policy6 k.input6 p).2

/-- The mark on a packet behind the mangle table. -/
def mark (k : Kernel) (p : Datagram) : Nat :=
  match p.header with
  | .ip .. => (runChain IptRule.fires IptRule.act .accept k.mangle p).1.mark
  | .ip6 .. => (runChain Ip6Rule.fires Ip6Rule.act .accept k.mangle6 p).1.mark

end Kernel

/-- The rules that are appended to INPUT. -/
def iptablesInputRules : List IptRule :=
  [{ inIface := some (lit "lo"), target := .accept },
   { ctstate := some [.established, .related], target := .accept },
   { proto := some IpProto.tcp, dports := some tcpPorts, target := .accept },
   { proto := some IpProto.udp, dports := some [53], target := .accept },
   { source := some clientNet, proto := some IpProto.tcp, dports := some [80, 443], target := .accept },
   { source := some clientNet, proto := some IpProto.udp, dports := some [443], target := .accept },
   { proto := some IpProto.icmp, target := .accept }]

/-- `-m owner --uid-owner … -d "$pn" -j RETURN` -/
def returnNet (uid : Nat) (pn : Net) : IptRule :=
  { uidOwner := some uid, destination := some pn, target := .ret }

/-- `-m owner --uid-owner … -p "$pp" --dport 53 -j RETURN` -/
def returnDns (uid pp : Nat) : IptRule :=
  { uidOwner := some uid, proto := some pp, dports := some [53], target := .ret }

/-- `-m owner --uid-owner … -j MARK --set-mark "${EXIT_MARK}"` -/
def markRule (uid : Nat) : IptRule := { uidOwner := some uid, target := .setMark exitMark }

/-- The OUTPUT chain of the mangle table is rebuilt by deleting and appending. -/
def rebuildMangle (uid : Nat) (chain : List IptRule) : List IptRule :=
  let chain := deleteWhile (markRule uid) chain
  let chain := privateNets.foldl (fun chain pn => replace (returnNet uid pn) chain) chain
  let chain := [IpProto.udp, IpProto.tcp].foldl (fun chain pp => replace (returnDns uid pp) chain) chain
  chain ++ [markRule uid]

/-- **`iptablesFallback`** — the `iptables` branch; `id` is the answer of `id -u`. -/
def iptablesFallback (id : Option Nat) (k : Kernel) : Kernel :=
  let k := k.flushInput.setPolicy .drop
  let k := iptablesInputRules.foldl Kernel.appendInput k
  match id with
  | none => k
  | some uid => { k with mangle := rebuildMangle uid k.mangle }

/-! ## What a run leaves -/

/-- The rules of the mangle table that end the chain. -/
def returnRules (uid : Nat) : List IptRule :=
  privateNets.map (returnNet uid) ++ [IpProto.udp, IpProto.tcp].map (returnDns uid)

/-- The rules of the mangle table, in their order. -/
def ownRules (uid : Nat) : List IptRule := returnRules uid ++ [markRule uid]

theorem nodup_returnRules (uid : Nat) : (returnRules uid).Nodup := by
  have hnets : (privateNets.map (returnNet uid)).Nodup := by
    refine List.Nodup.map (fun pn pn' h => ?_) (by decide)
    exact Option.some.inj (IptRule.mk.inj h).2.2.1
  have hdns : ([IpProto.udp, IpProto.tcp].map (returnDns uid)).Nodup := by
    refine List.Nodup.map (fun pp pp' h => ?_) (by decide)
    exact Option.some.inj (IptRule.mk.inj h).2.2.2.1
  refine hnets.append hdns fun r hnet hproto => ?_
  obtain ⟨pn, -, rfl⟩ := List.mem_map.mp hnet
  obtain ⟨pp, -, h⟩ := List.mem_map.mp hproto
  nomatch (IptRule.mk.inj h).2.2.1

theorem rebuildMangle_eq (uid : Nat) (chain : List IptRule) :
    rebuildMangle uid chain = others (ownRules uid) chain ++ ownRules uid := by
  have hreturns : rebuildMangle uid chain =
      replaceAll (returnRules uid) (deleteWhile (markRule uid) chain) ++ [markRule uid] := by
    rw [rebuildMangle, replaceAll, returnRules, List.foldl_append, List.foldl_map, List.foldl_map]
  have hmem : ∀ r, r ∈ ownRules uid ↔ r ∈ returnRules uid ∨ r = markRule uid := by
    intro r
    rw [ownRules, List.mem_append, List.mem_singleton]
  rw [hreturns, replaceAll_eq (nodup_returnRules uid), deleteWhile_eq, others_filter_ne hmem, ownRules,
    List.append_assoc]

/-- **`iptablesFallback_eq`** -/
theorem iptablesFallback_eq (uid : Nat) (k : Kernel) :
    iptablesFallback (some uid) k =
      { k with
        policy := .drop
        input := iptablesInputRules
        mangle := others (ownRules uid) k.mangle ++ ownRules uid } := by
  rw [iptablesFallback, rebuildMangle_eq]
  rfl

/-- However often it runs. -/
theorem iterate_iptablesFallback (uid n : Nat) (k : Kernel) :
    (iptablesFallback (some uid))^[n + 1] k = iptablesFallback (some uid) k := by
  induction n with
  | zero => rfl
  | succ n ih =>
    rw [Function.iterate_succ_apply', ih]
    simp only [iptablesFallback_eq, others_append_self]

/-! ## The INPUT verdict -/

theorem nftVerdict_eq (p : Datagram) :
    nftVerdict p = if inputChain.any (·.fires p) then .accept else .drop := by
  have haccept : ∀ r ∈ inputChain, ∀ p, r.act p = .stop (some .accept) := by
    simp [inputChain, NftRule.act, Target.effect]
  rw [nftVerdict, runChain_of_stop haccept]
  split <;> rfl

/-- Over IPv4 the two INPUT chains match the same packets. -/
theorem any_fires_eq {p : Datagram} {saddr daddr : Addr} (h : p.header = .ip saddr daddr) :
    iptablesInputRules.any (·.fires p) = inputChain.any (·.fires p) := by
  simp [iptablesInputRules, inputChain, IptRule.fires, NftRule.fires, NftMatch.holds, h, Bool.and_assoc]

theorem verdict_fallback {uid : Nat} {k : Kernel} {p : Datagram} {saddr daddr : Addr}
    (h : p.header = .ip saddr daddr) : (iptablesFallback (some uid) k).verdict p = nftVerdict p := by
  have haccept : ∀ r ∈ iptablesInputRules, ∀ p, r.act p = .stop (some .accept) := by
    simp [iptablesInputRules, IptRule.act, Target.effect]
  rw [iptablesFallback_eq, Kernel.verdict, h, nftVerdict_eq, ← any_fires_eq h]
  dsimp only
  rw [runChain_of_stop haccept]
  split <;> rfl

/-- The packets that the accepting rules of `InputChain` are about. -/
def Datagram.packet (p : Datagram) : Option Packet :=
  let arriving (source : Addr) (proto : Proto) : Packet :=
    ⟨p.iif = lit "lo", p.ctState ∈ [.established, .related], source, proto, p.dport⟩
  match p.header with
  | .ip6 .. => none
  | .ip source _ =>
    if p.l4proto = IpProto.tcp then some (arriving source .tcp)
    else if p.l4proto = IpProto.udp then some (arriving source .udp)
    else if p.l4proto = IpProto.icmp then some (arriving source .icmp)
    else none

/-- On those both models of the chain agree. -/
theorem nftVerdict_packet {p : Datagram} {q : Packet} (h : p.packet = some q) :
    nftVerdict p = .accept ↔ accepts nftInput q = true := by
  have hany : inputChain.any (·.fires p) = accepts nftInput q := by
    cases hheader : p.header with
    | ip6 => simp [Datagram.packet, hheader] at h
    | ip source daddr =>
      simp only [Datagram.packet, hheader] at h
      split_ifs at h with htcp hudp hicmp
      all_goals
        obtain rfl := Option.some.inj h
        simp [inputChain, NftRule.fires, NftMatch.holds, accepts, nftInput, InputRule.matches,
          IpProto.tcp, IpProto.udp, IpProto.icmp, *]
  rw [nftVerdict_eq, ← hany]
  cases inputChain.any (·.fires p) <;> simp

/-! ## The mark -/

/-- The rules of `mark_out` that end the chain. -/
def exempt : List NftRule :=
  [⟨[.ipDaddr privateNets], .ret⟩, ⟨[.l4proto [IpProto.tcp, IpProto.udp], .thDport 53], .ret⟩]

theorem nftMark_eq (pxout : Nat) (p : Datagram) :
    nftMark pxout p =
      if exempt.any (·.fires p) then p.mark
      else if p.skuid = some pxout then exitMark else p.mark := by
  have hret : ∀ r ∈ exempt, ∀ p, r.act p = .stop none := by
    simp [exempt, NftRule.act, Target.effect]
  have hchain : markOut pxout = exempt ++ [⟨[.skuid pxout], .setMark exitMark⟩] := rfl
  rw [nftMark, hchain, runChain_append_of_stop hret]
  split
  · rfl
  · by_cases huid : p.skuid = some pxout <;>
      simp [runChain, NftRule.fires, NftRule.act, NftMatch.holds, Target.effect, huid]

/-- No rule of anyone else matches the packet. -/
structure Alone (uid : Nat) (k : Kernel) (p : Datagram) : Prop where
  mangle : ∀ r ∈ k.mangle, r ∈ ownRules uid ∨ r.fires p = false
  policy6 : k.policy6 = .accept
  input6 : ∀ r ∈ k.input6, r.fires p = false
  mangle6 : ∀ r ∈ k.mangle6, r.fires p = false

/-- A packet of the user is spared where the ruleset spares it. -/
theorem any_returns_eq {uid : Nat} {p : Datagram} {saddr daddr : Addr}
    (h : p.header = .ip saddr daddr) :
    (returnRules uid).any (·.fires p) = (exempt.any (·.fires p) && p.skuid = some uid) := by
  have hnets : (privateNets.map (returnNet uid)).any (·.fires p) =
      (privateNets.any (·.contains daddr) && p.skuid = some uid) := by
    rw [List.any_map, List.and_any_distrib_right]
    exact congrArg privateNets.any (funext fun pn => by simp [returnNet, IptRule.fires, h])
  have hdns : ([IpProto.udp, IpProto.tcp].map (returnDns uid)).any (·.fires p) =
      (decide (p.l4proto ∈ [IpProto.tcp, IpProto.udp]) && p.dport = 53 && p.skuid = some uid) := by
    have hone : ∀ pp, (returnDns uid pp).fires p =
        (decide (p.l4proto = pp) && (decide (p.dport = 53) && decide (p.skuid = some uid))) := by
      intro pp
      simp [returnDns, IptRule.fires, h, Bool.and_assoc]
    have hproto : (decide (p.l4proto = IpProto.udp) || decide (p.l4proto = IpProto.tcp)) =
        decide (p.l4proto ∈ [IpProto.tcp, IpProto.udp]) := by
      simp [Bool.or_comm]
    rw [List.any_map]
    simp only [List.any_cons, List.any_nil, Function.comp_apply, hone, Bool.or_false]
    rw [← Bool.and_or_distrib_right, hproto, Bool.and_assoc]
  have hexempt : exempt.any (·.fires p) = (privateNets.any (·.contains daddr) ||
      decide (p.l4proto ∈ [IpProto.tcp, IpProto.udp]) && p.dport = 53) := by
    simp [exempt, NftRule.fires, NftMatch.holds, h]
  rw [returnRules, List.any_append, hnets, hdns, hexempt, Bool.and_or_distrib_right]

theorem mark_fallback {uid : Nat} {k : Kernel} {p : Datagram} (hk : Alone uid k p) {saddr daddr : Addr}
    (h : p.header = .ip saddr daddr) : (iptablesFallback (some uid) k).mark p = nftMark uid p := by
  have hquiet : ∀ r ∈ others (ownRules uid) k.mangle, r.fires p = false := by
    intro r hr
    obtain ⟨hmem, hother⟩ := List.mem_filter.mp hr
    exact (hk.mangle r hmem).resolve_left (of_decide_eq_true hother)
  have hret : ∀ r ∈ returnRules uid, ∀ p, r.act p = .stop none := by
    simp [returnRules, privateNets, returnNet, returnDns, IptRule.act, Target.effect]
  rw [iptablesFallback_eq, Kernel.mark, h, nftMark_eq]
  dsimp only
  rw [runChain_append_of_quiet hquiet, ownRules, runChain_append_of_stop hret, any_returns_eq h]
  by_cases huid : p.skuid = some uid
  · cases exempt.any (·.fires p) with
    | true => simp [huid]
    | false => simp [huid, runChain, IptRule.fires, IptRule.act, markRule, Target.effect, h]
  · simp [huid, runChain, IptRule.fires, markRule, h]

/-! ## IPv6 -/

/-- The fallback decides nothing about a packet of IPv6. -/
theorem fallback_ip6 {uid : Nat} {k : Kernel} {p : Datagram} (hk : Alone uid k p)
    {saddr daddr : BitVec 128} {nexthdr : Nat} (h : p.header = .ip6 saddr daddr nexthdr) :
    (iptablesFallback (some uid) k).verdict p = .accept ∧
      (iptablesFallback (some uid) k).mark p = p.mark := by
  rw [iptablesFallback_eq, Kernel.verdict, Kernel.mark, h]
  dsimp only
  rw [runChain_of_quiet hk.input6, runChain_of_quiet hk.mangle6]
  exact ⟨hk.policy6, rfl⟩

/-- What gets in over IPv6. -/
def Welcome6 (p : Datagram) (nexthdr : Nat) : Prop :=
  p.iif = lit "lo" ∨ p.ctState = .established ∨ p.ctState = .related ∨
    p.l4proto = IpProto.tcp ∧ p.dport ∈ tcpPorts ∨ p.l4proto = IpProto.udp ∧ p.dport = 53 ∨
    nexthdr = IpProto.icmpv6

theorem nftVerdict_ip6 {p : Datagram} {saddr daddr : BitVec 128} {nexthdr : Nat}
    (h : p.header = .ip6 saddr daddr nexthdr) : nftVerdict p = .accept ↔ Welcome6 p nexthdr := by
  have hany : inputChain.any (·.fires p) = true ↔ Welcome6 p nexthdr := by
    simp [inputChain, NftRule.fires, NftMatch.holds, h, Welcome6, or_assoc]
  rw [nftVerdict_eq, ← hany]
  cases inputChain.any (·.fires p) <;> simp

/-- Packets that need no exit mark over IPv6: of other users, to port 53, or with the mark already. -/
def Unmarked6 (pxout : Nat) (p : Datagram) : Prop :=
  p.skuid ≠ some pxout ∨ (p.l4proto = IpProto.tcp ∨ p.l4proto = IpProto.udp) ∧ p.dport = 53 ∨
    p.mark = exitMark

theorem nftMark_ip6 {pxout : Nat} {p : Datagram} {saddr daddr : BitVec 128} {nexthdr : Nat}
    (h : p.header = .ip6 saddr daddr nexthdr) : nftMark pxout p = p.mark ↔ Unmarked6 pxout p := by
  have hexempt : exempt.any (·.fires p) = true ↔
      (p.l4proto = IpProto.tcp ∨ p.l4proto = IpProto.udp) ∧ p.dport = 53 := by
    simp [exempt, NftRule.fires, NftMatch.holds, h]
  rw [nftMark_eq, Unmarked6, ← hexempt]
  by_cases huid : p.skuid = some pxout
  · cases exempt.any (·.fires p) with
    | true => simp
    | false => simp [huid, eq_comm]
  · simp [huid]

/-! ## The comparison -/

/-- **`SameFirewall`** — the kernel decides about a packet as the ruleset does. -/
structure SameFirewall (pxout : Nat) (k : Kernel) (p : Datagram) : Prop where
  verdict : k.verdict p = nftVerdict p
  mark : k.mark p = nftMark pxout p

/-- **`Covered`** — the packets that the fallback is right about. -/
def Covered (pxout : Nat) (p : Datagram) : Prop :=
  match p.header with
  | .ip .. => True
  | .ip6 _ _ nexthdr => Welcome6 p nexthdr ∧ Unmarked6 pxout p

/-- **`sameFirewall_iff`** — however often the fallback ran, and whatever it found, it decides as the
ruleset does exactly on IPv4, and on the packets of IPv6 that the ruleset lets in and does not mark. -/
theorem sameFirewall_iff {uid : Nat} {k : Kernel} {p : Datagram} (n : Nat) (hk : Alone uid k p) :
    SameFirewall uid ((iptablesFallback (some uid))^[n + 1] k) p ↔ Covered uid p := by
  rw [iterate_iptablesFallback]
  unfold Covered
  cases hheader : p.header with
  | ip saddr daddr => exact iff_true_intro ⟨verdict_fallback hheader, mark_fallback hk hheader⟩
  | ip6 saddr daddr nexthdr =>
    obtain ⟨hverdict, hmark⟩ := fallback_ip6 hk hheader
    dsimp only
    rw [← nftVerdict_ip6 hheader, ← nftMark_ip6 hheader]
    constructor
    · rintro ⟨hsame, hsameMark⟩
      exact ⟨hsame.symm.trans hverdict, hsameMark.symm.trans hmark⟩
    · rintro ⟨hwelcome, hunmarked⟩
      exact ⟨hverdict.trans hwelcome.symm, hmark.trans hunmarked.symm⟩

/-- A kernel without any rule. -/
def Kernel.fresh : Kernel := ⟨.accept, [], [], .accept, [], []⟩

theorem alone_fresh (uid : Nat) (p : Datagram) : Alone uid .fresh p :=
  ⟨nofun, rfl, nofun, nofun⟩

/-- A packet of the proxy to the internet, after three runs. -/
theorem sameFirewall_thrice :
    SameFirewall 999 ((iptablesFallback (some 999))^[3] .fresh)
      ⟨lit "eth0", .ip (ipv4 10 0 0 2) (ipv4 1 1 1 1), IpProto.tcp, 443, .new, some 999, 0⟩ :=
  (sameFirewall_iff 2 (alone_fresh _ _)).mpr trivial

/-- A stranger reaches the web server over IPv6. -/
theorem fallback_opens_ip6 :
    ¬ ∀ (uid n : Nat) (k : Kernel) (p : Datagram), Alone uid k p →
      SameFirewall uid ((iptablesFallback (some uid))^[n + 1] k) p := by
  intro hall
  have hsame := hall 999 0 .fresh
    ⟨lit "eth0", .ip6 1 2 IpProto.tcp, IpProto.tcp, 80, .new, none, 0⟩ (alone_fresh _ _)
  nomatch hsame.verdict

end ProxyGateway.Firewall
