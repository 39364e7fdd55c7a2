/-
# ProxyGateway.Dns.SpoofPolicy — the action chain of `dnsdist.conf.template`

dnsdist tries the actions in order; `Drop`, `RCode`, `Spoof` and `Pool` end the search, the ECS
settings do not.  An answer with the gateway's own address sends the client to SNIProxy or to the
QUIC proxy, so the client had better get through the firewall: the header of the template says that
only clients of `172.22.0.0/16` receive such answers, and the table in the README agrees.

The action for the GFWList asks for the name and the type of the query alone.  A client outside the
network that comes over DoT gets the gateway's address for such a name, and the firewall drops what
it then sends (`publicDoT_is_misled`).  `spoof_reachable_iff` says for whom the two agree.
-/
import ProxyGateway.Firewall.InputChain
import ProxyGateway.Lang.Text

namespace ProxyGateway.Dns

open ProxyGateway.Lang ProxyGateway.Firewall

/-! ## Names and queries -/

/-- A name by its labels, the top-level domain last. -/
abbrev Name := List Text

def Name.fold (n : Name) : Name := n.map (·.map Char.toLower)

/-- A `SuffixMatchNode`: the names added to it. -/
abbrev SuffixNode := List Name

/-- `node:check(qname)` -/
def SuffixNode.check (node : SuffixNode) (qname : Name) : Bool :=
  node.any fun n => n.fold.isSuffixOf qname.fold

inductive QType where
  | a | aaaa | other (code : Nat)
  deriving DecidableEq, Repr

structure Query where
  client : Client
  dport : Nat
  qname : Name
  qtype : QType
  /-- The client sends more than 10000 queries a second. -/
  overLimit : Bool

/-! ## Rules and actions -/

inductive QRule where
  | all
  | net (n : Net)
  | dport (port : Nat)
  | maxQpsIp
  | qtype (t : QType)
  | suffix (node : SuffixNode)
  | not (r : QRule)
  | and (r s : QRule)

def QRule.matches : QRule → Query → Bool
  | all, _ => true
  | net n, q => n.contains q.client.source
  | dport port, q => q.dport = port
  | maxQpsIp, q => q.overLimit
  | qtype t, q => q.qtype = t
  | suffix node, q => node.check q.qname
  | not r, q => !r.matches q
  | and r s, q => r.matches q && s.matches q

inductive Verdict where
  | drop
  | noerror
  | spoof (ip : Addr)
  | pool (name : Text)
  deriving DecidableEq, Repr

inductive Action where
  | final (v : Verdict)
  | setEcsOverride (b : Bool)
  | setEcs (nets : List Text)

/-- What the chain does with a query; none where no action ends the search. -/
def answer : List (QRule × Action) → Query → Option Verdict
  | [], _ => none
  | (r, .final v) :: chain, q => if r.matches q then some v else answer chain q
  | (_, .setEcsOverride _) :: chain, q => answer chain q
  | (_, .setEcs _) :: chain, q => answer chain q

section Template

variable (gfwList chinaList : SuffixNode) (serverIP : Addr)

def privateClientRule : QRule := .net clientNet

def nonPrivateClientRule : QRule := .not privateClientRule

/-- The actions of the template, in order. -/
def actionChain : List (QRule × Action) :=
  [(.and nonPrivateClientRule (.dport 53), .final .drop),
   (.maxQpsIp, .final .drop),
   (.qtype .aaaa, .final .noerror),
   (.and (.suffix gfwList) (.qtype .a), .final (.spoof serverIP)),
   (.suffix chinaList, .setEcsOverride true),
   (.suffix chinaList, .setEcs [lit "139.226.48.0/24"]),
   (.suffix chinaList, .final (.pool (lit "china"))),
   (.and privateClientRule (.qtype .a), .final (.spoof serverIP)),
   (.and privateClientRule .all, .setEcsOverride true),
   (.and privateClientRule .all, .setEcs [lit "0.0.0.0/0", lit "::/0"]),
   (.and privateClientRule .all, .final (.pool (lit "remote"))),
   (.and nonPrivateClientRule .all, .setEcsOverride true),
   (.and nonPrivateClientRule .all, .setEcs [lit "0.0.0.0/0", lit "::/0"]),
   (.and nonPrivateClientRule .all, .final (.pool (lit "remote")))]

/-- An A query. -/
def aQuery (c : Client) (dport : Nat) (qname : Name) (overLimit : Bool) : Query :=
  ⟨c, dport, qname, .a, overLimit⟩

/-- **`IsSpoofed`** — the client gets the gateway's own address. -/
def IsSpoofed (q : Query) : Prop :=
  answer (actionChain gfwList chinaList serverIP) q = some (.spoof serverIP)

/-- Who gets the gateway's own address: a client of the network unless the ChinaList decides first,
and everyone for a name of the GFWList. -/
theorem isSpoofed_iff (c : Client) (dport : Nat) (qname : Name) (overLimit : Bool) :
    IsSpoofed gfwList chinaList serverIP (aQuery c dport qname overLimit) ↔
      overLimit = false ∧
        (clientNet.contains c.source = true ∨ dport ≠ 53) ∧
          (gfwList.check qname = true ∨
            chinaList.check qname = false ∧ clientNet.contains c.source = true) := by
  obtain ⟨inNet, hnet⟩ : ∃ b, clientNet.contains c.source = b := ⟨_, rfl⟩
  obtain ⟨onGfw, hgfw⟩ : ∃ b, gfwList.check qname = b := ⟨_, rfl⟩
  obtain ⟨onChina, hchina⟩ : ∃ b, chinaList.check qname = b := ⟨_, rfl⟩
  -- the chain only asks for these, the port and the limit
  simp only [IsSpoofed, answer, actionChain, aQuery, QRule.matches, nonPrivateClientRule,
    privateClientRule, hnet, hgfw, hchina]
  cases inNet with
  | true => cases overLimit <;> cases onGfw <;> cases onChina <;> simp
  | false =>
    by_cases hport : dport = 53
    · simp [hport]
    · cases overLimit <;> cases onGfw <;> cases onChina <;> simp [hport]

/-- **`spoof_reachable_iff`** — an A query that is answered with the gateway's own address comes from
a client that the firewall lets through to the proxies, exactly if the client belongs to the network
(or to the gateway itself), or the GFWList action does not get to decide: the query is dropped, or
its name is not on the list. -/
theorem spoof_reachable_iff (hasNft : Bool) (c : Client) (dport : Nat) (qname : Name)
    (overLimit : Bool) :
    (IsSpoofed gfwList chinaList serverIP (aQuery c dport qname overLimit) →
        ReachesProxies (setupFirewall hasNft) c) ↔
      clientNet.contains c.source = true ∨ c.loopback = true ∨
        dport = 53 ∨ overLimit = true ∨ gfwList.check qname = false := by
  rw [isSpoofed_iff, reachesProxies_iff]
  cases clientNet.contains c.source with
  | true => simp
  | false =>
    cases c.loopback with
    | true => simp
    | false =>
      cases overLimit with
      | true => simp
      | false =>
        cases gfwList.check qname with
        | false => simp
        | true => simp [Classical.or_iff_not_imp_left]

end Template

/-- A client on the internet asks over DoT for a name of the GFWList: it is sent to the gateway,
which does not let it in. -/
theorem publicDoT_is_misled :
    ¬ ∀ (gfwList chinaList : SuffixNode) (serverIP : Addr) (hasNft : Bool) (c : Client) (dport : Nat)
        (qname : Name) (overLimit : Bool),
      IsSpoofed gfwList chinaList serverIP (aQuery c dport qname overLimit) →
        ReachesProxies (setupFirewall hasNft) c := by
  intro hclaim
  have hreach := hclaim [[lit "google", lit "com"]] [] (ipv4 203 0 113 7) true
    ⟨ipv4 198 51 100 9, false⟩ 853 [lit "www", lit "google", lit "com"] false
    (by unfold IsSpoofed; decide)
  exact absurd (hreach (.tcp, 443) (by decide)) (by decide)

end ProxyGateway.Dns
