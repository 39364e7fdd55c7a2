/-
# ProxyGateway.Firewall.CertHooks — what a certificate renewal does to the ports opened by hand

A renewal needs TCP/80 from everywhere for a moment.  The pre-hook inserts an accepting rule into
the live chain; the post-hook does not take that rule out again, it loads `/etc/nftables.conf`, which
starts with `flush ruleset`.  Whatever the bot had put into the live chain goes with it: the bot
writes to the kernel only, the file is the installer's.

The bot can open ports and never close one here: the first rule of the installer's chain names no
port, which ends its JSON parser, and the text listing it falls back on shows no handles
(`opFirewallDelPortKey_live`).  So the live chain is the installer's followed by one rule per port
opened (`run_chain`), and a renewal leaves the access as it was exactly when each of these ports is
open to everyone in the file as well (`sameAccess_renew_iff`).
-/
import ProxyGateway.Firewall.InputChain
import ProxyGateway.Firewall.NftPorts

namespace ProxyGateway.Firewall

open ProxyGateway.Lang

/-! ## The live chain -/

/-- A rule in the kernel, under its handle. -/
structure Held where
  handle : Nat
  rule : InputRule

/-- The number or the set that nft prints for some ports. -/
def portsRight : List Nat → Right
  | [n] => .num n
  | ns => .set (ns.map .num)

def Proto.text : Proto → Text
  | .tcp => lit "tcp"
  | .udp => lit "udp"
  | .icmp => lit "icmp"

/-- The expressions of a rule: its matches, then the verdict.  The bot reads the protocol and the
field of payload matches only, and the right-hand side of a port match. -/
def InputRule.expr (r : InputRule) : List Expr :=
  let lo := if r.loopback then [.isMatch ⟨.eq, [], [], .other⟩] else []
  let ct := if r.established then [.isMatch ⟨.eq, [], [], .other⟩] else []
  let saddr := if r.source.isSome then [.isMatch ⟨.eq, lit "ip", lit "saddr", .other⟩] else []
  let l4 := match r.proto, r.dports with
    | some proto, some ports => [.isMatch ⟨.eq, proto.text, lit "dport", portsRight ports⟩]
    | some _, none => [.isMatch ⟨.eq, lit "ip", lit "protocol", .other⟩]
    | none, _ => []
  lo ++ ct ++ saddr ++ l4 ++ [.accept]

def Held.json (r : Held) : Rule where
  family := lit "inet"
  table := lit "filter"
  chain := lit "input"
  handle := r.handle
  expr := r.rule.expr

theorem Held.inInput_json (r : Held) : r.json.inInput = true := rfl

theorem inputRules_json (held : List Held) :
    inputRules (held.map fun r => .rule r.json) = held.map Held.json := by
  induction held with
  | nil => rfl
  | cons r held ih =>
    rw [List.map_cons, List.map_cons, ← ih]
    exact List.filterMap_cons_some (if_pos r.inInput_json)

/-- **`Live`** — the chain `inet filter input` in the kernel.  No handle is given twice. -/
structure Live where
  held : List Held
  next : Nat
  next_pos : 0 < next
  handle_pos : ∀ r ∈ held, 0 < r.handle
  handle_lt : ∀ r ∈ held, r.handle < next
  handle_nodup : (held.map Held.handle).Nodup

namespace Live

def chain (l : Live) : List InputRule := l.held.map Held.rule

/-- `nft -j list ruleset` -/
def ruleset (l : Live) : Ruleset where
  objects := l.held.map fun r => .rule r.json
  handle_pos := by
    rw [inputRules_json]
    intro j hj
    obtain ⟨r, hr, rfl⟩ := List.mem_map.mp hj
    exact l.handle_pos r hr
  handle_nodup := by
    rw [inputRules_json, List.map_map]
    exact l.handle_nodup

theorem ruleset_rules (l : Live) : l.ruleset.rules = l.held.map Held.json := inputRules_json l.held

/-- A rule that comes in gets the next handle, wherever in the chain it is put. -/
def give (l : Live) (rule : InputRule) (held : List Held)
    (hheld : held.Perm (⟨l.next, rule⟩ :: l.held)) : Live where
  held := held
  next := l.next + 1
  next_pos := Nat.succ_pos _
  handle_pos := by
    intro r hr
    rcases List.mem_cons.mp (hheld.mem_iff.mp hr) with rfl | hr
    · exact l.next_pos
    · exact l.handle_pos r hr
  handle_lt := by
    intro r hr
    rcases List.mem_cons.mp (hheld.mem_iff.mp hr) with rfl | hr
    · exact Nat.lt_succ_self _
    · exact Nat.lt_succ_of_lt (l.handle_lt r hr)
  handle_nodup := by
    rw [(hheld.map Held.handle).nodup_iff, List.map_cons, List.nodup_cons]
    refine ⟨fun hmem => ?_, l.handle_nodup⟩
    obtain ⟨r, hr, heq⟩ := List.mem_map.mp hmem
    have hlt := l.handle_lt r hr
    simp only at heq
    omega

/-- `nft add rule inet filter input …` -/
def add (l : Live) (rule : InputRule) : Live :=
  l.give rule (l.held ++ [⟨l.next, rule⟩]) (List.perm_append_singleton _ _)

/-- `nft insert rule inet filter input …` -/
def insert (l : Live) (rule : InputRule) : Live := l.give rule (⟨l.next, rule⟩ :: l.held) (.refl _)

/-- The rules that a deletion leaves. -/
def keep (l : Live) (left : Ruleset) : Live where
  held := l.held.filter fun r => r.json ∈ left.rules
  next := l.next
  next_pos := l.next_pos
  handle_pos r hr := l.handle_pos r (List.mem_of_mem_filter hr)
  handle_lt r hr := l.handle_lt r (List.mem_of_mem_filter hr)
  handle_nodup := l.handle_nodup.sublist (List.filter_sublist.map _)

theorem firstHandle_pos : 0 < 4 := by decide

/-- The chain before its first rule.  The three chains of the table have taken handles. -/
def empty : Live := ⟨[], 4, firstHandle_pos, nofun, nofun, .nil⟩

/-- `nft -f` of a file that flushes the ruleset first. -/
def load (conf : List InputRule) : Live := conf.foldl add empty

@[simp] theorem chain_add (l : Live) (rule : InputRule) : (l.add rule).chain = l.chain ++ [rule] :=
  List.map_append

@[simp] theorem chain_insert (l : Live) (rule : InputRule) :
    (l.insert rule).chain = rule :: l.chain := rfl

@[simp] theorem chain_load (conf : List InputRule) : (load conf).chain = conf := by
  have hfold : ∀ l : Live, (conf.foldl add l).chain = l.chain ++ conf := by
    induction conf with
    | nil =>
      intro l
      exact (List.append_nil _).symm
    | cons rule conf ih =>
      intro l
      rw [List.foldl_cons, ih, chain_add, List.append_assoc, List.singleton_append]
  exact hfold empty

end Live

/-! ## The bot -/

def L4.packet : L4 → Proto
  | .tcp => .tcp
  | .udp => .udp

/-- `<proto> dport <number> accept` -/
def portRule (p : Port) : InputRule := { proto := some p.proto.packet, dports := some [p.number] }

/-- **`Outside`** — what the bot and `nft` bring along: Python's decimal digits, how `nft` reads a
port on its command line, and how `nft list chain inet filter input` prints a chain.  Without `-a`
nothing of the listing starts with `#`. -/
structure Outside where
  digit : Char → Option Nat
  readPort : Text → Option Nat
  listChain : List InputRule → Text
  listChain_plain : ∀ chain, '#' ∉ listChain chain

/-- What the operator asks for, and whether the text listing and the change itself work. -/
inductive Request where
  | addPort (port proto : Text) (lists adds : Bool)
  | delPort (key : Text) (lists deletes : Bool)
  deriving DecidableEq, Repr

section Bot

variable (o : Outside) (h : Host)

/-- `int(port)` of a text that `isdigit` accepts. -/
def Outside.int (port : Text) : Option Nat := do
  let digits ← if port = [] then none else port.mapM o.digit
  some (digits.foldl (10 * · + ·) 0)

def readProto (proto : Text) : Option L4 :=
  if proto = lit "tcp" then some .tcp else if proto = lit "udp" then some .udp else none

/-- The text listing; empty when the command fails. -/
def Outside.stdout (l : Live) (lists : Bool) : Text := if lists then o.listChain l.chain else []

/-- **`_nft_port_exists`** -/
def nftPortExists (l : Live) (lists : Bool) (port proto : Text) : Bool :=
  (parseNftOpenPorts h l.ruleset (o.stdout l lists)).any fun e =>
    e.port == port && e.proto == proto

/-- **`op_firewall_add_port`** and `_nft_add_port` — the port opened, if all went well. -/
def opFirewallAddPort (l : Live) (port proto : Text) (lists adds : Bool) : Option Port := do
  let n ← o.int port
  if 1 ≤ n ∧ n ≤ 65535 then
    let l4 ← readProto proto
    if nftPortExists o h l lists port proto then none
    else if adds then (o.readPort port).map (⟨l4, ·⟩) else none
  else none

/-- The port that a request opens. -/
def opened (l : Live) : Request → Option Port
  | .addPort port proto lists adds => opFirewallAddPort o h l port proto lists adds
  | .delPort .. => none

/-- What a request does to the chain. -/
def serve (l : Live) : Request → Live
  | .addPort port proto lists adds =>
    match opFirewallAddPort o h l port proto lists adds with
    | some p => l.add (portRule p)
    | none => l
  | .delPort key lists deletes =>
    match opFirewallDelPortKey h l.ruleset (o.stdout l lists) deletes key with
    | .closed left => l.keep left
    | _ => l

def serveAll (l : Live) (requests : List Request) : Live := requests.foldl (serve o h) l

/-- The ports that a run of requests opens, in order. -/
def openings (l : Live) : List Request → List Port
  | [] => []
  | r :: requests => (opened o h l r).toList ++ openings (serve o h l r) requests

end Bot

/-- The first rule of the installer's chain. -/
def loopbackRule : InputRule := { loopback := true }

section Closing

variable {o : Outside} {h : Host} {l : Live}

/-- Behind `iif "lo" accept` the parser reads the ports of a port match that it has not met. -/
theorem parseNftOpenPorts_loopback {chain : List InputRule} (hchain : l.chain = loopbackRule :: chain)
    (stdout : Text) : parseNftOpenPorts h l.ruleset stdout = parseText h stdout := by
  obtain ⟨r, held, hheld, hrule, -⟩ := List.map_eq_cons_iff.mp hchain
  have hfirst : parseRules h l.ruleset.rules ⟨none, []⟩ [] = [] := by
    rw [Live.ruleset_rules, hheld, List.map_cons, parseRules]
    simp [Rule.hasAccept, Held.json, hrule, InputRule.expr, loopbackRule, parseExprs]
  rw [parseNftOpenPorts, hfirst]

/-- **`opFirewallDelPortKey_live`** — nothing can be closed. -/
theorem opFirewallDelPortKey_live {chain : List InputRule}
    (hchain : l.chain = loopbackRule :: chain) (lists deletes : Bool) (key : Text) (left : Ruleset) :
    opFirewallDelPortKey h l.ruleset (o.stdout l lists) deletes key ≠ .closed left := by
  intro hclosed
  have hplain : '#' ∉ o.stdout l lists := by
    unfold Outside.stdout
    split
    · exact o.listChain_plain _
    · exact List.not_mem_nil
  obtain ⟨r, -, hfound, -⟩ := opFirewallDelPortKey_closed hclosed
  obtain ⟨target, htarget, hrest⟩ := Option.bind_eq_some_iff.mp hfound
  rw [parseNftOpenPorts_loopback hchain] at htarget
  have hnone := parseText_handle h hplain target (List.mem_of_find?_eq_some htarget)
  rw [hnone] at hrest
  nomatch hrest

end Closing

/-- A request appends the rule of the port it opens. -/
theorem serve_chain (o : Outside) (h : Host) {l : Live} {chain : List InputRule}
    (hchain : l.chain = loopbackRule :: chain) (r : Request) :
    (serve o h l r).chain = l.chain ++ (opened o h l r).toList.map portRule := by
  cases r with
  | addPort port proto lists adds =>
    cases hadd : opFirewallAddPort o h l port proto lists adds with
    | none => simp [serve, opened, hadd]
    | some p => simp [serve, opened, hadd]
  | delPort key lists deletes =>
    have hsame : serve o h l (.delPort key lists deletes) = l := by
      cases hdel : opFirewallDelPortKey h l.ruleset (o.stdout l lists) deletes key with
      | closed left => exact absurd hdel (opFirewallDelPortKey_live hchain lists deletes key left)
      | refused => simp only [serve, hdel]
      | notFound => simp only [serve, hdel]
      | noHandle => simp only [serve, hdel]
      | failed => simp only [serve, hdel]
    rw [hsame]
    exact (List.append_nil _).symm

/-- So does a run of requests. -/
theorem serveAll_chain (o : Outside) (h : Host) {l : Live} {chain : List InputRule}
    (hchain : l.chain = loopbackRule :: chain) (requests : List Request) :
    (serveAll o h l requests).chain = l.chain ++ (openings o h l requests).map portRule := by
  induction requests generalizing l chain with
  | nil => simp [serveAll, openings]
  | cons r requests ih =>
    have hone := serve_chain o h hchain r
    have hhead : (serve o h l r).chain =
        loopbackRule :: (chain ++ (opened o h l r).toList.map portRule) := by
      rw [hone, hchain, List.cons_append]
    have hrest : serveAll o h l (r :: requests) = serveAll o h (serve o h l r) requests := rfl
    rw [hrest, ih hhead, hone, openings, List.map_append, List.append_assoc]

/-! ## A renewal -/

/-- What a renewal works on: the file of the installer, the chain in the kernel, and whether
SNIProxy runs. -/
structure Machine where
  conf : List InputRule
  live : Live
  sniproxy : Bool

/-- Whether the table is listed and the rule inserted, whether the file loads, and whether SNIProxy
starts. -/
structure Answers where
  inserts : Bool
  loads : Bool
  starts : Bool
  deriving DecidableEq, Repr

/-- After `setup_firewall`. -/
def Machine.setup (sniproxy : Bool) : Machine := ⟨nftInput, Live.load nftInput, sniproxy⟩

/-- `tcp dport 80 accept` -/
def httpRule : InputRule := portRule ⟨.tcp, 80⟩

/-- **`open_cert_http_port`** -/
def openCertHttpPort (a : Answers) (l : Live) : Live := if a.inserts then l.insert httpRule else l

/-- `nft -f /etc/nftables.conf 2>/dev/null || true` -/
def loadConf (a : Answers) (conf : List InputRule) (l : Live) : Live :=
  if a.loads then Live.load conf else l

theorem openCertHttpPort_chain (a : Answers) (l : Live) :
    (openCertHttpPort a l).chain = if a.inserts then httpRule :: l.chain else l.chain := by
  unfold openCertHttpPort
  split
  · exact l.chain_insert httpRule
  · rfl

theorem loadConf_chain (a : Answers) (conf : List InputRule) (l : Live) :
    (loadConf a conf l).chain = if a.loads then conf else l.chain := by
  unfold loadConf
  split
  · exact Live.chain_load conf
  · rfl

/-- `proxy-gateway-open-cert-http.sh` -/
def preHook (a : Answers) (m : Machine) : Machine :=
  { m with sniproxy := false, live := openCertHttpPort a m.live }

/-- `proxy-gateway-restore-firewall.sh` -/
def postHook (a : Answers) (m : Machine) : Machine :=
  { m with sniproxy := m.sniproxy || a.starts, live := loadConf a m.conf m.live }

/-- **`prepare_certbot_standalone`** — also says whether SNIProxy was stopped. -/
def prepareCertbotStandalone (a : Answers) (m : Machine) : Machine × Bool :=
  ({ m with sniproxy := false, live := openCertHttpPort a m.live }, m.sniproxy)

/-- **`cleanup_certbot_standalone`** — `setup_firewall` writes the file anew and loads it. -/
def cleanupCertbotStandalone (a : Answers) (stopped : Bool) (m : Machine) : Machine where
  conf := nftInput
  live := loadConf a nftInput m.live
  sniproxy := m.sniproxy || stopped && a.starts

/-- The two ways to renew. -/
inductive Renewal where
  | hooks | standalone
  deriving DecidableEq, Repr

/-- **`renew`** — opening, certbot, restoring. -/
def renew (a : Answers) (m : Machine) : Renewal → Machine
  | .hooks => postHook a (preHook a m)
  | .standalone =>
    let (m, stopped) := prepareCertbotStandalone a m
    cleanupCertbotStandalone a stopped m

/-- The bot works on the kernel only. -/
def Machine.serveAll (o : Outside) (h : Host) (m : Machine) (requests : List Request) : Machine :=
  { m with live := Firewall.serveAll o h m.live requests }

/-- Both ways leave the same chain. -/
theorem renew_chain (a : Answers) {m : Machine} (hconf : m.conf = nftInput) (w : Renewal) :
    (renew a m w).live.chain =
      if a.loads then nftInput
      else if a.inserts then httpRule :: m.live.chain
      else m.live.chain := by
  cases w with
  | hooks =>
    show (loadConf a m.conf (openCertHttpPort a m.live)).chain = _
    rw [loadConf_chain, openCertHttpPort_chain, hconf]
  | standalone =>
    show (loadConf a nftInput (openCertHttpPort a m.live)).chain = _
    rw [loadConf_chain, openCertHttpPort_chain]

/-! ## Access -/

/-- **`SameAccess`** — two chains let in the same packets, whatever their source. -/
def SameAccess (before after : List InputRule) : Prop := ∀ p, accepts after p = accepts before p

/-- The ports that the installer's chain opens to every source. -/
def openToAll : List Port := tcpPorts.map (⟨.tcp, ·⟩) ++ [⟨.udp, 53⟩]

theorem accepts_append (a b : List InputRule) (p : Packet) :
    accepts (a ++ b) p = (accepts a p || accepts b p) := List.any_append

theorem portRule_matches_iff (port : Port) (p : Packet) :
    (portRule port).matches p = true ↔ p.proto = port.proto.packet ∧ p.dport = port.number := by
  simp only [portRule, InputRule.matches, Bool.not_false, Bool.true_or, Bool.true_and,
    Option.all_none, Option.all_some, Bool.and_eq_true, decide_eq_true_eq, List.mem_singleton]
  exact and_congr_left' eq_comm

/-- A packet from outside the clients' network that opens a connection to a port. -/
def stranger (port : Port) : Packet :=
  ⟨false, false, ipv4 198 51 100 1, port.proto.packet, port.number⟩

theorem accepts_stranger_iff (port : Port) :
    accepts nftInput (stranger port) = true ↔ port ∈ openToAll := by
  obtain ⟨l4, n⟩ := port
  have hforeign : clientNet.contains (ipv4 198 51 100 1) = false := by decide
  have hopen : (⟨l4, n⟩ : Port) ∈ openToAll ↔
      l4 = .tcp ∧ n ∈ tcpPorts ∨ l4 = .udp ∧ n = 53 := by
    simp only [openToAll, List.mem_append, List.mem_map, Port.mk.injEq, List.mem_singleton]
    grind
  rw [hopen]
  cases l4 with
  | tcp => simp [nftInput, accepts, InputRule.matches, stranger, L4.packet, hforeign, tcpPorts]
  | udp => simp [nftInput, accepts, InputRule.matches, stranger, L4.packet, hforeign]

/-- A rule for such a port changes nothing. -/
theorem accepts_of_openToAll {port : Port} (hport : port ∈ openToAll) {p : Packet}
    (hp : (portRule port).matches p = true) : accepts nftInput p = true := by
  obtain ⟨hproto, hdport⟩ := (portRule_matches_iff port p).mp hp
  simp only [openToAll, List.mem_append, List.mem_map, List.mem_singleton] at hport
  rcases hport with ⟨n, hn, rfl⟩ | rfl
  · have hmatch : ({ proto := some .tcp, dports := some tcpPorts } : InputRule).matches p = true := by
      simp_all [InputRule.matches, L4.packet]
    exact List.any_eq_true.mpr ⟨_, by simp [nftInput], hmatch⟩
  · have hmatch : ({ proto := some .udp, dports := some [53] } : InputRule).matches p = true := by
      simp_all [InputRule.matches, L4.packet]
    exact List.any_eq_true.mpr ⟨_, by simp [nftInput], hmatch⟩

theorem packet_injective {a b : L4} (h : a.packet = b.packet) : a = b := by
  cases a <;> cases b <;> first | rfl | nomatch h

theorem accepts_portRules_stranger (ports : List Port) (port : Port) :
    accepts (ports.map portRule) (stranger port) = true ↔ port ∈ ports := by
  simp only [accepts, List.any_map, List.any_eq_true, Function.comp_apply, portRule_matches_iff]
  constructor
  · rintro ⟨q, hq, hproto, hnumber⟩
    have heq : port = q := by
      obtain ⟨l4, n⟩ := port
      obtain ⟨l4', n'⟩ := q
      obtain rfl : l4 = l4' := packet_injective hproto
      obtain rfl : n = n' := hnumber
      rfl
    exact heq ▸ hq
  · intro h
    exact ⟨port, h, rfl, rfl⟩

/-- **`Spared`** — every port opened by hand is open to everyone in the file too.  Where the file
does not load, the rule for TCP/80 stays, and must not be news. -/
def Spared (a : Answers) (ports : List Port) : Prop :=
  if a.loads then ∀ p ∈ ports, p ∈ openToAll else a.inserts = true → ⟨.tcp, 80⟩ ∈ ports

/-- Loading the file forgets the rules behind it. -/
theorem sameAccess_forget_iff (ports : List Port) :
    SameAccess (nftInput ++ ports.map portRule) nftInput ↔ ∀ p ∈ ports, p ∈ openToAll := by
  constructor
  · intro hsame port hport
    have hbefore : accepts (nftInput ++ ports.map portRule) (stranger port) = true := by
      rw [accepts_append, (accepts_portRules_stranger ports port).mpr hport, Bool.or_true]
    exact (accepts_stranger_iff port).mp ((hsame (stranger port)).trans hbefore)
  · intro hall p
    rw [accepts_append]
    cases hrules : accepts (ports.map portRule) p with
    | false => exact (Bool.or_false _).symm
    | true =>
      obtain ⟨rule, hrule, hmatch⟩ := List.any_eq_true.mp hrules
      obtain ⟨port, hport, rfl⟩ := List.mem_map.mp hrule
      rw [accepts_of_openToAll (hall port hport) hmatch, Bool.or_true]

/-- The inserted rule stays harmless where TCP/80 was open before. -/
theorem sameAccess_leftOpen_iff (ports : List Port) :
    SameAccess (nftInput ++ ports.map portRule) (httpRule :: (nftInput ++ ports.map portRule)) ↔
      ⟨.tcp, 80⟩ ∈ ports := by
  have hcons : ∀ p, accepts (httpRule :: (nftInput ++ ports.map portRule)) p =
      (httpRule.matches p || accepts (nftInput ++ ports.map portRule) p) := fun _ => rfl
  constructor
  · intro hsame
    have hafter : accepts (nftInput ++ ports.map portRule) (stranger ⟨.tcp, 80⟩) = true := by
      rw [← hsame, hcons]
      rfl
    rw [accepts_append, Bool.or_eq_true] at hafter
    rcases hafter with hfile | hrules
    · exact absurd ((accepts_stranger_iff _).mp hfile) (by decide)
    · exact (accepts_portRules_stranger ports _).mp hrules
  · intro hmem p
    rw [hcons]
    cases hmatch : httpRule.matches p with
    | false => exact Bool.false_or _
    | true =>
      have hrules : accepts (ports.map portRule) p = true :=
        List.any_eq_true.mpr ⟨httpRule, List.mem_map_of_mem hmem, hmatch⟩
      rw [accepts_append, hrules, Bool.or_true, Bool.or_true]

/-- **`sameAccess_renew_iff`** — whatever the bot was asked for since `setup_firewall`, a renewal
leaves the access as it was exactly when the ports opened by hand are spared. -/
theorem sameAccess_renew_iff (o : Outside) (h : Host) (a : Answers) (sniproxy : Bool)
    (requests : List Request) (w : Renewal) :
    let m := (Machine.setup sniproxy).serveAll o h requests
    SameAccess m.live.chain (renew a m w).live.chain ↔
      Spared a (openings o h (Machine.setup sniproxy).live requests) := by
  intro m
  have hchain : m.live.chain =
      nftInput ++ (openings o h (Machine.setup sniproxy).live requests).map portRule := by
    have hrun := serveAll_chain o h (l := Live.load nftInput) (Live.chain_load nftInput) requests
    rwa [Live.chain_load] at hrun
  rw [renew_chain a rfl w, hchain]
  unfold Spared
  split
  · exact sameAccess_forget_iff _
  · split
    · next hins => simp only [hins, forall_const, sameAccess_leftOpen_iff]
    · next hins => simp [hins, SameAccess]

/-! ## A port opened by hand -/

def portsText : List Nat → Text
  | [] => []
  | [n] => decimal n
  | n :: ns => decimal n ++ lit ", " ++ portsText ns

/-- A single number, or a set in braces. -/
def portSetText : List Nat → Text
  | [n] => decimal n
  | ns => ['{', ' '] ++ portsText ns ++ [' ', '}']

def Net.text (n : Net) : Text :=
  let byte (k : Nat) : Text := decimal (n.base.toNat / 256 ^ k % 256)
  byte 3 ++ '.' :: byte 2 ++ '.' :: byte 1 ++ '.' :: byte 0 ++ '/' :: decimal n.len

/-- A rule as `nft list` prints it. -/
def InputRule.text (r : InputRule) : Text :=
  (if r.loopback then lit "iif \"lo\" " else [])
    ++ (if r.established then lit "ct state established,related " else [])
    ++ (match r.source with
      | some net => lit "ip saddr " ++ net.text ++ [' ']
      | none => [])
    ++ (match r.proto, r.dports with
      | some proto, some ports => proto.text ++ lit " dport " ++ portSetText ports ++ [' ']
      | some proto, none => lit "ip protocol " ++ proto.text ++ [' ']
      | none, _ => [])
    ++ lit "accept"

def listChainText (chain : List InputRule) : Text :=
  lit "type filter hook input priority filter; policy drop;\n" ++
    chain.flatMap fun r => '\t' :: r.text ++ ['\n']

theorem hash_not_mem_decimal (n : Nat) : '#' ∉ decimal n := by
  intro hmem
  exact absurd (Nat.isDigit_of_mem_toDigits (by decide) (by decide) hmem) (by decide)

theorem hash_not_mem_portsText (ns : List Nat) : '#' ∉ portsText ns := by
  induction ns with
  | nil => exact List.not_mem_nil
  | cons n ns ih =>
    cases ns with
    | nil => exact hash_not_mem_decimal n
    | cons m ns =>
      rw [portsText]
      · simp [lit, hash_not_mem_decimal, ih]
      · nofun

theorem hash_not_mem_text (r : InputRule) : '#' ∉ r.text := by
  have hports : ∀ ns, '#' ∉ portSetText ns := by
    intro ns
    unfold portSetText
    split
    · exact hash_not_mem_decimal _
    · simp [hash_not_mem_portsText]
  have hproto : ∀ proto : Proto, '#' ∉ proto.text := by
    intro proto
    cases proto <;> decide
  have hnet : ∀ net : Net, '#' ∉ net.text := by
    intro net
    simp [Net.text, hash_not_mem_decimal]
  unfold InputRule.text
  simp only [List.mem_append, not_or]
  refine ⟨⟨⟨⟨?_, ?_⟩, ?_⟩, ?_⟩, by decide⟩
  · split <;> decide
  · split <;> decide
  · split
    · simp [lit, hnet]
    · exact List.not_mem_nil
  · split
    · simp [lit, hproto, hports]
    · simp [lit, hproto]
    · exact List.not_mem_nil

theorem hash_not_mem_listChainText (chain : List InputRule) : '#' ∉ listChainText chain := by
  intro hmem
  rcases List.mem_append.mp hmem with hhead | hrules
  · exact absurd hhead (by decide)
  · obtain ⟨r, -, hline⟩ := List.mem_flatMap.mp hrules
    rcases List.mem_append.mp hline with hrule | hend
    · exact hash_not_mem_text r ((List.mem_cons.mp hrule).resolve_left (by decide))
    · exact absurd hend (by decide)

/-- ASCII digits, and a port as they spell it. -/
def plainOutside : Outside where
  digit c := if c.isDigit then some (c.toNat - '0'.toNat) else none
  readPort t := if t.all Char.isDigit then some (natOf t) else none
  listChain := listChainText
  listChain_plain := hash_not_mem_listChainText

/-- 8443/tcp, opened by the bot, is closed by the next renewal. -/
theorem renewal_closes_port :
    ¬ ∀ (o : Outside) (h : Host) (sniproxy : Bool) (requests : List Request) (w : Renewal),
      let m := (Machine.setup sniproxy).serveAll o h requests
      SameAccess m.live.chain (renew ⟨true, true, true⟩ m w).live.chain := by
  intro hclaim
  have hsame := hclaim plainOutside quietHost true [.addPort (lit "8443") (lit "tcp") true true]
    .hooks (stranger ⟨.tcp, 8443⟩)
  have hbefore : accepts ((Machine.setup true).serveAll plainOutside quietHost
      [.addPort (lit "8443") (lit "tcp") true true]).live.chain (stranger ⟨.tcp, 8443⟩) = true := by
    decide
  have hafter : accepts nftInput (stranger ⟨.tcp, 8443⟩) = false := by decide
  rw [hbefore] at hsame
  exact absurd (hafter.symm.trans hsame) (by decide)

end ProxyGateway.Firewall
