/-
# ProxyGateway.Exits.Legacy — what a sing-box exit loses on its way to mihomo

An exit that was added before the change of engine lies on disk as sing-box JSON, and the router reads
it with `parse_singbox_exit`.  The square that ought to commute: URI to sing-box to mihomo, against URI
to mihomo directly.

`parse_singbox_exit` carries over addresses and credentials.  It has no line for the certificate flag,
Reality, obfuscation, gRPC, or the `Host` header, for TLS of `vless` and `http`, and it refuses
`anytls`.  `Keeps` lists, scheme by scheme, the URIs that need none of these, and
`sameSettings_iff` says that the square commutes on exactly those.
-/
import ProxyGateway.Exits.Generators

namespace ProxyGateway.Exits

open ProxyGateway.Lang
open Mihomo (Proxy flag ifTruthy)
open Singbox (Outbound Tls)

/-! ## The third translator -/

/-- `ob["tls"].get("server_name", "")`. -/
def Singbox.Tls.nameOrEmpty (tls : Tls) : Value := tls.serverName.getD (.str [])

/-- `ob.get("tls", {}).get("server_name", "")`. -/
def Singbox.Outbound.nameOrEmpty (ob : Outbound) : Value :=
  (ob.tls.bind (·.serverName)).getD (.str [])

/-- A key that is copied if it is there and true. -/
def copyTruthy (v : Option Value) : Option Value := v.bind ifTruthy

/-- `parse_singbox_exit`, on what `json.load` gives back of an outbound; `none` is `die` or a missing
key.  The keys it never sets stay absent. -/
def parseSingboxExit (ob : Outbound) : Option Proxy :=
  match ob.type with
  | .shadowsocks => do
    let method ← ob.method
    let password ← ob.password
    pure {
      type := .ss, server := ob.server, port := ob.serverPort
      cipher := some method, password := some password }
  | .vmess => do
    let uuid ← ob.uuid
    pure {
      type := .vmess, server := ob.server, port := ob.serverPort, uuid := some uuid
      alterId := some (ob.alterId.getD (.int 0))
      cipher := some (ob.security.getD (.str (lit "auto")))
      tls := ob.tls.map fun _ => true
      servername := ob.tls.map (·.nameOrEmpty)
      network := match ob.transport with
        | some (.ws _ _) => some (lit "ws")
        | _ => none
      wsOpts := match ob.transport with
        | some (.ws path _) => some ⟨path, none⟩
        | _ => none }
  | .trojan => do
    let password ← ob.password
    pure {
      type := .trojan, server := ob.server, port := ob.serverPort, password := some password
      sni := ob.tls.map (·.nameOrEmpty) }
  | .vless => do
    let uuid ← ob.uuid
    pure {
      type := .vless, server := ob.server, port := ob.serverPort, uuid := some uuid
      servername := ob.tls.map (·.nameOrEmpty) }
  | .hysteria2 => do
    let password ← ob.password
    pure {
      type := .hysteria2, server := ob.server, port := ob.serverPort, password := some password
      sni := some ob.nameOrEmpty }
  | .tuic => do
    let uuid ← ob.uuid
    pure {
      type := .tuic, server := ob.server, port := ob.serverPort, uuid := some uuid
      password := some (ob.password.getD (.str [])), sni := some ob.nameOrEmpty }
  | .socks =>
    some {
      type := .socks5, server := ob.server, port := ob.serverPort
      username := copyTruthy ob.username, password := copyTruthy ob.password }
  | .http =>
    some {
      type := .http, server := ob.server, port := ob.serverPort
      username := copyTruthy ob.username, password := copyTruthy ob.password }
  | .anytls => none

/-! ## The same settings -/

/-- **`SameSettings`** — two mihomo proxies that reach the same server in the same way.  An empty
server name is no server name. -/
structure SameSettings (a b : Proxy) : Prop where
  type : a.type = b.type
  server : a.server = b.server
  port : a.port = b.port
  cipher : a.cipher = b.cipher
  username : a.username = b.username
  password : a.password = b.password
  uuid : a.uuid = b.uuid
  alterId : a.alterId = b.alterId
  tls : a.tls = b.tls
  serverName : a.serverName = b.serverName
  skipCertVerify : a.skipCertVerify = b.skipCertVerify
  reality : a.realityOpts = b.realityOpts
  network : a.network = b.network
  wsOpts : a.wsOpts = b.wsOpts
  grpc : a.grpcServiceName = b.grpcServiceName
  h2 : a.h2Host = b.h2Host
  obfs : a.obfs = b.obfs
  obfsPassword : a.obfsPassword = b.obfsPassword

/-- A transport that `withTransport` writes down. -/
def IsStreamed (net : Text) : Prop :=
  net = lit "ws" ∨ net = lit "websocket" ∨ net = lit "grpc"

/-- What a VMess transport may be: plain, or a WebSocket without a `Host` header. -/
def vmessKeeps (L : Library) (data : List (Text × Value)) : Prop :=
  ∀ net, netOf L (Value.get data (lit "net")) = some net →
    net ≠ lit "grpc" ∧ net ≠ lit "h2" ∧
      (net = lit "ws" ∨ net = lit "websocket" → (Value.get data (lit "host")).truthy = false)

/-- **`Keeps`** — the URI asks for nothing that `parse_singbox_exit` drops. -/
def Keeps (L : Library) (uri : Text) : Prop :=
  match schemeOf L uri with
  | some .ss | some .socks => True
  | some .vmess => ∀ data, vmessData L uri = some data → vmessKeeps L data
  | some .trojan => ∀ u, L.urlparse uri = some u →
      (Value.get (queryMap L u) (lit "allowInsecure")).isOne = false ∧
      ∀ net, netOf L (Value.get (queryMap L u) (lit "type")) = some net → ¬ IsStreamed net
  | some .vless => ∀ u, L.urlparse uri = some u →
      (∀ security, vlessSecurity L (queryMap L u) = some security →
        security ≠ lit "tls" ∧ security ≠ lit "reality") ∧
      ∀ net, netOf L ((Value.get (queryMap L u) (lit "type")).or
        (Value.get (queryMap L u) (lit "transport"))) = some net → ¬ IsStreamed net
  | some .hysteria2 => ∀ u, L.urlparse uri = some u →
      (Value.get (queryMap L u) (lit "insecure")).isOne = false ∧
      (Value.get (queryMap L u) (lit "obfs")).truthy = false
  | some .tuic => ∀ u, L.urlparse uri = some u →
      (Value.get (queryMap L u) (lit "allow_insecure")).isOne = false
  | some .http => ∀ u, L.urlparse uri = some u → isHttps L u = false
  | _ => False

section Square

variable {L : Library} {uri : Text} {m : Proxy} {ob : Outbound}

/-- The square commutes at this pair. -/
def Commutes (m : Proxy) (ob : Outbound) : Prop :=
  ∃ c, parseSingboxExit ob = some c ∧ SameSettings m c

theorem commutes_iff {c : Proxy} (h : parseSingboxExit ob = some c) :
    Commutes m ob ↔ SameSettings m c := by
  constructor
  · rintro ⟨c', hc', hsame⟩
    obtain rfl : c = c' := Option.some.inj (h.symm.trans hc')
    exact hsame
  · exact fun hsame => ⟨c, h, hsame⟩

/-- The empty server name that `.get("server_name", "")` puts in is no server name. -/
theorem ifTruthy_nameOrEmpty (v : Value) (insecure : Bool) :
    ifTruthy (Singbox.tlsBlock v insecure).nameOrEmpty = ifTruthy v := by
  have hempty : (Value.str []).truthy = false := rfl
  unfold Singbox.Tls.nameOrEmpty Singbox.tlsBlock ifTruthy
  by_cases hv : v.truthy = true
  · simp [hv]
  · simp [hv, hempty]

theorem ifTruthy_getD_empty (v : Value) :
    ifTruthy ((ifTruthy v).getD (.str [])) = ifTruthy v := ifTruthy_nameOrEmpty v false

/-- A copied key is the key, if it is only ever set to a true value. -/
theorem copyTruthy_ifTruthy (v : Value) : copyTruthy (ifTruthy v) = ifTruthy v := by
  unfold copyTruthy ifTruthy
  by_cases hv : v.truthy = true
  · simp [hv]
  · simp [hv]

/-- A percent-decoded credential survives the copy. -/
theorem copyTruthy_unquote (L : Library) (t : Text) :
    copyTruthy (if t = [] then none else some (.str (L.unquote t))) =
      if t = [] then none else some (.str (L.unquote t)) := by
  by_cases ht : t = []
  · simp [ht, copyTruthy]
  · have htrue : (Value.str (L.unquote t)).truthy = true :=
      (Value.truthy_str _).mpr (L.unquote_ne_nil t ht)
    simp [ht, copyTruthy, ifTruthy, htrue]

/-- A streamed transport writes `network`, any other leaves the proxy alone. -/
theorem withTransport_eq {proxy m : Proxy} {net : Text} {path host service : Value}
    (h : Mihomo.withTransport proxy net path host service = some m) :
    (IsStreamed net ∧ m.network ≠ none) ∨ (¬ IsStreamed net ∧ m = proxy) := by
  unfold Mihomo.withTransport at h
  unfold IsStreamed
  split at h
  · next hws =>
    obtain rfl := Option.some.inj h
    exact .inl ⟨hws.imp_right .inl, by simp⟩
  · next hws =>
    split at h
    · next hgrpc =>
      obtain ⟨service, -, hm⟩ := Option.bind_eq_some_iff.mp h
      obtain rfl := Option.some.inj hm
      exact .inl ⟨.inr (.inr hgrpc), by simp⟩
    · next hgrpc =>
      refine .inr ⟨?_, (Option.some.inj h).symm⟩
      rintro (h₁ | h₂ | h₃)
      · exact hws (.inl h₁)
      · exact hws (.inr h₂)
      · exact hgrpc h₃

/-! ### Scheme by scheme -/

theorem commutes_trojan_iff (hm : Mihomo.parseTrojan L uri = some m)
    (hs : Singbox.parseTrojan L uri = some ob) :
    Commutes m ob ↔ ∀ u, L.urlparse uri = some u →
      (Value.get (queryMap L u) (lit "allowInsecure")).isOne = false ∧
      ∀ net, netOf L (Value.get (queryMap L u) (lit "type")) = some net → ¬ IsStreamed net := by
  obtain ⟨u, port, net, transport, hu, hnet, hm, rfl⟩ := trojan_both hm hs
  rw [commutes_iff rfl]
  simp only [hu, Option.some.injEq, forall_eq', hnet]
  rcases withTransport_eq hm with ⟨hstream, hnetwork⟩ | ⟨hstream, rfl⟩
  · refine iff_of_false (fun h => hnetwork h.network) fun h => h.2 hstream
  · constructor
    · intro h
      exact ⟨Mihomo.flag_eq_none.mp h.skipCertVerify, hstream⟩
    · rintro ⟨hsecure, -⟩
      constructor <;>
        simp [Mihomo.trojanProxy, Singbox.trojanOutbound, hsecure, Mihomo.Proxy.serverName,
          ifTruthy_nameOrEmpty]

theorem commutes_vless_iff (hm : Mihomo.parseVless L uri = some m)
    (hs : Singbox.parseVless L uri = some ob) :
    Commutes m ob ↔ ∀ u, L.urlparse uri = some u →
      (∀ security, vlessSecurity L (queryMap L u) = some security →
        security ≠ lit "tls" ∧ security ≠ lit "reality") ∧
      ∀ net, netOf L ((Value.get (queryMap L u) (lit "type")).or
        (Value.get (queryMap L u) (lit "transport"))) = some net → ¬ IsStreamed net := by
  obtain ⟨u, port, security, net, transport, hu, hsecurity, hnet, hm, rfl⟩ := vless_both hm hs
  rw [commutes_iff rfl]
  simp only [hu, Option.some.injEq, forall_eq', hnet, hsecurity]
  rcases withTransport_eq hm with ⟨hstream, hnetwork⟩ | ⟨hstream, rfl⟩
  · refine iff_of_false (fun h => hnetwork h.network) fun h => h.2 hstream
  · constructor
    · intro h
      refine ⟨⟨?_, ?_⟩, hstream⟩
      · rintro rfl
        exact absurd h.tls (by simp [Mihomo.vlessProxy])
      · rintro rfl
        exact absurd h.reality (by simp [Mihomo.vlessProxy])
    · rintro ⟨⟨htls, hreality⟩, -⟩
      constructor <;>
        simp [Mihomo.vlessProxy, Singbox.vlessOutbound, htls, hreality, Mihomo.Proxy.serverName]

theorem commutes_hysteria2_iff (hm : Mihomo.parseHysteria2 L uri = some m)
    (hs : Singbox.parseHysteria2 L uri = some ob) :
    Commutes m ob ↔ ∀ u, L.urlparse uri = some u →
      (Value.get (queryMap L u) (lit "insecure")).isOne = false ∧
      (Value.get (queryMap L u) (lit "obfs")).truthy = false := by
  obtain ⟨u, port, hu, rfl, rfl⟩ := hysteria2_both hm hs
  rw [commutes_iff rfl]
  simp only [hu, Option.some.injEq, forall_eq']
  constructor
  · intro h
    exact ⟨Mihomo.flag_eq_none.mp h.skipCertVerify, Mihomo.ifTruthy_eq_none.mp h.obfs⟩
  · rintro ⟨hsecure, hobfs⟩
    constructor <;>
      simp [Mihomo.hysteria2Proxy, Singbox.hysteria2Outbound, hsecure, hobfs,
        Mihomo.Proxy.serverName, Singbox.Outbound.nameOrEmpty, Singbox.tlsBlock,
        ifTruthy_getD_empty]

theorem commutes_tuic_iff (hm : Mihomo.parseTuic L uri = some m)
    (hs : Singbox.parseTuic L uri = some ob) :
    Commutes m ob ↔ ∀ u, L.urlparse uri = some u →
      (Value.get (queryMap L u) (lit "allow_insecure")).isOne = false := by
  obtain ⟨u, port, uuid, password, hu, rfl, rfl⟩ := tuic_both hm hs
  rw [commutes_iff rfl]
  simp only [hu, Option.some.injEq, forall_eq']
  constructor
  · intro h
    exact Mihomo.flag_eq_none.mp h.skipCertVerify
  · intro hsecure
    constructor <;>
      simp [Mihomo.tuicProxy, Singbox.tuicOutbound, hsecure, Mihomo.Proxy.serverName,
        Singbox.Outbound.nameOrEmpty, Singbox.tlsBlock, ifTruthy_getD_empty]

/-- A credential of the environment is not empty, so the copy keeps it. -/
theorem copyTruthy_override (v : Option Value) (e : Text) :
    copyTruthy (if e = [] then v else some (.str e)) =
      if e = [] then copyTruthy v else some (.str e) := by
  by_cases he : e = []
  · simp [he]
  · have htrue : (Value.str e).truthy = true := (Value.truthy_str e).mpr he
    simp [he, copyTruthy, ifTruthy, htrue]

theorem commutes_http_iff (env : Credentials) (hm : Mihomo.parseHttp L uri = some m)
    (hs : Singbox.parseHttp L uri = some ob) :
    Commutes (Mihomo.withCredentials env m) (Singbox.withCredentials env ob) ↔
      ∀ u, L.urlparse uri = some u → isHttps L u = false := by
  obtain ⟨u, port, hu, rfl, rfl⟩ := http_both hm hs
  rw [commutes_iff rfl]
  simp only [hu, Option.some.injEq, forall_eq']
  constructor
  · intro h
    exact Mihomo.flag_eq_none.mp h.tls
  · intro hplain
    constructor <;>
      simp [Mihomo.withCredentials, Singbox.withCredentials, Mihomo.httpProxy,
        Singbox.httpOutbound, hplain, Mihomo.Proxy.serverName, copyTruthy_override,
        copyTruthy_unquote]

/-- The transport of a VMess outbound is a WebSocket, gRPC, or none. -/
theorem vmessTransport_eq {data : List (Text × Value)} {net : Text}
    {transport : Option Singbox.Transport}
    (hnet : netOf L (Value.get data (lit "net")) = some net)
    (ht : Singbox.transportBlock L (Value.get data (lit "net")) (Value.get data (lit "host"))
      (Value.get data (lit "path")) .null = some transport) :
    (net = lit "ws" ∨ net = lit "websocket") ∧
        transport = some (.ws ((Value.get data (lit "path")).or (.str (lit "/")))
          (ifTruthy (Value.get data (lit "host")))) ∨
      ¬ (net = lit "ws" ∨ net = lit "websocket") ∧
        ∀ path host, transport ≠ some (.ws path host) := by
  simp only [Singbox.transportBlock, hnet, Option.bind_eq_bind, Option.bind_some] at ht
  split at ht
  · next hws => exact .inl ⟨hws, (Option.some.inj ht).symm⟩
  · next hws =>
    refine .inr ⟨hws, fun path host htransport => ?_⟩
    subst htransport
    split at ht
    · split at ht
      · simp at ht
      · obtain ⟨p, -, hp⟩ := Option.bind_eq_some_iff.mp ht
        simp at hp
    · simp at ht

/-- What is compared of a VMess proxy, once the transport is set aside: everything agrees. -/
theorem sameSettings_vmess_iff {data : List (Text × Value)} {port alterId : Int}
    {transport : Option Singbox.Transport} {c : Proxy}
    (hc : parseSingboxExit
      { Singbox.vmessOutbound L data port alterId with transport := transport } = some c)
    (network : Option Text) (wsOpts : Option Mihomo.WsOpts) (grpc h2 : Option Value) :
    SameSettings { Mihomo.vmessProxy L data port alterId with
        network := network, wsOpts := wsOpts, grpcServiceName := grpc, h2Host := h2 } c ↔
      network = c.network ∧ wsOpts = c.wsOpts ∧ grpc = none ∧ h2 = none := by
  obtain rfl := Option.some.inj hc
  constructor
  · intro h
    exact ⟨h.network, h.wsOpts, h.grpc, h.h2⟩
  · rintro ⟨hnetwork, hwsOpts, hgrpc, hh2⟩
    by_cases hsecure : vmessSecure L data = true
    · constructor <;> first | assumption | simp [Mihomo.vmessProxy, Singbox.vmessOutbound, hsecure,
        Mihomo.flag, Mihomo.Proxy.serverName, ifTruthy_nameOrEmpty]
    · constructor <;> first | assumption | simp [Mihomo.vmessProxy, Singbox.vmessOutbound, hsecure,
        Mihomo.flag, Mihomo.Proxy.serverName]

/-- The transport keys that are carried over. -/
theorem carried_transport {data : List (Text × Value)} {port alterId : Int}
    {transport : Option Singbox.Transport} {c : Proxy}
    (hc : parseSingboxExit
      { Singbox.vmessOutbound L data port alterId with transport := transport } = some c) :
    (∃ path host, transport = some (.ws path host) ∧ c.network = some (lit "ws") ∧
        c.wsOpts = some ⟨path, none⟩) ∨
      (∀ path host, transport ≠ some (.ws path host)) ∧ c.network = none ∧ c.wsOpts = none := by
  obtain rfl := Option.some.inj hc
  match transport with
  | some (.ws path host) => exact .inl ⟨path, host, rfl, rfl, rfl⟩
  | some (.grpc _) => exact .inr ⟨by simp, rfl, rfl⟩
  | none => exact .inr ⟨by simp, rfl, rfl⟩

theorem commutes_vmess_iff (hm : Mihomo.parseVmess L uri = some m)
    (hs : Singbox.parseVmess L uri = some ob) :
    Commutes m ob ↔ ∀ data, vmessData L uri = some data → vmessKeeps L data := by
  obtain ⟨data, port, alterId, net, transport, hdata, hnet, hm, ht, rfl⟩ := vmess_both hm hs
  obtain ⟨c, hc⟩ : ∃ c, parseSingboxExit
      { Singbox.vmessOutbound L data port alterId with transport := transport } = some c := ⟨_, rfl⟩
  rw [commutes_iff hc]
  simp only [hdata, Option.some.injEq, forall_eq', vmessKeeps, hnet]
  have hcarried := carried_transport hc
  have hsame := sameSettings_vmess_iff hc
  rcases vmessTransport_eq hnet ht with ⟨hws, rfl⟩ | ⟨hws, hother⟩
  · -- a WebSocket: the path is carried over, the `Host` header is not
    obtain ⟨path, host, htransport, hnetwork, hopts⟩ | ⟨hnone, -⟩ := hcarried
    · obtain ⟨rfl, rfl⟩ : _ = path ∧ _ = host := by simpa using htransport
      have hne : net ≠ lit "h2" ∧ net ≠ lit "grpc" := by
        rcases hws with rfl | rfl <;> decide
      rw [if_neg hne.1, Mihomo.withTransport, if_pos hws] at hm
      obtain rfl := Option.some.inj hm
      refine (hsame _ _ none none).trans ?_
      rw [hnetwork, hopts]
      simp [hne, hws]
    · exact absurd rfl (hnone _ _)
  · obtain ⟨path, host, htransport, -⟩ | ⟨-, hnetwork, hopts⟩ := hcarried
    · exact absurd htransport (hother path host)
    · split at hm
      · next h2 =>
        obtain rfl := Option.some.inj hm
        refine iff_of_false (fun h => ?_) fun h => h.2.1 h2
        exact nomatch (hnetwork ▸ h.network)
      · next h2 =>
        rcases withTransport_eq hm with ⟨hstream, hne⟩ | ⟨hstream, rfl⟩
        · refine iff_of_false (fun h => hne (h.network.trans hnetwork)) fun h => ?_
          rcases hstream with h₁ | h₁ | h₁
          · exact hws (.inl h₁)
          · exact hws (.inr h₁)
          · exact h.1 h₁
        · refine iff_of_true ((hsame none none none none).mpr ?_) ⟨?_, h2, fun h => absurd h hws⟩
          · exact ⟨hnetwork.symm, hopts.symm, rfl, rfl⟩
          · exact fun h => hstream (.inr (.inr h))

/-- The credentials of the environment only touch SOCKS and HTTP. -/
theorem commutes_withCredentials (env : Credentials) (hm : m.type ≠ .socks5 ∧ m.type ≠ .http)
    (hob : ob.type ≠ .socks ∧ ob.type ≠ .http) :
    Commutes (Mihomo.withCredentials env m) (Singbox.withCredentials env ob) ↔ Commutes m ob := by
  have hproxy : Mihomo.withCredentials env m = m := if_neg fun hor => hor.elim hm.1 hm.2
  have houtbound : Singbox.withCredentials env ob = ob := if_neg fun hor => hor.elim hob.1 hob.2
  rw [hproxy, houtbound]

/-- The transport does not touch the type. -/
theorem type_of_withTransport {proxy m : Proxy} {net : Text} {path host service : Value}
    (h : Mihomo.withTransport proxy net path host service = some m) : m.type = proxy.type := by
  obtain ⟨network, wsOpts, grpc, rfl⟩ := Mihomo.withTransport_frame h
  rfl

/-- **When a legacy exit keeps its settings.**  For every URI that both generators parse, reading the
sing-box outbound back succeeds and gives the settings of the mihomo proxy exactly when the URI asks for
nothing that `parse_singbox_exit` drops. -/
theorem legacy_keeps_iff (L : Library) (env : Credentials) (uri : Text)
    (hproxy : Mihomo.proxyFor L env uri = some m)
    (houtbound : Singbox.outboundFor L env uri = some ob) :
    (∃ c, parseSingboxExit ob = some c ∧ SameSettings m c) ↔ Keeps L uri := by
  obtain ⟨m, hm, rfl⟩ := Option.map_eq_some_iff.mp hproxy
  obtain ⟨ob, hs, rfl⟩ := Option.map_eq_some_iff.mp houtbound
  show Commutes _ _ ↔ _
  simp only [Mihomo.parseProxyUri, Singbox.parseProxyUri, Option.bind_eq_bind,
    Option.bind_eq_some_iff] at hm hs
  obtain ⟨scheme, hscheme, hm⟩ := hm
  obtain ⟨scheme', hscheme', hs⟩ := hs
  obtain rfl : scheme = scheme' := Option.some.inj (hscheme.symm.trans hscheme')
  unfold Keeps
  rw [hscheme]
  cases scheme with
  | ss =>
    refine iff_of_true ?_ trivial
    obtain ⟨⟨host, port, method, password⟩, hss, hm⟩ := Option.bind_eq_some_iff.mp hm
    obtain ⟨⟨host', port', method', password'⟩, hss', hs⟩ := Option.bind_eq_some_iff.mp hs
    obtain ⟨rfl, rfl, rfl, rfl⟩ :
        host = host' ∧ port = port' ∧ method = method' ∧ password = password' := by
      simpa using hss.symm.trans hss'
    obtain rfl := Option.some.inj hm
    dsimp only at hs
    split at hs
    · cases hs
    · obtain rfl := Option.some.inj hs
      exact (commutes_iff rfl).mpr (by constructor <;> rfl)
  | socks =>
    refine iff_of_true ?_ trivial
    obtain ⟨⟨host, port, user, password⟩, hsocks, hm⟩ := Option.bind_eq_some_iff.mp hm
    obtain ⟨⟨host', port', user', password'⟩, hsocks', hs⟩ := Option.bind_eq_some_iff.mp hs
    obtain ⟨rfl, rfl, rfl, rfl⟩ :
        host = host' ∧ port = port' ∧ user = user' ∧ password = password' := by
      simpa using hsocks.symm.trans hsocks'
    obtain rfl := Option.some.inj hm
    obtain rfl := Option.some.inj hs
    refine (commutes_iff rfl).mpr ?_
    constructor <;> simp [Mihomo.withCredentials, Singbox.withCredentials, copyTruthy_override,
      copyTruthy_ifTruthy, Mihomo.Proxy.serverName]
  | vmess =>
    have htypes : m.type = .vmess ∧ ob.type = .vmess := by
      obtain ⟨data, port, alterId, net, transport, -, -, hm, -, rfl⟩ := vmess_both hm hs
      split at hm
      · obtain rfl := Option.some.inj hm
        exact ⟨rfl, rfl⟩
      · exact ⟨type_of_withTransport hm, rfl⟩
    refine (commutes_withCredentials env ?_ ?_).trans (commutes_vmess_iff hm hs)
    · simp [htypes.1]
    · simp [htypes.2]
  | trojan =>
    have htypes : m.type = .trojan ∧ ob.type = .trojan := by
      obtain ⟨u, port, net, transport, -, -, hm, rfl⟩ := trojan_both hm hs
      exact ⟨type_of_withTransport hm, rfl⟩
    refine (commutes_withCredentials env ?_ ?_).trans (commutes_trojan_iff hm hs)
    · simp [htypes.1]
    · simp [htypes.2]
  | vless =>
    have htypes : m.type = .vless ∧ ob.type = .vless := by
      obtain ⟨u, port, security, net, transport, -, -, -, hm, rfl⟩ := vless_both hm hs
      exact ⟨type_of_withTransport hm, rfl⟩
    refine (commutes_withCredentials env ?_ ?_).trans (commutes_vless_iff hm hs)
    · simp [htypes.1]
    · simp [htypes.2]
  | hysteria2 =>
    have htypes : m.type = .hysteria2 ∧ ob.type = .hysteria2 := by
      obtain ⟨u, port, -, rfl, rfl⟩ := hysteria2_both hm hs
      exact ⟨rfl, rfl⟩
    refine (commutes_withCredentials env ?_ ?_).trans (commutes_hysteria2_iff hm hs)
    · simp [htypes.1]
    · simp [htypes.2]
  | tuic =>
    have htypes : m.type = .tuic ∧ ob.type = .tuic := by
      obtain ⟨u, port, uuid, password, -, rfl, rfl⟩ := tuic_both hm hs
      exact ⟨rfl, rfl⟩
    refine (commutes_withCredentials env ?_ ?_).trans (commutes_tuic_iff hm hs)
    · simp [htypes.1]
    · simp [htypes.2]
  | anytls =>
    obtain ⟨u, port, -, rfl, rfl⟩ := anytls_both hm hs
    refine iff_of_false ?_ id
    rintro ⟨c, hc, -⟩
    cases hc
  | http => exact commutes_http_iff env hm hs
  | wg => cases hs

end Square

/-- A Trojan server over TLS alone. -/
def trojanPlainUri : Text := lit "trojan://u@a.com?sni=b.com"

/-- The exit of `vlessTlsUri` is read back as a proxy without TLS. -/
theorem legacy_vless_loses_tls :
    ∃ m ob c, Mihomo.proxyFor sampleLibrary ⟨[], []⟩ vlessTlsUri = some m ∧
      Singbox.outboundFor sampleLibrary ⟨[], []⟩ vlessTlsUri = some ob ∧
      Mihomo.accepts sampleLibrary vlessTlsUri = true ∧ parseSingboxExit ob = some c ∧
      m.tls = some true ∧ c.tls = none := by
  obtain ⟨m, hm, htls⟩ := Option.map_eq_some_iff.mp (show
    (Mihomo.proxyFor sampleLibrary ⟨[], []⟩ vlessTlsUri).map (·.tls) = some (some true) by
      decide +kernel)
  obtain ⟨c, hc, htls'⟩ := Option.map_eq_some_iff.mp (show
    ((Singbox.outboundFor sampleLibrary ⟨[], []⟩ vlessTlsUri).bind parseSingboxExit).map (·.tls) =
      some none by decide +kernel)
  obtain ⟨ob, hob, hconv⟩ := Option.bind_eq_some_iff.mp hc
  exact ⟨m, ob, c, hm, hob, by decide +kernel, hconv, htls, htls'⟩

theorem legacy_keeps_trojan :
    ∃ m ob, Mihomo.proxyFor sampleLibrary ⟨[], []⟩ trojanPlainUri = some m ∧
      Singbox.outboundFor sampleLibrary ⟨[], []⟩ trojanPlainUri = some ob ∧
      ((∃ c, parseSingboxExit ob = some c ∧ SameSettings m c) ↔
        Keeps sampleLibrary trojanPlainUri) := by
  obtain ⟨m, hm⟩ := Option.isSome_iff_exists.mp (show
    (Mihomo.proxyFor sampleLibrary ⟨[], []⟩ trojanPlainUri).isSome = true by decide +kernel)
  obtain ⟨ob, hob⟩ := Option.isSome_iff_exists.mp (show
    (Singbox.outboundFor sampleLibrary ⟨[], []⟩ trojanPlainUri).isSome = true by decide +kernel)
  exact ⟨m, ob, hm, hob, legacy_keeps_iff sampleLibrary ⟨[], []⟩ trojanPlainUri hm hob⟩

end ProxyGateway.Exits
