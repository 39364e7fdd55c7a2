/-
# ProxyGateway.Exits.Generators — the two exit generators, and how they speak of TLS

`mihomo-exit-config.py` makes a mihomo proxy of a URI, `singbox-exit-config.py` a sing-box outbound.
Both dictionaries are records here: a key that may be absent is an optional field.

The two agree on the transport security of every scheme but one: under `security=reality` the mihomo
side of `vless://` sets the Reality options and the server name but neither `tls` nor
`skip-cert-verify`, which the sing-box side does (`sameSecurity_iff`).
-/
import ProxyGateway.Exits.Uri

namespace ProxyGateway.Exits

open ProxyGateway.Lang

/-! ## mihomo -/

namespace Mihomo

/-- `type` of a mihomo proxy. -/
inductive ProxyType where
  | ss
  | socks5
  | vmess
  | trojan
  | vless
  | hysteria2
  | tuic
  | anytls
  | http
  | wireguard
  deriving DecidableEq, Repr

/-- `ws-opts`, with the `Host` header. -/
structure WsOpts where
  path : Value
  host : Option Value

/-- `reality-opts`. -/
structure RealityOpts where
  publicKey : Value
  shortId : Option Value

/-- The keys that only a WireGuard proxy has. -/
structure WireGuard where
  privateKey : Text
  publicKey : Value
  ip : Value
  presharedKey : Option Value
  mtu : Option Value
  ipv6 : Option Value

/-- A mihomo proxy; `none` is an absent key. -/
structure Proxy where
  type : ProxyType
  server : Value
  port : Value
  cipher : Option Value := none
  username : Option Value := none
  password : Option Value := none
  uuid : Option Value := none
  alterId : Option Value := none
  flow : Option Value := none
  tls : Option Bool := none
  servername : Option Value := none
  sni : Option Value := none
  skipCertVerify : Option Bool := none
  realityOpts : Option RealityOpts := none
  network : Option Text := none
  wsOpts : Option WsOpts := none
  grpcServiceName : Option Value := none
  h2Host : Option Value := none
  obfs : Option Value := none
  obfsPassword : Option Value := none
  wireguard : Option WireGuard := none

/-- `True`, or no key. -/
def flag (b : Bool) : Option Bool := if b then some true else none

/-- A key that is only set to a true value. -/
def ifTruthy (v : Value) : Option Value := if v.truthy then some v else none

/-- The transport keys of a URL: `network`, and the options of `ws` or `grpc`. -/
def withTransport (proxy : Proxy) (net : Text) (path host service : Value) : Option Proxy :=
  if net = lit "ws" ∨ net = lit "websocket" then
    some { proxy with
      network := some (lit "ws"), wsOpts := some ⟨path.or (.str (lit "/")), ifTruthy host⟩ }
  else if net = lit "grpc" then do
    let service ← service.asStr
    some { proxy with
      network := some (lit "grpc"), grpcServiceName := some (.str (lstrip '/' service)) }
  else some proxy

variable (L : Library)

/-- `parse_vmess` before the transport. -/
def vmessProxy (data : List (Text × Value)) (port alterId : Int) : Proxy where
  type := .vmess
  server := Value.get data (lit "add")
  port := .int port
  uuid := some ((Value.get? data (lit "id")).getD (.str []))
  alterId := some (.int alterId)
  cipher := some ((Value.get data (lit "scy")).or (.str (lit "auto")))
  tls := flag (vmessSecure L data)
  servername := if vmessSecure L data then some (vmessServerName data) else none

/-- `parse_vmess`. -/
def parseVmess (uri : Text) : Option Proxy := do
  let data ← vmessData L uri
  let port ← vmessPort L data
  let alterId ← vmessAlterId L data
  let proxy := vmessProxy L data port alterId
  let host := Value.get data (lit "host")
  let net ← netOf L (Value.get data (lit "net"))
  if net = lit "h2" then
    pure { proxy with network := some (lit "h2"), h2Host := ifTruthy host }
  else
    withTransport proxy net (Value.get data (lit "path")) host
      ((Value.get? data (lit "path")).getD (.str []))

/-- `parse_trojan` before the transport. -/
def trojanProxy (u : Url) (q : List (Text × Value)) (port : Value) : Proxy where
  type := .trojan
  server := u.host
  port := port
  password := some (.str (L.unquote u.user))
  sni := some (((Value.get q (lit "sni")).or (Value.get q (lit "peer"))).or u.host)
  skipCertVerify := flag (Value.get q (lit "allowInsecure")).isOne

/-- `parse_trojan`. -/
def parseTrojan (uri : Text) : Option Proxy := do
  let u ← L.urlparse uri
  let q := queryMap L u
  let port ← u.portOr 443
  let net ← netOf L (Value.get q (lit "type"))
  withTransport (trojanProxy L u q port) net (Value.get q (lit "path")) (Value.get q (lit "host"))
    ((Value.get? q (lit "serviceName")).getD (.str []))

/-- The obfuscation password, under either name. -/
def obfsPassword (q : List (Text × Value)) : Value :=
  (Value.get q (lit "obfs-password")).or ((Value.get? q (lit "obfs_password")).getD (.str []))

/-- The short ID of Reality, under either name. -/
def shortId (q : List (Text × Value)) : Option Value :=
  ifTruthy ((Value.get q (lit "sid")).or (Value.get q (lit "short_id")))

/-- The public key of Reality, under either name. -/
def publicKey (q : List (Text × Value)) : Value :=
  (Value.get q (lit "pbk")).or ((Value.get? q (lit "public_key")).getD (.str []))

/-- `parse_vless` before the transport.  Reality sets neither `tls` nor `skip-cert-verify`. -/
def vlessProxy (u : Url) (q : List (Text × Value)) (port : Value) (security : Text) : Proxy where
  type := .vless
  server := u.host
  port := port
  uuid := some (.str (L.unquote u.user))
  flow := ifTruthy (Value.get q (lit "flow"))
  realityOpts := if security = lit "reality" then some ⟨publicKey q, shortId q⟩ else none
  tls := flag (decide (security = lit "tls"))
  servername := if security = lit "reality" ∨ security = lit "tls" then
    some ((Value.get q (lit "sni")).or u.host) else none
  skipCertVerify := if security = lit "tls" then flag (Value.get q (lit "allowInsecure")).isOne
    else none

/-- `parse_vless`. -/
def parseVless (uri : Text) : Option Proxy := do
  let u ← L.urlparse uri
  let q := queryMap L u
  let port ← u.portOr 443
  let security ← vlessSecurity L q
  let net ← netOf L ((Value.get q (lit "type")).or (Value.get q (lit "transport")))
  withTransport (vlessProxy L u q port security) net (Value.get q (lit "path"))
    (Value.get q (lit "host")) ((Value.get? q (lit "serviceName")).getD (.str []))

/-- The proxy of `parse_hysteria2`. -/
def hysteria2Proxy (u : Url) (q : List (Text × Value)) (port : Value) : Proxy where
  type := .hysteria2
  server := u.host
  port := port
  password := some (.str (L.unquote u.user))
  sni := some ((Value.get q (lit "sni")).or u.host)
  skipCertVerify := flag (Value.get q (lit "insecure")).isOne
  obfs := ifTruthy (Value.get q (lit "obfs"))
  obfsPassword := if (Value.get q (lit "obfs")).truthy then some (obfsPassword q) else none

/-- `parse_hysteria2`. -/
def parseHysteria2 (uri : Text) : Option Proxy := do
  let u ← L.urlparse uri
  let port ← u.portOr 443
  pure (hysteria2Proxy L u (queryMap L u) port)

/-- The proxy of `parse_tuic`. -/
def tuicProxy (u : Url) (q : List (Text × Value)) (port : Value) (uuid password : Text) :
    Proxy where
  type := .tuic
  server := u.host
  port := port
  uuid := some (.str uuid)
  password := some (.str password)
  sni := some ((Value.get q (lit "sni")).or u.host)
  skipCertVerify := flag (Value.get q (lit "allow_insecure")).isOne

/-- `parse_tuic`. -/
def parseTuic (uri : Text) : Option Proxy := do
  let u ← L.urlparse uri
  let port ← u.portOr 443
  let (uuid, password) ← tuicCredentials L u
  pure (tuicProxy u (queryMap L u) port uuid password)

/-- The proxy of `parse_anytls`. -/
def anytlsProxy (u : Url) (q : List (Text × Value)) (port : Value) : Proxy where
  type := .anytls
  server := u.host
  port := port
  password := some (.str (L.unquote u.user))
  sni := some ((Value.get q (lit "sni")).or u.host)
  skipCertVerify := flag (Value.get q (lit "insecure")).isOne

/-- `parse_anytls`. -/
def parseAnytls (uri : Text) : Option Proxy := do
  let u ← L.urlparse uri
  let port ← u.portOr 443
  pure (anytlsProxy L u (queryMap L u) port)

/-- The proxy of `parse_http`. -/
def httpProxy (u : Url) (port : Value) : Proxy where
  type := .http
  server := u.host
  port := port
  username := if u.user = [] then none else some (.str (L.unquote u.user))
  password := if u.pass = [] then none else some (.str (L.unquote u.pass))
  tls := flag (isHttps L u)
  sni := if isHttps L u then some u.host else none

/-- `parse_http`. -/
def parseHttp (uri : Text) : Option Proxy := do
  let u ← L.urlparse uri
  let port ← u.portOr (if isHttps L u then 443 else 80)
  pure (httpProxy L u port)

/-- `parse_wireguard`. -/
def parseWireguard (uri : Text) : Option Proxy := do
  let u ← L.urlparse uri
  let q := queryMap L u
  let port ← u.portOr 51820
  let mtu ← ((Value.get? q (lit "mtu")).getD (.str [])).asStr
  let mtuInt ← if L.isdigit mtu then (L.int (.str mtu)).map some else some none
  pure {
    type := .wireguard, server := u.host, port := port
    wireguard := some {
      privateKey := L.unquote u.user
      publicKey := (Value.get? q (lit "pk")).getD (.str [])
      ip := (Value.get? q (lit "address")).getD (.str (lit "172.19.0.2/32"))
      presharedKey := ifTruthy (Value.get q (lit "psk"))
      mtu := mtuInt.map .int
      ipv6 := Value.get? q (lit "ipv6") } }

/-- `parse_proxy_uri`; the type is the one that `main` puts into the proxy. -/
def parseProxyUri (uri : Text) : Option Proxy := do
  match ← schemeOf L uri with
  | .ss =>
    let (host, port, method, password) ← parseSs L uri
    pure {
      type := .ss, server := host, port := port
      cipher := some (.str method), password := some (.str password) }
  | .socks =>
    let (host, port, user, password) ← parseSocks L uri
    pure {
      type := .socks5, server := host, port := port
      username := ifTruthy user, password := ifTruthy password }
  | .vmess => parseVmess L uri
  | .trojan => parseTrojan L uri
  | .vless => parseVless L uri
  | .hysteria2 => parseHysteria2 L uri
  | .tuic => parseTuic L uri
  | .anytls => parseAnytls L uri
  | .http => parseHttp L uri
  | .wg => parseWireguard L uri

/-- One label of a hostname. -/
def isLabel (t : Text) : Bool :=
  !t.isEmpty && t.length ≤ 63 && t.all (fun c => c.isAlphanum || c == '-')
    && t.head? != some '-' && t.getLast? != some '-'

/-- `validate_host_port`. -/
def validateHostPort (host port : Value) : Bool :=
  match port with
  | .int n =>
    if 1 ≤ n ∧ n ≤ 65535 then
      L.isIpAddress host ||
        match host with
        | .str t => t.length ≤ 253 && (t.splitOn '.').all isLabel
        | _ => false
    else false
  | _ => false

/-- The credentials of the environment win, for SOCKS and HTTP. -/
def withCredentials (env : Credentials) (proxy : Proxy) : Proxy :=
  if proxy.type = .socks5 ∨ proxy.type = .http then
    { proxy with
      username := if env.user = [] then proxy.username else some (.str env.user)
      password := if env.password = [] then proxy.password else some (.str env.password) }
  else proxy

/-- The proxy of `main`. -/
def proxyFor (env : Credentials) (uri : Text) : Option Proxy :=
  (parseProxyUri L uri).map (withCredentials env)

/-- `main` goes on to print the configuration. -/
def accepts (uri : Text) : Bool :=
  (parseProxyUri L uri).any fun proxy => validateHostPort L proxy.server proxy.port

end Mihomo

/-! ## sing-box -/

namespace Singbox

/-- `type` of a sing-box outbound. -/
inductive OutboundType where
  | shadowsocks
  | socks
  | vmess
  | trojan
  | vless
  | hysteria2
  | tuic
  | anytls
  | http
  deriving DecidableEq, Repr

/-- `tls.reality`; `enabled` is always true. -/
structure Reality where
  publicKey : Value
  shortId : Option Value

/-- `tls`. -/
structure Tls where
  enabled : Bool
  serverName : Option Value
  insecure : Option Bool
  reality : Option Reality

/-- `transport`. -/
inductive Transport where
  | ws (path : Value) (host : Option Value)
  | grpc (serviceName : Value)

/-- `obfs`. -/
structure Obfs where
  type : Value
  password : Value

/-- A sing-box outbound; `none` is an absent key. -/
structure Outbound where
  type : OutboundType
  server : Value
  serverPort : Value
  method : Option Value := none
  username : Option Value := none
  password : Option Value := none
  uuid : Option Value := none
  alterId : Option Value := none
  security : Option Value := none
  flow : Option Value := none
  tls : Option Tls := none
  transport : Option Transport := none
  obfs : Option Obfs := none

open Mihomo (flag ifTruthy shortId publicKey obfsPassword)

/-- `tls_block`. -/
def tlsBlock (serverName : Value) (insecure : Bool) : Tls :=
  ⟨true, ifTruthy serverName, flag insecure, none⟩

variable (L : Library)

/-- `transport_block`; `path` and `service` are `None` where the caller leaves them out. -/
def transportBlock (net host path service : Value) : Option (Option Transport) := do
  let net ← netOf L net
  if net = lit "ws" ∨ net = lit "websocket" then
    pure (some (.ws (path.or (.str (lit "/"))) (ifTruthy host)))
  else if net = lit "grpc" then
    if service.truthy then pure (some (.grpc service))
    else
      let path ← (path.or (.str [])).asStr
      pure (some (.grpc (.str (lstrip '/' path))))
  else pure none

/-- `parse_vmess` before the transport. -/
def vmessOutbound (data : List (Text × Value)) (port alterId : Int) : Outbound where
  type := .vmess
  server := Value.get data (lit "add")
  serverPort := .int port
  uuid := some ((Value.get? data (lit "id")).getD (.str []))
  alterId := some (.int alterId)
  security := some ((Value.get data (lit "scy")).or (.str (lit "auto")))
  tls := if vmessSecure L data then some (tlsBlock (vmessServerName data) false) else none

/-- `parse_vmess`. -/
def parseVmess (uri : Text) : Option Outbound := do
  let data ← vmessData L uri
  let port ← vmessPort L data
  let alterId ← vmessAlterId L data
  let transport ← transportBlock L (Value.get data (lit "net")) (Value.get data (lit "host"))
    (Value.get data (lit "path")) .null
  pure { vmessOutbound L data port alterId with transport := transport }

/-- The gRPC service of a URL, under either name. -/
def serviceOf (q : List (Text × Value)) : Value :=
  (Value.get q (lit "serviceName")).or (Value.get q (lit "service_name"))

/-- `parse_trojan` before the transport. -/
def trojanOutbound (u : Url) (q : List (Text × Value)) (port : Value) : Outbound where
  type := .trojan
  server := u.host
  serverPort := port
  password := some (.str (L.unquote u.user))
  tls := some (tlsBlock (((Value.get q (lit "sni")).or (Value.get q (lit "peer"))).or u.host)
    (Value.get q (lit "allowInsecure")).isOne)

/-- `parse_trojan`. -/
def parseTrojan (uri : Text) : Option Outbound := do
  let u ← L.urlparse uri
  let q := queryMap L u
  let port ← u.portOr 443
  let transport ← transportBlock L (Value.get q (lit "type")) (Value.get q (lit "host"))
    (Value.get q (lit "path")) (serviceOf q)
  pure { trojanOutbound L u q port with transport := transport }

/-- `parse_vless` before the transport. -/
def vlessOutbound (u : Url) (q : List (Text × Value)) (port : Value) (security : Text) :
    Outbound where
  type := .vless
  server := u.host
  serverPort := port
  uuid := some (.str (L.unquote u.user))
  flow := ifTruthy (Value.get q (lit "flow"))
  tls :=
    let tls := tlsBlock ((Value.get q (lit "sni")).or u.host)
      (Value.get q (lit "allowInsecure")).isOne
    if security = lit "reality" then some { tls with reality := some ⟨publicKey q, shortId q⟩ }
    else if security = lit "tls" then some tls
    else none

/-- `parse_vless`. -/
def parseVless (uri : Text) : Option Outbound := do
  let u ← L.urlparse uri
  let q := queryMap L u
  let port ← u.portOr 443
  let security ← vlessSecurity L q
  let transport ← transportBlock L ((Value.get q (lit "type")).or (Value.get q (lit "transport")))
    (Value.get q (lit "host")) (Value.get q (lit "path")) (serviceOf q)
  pure { vlessOutbound L u q port security with transport := transport }

/-- The outbound of `parse_hysteria2`. -/
def hysteria2Outbound (u : Url) (q : List (Text × Value)) (port : Value) : Outbound where
  type := .hysteria2
  server := u.host
  serverPort := port
  password := some (.str (L.unquote u.user))
  tls := some (tlsBlock ((Value.get q (lit "sni")).or u.host) (Value.get q (lit "insecure")).isOne)
  obfs := if (Value.get q (lit "obfs")).truthy then
    some ⟨Value.get q (lit "obfs"), obfsPassword q⟩ else none

/-- `parse_hysteria2`. -/
def parseHysteria2 (uri : Text) : Option Outbound := do
  let u ← L.urlparse uri
  let port ← u.portOr 443
  pure (hysteria2Outbound L u (queryMap L u) port)

/-- The outbound of `parse_tuic`. -/
def tuicOutbound (u : Url) (q : List (Text × Value)) (port : Value) (uuid password : Text) :
    Outbound where
  type := .tuic
  server := u.host
  serverPort := port
  uuid := some (.str uuid)
  password := some (.str password)
  tls := some (tlsBlock ((Value.get q (lit "sni")).or u.host)
    (Value.get q (lit "allow_insecure")).isOne)

/-- `parse_tuic`. -/
def parseTuic (uri : Text) : Option Outbound := do
  let u ← L.urlparse uri
  let port ← u.portOr 443
  let (uuid, password) ← tuicCredentials L u
  pure (tuicOutbound u (queryMap L u) port uuid password)

/-- The outbound of `parse_anytls`. -/
def anytlsOutbound (u : Url) (q : List (Text × Value)) (port : Value) : Outbound where
  type := .anytls
  server := u.host
  serverPort := port
  password := some (.str (L.unquote u.user))
  tls := some (tlsBlock ((Value.get q (lit "sni")).or u.host) (Value.get q (lit "insecure")).isOne)

/-- `parse_anytls`. -/
def parseAnytls (uri : Text) : Option Outbound := do
  let u ← L.urlparse uri
  let port ← u.portOr 443
  pure (anytlsOutbound L u (queryMap L u) port)

/-- The outbound of `parse_http`. -/
def httpOutbound (u : Url) (port : Value) : Outbound where
  type := .http
  server := u.host
  serverPort := port
  username := if u.user = [] then none else some (.str (L.unquote u.user))
  password := if u.pass = [] then none else some (.str (L.unquote u.pass))
  tls := if isHttps L u then some (tlsBlock u.host false) else none

/-- `parse_http`. -/
def parseHttp (uri : Text) : Option Outbound := do
  let u ← L.urlparse uri
  let port ← u.portOr (if isHttps L u then 443 else 80)
  pure (httpOutbound L u port)

/-- `parse_proxy_uri`.  Unlike the other script, it refuses `ss://` without a method, and `wg://`. -/
def parseProxyUri (uri : Text) : Option Outbound := do
  match ← schemeOf L uri with
  | .ss =>
    let (host, port, method, password) ← parseSs L uri
    if method = [] then none
    else
      pure {
        type := .shadowsocks, server := host, serverPort := port
        method := some (.str method), password := some (.str password) }
  | .socks =>
    let (host, port, user, password) ← parseSocks L uri
    pure {
      type := .socks, server := host, serverPort := port
      username := ifTruthy user, password := ifTruthy password }
  | .vmess => parseVmess L uri
  | .trojan => parseTrojan L uri
  | .vless => parseVless L uri
  | .hysteria2 => parseHysteria2 L uri
  | .tuic => parseTuic L uri
  | .anytls => parseAnytls L uri
  | .http => parseHttp L uri
  | .wg => none

/-- The credentials of the environment win, for SOCKS and HTTP. -/
def withCredentials (env : Credentials) (ob : Outbound) : Outbound :=
  if ob.type = .socks ∨ ob.type = .http then
    { ob with
      username := if env.user = [] then ob.username else some (.str env.user)
      password := if env.password = [] then ob.password else some (.str env.password) }
  else ob

/-- The outbound of `main`. -/
def outboundFor (env : Credentials) (uri : Text) : Option Outbound :=
  (parseProxyUri L uri).map (withCredentials env)

end Singbox

/-! ## Transport security -/

/-- The server name that a mihomo proxy asks for: none if the value is empty. -/
def Mihomo.Proxy.serverName (m : Mihomo.Proxy) : Option Value :=
  (m.servername.or m.sni).bind Mihomo.ifTruthy

/-- The server name of a sing-box outbound. -/
def Singbox.Outbound.serverName (ob : Singbox.Outbound) : Option Value := ob.tls.bind (·.serverName)

/-- **`SameSecurity`** — TLS is on in both or in neither where it can be switched, for the same server
name, and both check the certificate or neither does. -/
structure SameSecurity (m : Mihomo.Proxy) (ob : Singbox.Outbound) : Prop where
  enabled : m.type ∈ [.vmess, .vless, .http] →
    (m.tls = some true ↔ ob.tls.any (·.enabled) = true)
  serverName : m.serverName = ob.serverName
  insecure : m.skipCertVerify = some true ↔ (ob.tls.bind (·.insecure)) = some true

/-- A `vless://` URL with `security=reality`. -/
def VlessReality (L : Library) (uri : Text) : Prop :=
  schemeOf L uri = some .vless ∧
    (L.urlparse uri).bind (fun u => vlessSecurity L (queryMap L u)) = some (lit "reality")

namespace Mihomo

@[simp] theorem flag_eq_some {b : Bool} : flag b = some true ↔ b = true := by
  cases b <;> simp [flag]

@[simp] theorem flag_eq_none {b : Bool} : flag b = none ↔ b = false := by
  cases b <;> simp [flag]

@[simp] theorem ifTruthy_eq_none {v : Value} : ifTruthy v = none ↔ v.truthy = false := by
  unfold ifTruthy
  split <;> simp [*]

/-- What the transport does to a proxy: nothing but its own keys. -/
theorem withTransport_frame {proxy m : Proxy} {net : Text} {path host service : Value}
    (h : withTransport proxy net path host service = some m) :
    ∃ network wsOpts grpc,
      m = { proxy with network := network, wsOpts := wsOpts, grpcServiceName := grpc } := by
  unfold withTransport at h
  split at h
  · exact ⟨_, _, _, (Option.some.inj h).symm⟩
  · split at h
    · obtain ⟨service, -, hm⟩ := Option.bind_eq_some_iff.mp h
      exact ⟨_, _, _, (Option.some.inj hm).symm⟩
    · exact ⟨_, _, _, (Option.some.inj h).symm⟩

end Mihomo

section Security

variable {L : Library} {uri : Text} {m : Mihomo.Proxy} {ob : Singbox.Outbound}

/-- Both readings of a `vmess://` URI, up to the transport. -/
theorem vmess_both (hm : Mihomo.parseVmess L uri = some m)
    (hs : Singbox.parseVmess L uri = some ob) :
    ∃ data port alterId net transport, vmessData L uri = some data ∧
      netOf L (Value.get data (lit "net")) = some net ∧
      (if net = lit "h2" then
        some { Mihomo.vmessProxy L data port alterId with
          network := some (lit "h2"), h2Host := Mihomo.ifTruthy (Value.get data (lit "host")) }
        else
          Mihomo.withTransport (Mihomo.vmessProxy L data port alterId) net
            (Value.get data (lit "path")) (Value.get data (lit "host"))
            ((Value.get? data (lit "path")).getD (.str []))) = some m ∧
      Singbox.transportBlock L (Value.get data (lit "net")) (Value.get data (lit "host"))
        (Value.get data (lit "path")) .null = some transport ∧
      ob = { Singbox.vmessOutbound L data port alterId with transport := transport } := by
  simp only [Mihomo.parseVmess, Singbox.parseVmess, Option.bind_eq_bind,
    Option.bind_eq_some_iff] at hm hs
  obtain ⟨data, hdata, port, hport, alterId, haid, net, hnet, hm⟩ := hm
  obtain ⟨data', hdata', port', hport', alterId', haid', transport, htransport, hs⟩ := hs
  obtain rfl : data = data' := Option.some.inj (hdata.symm.trans hdata')
  obtain rfl : port = port' := Option.some.inj (hport.symm.trans hport')
  obtain rfl : alterId = alterId' := Option.some.inj (haid.symm.trans haid')
  exact ⟨data, port, alterId, net, transport, hdata, hnet, hm, htransport,
    (Option.some.inj hs).symm⟩

/-- Both readings of a `trojan://` URI. -/
theorem trojan_both (hm : Mihomo.parseTrojan L uri = some m)
    (hs : Singbox.parseTrojan L uri = some ob) :
    ∃ u port net transport, L.urlparse uri = some u ∧
      netOf L (Value.get (queryMap L u) (lit "type")) = some net ∧
      Mihomo.withTransport (Mihomo.trojanProxy L u (queryMap L u) port) net
        (Value.get (queryMap L u) (lit "path")) (Value.get (queryMap L u) (lit "host"))
        ((Value.get? (queryMap L u) (lit "serviceName")).getD (.str [])) = some m ∧
      ob = { Singbox.trojanOutbound L u (queryMap L u) port with transport := transport } := by
  simp only [Mihomo.parseTrojan, Singbox.parseTrojan, Option.bind_eq_bind,
    Option.bind_eq_some_iff] at hm hs
  obtain ⟨u, hu, port, hport, net, hnet, hm⟩ := hm
  obtain ⟨u', hu', port', hport', transport, htransport, hs⟩ := hs
  obtain rfl : u = u' := Option.some.inj (hu.symm.trans hu')
  obtain rfl : port = port' := Option.some.inj (hport.symm.trans hport')
  exact ⟨u, port, net, transport, hu, hnet, hm, (Option.some.inj hs).symm⟩

/-- Both readings of a `vless://` URI. -/
theorem vless_both (hm : Mihomo.parseVless L uri = some m)
    (hs : Singbox.parseVless L uri = some ob) :
    ∃ u port security net transport, L.urlparse uri = some u ∧
      vlessSecurity L (queryMap L u) = some security ∧
      netOf L ((Value.get (queryMap L u) (lit "type")).or
        (Value.get (queryMap L u) (lit "transport"))) = some net ∧
      Mihomo.withTransport (Mihomo.vlessProxy L u (queryMap L u) port security) net
        (Value.get (queryMap L u) (lit "path")) (Value.get (queryMap L u) (lit "host"))
        ((Value.get? (queryMap L u) (lit "serviceName")).getD (.str [])) = some m ∧
      ob = { Singbox.vlessOutbound L u (queryMap L u) port security with
        transport := transport } := by
  simp only [Mihomo.parseVless, Singbox.parseVless, Option.bind_eq_bind,
    Option.bind_eq_some_iff] at hm hs
  obtain ⟨u, hu, port, hport, security, hsecurity, net, hnet, hm⟩ := hm
  obtain ⟨u', hu', port', hport', security', hsecurity', transport, -, hs⟩ := hs
  obtain rfl : u = u' := Option.some.inj (hu.symm.trans hu')
  obtain rfl : port = port' := Option.some.inj (hport.symm.trans hport')
  obtain rfl : security = security' := Option.some.inj (hsecurity.symm.trans hsecurity')
  exact ⟨u, port, security, net, transport, hu, hsecurity, hnet, hm, (Option.some.inj hs).symm⟩

/-- Both readings of a `hysteria2://` URI. -/
theorem hysteria2_both (hm : Mihomo.parseHysteria2 L uri = some m)
    (hs : Singbox.parseHysteria2 L uri = some ob) :
    ∃ u port, L.urlparse uri = some u ∧ m = Mihomo.hysteria2Proxy L u (queryMap L u) port ∧
      ob = Singbox.hysteria2Outbound L u (queryMap L u) port := by
  simp only [Mihomo.parseHysteria2, Singbox.parseHysteria2, Option.bind_eq_bind,
    Option.bind_eq_some_iff] at hm hs
  obtain ⟨u, hu, port, hport, hm⟩ := hm
  obtain ⟨u', hu', port', hport', hs⟩ := hs
  obtain rfl : u = u' := Option.some.inj (hu.symm.trans hu')
  obtain rfl : port = port' := Option.some.inj (hport.symm.trans hport')
  exact ⟨u, port, hu, (Option.some.inj hm).symm, (Option.some.inj hs).symm⟩

/-- Both readings of a `tuic://` URI. -/
theorem tuic_both (hm : Mihomo.parseTuic L uri = some m)
    (hs : Singbox.parseTuic L uri = some ob) :
    ∃ u port uuid password, L.urlparse uri = some u ∧
      m = Mihomo.tuicProxy u (queryMap L u) port uuid password ∧
      ob = Singbox.tuicOutbound u (queryMap L u) port uuid password := by
  simp only [Mihomo.parseTuic, Singbox.parseTuic, Option.bind_eq_bind,
    Option.bind_eq_some_iff] at hm hs
  obtain ⟨u, hu, port, hport, ⟨uuid, password⟩, hcred, hm⟩ := hm
  obtain ⟨u', hu', port', hport', ⟨uuid', password'⟩, hcred', hs⟩ := hs
  obtain rfl : u = u' := Option.some.inj (hu.symm.trans hu')
  obtain rfl : port = port' := Option.some.inj (hport.symm.trans hport')
  obtain ⟨rfl, rfl⟩ : uuid = uuid' ∧ password = password' := by
    simpa using hcred.symm.trans hcred'
  exact ⟨u, port, uuid, password, hu, (Option.some.inj hm).symm, (Option.some.inj hs).symm⟩

/-- Both readings of an `anytls://` URI. -/
theorem anytls_both (hm : Mihomo.parseAnytls L uri = some m)
    (hs : Singbox.parseAnytls L uri = some ob) :
    ∃ u port, L.urlparse uri = some u ∧ m = Mihomo.anytlsProxy L u (queryMap L u) port ∧
      ob = Singbox.anytlsOutbound L u (queryMap L u) port := by
  simp only [Mihomo.parseAnytls, Singbox.parseAnytls, Option.bind_eq_bind,
    Option.bind_eq_some_iff] at hm hs
  obtain ⟨u, hu, port, hport, hm⟩ := hm
  obtain ⟨u', hu', port', hport', hs⟩ := hs
  obtain rfl : u = u' := Option.some.inj (hu.symm.trans hu')
  obtain rfl : port = port' := Option.some.inj (hport.symm.trans hport')
  exact ⟨u, port, hu, (Option.some.inj hm).symm, (Option.some.inj hs).symm⟩

/-- Both readings of an `http://` or `https://` URI. -/
theorem http_both (hm : Mihomo.parseHttp L uri = some m)
    (hs : Singbox.parseHttp L uri = some ob) :
    ∃ u port, L.urlparse uri = some u ∧ m = Mihomo.httpProxy L u port ∧
      ob = Singbox.httpOutbound L u port := by
  simp only [Mihomo.parseHttp, Singbox.parseHttp, Option.bind_eq_bind,
    Option.bind_eq_some_iff] at hm hs
  obtain ⟨u, hu, port, hport, hm⟩ := hm
  obtain ⟨u', hu', port', hport', hs⟩ := hs
  obtain rfl : u = u' := Option.some.inj (hu.symm.trans hu')
  obtain rfl : port = port' := Option.some.inj (hport.symm.trans hport')
  exact ⟨u, port, hu, (Option.some.inj hm).symm, (Option.some.inj hs).symm⟩

/-! ### Scheme by scheme -/

/-- Transport keys are no security keys. -/
theorem SameSecurity.of_frame {base : Mihomo.Proxy} {base' : Singbox.Outbound}
    {network : Option Text} {wsOpts : Option Mihomo.WsOpts} {grpc h2 : Option Value}
    {transport : Option Singbox.Transport} :
    SameSecurity { base with
        network := network, wsOpts := wsOpts, grpcServiceName := grpc, h2Host := h2 }
      { base' with transport := transport } ↔ SameSecurity base base' :=
  ⟨fun h => ⟨h.enabled, h.serverName, h.insecure⟩, fun h => ⟨h.enabled, h.serverName, h.insecure⟩⟩

theorem security_vmess (hm : Mihomo.parseVmess L uri = some m)
    (hs : Singbox.parseVmess L uri = some ob) : SameSecurity m ob := by
  obtain ⟨data, port, alterId, net, transport, -, -, hm, -, rfl⟩ := vmess_both hm hs
  have hbase : SameSecurity (Mihomo.vmessProxy L data port alterId)
      (Singbox.vmessOutbound L data port alterId) := by
    by_cases hsecure : vmessSecure L data = true
    · constructor <;>
        simp [Mihomo.vmessProxy, Singbox.vmessOutbound, hsecure, Mihomo.Proxy.serverName,
          Singbox.Outbound.serverName, Singbox.tlsBlock]
    · constructor <;>
        simp [Mihomo.vmessProxy, Singbox.vmessOutbound, hsecure, Mihomo.Proxy.serverName,
          Singbox.Outbound.serverName]
  split at hm
  · obtain rfl := Option.some.inj hm
    exact SameSecurity.of_frame.mpr hbase
  · obtain ⟨network, wsOpts, grpc, rfl⟩ := Mihomo.withTransport_frame hm
    exact SameSecurity.of_frame.mpr hbase

theorem security_trojan (hm : Mihomo.parseTrojan L uri = some m)
    (hs : Singbox.parseTrojan L uri = some ob) : SameSecurity m ob := by
  obtain ⟨u, port, net, transport, -, -, hm, rfl⟩ := trojan_both hm hs
  obtain ⟨network, wsOpts, grpc, rfl⟩ := Mihomo.withTransport_frame hm
  refine SameSecurity.of_frame.mpr ?_
  constructor <;>
    simp [Mihomo.trojanProxy, Singbox.trojanOutbound, Mihomo.Proxy.serverName,
      Singbox.Outbound.serverName, Singbox.tlsBlock]

theorem security_hysteria2 (hm : Mihomo.parseHysteria2 L uri = some m)
    (hs : Singbox.parseHysteria2 L uri = some ob) : SameSecurity m ob := by
  obtain ⟨u, port, -, rfl, rfl⟩ := hysteria2_both hm hs
  constructor <;>
    simp [Mihomo.hysteria2Proxy, Singbox.hysteria2Outbound, Mihomo.Proxy.serverName,
      Singbox.Outbound.serverName, Singbox.tlsBlock]

theorem security_tuic (hm : Mihomo.parseTuic L uri = some m)
    (hs : Singbox.parseTuic L uri = some ob) : SameSecurity m ob := by
  obtain ⟨u, port, uuid, password, -, rfl, rfl⟩ := tuic_both hm hs
  constructor <;>
    simp [Mihomo.tuicProxy, Singbox.tuicOutbound, Mihomo.Proxy.serverName,
      Singbox.Outbound.serverName, Singbox.tlsBlock]

theorem security_anytls (hm : Mihomo.parseAnytls L uri = some m)
    (hs : Singbox.parseAnytls L uri = some ob) : SameSecurity m ob := by
  obtain ⟨u, port, -, rfl, rfl⟩ := anytls_both hm hs
  constructor <;>
    simp [Mihomo.anytlsProxy, Singbox.anytlsOutbound, Mihomo.Proxy.serverName,
      Singbox.Outbound.serverName, Singbox.tlsBlock]

theorem security_http (hm : Mihomo.parseHttp L uri = some m)
    (hs : Singbox.parseHttp L uri = some ob) : SameSecurity m ob := by
  obtain ⟨u, port, -, rfl, rfl⟩ := http_both hm hs
  by_cases hhttps : isHttps L u = true
  · constructor <;>
      simp [Mihomo.httpProxy, Singbox.httpOutbound, hhttps, Mihomo.Proxy.serverName,
        Singbox.Outbound.serverName, Singbox.tlsBlock]
  · constructor <;>
      simp [Mihomo.httpProxy, Singbox.httpOutbound, hhttps, Mihomo.Proxy.serverName,
        Singbox.Outbound.serverName]

/-- Only `vless://` differs: the mihomo side forgets TLS under Reality. -/
theorem security_vless_iff (hm : Mihomo.parseVless L uri = some m)
    (hs : Singbox.parseVless L uri = some ob) :
    SameSecurity m ob ↔
      (L.urlparse uri).bind (fun u => vlessSecurity L (queryMap L u)) ≠ some (lit "reality") := by
  obtain ⟨u, port, security, net, transport, hu, hsecurity, -, hm, rfl⟩ := vless_both hm hs
  obtain ⟨network, wsOpts, grpc, rfl⟩ := Mihomo.withTransport_frame hm
  rw [hu, Option.bind_some, hsecurity, ne_eq, Option.some.injEq]
  rw [show SameSecurity _ _ ↔ _ from SameSecurity.of_frame]
  constructor
  · rintro h rfl
    have henabled := h.enabled (by simp [Mihomo.vlessProxy])
    have hne : lit "reality" ≠ lit "tls" := by decide
    simp [Mihomo.vlessProxy, Singbox.vlessOutbound, Singbox.tlsBlock, hne] at henabled
  · intro hreality
    by_cases htls : security = lit "tls"
    · subst htls
      constructor <;>
        simp [Mihomo.vlessProxy, Singbox.vlessOutbound, hreality, Mihomo.Proxy.serverName,
          Singbox.Outbound.serverName, Singbox.tlsBlock]
    · constructor <;>
        simp [Mihomo.vlessProxy, Singbox.vlessOutbound, hreality, htls, Mihomo.Proxy.serverName,
          Singbox.Outbound.serverName]

/-- The credentials of the environment are no security keys. -/
theorem SameSecurity.withCredentials_iff {env : Credentials} :
    SameSecurity (Mihomo.withCredentials env m) (Singbox.withCredentials env ob) ↔
      SameSecurity m ob := by
  have hm : ∃ username password,
      Mihomo.withCredentials env m = { m with username := username, password := password } := by
    unfold Mihomo.withCredentials
    split <;> exact ⟨_, _, rfl⟩
  have hob : ∃ username password,
      Singbox.withCredentials env ob = { ob with username := username, password := password } := by
    unfold Singbox.withCredentials
    split <;> exact ⟨_, _, rfl⟩
  obtain ⟨username, password, hm⟩ := hm
  obtain ⟨username', password', hob⟩ := hob
  rw [hm, hob]
  exact ⟨fun h => ⟨h.enabled, h.serverName, h.insecure⟩,
    fun h => ⟨h.enabled, h.serverName, h.insecure⟩⟩

/-- **When the generators agree on transport security**: for every URI that both parse, unless it is a
`vless://` URL with `security=reality`. -/
theorem sameSecurity_iff (L : Library) (env : Credentials) (uri : Text)
    (hproxy : Mihomo.proxyFor L env uri = some m)
    (houtbound : Singbox.outboundFor L env uri = some ob) :
    SameSecurity m ob ↔ ¬ VlessReality L uri := by
  obtain ⟨m, hm, rfl⟩ := Option.map_eq_some_iff.mp hproxy
  obtain ⟨ob, hs, rfl⟩ := Option.map_eq_some_iff.mp houtbound
  rw [SameSecurity.withCredentials_iff]
  simp only [Mihomo.parseProxyUri, Singbox.parseProxyUri, Option.bind_eq_bind,
    Option.bind_eq_some_iff] at hm hs
  obtain ⟨scheme, hscheme, hm⟩ := hm
  obtain ⟨scheme', hscheme', hs⟩ := hs
  obtain rfl : scheme = scheme' := Option.some.inj (hscheme.symm.trans hscheme')
  have hnot : scheme ≠ .vless → ¬ VlessReality L uri := by
    rintro hne ⟨hvless, -⟩
    exact hne (Option.some.inj (hscheme.symm.trans hvless))
  cases scheme with
  | ss =>
    refine iff_of_true ?_ (hnot (by decide))
    obtain ⟨⟨host, port, method, password⟩, -, hm⟩ := Option.bind_eq_some_iff.mp hm
    obtain ⟨⟨host', port', method', password'⟩, -, hs⟩ := Option.bind_eq_some_iff.mp hs
    obtain rfl := Option.some.inj hm
    dsimp only at hs
    split at hs
    · nomatch hs
    · obtain rfl := Option.some.inj hs
      constructor <;> simp [Mihomo.Proxy.serverName, Singbox.Outbound.serverName]
  | socks =>
    refine iff_of_true ?_ (hnot (by decide))
    obtain ⟨⟨host, port, user, password⟩, -, hm⟩ := Option.bind_eq_some_iff.mp hm
    obtain ⟨⟨host', port', user', password'⟩, -, hs⟩ := Option.bind_eq_some_iff.mp hs
    obtain rfl := Option.some.inj hm
    obtain rfl := Option.some.inj hs
    constructor <;> simp [Mihomo.Proxy.serverName, Singbox.Outbound.serverName]
  | vmess => exact iff_of_true (security_vmess hm hs) (hnot (by decide))
  | trojan => exact iff_of_true (security_trojan hm hs) (hnot (by decide))
  | vless =>
    rw [security_vless_iff hm hs, VlessReality, hscheme]
    simp
  | hysteria2 => exact iff_of_true (security_hysteria2 hm hs) (hnot (by decide))
  | tuic => exact iff_of_true (security_tuic hm hs) (hnot (by decide))
  | anytls => exact iff_of_true (security_anytls hm hs) (hnot (by decide))
  | http => exact iff_of_true (security_http hm hs) (hnot (by decide))
  | wg => nomatch hs

end Security

/-! ## Two URLs -/

/-- `a.com` with a user `u` and a query. -/
def sampleUrl (scheme query : Text) : Url where
  scheme := scheme
  hostname := some (lit "a.com")
  port := some none
  username := some (lit "u")
  password := none
  query := query

/-- The library on ASCII URLs of the form `scheme://u@a.com?query` without percent signs. -/
def sampleLibrary : Library where
  lower t := t.map Char.toLower
  unquote t := t
  unquote_ne_nil _ h := h
  urlparse t :=
    if lit "://u@a.com" <:+: before '?' t then
      some (sampleUrl (before ':' t) (after '?' t)) else none
  parseQs query := (query.splitOn '&').filterMap fun item =>
    (split1 '=' item).map fun (k, v) => (k, v, [])
  urlsafeB64decode _ := none
  b64decode _ := none
  loads _ := none
  int _ := none
  str _ := []
  isDecimal := Char.isDigit
  isdigit t := t.all Char.isDigit
  isIpAddress _ := false

/-- A VLESS server with Reality. -/
def realityUri : Text := lit "vless://u@a.com?security=reality&sni=b.com&pbk=k&allowInsecure=1"

/-- The same server with plain TLS. -/
def vlessTlsUri : Text := lit "vless://u@a.com?security=tls&sni=b.com&allowInsecure=1"

theorem reality_without_tls :
    ∃ m ob, Mihomo.proxyFor sampleLibrary ⟨[], []⟩ realityUri = some m ∧
      Singbox.outboundFor sampleLibrary ⟨[], []⟩ realityUri = some ob ∧
      Mihomo.accepts sampleLibrary realityUri = true ∧ m.type = .vless ∧ m.tls = none ∧
      ob.tls.any (·.enabled) = true ∧ m.skipCertVerify = none ∧
      ob.tls.bind (·.insecure) = some true := by
  obtain ⟨m, hm, hkeys⟩ := Option.map_eq_some_iff.mp (show
    (Mihomo.proxyFor sampleLibrary ⟨[], []⟩ realityUri).map
      (fun m => (m.type, m.tls, m.skipCertVerify)) = some (.vless, none, none) by decide +kernel)
  obtain ⟨ob, hob, hkeys'⟩ := Option.map_eq_some_iff.mp (show
    (Singbox.outboundFor sampleLibrary ⟨[], []⟩ realityUri).map
      (fun ob => (ob.tls.any (·.enabled), ob.tls.bind (·.insecure))) = some (true, some true) by
        decide +kernel)
  obtain ⟨htype, htls, hskip⟩ : m.type = .vless ∧ m.tls = none ∧ m.skipCertVerify = none := by
    simpa using hkeys
  obtain ⟨htls', hinsecure⟩ : ob.tls.any (·.enabled) = true ∧
      ob.tls.bind (·.insecure) = some true := Prod.mk.inj hkeys'
  exact ⟨m, ob, hm, hob, by decide +kernel, htype, htls, htls', hskip, hinsecure⟩

theorem sameSecurity_iff_vlessTls :
    ∃ m ob, Mihomo.proxyFor sampleLibrary ⟨[], []⟩ vlessTlsUri = some m ∧
      Singbox.outboundFor sampleLibrary ⟨[], []⟩ vlessTlsUri = some ob ∧
      (SameSecurity m ob ↔ ¬ VlessReality sampleLibrary vlessTlsUri) := by
  obtain ⟨m, hm⟩ := Option.isSome_iff_exists.mp (show
    (Mihomo.proxyFor sampleLibrary ⟨[], []⟩ vlessTlsUri).isSome = true by decide +kernel)
  obtain ⟨ob, hob⟩ := Option.isSome_iff_exists.mp (show
    (Singbox.outboundFor sampleLibrary ⟨[], []⟩ vlessTlsUri).isSome = true by decide +kernel)
  exact ⟨m, ob, hm, hob, sameSecurity_iff sampleLibrary ⟨[], []⟩ vlessTlsUri hm hob⟩

end ProxyGateway.Exits
