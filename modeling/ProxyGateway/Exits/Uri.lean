/-
# ProxyGateway.Exits.Uri — the part of a proxy URI both exit generators read alike

`mihomo-exit-config.py` was ported by hand from `singbox-exit-config.py`.  What the two scripts still
have in common, text for text, stands here once: base64 in either alphabet, `host:port`, the query as a
map, the userinfo of `ss://`, the scheme dispatch.  What they do with it is `Exits.Generators`.

`Library` is what the scripts take from Python's standard library; nothing is known of it except that
percent-decoding does not empty a text.
-/
import ProxyGateway.Lang.PyValue

namespace ProxyGateway.Exits

open ProxyGateway.Lang

/-! ## What is given -/

/-- `urllib.parse.ParseResult`.  `port` raises for a port that is no number or out of range. -/
structure Url where
  scheme : Text
  hostname : Option Text
  port : Option (Option Nat)
  username : Option Text
  password : Option Text
  query : Text
  deriving DecidableEq, Repr

/-- The library functions that the scripts call; `none` is a raised exception.  The decoders include
`.decode("utf-8")`. -/
structure Library where
  lower : Text → Text
  unquote : Text → Text
  unquote_ne_nil : ∀ t, t ≠ [] → unquote t ≠ []
  urlparse : Text → Option Url
  /-- each key with its first value and the further ones -/
  parseQs : Text → List (Text × Text × List Text)
  urlsafeB64decode : Text → Option Text
  b64decode : Text → Option Text
  loads : Text → Option Value
  int : Value → Option Int
  str : Value → Text
  /-- the class `\d` -/
  isDecimal : Char → Bool
  /-- `str.isdigit` -/
  isdigit : Text → Bool
  /-- `ipaddress.ip_address` does not raise -/
  isIpAddress : Value → Bool

/-- `PGW_USER` and `PGW_PASS`. -/
structure Credentials where
  user : Text
  password : Text
  deriving DecidableEq, Repr

variable (L : Library)

/-! ## Common helpers -/

/-- `u.port or default`. -/
def Url.portOr (u : Url) (default : Nat) : Option Value :=
  u.port.map fun port =>
    match port with
    | some n => if n = 0 then .int default else .int n
    | none => .int default

/-- `u.hostname`. -/
def Url.host (u : Url) : Value := .ofOption u.hostname

/-- `u.username or ""`. -/
def Url.user (u : Url) : Text := u.username.getD []

/-- `u.password or ""`. -/
def Url.pass (u : Url) : Text := u.password.getD []

/-- `query_map(u)`. -/
def queryMap (u : Url) : List (Text × Value) :=
  (L.parseQs u.query).map fun (k, first, _) => (k, .str first)

/-- `b64decode_any`. -/
def b64decodeAny (s : Text) : Option Text :=
  let s := strip s
  let padded := s ++ List.replicate ((4 - s.length % 4) % 4) '='
  (L.urlsafeB64decode padded).or (L.b64decode padded)

/-- `parse_hostport`.  What stands before the last colon is the host, in brackets or not. -/
def parseHostport (s : Text) : Option (Value × Value) := do
  let s := strip s
  let s := strip (s.takeWhile fun c => c != '/' && c != '?' && c != '#')
  let (host, digits) ← rsplit1 ':' s
  if digits.isEmpty || !digits.all L.isDecimal || host.isEmpty || host.contains '\n' then none
  else
    let port ← L.int (.str digits)
    if host.head? = some '[' ∧ host.getLast? = some ']' ∧ 3 ≤ host.length then
      pure (.str (host.drop 1).dropLast, .int port)
    else pure (.str host, .int port)

/-- `^[a-z0-9-]+$`, whose `$` lets a final newline pass. -/
def isMethodName (t : Text) : Bool :=
  let t := if t.getLast? = some '\n' then t.dropLast else t
  !t.isEmpty && t.all fun c => c.isLower || c.isDigit || c == '-'

/-- `decode_ss_userinfo`: method and password. -/
def decodeSsUserinfo (userinfo : Text) : Option (Text × Text) :=
  let decoded := do
    let dec ← b64decodeAny L userinfo
    let (method, password) ← split1 ':' dec
    if isMethodName method then some (method, password) else none
  decoded.or (split1 ':' (L.unquote userinfo))

/-- `parse_ss`: host, port, method and password. -/
def parseSs (uri : Text) : Option (Value × Value × Text × Text) := do
  let rest := before '?' (before '#' (uri.drop 5))
  match rsplit1 '@' rest with
  | some (userinfo, server) =>
    let (method, password) ← decodeSsUserinfo L userinfo
    let (host, port) ← parseHostport L server
    pure (host, port, method, password)
  | none =>
    let dec ← b64decodeAny L rest
    if '@' ∉ dec ∨ ':' ∉ dec then none
    else
      let (creds, server) ← rsplit1 '@' dec
      let (method, password) ← split1 ':' creds
      let (host, port) ← parseHostport L server
      pure (host, port, method, password)

/-- `re.sub(r"^socks(?:5h|5)?://", "", uri, flags=re.I)`. -/
def dropSocksPrefix (uri : Text) : Text :=
  if L.lower (uri.take 10) = lit "socks5h://" then uri.drop 10
  else if L.lower (uri.take 9) = lit "socks5://" then uri.drop 9
  else if L.lower (uri.take 8) = lit "socks://" then uri.drop 8
  else uri

/-- `parse_socks`: host, port, user and password, which may be `None`. -/
def parseSocks (uri : Text) : Option (Value × Value × Value × Value) := do
  let rest := dropSocksPrefix L uri
  let (userinfo, hostport) := (rsplit1 '@' rest).getD ([], rest)
  let (host, port) ← parseHostport L
    (strip (hostport.takeWhile fun c => c != '/' && c != '?' && c != '#'))
  if userinfo.isEmpty then pure (host, port, .null, .null)
  else
    match split1 ':' userinfo with
    | some (user, password) => pure (host, port, .str user, .str password)
    | none => pure (host, port, .str userinfo, .null)

/-- The payload of `vmess://`: a JSON object. -/
def vmessData (uri : Text) : Option (List (Text × Value)) := do
  let payload ← b64decodeAny L (uri.drop 8)
  match ← L.loads payload with
  | .dict items => some items
  | _ => none

/-- `str(data.get("tls", "")).lower() in ("tls", "true", "1")`. -/
def vmessSecure (data : List (Text × Value)) : Bool :=
  let tls := L.lower (L.str ((Value.get? data (lit "tls")).getD (.str [])))
  tls = lit "tls" || tls = lit "true" || tls = lit "1"

/-- `data.get("sni") or data.get("host") or host`. -/
def vmessServerName (data : List (Text × Value)) : Value :=
  ((Value.get data (lit "sni")).or (Value.get data (lit "host"))).or (Value.get data (lit "add"))

/-- `int(data.get("port") or 443)`. -/
def vmessPort (data : List (Text × Value)) : Option Int :=
  L.int ((Value.get data (lit "port")).or (.int 443))

/-- `int(data.get("aid", 0) or 0)`. -/
def vmessAlterId (data : List (Text × Value)) : Option Int :=
  L.int (((Value.get? data (lit "aid")).getD (.int 0)).or (.int 0))

/-- `(net or "tcp").lower()`. -/
def netOf (net : Value) : Option Text := (net.or (.str (lit "tcp"))).asStr.map L.lower

/-- `(q.get("security") or "tls").lower()`. -/
def vlessSecurity (q : List (Text × Value)) : Option Text :=
  ((Value.get q (lit "security")).or (.str (lit "tls"))).asStr.map L.lower

/-- `u.scheme.lower() == "https"`. -/
def isHttps (u : Url) : Bool := decide (L.lower u.scheme = lit "https")

/-- User and password of `tuic://`, which may stand together in the user part. -/
def tuicCredentials (u : Url) : Option (Text × Text) :=
  if ':' ∈ u.user then split1 ':' (L.unquote u.user)
  else some (L.unquote u.user, L.unquote u.pass)

/-! ## Schemes -/

/-- The branches of `parse_proxy_uri`. -/
inductive Scheme where
  | ss
  | socks
  | vmess
  | trojan
  | vless
  | hysteria2
  | tuic
  | anytls
  | http
  | wg
  deriving DecidableEq, Repr

/-- The prefixes, in the order in which both scripts ask for them; only one of them knows the last. -/
def schemePrefixes : List (Text × Scheme) :=
  [(lit "ss://", .ss),
    (lit "socks5h://", .socks), (lit "socks5://", .socks), (lit "socks://", .socks),
    (lit "vmess://", .vmess), (lit "trojan://", .trojan), (lit "vless://", .vless),
    (lit "hysteria2://", .hysteria2), (lit "hy2://", .hysteria2), (lit "tuic://", .tuic),
    (lit "anytls://", .anytls), (lit "http://", .http), (lit "https://", .http),
    (lit "wg://", .wg)]

/-- The branch that `parse_proxy_uri` takes. -/
def schemeOf (uri : Text) : Option Scheme :=
  (schemePrefixes.find? fun (start, _) => start.isPrefixOf (L.lower uri)).map (·.2)

end ProxyGateway.Exits
