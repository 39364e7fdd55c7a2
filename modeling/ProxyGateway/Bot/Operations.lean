/-
# ProxyGateway.Bot.Operations — the command lines of the bot

An operation of the bot checks its arguments, reads what it needs from the files, and runs the
management script with an option and at most two values, never more than once.  The script selects a
branch by its first argument alone; what it does not know starts the whole installation.

One operation asks for an option that the script does not have: `op_refresh_rulesets` runs
`--regen-smart`.  Every other one selects a branch of its own, whatever its arguments are
(`dispatch_command_iff`).
-/
import ProxyGateway.Dns.CustomDns
import ProxyGateway.Dns.ExtrasFile

namespace ProxyGateway.Bot

open ProxyGateway.Lang ProxyGateway.Dns ProxyGateway.Smart

/-! ## The option dispatch of the script -/

/-- What a branch of the `case` calls. -/
inductive Branch where
  | showStatus | updateDnsdistRules | forceRenewCert | setDotDomain | forceSetDotDomain
  | setCustomDns | listExits | addExit | delExit | setExit | setRules | importRules | setPolicy
  | delPolicy | renamePolicy | proxyDomain | showPolicy | checkExits | showRules | setupTgbot
  | doUninstall | regenerateIosProfile | usage
  /-- the default -/
  | mainInstall
  deriving DecidableEq, Repr

/-- The patterns, in order. -/
def options : List (Text × Branch) :=
  [(lit "--status", .showStatus), (lit "--update-rules", .updateDnsdistRules),
    (lit "--renew-cert", .forceRenewCert), (lit "--set-dot-domain", .setDotDomain),
    (lit "--set-dot-domain-force", .forceSetDotDomain), (lit "--set-dns", .setCustomDns),
    (lit "--list-exits", .listExits), (lit "--add-exit", .addExit), (lit "--del-exit", .delExit),
    (lit "--set-exit", .setExit), (lit "--set-rules", .setRules),
    (lit "--import-rules", .importRules), (lit "--set-policy", .setPolicy),
    (lit "--del-policy", .delPolicy), (lit "--rename-policy", .renamePolicy),
    (lit "--proxy-domain", .proxyDomain), (lit "--show-policy", .showPolicy),
    (lit "--check-exits", .checkExits), (lit "--show-rules", .showRules),
    (lit "--setup-tgbot", .setupTgbot), (lit "--uninstall", .doUninstall),
    (lit "-ios", .regenerateIosProfile), (lit "-h", .usage), (lit "--help", .usage),
    (lit "help", .usage)]

/-- **`dispatch`** — `case "${1:-}" in`, on the arguments of the script. -/
def dispatch (args : List Text) : Branch :=
  ((options.find? (·.1 = args.head?.getD [])).map (·.2)).getD .mainInstall

/-- Only the first argument counts. -/
theorem dispatch_cons (option : Text) (args : List Text) :
    dispatch (option :: args) = dispatch [option] := rfl

/-! ## What the bot works with -/

/-- Python, and the names that a link carries. -/
structure BotHost extends Editor where
  /-- `int(t)`; none where it raises -/
  pyInt : Text → Option Int
  /-- `data.get("ps")` of a `vmess` link, the fragment of any other; empty where there is none -/
  linkName : Text → Text
  /-- `urllib.parse.unquote` -/
  unquote : Text → Text

/-- What an operation finds: the files, and how the programs it runs turn out. -/
structure World where
  /-- `parse_exit_names()` -/
  exitNames : List Text
  /-- `_policy_map()` -/
  policyMap : List (Text × Text)
  /-- `rules.conf` -/
  rules : Text
  /-- `gfwlist-extra-local.txt` -/
  extras : Text
  /-- `current_remote_dns()` and `current_local_dns()` -/
  remoteDns : Text
  localDns : Text
  /-- whether `rules-import.py --from-url` prints rules -/
  usable : Bool
  /-- what `rules-import.py --extract-domains` downloads, and how its two streams are merged -/
  download : Option (List UInt8)
  cut : Nat
  /-- whether the management script succeeds, and whether its output says that the DoT domain was
  changed by force -/
  ok : Bool
  saysForced : Bool

inductive DnsKind where
  | remote
  | local
  deriving DecidableEq, Repr

/-- An operation with its arguments. -/
inductive Op where
  | setExit (name : Text)
  | addExit (name payload : Text)
  | delExit (name : Text)
  | updateRules
  | renewCert
  | setDotDomain (domain : Text)
  | forceSetDotDomain (domain : Text)
  | setDns (kind : DnsKind) (text : Text)
  | refreshRulesets
  | importRuleset (url target : Text)
  | gfwlImportSet (url : Text)
  | setRules (text : Text)
  | addRule (line : Text)
  | delRule (num : Text)
  | setFinal (target : Text)
  | setPolicy (cat target : Text)
  | checkExits
  | gfwlistAdd (domain : Text)
  | gfwlistDel (domain : Text)
  /-- an operation that runs other programs only: status, logs, restarts, firewall, QR code -/
  | other
  deriving DecidableEq, Repr

/-! ## Checks of arguments -/

/-- `t.split(None)` -/
def splitWords (t : Text) : List Text := (t.splitOnP isSpace).filter (· ≠ [])

/-- `[0-9A-Fa-f:.,\s]` -/
def isDnsListChar (c : Char) : Bool := c.isDigit || c ∈ lit "ABCDEFabcdef:.," || isSpace c

/-- **`_dns_arg`** -/
def dnsArg (text : Text) : Text :=
  let value := strip text
  if value = [] ∨ value.all isDnsListChar = false then []
  else joinWith ' ' (splitWords (commasToBlanks value))

/-- The argument of both operations on the DoT domain. -/
def dotDomainArg (H : Host) (domain : Text) : Text := rstripDots (H.lower (strip domain))

/-- `DOMAIN_RE`, which also matches in front of a newline at the end. -/
def isDotDomain (domain : Text) : Bool :=
  let body := cutLast '\n' domain
  let labels := body.splitOn '.'
  body.length ≤ 253 && 2 ≤ labels.length && labels.dropLast.all isLabel &&
    labels.getLast?.any fun tld => tld.all Char.isAlpha && 2 ≤ tld.length

/-- A word that a link starts with, under `re.I`, which also takes the Kelvin sign for a k. -/
def startsWithScheme (t scheme : Text) : Bool :=
  scheme.length ≤ t.length && (scheme.zip t).all fun (p, c) =>
    sameLetter p c || (p = 'k' && c.toNat = 0x212a)

/-- `PROXY_URI_RE.match(t)` -/
def isProxyUri (t : Text) : Bool :=
  [lit "ss://", lit "vmess://", lit "trojan://", lit "vless://", lit "hysteria2://", lit "hy2://",
    lit "tuic://", lit "anytls://", lit "socks5h://", lit "socks5://", lit "socks://",
    lit "http://", lit "https://"].any (startsWithScheme t)

/-- A WireGuard configuration. -/
def isWireGuardText (t : Text) : Bool := lit "[Interface]" <:+: t ∧ lit "[Peer]" <:+: t

section Names

variable (H : BotHost)

/-- `[\w\-一-鿿]` -/
def BotHost.isNameChar (c : Char) : Bool :=
  H.isWord c || c = '-' || (0x4e00 ≤ c.toNat && c.toNat ≤ 0x9fff)

/-- `EXIT_ADD_NAME_RE.match(name)`, which also matches in front of a newline at the end. -/
def BotHost.isExitAddName (name : Text) : Bool :=
  let body := cutLast '\n' name
  body ≠ [] && body.length ≤ 16 && body.all H.isNameChar

/-- `EXIT_NAME_RE.match(name)` -/
def BotHost.isExitName (name : Text) : Bool :=
  cutLast '\n' name = lit "local" || H.isExitAddName name

/-- `re.sub(r"[^\w\-一-鿿]+", "-", t)`, `gap` inside a run. -/
def BotHost.dashRuns : Bool → Text → Text
  | _, [] => []
  | gap, c :: t =>
    if H.isNameChar c then c :: BotHost.dashRuns false t
    else if gap then BotHost.dashRuns true t
    else '-' :: BotHost.dashRuns true t

/-- `t.strip("-_")` -/
def stripDashUnderscore (t : Text) : Text :=
  let mark := fun c : Char => c = '-' || c = '_'
  (t.dropWhile mark).rdropWhile mark

/-- **`clean_exit_name`** -/
def BotHost.cleanExitName (name : Text) : Text :=
  let name := (stripDashUnderscore (H.dashRuns false (strip (H.unquote name)))).take 16
  if name = [] ∨ name = lit "local" ∨ H.isExitAddName name = false then [] else name

/-- **`unique_exit_name`** -/
def BotHost.uniqueExitName (existing : List Text) (name : Text) : Text :=
  let base := H.cleanExitName name
  if base = [] then []
  else if base ∉ existing then base
  else
    let candidate := fun i : Nat =>
      let suffix := '-' :: decimal i
      stripDashUnderscore (base.take (16 - suffix.length) ++ suffix)
    (((List.range' 2 98).map candidate).find? fun cand =>
      cand ≠ [] && cand ∉ existing && H.isExitAddName cand).getD []

/-- **`parse_add_exit_input`**: the name and the configuration; none where it returns an error. -/
def BotHost.parseAddExitInput (existing : List Text) (payload : Text) : Option (Text × Text) :=
  let config := strip payload
  if config = [] then none
  else
    let first := strip ((splitlines config).head?.getD [])
    let word := first.takeWhile fun c => !isSpace c
    let rest := strip (first.dropWhile fun c => !isSpace c)
    if rest ≠ [] ∧ H.isExitAddName word = true ∧ word ≠ lit "local" ∧ isProxyUri rest = true then
      some (word, rest ++ config.drop first.length)
    else if isWireGuardText config then none
    else if isProxyUri first = false then none
    else
      let name := H.uniqueExitName existing (H.linkName first)
      if name = [] then none else some (name, config)

end Names

/-! ## The command lines -/

section Commands

variable (H : BotHost)

/-- The arguments with which an operation runs the management script, if it does. -/
def BotHost.command (w : World) : Op → Option (List Text)
  | .setExit name => if H.isExitName name then some [lit "--set-exit", name] else none
  | .addExit name payload =>
    if H.isExitAddName name = false ∨ name = lit "local" then none
    else if isProxyUri (strip payload) = false ∧ isWireGuardText payload = false then none
    else some [lit "--add-exit", name]
  | .delExit name =>
    if H.isExitAddName name = false ∨ name = lit "local" then none
    else some [lit "--del-exit", name]
  | .updateRules => some [lit "--update-rules"]
  | .renewCert => some [lit "--renew-cert"]
  | .setDotDomain domain =>
    let domain := dotDomainArg H.toHost domain
    if isDotDomain domain then some [lit "--set-dot-domain", domain] else none
  | .forceSetDotDomain domain =>
    let domain := dotDomainArg H.toHost domain
    if isDotDomain domain then some [lit "--set-dot-domain-force", domain] else none
  | .setDns kind text =>
    let dns := dnsArg text
    let remoteDns := if kind = .remote then dns else w.remoteDns
    let localDns := if kind = .remote then w.localDns else dns
    if dns = [] ∨ remoteDns = lit "?" ∨ localDns = lit "?" then none
    else some [lit "--set-dns", remoteDns, localDns]
  | .refreshRulesets => some [lit "--regen-smart"]
  | .importRuleset url target =>
    (opImportRuleset url target w.usable (readFile w.rules)).map fun _ => [lit "--set-rules"]
  | .gfwlImportSet url =>
    (H.edit (.importSet url w.download w.cut) w.extras).map fun _ => [lit "--update-rules"]
  | .setRules text => (opSetRules text).map fun _ => [lit "--set-rules"]
  | .addRule line => (opAddRule line (readFile w.rules)).map fun _ => [lit "--set-rules"]
  | .delRule num =>
    ((H.pyInt (strip num)).bind (opDelRule · (readFile w.rules))).map fun _ => [lit "--set-rules"]
  | .setFinal target => (H.opSetFinal target (readFile w.rules)).map fun _ => [lit "--set-rules"]
  | .setPolicy cat target => some [lit "--set-policy", cat, target]
  | .checkExits => some [lit "--check-exits"]
  | .gfwlistAdd domain => (H.edit (.add domain) w.extras).map fun _ => [lit "--update-rules"]
  | .gfwlistDel domain => (H.edit (.del domain) w.extras).map fun _ => [lit "--update-rules"]
  | .other => none

end Commands

/-- The option of an operation. -/
def Op.option : Op → Text
  | .setExit _ => lit "--set-exit"
  | .addExit .. => lit "--add-exit"
  | .delExit _ => lit "--del-exit"
  | .updateRules | .gfwlImportSet _ | .gfwlistAdd _ | .gfwlistDel _ => lit "--update-rules"
  | .renewCert => lit "--renew-cert"
  | .setDotDomain _ => lit "--set-dot-domain"
  | .forceSetDotDomain _ => lit "--set-dot-domain-force"
  | .setDns .. => lit "--set-dns"
  | .refreshRulesets => lit "--regen-smart"
  | .importRuleset .. | .setRules _ | .addRule _ | .delRule _ | .setFinal _ => lit "--set-rules"
  | .setPolicy .. => lit "--set-policy"
  | .checkExits => lit "--check-exits"
  | .other => []

section Options

variable {H : BotHost} {w : World} {op : Op} {args : List Text}

theorem exists_of_map {α : Type} {o : Option α} {option : Text}
    (h : o.map (fun _ => [option]) = some args) : ∃ rest, args = option :: rest := by
  obtain ⟨_, -, rfl⟩ := Option.map_eq_some_iff.mp h
  exact ⟨[], rfl⟩

theorem exists_of_ite {p : Prop} [Decidable p] {option : Text} {rest : List Text}
    (h : (if p then some (option :: rest) else none) = some args) : ∃ rest, args = option :: rest := by
  split at h
  · exact ⟨rest, (Option.some.inj h).symm⟩
  · nomatch h

theorem exists_of_ite_not {p : Prop} [Decidable p] {o : Option (List Text)} {option : Text}
    (ho : o = some args → ∃ rest, args = option :: rest)
    (h : (if p then none else o) = some args) : ∃ rest, args = option :: rest := by
  split at h
  · nomatch h
  · exact ho h

/-- The option stands first in the command line. -/
theorem command_option (h : H.command w op = some args) : ∃ rest, args = op.option :: rest := by
  have hsome : ∀ {option : Text} {rest : List Text}, some (option :: rest) = some args →
      ∃ rest, args = option :: rest := by
    intro option rest heq
    exact ⟨rest, (Option.some.inj heq).symm⟩
  cases op with
  | setExit name => exact exists_of_ite h
  | addExit name payload => exact exists_of_ite_not (exists_of_ite_not hsome) h
  | delExit name => exact exists_of_ite_not hsome h
  | updateRules => exact hsome h
  | renewCert => exact hsome h
  | setDotDomain domain => exact exists_of_ite h
  | forceSetDotDomain domain => exact exists_of_ite h
  | setDns kind text => exact exists_of_ite_not hsome h
  | refreshRulesets => exact hsome h
  | importRuleset url target => exact exists_of_map h
  | gfwlImportSet url => exact exists_of_map h
  | setRules text => exact exists_of_map h
  | addRule line => exact exists_of_map h
  | delRule num => exact exists_of_map h
  | setFinal target => exact exists_of_map h
  | setPolicy cat target => exact hsome h
  | checkExits => exact hsome h
  | gfwlistAdd domain => exact exists_of_map h
  | gfwlistDel domain => exact exists_of_map h
  | other => nomatch h

/-- **`dispatch_command_iff`** — the refresh of the rule sets is the one operation whose command line
starts the installation. -/
theorem dispatch_command_iff (h : H.command w op = some args) :
    dispatch args = .mainInstall ↔ op = .refreshRulesets := by
  obtain ⟨rest, rfl⟩ := command_option h
  rw [dispatch_cons]
  cases op with
  | refreshRulesets => decide
  | other => nomatch h
  | _ =>
    clear h
    refine iff_of_false ?_ Op.noConfusion
    show dispatch [lit _] ≠ _
    decide

end Options

end ProxyGateway.Bot
