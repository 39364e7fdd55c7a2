/-
# ProxyGateway.Smart.Mihomo — `mihomo-router-config.py`

The generator behind `--set-rules`.  Every rule line becomes one entry of the `rules` list, in order,
and a `FINAL` line becomes a `MATCH` in its place; the policy of a line goes through
`resolve_target`: the words for direct and block, then the policy map, then the name of an exit as
the exits directory spells it.  Afterwards every exit that a rule leads to has to load.

`mihomoConfig_rules` is the specification the other modules use: the rules of an accepted file are the
entries of its lines.
-/
import ProxyGateway.Logic.FirstMatch
import ProxyGateway.Smart.RuleText

namespace ProxyGateway.Smart

open ProxyGateway.Lang ProxyGateway.Logic

/-! ## Resolving a policy -/

section Resolve

variable (H : Host) (E : Exits) (m : PolicyMap)

/-- A file of the exits directory that gives an exit its spelling. -/
def Host.spells (f : ExitFile) (name : Text) : Bool :=
  (splitext f.name).2 ∈ [lit ".yaml", lit ".json", lit ".type"] &&
    H.lower (splitext f.name).1 = H.lower name

/-- **`canonical_exit_name`** -/
def Exits.canonicalExitName (name : Text) : Text :=
  match E.files.find? (H.spells · name) with
  | some f => (splitext f.name).1
  | none => name

/-- **`resolve_target`** -/
def Host.resolveTarget (policy : Text) : Target :=
  let t := strip policy
  match H.builtin t with
  | some target => target
  | none =>
    match m.get t with
    | some v =>
      match H.builtin (strip v) with
      | some target => target
      | none => .exit (E.canonicalExitName H (strip v))
    | none => .exit (E.canonicalExitName H t)

/-- The file `name ++ ext`, or else the first one whose name is that up to case, which then gives the
exit its name. -/
def Exits.findFile (name ext : Text) : Option (ExitFile × Text) :=
  match E.files.find? (·.name = name ++ ext) with
  | some f => some (f, name)
  | none =>
    match E.files.find? (H.lower ·.name = H.lower name ++ ext) with
    | some f => some (f, f.name.take (f.name.length - 5))
    | none => none

/-- The WireGuard configuration of an exit. -/
def Exits.loadWg (name : Text) : Except Failure (Option Text) :=
  match E.wireguard.find? (·.name = name) with
  | some wg => if wg.loads then .ok (some name) else .error .raised
  | none => .ok none

/-- From the legacy JSON file on. -/
def Exits.loadJson (name : Text) : Except Failure (Option Text) :=
  match E.findFile H name (lit ".json") with
  | some (f, name) =>
    match f.loads with
    | .fails => .error .raised
    | _ => .ok (some name)
  | none => E.loadWg name

/-- **`load_exit_proxy`**: the name of the proxy that it builds.  The name found for one kind of file
is the name searched for in the next. -/
def Exits.loadExitProxy (name : Text) : Except Failure (Option Text) :=
  match E.findFile H name (lit ".yaml") with
  | some (f, name) =>
    match f.loads with
    | .proxy => .ok (some name)
    | .nothing => E.loadJson H name
    | .fails => .error .raised
  | none => E.loadJson H name

end Resolve

/-! ## The rules -/

/-- What a plain rule compares. -/
inductive Kind where
  | domain | domainSuffix | domainKeyword | ipCidr | geosite | geoip
  deriving DecidableEq, Repr

inductive RuleType where
  | plain (kind : Kind)
  | ruleSet
  deriving DecidableEq, Repr

/-- The types of plain rules, upper case. -/
def plainKind (typ : Text) : Option Kind :=
  if typ = lit "DOMAIN" then some .domain
  else if typ = lit "DOMAIN-SUFFIX" then some .domainSuffix
  else if typ = lit "DOMAIN-KEYWORD" then some .domainKeyword
  else if typ = lit "IP-CIDR" ∨ typ = lit "IP-CIDR6" then some .ipCidr
  else if typ = lit "GEOSITE" then some .geosite
  else if typ = lit "GEOIP" then some .geoip
  else none

/-- The types of rules that a generator knows, given its names for a rule set. -/
def ruleTypeOf (ruleSetNames : List Text) (typ : Text) : Option RuleType :=
  match plainKind typ with
  | some kind => some (.plain kind)
  | none => if typ ∈ ruleSetNames then some .ruleSet else none

theorem ruleTypeOf_eq_plain {ruleSetNames : List Text} {typ : Text} {kind : Kind} :
    ruleTypeOf ruleSetNames typ = some (.plain kind) ↔ plainKind typ = some kind := by
  unfold ruleTypeOf
  cases plainKind typ with
  | some k => simp
  | none =>
    simp only [reduceCtorEq, iff_false]
    split <;> nofun

def mihomoType : Text → Option RuleType :=
  ruleTypeOf [lit "RULE-SET", lit "RULESET", lit "RULE-PROVIDER"]

/-- The condition of a rule of the configuration: `<KIND>,<value>` or `RULE-SET,<tag>`. -/
inductive Cond where
  | plain (kind : Kind) (value : Text)
  | ruleSet (tag : Text)
  deriving DecidableEq, Repr

/-- `DOMAIN,x.com,us` -/
def xToUs : Entry Cond Target := ⟨some (.plain .domain (lit "x.com")), .exit (lit "us")⟩

/-- `"rs_" + hashlib.md5(value.encode()).hexdigest()[:8]` -/
def Host.ruleSetTag (H : Host) (value : Text) : Text := lit "rs_" ++ (H.md5 value).take 8

/-- `^[A-Za-z][A-Za-z0-9+.-]*://` -/
def hasScheme (value : Text) : Bool :=
  let scheme := value.takeWhile fun c => c.isAlphanum || c == '+' || c == '.' || c == '-'
  scheme.head?.any Char.isAlpha && (lit "://").isPrefixOf (value.drop scheme.length)

section Generate

variable (H : Host) (E : Exits) (m : PolicyMap)

/-- The provider of a `RULE-SET` line. -/
def Host.ruleProvider (value : Text) (ln : Nat) : Except Failure Provider :=
  if (lit ".srs").isSuffixOf (before '?' (H.lower value)) then
    .error (.die (lit "line " ++ decimal ln ++
      lit ": sing-box .srs is not a mihomo rule-provider format; use YAML/text"))
  else if (lit "https://").isPrefixOf (H.lower value) then H.remoteProvider value ln
  else if hasScheme value then
    .error (.die (lit "line " ++ decimal ln ++ lit ": remote rule providers must use HTTPS"))
  else .ok ⟨value, lit "domain"⟩

/-- The condition of a rule line. -/
def Host.cond? (head value : Text) : Option Cond :=
  match mihomoType (H.ruleType head) with
  | some (.plain kind) => some (.plain kind value)
  | some .ruleSet => some (.ruleSet (H.ruleSetTag value))
  | none => none

/-- What a line adds: an entry of `rules`, and a `RULE-SET` line also a provider. -/
structure Emitted where
  entry : Entry Cond Target
  provider : Option (Text × Provider)

/-- One turn of the main loop. -/
def Host.emitLine (ln : Nat) (raw : Text) : Except Failure (Option Emitted) :=
  match H.parseLine raw with
  | .blank => .ok none
  | .final policy =>
    .ok (some ⟨⟨none, H.resolveTarget E m (policy.getD H.defaultTarget)⟩, none⟩)
  | .short line => .error (needsFields ln line)
  | .rule head value policy =>
    let target := H.resolveTarget E m policy
    match mihomoType (H.ruleType head) with
    | some (.plain kind) => .ok (some ⟨⟨some (.plain kind value), target⟩, none⟩)
    | some .ruleSet =>
      match H.ruleProvider value ln with
      | .ok provider =>
        let tag := H.ruleSetTag value
        .ok (some ⟨⟨some (.ruleSet tag), target⟩, some (tag, provider)⟩)
      | .error e => .error e
    | none => .error (unsupportedType ln head)

/-- The main loop, from line `ln` on. -/
def Host.emitLines : Nat → List Text → Except Failure (List Emitted)
  | _, [] => .ok []
  | ln, raw :: lines =>
    match H.emitLine E m ln raw with
    | .error e => .error e
    | .ok out =>
      match Host.emitLines (ln + 1) lines with
      | .error e => .error e
      | .ok rest => .ok (out.toList ++ rest)

/-- `referenced exit does not exist or has no usable config: %s` -/
def missingExit (name : Text) : Failure :=
  .die (lit "referenced exit does not exist or has no usable config: " ++ name)

/-- `for exit_name in used_exits` -/
def Host.loadProxies : List Text → Except Failure (List Text)
  | [] => .ok []
  | name :: names =>
    match E.loadExitProxy H name with
    | .error e => .error e
    | .ok none => .error (missingExit name)
    | .ok (some proxy) =>
      match Host.loadProxies names with
      | .error e => .error e
      | .ok proxies => .ok (proxy :: proxies)

/-- The parts of the configuration that depend on the rules. -/
structure MihomoConfig where
  rules : List (Entry Cond Target)
  providers : List (Text × Provider)
  proxies : List Text

/-- The exits that the rules lead to, each once. -/
def usedExits (rules : List (Entry Cond Target)) : List Text :=
  (rules.filterMap (·.target.exitName?)).dedup

/-- **`mihomo-router-config.py`** on the text of a rules file. -/
def Host.mihomoConfig (text : Text) : Except Failure MihomoConfig :=
  match H.emitLines E m 1 (pyLines text) with
  | .error e => .error e
  | .ok out =>
    let rules := out.map Emitted.entry
    match H.loadProxies E (usedExits rules) with
    | .error e => .error e
    | .ok proxies => .ok ⟨rules, out.filterMap Emitted.provider, proxies⟩

/-! ## What an accepted file turns into -/

/-- The entry of a line. -/
def Host.entry? (raw : Text) : Option (Entry Cond Target) :=
  match H.parseLine raw with
  | .final policy => some ⟨none, H.resolveTarget E m (policy.getD H.defaultTarget)⟩
  | .rule head value policy =>
    (H.cond? head value).map fun k => ⟨some k, H.resolveTarget E m policy⟩
  | _ => none

@[simp] theorem entry?_nil : H.entry? E m [] = none := rfl

variable {H E m}

theorem emitLine_ok {ln : Nat} {raw : Text} {out : Option Emitted}
    (h : H.emitLine E m ln raw = .ok out) : out.map Emitted.entry = H.entry? E m raw := by
  unfold Host.emitLine at h
  unfold Host.entry? Host.cond?
  cases hline : H.parseLine raw with
  | blank =>
    rw [hline] at h
    cases h
    rfl
  | final policy =>
    rw [hline] at h
    cases h
    rfl
  | short line =>
    rw [hline] at h
    nomatch h
  | rule head value policy =>
    rw [hline] at h
    cases htype : mihomoType (H.ruleType head) with
    | none => simp [htype] at h
    | some t =>
      cases t with
      | plain kind =>
        simp only [htype] at h
        cases h
        simp [htype]
      | ruleSet =>
        simp only [htype] at h
        split at h
        · cases h
          simp [htype]
        · nomatch h

theorem emitLines_ok {ln : Nat} {lines : List Text} {out : List Emitted}
    (h : H.emitLines E m ln lines = .ok out) :
    out.map Emitted.entry = lines.filterMap (H.entry? E m) := by
  induction lines generalizing ln out with
  | nil =>
    cases h
    rfl
  | cons raw lines ih =>
    simp only [Host.emitLines] at h
    split at h
    · nomatch h
    · next o ho =>
      split at h
      · nomatch h
      · next rest hrest =>
        cases h
        rw [List.map_append, ih hrest, List.filterMap_cons, ← emitLine_ok ho]
        cases o <;> rfl

theorem mihomoConfig_ok {text : Text} {cfg : MihomoConfig}
    (h : H.mihomoConfig E m text = .ok cfg) :
    H.loadProxies E (usedExits cfg.rules) = .ok cfg.proxies ∧
      cfg.rules = (pyLines text).filterMap (H.entry? E m) := by
  unfold Host.mihomoConfig at h
  split at h
  · nomatch h
  · next out hout =>
    simp only at h
    split at h
    · nomatch h
    · next proxies hproxies =>
      cases h
      exact ⟨hproxies, emitLines_ok hout⟩

/-- **`mihomoConfig_rules`** — the rules of an accepted file are the entries of its lines. -/
theorem mihomoConfig_rules {text : Text} {cfg : MihomoConfig} (h : H.mihomoConfig E m text = .ok cfg) :
    cfg.rules = (pyLines text).filterMap (H.entry? E m) := (mihomoConfig_ok h).2

/-- The policy of a rule line or of a `FINAL` line. -/
def Host.policy? (H : Host) (raw : Text) : Option Text :=
  match H.parseLine raw with
  | .final policy => policy
  | .rule _ _ policy => some policy
  | _ => none

theorem emitLines_ok_line {ln : Nat} {lines : List Text} {out : List Emitted}
    (h : H.emitLines E m ln lines = .ok out) {raw : Text} (hraw : raw ∈ lines) :
    ∃ ln' o, H.emitLine E m ln' raw = .ok o := by
  induction lines generalizing ln out with
  | nil => nomatch hraw
  | cons first lines ih =>
    simp only [Host.emitLines] at h
    split at h
    · nomatch h
    · next o ho =>
      split at h
      · nomatch h
      · next rest hrest =>
        rcases List.mem_cons.mp hraw with rfl | hraw
        · exact ⟨ln, o, ho⟩
        · exact ih hrest hraw

/-- In an accepted file a line with a policy has an entry, which leads to what the policy resolves
to. -/
theorem entry?_of_policy {text raw policy : Text} {cfg : MihomoConfig}
    (h : H.mihomoConfig E m text = .ok cfg) (hraw : raw ∈ pyLines text)
    (hpolicy : H.policy? raw = some policy) :
    ∃ entry, H.entry? E m raw = some entry ∧ entry.target = H.resolveTarget E m policy := by
  unfold Host.mihomoConfig at h
  split at h
  · nomatch h
  · next out hout =>
    obtain ⟨ln, o, ho⟩ := emitLines_ok_line hout hraw
    unfold Host.policy? at hpolicy
    unfold Host.emitLine at ho
    unfold Host.entry? Host.cond?
    cases hline : H.parseLine raw with
    | blank => simp [hline] at hpolicy
    | short line => simp [hline] at hpolicy
    | final p =>
      obtain rfl : p = some policy := by simpa [hline] using hpolicy
      exact ⟨_, rfl, rfl⟩
    | rule head value p =>
      obtain rfl : p = policy := by simpa [hline] using hpolicy
      cases htype : mihomoType (H.ruleType head) with
      | none => simp [hline, htype] at ho
      | some t =>
        cases t with
        | plain kind =>
          exact ⟨⟨some (.plain kind value), H.resolveTarget E m p⟩, by simp [htype], rfl⟩
        | ruleSet =>
          exact ⟨⟨some (.ruleSet (H.ruleSetTag value)), H.resolveTarget E m p⟩,
            by simp [htype], rfl⟩

theorem loadProxies_ok {names proxies : List Text} (h : H.loadProxies E names = .ok proxies) :
    ∀ name ∈ names, ∃ proxy, E.loadExitProxy H name = .ok (some proxy) := by
  induction names generalizing proxies with
  | nil => exact List.forall_mem_nil _
  | cons n names ih =>
    simp only [Host.loadProxies] at h
    split at h
    · cases h
    · cases h
    · next proxy hproxy =>
      split at h
      · cases h
      · next rest hrest =>
        intro name hname
        rcases List.mem_cons.mp hname with rfl | hname
        · exact ⟨proxy, hproxy⟩
        · exact ih hrest name hname

end Generate

end ProxyGateway.Smart
