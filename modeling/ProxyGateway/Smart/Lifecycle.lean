/-
# ProxyGateway.Smart.Lifecycle — the commands on exits, rules and policies, and what they keep

Eight commands of the management script change the exits directory, `rules.conf` and the policy map.
Those that change the rules or the map also rebuild the configuration of the exit `smart` and take
everything back when the generator or `mihomo -t` refuses it.  `del_exit` only asks whether the exit
exists.  So a rule can come to lead to an exit that is gone, and the next rebuild, in a command that
has nothing to do with it, dies (`delExit_breaks_integrity`).

`Integrity` says that this did not happen.  It holds after every run whose deletions are safe: nothing
leads to the exit that goes, or another exit is spelled like it up to case and takes its place
(`integrity_of_safeDeletions`).  A deletion that is not safe breaks it at once
(`unsafeDeletion_breaks`).
-/
import Mathlib.Data.List.Dedup
import ProxyGateway.Logic.Machine
import ProxyGateway.Smart.ExitFiles
import ProxyGateway.Smart.PolicySeed

namespace ProxyGateway.Smart

open ProxyGateway.Lang ProxyGateway.Logic

/-! ## What a policy asks for -/

section Wants

variable (H : Host) (m : PolicyMap)

/-- The name of an exit that a policy asks for, before the exits directory gives it its spelling. -/
def Host.wants (policy : Text) : Option Text :=
  let t := strip policy
  match H.builtin t with
  | some _ => none
  | none =>
    match m.get t with
    | some v =>
      match H.builtin (strip v) with
      | some _ => none
      | none => some (strip v)
    | none => some t

/-- The policy of a line that has an entry. -/
def Host.linePolicy (raw : Text) : Option Text :=
  match H.parseLine raw with
  | .final policy => some (policy.getD H.defaultTarget)
  | .rule head value policy => (H.cond? head value).map fun _ => policy
  | _ => none

/-- The names that the lines of a rules file ask for. -/
def Host.wanted (text : Text) : List Text :=
  (pyLines text).filterMap fun raw => (H.linePolicy raw).bind (H.wants m)

/-- The entries of the lines of a rules file. -/
def Host.entries (E : Exits) (text : Text) : List (Entry Cond Target) :=
  (pyLines text).filterMap (H.entry? E m)

variable {H m} {E : Exits}

theorem resolveTarget_eq_exit_iff {policy n : Text} :
    H.resolveTarget E m policy = .exit n ↔
      ∃ t, H.wants m policy = some t ∧ E.canonicalExitName H t = n := by
  unfold Host.resolveTarget Host.wants
  simp only
  cases hb : H.builtin (strip policy) with
  | some target =>
    simp only [reduceCtorEq, false_and, exists_false, iff_false]
    rintro rfl
    exact H.builtin_ne_exit _ n hb
  | none =>
    cases hv : m.get (strip policy) with
    | none => simp
    | some v =>
      cases hvb : H.builtin (strip v) with
      | some target =>
        simp only [hvb, reduceCtorEq, false_and, exists_false, iff_false]
        rintro rfl
        exact H.builtin_ne_exit _ n hvb
      | none => simp [hvb]

theorem entry?_target (raw : Text) :
    (H.entry? E m raw).map Entry.target = (H.linePolicy raw).map (H.resolveTarget E m) := by
  unfold Host.entry? Host.linePolicy
  cases H.parseLine raw with
  | rule head value policy => cases hc : H.cond? head value <;> simp [hc]
  | _ => rfl

/-- The lines with an entry are those with a policy, under every map. -/
theorem entry?_isSome (raw : Text) : (H.entry? E m raw).isSome = (H.linePolicy raw).isSome := by
  have htarget := congrArg Option.isSome (entry?_target (H := H) (m := m) (E := E) raw)
  rwa [Option.isSome_map, Option.isSome_map] at htarget

/-- The exits that the rules lead to are those asked for, in the spelling of the exits directory. -/
theorem Host.leadsTo_iff {text n : Text} :
    (∃ entry ∈ H.entries m E text, entry.target = .exit n) ↔
      ∃ t ∈ H.wanted m text, E.canonicalExitName H t = n := by
  have hline : ∀ raw, (∃ entry, H.entry? E m raw = some entry ∧ entry.target = .exit n) ↔
      ∃ t, (H.linePolicy raw).bind (H.wants m) = some t ∧ E.canonicalExitName H t = n := by
    intro raw
    have htarget := entry?_target (H := H) (m := m) (E := E) raw
    cases hp : H.linePolicy raw with
    | none =>
      rw [hp, Option.map_none, Option.map_eq_none_iff] at htarget
      simp [htarget]
    | some policy =>
      rw [hp, Option.map_some, Option.map_eq_some_iff] at htarget
      obtain ⟨entry, hentry, htarget⟩ := htarget
      rw [Option.bind_some, ← resolveTarget_eq_exit_iff, ← htarget]
      simp [hentry]
  simp only [Host.entries, Host.wanted, List.mem_filterMap]
  constructor
  · rintro ⟨entry, ⟨raw, hraw, hentry⟩, htarget⟩
    obtain ⟨t, ht, hcan⟩ := (hline raw).mp ⟨entry, hentry, htarget⟩
    exact ⟨t, ⟨raw, hraw, ht⟩, hcan⟩
  · rintro ⟨t, ⟨raw, hraw, ht⟩, hcan⟩
    obtain ⟨entry, hentry, htarget⟩ := (hline raw).mpr ⟨t, ht, hcan⟩
    exact ⟨entry, ⟨raw, hraw, hentry⟩, htarget⟩

theorem mem_usedExits {rules : List (Entry Cond Target)} {n : Text} :
    n ∈ usedExits rules ↔ ∃ entry ∈ rules, entry.target = .exit n := by
  simp only [usedExits, List.mem_dedup, List.mem_filterMap]
  refine exists_congr fun entry => and_congr_right fun _ => ?_
  cases entry.target <;> simp [Target.exitName?]

end Wants

/-! ## The machine the commands run on -/

/-- **`MihomoTest`** — `mihomo -t`: it refuses a configuration with a rule that leads to an unknown
name.  `reserved` are the names known without a proxy of that name, as `GLOBAL` or the group `proxy`;
they are words of ASCII letters. -/
structure MihomoTest (H : Host) where
  accepts : MihomoConfig → Bool
  reserved : List Text
  known : ∀ cfg, accepts cfg = true → ∀ entry ∈ cfg.rules, ∀ n, entry.target = .exit n →
    n ∈ cfg.proxies ∨ n ∈ reserved
  plain : ∀ t ∈ reserved, H.PlainCase t

/-- What the commands find installed. -/
structure Setup where
  host : Host
  shell : Shell
  defaults : DefaultRules
  mihomo : MihomoTest host
  /-- `[\w\-\u4e00-\u9fff]` -/
  nameChar : Char → Bool
  nameChar_dot : nameChar '.' = false
  /-- What `awk` makes of `-v x=...`. -/
  awkVar : Text → Text

/-- The files that the commands change.  `smart.yaml` and `smart.type` are files of the exits
directory. -/
structure State where
  exits : Exits
  rules : Option Text
  policy : Option Text
  deriving DecidableEq

/-- A fresh installation. -/
def fresh : State := ⟨⟨[], []⟩, none, none⟩

def smart : Text := lit "smart"

namespace State

variable (st : State)

/-- A configuration of the exit `smart` was built. -/
def built : Bool := st.exits.hasFile (smart ++ yamlExt)

/-- The assignments of the policy map, if there is one. -/
def policyText : Text := st.policy.getD []

end State

section Commands

variable (S : Setup) (st : State)

/-- **`build_smart_candidate`** -/
def Setup.buildCandidate (E : Exits) (policy text : Text) : Option MihomoConfig :=
  if text = [] then none
  else match S.host.mihomoConfig E (loadPolicyMap policy) (S.defaults.effective text) with
    | .ok cfg => if S.mihomo.accepts cfg then some cfg else none
    | .error _ => none

/-- `mihomo-exit-config.py` and the like write YAML that loads; that of the router loads its first
proxy. -/
def smartLoads (cfg : MihomoConfig) : Loads := if cfg.proxies = [] then .nothing else .proxy

/-- **`regen_smart`**, and the end of `set_rules`; none where it fails.  `works` says that the reload
and the other tools succeed. -/
def Setup.regenSmart (works : Bool) : Option State :=
  match st.rules with
  | none => none
  | some text =>
    match S.buildCandidate st.exits st.policyText text with
    | some cfg =>
      if works then some { st with exits := st.exits.install smart (smartLoads cfg) } else none
    | none => none

/-- A name that `add_exit` takes; `$` also matches before a line end at the end. -/
def Setup.validName (name : Text) : Bool :=
  let isName := fun t : Text => t ≠ [] && t.length ≤ 16 && t.all S.nameChar
  name ∉ [lit "local", smart] &&
    (isName name || (name.getLast? = some '\n' && isName name.dropLast))

/-- What `add_exit` gets as the source of an exit. -/
inductive ExitSource where
  /-- A proxy URI; `loads` says that the router can read the YAML made of it. -/
  | uri (loads : Bool)
  | wireguard (loads singboxLoads : Bool)
  | refused

/-- **`add_exit`** -/
def Setup.addExit (name : Text) (source : ExitSource) : State :=
  if S.validName name then
    match source with
    | .uri loads =>
      { st with exits := st.exits.install name (if loads then .proxy else .fails) }
    | .wireguard loads singboxLoads =>
      { st with exits := st.exits.installWg ⟨name, loads, singboxLoads⟩ }
    | .refused => st
  else st

/-- **`del_exit`**; before it removes the files it switches an active exit off. -/
def delExit (name : Text) (works : Bool) : State :=
  if name ∉ [[], lit "local"] ∧ st.exits.exitExists name ∧ works then
    { st with exits := st.exits.remove name }
  else st

/-- **`set_rules`**.  `init_policy_map` touches the map. -/
def Setup.setRules (text : Text) (works : Bool) : State :=
  if text = [] then st
  else
    let touched := { st with policy := some st.policyText }
    let candidate := S.shell.initPolicyMap st.exits st.policyText (S.defaults.effective text)
    (S.regenSmart { st with rules := some text, policy := some candidate } works).getD touched

/-- The text of a file with these lines. -/
def fileOf (lines : List Text) : Text := lines.flatMap (· ++ ['\n'])

/-- `grep -vF "$pattern"`.  A pattern with a dash in front is read as options, and a file with a zero
byte as binary. -/
def Shell.grepVF (Sh : Shell) (pattern file : Text) : Text :=
  if pattern.head? = some '-' ∨ '\x00' ∈ file then Sh.grepOdd pattern file
  else fileOf ((shLines file).filter fun line => !(pattern.splitOn '\n').any (· <:+: line))

/-- `grep -vF "${cat}="`, and the new assignment at the end. -/
def Shell.setPolicyText (Sh : Shell) (cat target map : Text) : Text :=
  Sh.grepVF (cat ++ ['=']) map ++ fileOf [cat ++ '=' :: target]

/-- A target that `set_policy` and `proxy_domain` take. -/
def State.isTarget (target : Text) : Bool :=
  target ∈ [lit "direct", lit "block"] || st.exits.exitExists target

/-- **`set_policy`** -/
def Setup.setPolicy (cat target : Text) (works : Bool) : State :=
  if cat ≠ [] ∧ target ≠ [] ∧ st.isTarget target then
    let edited := { st with policy := some (S.shell.setPolicyText cat target st.policyText) }
    (S.regenSmart edited works).getD st
  else st

/-- `awk -F= -v c="$cat" '$1!=c'` -/
def Setup.delPolicyText (cat map : Text) : Text :=
  fileOf ((shLines map).filter fun line => !S.shell.awkEq (before '=' line) cat)

/-- **`del_policy`** -/
def Setup.delPolicy (cat : Text) (works : Bool) : State :=
  match st.policy with
  | none => st
  | some map =>
    if cat ≠ [] then
      (S.regenSmart { st with policy := some (S.delPolicyText cat map) } works).getD st
    else st

/-- `$1==o{$1=n} {print}` on a line of the map. -/
def Setup.renameKey (old new line : Text) : Text :=
  if S.shell.awkEq (before '=' line) old then
    S.awkVar new ++ line.drop (before '=' line).length
  else line

/-- The last field of a rule, where it is `old`, becomes `new`. -/
def Setup.renameRule (old new line : Text) : Text :=
  if S.shell.isRule line && S.shell.awkEq (lastField line) old then
    [','].intercalate ((line.splitOn ',').dropLast ++ [S.awkVar new])
  else line

/-- `^[A-Za-z0-9_-]+$`, or some character outside ASCII. -/
def validCategory (new : Text) : Bool :=
  new.all (fun c => c.isAlphanum || c == '_' || c == '-') || new.any (fun c => 128 ≤ c.toNat)

/-- **`rename_policy`** -/
def Setup.renamePolicy (old new : Text) (works : Bool) : State :=
  if old ≠ [] ∧ new ≠ [] ∧ validCategory new then
    let edited := { st with
      policy := st.policy.map fun map => fileOf ((shLines map).map (S.renameKey old new))
      rules := st.rules.map fun text => fileOf ((shLines text).map (S.renameRule old new)) }
    (S.regenSmart edited works).getD st
  else st

/-- `^[a-z0-9.-]+$`, with a dot in it. -/
def validDomain (domain : Text) : Bool :=
  domain.all (fun c => 'a' ≤ c ∧ c ≤ 'z' ∨ c.isDigit ∨ c = '.' ∨ c = '-') && domain.any (· == '.')

/-- **`proxy_domain`**, which touches the rules before it takes its snapshot. -/
def Setup.proxyDomain (domain target : Text) (works : Bool) : State :=
  if domain ≠ [] ∧ target ≠ [] ∧ validDomain domain ∧ st.isTarget target then
    let rules := st.rules.getD []
    (S.regenSmart { st with rules := some (proxyDomainText domain target rules) } works).getD
      { st with rules := some rules }
  else st

/-- A completed command.  `works` says that the tools it calls succeed; it fails by itself where the
new configuration is refused. -/
inductive Command where
  | addExit (name : Text) (source : ExitSource)
  | delExit (name : Text) (works : Bool)
  | setRules (text : Text) (works : Bool)
  /-- `converted` is the output of `rules-import.py`. -/
  | importRules (converted : Text) (works : Bool)
  | setPolicy (cat target : Text) (works : Bool)
  | delPolicy (cat : Text) (works : Bool)
  | renamePolicy (old new : Text) (works : Bool)
  | proxyDomain (domain target : Text) (works : Bool)
  /-- No command: `os.listdir` comes to list the exits directory in another order. -/
  | relist (files : List ExitFile)

/-- What a command makes of the files. -/
def Setup.next : Command → State
  | .addExit name source => S.addExit st name source
  | .delExit name works => delExit st name works
  | .setRules text works => S.setRules st text works
  | .importRules converted works => S.setRules st converted works
  | .setPolicy cat target works => S.setPolicy st cat target works
  | .delPolicy cat works => S.delPolicy st cat works
  | .renamePolicy old new works => S.renamePolicy st old new works
  | .proxyDomain domain target works => S.proxyDomain st domain target works
  | .relist files =>
    if files.isPerm st.exits.files then { st with exits := { st.exits with files := files } } else st

/-- Every command completes. -/
def Setup.step (c : Command) : Option State := some (S.next st c)

/-! ## Integrity -/

/-- The rules that the router resolves: the built-in ones and `rules.conf`, under the policy map. -/
def Setup.entries : List (Entry Cond Target) :=
  match st.rules with
  | some text => S.host.entries (loadPolicyMap st.policyText) st.exits (S.defaults.effective text)
  | none => []

/-- **`Integrity`** — where there are rules and a configuration was built, every rule leads to direct,
to block or to an exit that exists, and the generator does not stop at a missing exit. -/
def Setup.Integrity : Prop :=
  st.rules.isSome → st.built →
    (∀ entry ∈ S.entries st, ∀ n, entry.target = .exit n → st.exits.exitExists n) ∧
      ∀ n, S.host.loadProxies st.exits (usedExits (S.entries st)) ≠ .error (missingExit n)

/-- **`SafeDeletion`** — a deletion leaves no rule without its exit: no configuration was built or it
goes too, no rule leads to the exit, or a twin takes over. -/
def Setup.SafeDeletion : Command → Bool
  | .delExit d works =>
    !works || d ∈ [lit "local", smart] || !st.built ||
      (S.entries st).all (fun entry => entry.target ≠ .exit d) || st.exits.Twin S.host d
  | _ => true

end Commands

/-! ## Loading the exits of a configuration -/

section Load

variable {H : Host} {E : Exits}

theorem loadExitProxy_error {name : Text} {e : Failure} (h : E.loadExitProxy H name = .error e) :
    e = .raised := by
  have hwg : ∀ n, E.loadWg n = .error e → e = .raised := fun n hn => by
    unfold Exits.loadWg at hn
    split at hn
    · split at hn <;> cases hn
      rfl
    · nomatch hn
  have hjson : ∀ n, E.loadJson H n = .error e → e = .raised := fun n hn => by
    unfold Exits.loadJson at hn
    split at hn
    · split at hn <;> cases hn
      rfl
    · exact hwg _ hn
  unfold Exits.loadExitProxy at h
  split at h
  · split at h
    · nomatch h
    · exact hjson _ h
    · cases h
      rfl
  · exact hjson _ h

theorem loadProxies_ne_missing {names : List Text}
    (h : ∀ n ∈ names, E.loadExitProxy H n ≠ .ok none) (n : Text) :
    H.loadProxies E names ≠ .error (missingExit n) := by
  induction names with
  | nil => exact fun herr => by cases herr
  | cons name names ih =>
    intro herr
    simp only [Host.loadProxies] at herr
    split at herr
    · next e he =>
      obtain rfl := loadExitProxy_error he
      cases herr
    · next hnone => exact h name (List.mem_cons_self ..) hnone
    · split at herr
      · next e he =>
        cases herr
        exact ih (fun n hn => h n (List.mem_cons_of_mem _ hn)) he
      · cases herr

theorem loadProxies_mem {names proxies : List Text} (h : H.loadProxies E names = .ok proxies)
    {proxy : Text} (hproxy : proxy ∈ proxies) : ∃ name, E.loadExitProxy H name = .ok (some proxy) := by
  induction names generalizing proxies with
  | nil =>
    cases h
    cases hproxy
  | cons name names ih =>
    simp only [Host.loadProxies] at h
    split at h
    · cases h
    · cases h
    · next p hp =>
      split at h
      · cases h
      · next rest hrest =>
        cases h
        rcases List.mem_cons.mp hproxy with rfl | hproxy
        · exact ⟨name, hp⟩
        · exact ih hrest hproxy

theorem loadProxies_ne_nil {names proxies : List Text} (h : H.loadProxies E names = .ok proxies)
    (hne : names ≠ []) : proxies ≠ [] := by
  obtain ⟨name, names, rfl⟩ := List.exists_cons_of_ne_nil hne
  simp only [Host.loadProxies] at h
  split at h
  · cases h
  · cases h
  · split at h
    · cases h
    · cases h
      exact List.cons_ne_nil _ _

end Load

/-! ## The invariant -/

section Invariant

variable {S : Setup} {st st' : State}

/-- The names that the rules of a state ask for. -/
def Setup.wanted (S : Setup) (st : State) : List Text :=
  match st.rules with
  | some text => S.host.wanted (loadPolicyMap st.policyText) (S.defaults.effective text)
  | none => []

/-- What every command keeps, if the deletions are safe. -/
structure Inv (S : Setup) (st : State) : Prop where
  sound : st.exits.Sound
  rules : st.built = true → st.rules.isSome = true
  found : st.built = true → ∀ t ∈ S.wanted st,
    st.exits.exitExists (st.exits.canonicalExitName S.host t) = true
  proxies : st.built = true → S.wanted st ≠ [] → ∀ f ∈ st.exits.files, f.loads ≠ .nothing

theorem Setup.leadsTo_iff {n : Text} : (∃ entry ∈ S.entries st, entry.target = .exit n) ↔
    ∃ t ∈ S.wanted st, st.exits.canonicalExitName S.host t = n := by
  unfold Setup.entries Setup.wanted
  cases st.rules with
  | some text => exact Host.leadsTo_iff
  | none => simp

theorem Inv.integrity (h : Inv S st) : S.Integrity st := by
  intro _ hbuilt
  have hexists : ∀ entry ∈ S.entries st, ∀ n, entry.target = .exit n → st.exits.exitExists n := by
    intro entry hentry n htarget
    obtain ⟨t, ht, rfl⟩ := Setup.leadsTo_iff.mp ⟨entry, hentry, htarget⟩
    exact h.found hbuilt t ht
  refine ⟨hexists, fun n => loadProxies_ne_missing (fun name hname => ?_) n⟩
  obtain ⟨entry, hentry, htarget⟩ := mem_usedExits.mp hname
  obtain ⟨t, ht, -⟩ := Setup.leadsTo_iff.mp ⟨entry, hentry, htarget⟩
  exact Exits.load_ne_missing h.sound (h.proxies hbuilt (List.ne_nil_of_mem ht))
    (hexists entry hentry name htarget)

theorem inv_fresh : Inv S fresh := by
  refine ⟨⟨nofun, fun n h => ?_, fun n h => ?_, nofun⟩, nofun, nofun, nofun⟩
  · simp [fresh, Exits.hasFile, Exits.hasWg] at h
  · simp [fresh, Exits.hasFile] at h

/-- A state with the same exits and, once a configuration was built, the same rules. -/
theorem Inv.congr (h : Inv S st) (hexits : st'.exits = st.exits)
    (hrules : st.built = true → st'.rules = st.rules) (hpolicy : st'.policyText = st.policyText) :
    Inv S st' := by
  have hbuilt : st'.built = st.built := by rw [State.built, hexits, ← State.built]
  have hwanted : st'.built = true → S.wanted st' = S.wanted st := fun hb => by
    rw [Setup.wanted, hrules (hbuilt ▸ hb), hpolicy, ← Setup.wanted]
  exact ⟨hexits ▸ h.sound, fun hb => hrules (hbuilt ▸ hb) ▸ h.rules (hbuilt ▸ hb),
    fun hb => hwanted hb ▸ hexits ▸ h.found (hbuilt ▸ hb),
    fun hb => hwanted hb ▸ hexits ▸ h.proxies (hbuilt ▸ hb)⟩

/-- More exits, the same rules and map. -/
theorem Inv.extend (h : Inv S st) {E : Exits} (hE : E.Sound) (hext : st.exits.Extends E)
    (hbuilt : E.hasFile (smart ++ yamlExt) = true → st.built = true)
    (hne : st.built = true → (∀ f ∈ st.exits.files, f.loads ≠ .nothing) →
      ∀ f ∈ E.files, f.loads ≠ .nothing) :
    Inv S { st with exits := E } :=
  ⟨hE, fun hb => h.rules (hbuilt hb),
    fun hb t ht => Exits.canonical_exists_mono hE hext (h.found (hbuilt hb) t ht),
    fun hb hw => hne (hbuilt hb) (h.proxies (hbuilt hb) hw)⟩

/-! ## What a rebuild establishes -/

/-- A candidate is what the generator made and `mihomo -t` took. -/
theorem buildCandidate_ok {E : Exits} {policy text : Text} {cfg : MihomoConfig}
    (h : S.buildCandidate E policy text = some cfg) :
    S.host.mihomoConfig E (loadPolicyMap policy) (S.defaults.effective text) = .ok cfg ∧
      S.mihomo.accepts cfg = true := by
  unfold Setup.buildCandidate at h
  split at h
  · nomatch h
  · split at h
    · next built hbuilt =>
      split at h
      · next haccepts =>
        cases h
        exact ⟨hbuilt, haccepts⟩
      · nomatch h
    · nomatch h

theorem regenSmart_eq_some {works : Bool} (h : S.regenSmart st works = some st') :
    ∃ text cfg, st.rules = some text ∧
      S.host.mihomoConfig st.exits (loadPolicyMap st.policyText) (S.defaults.effective text) =
        .ok cfg ∧ S.mihomo.accepts cfg = true ∧
      st' = { st with exits := st.exits.install smart (smartLoads cfg) } := by
  unfold Setup.regenSmart at h
  split at h
  · nomatch h
  · next text hrules =>
    split at h
    · next cfg hbuild =>
      split at h
      · cases h
        obtain ⟨hcfg, haccepts⟩ := buildCandidate_ok hbuild
        exact ⟨text, cfg, hrules, hcfg, haccepts, rfl⟩
      · nomatch h
    · nomatch h

/-- In an accepted configuration every name asked for leads to an exit that exists. -/
theorem exists_of_accepted {E : Exits} {m : PolicyMap} {text : Text} {cfg : MihomoConfig}
    (hE : E.Sound) (hcfg : S.host.mihomoConfig E m text = .ok cfg)
    (haccepts : S.mihomo.accepts cfg = true) {t : Text} (ht : t ∈ S.host.wanted m text) :
    E.exitExists (E.canonicalExitName S.host t) = true := by
  obtain ⟨hload, hrules⟩ := mihomoConfig_ok hcfg
  obtain ⟨entry, hentry, htarget⟩ := Host.leadsTo_iff.mpr ⟨t, ht, rfl⟩
  rw [Host.entries, ← hrules] at hentry
  rcases Exits.canonical_cases S.host E t with ⟨f, hf, hspells, -⟩ | ⟨hnone, hcan⟩
  · exact hE.exists_of_spells hf hspells
  · rw [hcan] at htarget ⊢
    rcases S.mihomo.known cfg haccepts entry hentry t htarget with hproxy | hreserved
    · obtain ⟨name, hname⟩ := loadProxies_mem hload hproxy
      exact hE.exists_of_loaded hname
    · obtain ⟨proxy, hproxy⟩ := loadProxies_ok hload t (mem_usedExits.mpr ⟨entry, hentry, htarget⟩)
      exact hE.exists_of_load (S.mihomo.plain t hreserved) hproxy hnone

theorem exitName_smart : ExitName smart := ⟨by decide, by decide⟩

/-- A successful rebuild restores the invariant, whatever the rules and the map were before. -/
theorem Inv.of_regenSmart {works : Bool} (hE : st.exits.Sound)
    (h : S.regenSmart st works = some st') : Inv S st' := by
  obtain ⟨text, cfg, htext, hcfg, haccepts, rfl⟩ := regenSmart_eq_some h
  have hE' : (st.exits.install smart (smartLoads cfg)).Sound :=
    hE.install exitName_smart fun _ => rfl
  have hwanted : S.wanted { st with exits := st.exits.install smart (smartLoads cfg) } =
      S.host.wanted (loadPolicyMap st.policyText) (S.defaults.effective text) := by
    simp only [Setup.wanted, htext]
    rfl
  refine ⟨hE', fun _ => by rw [htext]; rfl, fun _ t ht => ?_, fun _ hne f hf => ?_⟩
  · rw [hwanted] at ht
    exact Exits.canonical_exists_mono hE' Exits.extends_install
      (exists_of_accepted hE hcfg haccepts ht)
  · -- some rule leads to an exit, so the configuration has a proxy
    obtain ⟨t, ht⟩ := List.exists_mem_of_ne_nil _ hne
    rw [hwanted] at ht
    obtain ⟨entry, hentry, htarget⟩ := Host.leadsTo_iff.mpr ⟨t, ht, rfl⟩
    obtain ⟨hload, hrules⟩ := mihomoConfig_ok hcfg
    rw [Host.entries, ← hrules] at hentry
    have hproxies : cfg.proxies ≠ [] := loadProxies_ne_nil hload
      (List.ne_nil_of_mem (mem_usedExits.mpr ⟨entry, hentry, htarget⟩))
    rcases Exits.mem_install hf with rfl | rfl | ⟨hf, hname⟩
    · nofun
    · rw [smartLoads, if_neg hproxies]
      nofun
    · exact fun hnothing => hname (hE.empty f hf hnothing)

/-- A command that edits, rebuilds and takes back what it did where this fails. -/
theorem Inv.orRollBack {edited kept : State} {works : Bool} (hE : edited.exits.Sound)
    (hkept : Inv S kept) : Inv S ((S.regenSmart edited works).getD kept) := by
  cases h : S.regenSmart edited works with
  | some st' => exact .of_regenSmart hE h
  | none => exact hkept

end Invariant

/-! ## Every command keeps it -/

section Step

variable {S : Setup} {st : State}

theorem exitName_of_valid {name : Text} (h : S.validName name = true) :
    ExitName name ∧ name ≠ smart := by
  simp only [Setup.validName, Bool.and_eq_true, decide_eq_true_eq, Bool.or_eq_true] at h
  obtain ⟨hreserved, hname⟩ := h
  have hdot : ∀ t : Text, t.all S.nameChar = true → '.' ∉ t := fun t ht hmem => by
    have hchar := List.all_eq_true.mp ht '.' hmem
    rw [S.nameChar_dot] at hchar
    nomatch hchar
  refine ⟨?_, fun h => hreserved (by simp [h])⟩
  rcases hname with ⟨⟨hne, -⟩, hall⟩ | ⟨hlast, ⟨-, -⟩, hall⟩
  · exact ⟨hne, hdot name hall⟩
  · have hsplit := List.dropLast_append_getLast? '\n' hlast
    refine ⟨fun hnil => by simp [hnil] at hlast, fun hmem => ?_⟩
    rw [← hsplit, List.mem_append] at hmem
    exact hmem.elim (hdot _ hall) (by decide)

theorem Inv.addExit (h : Inv S st) (name : Text) (source : ExitSource) :
    Inv S (S.addExit st name source) := by
  unfold Setup.addExit
  split
  · next hvalid =>
    obtain ⟨hn, hsmart⟩ := exitName_of_valid hvalid
    have hsmartFile : name ++ yamlExt ≠ smart ++ yamlExt := fun heq =>
      hsmart (List.append_cancel_right heq)
    cases source with
    | uri loads =>
      have hloads : (if loads then Loads.proxy else .fails) ≠ .nothing := by cases loads <;> simp
      refine h.extend (h.sound.install hn fun hnothing => absurd hnothing hloads)
        Exits.extends_install (fun hb => ?_) fun _ hall f hf => ?_
      · simp only [Exits.install, Exits.hasFile_put] at hb
        rcases hb with hb | hb | hb
        · exact absurd hb.symm yaml_ne_type
        · exact absurd hb hsmartFile
        · exact hb
      · rcases Exits.mem_install hf with rfl | rfl | ⟨hf, -⟩
        · exact fun hnothing => by cases hnothing
        · exact hloads
        · exact hall f hf
    | wireguard loads singboxLoads =>
      have hsound : (st.exits.installWg ⟨name, loads, singboxLoads⟩).Sound := h.sound.installWg hn
      refine h.extend hsound Exits.extends_installWg (fun hb => ?_) fun _ hall f hf => ?_
      · simp only [Exits.installWg, Exits.hasFile_put, Exits.hasFile_putWg] at hb
        exact hb.resolve_left fun heq => yaml_ne_type heq.symm
      · rcases Exits.mem_put hf with rfl | ⟨hf, -⟩
        · exact fun hnothing => by cases hnothing
        · exact hall f hf
    | refused => exact h
  · exact h

theorem Inv.delExit (h : Inv S st) {name : Text} {works : Bool}
    (hsafe : S.SafeDeletion st (.delExit name works) = true) : Inv S (delExit st name works) := by
  unfold ProxyGateway.Smart.delExit
  split
  · next hdel =>
    obtain ⟨hname, -, rfl⟩ := hdel
    have hbuilt : ∀ hb : (st.exits.remove name).hasFile (smart ++ yamlExt) = true,
        st.built = true ∧ smart ≠ name := fun hb => (Exits.hasFile_remove (.inl rfl)).mp hb
    refine ⟨h.sound.remove name, fun hb => h.rules (hbuilt hb).1, fun hb t ht => ?_,
      fun hb hne f hf => h.proxies (hbuilt hb).1 hne f (List.mem_filter.mp hf).1⟩
    obtain ⟨hb, hsmart⟩ := hbuilt hb
    refine (Exits.canonical_exists_remove_iff h.sound (h.found hb t ht)).mpr fun hcan => ?_
    simp only [Setup.SafeDeletion, Bool.not_true, Bool.false_or, Bool.or_eq_true, hb,
      decide_eq_true_eq, List.all_eq_true, Bool.false_eq_true, or_false] at hsafe
    rcases hsafe with (hd | hno) | htwin
    · rcases List.mem_pair.mp hd with rfl | rfl
      · simp at hname
      · exact absurd rfl hsmart
    · obtain ⟨entry, hentry, htarget⟩ : ∃ entry ∈ S.entries st, entry.target = .exit name :=
        Setup.leadsTo_iff.mpr ⟨t, ht, hcan⟩
      exact absurd htarget (hno entry hentry)
    · exact htwin
  · exact h

theorem Inv.setRules (h : Inv S st) (text : Text) (works : Bool) :
    Inv S (S.setRules st text works) := by
  unfold Setup.setRules
  split
  · exact h
  · exact .orRollBack h.sound (h.congr rfl (fun _ => rfl) rfl)

theorem next_inv (h : Inv S st) {c : Command} (hsafe : S.SafeDeletion st c = true) :
    Inv S (S.next st c) := by
  cases c with
  | addExit name source => exact h.addExit name source
  | delExit name works => exact h.delExit hsafe
  | setRules text works => exact h.setRules text works
  | importRules converted works => exact h.setRules converted works
  -- the edits of the state files touch no exit, and a build that fails restores them
  | setPolicy cat target works =>
    simp only [Setup.next, Setup.setPolicy]
    split
    · exact .orRollBack h.sound h
    · exact h
  | delPolicy cat works =>
    simp only [Setup.next, Setup.delPolicy]
    split
    · exact h
    · split
      · exact .orRollBack h.sound h
      · exact h
  | renamePolicy old new works =>
    simp only [Setup.next, Setup.renamePolicy]
    split
    · exact .orRollBack h.sound h
    · exact h
  | proxyDomain domain target works =>
    simp only [Setup.next, Setup.proxyDomain]
    split
    · refine .orRollBack h.sound (h.congr rfl (fun hb => ?_) rfl)
      obtain ⟨text, htext⟩ := Option.isSome_iff_exists.mp (h.rules hb)
      simp [htext]
    · exact h
  | relist files =>
    simp only [Setup.next]
    split
    · next hperm =>
      obtain ⟨hext, hsound⟩ := h.sound.relist (List.isPerm_iff.mp hperm)
      have hmem := fun f => (List.isPerm_iff.mp hperm).mem_iff (a := f)
      -- a listing in another order has the same files
      refine h.extend hsound hext (fun hb => ?_) fun _ hall f hf => hall f ((hmem f).mp hf)
      obtain ⟨f, hf, hname⟩ := Exits.hasFile_iff.mp hb
      exact Exits.hasFile_iff.mpr ⟨f, (hmem f).mp hf, hname⟩
    · exact h

theorem inv_of_safeDeletions
    (h : Reaches S.step (fun s c => S.SafeDeletion s c = true) fresh st) : Inv S st :=
  h.invariant inv_fresh fun _ _ _ hinv hsafe hstep => by
    cases hstep
    exact next_inv hinv hsafe

/-- **`integrity_of_safeDeletions`** — after every run of commands whose deletions are safe, no rule
leads to an exit that is gone. -/
theorem integrity_of_safeDeletions
    (h : Reaches S.step (fun s c => S.SafeDeletion s c = true) fresh st) : S.Integrity st :=
  (inv_of_safeDeletions h).integrity

/-- **`unsafeDeletion_breaks`** — the first deletion that is not safe leaves a rule without its exit. -/
theorem unsafeDeletion_breaks
    (h : Reaches S.step (fun s c => S.SafeDeletion s c = true) fresh st) {d : Text} {works : Bool}
    (hloose : S.SafeDeletion st (.delExit d works) = false) :
    ¬ S.Integrity (S.next st (.delExit d works)) := by
  have hinv := inv_of_safeDeletions h
  simp only [Setup.SafeDeletion, Bool.or_eq_false_iff, Bool.not_eq_false', decide_eq_false_iff_not,
    List.all_eq_false] at hloose
  obtain ⟨⟨⟨⟨rfl, hd⟩, hbuilt⟩, entry, hentry, htarget⟩, htwin⟩ := hloose
  replace htarget : entry.target = .exit d := by simpa using htarget
  obtain ⟨t, ht, hcan⟩ := Setup.leadsTo_iff.mp ⟨entry, hentry, htarget⟩
  have hfound := hinv.found hbuilt t ht
  have hexists : st.exits.exitExists d = true := hcan ▸ hfound
  have hdel : S.next st (.delExit d true) = { st with exits := st.exits.remove d } := by
    have hne : d ≠ [] := (hinv.sound.exitName hexists).1
    have hlocal : d ≠ lit "local" := fun h => hd (by simp [h])
    simp only [Setup.next, ProxyGateway.Smart.delExit]
    rw [if_pos ⟨by simp [hne, hlocal], hexists, trivial⟩]
  rw [hdel]
  intro hintegrity
  have hstays : (st.exits.remove d).hasFile (smart ++ yamlExt) = true :=
    (Exits.hasFile_remove (.inl rfl)).mpr ⟨hbuilt, fun h => hd (by simp [h])⟩
  obtain ⟨hall, -⟩ := hintegrity (hinv.rules hbuilt) hstays
  have ht' : t ∈ S.wanted { st with exits := st.exits.remove d } := ht
  obtain ⟨entry', hentry', htarget'⟩ := Setup.leadsTo_iff.mpr ⟨t, ht', rfl⟩
  exact htwin ((Exits.canonical_exists_remove_iff hinv.sound hfound).mp
    (hall entry' hentry' _ htarget') hcan)

end Step

/-! ## Two exits and one rule -/

/-- Names that mihomo knows by itself, and the group of the configuration. -/
def reservedNames : List Text :=
  [lit "DIRECT", lit "REJECT", lit "REJECT-DROP", lit "COMPATIBLE", lit "PASS", lit "GLOBAL",
    lit "proxy"]

def knows (cfg : MihomoConfig) : Target → Bool
  | .exit n => n ∈ cfg.proxies || n ∈ reservedNames
  | _ => true

theorem plainCase_plainHost (t : Text) : plainHost.PlainCase t := by
  intro n e he ext hext h
  have hlower : ∀ e ∈ [yamlExt, typeExt], e.map Char.toLower = e := by decide
  have hlen : e.length = ext.length := by
    have he5 : e.length = 5 := length_ext (by grind)
    have hext5 : ext.length = 5 := length_ext (by grind)
    rw [he5, hext5]
  have hmap : (n ++ e).map Char.toLower = t.map Char.toLower ++ ext := h
  rw [List.map_append, hlower e he] at hmap
  exact (List.append_inj' hmap hlen).1

def plainSetup : Setup where
  host := plainHost
  shell := plainShell
  defaults := noDefaults
  mihomo :=
    { accepts := fun cfg => cfg.rules.all fun entry => knows cfg entry.target
      reserved := reservedNames
      known := fun cfg h entry hentry n htarget => by
        have hknows := List.all_eq_true.mp h entry hentry
        rw [htarget] at hknows
        simpa [knows] using hknows
      plain := fun t _ => plainCase_plainHost t }
  nameChar := fun c => c.isAlphanum || c == '_' || c == '-'
  nameChar_dot := by decide
  awkVar := id

/-- Deleting an exit that no rule leads to. -/
theorem integrity_unusedExit :
    ∃ st, runIf plainSetup.step plainSetup.SafeDeletion fresh
        [.addExit (lit "us") (.uri true), .setRules (lit "FINAL,us\n") true,
          .addExit (lit "hk") (.uri true), .delExit (lit "hk") true] = some st ∧
      st.built = true ∧ plainSetup.entries st = [⟨none, .exit (lit "us")⟩] ∧
      plainSetup.Integrity st := by
  have hmap : (runIf plainSetup.step plainSetup.SafeDeletion fresh
      [.addExit (lit "us") (.uri true), .setRules (lit "FINAL,us\n") true,
        .addExit (lit "hk") (.uri true), .delExit (lit "hk") true]).map
        (fun st => (st.built, plainSetup.entries st)) =
      some (true, [⟨none, .exit (lit "us")⟩]) := by decide +kernel
  obtain ⟨st, hrun, hst⟩ := Option.map_eq_some_iff.mp hmap
  obtain ⟨hbuilt, hentries⟩ := Prod.mk.inj hst
  exact ⟨st, hrun, hbuilt, hentries, integrity_of_safeDeletions (Reaches.init.of_runIf hrun)⟩

/-- `del_exit` removes the one exit that the rules lead to, and the router cannot be rebuilt. -/
theorem delExit_breaks_integrity :
    ∃ st, Reaches plainSetup.step Always fresh st ∧ st.rules = some (lit "FINAL,us\n") ∧
      st.built = true ∧ plainSetup.entries st = [⟨none, .exit (lit "us")⟩] ∧
      st.exits.exitExists (lit "us") = false ∧
      plainHost.loadProxies st.exits (usedExits (plainSetup.entries st)) =
        .error (missingExit (lit "us")) ∧
      ¬ plainSetup.Integrity st := by
  have hmap : (run plainSetup.step fresh
      [.addExit (lit "us") (.uri true), .setRules (lit "FINAL,us\n") true,
        .delExit (lit "us") true]).map
        (fun st => (st.rules, st.built, plainSetup.entries st, st.exits)) =
      some (some (lit "FINAL,us\n"), true, [⟨none, .exit (lit "us")⟩],
        ⟨[⟨smart ++ yamlExt, .proxy, false⟩, ⟨smart ++ typeExt, .fails, false⟩], []⟩) := by
    decide +kernel
  obtain ⟨st, hrun, hst⟩ := Option.map_eq_some_iff.mp hmap
  simp only [Prod.mk.injEq] at hst
  obtain ⟨hrules, hbuilt, hentries, hexits⟩ := hst
  have hgone : st.exits.exitExists (lit "us") = false := by
    rw [hexits]
    decide +kernel
  have hload : plainHost.loadProxies st.exits (usedExits (plainSetup.entries st)) =
      .error (missingExit (lit "us")) := by
    rw [hexits, hentries]
    rfl
  refine ⟨st, Reaches.init.of_run hrun, hrules, hbuilt, hentries, hgone, hload, fun hintegrity => ?_⟩
  obtain ⟨-, hmissing⟩ := hintegrity (by rw [hrules]; rfl) hbuilt
  exact hmissing (lit "us") hload

end ProxyGateway.Smart
