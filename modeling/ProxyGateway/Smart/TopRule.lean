/-
# ProxyGateway.Smart.TopRule — what a request for a proxied domain meets first

`proxy_domain` puts its rule on top of `rules.conf` and reports the target that it was given.  Two
layers come in between.  The built-in rules precede `rules.conf` in every configuration, so the rule
is on top of the rules behind them only; and its target goes through `resolve_target` like any
other, where the policy map comes before the exits.

`proxyDomain_firstMatch` is what holds of every request for the domain: the first built-in rule that
it meets decides, or else the added rule, whose target is the one given unless the name is read as
something else.
-/
import ProxyGateway.Smart.AddRule
import ProxyGateway.Smart.Names

namespace ProxyGateway.Smart

open ProxyGateway.Lang ProxyGateway.Logic

/-! ## Requests -/

/-- **`RuleEngine`** — how mihomo tries rules on requests.  A `DOMAIN-SUFFIX` rule is for its domain and
the names below it; nothing is assumed of the other conditions. -/
structure RuleEngine where
  Request : Type
  host : Request → Text
  meets : Cond → Request → Bool
  domainSuffix : ∀ domain req, meets (.plain .domainSuffix domain) req = true ↔
    host req = domain ∨ '.' :: domain <:+ host req

namespace RuleEngine

variable (M : RuleEngine)

/-- A request for the domain or for a subdomain. -/
def Below (domain : Text) (req : M.Request) : Prop :=
  M.host req = domain ∨ '.' :: domain <:+ M.host req

/-- The first rule that a request meets. -/
def firstRule (req : M.Request) (rules : List (Entry Cond Target)) : Option (Entry Cond Target) :=
  rules.find? fun entry => entry.fires (M.meets · req)

/-- A request meets the rules of two lists one after the other. -/
theorem firstRule_append_cons {domain : Text} {req : M.Request} (h : M.Below domain req)
    {new : Entry Cond Target} (hnew : new.cond = some (.plain .domainSuffix domain))
    (front rest : List (Entry Cond Target)) :
    M.firstRule req (front ++ new :: rest) = (M.firstRule req front).or (some new) := by
  have hfires : new.fires (M.meets · req) = true := by
    unfold Entry.fires
    rw [hnew]
    exact (M.domainSuffix domain req).mpr h
  unfold firstRule
  rw [List.find?_append, List.find?_cons_of_pos hfires]

end RuleEngine

/-! ## The line of the added rule -/

def domainSuffixType : Text := lit "DOMAIN-SUFFIX"

/-- `str.upper` and `str.lower` keep words that are in their case. -/
structure Host.KeepsCase (H : Host) : Prop where
  upper : H.upper domainSuffixType = domainSuffixType
  lower : ∀ t ∈ [lit "direct", lit "block"], H.lower t = t

/-- A domain that passes the check is read back from any rule. -/
theorem plain_of_validDomain {domain : Text} (h : validDomain domain = true) :
    PlainField domain ∧ PlainValue domain := by
  have hchar : ∀ c ∈ domain, 'a' ≤ c ∧ c ≤ 'z' ∨ c.isDigit = true ∨ c = '.' ∨ c = '-' := by
    intro c hc
    simpa using List.all_eq_true.mp (Bool.and_eq_true_iff.mp h).1 c hc
  have hnot : ∀ c : Char, ¬ ('a' ≤ c ∧ c ≤ 'z' ∨ c.isDigit = true ∨ c = '.' ∨ c = '-') → c ∉ domain :=
    fun c hno hc => hno (hchar c hc)
  refine ⟨⟨hnot '#' (by decide), hnot ';' (by decide), hnot ',' (by decide)⟩,
    ⟨hnot '\n' (by decide), hnot '\r' (by decide)⟩, strip_of_noSpace ?_⟩
  intro c hc
  have hrange : 45 ≤ c.toNat ∧ c.toNat ≤ 122 := by
    rcases hchar c hc with ⟨hlow, hhigh⟩ | hdigit | rfl | rfl
    · rw [Char.le_def, UInt32.le_iff_toNat_le] at hlow hhigh
      exact ⟨le_trans (by decide) hlow, hhigh⟩
    · rw [Char.isDigit, Bool.and_eq_true_iff, decide_eq_true_iff, decide_eq_true_iff,
        ge_iff_le, UInt32.le_iff_toNat_le, UInt32.le_iff_toNat_le] at hdigit
      exact ⟨le_trans (by decide) hdigit.1, le_trans hdigit.2 (by decide)⟩
    · decide
    · decide
  simp only [isSpace, Bool.or_eq_false_iff, Bool.and_eq_false_iff, decide_eq_false_iff_not,
    beq_eq_false_iff_ne]
  omega

section Line

variable {H : Host} {E : Exits} {m : PolicyMap}

/-- **`KeepsExit`** — the name of an exit that a rule leads to as it is written: it is read back, it
is no word for direct or block and no key of the policy map, and no other spelling of it is listed
first. -/
structure Host.KeepsExit (H : Host) (E : Exits) (m : PolicyMap) (t : Text) : Prop extends
    PlainValue t where
  field : PlainField t
  noWord : H.builtin t = none
  noPolicy : m.get t = none
  unshadowed : ∀ f, E.files.find? (H.spells · t) = some f → (splitext f.name).1 = t

/-- What `proxy_domain` reports. -/
def reported (target : Text) : Target :=
  if target = lit "direct" then .direct
  else if target = lit "block" then .reject
  else .exit target

/-- A target that a rule keeps. -/
def Host.KeepsTarget (H : Host) (E : Exits) (m : PolicyMap) (target : Text) : Prop :=
  target ∈ [lit "direct", lit "block"] ∨ H.KeepsExit E m target

theorem resolveTarget_reported (hcase : H.KeepsCase) {target : Text}
    (h : H.KeepsTarget E m target) : H.resolveTarget E m target = reported target := by
  rcases h with hword | hexit
  · have hstrip : ∀ t ∈ [lit "direct", lit "block"], strip t = t := by decide
    unfold Host.resolveTarget Host.builtin
    simp only [hstrip target hword, hcase.lower target hword]
    simp only [List.mem_cons, List.not_mem_nil, or_false] at hword
    rcases hword with rfl | rfl <;> rfl
  · have hnoWord := hexit.noWord
    have hdirect : target ≠ lit "direct" := by
      rintro rfl
      rw [Host.builtin, hcase.lower _ (by simp)] at hnoWord
      exact absurd hnoWord (by decide)
    have hblock : target ≠ lit "block" := by
      rintro rfl
      rw [Host.builtin, hcase.lower _ (by simp)] at hnoWord
      exact absurd hnoWord (by decide)
    rw [reported, if_neg hdirect, if_neg hblock, resolveTarget_eq_exit_iff]
    refine ⟨target, ?_, canonical_of_unshadowed hexit.unshadowed⟩
    unfold Host.wants
    simp only [hexit.stripped, hexit.noWord, hexit.noPolicy]

theorem plain_domainSuffixType : PlainField domainSuffixType ∧ PlainValue domainSuffixType :=
  ⟨by decide, by unfold SingleLine; decide, by decide⟩

/-- What the generator makes of a line that starts with `DOMAIN-SUFFIX` and a domain. -/
theorem domainSuffix_entry (hcase : H.KeepsCase) {raw domain policy : Text} {rest : List Text}
    (hfields : fields (ruleText raw) = domainSuffixType :: domain :: policy :: rest) :
    H.entry? E m raw = some ⟨some (.plain .domainSuffix domain), H.resolveTarget E m policy⟩ := by
  have htype : H.ruleType domainSuffixType = domainSuffixType := by
    rw [Host.ruleType, hcase.upper]
    decide
  have hcond : H.cond? domainSuffixType domain = some (.plain .domainSuffix domain) := by
    have hkind : mihomoType domainSuffixType = some (.plain .domainSuffix) := by decide
    unfold Host.cond?
    rw [htype, hkind]
  have hfinal : H.ruleType domainSuffixType ≠ lit "FINAL" := by
    rw [htype]
    decide
  unfold Host.entry?
  rw [Host.parseLine_eq_rule_iff.mpr ⟨hfinal, rest, hfields⟩]
  show (H.cond? domainSuffixType domain).map _ = _
  rw [hcond]
  rfl

theorem domainRule_eq (domain target : Text) :
    domainRule domain target = domainSuffixType ++ ',' :: (domain ++ ',' :: target) := by
  show lit "DOMAIN-SUFFIX," ++ domain ++ ',' :: target = _
  rw [List.append_assoc]
  rfl

/-- The target is the end of the rule. -/
theorem domainRule_append (domain target : Text) :
    domainRule domain target = domainRule domain [] ++ target := by
  rw [domainRule_eq, domainRule_eq, List.append_assoc, List.cons_append, List.append_assoc,
    List.cons_append, List.nil_append]

theorem singleLine_domainRule {domain target : Text} (hdomain : SingleLine domain)
    (htarget : SingleLine target) : SingleLine (domainRule domain target) := by
  rw [domainRule_eq]
  exact singleLine_append plain_domainSuffixType.2.line
    (singleLine_append hdomain htarget (by decide) (by decide)) (by decide) (by decide)

/-- The first line of the new `rules.conf` has an entry for the domain, which leads to the target if
the target is kept. -/
theorem domainRule_entry (hcase : H.KeepsCase) {domain : Text} (hdomain : validDomain domain = true)
    (target b : Text) :
    ∃ new rest, (pyLines (domainRule domain target ++ '\n' :: b)).filterMap (H.entry? E m) =
        new :: rest ∧
      new.cond = some (.plain .domainSuffix domain) ∧
      (H.KeepsTarget E m target → new.target = reported target) := by
  obtain ⟨hfield, hplain⟩ := plain_of_validDomain hdomain
  obtain ⟨htype, hname⟩ := plain_domainSuffixType
  -- whatever ends the line is no part of its first two fields
  obtain ⟨first, lines, hlines⟩ := pyLines_append_head (target ++ '\n' :: b)
  have hfirst : pyLines (domainRule domain target ++ '\n' :: b) = domainRule domain first :: lines := by
    rw [domainRule_append domain target, domainRule_append domain first, List.append_assoc]
    exact hlines _ (singleLine_domainRule hplain.line ⟨List.not_mem_nil, List.not_mem_nil⟩)
  obtain ⟨policy, rest, hfields⟩ := fields_of_plain_head htype hfield hname.stripped hplain.stripped
    first
  rw [← domainRule_eq] at hfields
  refine ⟨_, _, by rw [hfirst, List.filterMap_cons_some (domainSuffix_entry hcase hfields)], rfl, ?_⟩
  intro hkeeps
  have htarget : PlainField target ∧ PlainValue target := by
    rcases hkeeps with hword | hexit
    · have hplainWord : ∀ t ∈ [lit "direct", lit "block"],
          PlainField t ∧ ('\n' ∉ t ∧ '\r' ∉ t) ∧ strip t = t := by decide
      obtain ⟨hword, hline, hstrip⟩ := hplainWord target hword
      exact ⟨hword, hline, hstrip⟩
    · exact ⟨hexit.field, hexit.toPlainValue⟩
  have hsame : domainRule domain target = domainRule domain first := by
    rw [pyLines_cons (singleLine_domainRule hplain.line htarget.2.line)] at hfirst
    exact (List.cons.inj hfirst).1
  rw [← hsame, domainRule_eq, fields_of_plain htype hfield htarget.1 hname.stripped hplain.stripped
    htarget.2.stripped] at hfields
  obtain ⟨rfl, -⟩ : target = policy ∧ rest = [] := by simpa using hfields
  exact resolveTarget_reported hcase hkeeps

end Line

/-! ## The new configuration -/

section ProxyDomain

variable (S : Setup) (st : State) (domain target : Text) (works : Bool)

/-- The configuration that a successful `proxy_domain` leaves behind. -/
def Setup.proxyDomainConfig : Option MihomoConfig :=
  if domain ≠ [] ∧ target ≠ [] ∧ validDomain domain ∧ st.isTarget target ∧ works then
    S.buildCandidate st.exits st.policyText (proxyDomainText domain target (st.rules.getD []))
  else none

/-- The built-in rules of that configuration. -/
def Setup.defaultEntries : List (Entry Cond Target) :=
  S.host.entries (loadPolicyMap st.policyText) st.exits S.defaults.text

variable {S st domain target works} {cfg : MihomoConfig}

/-- `proxy_domain` installs the new rules and the new configuration, or leaves all but the touched
rules. -/
theorem proxyDomain_eq :
    S.proxyDomain st domain target works =
      match S.proxyDomainConfig st domain target works with
      | some cfg =>
        { st with
          rules := some (proxyDomainText domain target (st.rules.getD []))
          exits := st.exits.install smart (smartLoads cfg) }
      | none =>
        if domain ≠ [] ∧ target ≠ [] ∧ validDomain domain ∧ st.isTarget target then
          { st with rules := some (st.rules.getD []) }
        else st := by
  unfold Setup.proxyDomain Setup.proxyDomainConfig
  by_cases hguards : domain ≠ [] ∧ target ≠ [] ∧ validDomain domain ∧ st.isTarget target
  · simp only [if_pos hguards, Setup.regenSmart]
    obtain ⟨hdomain, htarget, hvalid, hknown⟩ := hguards
    simp only [State.policyText]
    cases S.buildCandidate st.exits (st.policy.getD [])
        (proxyDomainText domain target (st.rules.getD [])) with
    | none => simp
    | some cfg => cases works <;> simp [hdomain, htarget, hvalid, hknown]
  · rw [if_neg hguards, if_neg fun hall => hguards ⟨hall.1, hall.2.1, hall.2.2.1, hall.2.2.2.1⟩]
    exact (if_neg hguards).symm

/-- The rules of the configuration: the built-in ones, then those of the candidate. -/
theorem buildCandidate_rules {E : Exits} {policy text : Text}
    (h : S.buildCandidate E policy text = some cfg) :
    cfg.rules = S.host.entries (loadPolicyMap policy) E S.defaults.text ++
      S.host.entries (loadPolicyMap policy) E text := by
  rw [mihomoConfig_rules (buildCandidate_ok h).1, DefaultRules.effective,
    filterMap_pyLines_terminated (entry?_nil S.host E (loadPolicyMap policy)) S.defaults.terminated]
  rfl

/-- The added rule stands on the first line of the candidate. -/
theorem exists_proxyDomainText (domain target file : Text) :
    ∃ b, proxyDomainText domain target file = domainRule domain target ++ '\n' :: b := by
  unfold proxyDomainText
  rw [List.flatMap_cons, List.append_assoc]
  exact ⟨_, rfl⟩

end ProxyDomain

/-! ## Rules that do not lead where they say -/

theorem plainHost_keepsCase : plainHost.KeepsCase where
  upper := by decide
  lower := by decide

/-- Requests that are host names, which meet domain rules only. -/
def hostEngine : RuleEngine where
  Request := Text
  host := id
  meets
    | .plain .domainSuffix domain, host => host = domain || decide ('.' :: domain <:+ host)
    | .plain .domain domain, host => host = domain
    | _, _ => false
  domainSuffix domain host := by simp

/-- The rules of `x.com` before the rules of `rules.conf`. -/
def directFirst : Setup :=
  { plainSetup with defaults := ⟨lit "DOMAIN-SUFFIX,x.com,direct\n",
    .inr ⟨lit "DOMAIN-SUFFIX,x.com,direct", by decide⟩⟩ }

theorem us_keepsExit : plainHost.KeepsExit usExit [] (lit "us") where
  line := by
    unfold SingleLine
    decide
  stripped := by decide
  field := by decide
  noWord := by decide
  noPolicy := rfl
  unshadowed f h := by
    have hfind : usExit.files.find? (plainHost.spells · (lit "us")) =
      some ⟨lit "us.yaml", .proxy, false⟩ := by rfl
    rw [hfind] at h
    cases h
    decide

/-- **`Delivers`** — after a successful `proxy_domain` every request for the domain meets first a
rule that leads to the target. -/
def Delivers (S : Setup) (M : RuleEngine) (st : State) (domain target : Text) : Prop :=
  ∀ works cfg, S.proxyDomainConfig st domain target works = some cfg →
    ∀ req, M.Below domain req →
      ∃ entry, M.firstRule req cfg.rules = some entry ∧ entry.target = reported target

theorem not_delivers {S : Setup} {M : RuleEngine} {st : State} {domain target : Text}
    {cfg : MihomoConfig} {req : M.Request} {entry : Entry Cond Target}
    (hconfig : S.proxyDomainConfig st domain target true = some cfg) (hreq : M.Below domain req)
    (hfirst : M.firstRule req cfg.rules = some entry) (hne : entry.target ≠ reported target) :
    ¬ Delivers S M st domain target := by
  intro h
  obtain ⟨entry', hfirst', htarget⟩ := h true cfg hconfig req hreq
  rw [hfirst] at hfirst'
  exact hne (Option.some.inj hfirst' ▸ htarget)

/-- The policy map sends `us` elsewhere. -/
def usDirect : State := ⟨usExit, none, some (lit "us=direct\n")⟩

/-- `hk.yaml` is listed before the files of `HK`. -/
def hkFirst : State := ⟨⟨[yamlFile (lit "hk"), yamlFile (lit "HK"), ⟨lit "HK.type", .fails, false⟩], []⟩,
  none, none⟩

/-- The WireGuard exit `us#2` next to `us`. -/
def cutName : State := ⟨{ usExit with wireguard := [⟨lit "us#2", true, true⟩] }, none, none⟩

/-- The WireGuard exit `dir`. -/
def wordName : State := ⟨⟨[], [⟨lit "dir", true, true⟩]⟩, none, none⟩

end ProxyGateway.Smart
