/-
# ProxyGateway.Smart.Singbox — `singbox-router-config.py`

The older generator reads the same rule lists.  It differs in three places.  A policy without an
entry in the map is an exit only if a sing-box or WireGuard configuration of exactly that name
exists, and the default target otherwise (`ensure_policy`).  `FINAL` stands outside the list, and the
last one counts.  And a `GEOSITE` or `GEOIP` rule tests a rule set by its tag, where the first rule
set of a tag stays.

`routeLines_ok` is the specification of the main loop on a file without `RULE-SET` lines.
-/
import ProxyGateway.Smart.Mihomo

namespace ProxyGateway.Smart

open ProxyGateway.Lang ProxyGateway.Logic

/-! ## Resolving a policy -/

section Resolve

variable (H : Host) (E : Exits) (m : PolicyMap)

/-- **`build_exit_outbound`**, without the outbound. -/
def Exits.buildExitOutbound (name : Text) : Except Failure Unit :=
  match E.files.find? (·.name = name ++ lit ".json") with
  | some f =>
    if f.singboxLoads then .ok ()
    else .error (.die (lit "cannot read exit '" ++ name ++ lit "' config"))
  | none =>
    match E.wireguard.find? (·.name = name) with
    | some wg => if wg.singboxLoads then .ok () else .error .raised
    | none => .error (.die (lit "rule references unknown exit: '" ++ name ++ lit "' (add it first)"))

/-- What a concrete target names. -/
def Host.concrete (t : Text) : Target := (H.builtin (strip t)).getD (.exit (strip t))

/-- **`_materialize_target`**.  An exit that has its outbound already is not built again, which
could only succeed again. -/
def Host.materializeTarget (t : Text) : Except Failure Target :=
  match H.concrete t with
  | .exit name =>
    match E.buildExitOutbound name with
    | .ok _ => .ok (.exit name)
    | .error e => .error e
  | target => .ok target

/-- A configuration for sing-box exists under exactly this name. -/
def Exits.hasOutbound (name : Text) : Bool := E.hasFile (name ++ lit ".json") || E.hasWg name

/-- **`ensure_policy`** -/
def Host.ensurePolicy (policy : Text) : Except Failure Target :=
  let p := strip policy
  match H.builtin p with
  | some target => .ok target
  | none =>
    match m.get p with
    | some v => H.materializeTarget E v
    | none => H.materializeTarget E (if E.hasOutbound p then p else H.defaultTarget)

/-- The target that `ensure_policy` finds where it finds one. -/
def Host.ensuredTarget (policy : Text) : Target :=
  let p := strip policy
  match H.builtin p with
  | some target => target
  | none =>
    match m.get p with
    | some v => H.concrete v
    | none => H.concrete (if E.hasOutbound p then p else H.defaultTarget)

variable {H E m}

theorem materializeTarget_ok {t : Text} {target : Target}
    (h : H.materializeTarget E t = .ok target) : target = H.concrete t := by
  unfold Host.materializeTarget at h
  split at h
  · next name hname =>
    split at h
    · cases h
      exact hname.symm
    · cases h
  · cases h
    rfl

theorem ensurePolicy_ok {policy : Text} {target : Target}
    (h : H.ensurePolicy E m policy = .ok target) : target = H.ensuredTarget E m policy := by
  unfold Host.ensurePolicy at h
  unfold Host.ensuredTarget
  cases hb : H.builtin (strip policy) with
  | some b =>
    simp only [hb] at h ⊢
    cases h
    rfl
  | none =>
    cases hv : m.get (strip policy) with
    | some v =>
      simp only [hb, hv] at h ⊢
      exact materializeTarget_ok h
    | none =>
      simp only [hb, hv] at h ⊢
      exact materializeTarget_ok h

end Resolve

/-! ## The main loop -/

def singboxType : Text → Option RuleType := ruleTypeOf [lit "RULE-SET", lit "RULESET"]

/-- Where the contents of a rule set come from. -/
inductive Source where
  | geo (kind : Kind) (name : Text)
  | remote (url : Text)
  | file (path : Text)
  deriving DecidableEq, Repr

/-- `re.sub(r"[^a-z0-9]", "", name)` -/
def tagChars (name : Text) : Text := name.filter fun c => c.isLower || c.isDigit

/-- The tag of a `GEOSITE` or `GEOIP` rule set; `name` is lower case. -/
def geoTag (kind : Kind) (name : Text) : Option Text :=
  match kind with
  | .geosite => some (lit "geosite_" ++ tagChars name)
  | .geoip => some (lit "geoip_" ++ tagChars name)
  | _ => none

/-- What the loop has collected: the exits that have an outbound, the rule sets by tag, the rules of
the route, and `final`. -/
structure SingboxConfig where
  outbounds : List Text
  ruleSets : List (Text × Source)
  routes : List (Entry Cond Target)
  final : Target

/-- `add_remote_srs`, and the like for local files: the first rule set of a tag stays. -/
def addRuleSet (tag : Text) (source : Source) (sets : List (Text × Source)) :
    List (Text × Source) :=
  if (sets.lookup tag).isSome then sets else sets ++ [(tag, source)]

/-- The outbound that `_materialize_target` appends. -/
def addOutbound (target : Target) (outbounds : List Text) : List Text :=
  match target with
  | .exit name => if name ∈ outbounds then outbounds else outbounds ++ [name]
  | _ => outbounds

section Route

variable (H : Host) (E : Exits) (m : PolicyMap)

/-- **`handle_ruleset`** -/
def Host.handleRuleset (src : Text) (target : Target) (cfg : SingboxConfig) :
    Except Failure SingboxConfig :=
  let tag := H.ruleSetTag src
  let route : Entry Cond Target := ⟨some (.ruleSet tag), target⟩
  if (lit "http").isPrefixOf src && (lit ".srs").isSuffixOf (H.lower src) then
    .ok { cfg with
      ruleSets := addRuleSet tag (.remote src) cfg.ruleSets
      routes := cfg.routes ++ [route] }
  else if (cfg.ruleSets.lookup tag).isSome then .ok { cfg with routes := cfg.routes ++ [route] }
  else match H.localRuleSet src with
    | .error e => .error e
    | .ok none => .ok cfg
    | .ok (some path) =>
      .ok { cfg with
        ruleSets := addRuleSet tag (.file path) cfg.ruleSets
        routes := cfg.routes ++ [route] }

/-- A rule that is no `RULE-SET`. -/
def Host.addRoute (kind : Kind) (value : Text) (target : Target) (cfg : SingboxConfig) :
    SingboxConfig :=
  match geoTag kind (H.lower value) with
  | some tag =>
    { cfg with
      ruleSets := addRuleSet tag (.geo kind (H.lower value)) cfg.ruleSets
      routes := cfg.routes ++ [⟨some (.ruleSet tag), target⟩] }
  | none => { cfg with routes := cfg.routes ++ [⟨some (.plain kind value), target⟩] }

/-- One turn of the main loop. -/
def Host.routeLine (ln : Nat) (raw : Text) (cfg : SingboxConfig) : Except Failure SingboxConfig :=
  match H.parseLine raw with
  | .blank => .ok cfg
  | .final none => .error (.die (lit "line " ++ decimal ln ++ lit ": FINAL needs a policy"))
  | .final (some policy) =>
    match H.ensurePolicy E m policy with
    | .error e => .error e
    | .ok target =>
      .ok { cfg with final := target, outbounds := addOutbound target cfg.outbounds }
  | .short line => .error (needsFields ln line)
  | .rule head value policy =>
    match H.ensurePolicy E m policy with
    | .error e => .error e
    | .ok target =>
      let cfg := { cfg with outbounds := addOutbound target cfg.outbounds }
      match singboxType (H.ruleType head) with
      | some (.plain kind) => .ok (H.addRoute kind value target cfg)
      | some .ruleSet => H.handleRuleset value target cfg
      | none => .error (unsupportedType ln head)

/-- The main loop, from line `ln` on. -/
def Host.routeLines : Nat → List Text → SingboxConfig → Except Failure SingboxConfig
  | _, [], cfg => .ok cfg
  | ln, raw :: lines, cfg =>
    match H.routeLine E m ln raw cfg with
    | .error e => .error e
    | .ok cfg => Host.routeLines (ln + 1) lines cfg

/-- **`singbox-router-config.py`** on the text of a rules file. -/
def Host.singboxConfig (text : Text) : Except Failure SingboxConfig :=
  H.routeLines E m 1 (pyLines text) ⟨[], [], [], .direct⟩

/-! ## What an accepted file turns into -/

/-- A `RULE-SET` line. -/
def Host.isRuleSet (raw : Text) : Bool :=
  match H.parseLine raw with
  | .rule head _ _ => singboxType (H.ruleType head) = some .ruleSet
  | _ => false

/-- The kind and the value of a rule line that is no `RULE-SET`, and its policy. -/
def Host.plainRule (raw : Text) : Option (Kind × Text × Text) :=
  match H.parseLine raw with
  | .rule head value policy =>
    match singboxType (H.ruleType head) with
    | some (.plain kind) => some (kind, value, policy)
    | _ => none
  | _ => none

/-- The policy of a `FINAL` line. -/
def Host.finalPolicy (raw : Text) : Option Text :=
  match H.parseLine raw with
  | .final policy => policy
  | _ => none

/-- `final` after the lines: the last one counts. -/
def Host.lastFinal (lines : List Text) (d : Target) : Target :=
  match (lines.filterMap H.finalPolicy).getLast? with
  | some policy => H.ensuredTarget E m policy
  | none => d

/-- The rules of the lines added to a configuration. -/
def Host.addRoutes (rules : List (Kind × Text × Text)) (cfg : SingboxConfig) : SingboxConfig :=
  rules.foldl (fun cfg r => H.addRoute r.1 r.2.1 (H.ensuredTarget E m r.2.2) cfg) cfg

/-- Two configurations that route alike. -/
structure SameRoutes (c c' : SingboxConfig) : Prop where
  ruleSets_eq : c.ruleSets = c'.ruleSets
  routes_eq : c.routes = c'.routes

variable {H E m}

theorem SameRoutes.trans {c c' c'' : SingboxConfig} (h : SameRoutes c c') (h' : SameRoutes c' c'') :
    SameRoutes c c'' :=
  ⟨h.ruleSets_eq.trans h'.ruleSets_eq, h.routes_eq.trans h'.routes_eq⟩

theorem SameRoutes.addRoute {c c' : SingboxConfig} (h : SameRoutes c c') (kind : Kind)
    (value : Text) (target : Target) :
    SameRoutes (H.addRoute kind value target c) (H.addRoute kind value target c') := by
  unfold Host.addRoute
  split
  · exact ⟨by rw [h.ruleSets_eq], by rw [h.routes_eq]⟩
  · exact ⟨h.ruleSets_eq, by rw [h.routes_eq]⟩

theorem SameRoutes.addRoutes {c c' : SingboxConfig} (h : SameRoutes c c')
    (rules : List (Kind × Text × Text)) :
    SameRoutes (H.addRoutes E m rules c) (H.addRoutes E m rules c') := by
  induction rules generalizing c c' with
  | nil => exact h
  | cons r rules ih => exact ih (h.addRoute ..)

/-- What one accepted line does: it is blank, a `FINAL` or a plain rule. -/
theorem routeLine_cases {ln : Nat} {raw : Text} {cfg cfg' : SingboxConfig}
    (hset : H.isRuleSet raw = false) (h : H.routeLine E m ln raw cfg = .ok cfg') :
    (H.parseLine raw = .blank ∧ cfg' = cfg) ∨
      (∃ policy, H.parseLine raw = .final (some policy) ∧ SameRoutes cfg' cfg ∧
        cfg'.final = H.ensuredTarget E m policy) ∨
      ∃ head value policy kind, H.parseLine raw = .rule head value policy ∧
        singboxType (H.ruleType head) = some (.plain kind) ∧ cfg'.final = cfg.final ∧
        SameRoutes cfg' (H.addRoute kind value (H.ensuredTarget E m policy) cfg) := by
  unfold Host.routeLine at h
  cases hline : H.parseLine raw with
  | blank =>
    rw [hline] at h
    cases h
    exact .inl ⟨rfl, rfl⟩
  | final policy =>
    rw [hline] at h
    cases policy with
    | none => nomatch h
    | some policy =>
      simp only at h
      split at h
      · nomatch h
      · next target htarget =>
        cases h
        exact .inr (.inl ⟨policy, rfl, ⟨rfl, rfl⟩, ensurePolicy_ok htarget⟩)
  | short line =>
    rw [hline] at h
    nomatch h
  | rule head value policy =>
    rw [hline] at h
    simp only at h
    split at h
    · nomatch h
    · next target htarget =>
      split at h
      · next kind hkind =>
        cases h
        obtain rfl := ensurePolicy_ok htarget
        refine .inr (.inr ⟨head, value, policy, kind, rfl, hkind, ?_, ?_⟩)
        · unfold Host.addRoute
          split <;> rfl
        · refine SameRoutes.addRoute ?_ kind value _
          exact ⟨rfl, rfl⟩
      · next hkind => simp [Host.isRuleSet, hline, hkind] at hset
      · nomatch h

/-- **`routeLines_ok`** — on lines without `RULE-SET`, the routes are those of the plain rules and
`final` is that of the last `FINAL` line. -/
theorem routeLines_ok {ln : Nat} {lines : List Text} {cfg cfg' : SingboxConfig}
    (hset : ∀ raw ∈ lines, H.isRuleSet raw = false)
    (h : H.routeLines E m ln lines cfg = .ok cfg') :
    SameRoutes cfg' (H.addRoutes E m (lines.filterMap H.plainRule) cfg) ∧
      cfg'.final = H.lastFinal E m lines cfg.final := by
  induction lines generalizing ln cfg with
  | nil =>
    cases h
    exact ⟨⟨rfl, rfl⟩, rfl⟩
  | cons raw lines ih =>
    simp only [Host.routeLines] at h
    split at h
    · nomatch h
    · next mid hmid =>
      obtain ⟨hroutes, hfinal⟩ := ih (fun r hr => hset r (List.mem_cons_of_mem _ hr)) h
      rcases routeLine_cases (hset raw (List.mem_cons_self ..)) hmid with
        ⟨hline, rfl⟩ | ⟨policy, hline, hsame, hf⟩ | ⟨head, value, policy, kind, hline, hkind, hf, hsame⟩
      · -- a blank line
        have hrule : H.plainRule raw = none := by simp [Host.plainRule, hline]
        have hpol : H.finalPolicy raw = none := by simp [Host.finalPolicy, hline]
        refine ⟨?_, ?_⟩
        · rwa [List.filterMap_cons_none hrule]
        · rw [hfinal, Host.lastFinal, Host.lastFinal, List.filterMap_cons_none hpol]
      · -- a `FINAL`, which a later one replaces
        have hrule : H.plainRule raw = none := by simp [Host.plainRule, hline]
        have hpol : H.finalPolicy raw = some policy := by simp [Host.finalPolicy, hline]
        have hadd := hsame.addRoutes (H := H) (E := E) (m := m) (lines.filterMap H.plainRule)
        refine ⟨?_, ?_⟩
        · rw [List.filterMap_cons_none hrule]
          exact hroutes.trans hadd
        · rw [hfinal, Host.lastFinal, Host.lastFinal, List.filterMap_cons_some hpol,
            List.getLast?_cons, hf]
          cases (lines.filterMap H.finalPolicy).getLast? <;> rfl
      · -- a plain rule
        have hrule : H.plainRule raw = some (kind, value, policy) := by
          simp [Host.plainRule, hline, hkind]
        have hpol : H.finalPolicy raw = none := by simp [Host.finalPolicy, hline]
        have hadd := hsame.addRoutes (H := H) (E := E) (m := m) (lines.filterMap H.plainRule)
        refine ⟨?_, ?_⟩
        · rw [List.filterMap_cons_some hrule]
          exact hroutes.trans hadd
        · rw [hfinal, hf, Host.lastFinal, Host.lastFinal, List.filterMap_cons_none hpol]

end Route

end ProxyGateway.Smart
