/-
# ProxyGateway.Smart.Agreement — do the two generators route alike?

The two generators promise one rule syntax.  Their configurations are compared by their decisions: a
request is an interpretation of the conditions, the same one for both sides, and a `GEOSITE` or
`GEOIP` name means the same in either case of letters.

Cut the file at its first `FINAL` line.  The mihomo table is the plain rules before the cut, then the
target of that line; the sing-box table is the plain rules of the whole file, then the target of the
LAST `FINAL` line, and a rule whose tag is taken tests the rule set of the earlier rule.  So the
question is that of `agree_iff`, with the tag as the slot.
-/
import ProxyGateway.Smart.Singbox

namespace ProxyGateway.Smart

open ProxyGateway.Lang ProxyGateway.Logic

/-! ## Decisions -/

def Kind.isGeo : Kind → Bool
  | .geosite => true
  | .geoip => true
  | _ => false

/-- What a condition of a mihomo rule asks of the request. -/
def Host.mihomoCond (H : Host) : Cond → Cond
  | .plain kind value => .plain kind (if kind.isGeo then H.lower value else value)
  | .ruleSet tag => .ruleSet tag

/-- What a condition of a sing-box rule asks of the request, given the rule sets by tag. -/
def singboxCond (sets : List (Text × Source)) : Cond → Cond
  | .plain kind value => .plain kind value
  | .ruleSet tag =>
    match sets.lookup tag with
    | some (.geo kind name) => .plain kind name
    | _ => .ruleSet tag

/-- The first matching rule, `MATCH` matching everything; `DIRECT` where none matches. -/
def Host.mihomoDecision (H : Host) (cfg : MihomoConfig) (I : Cond → Bool) : Target :=
  decision I .direct (cfg.rules.map (Entry.mapCond H.mihomoCond))

/-- The first matching route rule, else `final`. -/
def SingboxConfig.decision (cfg : SingboxConfig) (I : Cond → Bool) : Target :=
  Logic.decision I cfg.final (cfg.routes.map (Entry.mapCond (singboxCond cfg.ruleSets)))

/-! ## One list of rules, two tables -/

/-- The slot of a condition: what the sing-box rule names, a rule set by its tag. -/
def routeCond : Cond → Cond
  | .plain kind name =>
    match geoTag kind name with
    | some tag => .ruleSet tag
    | none => .plain kind name
  | .ruleSet tag => .ruleSet tag

section Tables

variable (H : Host) (E : Exits) (m : PolicyMap)

/-- A plain rule with the targets that the two generators give it. -/
def Host.ruleItem (r : Kind × Text × Text) : Item Cond Target where
  key := H.mihomoCond (.plain r.1 r.2.1)
  left := H.resolveTarget E m r.2.2
  right := H.ensuredTarget E m r.2.2

/-- The plain rules of the lines. -/
def Host.items (lines : List Text) : List (Item Cond Target) :=
  (lines.filterMap H.plainRule).map (H.ruleItem E m)

def Host.beforeFinal (lines : List Text) : List Text := lines.takeWhile fun raw => !H.isFinal raw

/-- The first `FINAL` line and what follows it. -/
def Host.fromFinal (lines : List Text) : List Text := lines.dropWhile fun raw => !H.isFinal raw

/-- Where mihomo sends a request that no plain rule before the first `FINAL` line matches. -/
def Host.firstFinal (lines : List Text) : Target :=
  match (H.fromFinal lines).head? with
  | some raw => H.resolveTarget E m ((H.finalPolicy raw).getD H.defaultTarget)
  | none => .direct

variable {H E m}

theorem routeCond_mihomoCond (kind : Kind) (value : Text) :
    routeCond (H.mihomoCond (.plain kind value)) =
      match geoTag kind (H.lower value) with
      | some tag => .ruleSet tag
      | none => .plain kind value := by
  cases kind <;> rfl

theorem lookup_addRuleSet (tag tag' : Text) (source : Source) (sets : List (Text × Source)) :
    (addRuleSet tag' source sets).lookup tag =
      (sets.lookup tag).or (if tag' = tag then some source else none) := by
  unfold addRuleSet
  split
  · next hsome =>
    by_cases htag : tag' = tag
    · subst htag
      obtain ⟨s, hs⟩ := Option.isSome_iff_exists.mp hsome
      simp [hs]
    · simp [htag]
  · rw [List.lookup_append]
    by_cases htag : tag' = tag
    · simp [htag]
    · have hne : (tag == tag') = false := by simpa using Ne.symm htag
      simp [htag, List.lookup_cons, hne]

/-- The rule set that a `GEOSITE` or `GEOIP` condition asks for. -/
def Cond.source : Cond → Source
  | .plain kind name => .geo kind name
  | .ruleSet tag => .file tag

/-- The rule set behind a tag is that of the first rule with this tag. -/
theorem lookup_addRoutes (rules : List (Kind × Text × Text)) (cfg : SingboxConfig) (tag : Text) :
    (H.addRoutes E m rules cfg).ruleSets.lookup tag = (cfg.ruleSets.lookup tag).or
      (((rules.map (H.ruleItem E m)).find? fun x => routeCond x.key = .ruleSet tag).map
        (·.key.source)) := by
  induction rules generalizing cfg with
  | nil => simp [Host.addRoutes]
  | cons r rules ih =>
    obtain ⟨kind, value, policy⟩ := r
    have hstep : (H.addRoute kind value (H.ensuredTarget E m policy) cfg).ruleSets.lookup tag =
        (cfg.ruleSets.lookup tag).or
          (if routeCond (H.mihomoCond (.plain kind value)) = .ruleSet tag then
            some (H.mihomoCond (.plain kind value)).source else none) := by
      rw [routeCond_mihomoCond]
      unfold Host.addRoute
      cases kind <;>
        simp [geoTag, lookup_addRuleSet, Host.mihomoCond, Kind.isGeo, Cond.source]
    rw [Host.addRoutes, List.foldl_cons, ← Host.addRoutes, ih, hstep, Option.or_assoc,
      List.map_cons, List.find?_cons]
    congr 1
    simp only [Host.ruleItem]
    split
    · next h => simp [h]
    · next h => simp [h]

theorem routes_addRoutes (rules : List (Kind × Text × Text)) (cfg : SingboxConfig) :
    (H.addRoutes E m rules cfg).routes = cfg.routes ++
      (rules.map (H.ruleItem E m)).map fun x => ⟨some (routeCond x.key), x.right⟩ := by
  induction rules generalizing cfg with
  | nil => simp [Host.addRoutes]
  | cons r rules ih =>
    obtain ⟨kind, value, policy⟩ := r
    have hstep : (H.addRoute kind value (H.ensuredTarget E m policy) cfg).routes = cfg.routes ++
        [⟨some (routeCond (H.mihomoCond (.plain kind value))), H.ensuredTarget E m policy⟩] := by
      rw [routeCond_mihomoCond]
      unfold Host.addRoute
      cases geoTag kind (H.lower value) with
      | some tag => rfl
      | none => rfl
    rw [Host.addRoutes, List.foldl_cons, ← Host.addRoutes, ih, hstep, List.append_assoc]
    rfl

/-- What a rule of the configuration asks is what the first rule of its slot asks. -/
theorem singboxCond_routeCond {items : List (Item Cond Target)} {sets : List (Text × Source)}
    (hkeys : ∀ x ∈ items, ∃ kind name, x.key = .plain kind name)
    (hsets : ∀ tag, sets.lookup tag =
      (items.find? fun x => routeCond x.key = .ruleSet tag).map (·.key.source))
    {x : Item Cond Target} (hx : x ∈ items) :
    singboxCond sets (routeCond x.key) = owner routeCond items x.key := by
  obtain ⟨kind, name, hkey⟩ := hkeys x hx
  rw [hkey]
  unfold owner
  cases htag : geoTag kind name with
  | none =>
    -- a condition of its own is its own slot
    have hroute : routeCond (.plain kind name) = .plain kind name := by simp [routeCond, htag]
    rw [hroute]
    cases hfind : items.find? fun y => routeCond y.key = .plain kind name with
    | none => rfl
    | some y =>
      obtain ⟨k, n, hy⟩ := hkeys y (List.mem_of_find?_eq_some hfind)
      have hslot : routeCond y.key = .plain kind name := by simpa using List.find?_some hfind
      simp only [hy] at hslot ⊢
      cases hg : geoTag k n with
      | none =>
        obtain ⟨rfl, rfl⟩ : k = kind ∧ n = name := by simpa [routeCond, hg] using hslot
        rfl
      | some t => simp [routeCond, hg] at hslot
  | some tag =>
    -- a rule set asks what the first rule with its tag has put into it
    have hroute : routeCond (.plain kind name) = .ruleSet tag := by simp [routeCond, htag]
    rw [hroute]
    cases hfind : items.find? fun y => routeCond y.key = .ruleSet tag with
    | none =>
      have := List.find?_eq_none.mp hfind x hx
      simp [hkey, hroute] at this
    | some y =>
      obtain ⟨k, n, hy⟩ := hkeys y (List.mem_of_find?_eq_some hfind)
      simp [singboxCond, hsets, hfind, hy, Cond.source]

/-! ## The two decisions -/

/-- In a file that sing-box accepts without `RULE-SET` lines every rule is a plain one. -/
theorem plainKind_of_routeLines {ln : Nat} {lines : List Text} {cfg cfg' : SingboxConfig}
    (hset : ∀ raw ∈ lines, H.isRuleSet raw = false)
    (h : H.routeLines E m ln lines cfg = .ok cfg') {raw : Text} (hraw : raw ∈ lines)
    {head value policy : Text} (hline : H.parseLine raw = .rule head value policy) :
    ∃ kind, plainKind (H.ruleType head) = some kind := by
  induction lines generalizing ln cfg with
  | nil => cases hraw
  | cons first lines ih =>
    simp only [Host.routeLines] at h
    split at h
    · cases h
    · next mid hmid =>
      rcases List.mem_cons.mp hraw with rfl | hraw
      · rcases routeLine_cases (hset raw (List.mem_cons_self ..)) hmid with
          ⟨hb, -⟩ | ⟨p, hf, -⟩ | ⟨hd, v, p, kind, hr, hkind, -⟩
        · cases hb.symm.trans hline
        · cases hf.symm.trans hline
        · obtain ⟨rfl, -, -⟩ := RuleLine.rule.inj (hr.symm.trans hline)
          exact ⟨kind, ruleTypeOf_eq_plain.mp hkind⟩
      · exact ih (fun r hr => hset r (List.mem_cons_of_mem _ hr)) h hraw

/-- The entries of plain lines are the first table. -/
theorem entries_eq_leftTable {lines : List Text} (hfinal : ∀ raw ∈ lines, H.isFinal raw = false)
    (hplain : ∀ raw ∈ lines, ∀ head value policy, H.parseLine raw = .rule head value policy →
      ∃ kind, plainKind (H.ruleType head) = some kind) :
    (lines.filterMap (H.entry? E m)).map (Entry.mapCond H.mihomoCond) =
      leftTable (H.items E m lines) := by
  induction lines with
  | nil => rfl
  | cons raw lines ih =>
    have hrest := ih (fun r hr => hfinal r (List.mem_cons_of_mem _ hr))
      fun r hr => hplain r (List.mem_cons_of_mem _ hr)
    have hf := hfinal raw (List.mem_cons_self ..)
    have hp := hplain raw (List.mem_cons_self ..)
    unfold Host.items at hrest ⊢
    cases hline : H.parseLine raw with
    | final policy => simp [Host.isFinal, hline] at hf
    | rule head value policy =>
      obtain ⟨kind, hkind⟩ := hp head value policy hline
      have hm : mihomoType (H.ruleType head) = some (.plain kind) := ruleTypeOf_eq_plain.mpr hkind
      have hs : singboxType (H.ruleType head) = some (.plain kind) := ruleTypeOf_eq_plain.mpr hkind
      have hentry : H.entry? E m raw =
          some ⟨some (.plain kind value), H.resolveTarget E m policy⟩ := by
        simp [Host.entry?, Host.cond?, hline, hm]
      have hrule : H.plainRule raw = some (kind, value, policy) := by
        simp [Host.plainRule, hline, hs]
      rw [List.filterMap_cons_some hentry, List.filterMap_cons_some hrule, List.map_cons, hrest]
      rfl
    | _ =>
      have hentry : H.entry? E m raw = none := by simp [Host.entry?, hline]
      have hrule : H.plainRule raw = none := by simp [Host.plainRule, hline]
      rw [List.filterMap_cons_none hentry, List.filterMap_cons_none hrule, hrest]

/-- mihomo decides by the plain rules before the first `FINAL` line, then by that line. -/
theorem mihomoDecision_eq {text : Text} {cfg : MihomoConfig}
    (hcfg : H.mihomoConfig E m text = .ok cfg)
    (hplain : ∀ raw ∈ pyLines text, ∀ head value policy,
      H.parseLine raw = .rule head value policy → ∃ kind, plainKind (H.ruleType head) = some kind)
    (I : Cond → Bool) :
    H.mihomoDecision cfg I = decision I (H.firstFinal E m (pyLines text))
      (leftTable (H.items E m (H.beforeFinal (pyLines text)))) := by
  have hbefore : ∀ raw ∈ H.beforeFinal (pyLines text), H.isFinal raw = false := fun raw hraw => by
    simpa using List.mem_takeWhile_imp hraw
  have htable := entries_eq_leftTable (H := H) (E := E) (m := m) hbefore
    fun raw hraw => hplain raw ((List.takeWhile_prefix _).subset hraw)
  have hsplit : pyLines text = H.beforeFinal (pyLines text) ++ H.fromFinal (pyLines text) :=
    List.takeWhile_append_dropWhile.symm
  have hrules : cfg.rules.map (Entry.mapCond H.mihomoCond) =
      leftTable (H.items E m (H.beforeFinal (pyLines text))) ++
        ((H.fromFinal (pyLines text)).filterMap (H.entry? E m)).map
          (Entry.mapCond H.mihomoCond) := by
    conv_lhs => rw [mihomoConfig_rules hcfg, hsplit, List.filterMap_append, List.map_append, htable]
  rw [Host.mihomoDecision, hrules, Host.firstFinal]
  -- the first `FINAL` matches every request, so what stands behind it is never asked
  cases hrest : H.fromFinal (pyLines text) with
  | nil => simp
  | cons raw rest =>
    have hfinal : H.isFinal raw = true := by
      have hhead := List.head_dropWhile_not (fun raw => !H.isFinal raw) (l := pyLines text)
        (by rw [Host.fromFinal] at hrest; simp [hrest])
      simp only [Host.fromFinal] at hrest
      simpa [hrest] using hhead
    cases hline : H.parseLine raw with
    | final policy =>
      have hentry : H.entry? E m raw =
          some ⟨none, H.resolveTarget E m ((H.finalPolicy raw).getD H.defaultTarget)⟩ := by
        simp [Host.entry?, Host.finalPolicy, hline]
      rw [List.filterMap_cons_some hentry, List.map_cons]
      exact decision_catchAll I _ _ _ _
    | _ => simp [Host.isFinal, hline] at hfinal

/-- sing-box decides by the plain rules of the whole file, then by the last `FINAL` line. -/
theorem singboxDecision_eq {text : Text} {cfg : SingboxConfig}
    (hset : ∀ raw ∈ pyLines text, H.isRuleSet raw = false)
    (hcfg : H.singboxConfig E m text = .ok cfg) (I : Cond → Bool) :
    cfg.decision I = decision I (H.lastFinal E m (pyLines text) .direct)
      (rightTable routeCond (H.items E m (pyLines text))) := by
  obtain ⟨hsame, hfinal⟩ := routeLines_ok hset hcfg
  have hsets : ∀ tag, cfg.ruleSets.lookup tag =
      ((H.items E m (pyLines text)).find? fun x => routeCond x.key = .ruleSet tag).map
        (·.key.source) := fun tag => by
    rw [hsame.ruleSets_eq, lookup_addRoutes]
    rfl
  have hkeys : ∀ x ∈ H.items E m (pyLines text), ∃ kind name, x.key = .plain kind name := by
    intro x hx
    obtain ⟨r, -, rfl⟩ := List.mem_map.mp hx
    exact ⟨_, _, rfl⟩
  have hroutes : cfg.routes.map (Entry.mapCond (singboxCond cfg.ruleSets)) =
      rightTable routeCond (H.items E m (pyLines text)) := by
    rw [hsame.routes_eq, routes_addRoutes, List.nil_append, List.map_map, rightTable, Host.items]
    refine List.map_congr_left fun x hx => ?_
    simp only [Function.comp_apply, Entry.mapCond, Option.map_some]
    rw [singboxCond_routeCond hkeys hsets hx]
    rfl
  rw [SingboxConfig.decision, hroutes, hfinal]

/-- **`generators_agree_iff`** — on a file without `RULE-SET` lines that both generators accept, they
decide every request alike exactly when the two tables of its plain rules are agreeable. -/
theorem generators_agree_iff {text : Text} {cm : MihomoConfig} {cs : SingboxConfig}
    (hset : ∀ raw ∈ pyLines text, H.isRuleSet raw = false)
    (hm : H.mihomoConfig E m text = .ok cm) (hs : H.singboxConfig E m text = .ok cs) :
    (∀ I, H.mihomoDecision cm I = cs.decision I) ↔
      Agreeable routeCond (H.items E m (H.beforeFinal (pyLines text)))
        (H.items E m (H.fromFinal (pyLines text))) (H.firstFinal E m (pyLines text))
        (H.lastFinal E m (pyLines text) .direct) := by
  have hsplit : H.items E m (pyLines text) =
      H.items E m (H.beforeFinal (pyLines text)) ++ H.items E m (H.fromFinal (pyLines text)) := by
    unfold Host.items
    rw [← List.map_append, ← List.filterMap_append, Host.beforeFinal, Host.fromFinal,
      List.takeWhile_append_dropWhile]
  rw [← agree_iff]
  refine forall_congr' fun I => ?_
  rw [mihomoDecision_eq hm fun raw hraw _ _ _ => plainKind_of_routeLines hset hs hraw,
    singboxDecision_eq hset hs, hsplit]

end Tables

/-! ## A rule behind `FINAL` -/

/-- The legacy exit `us`, which both generators can read. -/
def usJson : Exits := ⟨[⟨lit "us.json", .proxy, true⟩], []⟩

/-- `FINAL` last: the files that agree. -/
theorem generators_agree_finalLast :
    ∃ cm cs, plainHost.mihomoConfig usJson [] (lit "DOMAIN,x.com,us\nFINAL,direct\n") = .ok cm ∧
      plainHost.singboxConfig usJson [] (lit "DOMAIN,x.com,us\nFINAL,direct\n") = .ok cs ∧
      ((∀ I, plainHost.mihomoDecision cm I = cs.decision I) ↔
        Agreeable routeCond
          (plainHost.items usJson []
            (plainHost.beforeFinal (pyLines (lit "DOMAIN,x.com,us\nFINAL,direct\n"))))
          (plainHost.items usJson []
            (plainHost.fromFinal (pyLines (lit "DOMAIN,x.com,us\nFINAL,direct\n"))))
          (plainHost.firstFinal usJson [] (pyLines (lit "DOMAIN,x.com,us\nFINAL,direct\n")))
          (plainHost.lastFinal usJson [] (pyLines (lit "DOMAIN,x.com,us\nFINAL,direct\n"))
            .direct)) := by
  have hm : plainHost.mihomoConfig usJson [] (lit "DOMAIN,x.com,us\nFINAL,direct\n") =
    .ok ⟨[xToUs, ⟨none, .direct⟩], [], [lit "us"]⟩ := by rfl
  have hs : plainHost.singboxConfig usJson [] (lit "DOMAIN,x.com,us\nFINAL,direct\n") =
    .ok ⟨[lit "us"], [], [xToUs], .direct⟩ := by rfl
  exact ⟨_, _, hm, hs, generators_agree_iff (by decide) hm hs⟩

/-- For mihomo a rule behind `FINAL` is dead, for sing-box it is not. -/
theorem generators_disagree_behindFinal :
    ¬ ∀ (H : Host) (E : Exits) (m : PolicyMap) (text : Text) (cm : MihomoConfig)
        (cs : SingboxConfig),
      (∀ raw ∈ pyLines text, H.isRuleSet raw = false) → H.mihomoConfig E m text = .ok cm →
      H.singboxConfig E m text = .ok cs → ∀ I, H.mihomoDecision cm I = cs.decision I := by
  intro hclaim
  have hm : plainHost.mihomoConfig usJson [] (lit "FINAL,direct\nDOMAIN,x.com,us\n") =
    .ok ⟨[⟨none, .direct⟩, xToUs], [], [lit "us"]⟩ := by rfl
  have hs : plainHost.singboxConfig usJson [] (lit "FINAL,direct\nDOMAIN,x.com,us\n") =
    .ok ⟨[lit "us"], [], [xToUs], .direct⟩ := by rfl
  have heq := hclaim plainHost usJson [] _ _ _ (by decide) hm hs
    fun k => decide (some k = xToUs.cond)
  exact absurd heq (by decide)

end ProxyGateway.Smart
