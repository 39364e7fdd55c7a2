/-
# ProxyGateway.Smart.SourceRules — rule lists inside the sing-box router

A `RULE-SET` line of the older generator may name a plain list, on the web or on the disk.  Its entries
become one rule of a rule set of their own: the values of each kind, sorted, in a file that sing-box
compiles if it can, and the route then has a single entry that tests this rule set.

So a list is a disjunction, and could as well stand in the file line by line.  `parseRuleList_matches` is
the first half: the rule matches what an entry of the list matches.  `lists_inline` is the other one, for
whole files: a request is routed as if each `RULE-SET` line were replaced by the entries of its list, in
its place and with its policy.
-/
import ProxyGateway.Smart.RuleSets
import ProxyGateway.Smart.FromUrl
import ProxyGateway.Dns.GfwList

namespace ProxyGateway.Smart

open ProxyGateway.Lang ProxyGateway.Logic
open ProxyGateway.Dns (isDomain)

/-! ## Lists -/

section List

variable (H : Host)

/-- A value that has to be a domain. -/
def domainEntry (kind : Kind) (value : Text) : Option (Kind × Text) :=
  if isDomain value then some (kind, value) else none

/-- The body of the loop in `parse_rule_list`: the set that a line adds to, and the value. -/
def Host.listEntry (raw : Text) : Option (Kind × Text) :=
  let line := strip (before '#' raw)
  if line = [] ∨ startsWithMark (lit "!;") line = true ∨
      (lit "payload").isPrefixOf (H.lower line) = true then none
  else
    let line := stripBothQuotes (strip (stripDashes line))
    if ',' ∈ line then
      let parts := (line.splitOn ',').map fun part => stripBothQuotes (strip part)
      let t := H.upper (parts.head?.getD [])
      let v := (parts.drop 1).head?.getD []
      if t ∈ [lit "DOMAIN", lit "HOST"] then domainEntry .domain v
      else if t ∈ [lit "DOMAIN-SUFFIX", lit "HOST-SUFFIX"] then
        domainEntry .domainSuffix (v.dropWhile (· == '.'))
      else if t ∈ [lit "DOMAIN-KEYWORD", lit "HOST-KEYWORD"] then
        if v = [] then none else some (.domainKeyword, v)
      else if t ∈ [lit "IP-CIDR", lit "IP-CIDR6"] then
        if v = [] then none else some (.ipCidr, v)
      else none
    else domainEntry .domainSuffix (rstripDots (cutWildcard line))

/-- The entries of a list. -/
def Host.listEntries (text : Text) : List (Kind × Text) := (splitlines text).filterMap H.listEntry

/-- A source rule: the keys `domain`, `domain_suffix`, `domain_keyword` and `ip_cidr`, which are left
out where they are empty. -/
structure SourceRule where
  domain : List Text
  domainSuffix : List Text
  domainKeyword : List Text
  ipCidr : List Text
  deriving DecidableEq, Repr

/-- `not rule` -/
def SourceRule.isEmpty (rule : SourceRule) : Bool :=
  rule.domain.isEmpty && rule.domainSuffix.isEmpty && rule.domainKeyword.isEmpty && rule.ipCidr.isEmpty

/-- `sorted` of the values of a kind -/
def sortedValues (kind : Kind) (entries : List (Kind × Text)) : List Text :=
  sortUnique ((entries.filter (·.1 = kind)).map (·.2))

/-- **`parse_rule_list`** -/
def Host.parseRuleList (text : Text) : SourceRule where
  domain := sortedValues .domain (H.listEntries text)
  domainSuffix := sortedValues .domainSuffix (H.listEntries text)
  domainKeyword := sortedValues .domainKeyword (H.listEntries text)
  ipCidr := sortedValues .ipCidr (H.listEntries text)

/-- What sing-box makes of a source rule: one of its values is enough. -/
def SourceRule.matches (rule : SourceRule) (I : Cond → Bool) : Bool :=
  rule.domain.any (fun v => I (.plain .domain v)) ||
    rule.domainSuffix.any (fun v => I (.plain .domainSuffix v)) ||
    rule.domainKeyword.any (fun v => I (.plain .domainKeyword v)) ||
    rule.ipCidr.any (fun v => I (.plain .ipCidr v))

variable {H}

theorem mem_sortedValues {kind : Kind} {entries : List (Kind × Text)} {value : Text} :
    value ∈ sortedValues kind entries ↔ (kind, value) ∈ entries := by
  rw [sortedValues, mem_sortUnique, List.mem_map]
  constructor
  · rintro ⟨⟨k, v⟩, hmem, rfl⟩
    obtain ⟨hentry, hkind⟩ := List.mem_filter.mp hmem
    obtain rfl : k = kind := of_decide_eq_true hkind
    exact hentry
  · intro h
    exact ⟨(kind, value), List.mem_filter.mpr ⟨h, decide_eq_true rfl⟩, rfl⟩

theorem domainEntry_kind {kind kind' : Kind} {value value' : Text}
    (h : domainEntry kind value = some (kind', value')) : kind' = kind := by
  unfold domainEntry at h
  split at h
  · exact (Prod.mk.inj (Option.some.inj h)).1.symm
  · cases h

/-- The four kinds. -/
def listKinds : List Kind := [.domain, .domainSuffix, .domainKeyword, .ipCidr]

theorem listEntry_kind {raw value : Text} {kind : Kind} (h : H.listEntry raw = some (kind, value)) :
    kind ∈ listKinds := by
  have hsome : ∀ {k : Kind} {v : Text}, k ∈ listKinds →
      (if v = [] then none else some (k, v)) = some (kind, value) → kind ∈ listKinds := by
    intro k v hk hv
    split at hv
    · cases hv
    · rwa [← (Prod.mk.inj (Option.some.inj hv)).1]
  have hdomain : ∀ {k : Kind} {v : Text}, k ∈ listKinds → domainEntry k v = some (kind, value) →
      kind ∈ listKinds := by
    intro k v hk hv
    rwa [domainEntry_kind hv]
  simp only [Host.listEntry] at h
  split at h
  · cases h
  split at h
  · split at h
    · exact hdomain (by decide) h
    split at h
    · exact hdomain (by decide) h
    split at h
    · exact hsome (by decide) h
    split at h
    · exact hsome (by decide) h
    · cases h
  · exact hdomain (by decide) h

/-- **`parseRuleList_matches`** — the rule of a list matches what one of its entries matches. -/
theorem parseRuleList_matches (text : Text) (I : Cond → Bool) :
    (H.parseRuleList text).matches I = (H.listEntries text).any fun e => I (.plain e.1 e.2) := by
  have hone : ∀ kind : Kind, ((sortedValues kind (H.listEntries text)).any fun v => I (.plain kind v)) =
      true ↔ ∃ v, (kind, v) ∈ H.listEntries text ∧ I (.plain kind v) = true := by
    intro kind
    rw [List.any_eq_true]
    exact exists_congr fun v => and_congr_left fun _ => mem_sortedValues
  rw [Bool.eq_iff_iff]
  simp only [SourceRule.matches, Host.parseRuleList, Bool.or_eq_true, hone]
  rw [List.any_eq_true]
  constructor
  · rintro (((⟨v, hv, hI⟩ | ⟨v, hv, hI⟩) | ⟨v, hv, hI⟩) | ⟨v, hv, hI⟩)
    · exact ⟨_, hv, hI⟩
    · exact ⟨_, hv, hI⟩
    · exact ⟨_, hv, hI⟩
    · exact ⟨_, hv, hI⟩
  · rintro ⟨⟨kind, v⟩, hv, hI⟩
    obtain ⟨raw, -, hraw⟩ := List.mem_filterMap.mp hv
    have hkind := listEntry_kind hraw
    simp only [listKinds, List.mem_cons, List.not_mem_nil, or_false] at hkind
    rcases hkind with rfl | rfl | rfl | rfl
    · exact .inl (.inl (.inl ⟨v, hv, hI⟩))
    · exact .inl (.inl (.inr ⟨v, hv, hI⟩))
    · exact .inl (.inr ⟨v, hv, hI⟩)
    · exact .inr ⟨v, hv, hI⟩

theorem isEmpty_parseRuleList (text : Text) :
    (H.parseRuleList text).isEmpty = true ↔ H.listEntries text = [] := by
  constructor
  · intro h
    rw [List.eq_nil_iff_forall_not_mem]
    rintro ⟨kind, v⟩ hv
    obtain ⟨raw, -, hraw⟩ := List.mem_filterMap.mp hv
    have hkind := listEntry_kind hraw
    have hmem := mem_sortedValues.mpr hv
    simp only [SourceRule.isEmpty, Host.parseRuleList, Bool.and_eq_true, List.isEmpty_iff] at h
    simp only [listKinds, List.mem_cons, List.not_mem_nil, or_false] at hkind
    obtain ⟨⟨⟨h₁, h₂⟩, h₃⟩, h₄⟩ := h
    rcases hkind with rfl | rfl | rfl | rfl
    · exact absurd hmem (h₁ ▸ List.not_mem_nil)
    · exact absurd hmem (h₂ ▸ List.not_mem_nil)
    · exact absurd hmem (h₃ ▸ List.not_mem_nil)
    · exact absurd hmem (h₄ ▸ List.not_mem_nil)
  · intro h
    rw [Host.parseRuleList, h]
    rfl

end List

/-! ## What a `RULE-SET` line is turned into -/

/-- What the generator finds behind the values of `RULE-SET` lines. -/
structure Lists where
  /-- the list that a compiled rule set in the cache was made from, by tag -/
  cached : Text → Option Text
  /-- `fetch(src).decode("utf-8", "replace")`; none where it raises -/
  fetch : Text → Option Text
  /-- a local file, if there is one, as text, if it is UTF-8 -/
  file : Text → Option (Option Text)
  /-- `sing-box rule-set compile` works for a tag. -/
  compiles : Text → Bool

/-- What becomes of a value: nothing, a compiled rule set, or a list in a file. -/
inductive ListUse where
  | skipped
  | binary (path : Text)
  | list (path text : Text)
  deriving DecidableEq, Repr

def ListUse.path : ListUse → Option Text
  | .skipped => none
  | .binary path => some path
  | .list path _ => some path

/-- `os.path.join(CACHE_DIR, tag + ext)` -/
def cachePath (tag ext : Text) : Text := lit "/etc/proxy-gateway/rulesets/" ++ tag ++ ext

section Use

variable (H : Host) (E : Exits) (m : PolicyMap) (L : Lists)

/-- **`add_local_source`**, for a tag that is not in use. -/
def Host.addLocalSource (tag text : Text) : ListUse :=
  if (H.parseRuleList text).isEmpty then .skipped
  else .list (cachePath tag (if L.compiles tag then lit ".srs" else lit ".json")) text

/-- The branches of `handle_ruleset` for a value that is no remote `.srs` and not in use yet. -/
def Host.listUse (src : Text) : Except Failure ListUse :=
  let tag := H.ruleSetTag src
  match L.cached tag with
  | some text => .ok (.list (cachePath tag (lit ".srs")) text)
  | none =>
    if (lit "http").isPrefixOf src then
      match L.fetch src with
      | some text => .ok (H.addLocalSource L tag text)
      | none => .ok .skipped
    else match L.file src with
      | none => .ok .skipped
      | some text =>
        if (lit ".srs").isSuffixOf (H.lower src) then .ok (.binary src)
        else match text with
          | some text => .ok (H.addLocalSource L tag text)
          | none => .error .raised

/-- The host has these lists. -/
def Host.Has : Prop := ∀ src, H.localRuleSet src = (H.listUse L src).map ListUse.path

/-- `src.startswith("http") and src.lower().endswith(".srs")` -/
def Host.isRemoteSrs (src : Text) : Bool :=
  (lit "http").isPrefixOf src && (lit ".srs").isSuffixOf (H.lower src)

/-- The value gets an entry in the route. -/
def Host.takes (src : Text) : Bool :=
  H.isRemoteSrs src || match H.listUse L src with
    | .ok use => use.path.isSome
    | .error _ => false

/-- The route entry of a line. -/
def Host.lineRoute (raw : Text) : Option (Entry Cond Target) :=
  match H.parseLine raw with
  | .rule head value policy =>
    match singboxType (H.ruleType head) with
    | some (.plain kind) =>
      some ⟨some (routeCond (H.mihomoCond (.plain kind value))), H.ensuredTarget E m policy⟩
    | some .ruleSet =>
      if H.takes L value then some ⟨some (.ruleSet (H.ruleSetTag value)), H.ensuredTarget E m policy⟩
      else none
    | none => none
  | _ => none

/-- The entries that could stand for a `RULE-SET` line. -/
def Host.inlineSet (src : Text) (target : Target) : List (Entry Cond Target) :=
  if H.isRemoteSrs src then [⟨some (.ruleSet (H.ruleSetTag src)), target⟩]
  else match H.listUse L src with
    | .ok (.list _ text) => (H.listEntries text).map fun e => ⟨some (.plain e.1 e.2), target⟩
    | .ok (.binary _) => [⟨some (.ruleSet (H.ruleSetTag src)), target⟩]
    | _ => []

/-- **`inlineLine`** — a line as entries: a list with its own, any other rule as the route has it, where
`sets` tells what a category tests. -/
def Host.inlineLine (sets : List (Text × Source)) (raw : Text) : List (Entry Cond Target) :=
  match H.parseLine raw with
  | .rule head value policy =>
    match singboxType (H.ruleType head) with
    | some (.plain kind) =>
      [⟨some (singboxCond sets (routeCond (H.mihomoCond (.plain kind value)))),
        H.ensuredTarget E m policy⟩]
    | some .ruleSet => H.inlineSet L value (H.ensuredTarget E m policy)
    | none => []
  | _ => []

/-- The value of a `RULE-SET` line. -/
def Host.setValue (raw : Text) : Option Text :=
  match H.parseLine raw with
  | .rule head value _ => if singboxType (H.ruleType head) = some .ruleSet then some value else none
  | _ => none

/-- No two values of the file share a tag. -/
def Host.OwnTags (lines : List Text) : Prop :=
  ∀ raw ∈ lines, ∀ raw' ∈ lines, ∀ src src', H.setValue raw = some src → H.setValue raw' = some src' →
    H.ruleSetTag src = H.ruleSetTag src' → src = src'

end Use

/-! ## The route of a whole file -/

section Run

variable {H : Host} {E : Exits} {m : PolicyMap} {L : Lists}

/-- What the loop keeps of the rule sets: a category stands under its own tag, and what is registered
for a value of the file has an entry. -/
structure Host.SetsInv (H : Host) (L : Lists) (all : List Text) (cfg : SingboxConfig) : Prop where
  geo : ∀ tag kind name, cfg.ruleSets.lookup tag = some (.geo kind name) → geoTag kind name = some tag
  used : ∀ raw ∈ all, ∀ src, H.setValue raw = some src →
    (cfg.ruleSets.lookup (H.ruleSetTag src)).isSome = true → H.takes L src = true

theorem Host.SetsInv.congr {all : List Text} {cfg cfg' : SingboxConfig} (h : H.SetsInv L all cfg)
    (hsets : cfg'.ruleSets = cfg.ruleSets) : H.SetsInv L all cfg' where
  geo := by
    rw [hsets]
    exact h.geo
  used := by
    rw [hsets]
    exact h.used

/-- A category is registered. -/
theorem Host.SetsInv.addGeo {all : List Text} {cfg cfg' : SingboxConfig} (h : H.SetsInv L all cfg)
    {tag : Text} {kind : Kind} {name : Text} (htag : geoTag kind name = some tag)
    (hsets : cfg'.ruleSets = addRuleSet tag (.geo kind name) cfg.ruleSets) : H.SetsInv L all cfg' where
  geo tag' kind' name' hlookup := by
    rw [hsets, lookup_addRuleSet] at hlookup
    cases hold : cfg.ruleSets.lookup tag' with
    | some source =>
      rw [hold] at hlookup
      exact h.geo tag' kind' name' (hold.trans hlookup)
    | none =>
      rw [hold, Option.none_or] at hlookup
      split at hlookup
      · rename_i heq
        obtain ⟨rfl, rfl⟩ := Source.geo.inj (Option.some.inj hlookup)
        rw [htag, heq]
      · cases hlookup
  used raw hraw src hsrc hsome := by
    have hne : tag ≠ H.ruleSetTag src := fun heq => ruleSetTag_ne_geoTag H htag src heq.symm
    rw [hsets, lookup_addRuleSet, if_neg hne, Option.or_none] at hsome
    exact h.used raw hraw src hsrc hsome

/-- The rule set of a value is registered. -/
theorem Host.SetsInv.addSet {all : List Text} (hown : H.OwnTags all) {cfg cfg' : SingboxConfig}
    (h : H.SetsInv L all cfg) {raw src : Text} (hraw : raw ∈ all) (hsrc : H.setValue raw = some src)
    (htakes : H.takes L src = true) {source : Source} (hsource : ∀ kind name, source ≠ .geo kind name)
    (hsets : cfg'.ruleSets = addRuleSet (H.ruleSetTag src) source cfg.ruleSets) :
    H.SetsInv L all cfg' where
  geo tag kind name hlookup := by
    rw [hsets, lookup_addRuleSet] at hlookup
    cases hold : cfg.ruleSets.lookup tag with
    | some source' =>
      rw [hold] at hlookup
      exact h.geo tag kind name (hold.trans hlookup)
    | none =>
      rw [hold, Option.none_or] at hlookup
      split at hlookup
      · exact absurd (Option.some.inj hlookup) (hsource kind name)
      · cases hlookup
  used raw' hraw' src' hsrc' hsome := by
    by_cases heq : H.ruleSetTag src = H.ruleSetTag src'
    · rwa [← hown raw hraw raw' hraw' src src' hsrc hsrc' heq]
    · rw [hsets, lookup_addRuleSet, if_neg heq, Option.or_none] at hsome
      exact h.used raw' hraw' src' hsrc' hsome

/-- **`handleRuleset_ok`** — what a `RULE-SET` line does. -/
theorem handleRuleset_ok (hL : H.Has L) {all : List Text} (hown : H.OwnTags all)
    {cfg cfg' : SingboxConfig} (hinv : H.SetsInv L all cfg) {raw src : Text} (hraw : raw ∈ all)
    (hsrc : H.setValue raw = some src) {target : Target}
    (h : H.handleRuleset src target cfg = .ok cfg') :
    H.SetsInv L all cfg' ∧ cfg'.final = cfg.final ∧ cfg'.routes = cfg.routes ++
      (if H.takes L src then [⟨some (.ruleSet (H.ruleSetTag src)), target⟩] else []) := by
  have hfile : ∀ path : Text, ∀ kind name, Source.file path ≠ .geo kind name := by
    intro path kind name heq
    cases heq
  unfold Host.handleRuleset at h
  simp only at h
  split at h
  · rename_i hremote
    have htakes : H.takes L src = true := by
      rw [Host.takes, Host.isRemoteSrs, hremote, Bool.true_or]
    cases h
    refine ⟨hinv.addSet hown hraw hsrc htakes (fun kind name heq => ?_) rfl, rfl, ?_⟩
    · cases heq
    · rw [if_pos htakes]
  · rename_i hremote
    split at h
    · -- registered before, for the same value
      rename_i hsome
      have htakes := hinv.used raw hraw src hsrc hsome
      cases h
      refine ⟨hinv.congr rfl, rfl, ?_⟩
      rw [if_pos htakes]
    · have huse : H.takes L src = match H.listUse L src with
          | .ok use => use.path.isSome
          | .error _ => false := by
        rw [Host.takes, Host.isRemoteSrs, Bool.eq_false_iff.mpr hremote, Bool.false_or]
      rw [hL src] at h
      cases hlist : H.listUse L src with
      | error e =>
        rw [hlist] at h
        cases h
      | ok use =>
        rw [hlist] at h huse
        have hpathSome : H.takes L src = use.path.isSome := huse
        cases hpath : use.path with
        | none =>
          simp only [Except.map, hpath] at h
          cases h
          have hnot : H.takes L src = false := by rw [hpathSome, hpath, Option.isSome_none]
          refine ⟨hinv, rfl, ?_⟩
          rw [hnot]
          exact (List.append_nil _).symm
        | some path =>
          simp only [Except.map, hpath] at h
          cases h
          have htakes : H.takes L src = true := by rw [hpathSome, hpath, Option.isSome_some]
          refine ⟨hinv.addSet hown hraw hsrc htakes (hfile path) rfl, rfl, ?_⟩
          rw [if_pos htakes]

/-- The target that stands after a line, if there is one. -/
def Host.finalAfter (H : Host) (E : Exits) (m : PolicyMap) (d : Target) (raw : Text) : Target :=
  ((H.finalPolicy raw).map (H.ensuredTarget E m)).getD d

theorem lastFinal_cons (raw : Text) (lines : List Text) (d : Target) :
    H.lastFinal E m (raw :: lines) d = H.lastFinal E m lines (H.finalAfter E m d raw) := by
  unfold Host.lastFinal Host.finalAfter
  rw [List.filterMap_cons]
  cases H.finalPolicy raw with
  | none => rfl
  | some policy =>
    rw [List.getLast?_cons]
    cases (lines.filterMap H.finalPolicy).getLast? with
    | none => rfl
    | some last => rfl

/-- **`routeLine_ok`** — one line adds its entry, and a `FINAL` sets the default. -/
theorem routeLine_ok (hL : H.Has L) {all : List Text} (hown : H.OwnTags all) {ln : Nat} {raw : Text}
    (hraw : raw ∈ all) {cfg cfg' : SingboxConfig} (hinv : H.SetsInv L all cfg)
    (h : H.routeLine E m ln raw cfg = .ok cfg') :
    H.SetsInv L all cfg' ∧ cfg'.final = H.finalAfter E m cfg.final raw ∧
      cfg'.routes = cfg.routes ++ (H.lineRoute E m L raw).toList := by
  cases hset : H.isRuleSet raw with
  | true =>
    obtain ⟨head, src, policy, hline, htype⟩ : ∃ head src policy,
        H.parseLine raw = .rule head src policy ∧
          singboxType (H.ruleType head) = some .ruleSet := by
      unfold Host.isRuleSet at hset
      split at hset
      · rename_i head src policy hline
        exact ⟨head, src, policy, hline, of_decide_eq_true hset⟩
      · cases hset
    have hsrc : H.setValue raw = some src := by simp [Host.setValue, hline, htype]
    simp only [Host.routeLine, hline, htype] at h
    split at h
    · cases h
    · rename_i target htarget
      obtain rfl := ensurePolicy_ok htarget
      have hinvAdded : H.SetsInv L all
          { cfg with outbounds := addOutbound (H.ensuredTarget E m policy) cfg.outbounds } :=
        hinv.congr rfl
      obtain ⟨hinv', hfinal, hroutes⟩ := handleRuleset_ok hL hown hinvAdded hraw hsrc h
      refine ⟨hinv', ?_, ?_⟩
      · rw [hfinal]
        simp [Host.finalAfter, Host.finalPolicy, hline]
      · rw [hroutes]
        simp only [Host.lineRoute, hline, htype]
        split
        · rfl
        · rfl
  | false =>
    rcases routeLine_cases hset h with
      ⟨hline, rfl⟩ | ⟨policy, hline, hsame, hf⟩ | ⟨head, value, policy, kind, hline, hkind, hf, hsame⟩
    · refine ⟨hinv, ?_, ?_⟩
      · simp [Host.finalAfter, Host.finalPolicy, hline]
      · simp [Host.lineRoute, hline]
    · refine ⟨hinv.congr hsame.ruleSets_eq, ?_, ?_⟩
      · rw [hf]
        simp [Host.finalAfter, Host.finalPolicy, hline]
      · rw [hsame.routes_eq]
        simp [Host.lineRoute, hline]
    · have hfinal : cfg'.final = H.finalAfter E m cfg.final raw := by
        rw [hf]
        simp [Host.finalAfter, Host.finalPolicy, hline]
      have hroute : H.lineRoute E m L raw =
          some ⟨some (routeCond (H.mihomoCond (.plain kind value))), H.ensuredTarget E m policy⟩ := by
        simp [Host.lineRoute, hline, hkind]
      have hroutes : cfg'.routes = cfg.routes ++ (H.lineRoute E m L raw).toList := by
        rw [hsame.routes_eq, hroute, routeCond_mihomoCond]
        unfold Host.addRoute
        cases geoTag kind (H.lower value) with
        | some tag => rfl
        | none => rfl
      refine ⟨?_, hfinal, hroutes⟩
      cases htag : geoTag kind (H.lower value) with
      | none =>
        refine hinv.congr ?_
        rw [hsame.ruleSets_eq, Host.addRoute, htag]
      | some tag =>
        refine hinv.addGeo htag ?_
        rw [hsame.ruleSets_eq, Host.addRoute, htag]

/-- **`routeLines_entries`** — after a whole file the route has the entries of its lines, in order, and
the default is that of the last `FINAL`. -/
theorem routeLines_entries (hL : H.Has L) {all lines : List Text} (hown : H.OwnTags all)
    (hsub : lines ⊆ all) {ln : Nat} {cfg cfg' : SingboxConfig} (hinv : H.SetsInv L all cfg)
    (h : H.routeLines E m ln lines cfg = .ok cfg') :
    H.SetsInv L all cfg' ∧ cfg'.final = H.lastFinal E m lines cfg.final ∧
      cfg'.routes = cfg.routes ++ lines.filterMap (H.lineRoute E m L) := by
  induction lines generalizing ln cfg with
  | nil =>
    cases h
    exact ⟨hinv, rfl, (List.append_nil _).symm⟩
  | cons raw lines ih =>
    simp only [Host.routeLines] at h
    split at h
    · cases h
    · rename_i mid hmid
      obtain ⟨hinv', hfinal, hroutes⟩ := routeLine_ok hL hown (hsub (List.mem_cons_self ..)) hinv hmid
      obtain ⟨hinv'', hfinal', hroutes'⟩ := ih (fun r hr => hsub (List.mem_cons_of_mem _ hr)) hinv' h
      refine ⟨hinv'', ?_, ?_⟩
      · rw [hfinal', hfinal, lastFinal_cons]
      · rw [hroutes', hroutes, List.append_assoc, List.filterMap_cons]
        cases H.lineRoute E m L raw with
        | none => rfl
        | some entry => rfl

theorem singboxCond_ruleSetTag {all : List Text} {cfg : SingboxConfig} (hinv : H.SetsInv L all cfg)
    (src : Text) :
    singboxCond cfg.ruleSets (.ruleSet (H.ruleSetTag src)) = .ruleSet (H.ruleSetTag src) := by
  unfold singboxCond
  split
  · rename_i heq
    cases heq
  · rename_i tag heq
    obtain rfl := Cond.ruleSet.inj heq
    split
    · rename_i kind name hlookup
      exact absurd rfl (ruleSetTag_ne_geoTag H (hinv.geo _ kind name hlookup) src)
    · rfl

/-- **`Agrees`** — what a request meets of the rule sets that come from lists. -/
def Host.Agrees (H : Host) (L : Lists) (lines : List Text) (I : Cond → Bool) : Prop :=
  ∀ raw ∈ lines, ∀ src path text, H.setValue raw = some src → H.isRemoteSrs src = false →
    H.listUse L src = .ok (.list path text) →
      I (.ruleSet (H.ruleSetTag src)) = (H.parseRuleList text).matches I

/-- The entry of a `RULE-SET` line decides as the entries of its list do. -/
theorem decision_inlineSet {lines : List Text} {I : Cond → Bool} (hI : H.Agrees L lines I)
    {raw src : Text} (hraw : raw ∈ lines) (hsrc : H.setValue raw = some src) (target d : Target) :
    decision I d (if H.takes L src then [⟨some (.ruleSet (H.ruleSetTag src)), target⟩] else []) =
      decision I d (H.inlineSet L src target) := by
  unfold Host.inlineSet
  cases hremote : H.isRemoteSrs src with
  | true =>
    have htakes : H.takes L src = true := by rw [Host.takes, hremote, Bool.true_or]
    rw [if_pos htakes, if_pos rfl]
  | false =>
    rw [if_neg Bool.false_ne_true, Host.takes, hremote, Bool.false_or]
    cases huse : H.listUse L src with
    | error e => rfl
    | ok use =>
      cases use with
      | skipped => rfl
      | binary path => rfl
      | list path text =>
        have halternatives := decision_alternatives I d
          ((H.listEntries text).map fun e => Cond.plain e.1 e.2) target
        rw [List.map_map, List.any_map] at halternatives
        refine Eq.trans ?_ halternatives.symm
        show decision I d [⟨some (.ruleSet (H.ruleSetTag src)), target⟩] = _
        rw [decision_cons, decision_nil]
        show (if I (.ruleSet (H.ruleSetTag src)) = true then target else d) = _
        rw [hI raw hraw src path text hsrc hremote huse, parseRuleList_matches]
        rfl

theorem decision_lineRoute {lines : List Text} {I : Cond → Bool} (hI : H.Agrees L lines I)
    {all : List Text} {cfg : SingboxConfig} (hinv : H.SetsInv L all cfg) {raw : Text}
    (hraw : raw ∈ lines) (d : Target) :
    decision I d ((H.lineRoute E m L raw).map (Entry.mapCond (singboxCond cfg.ruleSets))).toList =
      decision I d (H.inlineLine E m L cfg.ruleSets raw) := by
  cases hline : H.parseLine raw with
  | blank => simp [Host.lineRoute, Host.inlineLine, hline]
  | final policy => simp [Host.lineRoute, Host.inlineLine, hline]
  | short line => simp [Host.lineRoute, Host.inlineLine, hline]
  | rule head value policy =>
    cases htype : singboxType (H.ruleType head) with
    | none => simp [Host.lineRoute, Host.inlineLine, hline, htype]
    | some type =>
      cases type with
      | plain kind =>
        simp only [Host.lineRoute, Host.inlineLine, hline, htype]
        rfl
      | ruleSet =>
        have hsrc : H.setValue raw = some value := by simp [Host.setValue, hline, htype]
        have hset := decision_inlineSet hI hraw hsrc (H.ensuredTarget E m policy) d
        simp only [Host.lineRoute, Host.inlineLine, hline, htype]
        rw [← hset]
        split
        · rw [Option.map_some, Option.toList_some, Entry.mapCond, Option.map_some,
            singboxCond_ruleSetTag hinv]
        · rfl

/-- **`lists_inline`** — a request is routed as if every `RULE-SET` line with a list were replaced by the
entries of the list, in its place and with its policy. -/
theorem lists_inline (hL : H.Has L) {text : Text} {cfg : SingboxConfig}
    (hown : H.OwnTags (pyLines text)) (h : H.singboxConfig E m text = .ok cfg) {I : Cond → Bool}
    (hI : H.Agrees L (pyLines text) I) :
    cfg.decision I = Logic.decision I (H.lastFinal E m (pyLines text) .direct)
      ((pyLines text).flatMap (H.inlineLine E m L cfg.ruleSets)) := by
  have hstart : H.SetsInv L (pyLines text) ⟨[], [], [], .direct⟩ := by
    constructor
    · intro tag kind name hlookup
      cases hlookup
    · intro raw _ src _ hsome
      cases hsome
  obtain ⟨hinv, hfinal, hroutes⟩ := routeLines_entries hL hown (List.Subset.refl _) hstart h
  rw [SingboxConfig.decision, hfinal, hroutes, List.nil_append, List.map_filterMap,
    List.filterMap_eq_flatMap_toList]
  exact decision_flatMap_congr I _ fun raw hraw => decision_lineRoute hI hinv hraw

end Run

/-! ## A list on the web -/

def webList : Lists where
  cached := fun _ => none
  fetch := fun src => if src = lit "http://l/a" then some (lit "+.b.org # ours\nDOMAIN,a.com\n") else none
  file := fun _ => none
  compiles := fun _ => false

def webHost : Host :=
  { plainHost with localRuleSet := fun src => (plainHost.listUse webList src).map ListUse.path }

def webRules : Text := lit "RULE-SET,http://l/a,us\nFINAL,direct\n"

/-- A request for `b.org`. -/
def toB (c : Cond) : Bool :=
  c ∈ [Cond.plain .domainSuffix (lit "b.org"), .ruleSet (lit "rs_http://l")]

theorem lists_inline_web : ∃ cfg, webHost.singboxConfig usJson [] webRules = .ok cfg ∧
    cfg.decision toB = decision toB .direct
      [⟨some (.plain .domainSuffix (lit "b.org")), .exit (lit "us")⟩,
        ⟨some (.plain .domain (lit "a.com")), .exit (lit "us")⟩] := by
  have hL : webHost.Has webList := fun src => rfl
  have hcfg : webHost.singboxConfig usJson [] webRules =
      .ok ⟨[lit "us"], [(lit "rs_http://l", .file (cachePath (lit "rs_http://l") (lit ".json")))],
        [toRuleSet (lit "rs_http://l") (.exit (lit "us"))], .direct⟩ := by rfl
  have hvalues : (pyLines webRules).map webHost.setValue =
      [some (lit "http://l/a"), none, none] := by decide
  have hvalue : ∀ raw ∈ pyLines webRules, ∀ src, webHost.setValue raw = some src →
      src = lit "http://l/a" := by
    intro raw hraw src hsrc
    have hmem := List.mem_map_of_mem (f := webHost.setValue) hraw
    rw [hvalues, hsrc] at hmem
    simpa using hmem
  have hown : webHost.OwnTags (pyLines webRules) := by
    intro raw hraw raw' hraw' src src' hsrc hsrc' _
    rw [hvalue raw hraw src hsrc, hvalue raw' hraw' src' hsrc']
  have hagrees : webHost.Agrees webList (pyLines webRules) toB := by
    intro raw hraw src path text hsrc _ huse
    obtain rfl := hvalue raw hraw src hsrc
    have hlist : webHost.listUse webList (lit "http://l/a") =
        .ok (.list (cachePath (lit "rs_http://l") (lit ".json"))
          (lit "+.b.org # ours\nDOMAIN,a.com\n")) := by rfl
    obtain ⟨-, rfl⟩ := ListUse.list.inj (Except.ok.inj (hlist.symm.trans huse))
    decide
  refine ⟨_, hcfg, (lists_inline hL hown hcfg hagrees).trans ?_⟩
  rfl

end ProxyGateway.Smart
