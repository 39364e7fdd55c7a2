/-
# ProxyGateway.Smart.RuleSets — whose rule set a sing-box rule tests

A `GEOSITE` or `GEOIP` rule tests a rule set by its tag, and the tag is the value without everything
that is not `a`-`z` or `0`-`9`.  `add_remote_srs` registers a tag once; a later value with the same tag
gets the URL of the earlier one.  So `geolocation-cn` and `geolocation-!cn`, which mean the opposite of
each other, are one rule set, and the first line of the file says which.

`lookup_routeLines` says what a tag stands for after a whole run, `RULE-SET` lines included;
`ownSets_iff` draws the conclusion.
-/
import ProxyGateway.Smart.Agreement

namespace ProxyGateway.Smart

open ProxyGateway.Lang ProxyGateway.Logic

/-! ## Entries and their URLs -/

/-- `GEOSITE_SRS % name` and `GEOIP_SRS % name` -/
def geoUrl (kind : Kind) (name : Text) : Option Text :=
  match kind with
  | .geosite => some
      (lit "https://raw.githubusercontent.com/SagerNet/sing-geosite/rule-set/geosite-" ++
        (name ++ lit ".srs"))
  | .geoip => some
      (lit "https://raw.githubusercontent.com/SagerNet/sing-geoip/rule-set/geoip-" ++
        (name ++ lit ".srs"))
  | _ => none

/-- The key `url` of an entry of `rule_set`; local files have none. -/
def Source.url : Source → Option Text
  | .geo kind name => geoUrl kind name
  | .remote url => some url
  | .file _ => none

theorem geoUrl_injective {kind : Kind} (h : kind.isGeo = true) {n n' : Text}
    (hurl : geoUrl kind n = geoUrl kind n') : n = n' := by
  cases kind <;> simp only [Kind.isGeo, Bool.false_eq_true] at h <;>
    exact List.append_cancel_right (List.append_cancel_left (Option.some.inj hurl))

theorem exists_geoTag {kind : Kind} (h : kind.isGeo = true) (name : Text) :
    ∃ tag, geoTag kind name = some tag := by
  cases kind <;> first | exact ⟨_, rfl⟩ | nomatch h

/-- The tag keeps the two kinds apart. -/
theorem geoTag_inj {kind kind' : Kind} {name name' tag : Text} (h : geoTag kind name = some tag)
    (h' : geoTag kind' name' = some tag) : kind = kind' ∧ tagChars name = tagChars name' := by
  have heq := h.trans h'.symm
  cases kind <;> cases kind' <;> simp [geoTag, lit] at h h' heq ⊢ <;> exact heq

/-- No `RULE-SET` line has the tag of a category. -/
theorem ruleSetTag_ne_geoTag (H : Host) {kind : Kind} {name tag : Text}
    (h : geoTag kind name = some tag) (value : Text) : H.ruleSetTag value ≠ tag := by
  rintro rfl
  cases kind <;> simp [geoTag, Host.ruleSetTag, lit] at h

/-! ## What the loop registers -/

section Run

variable {H : Host} {E : Exits} {m : PolicyMap}

/-- A `GEOSITE` or `GEOIP` line: the kind, the value in lower case and the policy. -/
def Host.geoRule (H : Host) (raw : Text) : Option (Kind × Text × Text) :=
  match H.plainRule raw with
  | some (kind, value, policy) => if kind.isGeo then some (kind, H.lower value, policy) else none
  | none => none

/-- The source that a line registers for `tag`, if it asks for one. -/
def Host.registers (H : Host) (tag raw : Text) : Option Source :=
  match H.geoRule raw with
  | some (kind, name, _) => if geoTag kind name = some tag then some (.geo kind name) else none
  | none => none

/-- A rule set of another tag, and a route that was there, stay as they are. -/
theorem handleRuleset_keeps {src : Text} {target : Target} {cfg cfg' : SingboxConfig}
    (h : H.handleRuleset src target cfg = .ok cfg') :
    (∀ tag, H.ruleSetTag src ≠ tag → cfg'.ruleSets.lookup tag = cfg.ruleSets.lookup tag) ∧
      cfg.routes ⊆ cfg'.routes := by
  have hother : ∀ tag source, H.ruleSetTag src ≠ tag →
      (addRuleSet (H.ruleSetTag src) source cfg.ruleSets).lookup tag = cfg.ruleSets.lookup tag := by
    intro tag source hne
    rw [lookup_addRuleSet, if_neg hne, Option.or_none]
  have happend : ∀ r, cfg.routes ⊆ cfg.routes ++ [r] := fun r => List.subset_append_left _ _
  unfold Host.handleRuleset at h
  simp only at h
  split at h
  · cases h
    exact ⟨fun tag hne => hother tag _ hne, happend _⟩
  split at h
  · cases h
    exact ⟨fun _ _ => rfl, happend _⟩
  split at h
  · nomatch h
  · cases h
    exact ⟨fun _ _ => rfl, List.Subset.refl _⟩
  · cases h
    exact ⟨fun tag hne => hother tag _ hne, happend _⟩

/-- **`Registered`** — what an accepted line does to the rule set of a category, and to the routes. -/
structure Host.Registered (H : Host) (E : Exits) (m : PolicyMap) (raw : Text)
    (cfg cfg' : SingboxConfig) : Prop where
  sets : ∀ kind name tag, geoTag kind name = some tag →
    cfg'.ruleSets.lookup tag = (cfg.ruleSets.lookup tag).or (H.registers tag raw)
  routes : cfg.routes ⊆ cfg'.routes
  rule : ∀ kind name policy, H.geoRule raw = some (kind, name, policy) →
    ∃ tag, geoTag kind name = some tag ∧
      ⟨some (.ruleSet tag), H.ensuredTarget E m policy⟩ ∈ cfg'.routes

section Line

variable {ln : Nat} {raw : Text} {cfg cfg' : SingboxConfig}

/-- A line of another type has to leave the categories alone. -/
theorem registered_of_other (hrule : H.geoRule raw = none)
    (hsets : ∀ kind name tag, geoTag kind name = some tag →
      cfg'.ruleSets.lookup tag = cfg.ruleSets.lookup tag) (hroutes : cfg.routes ⊆ cfg'.routes) :
    H.Registered E m raw cfg cfg' where
  sets kind name tag htag := by
    have hreg : H.registers tag raw = none := by simp [Host.registers, hrule]
    rw [hreg, Option.or_none, hsets kind name tag htag]
  routes := hroutes
  rule kind name policy hsome := by
    rw [hrule] at hsome
    nomatch hsome

/-- A `RULE-SET` line has a tag of its own, and is no category. -/
theorem registered_ruleSet (hset : H.isRuleSet raw = true)
    (h : H.routeLine E m ln raw cfg = .ok cfg') : H.Registered E m raw cfg cfg' := by
  obtain ⟨head, value, policy, hline, htype⟩ : ∃ head value policy,
      H.parseLine raw = .rule head value policy ∧
        singboxType (H.ruleType head) = some .ruleSet := by
    unfold Host.isRuleSet at hset
    split at hset
    · next head value policy hline => exact ⟨head, value, policy, hline, of_decide_eq_true hset⟩
    · cases hset
  have hrule : H.geoRule raw = none := by simp [Host.geoRule, Host.plainRule, hline, htype]
  simp only [Host.routeLine, hline, htype] at h
  split at h
  · cases h
  · obtain ⟨hsets, hroutes⟩ := handleRuleset_keeps h
    refine registered_of_other hrule (fun kind name tag htag => ?_) hroutes
    exact hsets tag (ruleSetTag_ne_geoTag H htag value)

theorem registered_plain {kind : Kind} {value policy : Text}
    (hplain : H.plainRule raw = some (kind, value, policy))
    (hsame : SameRoutes cfg' (H.addRoute kind value (H.ensuredTarget E m policy) cfg)) :
    H.Registered E m raw cfg cfg' := by
  cases hgeo : kind.isGeo with
  | false =>
    have hrule : H.geoRule raw = none := by simp [Host.geoRule, hplain, hgeo]
    have hnotag : geoTag kind (H.lower value) = none := by
      cases kind <;> first | rfl | nomatch hgeo
    simp only [Host.addRoute, hnotag] at hsame
    refine registered_of_other hrule (fun _ _ _ _ => by rw [hsame.ruleSets_eq]) ?_
    rw [hsame.routes_eq]
    exact List.subset_append_left _ _
  | true =>
    have hrule : H.geoRule raw = some (kind, H.lower value, policy) := by
      simp [Host.geoRule, hplain, hgeo]
    obtain ⟨tag, htag⟩ := exists_geoTag hgeo (H.lower value)
    simp only [Host.addRoute, htag] at hsame
    refine ⟨fun _ _ tag' _ => ?_, ?_, fun kind' name' policy' hsome => ?_⟩
    · rw [hsame.ruleSets_eq, lookup_addRuleSet]
      simp only [Host.registers, hrule, htag, Option.some.injEq]
    · rw [hsame.routes_eq]
      exact List.subset_append_left _ _
    · rw [hrule] at hsome
      obtain ⟨rfl, hrest⟩ := Prod.mk.inj (Option.some.inj hsome)
      obtain ⟨rfl, rfl⟩ := Prod.mk.inj hrest
      refine ⟨tag, htag, ?_⟩
      rw [hsame.routes_eq]
      exact List.mem_append_right _ (List.mem_singleton.mpr rfl)

/-- **`routeLine_registers`** -/
theorem routeLine_registers (h : H.routeLine E m ln raw cfg = .ok cfg') :
    H.Registered E m raw cfg cfg' := by
  cases hset : H.isRuleSet raw with
  | true => exact registered_ruleSet hset h
  | false =>
    rcases routeLine_cases hset h with
      ⟨hline, rfl⟩ | ⟨policy, hline, hsame, -⟩ | ⟨head, value, policy, kind, hline, hkind, -, hsame⟩
    · have hrule : H.geoRule raw = none := by simp [Host.geoRule, Host.plainRule, hline]
      exact registered_of_other hrule (fun _ _ _ _ => rfl) (List.Subset.refl _)
    · have hrule : H.geoRule raw = none := by simp [Host.geoRule, Host.plainRule, hline]
      refine registered_of_other hrule (fun _ _ _ _ => by rw [hsame.ruleSets_eq]) ?_
      rw [hsame.routes_eq]
      exact List.Subset.refl _
    · refine registered_plain ?_ hsame
      simp [Host.plainRule, hline, hkind]

end Line

/-- **`lookup_routeLines`** — after a whole run the tag of a category stands for the first line that asks
for it, unless it stood for something before; and every such line has its rule among the routes. -/
theorem lookup_routeLines {ln : Nat} {lines : List Text} {cfg cfg' : SingboxConfig}
    (h : H.routeLines E m ln lines cfg = .ok cfg') :
    (∀ kind name tag, geoTag kind name = some tag → cfg'.ruleSets.lookup tag =
      (cfg.ruleSets.lookup tag).or (lines.findSome? (H.registers tag))) ∧
    cfg.routes ⊆ cfg'.routes ∧
    ∀ raw ∈ lines, ∀ kind name policy, H.geoRule raw = some (kind, name, policy) →
      ∃ tag, geoTag kind name = some tag ∧
        ⟨some (.ruleSet tag), H.ensuredTarget E m policy⟩ ∈ cfg'.routes := by
  induction lines generalizing ln cfg with
  | nil =>
    cases h
    exact ⟨fun _ _ _ _ => (Option.or_none ..).symm, List.Subset.refl _, List.forall_mem_nil _⟩
  | cons raw lines ih =>
    simp only [Host.routeLines] at h
    split at h
    · cases h
    · next mid hmid =>
      have hline := routeLine_registers hmid
      obtain ⟨hsets', hroutes', hrules⟩ := ih h
      refine ⟨fun kind name tag htag => ?_, List.Subset.trans hline.routes hroutes', fun r hr => ?_⟩
      · rw [hsets' kind name tag htag, hline.sets kind name tag htag, Option.or_assoc,
          List.findSome?_cons]
        cases H.registers tag raw <;> rfl
      · rcases List.mem_cons.mp hr with rfl | hr
        · intro kind name policy hgeo
          obtain ⟨tag, htag, hmem⟩ := hline.rule kind name policy hgeo
          exact ⟨tag, htag, hroutes' hmem⟩
        · exact hrules r hr

/-! ## The condition -/

/-- **`OwnSets`** — the rule of every `GEOSITE` and `GEOIP` line tests a rule set that has the URL of its
own value. -/
def Host.OwnSets (H : Host) (E : Exits) (m : PolicyMap) (text : Text) (cfg : SingboxConfig) : Prop :=
  ∀ raw ∈ pyLines text, ∀ kind name policy, H.geoRule raw = some (kind, name, policy) →
    ∃ tag source, geoTag kind name = some tag ∧
      ⟨some (.ruleSet tag), H.ensuredTarget E m policy⟩ ∈ cfg.routes ∧
      cfg.ruleSets.lookup tag = some source ∧ source.url = geoUrl kind name

/-- **`Distinguishable text`** — no two lines of one kind have values that differ in lower case, but no
longer when only `a`-`z` and `0`-`9` are kept. -/
def Host.Distinguishable (H : Host) (text : Text) : Prop :=
  ∀ raw ∈ pyLines text, ∀ raw' ∈ pyLines text, ∀ kind name name' policy policy',
    H.geoRule raw = some (kind, name, policy) → H.geoRule raw' = some (kind, name', policy') →
    tagChars name = tagChars name' → name = name'

theorem isGeo_of_geoRule {raw : Text} {kind : Kind} {name policy : Text}
    (h : H.geoRule raw = some (kind, name, policy)) : kind.isGeo = true := by
  unfold Host.geoRule at h
  split at h
  · split at h
    · next hgeo =>
      obtain ⟨rfl, -⟩ := Prod.mk.inj (Option.some.inj h)
      exact hgeo
    · nomatch h
  · nomatch h

theorem registers_eq_some {tag raw : Text} {source : Source} (h : H.registers tag raw = some source) :
    ∃ kind name policy, H.geoRule raw = some (kind, name, policy) ∧ geoTag kind name = some tag ∧
      source = .geo kind name := by
  unfold Host.registers at h
  split at h
  · next kind name policy hgeo =>
    split at h
    · next htag => exact ⟨kind, name, policy, hgeo, htag, (Option.some.inj h).symm⟩
    · nomatch h
  · nomatch h

theorem geoTag_of_tagChars {kind : Kind} {name name' tag : Text} (h : geoTag kind name = some tag)
    (heq : tagChars name = tagChars name') : geoTag kind name' = some tag := by
  rw [← h]
  cases kind <;> simp [geoTag, heq]

/-- **`ownSets_iff`** — in an accepted file every category rule tests its own rule set exactly when the
tags tell the values of the file apart. -/
theorem ownSets_iff {text : Text} {cfg : SingboxConfig}
    (h : H.singboxConfig E m text = .ok cfg) : H.OwnSets E m text cfg ↔ H.Distinguishable text := by
  obtain ⟨hsets, -, hroutes⟩ := lookup_routeLines h
  -- the first line with the tag of a given line
  have hfirst : ∀ raw ∈ pyLines text, ∀ kind name policy tag,
      H.geoRule raw = some (kind, name, policy) → geoTag kind name = some tag →
      ∃ raw₁ ∈ pyLines text, ∃ name₁ policy₁, H.geoRule raw₁ = some (kind, name₁, policy₁) ∧
        tagChars name₁ = tagChars name ∧ cfg.ruleSets.lookup tag = some (.geo kind name₁) := by
    intro raw hraw kind name policy tag hgeo htag
    have hlookup : cfg.ruleSets.lookup tag = (pyLines text).findSome? (H.registers tag) :=
      hsets kind name tag htag
    have hself : H.registers tag raw = some (.geo kind name) := by
      simp [Host.registers, hgeo, htag]
    obtain ⟨source, hsource⟩ : ∃ source,
        (pyLines text).findSome? (H.registers tag) = some source := by
      refine Option.ne_none_iff_exists'.mp fun hnone => ?_
      rw [List.findSome?_eq_none_iff.mp hnone raw hraw] at hself
      nomatch hself
    obtain ⟨raw₁, hraw₁, hreg⟩ := List.exists_of_findSome?_eq_some hsource
    obtain ⟨kind₁, name₁, policy₁, hgeo₁, htag₁, rfl⟩ := registers_eq_some hreg
    obtain ⟨rfl, hchars⟩ := geoTag_inj htag₁ htag
    exact ⟨raw₁, hraw₁, name₁, policy₁, hgeo₁, hchars, hlookup.trans hsource⟩
  constructor
  · -- two lines with one tag both have the URL of the entry
    intro hown raw hraw raw' hraw' kind name name' policy policy' hgeo hgeo' hchars
    obtain ⟨tag, source, htag, -, hlookup, hurl⟩ := hown raw hraw kind name policy hgeo
    obtain ⟨tag', source', htag', -, hlookup', hurl'⟩ := hown raw' hraw' kind name' policy' hgeo'
    obtain rfl : tag = tag' := Option.some.inj ((geoTag_of_tagChars htag hchars).symm.trans htag')
    obtain rfl : source = source' := Option.some.inj (hlookup.symm.trans hlookup')
    exact geoUrl_injective (isGeo_of_geoRule hgeo) (hurl.symm.trans hurl')
  · intro hdist raw hraw kind name policy hgeo
    obtain ⟨tag, htag, hroute⟩ := hroutes raw hraw kind name policy hgeo
    obtain ⟨raw₁, hraw₁, name₁, policy₁, hgeo₁, hchars, hlookup⟩ :=
      hfirst raw hraw kind name policy tag hgeo htag
    obtain rfl := hdist raw₁ hraw₁ raw hraw kind name₁ name policy₁ policy hgeo₁ hgeo hchars
    exact ⟨tag, .geo kind name₁, htag, hroute, hlookup, rfl⟩

end Run

/-! ## Two files -/

/-- The target of a route that tests a rule set. -/
def toRuleSet (tag : Text) (target : Target) : Entry Cond Target := ⟨some (.ruleSet tag), target⟩

/-- One name in both kinds. -/
theorem ownSets_cn :
    ∃ cfg, plainHost.singboxConfig usJson [] (lit "GEOSITE,cn,direct\nGEOIP,CN,us\n") = .ok cfg ∧
      plainHost.OwnSets usJson [] (lit "GEOSITE,cn,direct\nGEOIP,CN,us\n") cfg := by
  have hs : plainHost.singboxConfig usJson [] (lit "GEOSITE,cn,direct\nGEOIP,CN,us\n") =
      .ok ⟨[lit "us"], [(lit "geosite_cn", .geo .geosite (lit "cn")),
        (lit "geoip_cn", .geo .geoip (lit "cn"))],
        [toRuleSet (lit "geosite_cn") .direct, toRuleSet (lit "geoip_cn") (.exit (lit "us"))],
        .direct⟩ := by rfl
  refine ⟨_, hs, (ownSets_iff hs).mpr ?_⟩
  have hrules : (pyLines (lit "GEOSITE,cn,direct\nGEOIP,CN,us\n")).map plainHost.geoRule =
      [some (.geosite, lit "cn", lit "direct"), some (.geoip, lit "cn", lit "us"), none] := by decide
  have hname : ∀ raw ∈ pyLines (lit "GEOSITE,cn,direct\nGEOIP,CN,us\n"), ∀ kind name policy,
      plainHost.geoRule raw = some (kind, name, policy) → name = lit "cn" := by
    intro raw hraw kind name policy hgeo
    have hmem := List.mem_map_of_mem (f := plainHost.geoRule) hraw
    rw [hrules, hgeo] at hmem
    simp only [List.mem_cons, Option.some.injEq, Prod.mk.injEq, reduceCtorEq, List.not_mem_nil,
      or_false] at hmem
    rcases hmem with ⟨-, rfl, -⟩ | ⟨-, rfl, -⟩ <;> rfl
  intro raw hraw raw' hraw' kind name name' policy policy' hgeo hgeo' _
  rw [hname raw hraw kind name policy hgeo, hname raw' hraw' kind name' policy' hgeo']

/-- `geolocation-!cn` is read from the list of `geolocation-cn`. -/
theorem ruleSet_shared :
    ¬ ∀ (H : Host) (E : Exits) (m : PolicyMap) (text : Text) (cfg : SingboxConfig),
      H.singboxConfig E m text = .ok cfg → H.OwnSets E m text cfg := by
  intro hclaim
  have hs : plainHost.singboxConfig usJson []
      (lit "GEOSITE,geolocation-cn,direct\nGEOSITE,geolocation-!cn,us\n") =
      .ok ⟨[lit "us"], [(lit "geosite_geolocationcn", .geo .geosite (lit "geolocation-cn"))],
        [toRuleSet (lit "geosite_geolocationcn") .direct,
          toRuleSet (lit "geosite_geolocationcn") (.exit (lit "us"))], .direct⟩ := by rfl
  have hline : lit "GEOSITE,geolocation-!cn,us" ∈
      pyLines (lit "GEOSITE,geolocation-cn,direct\nGEOSITE,geolocation-!cn,us\n") := by decide
  obtain ⟨tag, source, htag, -, hlookup, hurl⟩ := hclaim plainHost usJson [] _ _ hs _ hline
    .geosite (lit "geolocation-!cn") (lit "us") (by decide)
  obtain rfl : lit "geosite_geolocationcn" = tag := by
    have hshared : geoTag .geosite (lit "geolocation-!cn") = some (lit "geosite_geolocationcn") := by
      decide
    exact Option.some.inj (hshared.symm.trans htag)
  obtain rfl : Source.geo .geosite (lit "geolocation-cn") = source := by
    have hfound : List.lookup (lit "geosite_geolocationcn")
        [(lit "geosite_geolocationcn", Source.geo .geosite (lit "geolocation-cn"))] =
        some (.geo .geosite (lit "geolocation-cn")) := by decide
    exact Option.some.inj (hfound.symm.trans hlookup)
  have hgeo : Kind.isGeo .geosite = true := rfl
  have hsame : lit "geolocation-cn" = lit "geolocation-!cn" := geoUrl_injective hgeo hurl
  exact absurd hsame (by decide)

end ProxyGateway.Smart
