/-
# ProxyGateway.Smart.Names — names in the generated configuration

A rule names its target, a proxy bears the name of its exit, and mihomo joins the two by that name.
The generator finds an exit twice, each time by its own lookup: `canonical_exit_name` takes the
first file of the directory listing that agrees up to case, `load_exit_proxy` asks for the exact file
first, and once for every extension.  Nothing makes the two agree, neither the exact name first nor
one extension for all, and the name of the proxy group is not kept from the exits.

`nameConsistent_iff` says when an accepted rules file comes out with consistent names all the same.
Agreement of all targets with exactly one proxy each already forces every lookup to end at the name
it started from: otherwise the lookups would permute the names, and a lookup never leads from one
name to another and back.
-/
import Mathlib.Algebra.Order.BigOperators.Group.List
import Mathlib.Algebra.Order.Group.Nat
import Mathlib.Data.List.Perm.Subperm
import ProxyGateway.Smart.Lifecycle

namespace ProxyGateway.Smart

open ProxyGateway.Lang ProxyGateway.Logic

/-! ## Maps that meet every member once -/

theorem map_perm_of_count {α : Type*} [BEq α] [LawfulBEq α] {f : α → α} {l : List α}
    (hnodup : l.Nodup) (h : ∀ a ∈ l, (l.map f).count a = 1) : (l.map f).Perm l := by
  have hsub : l ⊆ l.map f := fun a ha => List.count_pos_iff.mp (by rw [h a ha]; exact Nat.one_pos)
  exact ((hnodup.subperm hsub).perm_of_length_le (by simp)).symm

/-- What no member loses, a permutation of the members keeps. -/
theorem rank_eq_of_perm {α : Type*} {f : α → α} {rank : α → Nat} {l : List α}
    (hperm : (l.map f).Perm l) (hle : ∀ a ∈ l, rank a ≤ rank (f a)) :
    ∀ a ∈ l, rank a = rank (f a) := by
  have hsum : (l.map fun a => rank (f a)).sum = (l.map rank).sum := by
    have hmap := (hperm.map rank).sum_eq
    rwa [List.map_map] at hmap
  intro a ha
  by_contra hne
  have hlt : rank a < rank (f a) := lt_of_le_of_ne (hle a ha) hne
  have hstrict := List.sum_lt_sum (l := l) rank (fun a => rank (f a)) hle ⟨a, ha, hlt⟩
  exact absurd hsum (Nat.ne_of_gt hstrict)

/-! ## Lookups -/

/-- **`Host.LowersNames`** — what is assumed of `str.lower`.  It takes the letters one by one, but
for the capital sigma, which becomes `ς` at the end of a word and `σ` in front of an extension; so a
stem has the lower case that its file was found by, or one `ς` more.  Nothing but dots turns into
dots. -/
structure Host.LowersNames (H : Host) : Prop where
  stem : ∀ file name, ∀ ext ∈ [yamlExt, jsonExt], H.lower file = H.lower name ++ ext →
    H.lower (file.take (file.length - 5)) = H.lower name ∨
      (H.lower name).count 'ς' < (H.lower (file.take (file.length - 5))).count 'ς'
  dots : ∀ name other, (∀ c ∈ name, c = '.') → H.lower other = H.lower name → other = name

section Lookups

variable (H : Host) (E : Exits)

/-- The name under which the legacy JSON file or the WireGuard configuration is loaded. -/
def Exits.jsonName (name : Text) : Text :=
  match E.findFile H name jsonExt with
  | some (_, k) => k
  | none => name

/-- **`lookupName`** — the spelling at which the lookups of `load_exit_proxy` end. -/
def Exits.lookupName (name : Text) : Text :=
  match E.findFile H name yamlExt with
  | some (f, k) => if f.loads = .proxy then k else E.jsonName H k
  | none => E.jsonName H name

variable {H E}

theorem loadJson_name {name proxy : Text} (h : E.loadJson H name = .ok (some proxy)) :
    proxy = E.jsonName H name := by
  unfold Exits.loadJson at h
  unfold Exits.jsonName jsonExt
  cases hfind : E.findFile H name (lit ".json") with
  | some fk =>
    obtain ⟨f, k⟩ := fk
    rw [hfind] at h
    cases hloads : f.loads <;> simp_all
  | none =>
    rw [hfind] at h
    exact (Exits.loadWg_eq_some h).1

/-- A proxy bears the spelling at which the lookups end. -/
theorem loadExitProxy_name {name proxy : Text} (h : E.loadExitProxy H name = .ok (some proxy)) :
    proxy = E.lookupName H name := by
  unfold Exits.loadExitProxy at h
  unfold Exits.lookupName yamlExt
  cases hfind : E.findFile H name (lit ".yaml") with
  | some fk =>
    obtain ⟨f, k⟩ := fk
    rw [hfind] at h
    cases hloads : f.loads with
    | proxy => simp_all
    | nothing =>
      simp only [hloads, reduceCtorEq, if_false] at h ⊢
      exact loadJson_name h
    | fails => simp_all
  | none =>
    rw [hfind] at h
    exact loadJson_name h

theorem loadProxies_eq_map {names proxies : List Text} (h : H.loadProxies E names = .ok proxies) :
    proxies = names.map (E.lookupName H) := by
  induction names generalizing proxies with
  | nil =>
    cases h
    rfl
  | cons name names ih =>
    simp only [Host.loadProxies] at h
    split at h
    · cases h
    · cases h
    · next proxy hproxy =>
      split at h
      · cases h
      · next rest hrest =>
        cases h
        rw [List.map_cons, ← loadExitProxy_name hproxy, ← ih hrest]

/-! ## Lookups do not go back -/

/-- How many `ς` a name has in lower case. -/
def Host.sigmas (H : Host) (name : Text) : Nat := (H.lower name).count 'ς'

/-- `k` is a spelling of `name`, or has more `ς`. -/
def Host.Leads (H : Host) (name k : Text) : Prop :=
  H.lower k = H.lower name ∨ H.sigmas name < H.sigmas k

theorem Host.Leads.trans {a b c : Text} (hab : H.Leads a b) (hbc : H.Leads b c) : H.Leads a c := by
  unfold Host.Leads Host.sigmas at *
  rcases hab with hab | hab
  · rwa [hab] at hbc
  · rcases hbc with hbc | hbc
    · exact .inr (by rwa [hbc])
    · exact .inr (by omega)

theorem Host.Leads.le {a b : Text} (h : H.Leads a b) : H.sigmas a ≤ H.sigmas b := by
  rcases h with h | h
  · unfold Host.sigmas
    rw [h]
  · exact h.le

theorem leads_findFile (hlower : H.LowersNames) {name ext k : Text} {f : ExitFile}
    (hext : ext ∈ [yamlExt, jsonExt]) (h : E.findFile H name ext = some (f, k)) :
    H.Leads name k := by
  obtain ⟨-, ⟨-, rfl⟩ | ⟨hname, rfl⟩⟩ := Exits.findFile_mem h
  · exact .inl rfl
  · exact hlower.stem f.name name ext hext hname

theorem leads_jsonName (hlower : H.LowersNames) (name : Text) :
    H.Leads name (E.jsonName H name) := by
  unfold Exits.jsonName
  split
  · next hfind => exact leads_findFile hlower (by simp) hfind
  · exact .inl rfl

theorem leads_lookupName (hlower : H.LowersNames) (name : Text) :
    H.Leads name (E.lookupName H name) := by
  unfold Exits.lookupName
  split
  · next hfind =>
    have hyaml := leads_findFile hlower (by simp) hfind
    split
    · exact hyaml
    · exact hyaml.trans (leads_jsonName hlower _)
  · exact leads_jsonName hlower name

/-! ## Names that are spelled by no file -/

/-- Every name a rule leads to is spelled by the first file that spells it, or by none. -/
theorem canonical_settled (t : Text) :
    (∃ f, E.files.find? (H.spells · (E.canonicalExitName H t)) = some f ∧
        (splitext f.name).1 = E.canonicalExitName H t) ∨
      ∀ f ∈ E.files, H.spells f (E.canonicalExitName H t) = false := by
  cases hfind : E.files.find? (H.spells · t) with
  | some f =>
    have hcan : E.canonicalExitName H t = (splitext f.name).1 := by
      simp only [Exits.canonicalExitName, hfind]
    have hlower : H.lower (splitext f.name).1 = H.lower t :=
      Exits.lower_of_spells (by simpa using List.find?_some hfind)
    have hsame : (H.spells · (splitext f.name).1) = (H.spells · t) := by
      funext g
      rw [Host.spells, Host.spells, hlower]
    exact .inl ⟨f, by rw [hcan, hsame, hfind], hcan.symm⟩
  | none =>
    have hcan : E.canonicalExitName H t = t := by
      simp only [Exits.canonicalExitName, hfind]
    right
    intro f hf
    rw [hcan]
    simpa using List.find?_eq_none.mp hfind f hf

/-- Spellings of one name that rules lead to, if they differ, are spelled by no file. -/
theorem unspelled_of_ne {t u : Text}
    (hlower : H.lower (E.canonicalExitName H t) = H.lower (E.canonicalExitName H u))
    (hne : E.canonicalExitName H t ≠ E.canonicalExitName H u) :
    ∀ f ∈ E.files, H.spells f (E.canonicalExitName H t) = false := by
  have hsame : (H.spells · (E.canonicalExitName H t)) = (H.spells · (E.canonicalExitName H u)) := by
    funext g
    rw [Host.spells, Host.spells, hlower]
  rcases canonical_settled (H := H) (E := E) t with ⟨f, hfind, hstem⟩ | hnone
  · rcases canonical_settled (H := H) (E := E) u with ⟨g, hfind', hstem'⟩ | hnone'
    · rw [hsame, hfind'] at hfind
      rw [← hstem, ← hstem', Option.some.inj hfind] at hne
      exact absurd rfl hne
    · intro f hf
      rw [congrFun hsame f]
      exact hnone' f hf
  · exact hnone

/-- Without a file of its own, a name is looked up by its lower case only. -/
theorem findFile_congr {a b ext : Text} (hlower : H.lower a = H.lower b)
    (ha : E.hasFile (a ++ ext) = false) (hb : E.hasFile (b ++ ext) = false) :
    E.findFile H a ext = E.findFile H b ext := by
  have hnone : ∀ n, E.hasFile (n ++ ext) = false → E.files.find? (·.name = n ++ ext) = none := by
    intro n hn
    rw [List.find?_eq_none]
    intro f hf hname
    have hfile : E.hasFile (n ++ ext) = true :=
      Exits.hasFile_iff.mpr ⟨f, hf, by simpa using hname⟩
    rw [hn] at hfile
    nomatch hfile
  unfold Exits.findFile
  rw [hnone a ha, hnone b hb, hlower]

theorem hasFile_of_unspelled {n ext : Text} (hunspelled : ∀ f ∈ E.files, H.spells f n = false)
    (hdots : ∃ c ∈ n, c ≠ '.') (hext : ext ∈ [yamlExt, jsonExt]) :
    E.hasFile (n ++ ext) = false := by
  rw [Bool.eq_false_iff]
  intro hfile
  obtain ⟨f, hf, hname⟩ := Exits.hasFile_iff.mp hfile
  have hsplit : splitext (n ++ ext) = (n, ext) := by
    simp only [List.mem_cons, List.not_mem_nil, or_false] at hext
    rcases hext with rfl | rfl
    · exact splitext_append_of_any (e := lit "yaml") hdots (by decide)
    · exact splitext_append_of_any (e := lit "json") hdots (by decide)
  have hspells : H.spells f n = true := by
    rw [Host.spells, hname, hsplit]
    simp only [List.mem_cons, List.not_mem_nil, or_false] at hext
    rcases hext with rfl | rfl <;> simp [yamlExt, jsonExt]
  rw [hunspelled f hf] at hspells
  cases hspells

/-- The lookups of two spellings that no file spells end at the same place, if they leave them. -/
theorem lookupName_congr {a b : Text} (hlower : H.lower a = H.lower b)
    (ha : ∀ ext ∈ [yamlExt, jsonExt], E.hasFile (a ++ ext) = false)
    (hb : ∀ ext ∈ [yamlExt, jsonExt], E.hasFile (b ++ ext) = false) :
    E.lookupName H a = E.lookupName H b ∨ E.lookupName H a = a := by
  have hyaml := findFile_congr hlower (ha yamlExt (by simp)) (hb yamlExt (by simp))
  have hjson := findFile_congr hlower (ha jsonExt (by simp)) (hb jsonExt (by simp))
  unfold Exits.lookupName
  rw [← hyaml]
  cases E.findFile H a yamlExt with
  | some fk => exact .inl rfl
  | none =>
    show E.jsonName H a = E.jsonName H b ∨ E.jsonName H a = a
    unfold Exits.jsonName
    rw [← hjson]
    cases E.findFile H a jsonExt with
    | some fk => exact .inl rfl
    | none => exact .inr rfl

/-- **`lookup_fixed_of_perm`** — lookups that permute the names the rules lead to leave each of them
where it is. -/
theorem lookup_fixed_of_perm (hlower : H.LowersNames) {names : List Text} (hnodup : names.Nodup)
    (hcanonical : ∀ n ∈ names, ∃ t, E.canonicalExitName H t = n)
    (hperm : (names.map (E.lookupName H)).Perm names) :
    ∀ n ∈ names, E.lookupName H n = n := by
  have hinj : ∀ a ∈ names, ∀ b ∈ names, E.lookupName H a = E.lookupName H b → a = b := by
    intro a ha b hb heq
    exact List.inj_on_of_nodup_map (hperm.nodup_iff.mpr hnodup) ha hb heq
  have hrank := rank_eq_of_perm hperm fun n _ => (leads_lookupName (E := E) hlower n).le
  intro n hn
  by_contra hne
  have hk : E.lookupName H n ∈ names := hperm.mem_iff.mp (List.mem_map_of_mem hn)
  have hsame : H.lower (E.lookupName H n) = H.lower n := by
    rcases leads_lookupName (E := E) hlower n with hsame | hmore
    · exact hsame
    · exact absurd (hrank n hn) (Nat.ne_of_lt hmore)
  have hnotDots : ∀ a b, a ≠ b → H.lower b = H.lower a → ∃ c ∈ a, c ≠ '.' := by
    intro a b hab hba
    by_contra hdots
    push Not at hdots
    exact hab (hlower.dots a b hdots hba).symm
  obtain ⟨t, ht⟩ := hcanonical n hn
  obtain ⟨u, hu⟩ := hcanonical _ hk
  have hunspelled := unspelled_of_ne (H := H) (E := E) (t := t) (u := u)
    (by rw [ht, hu, hsame]) (by rw [ht, hu]; exact fun heq => hne heq.symm)
  have hunspelled' := unspelled_of_ne (H := H) (E := E) (t := u) (u := t)
    (by rw [ht, hu, hsame]) (by rw [ht, hu]; exact hne)
  rw [ht] at hunspelled
  rw [hu] at hunspelled'
  rcases lookupName_congr (E := E) hsame.symm
    (fun ext hext => hasFile_of_unspelled hunspelled
      (hnotDots n _ (fun heq => hne heq.symm) hsame) hext)
    (fun ext hext => hasFile_of_unspelled hunspelled' (hnotDots _ n hne hsame.symm) hext)
    with heq | heq
  · exact hne (hinj n hn _ hk heq).symm
  · exact hne heq

end Lookups

/-! ## Consistent names -/

/-- The names of `proxy_groups`. -/
def proxyGroups : List Text := [lit "proxy"]

/-- A file of an exit is called `t`. -/
def Exits.Names (E : Exits) (t : Text) : Prop :=
  (∃ ext ∈ [yamlExt, jsonExt, typeExt], E.hasFile (t ++ ext) = true) ∨ E.hasWg t = true

section Consistency

variable (H : Host) (E : Exits) (m : PolicyMap) (text : Text)

/-- **`NameConsistent`** — a target is the name of exactly one proxy, a name that an exit has exactly
leads to that exit and loads it, and the names of proxies and groups are distinct. -/
structure NameConsistent (cfg : MihomoConfig) : Prop where
  targets : ∀ entry ∈ cfg.rules, ∀ n, entry.target = .exit n → cfg.proxies.count n = 1
  named : ∀ raw ∈ pyLines text, ∀ policy, H.linePolicy raw = some policy →
    ∀ t, H.wants m policy = some t → E.Names t →
      H.resolveTarget E m policy = .exit t ∧ E.loadExitProxy H t = .ok (some t)
  distinct : (cfg.proxies ++ proxyGroups).Nodup

/-- **`NamesSettled`** — of the names that the lines ask for: where an exit has one exactly, no
spelling other than it is listed first; the lookups for the spelling that each gets end at that
spelling; and none of these spellings is that of the group. -/
structure NamesSettled : Prop where
  unshadowed : ∀ t ∈ H.wanted m text, E.Names t →
    ∀ f, E.files.find? (H.spells · t) = some f → (splitext f.name).1 = t
  settled : ∀ t ∈ H.wanted m text,
    E.lookupName H (E.canonicalExitName H t) = E.canonicalExitName H t
  ungrouped : ∀ t ∈ H.wanted m text, E.canonicalExitName H t ∉ proxyGroups

variable {H E m text} {cfg : MihomoConfig}

theorem mem_wanted {t : Text} : t ∈ H.wanted m text ↔
    ∃ raw ∈ pyLines text, ∃ policy, H.linePolicy raw = some policy ∧ H.wants m policy = some t := by
  simp only [Host.wanted, List.mem_filterMap, Option.bind_eq_some_iff]

theorem mem_usedExits_iff (h : H.mihomoConfig E m text = .ok cfg) {n : Text} :
    n ∈ usedExits cfg.rules ↔ ∃ t ∈ H.wanted m text, E.canonicalExitName H t = n := by
  rw [mem_usedExits, mihomoConfig_rules h]
  exact Host.leadsTo_iff

theorem canonical_of_unshadowed {t : Text}
    (h : ∀ f, E.files.find? (H.spells · t) = some f → (splitext f.name).1 = t) :
    E.canonicalExitName H t = t := by
  unfold Exits.canonicalExitName
  split
  · next f hfind => exact h f hfind
  · rfl

/-- Agreement of the targets with one proxy each settles the names. -/
theorem NameConsistent.settled (hlower : H.LowersNames) (h : H.mihomoConfig E m text = .ok cfg)
    (hc : NameConsistent H E m text cfg) : NamesSettled H E m text := by
  have hproxies := loadProxies_eq_map (mihomoConfig_ok h).1
  have hnodup : (usedExits cfg.rules).Nodup := List.nodup_dedup _
  have hcount : ∀ n ∈ usedExits cfg.rules,
      ((usedExits cfg.rules).map (E.lookupName H)).count n = 1 := by
    intro n hn
    obtain ⟨entry, hentry, htarget⟩ := mem_usedExits.mp hn
    rw [← hproxies]
    exact hc.targets entry hentry n htarget
  have hcanonical : ∀ n ∈ usedExits cfg.rules, ∃ t, E.canonicalExitName H t = n := by
    intro n hn
    obtain ⟨t, -, ht⟩ := (mem_usedExits_iff h).mp hn
    exact ⟨t, ht⟩
  have hfixed := lookup_fixed_of_perm hlower hnodup hcanonical (map_perm_of_count hnodup hcount)
  have hused : ∀ t ∈ H.wanted m text, E.canonicalExitName H t ∈ usedExits cfg.rules :=
    fun t ht => (mem_usedExits_iff h).mpr ⟨t, ht, rfl⟩
  refine ⟨?_, fun t ht => hfixed _ (hused t ht), ?_⟩
  · intro t ht hnames f hfind
    obtain ⟨raw, hraw, policy, hpolicy, hwants⟩ := mem_wanted.mp ht
    have hresolve := (hc.named raw hraw policy hpolicy t hwants hnames).1
    obtain ⟨t', ht', hcan⟩ := resolveTarget_eq_exit_iff.mp hresolve
    obtain rfl : t' = t := Option.some.inj (ht'.symm.trans hwants)
    simpa only [Exits.canonicalExitName, hfind] using hcan
  · intro t ht hgroup
    have hproxy : E.canonicalExitName H t ∈ cfg.proxies := by
      rw [hproxies]
      exact List.mem_map.mpr ⟨_, hused t ht, hfixed _ (hused t ht)⟩
    exact (List.nodup_append.mp hc.distinct).2.2 _ hproxy _ hgroup rfl

/-- Settled names come out as they were asked for, once each. -/
theorem NamesSettled.consistent (h : H.mihomoConfig E m text = .ok cfg)
    (hs : NamesSettled H E m text) : NameConsistent H E m text cfg := by
  have hload := (mihomoConfig_ok h).1
  have hnodup : (usedExits cfg.rules).Nodup := List.nodup_dedup _
  have hfixed : ∀ n ∈ usedExits cfg.rules, E.lookupName H n = n := by
    intro n hn
    obtain ⟨t, ht, rfl⟩ := (mem_usedExits_iff h).mp hn
    exact hs.settled t ht
  have hnames : cfg.proxies = usedExits cfg.rules := by
    rw [loadProxies_eq_map hload]
    exact (List.map_congr_left hfixed).trans (List.map_id _)
  refine ⟨?_, ?_, ?_⟩
  · intro entry hentry n htarget
    rw [hnames]
    exact List.count_eq_one_of_mem hnodup (mem_usedExits.mpr ⟨entry, hentry, htarget⟩)
  · intro raw hraw policy hpolicy t hwants hexists
    have ht : t ∈ H.wanted m text := mem_wanted.mpr ⟨raw, hraw, policy, hpolicy, hwants⟩
    have hcan := canonical_of_unshadowed (hs.unshadowed t ht hexists)
    have hused : t ∈ usedExits cfg.rules := (mem_usedExits_iff h).mpr ⟨t, ht, hcan⟩
    obtain ⟨proxy, hproxy⟩ := loadProxies_ok hload t hused
    have hname : proxy = t := (loadExitProxy_name hproxy).trans (hfixed t hused)
    exact ⟨resolveTarget_eq_exit_iff.mpr ⟨t, hwants, hcan⟩, hname ▸ hproxy⟩
  · rw [hnames]
    refine List.nodup_append.mpr ⟨hnodup, List.nodup_singleton _, ?_⟩
    rintro n hn g hg rfl
    obtain ⟨t, ht, rfl⟩ := (mem_usedExits_iff h).mp hn
    exact hs.ungrouped t ht hg

/-- **`nameConsistent_iff`** — an accepted rules file gets consistent names exactly when its names
are settled. -/
theorem nameConsistent_iff (hlower : H.LowersNames) (h : H.mihomoConfig E m text = .ok cfg) :
    NameConsistent H E m text cfg ↔ NamesSettled H E m text := by
  constructor
  · intro hc
    exact hc.settled hlower h
  · intro hs
    exact hs.consistent h

end Consistency

/-! ## Two spellings of one name -/

theorem plainHost_lowersNames : plainHost.LowersNames where
  stem file name ext hext h := by
    left
    have hlen : ext.length = 5 := length_ext (by grind)
    have hmap : file.map Char.toLower = name.map Char.toLower ++ ext := h
    have hfile : file.length - 5 = (name.map Char.toLower).length := by
      have hlength := congrArg List.length hmap
      rw [List.length_append, List.length_map, hlen] at hlength
      omega
    show (file.take (file.length - 5)).map Char.toLower = name.map Char.toLower
    rw [List.map_take, hmap, hfile, List.take_left]
  dots name other hdots h := by
    have hname : name.map Char.toLower = name :=
      (List.map_congr_left fun c hc => by rw [hdots c hc]; rfl).trans (List.map_id _)
    have hmap : other.map Char.toLower = name := hname ▸ h
    rw [← hmap]
    refine ((List.map_congr_left fun c hc => ?_).trans (List.map_id _)).symm
    have hdot : c.toLower = '.' := hdots _ (hmap ▸ List.mem_map_of_mem hc)
    rcases toLower_eq_self_or c with hsame | ⟨hlow, hhigh⟩
    · exact hsame
    · have hletters : ∀ n < 91, 65 ≤ n → (Char.ofNat n).toLower ≠ '.' := by decide
      rw [← Char.ofNat_toNat c] at hdot
      exact absurd hdot (hletters c.toNat (by omega) hlow)

/-- A file of the exits directory that loads. -/
def yamlFile (name : Text) : ExitFile := ⟨name ++ yamlExt, .proxy, false⟩

/-- `hk.yaml` and `HK.yaml`, listed in this order. -/
def twoSpellings : Exits := ⟨[yamlFile (lit "hk"), yamlFile (lit "HK")], []⟩

theorem nameConsistent_twoSpellings :
    plainHost.mihomoConfig twoSpellings [] (lit "DOMAIN,x.com,hk") =
        .ok ⟨[⟨some (.plain .domain (lit "x.com")), .exit (lit "hk")⟩], [], [lit "hk"]⟩ ∧
      (NameConsistent plainHost twoSpellings [] (lit "DOMAIN,x.com,hk")
          ⟨[⟨some (.plain .domain (lit "x.com")), .exit (lit "hk")⟩], [], [lit "hk"]⟩ ↔
        NamesSettled plainHost twoSpellings [] (lit "DOMAIN,x.com,hk")) := by
  have hconfig : plainHost.mihomoConfig twoSpellings [] (lit "DOMAIN,x.com,hk") =
    .ok ⟨[⟨some (.plain .domain (lit "x.com")), .exit (lit "hk")⟩], [], [lit "hk"]⟩ := by rfl
  exact ⟨hconfig, nameConsistent_iff plainHost_lowersNames hconfig⟩

/-- A rule for `HK` leads to `hk`, which is listed first. -/
theorem exact_name_is_shadowed :
    ¬ ∀ (H : Host) (E : Exits) (m : PolicyMap) (text : Text) (cfg : MihomoConfig),
      H.LowersNames → H.mihomoConfig E m text = .ok cfg → NameConsistent H E m text cfg := by
  intro hclaim
  have hconfig : plainHost.mihomoConfig twoSpellings [] (lit "DOMAIN,x.com,HK") =
    .ok ⟨[⟨some (.plain .domain (lit "x.com")), .exit (lit "hk")⟩], [], [lit "hk"]⟩ := by rfl
  have hexact := (hclaim _ _ _ _ _ plainHost_lowersNames hconfig).named (lit "DOMAIN,x.com,HK")
    (by decide) (lit "HK") (by rfl) (lit "HK") (by rfl) (.inl ⟨yamlExt, by simp, by rfl⟩)
  exact absurd hexact.1 (by decide)

end ProxyGateway.Smart
