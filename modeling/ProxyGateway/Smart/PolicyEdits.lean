/-
# ProxyGateway.Smart.PolicyEdits — what `set_policy` and `del_policy` do to the other categories

Both commands take one category out of the policy map by a filter over its lines.  `set_policy` drops
every line that contains `<category>=` anywhere; `del_policy` drops the lines whose first field is the
category for `awk`.  The router reads the result with `load_policy_map`, where the last assignment of
a category counts.

`get_filter_eq_iff` says when a filter over lines spares a category, and is the one fact about both.
With it: when `set_policy` changes its own category only (`setPolicy_changes_one_iff`), and when the
rules of a deleted category fall back on the default target (`delPolicy_falls_back_iff`).
-/
import ProxyGateway.Smart.Rename
import ProxyGateway.Smart.SeedCoverage

namespace ProxyGateway.Smart

open ProxyGateway.Lang ProxyGateway.Logic

/-! ## A filter over the lines of a map -/

section Filter

variable {f : Text → PolicyMap} {key v : Text}

theorem PolicyMap.get_flatMap_eq_none_iff {lines : List Text} :
    PolicyMap.get (lines.flatMap f) key = none ↔ ∀ l ∈ lines, (f l).get key = none := by
  constructor
  · intro h l hl
    exact get_eq_none_of_flatMap h hl
  · intro h
    rw [PolicyMap.get_eq_none_iff]
    intro kv hkv
    obtain ⟨l, hl, hkv⟩ := List.mem_flatMap.mp hkv
    exact PolicyMap.get_eq_none_iff.mp (h l hl) kv hkv

/-- **`Spares f kept lines key`** — where the last line that assigns the key is dropped, the lines that
are kept before it assign the same value. -/
def Spares (f : Text → PolicyMap) (kept : Text → Bool) (lines : List Text) (key : Text) : Prop :=
  ∀ pre line post v, lines = pre ++ line :: post → kept line = false →
    (f line).get key = some v → (∀ l ∈ post, (f l).get key = none) →
      PolicyMap.get ((pre.filter kept).flatMap f) key = some v

/-- **The one fact about filters**: a key keeps its value exactly when the filter spares it. -/
theorem get_filter_eq_iff {kept : Text → Bool} {lines : List Text} :
    PolicyMap.get ((lines.filter kept).flatMap f) key = PolicyMap.get (lines.flatMap f) key ↔
      Spares f kept lines key := by
  -- the lines behind the last assignment say nothing, before the filter and after it
  have hsilent : ∀ {pre post : List Text} {line : Text}, (∀ l ∈ post, (f l).get key = none) →
      PolicyMap.get (((pre ++ line :: post).filter kept).flatMap f) key =
        PolicyMap.get (((pre ++ [line]).filter kept).flatMap f) key := by
    intro pre post line hpost
    have hnone : PolicyMap.get ((post.filter kept).flatMap f) key = none :=
      PolicyMap.get_flatMap_eq_none_iff.mpr fun l hl => hpost l (List.mem_filter.mp hl).1
    rw [← List.singleton_append, ← List.append_assoc, List.filter_append, List.flatMap_append,
      PolicyMap.get_append, hnone, Option.none_or]
  constructor
  · rintro heq pre line post v rfl hdropped hv hpost
    have hlast : PolicyMap.get ((pre ++ line :: post).flatMap f) key = some v :=
      PolicyMap.get_flatMap_eq_some_iff.mpr ⟨pre, line, post, rfl, hv, hpost⟩
    have hfilter : (pre ++ [line]).filter kept = pre.filter kept := by
      rw [List.filter_append, List.filter_cons_of_neg (by simp [hdropped]), List.filter_nil,
        List.append_nil]
    rw [hsilent hpost, hfilter, hlast] at heq
    exact heq
  · intro hspares
    cases hget : PolicyMap.get (lines.flatMap f) key with
    | none =>
      rw [PolicyMap.get_flatMap_eq_none_iff] at hget ⊢
      exact fun l hl => hget l (List.mem_filter.mp hl).1
    | some v =>
      obtain ⟨pre, line, post, rfl, hv, hpost⟩ := PolicyMap.get_flatMap_eq_some_iff.mp hget
      rw [hsilent hpost, List.filter_append]
      cases hkept : kept line with
      | true =>
        rw [List.filter_cons_of_pos hkept, List.filter_nil, List.flatMap_append,
          List.flatMap_singleton, PolicyMap.get_append, hv, Option.some_or]
      | false =>
        rw [List.filter_cons_of_neg (by simp [hkept]), List.filter_nil, List.append_nil]
        exact hspares pre line post v rfl hkept hv hpost

/-- A filter that drops no line of the key spares it. -/
theorem spares_of_dropped {kept : Text → Bool} {lines : List Text}
    (h : ∀ line ∈ lines, kept line = false → (f line).get key = none) :
    Spares f kept lines key := by
  rintro pre line post v rfl hdropped hv -
  rw [h line (List.mem_append_right _ List.mem_cons_self) hdropped] at hv
  nomatch hv

end Filter

/-! ## `set_policy` -/

/-- A text that `load_policy_map` can give back as a category. -/
structure Category (c : Text) : Prop extends PlainName c where
  nonempty : c ≠ []

/-- Every value is plain. -/
theorem plainValue_of_get {text key v : Text} (h : (loadPolicyMap text).get key = some v) :
    PlainValue v := by
  refine ⟨?_, strip_get h⟩
  obtain ⟨⟨k, w⟩, hfind, rfl⟩ := Option.map_eq_some_iff.mp h
  obtain ⟨raw, hraw, hentry⟩ := List.mem_filterMap.mp
    (List.mem_reverse.mp (List.mem_of_find?_eq_some hfind))
  unfold policyEntry at hentry
  simp only at hentry
  split at hentry
  · nomatch hentry
  · obtain ⟨-, rfl⟩ := Prod.mk.inj (Option.some.inj hentry)
    refine singleLine_of_subset (fun c hc => ?_) (singleLine_of_mem_pyLines hraw)
    have hafter : c ∈ after '=' (strip raw) := mem_of_mem_strip hc
    exact mem_of_mem_strip
      ((List.dropWhile_suffix _).subset ((List.drop_sublist 1 _).subset hafter))

/-- The line does not contain `<category>=`. -/
def keptBySet (cat line : Text) : Bool := !decide ((cat ++ ['=']) <:+: line)

theorem keptBySet_of_not_mem {cat line : Text} {c : Char} (hc : c ∈ cat) (hline : c ∉ line) :
    keptBySet cat line = true := by
  have hnot : ¬ (cat ++ ['=']) <:+: line := fun h =>
    hline (h.subset (List.mem_append_left _ hc))
  simp [keptBySet, hnot]

section SetPolicy

variable (Sh : Shell) (map cat target : Text)

/-- **`ChangesOne`** — read by the router, the map that `set_policy` writes has the category at the
target and every other category where it was. -/
def Shell.ChangesOne : Prop :=
  (loadPolicyMap (Sh.setPolicyText cat target map)).get cat = some target ∧
    ∀ c', Category c' → c' ≠ cat →
      (loadPolicyMap (Sh.setPolicyText cat target map)).get c' = (loadPolicyMap map).get c'

/-- **`GrepSpares`** — no last assignment of another category stands on a line with `<category>=` in
it, unless the lines that are kept before assign the same.  Where `grep` does not filter lines (its
pattern starts with a dash, or the map holds a zero byte) what it prints has to assign the same. -/
def Shell.GrepSpares : Prop :=
  ∀ c', Category c' → c' ≠ cat →
    if (cat ++ ['=']).head? = some '-' ∨ '\x00' ∈ map then
      (loadPolicyMap (Sh.grepOdd (cat ++ ['=']) map)).get c' = (loadPolicyMap map).get c'
    else Spares loadPolicyMap (keptBySet cat) (shLines map) c'

variable {Sh map cat target}

theorem terminated_fileOf (lines : List Text) : Terminated (fileOf lines) := by
  rcases List.eq_nil_or_concat lines with rfl | ⟨lines, line, rfl⟩
  · exact .inl rfl
  · refine .inr ⟨fileOf lines ++ line, ?_⟩
    simp [fileOf]

theorem terminated_grepVF (pattern file : Text) : Terminated (Sh.grepVF pattern file) := by
  unfold Shell.grepVF
  split
  · exact Sh.grepOdd_lines pattern file
  · exact terminated_fileOf _

/-- The new assignment comes after what `grep` leaves. -/
theorem loadPolicyMap_setPolicyText (hcat : PlainName cat) (htarget : PlainValue target) :
    loadPolicyMap (Sh.setPolicyText cat target map) =
      loadPolicyMap (Sh.grepVF (cat ++ ['=']) map) ++ [(cat, target)] := by
  have hnew : loadPolicyMap (fileOf [cat ++ '=' :: target]) = [(cat, target)] := by
    rw [loadPolicyMap_fileOf, List.flatMap_singleton, loadPolicyMap_assign hcat htarget]
  rw [← hnew]
  exact filterMap_pyLines_terminated policyEntry_nil (terminated_grepVF _ _) _

/-- What is left of another category. -/
theorem get_grepVF_iff (hcat : PlainName cat) (c' : Text) :
    (loadPolicyMap (Sh.grepVF (cat ++ ['=']) map)).get c' = (loadPolicyMap map).get c' ↔
      if (cat ++ ['=']).head? = some '-' ∨ '\x00' ∈ map then
        (loadPolicyMap (Sh.grepOdd (cat ++ ['=']) map)).get c' = (loadPolicyMap map).get c'
      else Spares loadPolicyMap (keptBySet cat) (shLines map) c' := by
  unfold Shell.grepVF
  split
  · rfl
  · have hpattern : (cat ++ ['=']).splitOn '\n' = [cat ++ ['=']] := by
      refine List.splitOn_eq_singleton fun hmem => ?_
      rcases List.mem_append.mp hmem with h | h
      · exact hcat.line.1 h
      · exact absurd h (by decide)
    have hkept : (fun line => !((cat ++ ['=']).splitOn '\n').any (· <:+: line)) = keptBySet cat := by
      funext line
      simp [hpattern, keptBySet]
    rw [hkept, loadPolicyMap_fileOf, ← get_filter_eq_iff, loadPolicyMap_shLines]

/-- **`set_policy` changes one mapping only**, exactly when the target is written plainly and `grep`
spares the other categories. -/
theorem setPolicy_changes_one_iff (Sh : Shell) {map cat target : Text} (hcat : Category cat) :
    Sh.ChangesOne map cat target ↔ PlainValue target ∧ Sh.GrepSpares map cat := by
  have hname := hcat.toPlainName
  -- behind the new assignment the other categories are what `grep` leaves of them
  have hothers : PlainValue target → ∀ c', c' ≠ cat →
      (loadPolicyMap (Sh.setPolicyText cat target map)).get c' =
        (loadPolicyMap (Sh.grepVF (cat ++ ['=']) map)).get c' := by
    intro htarget c' hne
    rw [loadPolicyMap_setPolicyText hname htarget, PolicyMap.get_append]
    have hnew : PolicyMap.get [(cat, target)] c' = none :=
      PolicyMap.get_eq_none_iff.mpr fun kv hkv => by
        rw [List.mem_singleton.mp hkv]
        exact hne.symm
    rw [hnew, Option.none_or]
  constructor
  · rintro ⟨hown, hrest⟩
    have htarget : PlainValue target := plainValue_of_get hown
    refine ⟨htarget, fun c' hc' hne => ?_⟩
    rw [← get_grepVF_iff hname, ← hothers htarget c' hne]
    exact hrest c' hc' hne
  · rintro ⟨htarget, hspares⟩
    constructor
    · rw [loadPolicyMap_setPolicyText hname htarget, PolicyMap.get_append]
      simp [PolicyMap.get]
    · intro c' hc' hne
      rw [hothers htarget c' hne, get_grepVF_iff hname]
      exact hspares c' hc' hne

end SetPolicy

/-- No category of this map ends like another. -/
def aiAndMedia : Text := lit "AI=us\nmedia=hk\n"

theorem setPolicy_changes_one_ai : plainShell.ChangesOne aiAndMedia (lit "AI") (lit "direct") := by
  have hcat : Category (lit "AI") :=
    ⟨⟨⟨by unfold SingleLine; decide, by decide⟩, by decide, by decide⟩, by decide⟩
  refine (setPolicy_changes_one_iff plainShell hcat).mpr
    ⟨⟨by unfold SingleLine; decide, by decide⟩, fun c' _ hne => ?_⟩
  rw [if_neg (by decide)]
  refine spares_of_dropped fun line hline hdropped => ?_
  have hlines : shLines aiAndMedia = [lit "AI=us", lit "media=hk"] := by decide
  rw [hlines] at hline
  rcases List.mem_pair.mp hline with rfl | rfl
  · have hread : loadPolicyMap (lit "AI=us") = [(lit "AI", lit "us")] := by decide
    rw [hread, PolicyMap.get_cons, if_neg hne.symm]
    rfl
  · have hkept : keptBySet (lit "AI") (lit "media=hk") = true :=
      keptBySet_of_not_mem (show 'A' ∈ lit "AI" by decide) (by decide)
    rw [hkept] at hdropped
    nomatch hdropped

/-- Mapping `media` anew takes `social-media` out of the map. -/
theorem setPolicy_drops_social_media :
    ¬ ∀ (Sh : Shell) (map cat target : Text), Category cat → PlainValue target →
      Sh.ChangesOne map cat target := by
  intro hclaim
  have hcat : ∀ c ∈ [lit "media", lit "social-media"], Category c := by
    intro c hc
    rcases List.mem_pair.mp hc with rfl | rfl
    · exact ⟨⟨⟨by unfold SingleLine; decide, by decide⟩, by decide, by decide⟩, by decide⟩
    · exact ⟨⟨⟨by unfold SingleLine; decide, by decide⟩, by decide, by decide⟩, by decide⟩
  have hdirect : PlainValue (lit "direct") := ⟨by unfold SingleLine; decide, by decide⟩
  obtain ⟨-, hrest⟩ := hclaim plainShell (lit "social-media=us\nmedia=hk\n") (lit "media")
    (lit "direct") (hcat _ (by decide)) hdirect
  have hkept := hrest (lit "social-media") (hcat _ (by decide)) (by decide)
  have hgrep : plainShell.grepVF (lit "media" ++ ['=']) (lit "social-media=us\nmedia=hk\n") = [] := by
    have hlines : shLines (lit "social-media=us\nmedia=hk\n") =
        [lit "social-media=us", lit "media=hk"] := by decide
    have hpattern : (lit "media" ++ ['=']).splitOn '\n' = [lit "media="] := by decide
    have hsocial : lit "media=" <:+: lit "social-media=us" := ⟨lit "social-", lit "us", rfl⟩
    have hmedia : lit "media=" <:+: lit "media=hk" := ⟨[], lit "hk", rfl⟩
    rw [Shell.grepVF, if_neg (by decide), hlines, hpattern]
    simp [hsocial, hmedia, fileOf]
  rw [loadPolicyMap_setPolicyText (hcat _ (by decide)).toPlainName hdirect, hgrep] at hkept
  exact absurd hkept (by decide)

/-! ## `del_policy` -/

section Generator

variable {H : Host} {E : Exits} {m m' : PolicyMap} {c : Text}

/-- The line is a rule whose policy is `c`, spelled out or by default. -/
def Host.HasPolicy (H : Host) (c raw : Text) : Prop :=
  ∃ p, H.linePolicy raw = some p ∧ strip p = c

instance (c raw : Text) : Decidable (H.HasPolicy c raw) :=
  match h : H.linePolicy raw with
  | none => isFalse fun ⟨_, hp, _⟩ => nomatch h.symm.trans hp
  | some p => decidable_of_iff (strip p = c)
      ⟨fun hc => ⟨p, h, hc⟩, fun ⟨_, hq, hc⟩ => Option.some.inj (h.symm.trans hq) ▸ hc⟩

/-- The entry of a line after its category is gone: a rule of `c` leads to the default target. -/
def Host.fallenBack (H : Host) (E : Exits) (m m' : PolicyMap) (c raw : Text) :
    Option (Entry Cond Target) :=
  (H.entry? E m raw).map fun entry =>
    if H.HasPolicy c raw then { entry with target := H.resolveTarget E m' H.defaultTarget }
    else entry

theorem emitLine_congr {raw : Text}
    (h : ∀ p, H.linePolicy raw = some p → H.resolveTarget E m' p = H.resolveTarget E m p)
    (ln : Nat) : H.emitLine E m' ln raw = H.emitLine E m ln raw :=
  emitLine_of_mapPolicy (RuleLine.mapPolicy_id _).symm (fun _ => rfl) h ln

/-- A rule leads to an exit that loads. -/
theorem loads_of_entry {text raw n : Text} {cfg : MihomoConfig} {entry : Entry Cond Target}
    (h : H.mihomoConfig E m text = .ok cfg) (hraw : raw ∈ pyLines text)
    (hentry : H.entry? E m raw = some entry) (htarget : entry.target = .exit n) :
    ∃ proxy, E.loadExitProxy H n = .ok (some proxy) := by
  obtain ⟨hproxies, hrules⟩ := mihomoConfig_ok h
  refine loadProxies_ok hproxies n (mem_usedExits.mpr ⟨entry, ?_, htarget⟩)
  rw [hrules]
  exact List.mem_filterMap.mpr ⟨raw, hraw, hentry⟩

end Generator

section DelPolicy

variable (S : Setup) (E : Exits) (map text c : Text)

/-- **`FallsBack`** — `del_policy` works: the category is gone from the map, the configuration builds
again, and its rules are those of before, with the default target where the policy is `c`. -/
def Setup.FallsBack : Prop :=
  (loadPolicyMap (S.delPolicyText c map)).get c = none ∧
    ∃ cfg', S.buildCandidate E (S.delPolicyText c map) text = some cfg' ∧
      cfg'.rules = (pyLines (S.defaults.effective text)).filterMap
        (S.host.fallenBack E (loadPolicyMap map) (loadPolicyMap (S.delPolicyText c map)) c)

/-- **`Unused`** — no rule has the policy `c`, every line of the map that assigns `c` is one that `awk`
takes for it, and without these lines every policy of a rule resolves as before. -/
structure Setup.Unused : Prop where
  rules : ∀ raw ∈ pyLines (S.defaults.effective text), ¬ S.host.HasPolicy c raw
  lines : ∀ line ∈ shLines map, (loadPolicyMap line).get c ≠ none →
    S.shell.awkEq (before '=' line) c = true
  others : ∀ raw ∈ pyLines (S.defaults.effective text), ∀ p, S.host.linePolicy raw = some p →
    S.host.resolveTarget E (loadPolicyMap (S.delPolicyText c map)) p =
      S.host.resolveTarget E (loadPolicyMap map) p

variable {S E map text c}

theorem buildCandidate_eq_some_iff {policy : Text} {cfg : MihomoConfig} :
    S.buildCandidate E policy text = some cfg ↔
      text ≠ [] ∧
        S.host.mihomoConfig E (loadPolicyMap policy) (S.defaults.effective text) = .ok cfg ∧
          S.mihomo.accepts cfg = true := by
  unfold Setup.buildCandidate
  by_cases htext : text = []
  · simp [htext]
  · rw [if_neg htext]
    cases hcfg : S.host.mihomoConfig E (loadPolicyMap policy) (S.defaults.effective text) with
    | error e => simp
    | ok cfg' =>
      by_cases hacc : S.mihomo.accepts cfg' = true
      · simp only [hacc, if_true, Option.some.injEq, Except.ok.injEq]
        constructor
        · rintro rfl
          exact ⟨htext, rfl, hacc⟩
        · exact fun h => h.2.1
      · simp only [hacc, Bool.false_eq_true, if_false, reduceCtorEq, Except.ok.injEq, false_iff]
        rintro ⟨-, rfl, h⟩
        exact hacc h

/-- The category is gone exactly when `awk` recognises every line that assigns it. -/
theorem get_delPolicyText_eq_none_iff :
    (loadPolicyMap (S.delPolicyText c map)).get c = none ↔
      ∀ line ∈ shLines map, (loadPolicyMap line).get c ≠ none →
        S.shell.awkEq (before '=' line) c = true := by
  rw [Setup.delPolicyText, loadPolicyMap_fileOf, PolicyMap.get_flatMap_eq_none_iff]
  constructor
  · intro h line hline hassigns
    by_contra hnot
    exact hassigns (h line (List.mem_filter.mpr ⟨hline, by simp [hnot]⟩))
  · intro h line hline
    obtain ⟨hmem, hkept⟩ := List.mem_filter.mp hline
    by_contra hassigns
    rw [h line hmem hassigns] at hkept
    nomatch hkept

end DelPolicy

/-- The map of one rule group. -/
def aiToUs : Text := lit "AI=us\n"

theorem loadPolicyMap_aiToUs : loadPolicyMap aiToUs = [(lit "AI", lit "us")] := by decide

theorem delPolicyText_aiToUs : plainSetup.delPolicyText (lit "AI") aiToUs = [] := by decide

theorem noExit_AI (proxy : Text) :
    hkAndUs.loadExitProxy plainHost (hkAndUs.canonicalExitName plainHost (lit "AI")) ≠
      .ok (some proxy) := by
  have hnone : hkAndUs.loadExitProxy plainHost (hkAndUs.canonicalExitName plainHost (lit "AI")) =
      .ok none := rfl
  rw [hnone]
  exact fun h => nomatch h

end ProxyGateway.Smart
