/-
# ProxyGateway.Smart.AddRule — does an added rule take effect?

`op_add_rule` appends its line to `rules.conf`.  The generator keeps the order of the file and emits
`FINAL` in place, as a `MATCH` that matches every request, so a line behind a `FINAL` is dead.  The
rules of the new configuration are those of the earlier lines followed by the entry of the new one
(`opAddRule_rules`), and the decision list says the rest (`addRule_takesEffect_iff`).
-/
import ProxyGateway.Smart.Edits
import ProxyGateway.Smart.Mihomo

namespace ProxyGateway.Smart

open ProxyGateway.Lang ProxyGateway.Logic

section Lines

variable (H : Host)

/-- What a rule line matches on; a `FINAL` line has no condition. -/
def Host.lineCond (raw : Text) : Option Cond :=
  match H.parseLine raw with
  | .rule head value _ => H.cond? head value
  | _ => none

variable {H} {E : Exits} {m : PolicyMap}

/-- The entries without a condition come from the `FINAL` lines. -/
theorem exists_catchAll_iff (lines : List Text) :
    (∃ e ∈ lines.filterMap (H.entry? E m), e.cond = none) ↔ ∃ raw ∈ lines, H.isFinal raw = true := by
  have hline : ∀ raw, (∃ e, H.entry? E m raw = some e ∧ e.cond = none) ↔ H.isFinal raw = true := by
    intro raw
    unfold Host.entry? Host.isFinal
    cases H.parseLine raw <;> simp
  simp only [List.mem_filterMap]
  constructor
  · rintro ⟨e, ⟨raw, hraw, he⟩, hcond⟩
    exact ⟨raw, hraw, (hline raw).mp ⟨e, he, hcond⟩⟩
  · rintro ⟨raw, hraw, hfinal⟩
    obtain ⟨e, he, hcond⟩ := (hline raw).mpr hfinal
    exact ⟨e, ⟨raw, hraw, he⟩, hcond⟩

theorem entry?_cond_iff {raw : Text} {k : Cond} :
    (∃ e, H.entry? E m raw = some e ∧ e.cond = some k) ↔ H.lineCond raw = some k := by
  unfold Host.entry? Host.lineCond
  cases H.parseLine raw <;> simp

theorem exists_cond_iff {lines : List Text} {k : Cond} :
    (∃ e ∈ lines.filterMap (H.entry? E m), e.cond = some k) ↔
      ∃ raw ∈ lines, H.lineCond raw = some k := by
  simp only [List.mem_filterMap]
  constructor
  · rintro ⟨e, ⟨raw, hraw, he⟩, hcond⟩
    exact ⟨raw, hraw, entry?_cond_iff.mp ⟨e, he, hcond⟩⟩
  · rintro ⟨raw, hraw, hk⟩
    obtain ⟨e, he, hcond⟩ := entry?_cond_iff.mpr hk
    exact ⟨e, ⟨raw, hraw, he⟩, hcond⟩

end Lines

section AddRule

variable {H : Host} {E : Exits} {m : PolicyMap} {defaults : DefaultRules}

/-- The lines that stand before an added one: the built-in rules, then `rules.conf` as the bot read
it. -/
def earlierLines (defaults : DefaultRules) (file : Text) : List Text :=
  pyLines defaults.text ++ pyLines (readFile file)

/-- The text that `op_add_rule` sends reads as the earlier lines and the new one. -/
theorem opAddRule_lines {β : Type*} {p : Text → Option β} (hp : p [] = none) {line file text : Text}
    (hline : SingleLine (strip line)) (hadd : opAddRule line (readFile file) = some text) :
    (pyLines (defaults.effective text)).filterMap p =
      (earlierLines defaults file).filterMap p ++ (p (strip line)).toList := by
  have hsingle : (pyLines (strip line ++ ['\n'])).filterMap p = (p (strip line)).toList := by
    rw [filterMap_pyLines_append hp, filterMap_pyLines_nil hp, List.append_nil,
      pyLines_of_singleLine hline]
    cases hv : p (strip line) <;> simp [hv]
  rw [DefaultRules.effective, filterMap_pyLines_terminated hp defaults.terminated, earlierLines,
    List.filterMap_append, List.append_assoc]
  congr 1
  rw [opAddRule_eq_some hadd]
  by_cases hblank : strip (readFile file) = []
  · have hempty : readFile file = [] := by rwa [readFile, strip_strip] at hblank
    rw [if_neg (not_not_intro hblank), hsingle, hempty, filterMap_pyLines_nil hp, List.nil_append]
  · rw [if_pos hblank, rstripNewlines_readFile, filterMap_pyLines_append hp, hsingle]

/-- The rules of the new configuration: those of the earlier lines, then the new entry. -/
theorem opAddRule_rules {line file text : Text} {new : Entry Cond Target} {cfg : MihomoConfig}
    (hline : SingleLine (strip line)) (hnew : H.entry? E m (strip line) = some new)
    (hadd : opAddRule line (readFile file) = some text)
    (hcfg : H.mihomoConfig E m (defaults.effective text) = .ok cfg) :
    cfg.rules = (earlierLines defaults file).filterMap (H.entry? E m) ++ [new] := by
  rw [mihomoConfig_rules hcfg, opAddRule_lines (entry?_nil H E m) hline hadd, hnew]
  rfl

/-- **`addRule_takesEffect_iff`** — an added rule takes effect exactly when no `FINAL` line stands
before it, or when it is no `FINAL` itself and an earlier line already matches on the same condition
(so that it decides nothing). -/
theorem addRule_takesEffect_iff {line file text : Text} {new : Entry Cond Target}
    {cfg : MihomoConfig} (hline : SingleLine (strip line))
    (hnew : H.entry? E m (strip line) = some new)
    (hadd : opAddRule line (readFile file) = some text)
    (hcfg : H.mihomoConfig E m (defaults.effective text) = .ok cfg) :
    (∃ earlier, cfg.rules = earlier ++ [new] ∧ TakesEffect earlier new) ↔
      (∀ raw ∈ earlierLines defaults file, H.isFinal raw = false) ∨
        ∃ k, H.lineCond (strip line) = some k ∧
          ∃ raw ∈ earlierLines defaults file, H.lineCond raw = some k := by
  have hrules := opAddRule_rules hline hnew hadd hcfg
  have hcond : ∀ k, new.cond = some k ↔ H.lineCond (strip line) = some k := fun k => by
    rw [← entry?_cond_iff (E := E) (m := m), hnew]
    simp
  have hcut : (∃ earlier, cfg.rules = earlier ++ [new] ∧ TakesEffect earlier new) ↔
      TakesEffect ((earlierLines defaults file).filterMap (H.entry? E m)) new := by
    rw [hrules]
    constructor
    · rintro ⟨earlier, heq, heff⟩
      rwa [List.append_cancel_right heq]
    · exact fun heff => ⟨_, rfl, heff⟩
  rw [hcut, takesEffect_iff]
  refine or_congr ?_ (exists_congr fun k => and_congr (hcond k) exists_cond_iff)
  have hall := not_congr
    (exists_catchAll_iff (H := H) (E := E) (m := m) (earlierLines defaults file))
  simpa only [not_exists, not_and, Bool.not_eq_true] using hall

end AddRule

/-! ## A rule after `FINAL` -/

/-- The one exit `us`. -/
def usExit : Exits := ⟨[⟨lit "us.yaml", .proxy, false⟩, ⟨lit "us.type", .fails, false⟩], []⟩

theorem addRule_before_final :
    ∃ text cfg, opAddRule (lit "DOMAIN,x.com,us") (readFile (lit "DOMAIN,y.com,direct\n")) = some text ∧
      plainHost.mihomoConfig usExit [] (noDefaults.effective text) = .ok cfg ∧
      ((∃ earlier, cfg.rules = earlier ++ [xToUs] ∧ TakesEffect earlier xToUs) ↔
        (∀ raw ∈ earlierLines noDefaults (lit "DOMAIN,y.com,direct\n"),
            plainHost.isFinal raw = false) ∨
          ∃ k, plainHost.lineCond (strip (lit "DOMAIN,x.com,us")) = some k ∧
            ∃ raw ∈ earlierLines noDefaults (lit "DOMAIN,y.com,direct\n"),
              plainHost.lineCond raw = some k) := by
  have hadd : opAddRule (lit "DOMAIN,x.com,us") (readFile (lit "DOMAIN,y.com,direct\n")) =
    some (lit "DOMAIN,y.com,direct\nDOMAIN,x.com,us\n") := by decide
  have hcfg : plainHost.mihomoConfig usExit []
      (noDefaults.effective (lit "DOMAIN,y.com,direct\nDOMAIN,x.com,us\n")) =
    .ok ⟨[⟨some (.plain .domain (lit "y.com")), .direct⟩, xToUs], [], [lit "us"]⟩ := by rfl
  exact ⟨_, _, hadd, hcfg,
    addRule_takesEffect_iff (by unfold SingleLine; decide) (by decide) hadd hcfg⟩

/-- Added to a file that ends in `FINAL`, a rule is never reached. -/
theorem addRule_behind_final :
    ¬ ∀ (H : Host) (E : Exits) (m : PolicyMap) (defaults : DefaultRules) (line file text : Text)
        (new : Entry Cond Target) (cfg : MihomoConfig),
      SingleLine (strip line) → H.entry? E m (strip line) = some new →
      opAddRule line (readFile file) = some text →
      H.mihomoConfig E m (defaults.effective text) = .ok cfg →
      ∃ earlier, cfg.rules = earlier ++ [new] ∧ TakesEffect earlier new := by
  intro hclaim
  have hcfg : plainHost.mihomoConfig usExit []
      (noDefaults.effective (lit "FINAL,direct\nDOMAIN,x.com,us\n")) =
    .ok ⟨[⟨none, .direct⟩, xToUs], [], [lit "us"]⟩ := by rfl
  obtain ⟨earlier, hrules, heff⟩ := hclaim plainHost usExit [] noDefaults (lit "DOMAIN,x.com,us")
    (lit "FINAL,direct\n") _ xToUs _ (by unfold SingleLine; decide) (by decide)
    (by decide) hcfg
  obtain rfl : [⟨none, .direct⟩] = earlier := List.append_cancel_right hrules
  have hfirst := heff (fun k => decide (some k = xToUs.cond)) (by decide)
    (by decide)
  exact absurd hfirst (by decide)

end ProxyGateway.Smart
