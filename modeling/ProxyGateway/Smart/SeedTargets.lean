/-
# ProxyGateway.Smart.SeedTargets — which targets `init_policy_map` writes

A category that the prior map does not know gets `block` or the first configured exit.  The exits are
listed from the exits directory, and from the first build of the router on its own exit `smart` is one
of the files there.  The bot refuses `smart` as the target of a rule; `init_policy_map` takes it for the
default like any other exit, where its name sorts before all others (`seeding_selects_smart`).

`ordinary_targets_iff` is the exact condition on the exits, the rules and the prior map: what the prior
map passes on must be a target, and where some category takes the default, the first line of the list
must not be `smart`.
-/
import ProxyGateway.Smart.Lifecycle
import ProxyGateway.Smart.SeedCoverage

namespace ProxyGateway.Smart

open ProxyGateway.Lang

/-! ## Targets -/

/-- **`Ordinary t`** — a target that does not lead back into the router: direct, block, or a configured
exit other than `smart`. -/
def Exits.Ordinary (E : Exits) (t : Text) : Prop :=
  t = lit "direct" ∨ t = lit "block" ∨ (E.exitExists t = true ∧ t ≠ smart)

instance (E : Exits) (t : Text) : Decidable (E.Ordinary t) :=
  inferInstanceAs (Decidable (_ ∨ _ ∨ (_ ∧ _)))

section Targets

variable (Sh : Shell) (E : Exits) (prior rules : Text)

/-- `init_policy_map` writes a line for the category. -/
def Shell.Seeds (cat : Text) : Prop := cat ∈ Sh.categories rules ∧ isSeeded cat = true

/-- **`Writes`** — the map has this target for the category. -/
def Shell.Writes (cat target : Text) : Prop :=
  Sh.Seeds rules cat ∧ Sh.seedTarget E prior cat = target

/-- A category that is new to the prior map and does not sound blocked. -/
def Shell.TakesDefault (cat : Text) : Prop :=
  Sh.Seeds rules cat ∧ Sh.existing prior cat = [] ∧ soundsBlocked cat = false

/-- **`PassesOn`** — the prior map has the target `t` for a category of the rules. -/
def Shell.PassesOn (t : Text) : Prop :=
  t ≠ [] ∧ ∃ cat, Sh.Seeds rules cat ∧ Sh.existing prior cat = t

/-- **`FirstIsOrdinary`** — the list of exits does not start with `smart`, or with half a name.  An empty
list, or an empty line, stands for `direct`. -/
def Shell.FirstIsOrdinary : Prop :=
  ∀ first, (Sh.listExitNames E).head? = some first → first ≠ [] → E.Ordinary first

variable {Sh E prior rules}

theorem ordinary_default_iff : E.Ordinary (Sh.defaultExit E) ↔ Sh.FirstIsOrdinary E := by
  unfold Shell.FirstIsOrdinary Shell.defaultExit
  cases hhead : (Sh.listExitNames E).head? with
  | none => simp [Exits.Ordinary]
  | some first =>
    by_cases hempty : first = []
    · simp [hempty, Exits.Ordinary]
    · simp [hempty]

variable (Sh E prior) in
/-- The three ways to a target. -/
theorem seedTarget_cases (cat : Text) :
    (Sh.existing prior cat ≠ [] ∧ Sh.seedTarget E prior cat = Sh.existing prior cat) ∨
      (Sh.existing prior cat = [] ∧ soundsBlocked cat = true ∧
        Sh.seedTarget E prior cat = lit "block") ∨
      (Sh.existing prior cat = [] ∧ soundsBlocked cat = false ∧
        Sh.seedTarget E prior cat = Sh.defaultExit E) := by
  unfold Shell.seedTarget
  by_cases hexisting : Sh.existing prior cat = []
  · cases hblocked : soundsBlocked cat with
    | true => simp [hexisting]
    | false => simp [hexisting]
  · simp [hexisting]

/-- The lines of the map are the lines of the targets. -/
theorem mem_seedLines_iff_writes {Sh : SortingShell} {line : Text} :
    line ∈ Sh.seedLines E prior rules ↔
      ∃ cat target, Sh.Writes E prior rules cat target ∧ line = cat ++ '=' :: target := by
  simp only [Shell.seedLines, Sh.mem_sortU, List.mem_map, List.mem_filter]
  constructor
  · rintro ⟨cat, hcat, rfl⟩
    exact ⟨cat, _, ⟨hcat, rfl⟩, rfl⟩
  · rintro ⟨cat, _, ⟨hcat, rfl⟩, rfl⟩
    exact ⟨cat, hcat, rfl⟩

/-- **`ordinary_targets_iff`** — every target in the map is direct, block or an exit other than `smart`
exactly where every target that the prior map passes on is, and, if a category takes the default, the
first line of the list of exits is. -/
theorem ordinary_targets_iff (Sh : Shell) (E : Exits) (prior rules : Text) :
    (∀ cat target, Sh.Writes E prior rules cat target → E.Ordinary target) ↔
      (∀ t, Sh.PassesOn prior rules t → E.Ordinary t) ∧
        ((∃ cat, Sh.TakesDefault prior rules cat) → Sh.FirstIsOrdinary E) := by
  constructor
  · intro hall
    constructor
    · rintro t ⟨hne, cat, hseeds, rfl⟩
      refine hall cat _ ⟨hseeds, ?_⟩
      rcases seedTarget_cases Sh E prior cat with
        ⟨-, heq⟩ | ⟨hnil, -⟩ | ⟨hnil, -⟩
      · exact heq
      · exact absurd hnil hne
      · exact absurd hnil hne
    · rintro ⟨cat, hseeds, hnew, hsound⟩
      refine ordinary_default_iff.mp (hall cat _ ⟨hseeds, ?_⟩)
      simp [Shell.seedTarget, hnew, hsound]
  · rintro ⟨hprior, hdefault⟩ cat target ⟨hseeds, rfl⟩
    rcases seedTarget_cases Sh E prior cat with
      ⟨hne, heq⟩ | ⟨-, -, heq⟩ | ⟨hnew, hsound, heq⟩
    · rw [heq]
      exact hprior _ ⟨hne, cat, hseeds, rfl⟩
    · rw [heq]
      exact .inr (.inl rfl)
    · rw [heq]
      exact ordinary_default_iff.mpr (hdefault ⟨cat, hseeds, hnew, hsound⟩)

end Targets

/-! ## The list of exits -/

section List

variable {Sh : Shell} {E : Exits}

theorem splitOn_terminated {names : List Text} (h : ∀ n ∈ names, '\n' ∉ n) :
    (names.flatMap (· ++ ['\n'])).splitOn '\n' = names ++ [[]] := by
  induction names with
  | nil => rfl
  | cons n names ih =>
    rw [List.flatMap_cons, List.append_assoc, List.singleton_append, List.splitOn_append_cons_self,
      List.splitOn_eq_singleton (h n (List.mem_cons_self ..)),
      ih fun m hm => h m (List.mem_cons_of_mem _ hm)]
    rfl

/-- Names of one line are read back as they were printed. -/
theorem shLines_terminated {names : List Text} (h : ∀ n ∈ names, '\n' ∉ n) :
    shLines (names.flatMap (· ++ ['\n'])) = names := by
  unfold shLines
  rcases names.eq_nil_or_concat with rfl | ⟨front, last, rfl⟩
  · rfl
  · have hlast : ((front.concat last).flatMap (· ++ ['\n'])).getLast? = some '\n' := by
      rw [List.concat_eq_append, List.flatMap_append, List.flatMap_singleton, ← List.append_assoc,
        List.getLast?_concat]
    rw [if_pos hlast, splitOn_terminated h, List.dropLast_concat]

/-- The names of the exits have no newline in them. -/
def Exits.SingleLines (E : Exits) : Prop :=
  (∀ f ∈ E.files, '\n' ∉ f.name) ∧ ∀ w ∈ E.wireguard, '\n' ∉ w.name

theorem exitExists_of_mem_names (hE : E.SingleLines) {n : Text} (hn : n ∈ E.names) :
    E.exitExists n = true ∧ '\n' ∉ n := by
  obtain ⟨raw, hraw, rfl⟩ := List.mem_map.mp hn
  rcases List.mem_append.mp hraw with hfile | hwg
  · obtain ⟨f, hf, hname⟩ := List.mem_filterMap.mp hfile
    split at hname
    · next hsuffix =>
      obtain rfl := Option.some.inj hname
      obtain ⟨stem, hstem⟩ := List.isSuffixOf_iff_suffix.mp (Bool.and_eq_true_iff.mp hsuffix).1
      have htake : f.name.take (f.name.length - 5) = stem := by
        rw [← hstem, List.length_append]
        exact List.take_left
      have hline : '\n' ∉ stem := by
        intro hin
        exact hE.1 f hf (hstem ▸ List.mem_append_left _ hin)
      rw [htake, captured_of_not_mem hline]
      refine ⟨?_, hline⟩
      rw [Exits.exitExists, Exits.hasFile_iff.mpr ⟨f, hf, hstem.symm⟩, Bool.true_or]
    · cases hname
  · obtain ⟨w, hw, rfl⟩ := List.mem_map.mp hwg
    have hline := hE.2 w hw
    rw [captured_of_not_mem hline]
    refine ⟨?_, hline⟩
    rw [Exits.exitExists, Exits.hasWg_iff.mpr ⟨w, hw, rfl⟩, Bool.or_true]

/-- **`firstIsOrdinary_iff`** — where the names are single lines, every line of the list is an exit, and
all that matters is whether `smart` comes first. -/
theorem firstIsOrdinary_iff (hsort : ∀ l t, t ∈ Sh.sort l → t ∈ l) (hE : E.SingleLines) :
    Sh.FirstIsOrdinary E ↔ (Sh.listExitNames E).head? ≠ some smart := by
  constructor
  · intro hfirst hhead
    rcases hfirst smart hhead (by decide) with heq | heq | ⟨-, hne⟩
    · exact absurd heq (by decide)
    · exact absurd heq (by decide)
    · exact hne rfl
  · intro hhead first hfirst hne
    have hlines : shLines (E.names.dedup.flatMap (· ++ ['\n'])) = E.names.dedup :=
      shLines_terminated fun n hn => (exitExists_of_mem_names hE (List.mem_dedup.mp hn)).2
    have hmem : first ∈ E.names.dedup := by
      rw [← hlines]
      exact hsort _ _ (List.mem_of_head? hfirst)
    have hexists := (exitExists_of_mem_names hE (List.mem_dedup.mp hmem)).1
    exact .inr (.inr ⟨hexists, fun heq => hhead (heq ▸ hfirst)⟩)

end List

/-! ## The router and one more exit -/

/-- The exit `us`, and what a build of the router leaves behind. -/
def smartAndUs : Exits where
  files := [⟨lit "smart.yaml", .proxy, false⟩, ⟨lit "smart.type", .fails, false⟩,
    ⟨lit "us.yaml", .proxy, false⟩, ⟨lit "us.type", .fails, false⟩]
  wireguard := []

theorem existing_nil {Sh : Shell} (cat : Text) : Sh.existing [] cat = [] := rfl

/-- The words that sound blocked are longer, or other words. -/
theorem soundsBlocked_ai : soundsBlocked (lit "AI") = false := by
  have hwords : ∀ w ∈ [lit "reject", lit "advert", lit "hijack", lit "privacy", lit "广告"],
      2 < w.length ∨ w.length = 2 ∧ w ≠ lit "ai" := by decide
  have hlower : trLower (lit "AI") = lit "ai" := by decide
  rw [soundsBlocked, hlower, List.any_eq_false]
  intro w hw hin
  have hin := of_decide_eq_true hin
  rcases hwords w hw with hlong | ⟨hlen, hne⟩
  · exact absurd hin.length_le (Nat.not_le.mpr hlong)
  · exact hne (hin.eq_of_length hlen)

theorem seedTarget_ai : plainShell.seedTarget smartAndUs [] (lit "AI") = smart := by
  have hdefault : plainShell.defaultExit smartAndUs = smart := by decide
  simp [Shell.seedTarget, existing_nil, soundsBlocked_ai, hdefault]

/-- The new category `AI` is mapped to `smart`, and the router resolves it to its own exit. -/
theorem seeding_selects_smart :
    plainShell.seedLines smartAndUs [] (lit "DOMAIN-SUFFIX,a.com,AI\n") = [lit "AI=smart"] ∧
      plainHost.resolveTarget smartAndUs (loadPolicyMap (plainShell.initPolicyMap smartAndUs []
        (lit "DOMAIN-SUFFIX,a.com,AI\n"))) (lit "AI") = .exit smart ∧
      ¬ ∀ (Sh : Shell) (E : Exits) (prior rules : Text), ¬ smart <:+: prior →
        ∀ cat target, Sh.Writes E prior rules cat target → E.Ordinary target := by
  have hseeded : ((plainShell.categories (lit "DOMAIN-SUFFIX,a.com,AI\n")).filter isSeeded) =
      [lit "AI"] := by decide
  have hlines : plainShell.seedLines smartAndUs [] (lit "DOMAIN-SUFFIX,a.com,AI\n") =
      [lit "AI=smart"] := by
    rw [Shell.seedLines, hseeded, List.map_singleton, Shell.seedLine, seedTarget_ai]
    decide
  refine ⟨hlines, ?_, fun hclaim => ?_⟩
  · rw [Shell.initPolicyMap, hlines]
    decide
  · have hprior : ¬ smart <:+: ([] : Text) := fun h => absurd (List.infix_nil.mp h) (by decide)
    have hcat : lit "AI" ∈ (plainShell.categories (lit "DOMAIN-SUFFIX,a.com,AI\n")).filter
        isSeeded := by
      rw [hseeded]
      exact List.mem_singleton.mpr rfl
    have hwrites : plainShell.Writes smartAndUs [] (lit "DOMAIN-SUFFIX,a.com,AI\n") (lit "AI")
        smart := ⟨List.mem_filter.mp hcat, seedTarget_ai⟩
    exact absurd (hclaim _ _ _ _ hprior _ _ hwrites) (by decide)

end ProxyGateway.Smart
