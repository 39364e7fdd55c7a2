/-
# ProxyGateway.Smart.PolicySeed — `init_policy_map`, and what it does to the name of an exit

`--set-rules` builds a candidate policy map before it builds the configuration.  Every last field of
a rule line counts as a category there, also the name of an exit, and a category without a prior
entry is mapped: to `block` if its name sounds like it, to the first configured exit otherwise.
`resolve_target` then asks the map BEFORE the exits.  So a rule that names an exit reaches this exit
only where the seeded entry says so (`setRules_keepsName_iff`); for a name written plainly and not in
the prior map that means the first exit of the list (`seeded_keepsName_iff`).

The tools of the shell come in as functions (`Shell`): how `sort` orders and what it takes for equal
depends on the locale, and `awk` compares fields that look like numbers as numbers.
-/
import ProxyGateway.Smart.Edits
import ProxyGateway.Smart.Mihomo

namespace ProxyGateway.Smart

open ProxyGateway.Lang

/-! ## The shell side -/

structure Shell where
  /-- `sort` -/
  sort : List Text → List Text
  /-- `sort -u` -/
  sortU : List Text → List Text
  /-- `$1 == c` in `awk`, for `-v c=...` -/
  awkEq : Text → Text → Bool
  /-- `[[:space:]]` -/
  space : Char → Bool
  /-- What `grep -vF` prints where it takes its pattern for options, or its file for binary. -/
  grepOdd : Text → Text → Text
  grepOdd_lines : ∀ pattern file, Terminated (grepOdd pattern file)

section Seed

variable (Sh : Shell) (E : Exits)

/-- The names behind `*.type`, which skips hidden files, and behind `pgw-*.conf`, as `$(…)` gives
them. -/
def Exits.names : List Text :=
  ((E.files.filterMap fun f =>
      if (lit ".type").isSuffixOf f.name && f.name.head? != some '.' then
        some (f.name.take (f.name.length - 5))
      else none) ++ E.wireguard.map WgConf.name).map captured

/-- **`list_exit_names`**: its lines, from `printf '%s\n' … | sort`. -/
def Shell.listExitNames : List Text := Sh.sort (shLines (E.names.dedup.flatMap (· ++ ['\n'])))

/-- `def="$(list_exit_names | head -n1)"`, or `direct` -/
def Shell.defaultExit : Text :=
  let first := ((Sh.listExitNames E).head?).getD []
  if first = [] then lit "direct" else first

/-- `grep -vE '^[[:space:]]*(#|;|$)'` -/
def Shell.isRule (line : Text) : Bool :=
  match line.dropWhile Sh.space with
  | [] => false
  | c :: _ => c != '#' && c != ';'

/-- `awk -F, '{print $NF}'` -/
def lastField (line : Text) : Text := ((line.splitOn ',').getLast?).getD []

/-- The categories of the rules. -/
def Shell.categories (rules : Text) : List Text :=
  Sh.sortU (((shLines rules).filter Sh.isRule).map lastField)

/-- `tr '[:upper:]' '[:lower:]'` -/
def trLower (t : Text) : Text := t.map Char.toLower

/-- A category that is not passed over. -/
def isSeeded (cat : Text) : Bool :=
  cat ≠ [] && trLower cat ∉
    [lit "direct", lit "dir", lit "block", lit "reject", lit "direct-out"]

/-- `awk -F= -v c="$cat" '$1==c{print $2; exit}'` on the prior map. -/
def Shell.existing (prior cat : Text) : Text :=
  match (shLines prior).find? fun line => Sh.awkEq (before '=' line) cat with
  | some line => before '=' (after '=' line)
  | none => []

/-- `*reject*|*advert*|*hijack*|*privacy*|*广告*` -/
def soundsBlocked (cat : Text) : Bool :=
  [lit "reject", lit "advert", lit "hijack", lit "privacy", lit "广告"].any
    (· <:+: trLower cat)

/-- The target of a category. -/
def Shell.seedTarget (prior cat : Text) : Text :=
  let existing := Sh.existing prior cat
  if existing ≠ [] then existing
  else if soundsBlocked cat then lit "block" else Sh.defaultExit E

/-- `printf '%s=%s\n' "$cat" "$target"`, without the newline. -/
def Shell.seedLine (prior cat : Text) : Text := cat ++ '=' :: Sh.seedTarget E prior cat

/-- The lines of the candidate map. -/
def Shell.seedLines (prior rules : Text) : List Text :=
  Sh.sortU (((Sh.categories rules).filter isSeeded).map (Sh.seedLine E prior))

/-- **`init_policy_map`** -/
def Shell.initPolicyMap (prior rules : Text) : Text :=
  (Sh.seedLines E prior rules).flatMap (· ++ ['\n'])

/-- The configuration that `set_rules` builds: the candidate map first, then the generator under
it, both on the built-in rules and the candidate. -/
def Shell.setRulesConfig (H : Host) (defaults : DefaultRules) (prior rules : Text) :
    Except Failure MihomoConfig :=
  H.mihomoConfig E (loadPolicyMap (Sh.initPolicyMap E prior (defaults.effective rules)))
    (defaults.effective rules)

end Seed

/-! ## Reading the candidate map back -/

theorem PolicyMap.get_append (m m' : PolicyMap) (key : Text) :
    PolicyMap.get (m ++ m') key = (m'.get key).or (m.get key) := by
  unfold PolicyMap.get
  rw [List.reverse_append, List.find?_append]
  cases m'.reverse.find? fun kv => kv.1 = key <;> simp

theorem PolicyMap.get_eq_none_iff {m : PolicyMap} {key : Text} :
    m.get key = none ↔ ∀ kv ∈ m, kv.1 ≠ key := by
  simp [PolicyMap.get]

theorem loadPolicyMap_lines (lines : List Text) :
    loadPolicyMap (lines.flatMap (· ++ ['\n'])) = lines.flatMap loadPolicyMap := by
  induction lines with
  | nil => exact filterMap_pyLines_nil policyEntry_nil
  | cons line lines ih =>
    rw [List.flatMap_cons, List.flatMap_cons, List.append_assoc, List.singleton_append, ← ih]
    exact filterMap_pyLines_append policyEntry_nil _ _

/-- Every value is stripped. -/
theorem strip_get {text key v : Text} (h : (loadPolicyMap text).get key = some v) : strip v = v := by
  obtain ⟨⟨k, w⟩, hfind, rfl⟩ := Option.map_eq_some_iff.mp h
  obtain ⟨raw, -, hraw⟩ := List.mem_filterMap.mp
    (List.mem_reverse.mp (List.mem_of_find?_eq_some hfind))
  unfold policyEntry at hraw
  simp only at hraw
  split at hraw
  · nomatch hraw
  · obtain ⟨-, rfl⟩ := Prod.mk.inj (Option.some.inj hraw)
    exact strip_strip _

section KeepsName

variable (Sh : Shell) (H : Host) (E : Exits)

/-- What the categories of the rules seed for a key: the value of the last line, in the order of
`sort -u`, that is read back as an assignment to it. -/
def Shell.seededFor (prior rules key : Text) : Option Text :=
  PolicyMap.get ((Sh.seedLines E prior rules).flatMap loadPolicyMap) key

/-- The exits directory spells the exit that `t` names as `e`. -/
def Host.namesExit (t e : Text) : Prop := H.builtin t = none ∧ E.canonicalExitName H t = e

/-- **`KeepsName`** — `e` is no word for direct or block, and what is seeded for it names `e`; where
nothing is seeded, `e` is spelled as on disk. -/
def Shell.KeepsName (prior rules e : Text) : Prop :=
  H.builtin e = none ∧ H.namesExit E ((Sh.seededFor E prior rules e).getD e) e

variable {Sh H E}

/-- The policy of a line is one of its fields. -/
theorem mem_fields_of_policy {raw policy : Text} (h : H.policy? raw = some policy) :
    policy ∈ fields (ruleText raw) := by
  unfold Host.policy? at h
  cases hline : H.parseLine raw with
  | blank => simp [hline] at h
  | short line => simp [hline] at h
  | final p =>
    obtain ⟨-, head, rest, hfields, -, hhead⟩ := Host.parseLine_eq_final_iff.mp hline
    obtain rfl : p = some policy := by simpa [hline] using h
    rw [hfields]
    exact List.mem_cons_of_mem _ (List.mem_of_head? hhead)
  | rule head value p =>
    obtain ⟨-, rest, hfields⟩ := Host.parseLine_eq_rule_iff.mp hline
    obtain rfl : p = policy := by simpa [hline] using h
    rw [hfields]
    simp

theorem strip_policy {raw policy : Text} (h : H.policy? raw = some policy) :
    strip policy = policy := strip_of_mem_fields (mem_fields_of_policy h)

/-- A policy leads to the exit `e` through its entry in the map, or by its own name. -/
theorem resolveTarget_eq_exit {m : PolicyMap} {policy e : Text} (hp : strip policy = policy)
    (hm : ∀ v, m.get policy = some v → strip v = v) :
    H.resolveTarget E m policy = .exit e ↔
      H.builtin policy = none ∧ H.namesExit E ((m.get policy).getD policy) e := by
  unfold Host.resolveTarget Host.namesExit
  simp only [hp]
  cases hb : H.builtin policy with
  | some target =>
    simp only [reduceCtorEq, false_and, iff_false]
    rintro rfl
    exact H.builtin_ne_exit policy e hb
  | none =>
    cases hv : m.get policy with
    | none => simp [hb]
    | some v =>
      simp only [hm v hv, Option.getD_some, true_and]
      cases hvb : H.builtin v with
      | some target =>
        simp only [reduceCtorEq, false_and, iff_false]
        rintro rfl
        exact H.builtin_ne_exit v e hvb
      | none => simp

/-- A name that can stand on one side of an assignment: one line, no blanks around it. -/
structure PlainValue (t : Text) : Prop where
  line : SingleLine t
  stripped : strip t = t

/-- A name that can stand on the left: no equals sign in it either, and no comment. -/
structure PlainName (e : Text) : Prop extends PlainValue e where
  noEq : '=' ∉ e
  noComment : e.head? ≠ some '#'

theorem PolicyMap.get_eq_some {m : PolicyMap} {key v : Text} (hex : ∃ kv ∈ m, kv.1 = key)
    (hall : ∀ kv ∈ m, kv.1 = key → kv.2 = v) : m.get key = some v := by
  obtain ⟨kv, hkv, hkey⟩ := hex
  obtain ⟨kv', hfind⟩ := Option.isSome_iff_exists.mp
    (List.find?_isSome.mpr ⟨kv, List.mem_reverse.mpr hkv, by simpa using hkey⟩ :
      (m.reverse.find? fun kv => kv.1 = key).isSome)
  rw [PolicyMap.get, hfind, Option.map_some,
    hall kv' (List.mem_reverse.mp (List.mem_of_find?_eq_some hfind))
      (by simpa using List.find?_some hfind)]

/-- What stands in front of an equals sign is the key, and the value does not depend on it. -/
theorem policyEntry_assign {e : Text} (he : PlainName e) (t : Text) :
    policyEntry (e ++ '=' :: t) = some (e, strip (t.rdropWhile isSpace)) := by
  have hmark : isSpace '=' = false := by decide
  have hstart := dropWhile_strip e
  rw [he.stripped] at hstart
  have hhead : (e ++ '=' :: t.rdropWhile isSpace).head? ≠ some '#' := by
    have hno := he.noComment
    cases e with
    | nil => simp
    | cons c e => simpa using hno
  have hbefore : before '=' (e ++ '=' :: t.rdropWhile isSpace) = e := by
    rw [before_append_of_not_mem he.noEq]
    simp [before]
  have hafter : after '=' (e ++ '=' :: t.rdropWhile isSpace) = t.rdropWhile isSpace := by
    unfold after
    rw [List.dropWhile_append_of_pos]
    · simp
    · intro c hc
      have hne : c ≠ '=' := fun h => he.noEq (h ▸ hc)
      simpa using hne
  simp only [policyEntry, strip_append_cons hmark, hstart, hbefore, hafter, he.stripped]
  rw [if_neg]
  simp only [not_or]
  exact ⟨by simp, hhead, by simp⟩

/-- A plain assignment is read back as it was written. -/
theorem loadPolicyMap_assign {e t : Text} (he : PlainName e) (ht : PlainValue t) :
    loadPolicyMap (e ++ '=' :: t) = [(e, t)] := by
  have hline : SingleLine (e ++ '=' :: t) :=
    singleLine_append he.line ht.line (by decide) (by decide)
  have hend := rdropWhile_strip (fun _ h => h) t
  rw [ht.stripped] at hend
  have hentry := policyEntry_assign he t
  rw [hend, ht.stripped] at hentry
  rw [loadPolicyMap, pyLines_of_singleLine hline, List.filterMap_cons_some hentry, List.filterMap_nil]

/-- **`seeded_keepsName_iff`** — an exit that the rules name plainly, that no other category is read
as and that the prior map does not know keeps its name exactly when what is seeded for it names it:
`block` if it sounds blocked, the first configured exit otherwise. -/
theorem seeded_keepsName_iff {prior rules e : Text} (he : PlainName e)
    (hfresh : Sh.existing prior e = []) (hdef : PlainValue (Sh.defaultExit E))
    (hmem : Sh.seedLine E prior e ∈ Sh.seedLines E prior rules)
    (honly : ∀ line ∈ Sh.seedLines E prior rules, line ≠ Sh.seedLine E prior e →
      ∀ kv ∈ loadPolicyMap line, kv.1 ≠ e) :
    Sh.KeepsName H E prior rules e ↔
      H.builtin e = none ∧
        H.namesExit E (if soundsBlocked e then lit "block" else Sh.defaultExit E) e := by
  have htarget : Sh.seedTarget E prior e =
      if soundsBlocked e then lit "block" else Sh.defaultExit E := by
    simp [Shell.seedTarget, hfresh]
  have hplain : PlainValue (Sh.seedTarget E prior e) := by
    rw [htarget]
    split
    · exact ⟨by unfold SingleLine; decide, by decide⟩
    · exact hdef
  have hself : loadPolicyMap (Sh.seedLine E prior e) = [(e, Sh.seedTarget E prior e)] :=
    loadPolicyMap_assign he hplain
  have hseeded : Sh.seededFor E prior rules e = some (Sh.seedTarget E prior e) := by
    refine PolicyMap.get_eq_some ⟨(e, Sh.seedTarget E prior e), ?_, rfl⟩ fun kv hkv hkey => ?_
    · exact List.mem_flatMap.mpr ⟨_, hmem, by simp [hself]⟩
    · obtain ⟨line, hline, hin⟩ := List.mem_flatMap.mp hkv
      by_cases heq : line = Sh.seedLine E prior e
      · rw [heq, hself] at hin
        rw [List.mem_singleton.mp hin]
      · exact absurd hkey (honly line hline heq kv hin)
  rw [Shell.KeepsName, hseeded, Option.getD_some, htarget]

end KeepsName

/-! ## Two exits -/

/-- The order of the C locale. -/
def textLt : Text → Text → Bool
  | [], u => !u.isEmpty
  | _ :: _, [] => false
  | c :: t, d :: u => c.toNat < d.toNat || (c == d && textLt t u)

def insertSorted (t : Text) : List Text → List Text
  | [] => [t]
  | u :: us => if textLt t u then t :: u :: us else if t == u then u :: us else u :: insertSorted t us

/-- `sort -u` in the C locale. -/
def sortUnique (l : List Text) : List Text := l.foldr insertSorted []

/-- The C locale, and names that do not look like numbers. -/
def plainShell : Shell where
  sort := sortUnique
  sortU := sortUnique
  awkEq := (· == ·)
  space := fun c => c == ' ' || c == '\t'
  grepOdd := fun _ _ => []
  grepOdd_lines := fun _ _ => .inl rfl

/-- The exits `hk` and `us`. -/
def hkAndUs : Exits where
  files := [⟨lit "hk.yaml", .proxy, false⟩, ⟨lit "hk.type", .fails, false⟩,
    ⟨lit "us.yaml", .proxy, false⟩, ⟨lit "us.type", .fails, false⟩]
  wireguard := []

/-- `DOMAIN-SUFFIX,google.com,<target>` -/
def googleTo (target : Text) : Logic.Entry Cond Target :=
  ⟨some (.plain .domainSuffix (lit "google.com")), .exit target⟩

end ProxyGateway.Smart
