/-
# ProxyGateway.Smart.UrlPolicies — the policy of an entry that comes with modifiers

A line of a rule set is `TYPE,value`, then a policy or none, then modifiers such as `no-resolve`.  A
file's import looks for the policy among the fields that are no modifiers.  `--from-url` counts
commas: with two of them it takes the line for complete.  So a line without a policy keeps its modifier
in the place where the router reads the policy (`policyField_rule_iff`), and a line with one keeps its
modifiers behind it.

`fromUrl_policies_iff` says that a list comes out as `TYPE,value,policy` throughout exactly if none of
its entries has a modifier.
-/
import ProxyGateway.Smart.FromUrl

namespace ProxyGateway.Smart

open ProxyGateway.Lang

/-! ## Entries -/

/-- A field of a line that the import of a file takes for a modifier. -/
def isModifierField (x : Text) : Bool := isModifier (stripQuotes (strip x))

/-- **`ListEntry`** — a line of a rule set: its type and its value, the policy if it has one, and the
modifiers behind it. -/
structure ListEntry where
  typ : Text
  value : Text
  policy : Option Text
  modifiers : List Text
  noComma : ∀ f ∈ typ :: value :: (policy.toList ++ modifiers), ',' ∉ f
  isPolicy : ∀ p ∈ policy, isModifierField p = false
  areModifiers : ∀ m ∈ modifiers, isModifierField m = true

namespace ListEntry

variable (e : ListEntry)

/-- The fields behind the value. -/
def rest : List Text := e.policy.toList ++ e.modifiers

def line : Text := [','].intercalate (e.typ :: e.value :: e.rest)

/-- The rule that the entry stands for: its own policy, or else the category. -/
def rule (category : Text) : Text :=
  e.typ ++ ',' :: (e.value ++ ',' :: e.policy.getD category)

end ListEntry

/-- The field that the router takes for the policy. -/
def policyField (line : Text) : Option Text := (line.splitOn ',')[2]?

/-- **`GivesPolicy`** — the line is the rule of the entry, and none of its modifiers stands in the place of
the policy. -/
def GivesPolicy (category : Text) (e : ListEntry) (line : Text) : Prop :=
  line = e.rule category ∧ ∀ m ∈ e.modifiers, policyField line ≠ some m

/-! ## What is written for an entry -/

/-- Fields without the separator have one separator less than there are fields. -/
theorem count_intercalate {sep : Char} {fields : List Text} (h : ∀ f ∈ fields, sep ∉ f) (first : Text)
    (hfirst : sep ∉ first) : ([sep].intercalate (first :: fields)).count sep = fields.length := by
  induction fields generalizing first with
  | nil =>
    rw [List.intercalate_singleton, List.count_eq_zero.mpr hfirst]
    rfl
  | cons second fields ih =>
    have hsecond : sep ∉ second := h second (List.mem_cons_self ..)
    rw [List.intercalate_cons_cons, List.append_assoc, List.count_append,
      List.count_eq_zero.mpr hfirst, List.count_append, List.count_singleton_self,
      ih (fun f hf => h f (List.mem_cons_of_mem _ hf)) second hsecond, List.length_cons]
    omega

namespace ListEntry

variable (e : ListEntry) (category : Text)

theorem splitOn_line : e.line.splitOn ',' = e.typ :: e.value :: e.rest :=
  List.splitOn_intercalate ',' e.noComma (List.cons_ne_nil _ _)

theorem count_line : e.line.count ',' = e.rest.length + 1 := by
  have hrest : ∀ f ∈ e.value :: e.rest, ',' ∉ f := fun f hf =>
    e.noComma f (List.mem_cons_of_mem _ hf)
  exact count_intercalate hrest e.typ (e.noComma e.typ (List.mem_cons_self ..))

/-- A line of two fields gets the category; every other line stays as it is. -/
theorem withCategory_line : withCategory category e.line =
    if e.rest = [] then e.rule category else e.line := by
  rw [withCategory, count_line]
  by_cases hrest : e.rest = []
  · have hpolicy : e.policy = none := by
      have hnil := (List.append_eq_nil_iff.mp hrest).1
      cases hp : e.policy with
      | none => rfl
      | some p =>
        rw [hp] at hnil
        nomatch hnil
    rw [if_pos hrest, hrest, if_neg (by simp), line, rule, hrest, hpolicy]
    simp [List.intercalate]
  · have hlen : 0 < e.rest.length := List.length_pos_iff.mpr hrest
    rw [if_neg hrest, if_pos (by omega)]

/-- An entry with a policy and no modifiers is its own rule. -/
theorem line_eq_rule {p : Text} (hp : e.policy = some p) (hm : e.modifiers = []) :
    e.line = e.rule category := by
  rw [line, rule, rest, hp, hm]
  simp [List.intercalate]

/-- With modifiers behind its policy, an entry is longer than its rule. -/
theorem line_ne_rule {p : Text} (hp : e.policy = some p) (hm : e.modifiers ≠ []) :
    e.line ≠ e.rule category := by
  intro heq
  have hline := e.count_line
  have hcommas : ∀ f ∈ e.typ :: e.value :: e.policy.toList, ',' ∉ f := by
    intro f hf
    apply e.noComma f
    simp only [List.mem_cons, List.mem_append] at hf ⊢
    tauto
  have hrule : (e.rule category).count ',' = 2 := by
    have hthree : e.rule category = [','].intercalate [e.typ, e.value, p] := by
      rw [rule, hp]
      simp [List.intercalate]
    rw [hthree, count_intercalate (fun f hf => hcommas f ?_) _ (hcommas _ (List.mem_cons_self ..))]
    · rfl
    · rw [hp]
      exact List.mem_cons_of_mem _ hf
  have hlen : 0 < e.modifiers.length := List.length_pos_iff.mpr hm
  rw [heq, hrule, rest, hp, List.length_append, Option.toList_some, List.length_singleton] at hline
  omega

/-- Without a policy, the first modifier comes to stand in its place. -/
theorem policyField_line (hp : e.policy = none) : policyField e.line = e.modifiers.head? := by
  rw [policyField, splitOn_line, rest, hp]
  cases e.modifiers <;> rfl

/-- **`givesPolicy_iff`** — one entry. -/
theorem givesPolicy_iff :
    GivesPolicy category e (withCategory category e.line) ↔ e.modifiers = [] := by
  rw [withCategory_line]
  constructor
  · rintro ⟨hrule, hfield⟩
    by_contra hm
    have hrest : e.rest ≠ [] := fun h => hm (List.append_eq_nil_iff.mp h).2
    rw [if_neg hrest] at hrule hfield
    cases hp : e.policy with
    | some p => exact e.line_ne_rule category hp hm hrule
    | none =>
      obtain ⟨m, ms, hmods⟩ := List.exists_cons_of_ne_nil hm
      apply hfield m (hmods ▸ List.mem_cons_self ..)
      rw [e.policyField_line hp, hmods]
      rfl
  · intro hm
    refine ⟨?_, fun m hmem => absurd (hm ▸ hmem) List.not_mem_nil⟩
    split
    · rfl
    · next hrest =>
      cases hp : e.policy with
      | some p => exact e.line_eq_rule category hp hm
      | none =>
        have hnil : e.rest = [] := by
          rw [rest, hp, hm]
          rfl
        exact absurd hnil hrest

/-- **`policyField_rule_iff`** — the router finds the right policy, unless the entry has modifiers and no
policy of its own. -/
theorem policyField_rule_iff (hcategory : isModifierField category = false) (hcomma : ',' ∉ category) :
    policyField (withCategory category e.line) = some (e.policy.getD category) ↔
      e.policy = none → e.modifiers = [] := by
  rw [withCategory_line]
  by_cases hrest : e.rest = []
  · obtain ⟨hp, hm⟩ := List.append_eq_nil_iff.mp hrest
    refine iff_of_true ?_ fun _ => hm
    have hfields : ∀ f ∈ [e.typ, e.value, category], ',' ∉ f := by
      intro f hf
      simp only [List.mem_cons, List.not_mem_nil, or_false] at hf
      rcases hf with rfl | rfl | rfl
      · exact e.noComma e.typ (List.mem_cons_self ..)
      · exact e.noComma e.value (List.mem_cons_of_mem _ (List.mem_cons_self ..))
      · exact hcomma
    have hrule : e.rule category = [','].intercalate [e.typ, e.value, category] := by
      rw [rule, Option.toList_eq_nil_iff.mp hp]
      simp [List.intercalate]
    rw [if_pos hrest, policyField, hrule, List.splitOn_intercalate ',' hfields (List.cons_ne_nil _ _),
      Option.toList_eq_nil_iff.mp hp]
    rfl
  · rw [if_neg hrest]
    cases hp : e.policy with
    | some p =>
      refine iff_of_true ?_ nofun
      rw [policyField, splitOn_line, rest, hp]
      rfl
    | none =>
      have hm : e.modifiers ≠ [] := fun hm => hrest (by rw [rest, hp, hm]; rfl)
      refine iff_of_false ?_ fun h => hm (h rfl)
      obtain ⟨m, ms, hmods⟩ := List.exists_cons_of_ne_nil hm
      rw [e.policyField_line hp, hmods, List.head?_cons, Option.getD_none]
      intro heq
      have hmod := e.areModifiers m (hmods ▸ List.mem_cons_self ..)
      rw [Option.some.inj heq, hcategory] at hmod
      nomatch hmod

end ListEntry

/-! ## A list -/

/-- **`fromUrl_policies_iff`** — a list of entries comes out as rules, each with its own policy or the
category, exactly where no entry has modifiers. -/
theorem fromUrl_policies_iff (I : Importer) {url category text : Text} {entries : List ListEntry}
    (hcsv : I.detectFormat (text.take 4096) url = some .csv)
    (hlist : I.ruleSetRules text .csv = entries.map ListEntry.line) :
    (∃ out, I.fromUrlRules url category text = some out ∧
        List.Forall₂ (GivesPolicy category) entries out) ↔
      ∀ e ∈ entries, e.modifiers = [] := by
  have hout : I.fromUrlRules url category text =
      some (entries.map fun e => withCategory category e.line) := by
    rw [Importer.fromUrlRules, hcsv, Option.map_some, hlist, List.map_map]
    rfl
  rw [hout]
  have hall : List.Forall₂ (GivesPolicy category) entries
      (entries.map fun e => withCategory category e.line) ↔ ∀ e ∈ entries, e.modifiers = [] := by
    rw [List.forall₂_map_right_iff, List.forall₂_same]
    exact forall₂_congr fun e _ => e.givesPolicy_iff category
  rw [← hall]
  constructor
  · rintro ⟨out, hsome, hgives⟩
    obtain rfl := Option.some.inj hsome
    exact hgives
  · intro hgives
    exact ⟨_, rfl, hgives⟩

/-- `IP-CIDR,192.0.2.0/24,no-resolve` -/
def noResolveEntry : ListEntry where
  typ := lit "IP-CIDR"
  value := lit "192.0.2.0/24"
  policy := none
  modifiers := [lit "no-resolve"]
  noComma := by decide
  isPolicy := nofun
  areModifiers := by decide

/-- `DOMAIN,a.com,Media` -/
def ownPolicyEntry : ListEntry where
  typ := lit "DOMAIN"
  value := lit "a.com"
  policy := some (lit "Media")
  modifiers := []
  noComma := by decide
  isPolicy := by
    intro p hp
    rw [← Option.some.inj (Option.mem_def.mp hp)]
    decide
  areModifiers := nofun

theorem fromUrl_policies_own :
    (∃ out, plainImporter.fromUrlRules (lit "https://a.com/l") (lit "Proxy")
          (lit "DOMAIN,a.com,Media\n") = some out ∧
        List.Forall₂ (GivesPolicy (lit "Proxy")) [ownPolicyEntry] out) ↔
      ∀ e ∈ [ownPolicyEntry], e.modifiers = [] :=
  fromUrl_policies_iff plainImporter (by decide) (by decide)

/-- The modifier of an address is taken for its policy. -/
theorem modifier_becomes_policy :
    plainImporter.fromUrlRules (lit "https://a.com/l") (lit "Proxy")
        (lit "IP-CIDR,192.0.2.0/24,no-resolve\n") = some [lit "IP-CIDR,192.0.2.0/24,no-resolve"] ∧
      ¬ ∀ (I : Importer) (url category text : Text) (entries : List ListEntry),
        I.detectFormat (text.take 4096) url = some .csv →
        I.ruleSetRules text .csv = entries.map ListEntry.line →
        ∃ out, I.fromUrlRules url category text = some out ∧
          List.Forall₂ (GivesPolicy category) entries out := by
  have hout : plainImporter.fromUrlRules (lit "https://a.com/l") (lit "Proxy")
      (lit "IP-CIDR,192.0.2.0/24,no-resolve\n") =
        some [lit "IP-CIDR,192.0.2.0/24,no-resolve"] := by decide
  refine ⟨hout, fun hclaim => ?_⟩
  obtain ⟨out, hsome, hgives⟩ := hclaim plainImporter (lit "https://a.com/l") (lit "Proxy")
    (lit "IP-CIDR,192.0.2.0/24,no-resolve\n") [noResolveEntry] (by decide) (by decide)
  rw [hout] at hsome
  obtain rfl := Option.some.inj hsome
  cases hgives with
  | cons hgives _ =>
    exact hgives.2 (lit "no-resolve") (List.mem_cons_self ..) (by decide)

end ProxyGateway.Smart
