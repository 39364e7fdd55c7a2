/-
# ProxyGateway.Smart.SeedCoverage — which policies `init_policy_map` provides for

The router takes the third field of a rule for its policy, behind a comment or before further fields.
`init_policy_map` takes whatever stands behind the last comma of a line, comment and blanks included,
and asks the prior map for exactly that text.  So the entry of a policy comes from the lines that
happen to spell it, and where several do, from the one that `sort -u` puts last.

`seeding_covers_iff` says when every policy that the router looks up has its entry, with the value of
the prior map.  A comment behind a rule is enough to lose the entry, and a blank before the policy to
lose the value (`comment_hides_category`).
-/
import Mathlib.Data.List.Lex
import ProxyGateway.Smart.PolicySeed

namespace ProxyGateway.Smart

open ProxyGateway.Lang

/-! ## The last assignment -/

/-- Among the lines of a map, the last one that assigns the key decides. -/
theorem PolicyMap.get_flatMap_eq_some_iff {f : Text → PolicyMap} {lines : List Text} {key v : Text} :
    PolicyMap.get (lines.flatMap f) key = some v ↔
      ∃ pre line post, lines = pre ++ line :: post ∧ (f line).get key = some v ∧
        ∀ l ∈ post, (f l).get key = none := by
  induction lines with
  | nil => simp [PolicyMap.get]
  | cons first lines ih =>
    rw [List.flatMap_cons, PolicyMap.get_append, Option.or_eq_some_iff, ih]
    constructor
    · rintro (⟨pre, line, post, rfl, hv, hpost⟩ | ⟨hnone, hv⟩)
      · exact ⟨first :: pre, line, post, rfl, hv, hpost⟩
      · refine ⟨[], first, lines, rfl, hv, fun l hl => ?_⟩
        rw [PolicyMap.get_eq_none_iff] at hnone ⊢
        exact fun kv hkv => hnone kv (List.mem_flatMap.mpr ⟨l, hl, hkv⟩)
    · rintro ⟨pre, line, post, hsplit, hv, hpost⟩
      cases pre with
      | nil =>
        obtain ⟨rfl, rfl⟩ := List.cons_eq_cons.mp hsplit
        refine .inr ⟨PolicyMap.get_eq_none_iff.mpr fun kv hkv => ?_, hv⟩
        obtain ⟨l, hl, hkv⟩ := List.mem_flatMap.mp hkv
        exact PolicyMap.get_eq_none_iff.mp (hpost l hl) kv hkv
      | cons c pre =>
        obtain ⟨rfl, rfl⟩ := List.cons_eq_cons.mp hsplit
        exact .inl ⟨pre, line, post, rfl, hv, hpost⟩

/-! ## Coverage -/

/-- **`SortingShell`** — `sort` orders lines strictly, as in the C locale, and `sort -u` drops nothing
but repetitions. -/
structure SortingShell extends Shell where
  lt : Text → Text → Prop
  lt_asymm : ∀ s t, lt s t → ¬ lt t s
  mem_sortU : ∀ l t, t ∈ sortU l ↔ t ∈ l
  sortU_sorted : ∀ l, (sortU l).Pairwise lt

/-- The router resolves `policy` for a line of the rules. -/
def Host.LooksUp (H : Host) (rules policy : Text) : Prop :=
  ∃ raw ∈ pyLines rules, H.policy? raw = some policy

section Coverage

variable (Sh : SortingShell) (H : Host) (E : Exits) (prior rules : Text)

/-- The candidate map has an entry for the policy, and not another value than the prior map. -/
def SortingShell.Covers (policy : Text) : Prop :=
  ∃ v, (loadPolicyMap (Sh.initPolicyMap E prior rules)).get policy = some v ∧
    ∀ v₀, (loadPolicyMap prior).get policy = some v₀ → v = v₀

/-- **`SeedingCovers`** — the candidate map covers every policy that the router looks up, the words
for direct and block and the names of exits apart. -/
def SortingShell.SeedingCovers : Prop :=
  ∀ policy, H.LooksUp rules policy → H.builtin policy = none → E.exitExists policy = false →
    Sh.Covers E prior rules policy

/-- **`Spells`** — `line` is what is written for the text behind the last comma of a rule line, and the
router reads it as an assignment to the policy. -/
def SortingShell.Spells (policy line : Text) : Prop :=
  (∃ raw ∈ shLines rules, Sh.isRule raw = true ∧ isSeeded (lastField raw) = true ∧
    Sh.seedLine E prior (lastField raw) = line) ∧
  ((loadPolicyMap line).get policy).isSome = true

/-- **`SpelledLast`** — of the lines that spell the policy there is a last one, and it repeats the value
of the prior map. -/
def SortingShell.SpelledLast (policy : Text) : Prop :=
  ∃ line, Sh.Spells E prior rules policy line ∧
    (∀ other, Sh.Spells E prior rules policy other → other = line ∨ Sh.lt other line) ∧
    ∀ v₀, (loadPolicyMap prior).get policy = some v₀ →
      (loadPolicyMap line).get policy = some v₀

variable {Sh H E prior rules}

theorem mem_seedLines_iff {line : Text} :
    line ∈ Sh.seedLines E prior rules ↔
      ∃ raw ∈ shLines rules, Sh.isRule raw = true ∧ isSeeded (lastField raw) = true ∧
        Sh.seedLine E prior (lastField raw) = line := by
  simp only [Shell.seedLines, Shell.categories, Sh.mem_sortU, List.mem_map, List.mem_filter]
  constructor
  · rintro ⟨cat, ⟨⟨raw, ⟨hraw, hrule⟩, rfl⟩, hseeded⟩, rfl⟩
    exact ⟨raw, hraw, hrule, hseeded, rfl⟩
  · rintro ⟨raw, hraw, hrule, hseeded, rfl⟩
    exact ⟨_, ⟨⟨raw, ⟨hraw, hrule⟩, rfl⟩, hseeded⟩, rfl⟩

/-- The entry of a policy is that of the last line that spells it. -/
theorem get_initPolicyMap_iff {policy v : Text} :
    (loadPolicyMap (Sh.initPolicyMap E prior rules)).get policy = some v ↔
      ∃ line, Sh.Spells E prior rules policy line ∧
        (∀ other, Sh.Spells E prior rules policy other → other = line ∨ Sh.lt other line) ∧
        (loadPolicyMap line).get policy = some v := by
  have hsorted : (Sh.seedLines E prior rules).Pairwise Sh.lt := Sh.sortU_sorted _
  rw [Shell.initPolicyMap, loadPolicyMap_lines, PolicyMap.get_flatMap_eq_some_iff]
  constructor
  · -- what stands before the deciding line is smaller, and what stands behind it spells nothing
    rintro ⟨pre, line, post, hsplit, hv, hpost⟩
    have hline : line ∈ Sh.seedLines E prior rules := by
      rw [hsplit]
      exact List.mem_append_right _ (List.mem_cons_self ..)
    refine ⟨line, ⟨mem_seedLines_iff.mp hline, by rw [hv]; rfl⟩, fun other hother => ?_, hv⟩
    have hmem := mem_seedLines_iff.mpr hother.1
    rw [hsplit] at hmem hsorted
    rcases List.mem_append.mp hmem with hpre | hmem
    · exact .inr ((List.pairwise_append.mp hsorted).2.2 other hpre line (List.mem_cons_self ..))
    · rcases List.mem_cons.mp hmem with rfl | hmem
      · exact .inl rfl
      · have hsome := hother.2
        rw [hpost other hmem] at hsome
        nomatch hsome
  · rintro ⟨line, hspells, hlast, hv⟩
    obtain ⟨pre, post, hsplit⟩ := List.append_of_mem (mem_seedLines_iff.mpr hspells.1)
    refine ⟨pre, line, post, hsplit, hv, fun l hl => ?_⟩
    rw [hsplit] at hsorted
    have hlt : Sh.lt line l :=
      (List.pairwise_cons.mp (List.pairwise_append.mp hsorted).2.1).1 l hl
    -- a later line that spelled the policy would have to be smaller
    by_contra hsome
    have hmem : l ∈ Sh.seedLines E prior rules := by
      rw [hsplit]
      exact List.mem_append_right _ (List.mem_cons_of_mem _ hl)
    rcases hlast l ⟨mem_seedLines_iff.mp hmem, Option.isSome_iff_ne_none.mpr hsome⟩ with rfl | hgt
    · exact Sh.lt_asymm l l hlt hlt
    · exact Sh.lt_asymm line l hlt hgt

theorem covers_iff {policy : Text} :
    Sh.Covers E prior rules policy ↔ Sh.SpelledLast E prior rules policy := by
  constructor
  · rintro ⟨v, hv, hkept⟩
    obtain ⟨line, hspells, hlast, hline⟩ := get_initPolicyMap_iff.mp hv
    exact ⟨line, hspells, hlast, fun v₀ hv₀ => hkept v₀ hv₀ ▸ hline⟩
  · rintro ⟨line, hspells, hlast, hkept⟩
    obtain ⟨v, hline⟩ := Option.isSome_iff_exists.mp hspells.2
    refine ⟨v, get_initPolicyMap_iff.mpr ⟨line, hspells, hlast, hline⟩, fun v₀ hv₀ => ?_⟩
    exact Option.some.inj (hline.symm.trans (hkept v₀ hv₀))

/-- A policy that stands behind the last comma of a rule line, and that nothing else spells, is covered
where `awk` finds the value of the prior map, or the prior map has none. -/
theorem covers_of_plain {policy raw : Text} (hraw : raw ∈ shLines rules)
    (hrule : Sh.isRule raw = true) (hlast : lastField raw = policy)
    (hseeded : isSeeded policy = true) (hp : PlainName policy)
    (ht : PlainValue (Sh.seedTarget E prior policy))
    (honly : ∀ line, Sh.Spells E prior rules policy line → line = Sh.seedLine E prior policy)
    (hprior : ∀ v₀, (loadPolicyMap prior).get policy = some v₀ →
      Sh.seedTarget E prior policy = v₀) :
    Sh.Covers E prior rules policy := by
  have hread : (loadPolicyMap (Sh.seedLine E prior policy)).get policy =
      some (Sh.seedTarget E prior policy) := by
    rw [Shell.seedLine, loadPolicyMap_assign hp ht]
    simp [PolicyMap.get]
  refine covers_iff.mpr ⟨Sh.seedLine E prior policy, ⟨?_, ?_⟩, ?_, ?_⟩
  · exact ⟨raw, hraw, hrule, hlast ▸ hseeded, by rw [hlast]⟩
  · rw [hread]
    rfl
  · exact fun other hother => .inl (honly other hother)
  · intro v₀ hv₀
    rw [hread, hprior v₀ hv₀]

end Coverage

/-! ## The C locale -/

/-- It compares texts lexicographically. -/
theorem textLt_iff {t u : Text} : textLt t u = true ↔ List.Lex (· < ·) t u := by
  induction t generalizing u with
  | nil => cases u <;> simp [textLt]
  | cons c t ih =>
    cases u with
    | nil => simp [textLt]
    | cons d u =>
      have hcd : c.toNat < d.toNat ↔ c < d := Iff.rfl
      rw [List.cons_lex_cons_iff, ← ih, ← hcd]
      simp [textLt]

theorem textLt_asymm {t u : Text} (h : textLt t u = true) : ¬ textLt u t = true := by
  rw [textLt_iff] at h ⊢
  exact asymm h

theorem textLt_trans {t u v : Text} (h : textLt t u = true) (h' : textLt u v = true) :
    textLt t v = true := by
  rw [textLt_iff] at h h' ⊢
  exact List.lex_trans (fun hxy hyz => Char.lt_trans hxy hyz) h h'

theorem textLt_or_eq {t u : Text} (h : ¬ textLt t u = true) : u = t ∨ textLt u t = true := by
  rw [textLt_iff] at h ⊢
  rcases trichotomous_of (List.Lex (· < · : Char → Char → Prop)) u t with hut | heq | htu
  · exact .inr hut
  · exact .inl heq
  · exact absurd htu h

theorem mem_insertSorted {t u : Text} {l : List Text} : u ∈ insertSorted t l ↔ u = t ∨ u ∈ l := by
  induction l with
  | nil => simp [insertSorted]
  | cons v l ih =>
    unfold insertSorted
    split
    · simp
    · split
      · next heq => simp [beq_iff_eq.mp heq]
      · simp only [List.mem_cons, ih]
        exact or_left_comm

theorem insertSorted_sorted {t : Text} {l : List Text} (h : l.Pairwise (textLt · ·)) :
    (insertSorted t l).Pairwise (textLt · ·) := by
  induction l with
  | nil => simp [insertSorted]
  | cons v l ih =>
    obtain ⟨hv, hl⟩ := List.pairwise_cons.mp h
    unfold insertSorted
    split
    · next htv =>
      refine List.pairwise_cons.mpr ⟨fun u hu => ?_, h⟩
      rcases List.mem_cons.mp hu with rfl | hu
      · exact htv
      · exact textLt_trans htv (hv u hu)
    · next hnot =>
      split
      · exact h
      · next hne =>
        have hvt : textLt v t = true :=
          (textLt_or_eq hnot).resolve_left fun heq => hne (beq_iff_eq.mpr heq.symm)
        refine List.pairwise_cons.mpr ⟨fun u hu => ?_, ih hl⟩
        rcases mem_insertSorted.mp hu with rfl | hu
        · exact hvt
        · exact hv u hu

theorem mem_sortUnique {t : Text} {l : List Text} : t ∈ sortUnique l ↔ t ∈ l := by
  induction l with
  | nil => rfl
  | cons u l ih =>
    show t ∈ insertSorted u (sortUnique l) ↔ _
    rw [mem_insertSorted, ih, List.mem_cons]

theorem sortUnique_sorted (l : List Text) : (sortUnique l).Pairwise (textLt · ·) := by
  induction l with
  | nil => exact .nil
  | cons t l ih => exact insertSorted_sorted ih

def plainSortingShell : SortingShell where
  toShell := plainShell
  lt := (textLt · ·)
  lt_asymm := fun _ _ => textLt_asymm
  mem_sortU := fun _ _ => mem_sortUnique
  sortU_sorted := sortUnique_sorted

end ProxyGateway.Smart
