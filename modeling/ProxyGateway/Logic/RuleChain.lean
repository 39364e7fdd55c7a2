/-
# ProxyGateway.Logic.RuleChain — chains of packet-filter rules

A chain is a list of rules.  A packet goes through it from the front: a rule that does not fire lets
it pass, a rule that fires ends the chain with a verdict, ends it with the policy, or changes the
packet and lets it go on.  What a rule is stays open.

The second half is about keeping a chain up to date with the two commands that packet filters have:
delete one copy of a rule, append a rule.  `replaceAll_eq`: deleting every copy of a rule and
appending one, for each of a list of rules, leaves the other rules in front, as they were, and the
list behind them, whatever copies there were before.
-/
import Mathlib.Data.List.Nodup

namespace ProxyGateway.Logic

universe u v w

variable {ρ : Type u} {π : Type v} {τ : Type w}

/-! ## A packet in a chain -/

/-- What a rule that fires does: it ends the chain, with a verdict or with the policy, or it changes
the packet. -/
inductive Effect (π : Type v) (τ : Type w) where
  | stop (verdict : Option τ)
  | go (p : π)

/-- **`runChain`** — the packet behind the chain, and what becomes of it. -/
def runChain (fires : ρ → π → Bool) (act : ρ → π → Effect π τ) (policy : τ) : List ρ → π → π × τ
  | [], p => (p, policy)
  | r :: rs, p =>
    if fires r p then
      match act r p with
      | .stop verdict => (p, verdict.getD policy)
      | .go p => runChain fires act policy rs p
    else runChain fires act policy rs p

section Run

variable {fires : ρ → π → Bool} {act : ρ → π → Effect π τ} {policy : τ} {p : π}

/-- Rules that do not fire are passed by. -/
theorem runChain_append_of_quiet {rs : List ρ} (h : ∀ r ∈ rs, fires r p = false) (rest : List ρ) :
    runChain fires act policy (rs ++ rest) p = runChain fires act policy rest p := by
  induction rs with
  | nil => rfl
  | cons r rs ih =>
    obtain ⟨hr, h⟩ := List.forall_mem_cons.mp h
    rw [List.cons_append, runChain, hr, if_neg Bool.false_ne_true]
    exact ih h

/-- Rules that all end the chain in one way are one rule, which fires when any of them does. -/
theorem runChain_append_of_stop {rs : List ρ} {verdict : Option τ}
    (h : ∀ r ∈ rs, ∀ p, act r p = .stop verdict) (rest : List ρ) :
    runChain fires act policy (rs ++ rest) p =
      if rs.any (fires · p) then (p, verdict.getD policy) else runChain fires act policy rest p := by
  induction rs with
  | nil => rfl
  | cons r rs ih =>
    obtain ⟨hr, h⟩ := List.forall_mem_cons.mp h
    rw [List.cons_append, runChain, hr p, List.any_cons]
    cases fires r p with
    | true => rfl
    | false => exact ih h

theorem runChain_of_quiet {rs : List ρ} (h : ∀ r ∈ rs, fires r p = false) :
    runChain fires act policy rs p = (p, policy) := by
  rw [← List.append_nil rs, runChain_append_of_quiet h, runChain]

theorem runChain_of_stop {rs : List ρ} {verdict : Option τ}
    (h : ∀ r ∈ rs, ∀ p, act r p = .stop verdict) :
    runChain fires act policy rs p =
      if rs.any (fires · p) then (p, verdict.getD policy) else (p, policy) := by
  rw [← List.append_nil rs, runChain_append_of_stop h, List.append_nil, runChain]

end Run

/-! ## Delete and append -/

section Update

variable [DecidableEq ρ]

/-- Deletes one copy of a rule after the other until there is none left. -/
def deleteWhile (r : ρ) (chain : List ρ) : List ρ :=
  if r ∈ chain then deleteWhile r (chain.erase r) else chain
termination_by chain.length
decreasing_by
  have hpos : 0 < chain.length := List.length_pos_of_mem ‹_›
  rw [List.length_erase_of_mem ‹_›]
  omega

theorem deleteWhile_eq (r : ρ) (chain : List ρ) : deleteWhile r chain = chain.filter (· ≠ r) := by
  fun_induction deleteWhile r chain with
  | case1 chain hmem ih =>
    obtain ⟨before, behind, -, hchain, herase⟩ := List.exists_erase_eq hmem
    rw [ih, herase, hchain, List.filter_append, List.filter_append, List.filter_cons_of_neg (by simp)]
  | case2 chain hmem =>
    refine (List.filter_eq_self.mpr fun r' hr' => ?_).symm
    exact decide_eq_true fun heq => hmem (heq ▸ hr')

/-- Deletes every copy of a rule and appends one. -/
def replace (r : ρ) (chain : List ρ) : List ρ := deleteWhile r chain ++ [r]

/-- The same for one rule after the other. -/
def replaceAll (rules chain : List ρ) : List ρ := rules.foldl (fun chain r => replace r chain) chain

/-- The rules of a chain that are not among the given ones. -/
def others (rules chain : List ρ) : List ρ := chain.filter (· ∉ rules)

/-- Only which rules are left out counts. -/
theorem others_filter_ne {r : ρ} {rules more : List ρ} (h : ∀ r', r' ∈ more ↔ r' ∈ rules ∨ r' = r)
    (chain : List ρ) : others rules (chain.filter (· ≠ r)) = others more chain := by
  rw [others, others, List.filter_filter]
  exact List.filter_congr fun r' _ => by simp [h r']

/-- **`replaceAll_eq`** — the other rules stay in front, the given ones follow, once each. -/
theorem replaceAll_eq {rules : List ρ} (h : rules.Nodup) (chain : List ρ) :
    replaceAll rules chain = others rules chain ++ rules := by
  induction rules generalizing chain with
  | nil => simp [replaceAll, others]
  | cons r rules ih =>
    obtain ⟨hr, hrules⟩ := List.nodup_cons.mp h
    have hone : replaceAll (r :: rules) chain = replaceAll rules (replace r chain) := rfl
    have hothers : others rules (replace r chain) = others (r :: rules) chain ++ [r] := by
      have hkept : others rules [r] = [r] := List.filter_cons_of_pos (decide_eq_true hr)
      have hdeleted : others rules (chain.filter (· ≠ r)) = others (r :: rules) chain :=
        others_filter_ne (fun r' => List.mem_cons.trans or_comm) chain
      rw [replace, deleteWhile_eq, others, List.filter_append]
      exact congrArg₂ (· ++ ·) hdeleted hkept
    rw [hone, ih hrules, hothers, List.append_assoc, List.singleton_append]

/-- What has been updated once is left as it is. -/
theorem others_append_self (rules chain : List ρ) :
    others rules (others rules chain ++ rules) = others rules chain := by
  have hnil : others rules rules = [] :=
    List.filter_eq_nil_iff.mpr fun r hr => by simpa using hr
  have htwice : others rules (others rules chain) = others rules chain :=
    List.filter_eq_self.mpr fun r hr => (List.mem_filter.mp hr).2
  rw [others, List.filter_append]
  exact (congrArg₂ (· ++ ·) htwice hnil).trans (List.append_nil _)

end Update

end ProxyGateway.Logic
