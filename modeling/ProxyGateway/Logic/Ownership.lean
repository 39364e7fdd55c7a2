/-
# ProxyGateway.Logic.Ownership — resources in slots, each live resource in exactly one

A resource is opened, handed from one place to another, and closed.  The places are slots, and a slot
holds at most one resource, so a state of the discipline is a function `slot : H → Option R`.
`Exclusive slot live` says that no live resource is lost and none has two owners: the live resources
are those in a slot, and no resource is in two slots.

A step of a program that keeps the discipline is one of three updates of `slot` (acquire, move,
release), or none.
-/
import Mathlib.Logic.Function.Basic

namespace ProxyGateway.Logic

universe u v

/-- **`Exclusive slot live`** — the live resources are those in a slot, and each is in one. -/
structure Exclusive {H : Type u} {R : Type v} (slot : H → Option R) (live : R → Prop) : Prop where
  live_iff : ∀ r, live r ↔ ∃ h, slot h = some r
  unique : ∀ h h' r, slot h = some r → slot h' = some r → h = h'

namespace Exclusive

variable {H : Type u} {R : Type v} {slot : H → Option R} {live live' : R → Prop} {h h' : H} {r : R}

variable [DecidableEq H]

/-- A new resource goes into an empty slot. -/
theorem acquire (hx : Exclusive slot live) (hempty : slot h = none) (hnew : ¬ live r)
    (hlive : ∀ t, live' t ↔ live t ∨ t = r) :
    Exclusive (Function.update slot h (some r)) live' := by
  have hother : ∀ k t, k ≠ h → Function.update slot h (some r) k = some t → slot k = some t := by
    intro k t hk hs
    rwa [Function.update_of_ne hk] at hs
  have hself : ∀ t, Function.update slot h (some r) h = some t → t = r := by
    intro t hs
    rw [Function.update_self] at hs
    exact (Option.some.inj hs).symm
  refine ⟨fun t => ?_, fun k k' t hk hk' => ?_⟩
  · rw [hlive, hx.live_iff]
    constructor
    · rintro (⟨k, hk⟩ | rfl)
      · have hkh : k ≠ h := by
          rintro rfl
          rw [hempty] at hk
          nomatch hk
        exact ⟨k, by rw [Function.update_of_ne hkh, hk]⟩
      · exact ⟨h, by rw [Function.update_self]⟩
    · rintro ⟨k, hk⟩
      by_cases hkh : k = h
      · subst hkh
        exact Or.inr (hself t hk)
      · exact Or.inl ⟨k, hother k t hkh hk⟩
  · -- the new resource was in no slot before
    have hfresh : ∀ k, slot k ≠ some r := fun k hk => hnew ((hx.live_iff r).mpr ⟨k, hk⟩)
    by_cases hkh : k = h <;> by_cases hkh' : k' = h
    · rw [hkh, hkh']
    · subst hkh
      obtain rfl := hself t hk
      exact absurd (hother k' t hkh' hk') (hfresh k')
    · subst hkh'
      obtain rfl := hself t hk'
      exact absurd (hother k t hkh hk) (hfresh k)
    · exact hx.unique k k' t (hother k t hkh hk) (hother k' t hkh' hk')

/-- A resource leaves its slot when it is closed. -/
theorem release (hx : Exclusive slot live) (hfull : slot h = some r)
    (hlive : ∀ t, live' t ↔ live t ∧ t ≠ r) : Exclusive (Function.update slot h none) live' := by
  have hother : ∀ k t, Function.update slot h none k = some t → k ≠ h ∧ slot k = some t := by
    intro k t hs
    by_cases hk : k = h
    · subst hk
      rw [Function.update_self] at hs
      nomatch hs
    · rw [Function.update_of_ne hk] at hs
      exact ⟨hk, hs⟩
  refine ⟨fun t => ?_, fun k k' t hk hk' => ?_⟩
  · rw [hlive, hx.live_iff]
    constructor
    · rintro ⟨⟨k, hk⟩, hne⟩
      have hkh : k ≠ h := by
        rintro rfl
        rw [hfull] at hk
        exact hne (Option.some.inj hk).symm
      exact ⟨k, by rw [Function.update_of_ne hkh, hk]⟩
    · rintro ⟨k, hk⟩
      obtain ⟨hkh, hk⟩ := hother k t hk
      refine ⟨⟨k, hk⟩, ?_⟩
      rintro rfl
      exact hkh (hx.unique k h t hk hfull)
  · exact hx.unique k k' t (hother k t hk).2 (hother k' t hk').2

/-- A resource changes hands. -/
theorem move (hx : Exclusive slot live) (hfull : slot h = some r) (hempty : slot h' = none) :
    Exclusive (Function.update (Function.update slot h none) h' (some r)) live := by
  have hne : h' ≠ h := by
    rintro rfl
    rw [hempty] at hfull
    nomatch hfull
  have hlive : live r := (hx.live_iff r).mpr ⟨h, hfull⟩
  have hout : Exclusive (Function.update slot h none) (fun t => live t ∧ t ≠ r) :=
    hx.release hfull fun _ => Iff.rfl
  refine hout.acquire ?_ (fun ⟨_, hr⟩ => hr rfl) fun t => ?_
  · rw [Function.update_of_ne hne, hempty]
  · constructor
    · intro ht
      by_cases hr : t = r
      · exact Or.inr hr
      · exact Or.inl ⟨ht, hr⟩
    · rintro (⟨ht, -⟩ | rfl)
      · exact ht
      · exact hlive

end Exclusive

end ProxyGateway.Logic
