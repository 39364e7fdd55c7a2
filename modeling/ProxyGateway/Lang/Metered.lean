/-
# ProxyGateway.Lang.Metered — Go scanners that count what they do

A `Metered κ α` is a `Scan α` with a count for every counter in `κ`.  The counts are an observation:
`outcome` forgets them, and it turns `charge` into nothing and sequencing into sequencing, so a scanner
written with counters is compared with the one written without by `simp`.

`Affords b m Q` is the rule of credits.  With `b` credits in hand, `m` never needs more than `b` of any
counter, and when it returns `a` it leaves an amount that satisfies `Q a`.  A loop that pays for its
turns out of what it moves forward needs an invariant of the form "so many credits for each byte that
is still ahead", and no count of its turns.
-/
import Mathlib.Algebra.Group.Pi.Basic
import Mathlib.Algebra.Ring.Nat
import ProxyGateway.Lang.GoSlice

namespace ProxyGateway.Lang

universe u v

/-- A scanner's outcome, with what it used of each counter. -/
structure Metered (κ : Type v) (α : Type u) where
  work : κ → Nat
  outcome : Scan α

namespace Metered

variable {κ : Type v} {α β : Type u}

/-- Sequencing, where the second half knows what the first returned.  The counts add up, and after a
refusal or a panic nothing more is counted. -/
def andThen (m : Metered κ α) (f : (a : α) → m.outcome = .ok a → Metered κ β) : Metered κ β :=
  match h : m.outcome with
  | .ok a => ⟨m.work + (f a h).work, (f a h).outcome⟩
  | .reject => ⟨m.work, .reject⟩
  | .panic => ⟨m.work, .panic⟩

instance : Monad (Metered κ) where
  pure a := ⟨0, .ok a⟩
  bind m f := m.andThen fun a _ => f a

/-- A step that is not counted. -/
def free (m : Scan α) : Metered κ α := ⟨0, m⟩

/-- `n` units of the counter `k`. -/
def charge [DecidableEq κ] (k : κ) (n : Nat) : Metered κ PUnit := ⟨Pi.single k n, .ok .unit⟩

/-- The caller looks at the refusal itself: `none` stands for `"", false`. -/
def attempt (m : Metered κ α) : Metered κ (Option α) where
  work := m.work
  outcome :=
    match m.outcome with
    | .ok a => .ok (some a)
    | .reject => .ok none
    | .panic => .panic

/-! ## Forgetting the counts -/

@[simp] theorem outcome_pure (a : α) : (pure a : Metered κ α).outcome = .ok a := rfl

@[simp] theorem outcome_free (m : Scan α) : (free m : Metered κ α).outcome = m := rfl

@[simp] theorem outcome_charge [DecidableEq κ] (k : κ) (n : Nat) :
    (charge k n : Metered κ PUnit.{u + 1}).outcome = .ok .unit := rfl

/-- A loop that carries the proof on forgets it together with the counts. -/
theorem outcome_andThen {m : Metered κ α} {f : (a : α) → m.outcome = .ok a → Metered κ β}
    {g : α → Scan β} (h : ∀ a ha, (f a ha).outcome = g a) :
    (m.andThen f).outcome = m.outcome >>= g := by
  unfold andThen
  split <;> rename_i hm
  · exact (h _ hm).trans (Scan.bind_of_ok hm rfl).symm
  · rw [hm, Scan.reject_bind]
  · rw [hm, Scan.panic_bind]

@[simp] theorem outcome_bind (m : Metered κ α) (f : α → Metered κ β) :
    (m >>= f).outcome = m.outcome >>= fun a => (f a).outcome :=
  outcome_andThen fun _ _ => rfl

@[simp] theorem outcome_ite (c : Prop) [Decidable c] (m n : Metered κ α) :
    (if c then m else n).outcome = if c then m.outcome else n.outcome := by
  split <;> rfl

end Metered

/-! ## Credits -/

/-- **`Affords b m Q`** — `b` credits cover every counter of `m`, and a value that is returned leaves an
amount that satisfies `Q`. -/
def Affords {κ : Type v} {α : Type u} (b : Nat) (m : Metered κ α) (Q : α → Nat → Prop) : Prop :=
  (∀ k, m.work k ≤ b) ∧ ∀ a, m.outcome = .ok a → ∃ left, (∀ k, m.work k + left ≤ b) ∧ Q a left

section Rules

variable {κ : Type v} {α β : Type u} {b : Nat}

theorem Affords.mono {m : Metered κ α} {Q R : α → Nat → Prop} (h : Affords b m Q)
    (hqr : ∀ a left, Q a left → R a left) : Affords b m R :=
  ⟨h.1, fun a ha => by
    obtain ⟨left, hle, hq⟩ := h.2 a ha
    exact ⟨left, hle, hqr a left hq⟩⟩

/-- A step that is not counted leaves the credits as they are. -/
theorem affords_free {m : Scan α} :
    Affords b (Metered.free m : Metered κ α) (fun a left => m = .ok a ∧ left = b) :=
  ⟨fun _ => Nat.zero_le _, fun _ ha => ⟨b, fun _ => Nat.le_of_eq (Nat.zero_add b), ha, rfl⟩⟩

theorem affords_pure {a : α} {Q : α → Nat → Prop} (h : Q a b) :
    Affords b (pure a : Metered κ α) Q :=
  ⟨fun _ => Nat.zero_le _, fun _ ha =>
    ⟨b, fun _ => Nat.le_of_eq (Nat.zero_add b), Scan.ok.inj ha ▸ h⟩⟩

/-- Behind a guard it is known not to have fired. -/
theorem affords_refuseIf {c : Prop} [Decidable c] :
    Affords b (Metered.free (refuseIf c) : Metered κ Unit) (fun _ left => ¬ c ∧ left = b) :=
  affords_free.mono fun _ _ h => ⟨refuseIf_eq_ok.mp h.1, h.2⟩

theorem affords_charge [DecidableEq κ] {k : κ} {n : Nat} (hn : n ≤ b) :
    Affords b (Metered.charge k n : Metered κ PUnit.{u + 1}) (fun _ left => b = left + n) := by
  have hwork : ∀ k', (Pi.single k n : κ → Nat) k' ≤ n := fun k' => by
    by_cases hk : k' = k
    · subst hk
      have hone : (Pi.single k' n : κ → Nat) k' = n := by rw [Pi.single_eq_same]
      exact Nat.le_of_eq hone
    · rw [Pi.single_eq_of_ne hk]
      exact Nat.zero_le n
  refine ⟨fun k' => Nat.le_trans (hwork k') hn, fun _ _ => ⟨b - n, fun k' => ?_, by omega⟩⟩
  have := hwork k'
  change (Pi.single k n : κ → Nat) k' + (b - n) ≤ b
  omega

/-- Sequencing: what the first half leaves pays for the second. -/
theorem Affords.andThen {m : Metered κ α} {f : (a : α) → m.outcome = .ok a → Metered κ β}
    {Q : α → Nat → Prop} {R : β → Nat → Prop} (hm : Affords b m Q)
    (hf : ∀ a ha left, Q a left → Affords left (f a ha) R) : Affords b (m.andThen f) R := by
  unfold Metered.andThen
  split
  · next a ha =>
    obtain ⟨left, hle, hq⟩ := hm.2 a ha
    obtain ⟨hwork, hret⟩ := hf a ha left hq
    refine ⟨fun k => ?_, fun c hc => ?_⟩
    · have := hle k
      have := hwork k
      simp only [Pi.add_apply]
      omega
    · obtain ⟨left', hle', hr⟩ := hret c hc
      refine ⟨left', fun k => ?_, hr⟩
      have := hle k
      have := hle' k
      simp only [Pi.add_apply]
      omega
  · exact ⟨hm.1, fun _ hc => nomatch hc⟩
  · exact ⟨hm.1, fun _ hc => nomatch hc⟩

theorem Affords.bind {m : Metered κ α} {f : α → Metered κ β} {Q : α → Nat → Prop}
    {R : β → Nat → Prop} (hm : Affords b m Q)
    (hf : ∀ a left, Q a left → Affords left (f a) R) : Affords b (m >>= f) R :=
  hm.andThen fun a _ left hq => hf a left hq

/-- Credits that are put aside are still there afterwards, whatever the outcome. -/
theorem Affords.attempt {m : Metered κ α} {c : Nat} {Q : α → Nat → Prop} (hm : Affords b m Q) :
    Affords (b + c) m.attempt (fun _ left => left = c) :=
  ⟨fun k => Nat.le_trans (hm.1 k) (Nat.le_add_right b c),
    fun _ _ => ⟨c, fun k => Nat.add_le_add_right (hm.1 k) c, rfl⟩⟩

end Rules

end ProxyGateway.Lang
