/-
# ProxyGateway.Lang.GoSlice — Go functions over byte slices that may reject or panic

A Go parser of untrusted bytes has three ways to end: it returns a value, it returns "not mine"
(`return "", false`), or a slice expression or an index is out of bounds and the goroutine panics.
`Scan` is that three-way outcome.  Slicing and indexing are CHECKED here: `slice xs lo hi` panics
unless `lo ≤ hi ≤ len(xs)`, the Go rule for a slice whose capacity equals its length.

`Safe m Q` is the matching rule of pre- and postconditions: `m` does not panic, and whatever it
returns satisfies `Q`.  One rule per construct (`Safe.bind`, `safe_refuseIf`, `safe_index`,
`safe_slice`, ...) makes a bounds proof follow the text of the parser.
-/
import Mathlib.Data.List.Basic

namespace ProxyGateway.Lang

universe u v

/-! ## Outcomes -/

/-- The outcome of a Go scanner: a value, a deliberate refusal, or a run-time panic. -/
inductive Scan (α : Type u) where
  | ok (a : α)
  | reject
  | panic
  deriving DecidableEq, Repr

namespace Scan

variable {α : Type u} {β : Type v}

/-- Sequencing: a refusal or a panic ends the function at once. -/
def bind (m : Scan α) (f : α → Scan β) : Scan β :=
  match m with
  | .ok a => f a
  | .reject => .reject
  | .panic => .panic

instance : Monad Scan where
  pure := Scan.ok
  bind := Scan.bind

@[simp] theorem pure_def (a : α) : (pure a : Scan α) = .ok a := rfl

@[simp] theorem ok_bind {α β : Type u} (a : α) (f : α → Scan β) : (Scan.ok a >>= f) = f a := rfl

@[simp] theorem reject_bind {α β : Type u} (f : α → Scan β) :
    ((Scan.reject : Scan α) >>= f) = .reject := rfl

@[simp] theorem panic_bind {α β : Type u} (f : α → Scan β) :
    ((Scan.panic : Scan α) >>= f) = .panic := rfl

/-- Returning what was just returned. -/
theorem bind_ok {α : Type u} (m : Scan α) : (m >>= fun a => .ok a) = m := by
  cases m <;> rfl

/-- Running a sequence whose first half is known. -/
theorem bind_of_ok {α β : Type u} {m : Scan α} {f : α → Scan β} {a : α} {r : Scan β}
    (h : m = .ok a) (hf : f a = r) : (m >>= f) = r := by
  rw [h, ok_bind, hf]

/-- A sequence panics in its first half, or in its second half on the value of the first. -/
theorem bind_eq_panic {α β : Type u} {m : Scan α} {f : α → Scan β} :
    (m >>= f) = .panic ↔ m = .panic ∨ ∃ a, m = .ok a ∧ f a = .panic := by
  cases m <;> simp

end Scan

/-! ## Guards, slices and indices -/

/-- `if c { return "", false }`. -/
def refuseIf (c : Prop) [Decidable c] : Scan Unit := if c then .reject else .ok ()

/-- `xs[i]`. -/
def index {α : Type u} (xs : List α) (i : Nat) : Scan α :=
  match xs[i]? with
  | some a => .ok a
  | none => .panic

/-- `xs[lo:hi]`. -/
def slice {α : Type u} (xs : List α) (lo hi : Nat) : Scan (List α) :=
  if lo ≤ hi ∧ hi ≤ xs.length then .ok ((xs.take hi).drop lo) else .panic

/-- `xs[lo:]`. -/
def sliceFrom {α : Type u} (xs : List α) (lo : Nat) : Scan (List α) :=
  if lo ≤ xs.length then .ok (xs.drop lo) else .panic

/-- `copy(dst, src)`: overwrites the front of `dst` and keeps its length. -/
def goCopy {α : Type u} (dst src : List α) : List α := src.take dst.length ++ dst.drop src.length

theorem refuseIf_pos {c : Prop} [Decidable c] (h : c) : refuseIf c = .reject := if_pos h

theorem refuseIf_neg {c : Prop} [Decidable c] (h : ¬ c) : refuseIf c = .ok () := if_neg h

theorem index_eq_ok {α : Type u} {xs : List α} {i : Nat} {a : α} (h : xs[i]? = some a) :
    index xs i = .ok a := by
  simp [index, h]

theorem slice_of_le {α : Type u} {xs : List α} {lo hi : Nat} (h₁ : lo ≤ hi)
    (h₂ : hi ≤ xs.length) : slice xs lo hi = .ok ((xs.take hi).drop lo) := if_pos ⟨h₁, h₂⟩

theorem sliceFrom_of_le {α : Type u} {xs : List α} {lo : Nat} (h : lo ≤ xs.length) :
    sliceFrom xs lo = .ok (xs.drop lo) := if_pos h

/-- Indexing, and slicing, a byte string that is known as a concatenation. -/
theorem index_append {α : Type u} {xs q : List α} (pre : List α) {a : α} {i : Nat}
    (h : xs = pre ++ a :: q) (hi : i = pre.length) : index xs i = .ok a :=
  index_eq_ok (by rw [h, hi]; simp)

theorem slice_append {α : Type u} {xs q : List α} (pre mid : List α) {lo hi : Nat}
    (h : xs = pre ++ (mid ++ q)) (hlo : lo = pre.length) (hhi : hi = lo + mid.length) :
    slice xs lo hi = .ok mid := by
  rw [h, hhi, hlo, slice_of_le (by omega) (by simp only [List.length_append]; omega)]
  simp [List.take_append]

theorem sliceFrom_append {α : Type u} {xs p q : List α} {lo : Nat} (h : xs = p ++ q)
    (hlo : lo = p.length) : sliceFrom xs lo = .ok q := by
  rw [h, hlo, sliceFrom_of_le (by simp)]
  simp

/-! ## What a returned value says -/

theorem Scan.bind_eq_ok {α β : Type u} {m : Scan α} {f : α → Scan β} {b : β} :
    (m >>= f) = .ok b ↔ ∃ a, m = .ok a ∧ f a = .ok b := by
  cases m <;> simp

theorem refuseIf_eq_ok {c : Prop} [Decidable c] {u : Unit} : refuseIf c = .ok u ↔ ¬ c := by
  by_cases h : c
  · exact iff_of_false (by rw [refuseIf_pos h]; nofun) (not_not_intro h)
  · exact iff_of_true (refuseIf_neg h) h

/-- A slice that succeeds is in bounds. -/
theorem slice_eq_ok {α : Type u} {xs ys : List α} {lo hi : Nat} (h : slice xs lo hi = .ok ys) :
    lo ≤ hi ∧ hi ≤ xs.length ∧ ys.length = hi - lo := by
  unfold slice at h
  split at h
  · next hb =>
    rw [← Scan.ok.inj h, List.length_drop, List.length_take, Nat.min_eq_left hb.2]
    exact ⟨hb.1, hb.2, rfl⟩
  · nomatch h

/-- Taking the next `n` elements off a list that has them. -/
theorem exists_split {α : Type u} {n : Nat} {xs : List α} (h : n ≤ xs.length) :
    ∃ mid post, xs = mid ++ post ∧ mid.length = n :=
  ⟨xs.take n, xs.drop n, (List.take_append_drop n xs).symm, List.length_take_of_le h⟩

/-- An index that succeeds at the end of a known prefix reads the next element. -/
theorem index_split {α : Type u} {xs p r : List α} {a : α} {i : Nat}
    (h : index xs i = .ok a) (hx : xs = p ++ r) (hi : i = p.length) :
    ∃ post, r = a :: post := by
  subst hx hi
  cases r with
  | nil => simp [index] at h
  | cons b post =>
    rw [index_append p rfl rfl] at h
    exact ⟨post, by rw [Scan.ok.inj h]⟩

/-- A slice that succeeds at the end of a known prefix reads the next elements. -/
theorem slice_split {α : Type u} {xs p r ys : List α} {lo hi : Nat}
    (h : slice xs lo hi = .ok ys) (hx : xs = p ++ r) (hlo : lo = p.length) :
    hi = lo + ys.length ∧ ∃ post, r = ys ++ post := by
  subst hx hlo
  unfold slice at h
  split at h
  · rename_i hb
    obtain ⟨hle, hend⟩ := hb
    rw [List.length_append] at hend
    obtain ⟨mid, post, rfl, hmid⟩ : ∃ mid post, r = mid ++ post ∧
        mid.length = hi - p.length := exists_split (by omega)
    have hcut : slice (p ++ (mid ++ post)) p.length hi = .ok mid :=
      slice_append p mid rfl rfl (by omega)
    rw [slice_of_le hle (by simp only [List.length_append] at hend ⊢; omega)] at hcut
    rw [hcut] at h
    obtain rfl : mid = ys := Scan.ok.inj h
    exact ⟨by omega, post, rfl⟩
  · nomatch h

/-! ## Cursors -/

/-- **`At xs off rest`** — from offset `off` on, `xs` reads `rest`. -/
def At {α : Type u} (xs : List α) (off : Nat) (rest : List α) : Prop :=
  ∃ pre, xs = pre ++ rest ∧ off = pre.length

namespace At

variable {α : Type u} {xs ys rest : List α} {off : Nat} {a : α}

theorem zero (xs : List α) : At xs 0 xs := ⟨[], rfl, rfl⟩

theorem length_eq (h : At xs off rest) : xs.length = off + rest.length := by
  obtain ⟨pre, rfl, rfl⟩ := h
  exact List.length_append

theorem lt_length (h : At xs off (a :: rest)) : off < xs.length := by
  rw [h.length_eq, List.length_cons]
  omega

/-- Stepping over what was read. -/
theorem advance (h : At xs off (ys ++ rest)) : At xs (off + ys.length) rest := by
  obtain ⟨pre, rfl, rfl⟩ := h
  exact ⟨pre ++ ys, (List.append_assoc pre ys rest).symm, List.length_append.symm⟩

theorem succ (h : At xs off (a :: rest)) : At xs (off + 1) rest := by
  have hcons : At xs off ([a] ++ rest) := h
  exact hcons.advance

theorem sliceFrom (h : At xs off rest) : sliceFrom xs off = .ok rest := by
  obtain ⟨pre, hx, ho⟩ := h
  exact sliceFrom_append hx ho

theorem index (h : At xs off (a :: rest)) : index xs off = .ok a := by
  obtain ⟨pre, hx, ho⟩ := h
  exact index_append pre hx ho

theorem slice (h : At xs off (ys ++ rest)) : slice xs off (off + ys.length) = .ok ys := by
  obtain ⟨pre, hx, ho⟩ := h
  exact slice_append pre ys hx ho rfl

/-- A cursor inside the list reads something. -/
theorem of_lt (h : At xs off rest) (hlt : off < xs.length) : ∃ b r, rest = b :: r := by
  cases rest with
  | nil =>
    have hlen := h.length_eq
    rw [List.length_nil] at hlen
    omega
  | cons b r => exact ⟨b, r, rfl⟩

end At

/-! ## Safety triples -/

/-- **`Safe m Q`** — `m` does not panic, and a value it returns satisfies `Q`. -/
def Safe {α : Type u} (m : Scan α) (Q : α → Prop) : Prop :=
  match m with
  | .ok a => Q a
  | .reject => True
  | .panic => False

theorem Safe.ne_panic {α : Type u} {m : Scan α} {Q : α → Prop} (h : Safe m Q) : m ≠ .panic := by
  rintro rfl
  exact h

theorem Safe.of_eq_ok {α : Type u} {m : Scan α} {Q : α → Prop} {a : α} (h : Safe m Q)
    (ha : m = .ok a) : Q a := by
  subst ha
  exact h

theorem safe_ok {α : Type u} {a : α} {Q : α → Prop} (h : Q a) : Safe (Scan.ok a) Q := h

theorem safe_reject {α : Type u} {Q : α → Prop} : Safe (Scan.reject : Scan α) Q := trivial

theorem Safe.mono {α : Type u} {m : Scan α} {Q R : α → Prop} (h : Safe m Q)
    (hqr : ∀ a, Q a → R a) : Safe m R := by
  cases m with
  | ok a => exact hqr a h
  | reject => trivial
  | panic => exact h

theorem Safe.bind {α β : Type u} {m : Scan α} {f : α → Scan β} {Q : α → Prop} {R : β → Prop}
    (hm : Safe m Q) (hf : ∀ a, Q a → Safe (f a) R) : Safe (m >>= f) R := by
  cases m with
  | ok a => exact hf a hm
  | reject => trivial
  | panic => exact hm.elim

/-- After a guard the rest may assume that the guard did not fire. -/
theorem safe_refuseIf {c : Prop} [Decidable c] : Safe (refuseIf c) (fun _ => ¬ c) := by
  by_cases h : c
  · rw [refuseIf_pos h]; trivial
  · rw [refuseIf_neg h]; exact h

theorem safe_index {α : Type u} {xs : List α} {i : Nat} (h : i < xs.length) :
    Safe (index xs i) (fun a => xs[i]? = some a) := by
  rw [index_eq_ok (List.getElem?_eq_getElem h)]
  exact List.getElem?_eq_getElem h

theorem safe_slice {α : Type u} {xs : List α} {lo hi : Nat} (h₁ : lo ≤ hi)
    (h₂ : hi ≤ xs.length) : Safe (slice xs lo hi) (fun ys => ys.length = hi - lo) := by
  rw [slice_of_le h₁ h₂]
  refine safe_ok ?_
  rw [List.length_drop, List.length_take, Nat.min_eq_left h₂]

theorem safe_sliceFrom {α : Type u} {xs : List α} {lo : Nat} (h : lo ≤ xs.length) :
    Safe (sliceFrom xs lo) (fun ys => ys = xs.drop lo) := by
  rw [sliceFrom_of_le h]
  exact rfl

@[simp] theorem goCopy_length {α : Type u} (dst src : List α) :
    (goCopy dst src).length = dst.length := by
  simp only [goCopy, List.length_append, List.length_take, List.length_drop]
  omega

/-- Copying a slice of the same length replaces the destination. -/
theorem goCopy_of_length_eq {α : Type u} {dst src : List α} (h : src.length = dst.length) :
    goCopy dst src = src := by
  simp [goCopy, ← h]

end ProxyGateway.Lang
