/-
# ProxyGateway.Logic.Batches — a stream cut into batches of one size

Elements arrive one by one and go into an open batch, which is closed when it has `n` of them.  The
batches so far are the closed ones, and the open one if it has anything in it: nothing is lost or
doubled (`flatten_all`), each has between one and `n` elements (`length_mem_all`), and only the last may
have fewer than `n` (`length_mem_dropLast_all`).
-/
import Mathlib.Data.List.Basic

namespace ProxyGateway.Logic

universe u

/-- The closed batches, and the open one. -/
structure Batches (α : Type u) where
  closed : List (List α)
  current : List α

namespace Batches

variable {α : Type u} (n : Nat)

/-- One more element. -/
def add (b : Batches α) (a : α) : Batches α :=
  if n ≤ b.current.length + 1 then ⟨b.closed ++ [b.current ++ [a]], []⟩
  else ⟨b.closed, b.current ++ [a]⟩

/-- The batches so far. -/
def all (b : Batches α) : List (List α) :=
  if b.current = [] then b.closed else b.closed ++ [b.current]

/-- The batches of a list. -/
def ofList (l : List α) : Batches α := l.foldl (add n) ⟨[], []⟩

/-- Closed batches are full, and the open one is not. -/
structure Sized (b : Batches α) : Prop where
  closed : ∀ x ∈ b.closed, x.length = n
  current : b.current.length < n

variable {n} {b : Batches α}

theorem Sized.add (h : b.Sized n) (a : α) : (b.add n a).Sized n := by
  have hcurrent := h.current
  unfold Batches.add
  split
  · next hfull =>
    refine ⟨fun x hx => ?_, show 0 < n by omega⟩
    rcases List.mem_append.mp hx with hx | hx
    · exact h.closed x hx
    · rw [List.mem_singleton.mp hx, List.length_append, List.length_singleton]
      omega
  · next hroom =>
    refine ⟨h.closed, ?_⟩
    show (b.current ++ [a]).length < n
    rw [List.length_append, List.length_singleton]
    omega

/-- Adding to the open batch, whether it is closed then or not. -/
theorem all_add (b : Batches α) (a : α) : (b.add n a).all = b.closed ++ [b.current ++ [a]] := by
  unfold add all
  split <;> simp

theorem flatten_all_add (b : Batches α) (a : α) : (b.add n a).all.flatten = b.all.flatten ++ [a] := by
  rw [all_add, all]
  split
  · next h => simp [h]
  · simp

theorem Sized.ofList (hn : 0 < n) (l : List α) : (ofList n l).Sized n := by
  have hall : ∀ (l : List α) {b : Batches α}, b.Sized n → (l.foldl (Batches.add n) b).Sized n := by
    intro l
    induction l with
    | nil => exact fun h => h
    | cons a l ih => exact fun h => ih (h.add a)
  exact hall l ⟨fun x hx => absurd hx (List.not_mem_nil), hn⟩

/-- **`flatten_all`** — the batches, one after the other, are the list. -/
theorem flatten_all (l : List α) : (ofList n l).all.flatten = l := by
  have hall : ∀ (l : List α) (b : Batches α),
      (l.foldl (Batches.add n) b).all.flatten = b.all.flatten ++ l := by
    intro l
    induction l with
    | nil => exact fun b => (List.append_nil _).symm
    | cons a l ih =>
      intro b
      rw [List.foldl_cons, ih, flatten_all_add, List.append_assoc, List.singleton_append]
  rw [ofList, hall]
  rfl

/-- No batch is empty, and none has more than `n` elements. -/
theorem length_mem_all (hn : 0 < n) (h : b.Sized n) {x : List α} (hx : x ∈ b.all) :
    0 < x.length ∧ x.length ≤ n := by
  have hcurrent := h.current
  unfold all at hx
  split at hx
  · rw [h.closed x hx]
    omega
  · next hne =>
    rcases List.mem_append.mp hx with hx | hx
    · rw [h.closed x hx]
      omega
    · rw [List.mem_singleton.mp hx]
      exact ⟨List.length_pos_iff.mpr hne, Nat.le_of_lt hcurrent⟩

/-- All but the last are full. -/
theorem length_mem_dropLast_all (h : b.Sized n) {x : List α} (hx : x ∈ b.all.dropLast) :
    x.length = n := by
  unfold all at hx
  split at hx
  · exact h.closed x ((List.dropLast_sublist _).subset hx)
  · rw [List.dropLast_concat] at hx
    exact h.closed x hx

end Batches

end ProxyGateway.Logic
