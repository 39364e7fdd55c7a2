/-
# ProxyGateway.Logic.Pieces — a list cut at fixed positions, and an automaton that reads it

`pieces n l` cuts a list at every multiple of `n`.  An automaton reads a word and ends where it began
(`Returns`), or it does not.  Whether it does so on every piece of a word that it returns on is a
question about the cuts: each has to be a place where it is back at its start (`returns_pieces_iff`).
Then what it writes on the way is what it writes on the pieces, one after the other
(`written_pieces`).
-/
import ProxyGateway.Logic.Machine
import Mathlib.Data.List.Range

namespace ProxyGateway.Logic

universe u v w

section Pieces

variable {α : Type u}

/-- `l[i : i + n]` for `i` in `range(0, len(l), n)`. -/
def pieces (n : Nat) (l : List α) : List (List α) :=
  (List.range' 0 ((l.length + n - 1) / n) n).map fun i => (l.drop i).take n

variable {n : Nat} {l piece : List α}

theorem mem_pieces (hn : 0 < n) :
    piece ∈ pieces n l ↔ ∃ k, k * n < l.length ∧ piece = (l.drop (k * n)).take n := by
  have hcount : ∀ k, k < (l.length + n - 1) / n ↔ k * n < l.length := by
    intro k
    rw [Nat.lt_iff_add_one_le, Nat.le_div_iff_mul_le hn, Nat.add_mul, Nat.one_mul]
    omega
  simp only [pieces, List.mem_map, List.mem_range', Nat.zero_add]
  constructor
  · rintro ⟨i, ⟨k, hk, rfl⟩, rfl⟩
    rw [Nat.mul_comm]
    exact ⟨k, (hcount k).mp hk, rfl⟩
  · rintro ⟨k, hk, rfl⟩
    exact ⟨n * k, ⟨k, (hcount k).mpr hk, rfl⟩, by rw [Nat.mul_comm]⟩

theorem length_le_of_mem_pieces (hn : 0 < n) (h : piece ∈ pieces n l) : piece.length ≤ n := by
  obtain ⟨k, -, rfl⟩ := (mem_pieces hn).mp h
  exact List.length_take_le _ _

/-- **`flatten_pieces`** — nothing is lost. -/
theorem flatten_pieces (hn : 0 < n) (l : List α) : (pieces n l).flatten = l := by
  have hfront : ∀ m, ((List.range' 0 m n).map fun i => (l.drop i).take n).flatten = l.take (m * n) := by
    intro m
    induction m with
    | zero => rw [Nat.zero_mul, List.take_zero]; rfl
    | succ m ih =>
      rw [List.range'_concat, List.map_append, List.flatten_append, ih, Nat.zero_add, Nat.add_mul,
        Nat.one_mul, List.take_add, Nat.mul_comm n m]
      simp
  have hall : l.length ≤ (l.length + n - 1) / n * n := by
    have hmod := Nat.div_add_mod (l.length + n - 1) n
    have hlt := Nat.mod_lt (l.length + n - 1) hn
    rw [Nat.mul_comm] at hmod
    omega
  rw [pieces, hfront, List.take_of_length_le hall]

end Pieces

section Automaton

variable {σ : Type u} {ε : Type v} {β : Type w} (step : σ → ε → Option σ) (home : σ)

/-- The automaton reads the word, and is back where it started. -/
def Returns (word : List ε) : Prop := run step home word = some home

/-- What it writes. -/
def written (write : σ → ε → List β) : σ → List ε → List β
  | _, [] => []
  | s, e :: es => write s e ++
      match step s e with
      | some s' => written write s' es
      | none => []

variable {step home} {write : σ → ε → List β}

theorem returns_nil : Returns step home [] := rfl

theorem returns_append {a : List ε} (ha : Returns step home a) (b : List ε) :
    Returns step home (a ++ b) ↔ Returns step home b := by
  unfold Returns at ha ⊢
  rw [run_append, ha, Option.bind_some]

theorem written_append {s s' : σ} {a : List ε} (h : run step s a = some s') (b : List ε) :
    written step write s (a ++ b) = written step write s a ++ written step write s' b := by
  induction a generalizing s with
  | nil =>
    obtain rfl : s = s' := by simpa [run] using h
    rfl
  | cons e es ih =>
    obtain ⟨t, hstep, hrest⟩ := Option.bind_eq_some_iff.mp h
    simp only [List.cons_append, written, hstep, ih hrest, List.append_assoc]

variable {n : Nat} {word : List ε}

/-- **`returns_pieces_iff`** — the automaton returns on every piece if and only if it is at its start at
every cut. -/
theorem returns_pieces_iff (hn : 0 < n) (hword : Returns step home word) :
    (∀ piece ∈ pieces n word, Returns step home piece) ↔
      ∀ k, k * n < word.length → Returns step home (word.take (k * n)) := by
  have hsucc : ∀ k, word.take ((k + 1) * n) = word.take (k * n) ++ (word.drop (k * n)).take n := by
    intro k
    rw [Nat.add_mul, Nat.one_mul, List.take_add]
  constructor
  · intro hpieces k
    induction k with
    | zero =>
      intro _
      rw [Nat.zero_mul, List.take_zero]
      exact returns_nil
    | succ k ih =>
      intro hk
      have hprev : k * n < word.length := by
        rw [Nat.add_mul] at hk
        omega
      rw [hsucc, returns_append (ih hprev)]
      exact hpieces _ ((mem_pieces hn).mpr ⟨k, hprev, rfl⟩)
  · intro hcuts piece hpiece
    obtain ⟨k, hk, rfl⟩ := (mem_pieces hn).mp hpiece
    rw [← returns_append (hcuts k hk), ← hsucc]
    by_cases hnext : (k + 1) * n < word.length
    · exact hcuts (k + 1) hnext
    · rwa [List.take_of_length_le (Nat.le_of_not_lt hnext)]

/-- **`written_pieces`** — what is written on the pieces. -/
theorem written_pieces (hn : 0 < n) (hpieces : ∀ piece ∈ pieces n word, Returns step home piece) :
    (pieces n word).flatMap (written step write home) = written step write home word := by
  have hflatten : ∀ words : List (List ε), (∀ w ∈ words, Returns step home w) →
      words.flatMap (written step write home) = written step write home words.flatten := by
    intro words hwords
    induction words with
    | nil => rfl
    | cons w words ih =>
      rw [List.flatMap_cons, List.flatten_cons, written_append (hwords w (List.mem_cons_self ..)),
        ih fun x hx => hwords x (List.mem_cons_of_mem _ hx)]
  rw [hflatten _ hpieces, flatten_pieces hn]

end Automaton

end ProxyGateway.Logic
