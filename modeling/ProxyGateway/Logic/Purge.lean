/-
# ProxyGateway.Logic.Purge — one party's side of a run

Several parties share a machine.  What one of them sees of a state, which of the events are its own, and
which of the outputs, is left open; an event may have another name on its side, such as a place in a list
of which the others' entries are gone.

Two rules make a side closed (`Side`): an event of the others changes nothing that it sees, and an event
of its own does on its side what it does in full.  Then the run without the others' events is a run too,
it ends in what is seen of the end, and it has the same outputs (`Side.purged`).

The last section is about places in a list and in what a filter leaves of it.
-/
import ProxyGateway.Logic.Machine
import Mathlib.Data.List.Basic

namespace ProxyGateway.Logic

universe u v w

variable {σ : Type u} {ε : Type v} {ο : Type w}

/-! ## Sides -/

/-- The outputs along a run. -/
def outputs (step : σ → ε → Option σ) (out : σ → ε → List ο) : σ → List ε → List ο
  | _, [] => []
  | s, e :: es =>
    out s e ++ match step s e with
      | some s' => outputs step out s' es
      | none => []

/-- **`Side`** — what a party sees of a state, with the two rules. -/
structure Side (step : σ → ε → Option σ) (out : σ → ε → List ο) where
  /-- the second state is what is seen of the first -/
  Sees : σ → σ → Prop
  /-- what an event is on this side, if it is one -/
  own : σ → ε → Option ε
  mine : ο → Bool
  skip : ∀ {s t s' : σ} {e : ε}, Sees s t → own s e = none → step s e = some s' →
    Sees s' t ∧ (out s e).filter mine = []
  take : ∀ {s t s' : σ} {e e' : ε}, Sees s t → own s e = some e' → step s e = some s' →
    ∃ t', step t e' = some t' ∧ Sees s' t' ∧ out t e' = (out s e).filter mine

section Purge

variable {step : σ → ε → Option σ} {out : σ → ε → List ο}

/-- The events of a run that are the party's own. -/
def Side.purge (V : Side step out) : σ → List ε → List ε
  | _, [] => []
  | s, e :: es =>
    (V.own s e).toList ++ match step s e with
      | some s' => V.purge s' es
      | none => []

theorem Side.purge_cons (V : Side step out) {s s' : σ} {e : ε} (h : step s e = some s')
    (es : List ε) : V.purge s (e :: es) = (V.own s e).toList ++ V.purge s' es := by
  rw [Side.purge, h]

theorem outputs_cons {s s' : σ} {e : ε} (h : step s e = some s') (es : List ε) :
    outputs step out s (e :: es) = out s e ++ outputs step out s' es := by
  rw [outputs, h]

/-- **`Side.purged`** -/
theorem Side.purged (V : Side step out) {s t s' : σ} {es : List ε} (hsees : V.Sees s t)
    (hrun : run step s es = some s') :
    ∃ t', run step t (V.purge s es) = some t' ∧ V.Sees s' t' ∧
      outputs step out t (V.purge s es) = (outputs step out s es).filter V.mine := by
  induction es generalizing s t with
  | nil =>
    obtain rfl : s = s' := by simpa [run] using hrun
    exact ⟨t, rfl, hsees, rfl⟩
  | cons e es ih =>
    obtain ⟨mid, hstep, hrest⟩ := Option.bind_eq_some_iff.mp hrun
    rw [V.purge_cons hstep, outputs_cons hstep, List.filter_append]
    cases hown : V.own s e with
    | none =>
      obtain ⟨hsees', hout⟩ := V.skip hsees hown hstep
      rw [hout]
      exact ih hsees' hrest
    | some e' =>
      obtain ⟨u, htake, hsees', hout⟩ := V.take hsees hown hstep
      obtain ⟨t', hrun', hend, houts⟩ := ih hsees' hrest
      refine ⟨t', ?_, hend, ?_⟩
      · show (step t e').bind (fun v => run step v _) = some t'
        rw [htake]
        exact hrun'
      · show outputs step out t (e' :: V.purge mid es) = _
        rw [outputs_cons htake, hout, houts]

end Purge

/-! ## Places in a filtered list -/

section Places

variable {α : Type u} {l : List α} {p : α → Bool} {i : Nat} {x : α}

/-- The place of an element among those that the filter keeps. -/
def keptIndex (p : α → Bool) (l : List α) (i : Nat) : Nat := (l.take i).countP p

theorem split_at_index (h : l[i]? = some x) : l = l.take i ++ x :: l.drop (i + 1) := by
  obtain ⟨hlt, hx⟩ := List.getElem?_eq_some_iff.mp h
  rw [← hx, List.getElem_cons_drop, List.take_append_drop]

theorem filter_split (h : l[i]? = some x) (hx : p x = true) :
    l.filter p = (l.take i).filter p ++ x :: (l.drop (i + 1)).filter p := by
  conv_lhs => rw [split_at_index h, List.filter_append, List.filter_cons_of_pos hx]

theorem filter_getElem?_keptIndex (h : l[i]? = some x) (hx : p x = true) :
    (l.filter p)[keptIndex p l i]? = some x := by
  rw [filter_split h hx, keptIndex, List.countP_eq_length_filter,
    List.getElem?_append_right (Nat.le_refl _), Nat.sub_self]
  rfl

theorem filter_eraseIdx_of_pos (h : l[i]? = some x) (hx : p x = true) :
    (l.eraseIdx i).filter p = (l.filter p).eraseIdx (keptIndex p l i) := by
  rw [filter_split h hx, keptIndex, List.countP_eq_length_filter,
    List.eraseIdx_append_of_length_le (Nat.le_refl _), Nat.sub_self, List.eraseIdx_cons_zero,
    List.eraseIdx_eq_take_drop_succ, List.filter_append]

theorem filter_eraseIdx_of_neg (h : l[i]? = some x) (hx : p x = false) :
    (l.eraseIdx i).filter p = l.filter p := by
  conv_rhs => rw [split_at_index h, List.filter_append, List.filter_cons_of_neg (by simp [hx])]
  rw [List.eraseIdx_eq_take_drop_succ, List.filter_append]

theorem filterMap_eraseIdx {β : Type v} {q : α → Option β} (h : l[i]? = some x)
    (hx : (q x).isSome = true) :
    (l.eraseIdx i).filterMap q =
      (l.filterMap q).eraseIdx (keptIndex (fun y => (q y).isSome) l i) := by
  obtain ⟨y, hy⟩ := Option.isSome_iff_exists.mp hx
  have hall : l.filterMap q = (l.take i).filterMap q ++ y :: (l.drop (i + 1)).filterMap q := by
    conv_lhs => rw [split_at_index h, List.filterMap_append, List.filterMap_cons_some hy]
  rw [hall, keptIndex, ← List.length_filterMap_eq_countP,
    List.eraseIdx_append_of_length_le (Nat.le_refl _), Nat.sub_self, List.eraseIdx_cons_zero,
    List.eraseIdx_eq_take_drop_succ, List.filterMap_append]

/-- The places of the elements that a filter keeps. -/
def positions (p : α → Bool) (l : List α) : List Nat := (l.zipIdx.filter (p ·.1)).map Prod.snd

theorem length_positions (p : α → Bool) (l : List α) : (positions p l).length = l.countP p := by
  have hgo : ∀ (l : List α) (k : Nat), ((l.zipIdx k).filter (p ·.1)).length = l.countP p := by
    intro l
    induction l with
    | nil => exact fun _ => rfl
    | cons x l ih =>
      intro k
      rw [List.zipIdx_cons, List.countP_cons, ← ih (k + 1)]
      by_cases hx : p x = true
      · rw [List.filter_cons_of_pos (by simpa using hx), if_pos hx, List.length_cons]
      · rw [List.filter_cons_of_neg (by simpa using hx), if_neg hx]
        rfl
  rw [positions, List.length_map, hgo]

/-- The place with number `i` has `i` kept elements in front of it. -/
theorem positions_spec {j : Nat} (h : (positions p l)[i]? = some j) :
    ∃ x, l[j]? = some x ∧ p x = true ∧ keptIndex p l j = i := by
  have hgo : ∀ (l : List α) (k i : Nat),
      (((l.zipIdx k).filter (p ·.1)).map Prod.snd)[i]? = some j →
        k ≤ j ∧ ∃ x, l[j - k]? = some x ∧ p x = true ∧ keptIndex p l (j - k) = i := by
    intro l
    induction l with
    | nil =>
      intro k i hi
      cases hi
    | cons x l ih =>
      intro k i hi
      -- what is found behind the first element
      have hbehind : ∀ i', (((l.zipIdx (k + 1)).filter (p ·.1)).map Prod.snd)[i']? = some j →
          k < j ∧ ∃ y, (x :: l)[j - k]? = some y ∧ p y = true ∧
            keptIndex p (x :: l) (j - k) = (if p x = true then 1 else 0) + i' := by
        intro i' hi'
        obtain ⟨hle, y, hy, hpy, hkept⟩ := ih (k + 1) i' hi'
        have hsub : j - k = (j - (k + 1)) + 1 := by omega
        refine ⟨hle, y, ?_, hpy, ?_⟩
        · rw [hsub, List.getElem?_cons_succ, hy]
        · rw [hsub, keptIndex, List.take_succ_cons, List.countP_cons, ← hkept, keptIndex,
            Nat.add_comm]
      cases hx : p x with
      | false =>
        rw [List.zipIdx_cons, List.filter_cons_of_neg (by simp [hx])] at hi
        obtain ⟨hlt, y, hy, hpy, hkept⟩ := hbehind i hi
        rw [hx] at hkept
        exact ⟨Nat.le_of_lt hlt, y, hy, hpy, hkept.trans (Nat.zero_add i)⟩
      | true =>
        rw [List.zipIdx_cons, List.filter_cons_of_pos (by simp [hx]), List.map_cons] at hi
        cases i with
        | zero =>
          obtain rfl : k = j := Option.some.inj hi
          refine ⟨Nat.le_refl _, x, ?_, hx, ?_⟩
          · rw [Nat.sub_self]
            rfl
          · rw [Nat.sub_self]
            rfl
        | succ i =>
          rw [List.getElem?_cons_succ] at hi
          obtain ⟨hlt, y, hy, hpy, hkept⟩ := hbehind i hi
          rw [hx] at hkept
          exact ⟨Nat.le_of_lt hlt, y, hy, hpy, hkept.trans (Nat.add_comm 1 i)⟩
  obtain ⟨-, x, hx, hpx, hkept⟩ := hgo l 0 i h
  exact ⟨x, hx, hpx, hkept⟩

end Places

end ProxyGateway.Logic
