/-
# ProxyGateway.Logic.KeyedErase — removing the first element of a key, again and again

A table of rules is a list, and its rules are removed by a key that several of them may share: each
removal takes the first one left with that key.  What stays of a key is what follows the removed ones
(`ofKey_eraseKeys`), so a batch of removals spares everything that a predicate does not hold of exactly
if the first elements of each key, as many as there are removals of it, satisfy the predicate
(`eraseKeys_spares_iff`).
-/
import Mathlib.Data.List.Basic
import Mathlib.Data.List.Perm.Basic

namespace ProxyGateway.Logic

universe u v

variable {α : Type u} {κ : Type v} [DecidableEq κ] (key : α → κ)

/-- The list without its first element of the key. -/
def eraseFirst (l : List α) (k : κ) : List α := l.eraseP fun a => key a = k

/-- One removal after the other. -/
def eraseKeys (l : List α) (ks : List κ) : List α := ks.foldl (eraseFirst key) l

/-- The elements of a key. -/
def ofKey (l : List α) (k : κ) : List α := l.filter fun a => key a = k

variable {key}

/-- Elements of a key are counted among the elements or among the keys. -/
theorem count_map_key [BEq κ] [LawfulBEq κ] (l : List α) (k : κ) :
    (l.map key).count k = l.countP fun a => key a = k := by
  rw [List.count_eq_countP, List.countP_map]
  exact List.countP_congr fun a _ => by simp

theorem eraseKeys_cons (l : List α) (k : κ) (ks : List κ) :
    eraseKeys key l (k :: ks) = eraseKeys key (eraseFirst key l k) ks := rfl

/-- An injective spelling of the keys removes the same elements. -/
theorem eraseKeys_comp {μ : Type*} [DecidableEq μ] {f : κ → μ} (hf : Function.Injective f) (l : List α)
    (ks : List κ) : eraseKeys (fun a => f (key a)) l (ks.map f) = eraseKeys key l ks := by
  induction ks generalizing l with
  | nil => rfl
  | cons k ks ih =>
    have hone : eraseFirst (fun a => f (key a)) l (f k) = eraseFirst key l k := by
      simp only [eraseFirst, hf.eq_iff]
    rw [List.map_cons, eraseKeys_cons, eraseKeys_cons, hone, ih]

theorem eraseKeys_sublist (l : List α) (ks : List κ) : (eraseKeys key l ks).Sublist l := by
  induction ks generalizing l with
  | nil => exact List.Sublist.refl l
  | cons k ks ih => exact (ih _).trans List.eraseP_sublist

/-- One removal takes the first of its key and no other. -/
theorem ofKey_eraseFirst (l : List α) (k k' : κ) :
    ofKey key (eraseFirst key l k) k' = (ofKey key l k').drop (if k = k' then 1 else 0) := by
  induction l with
  | nil => simp [ofKey, eraseFirst]
  | cons a l ih =>
    unfold ofKey eraseFirst at *
    by_cases ha : key a = k
    · -- the removed element
      rw [List.eraseP_cons_of_pos (by simpa using ha)]
      by_cases hk : k = k'
      · rw [if_pos hk, List.filter_cons_of_pos (by simp [ha, hk]), List.drop_one, List.tail_cons]
      · rw [if_neg hk, List.filter_cons_of_neg (by simp [ha, hk]), List.drop_zero]
    · rw [List.eraseP_cons_of_neg (by simpa using ha)]
      by_cases hk' : key a = k'
      · have hne : k ≠ k' := fun h => ha (hk'.trans h.symm)
        rw [if_neg hne, List.drop_zero] at ih ⊢
        rw [List.filter_cons_of_pos (by simpa using hk'), List.filter_cons_of_pos (by simpa using hk'),
          ih]
      · rw [List.filter_cons_of_neg (by simpa using hk'), List.filter_cons_of_neg (by simpa using hk'),
          ih]

/-- **`ofKey_eraseKeys`** — of each key, as many of the first elements are gone as it was removed. -/
theorem ofKey_eraseKeys (l : List α) (ks : List κ) (k : κ) :
    ofKey key (eraseKeys key l ks) k = (ofKey key l k).drop (ks.count k) := by
  induction ks generalizing l with
  | nil => rfl
  | cons k' ks ih =>
    rw [eraseKeys_cons, ih, ofKey_eraseFirst, List.drop_drop, List.count_cons, Nat.add_comm]
    by_cases hk : k' = k <;> simp [hk]

/-- Where each removal finds an element, the list gets shorter by one each time. -/
theorem length_eraseKeys {l : List α} {ks : List κ}
    (h : ∀ k, ks.count k ≤ (ofKey key l k).length) :
    (eraseKeys key l ks).length + ks.length = l.length := by
  induction ks generalizing l with
  | nil => rfl
  | cons k ks ih =>
    have hsome : 0 < (ofKey key l k).length := by
      have hcount := h k
      rw [List.count_cons_self] at hcount
      omega
    obtain ⟨a, ha⟩ := List.exists_mem_of_length_pos hsome
    obtain ⟨hmem, hkey⟩ := List.mem_filter.mp ha
    have hrest : ∀ k', ks.count k' ≤ (ofKey key (eraseFirst key l k) k').length := by
      intro k'
      have hcount := h k'
      rw [List.count_cons] at hcount
      rw [ofKey_eraseFirst, List.length_drop]
      by_cases hk : k = k'
      · rw [if_pos (by simpa using hk)] at hcount
        rw [if_pos hk]
        omega
      · rw [if_neg (by simpa using hk)] at hcount
        rw [if_neg hk]
        omega
    have hpos : 0 < l.length := List.length_pos_of_mem hmem
    have hone : (eraseFirst key l k).length = l.length - 1 := List.length_eraseP_of_mem hmem hkey
    rw [eraseKeys_cons, List.length_cons]
    have hih := ih hrest
    omega

/-- **`eraseKeys_spares_iff`** — the removals spare all elements but some that satisfy the predicate,
exactly if the first elements of each key, as many as are removed, satisfy it. -/
theorem eraseKeys_spares_iff [DecidableEq α] {p : α → Bool} {l : List α} {ks : List κ} :
    (eraseKeys key l ks).filter (fun a => !p a) = l.filter (fun a => !p a) ↔
      ∀ k, ∀ a ∈ (ofKey key l k).take (ks.count k), p a = true := by
  -- key by key, the predicate holds of what is dropped exactly if nothing else is
  have hkey : ∀ k, (ofKey key (eraseKeys key l ks) k).filter (fun a => !p a) =
      (ofKey key l k).filter (fun a => !p a) ↔
        ∀ a ∈ (ofKey key l k).take (ks.count k), p a = true := by
    intro k
    rw [ofKey_eraseKeys]
    conv_lhs => rhs; rw [← List.take_append_drop (ks.count k) (ofKey key l k), List.filter_append]
    rw [List.self_eq_append_left, List.filter_eq_nil_iff]
    simp
  constructor
  · intro hsame k
    rw [← hkey]
    have hcomm : ∀ l : List α, (ofKey key l k).filter (fun a => !p a) =
        ofKey key (l.filter fun a => !p a) k := fun l => List.filter_comm _ _ l
    rw [hcomm, hcomm, hsame]
  · intro hfirst
    have hsub : ((eraseKeys key l ks).filter fun a => !p a).Sublist (l.filter fun a => !p a) :=
      (eraseKeys_sublist l ks).filter _
    refine hsub.eq_of_length (List.Perm.length_eq (List.perm_iff_count.mpr fun a => ?_))
    by_cases ha : (!p a) = true
    · have hcount : ∀ l : List α, (l.filter fun a => !p a).count a =
          ((ofKey key l (key a)).filter fun a => !p a).count a := by
        intro l
        have hof : (ofKey key l (key a)).count a = l.count a := List.count_filter (by simp)
        have hl : (l.filter fun a => !p a).count a = l.count a := List.count_filter ha
        have hk : ((ofKey key l (key a)).filter fun a => !p a).count a =
            (ofKey key l (key a)).count a := List.count_filter ha
        rw [hl, hk, hof]
      rw [hcount (eraseKeys key l ks), hcount l, (hkey (key a)).mpr (hfirst (key a))]
    · have hnone : ∀ l : List α, (l.filter fun a => !p a).count a = 0 := fun l =>
        List.count_eq_zero.mpr fun hmem => ha (List.mem_filter.mp hmem).2
      rw [hnone (eraseKeys key l ks), hnone l]

end ProxyGateway.Logic
