/-
# ProxyGateway.Logic.FirstMatch — decision lists

A routing table is a list of entries, each with a condition (or none: it matches everything) and a
target; a request takes the target of the first entry that fires.  What a condition means is left
open: an interpretation `I : κ → Bool` says which conditions the request meets, and the results below
hold for all of them.

Two general facts.  `takesEffect_iff`: an entry appended to a table decides every request that it
matches and that no earlier conditional entry matches, unless a catch-all stands before it.
`agree_iff`: when a table with its default in line and a table with its default out of line decide
every request alike, where the second may mistake a condition for an earlier one in the same slot.
-/
import Mathlib.Data.List.Basic

namespace ProxyGateway.Logic

universe u v w

variable {κ : Type u} {τ : Type v}

/-- An entry of a decision list; without a condition it matches every request. -/
structure Entry (κ : Type u) (τ : Type v) where
  cond : Option κ
  target : τ
  deriving DecidableEq, Repr

def Entry.fires (I : κ → Bool) (e : Entry κ τ) : Bool :=
  match e.cond with
  | none => true
  | some k => I k

/-- The entry with its condition named otherwise. -/
def Entry.mapCond {κ' : Type w} (f : κ → κ') (e : Entry κ τ) : Entry κ' τ := ⟨e.cond.map f, e.target⟩

/-- The position of the first entry that fires. -/
def firstMatch (I : κ → Bool) (es : List (Entry κ τ)) : Option Nat := es.findIdx? (·.fires I)

/-- The target of the first entry that fires, `d` if none does. -/
def decision (I : κ → Bool) (d : τ) (es : List (Entry κ τ)) : τ :=
  match es.find? (·.fires I) with
  | some e => e.target
  | none => d

section Decision

variable (I : κ → Bool) (d : τ)

@[simp] theorem decision_nil : decision I d [] = d := rfl

theorem decision_cons (e : Entry κ τ) (es : List (Entry κ τ)) :
    decision I d (e :: es) = if e.fires I then e.target else decision I d es := by
  unfold decision
  rw [List.find?_cons]
  cases e.fires I <;> rfl

/-- Entries that do not fire can be skipped. -/
theorem decision_append {es fs : List (Entry κ τ)} (h : ∀ e ∈ es, e.fires I = false) :
    decision I d (es ++ fs) = decision I d fs := by
  induction es with
  | nil => rfl
  | cons e es ih =>
    rw [List.cons_append, decision_cons, h e (List.mem_cons_self ..)]
    exact ih fun e he => h e (List.mem_cons_of_mem _ he)

/-- A catch-all in line is a default: what follows it is never reached. -/
theorem decision_catchAll (es fs : List (Entry κ τ)) (d' : τ) :
    decision I d (es ++ ⟨none, d'⟩ :: fs) = decision I d' es := by
  induction es with
  | nil => rfl
  | cons e es ih => rw [List.cons_append, decision_cons, decision_cons, ih]

theorem decision_of_none {es : List (Entry κ τ)} (h : ∀ e ∈ es, e.fires I = false) :
    decision I d es = d := by
  rw [← List.append_nil es, decision_append I d h, decision_nil]

theorem decision_of_first {es fs : List (Entry κ τ)} {e : Entry κ τ}
    (h : ∀ e' ∈ es, e'.fires I = false) (he : e.fires I = true) :
    decision I d (es ++ e :: fs) = e.target := by
  rw [decision_append I d h, decision_cons, he, if_pos rfl]

/-- Either no entry fires, or there is a first one that does. -/
theorem decision_cases (es : List (Entry κ τ)) :
    (∀ e ∈ es, e.fires I = false) ∨
      ∃ pre e post, es = pre ++ e :: post ∧ (∀ e' ∈ pre, e'.fires I = false) ∧ e.fires I = true := by
  cases hf : es.find? (·.fires I) with
  | none => exact .inl fun e he => by simpa using List.find?_eq_none.mp hf e he
  | some e =>
    obtain ⟨he, pre, post, heq, hpre⟩ := List.find?_eq_some_iff_append.mp hf
    exact .inr ⟨pre, e, post, heq, fun e' he' => by simpa using hpre e' he', he⟩

/-- The second part decides what the first one leaves open. -/
theorem decision_parts (es fs : List (Entry κ τ)) :
    decision I d (es ++ fs) = decision I (decision I d fs) es := by
  induction es with
  | nil => rfl
  | cons e es ih => rw [List.cons_append, decision_cons, decision_cons, ih]

/-- A table may be replaced part by part. -/
theorem decision_flatMap_congr {α : Type w} {xs : List α} {f g : α → List (Entry κ τ)}
    (h : ∀ x ∈ xs, ∀ d, decision I d (f x) = decision I d (g x)) :
    decision I d (xs.flatMap f) = decision I d (xs.flatMap g) := by
  induction xs with
  | nil => rfl
  | cons x xs ih =>
    rw [List.flatMap_cons, List.flatMap_cons, decision_parts, decision_parts,
      ih fun y hy => h y (List.mem_cons_of_mem _ hy), h x (List.mem_cons_self ..)]

/-- Entries with one target are a single entry for all their conditions. -/
theorem decision_alternatives (ks : List κ) (t : τ) :
    decision I d (ks.map fun k => ⟨some k, t⟩) = if ks.any I then t else d := by
  induction ks with
  | nil => rfl
  | cons k ks ih =>
    rw [List.map_cons, decision_cons, ih, List.any_cons]
    cases hk : I k with
    | true => simp [Entry.fires, hk]
    | false => simp [Entry.fires, hk]

end Decision

/-! ## An appended entry -/

/-- **`TakesEffect`** — every request that `new` matches and no conditional entry before it matches
is decided by `new`. -/
def TakesEffect (before : List (Entry κ τ)) (new : Entry κ τ) : Prop :=
  ∀ I : κ → Bool, new.fires I = true → (∀ e ∈ before, e.cond ≠ none → e.fires I = false) →
    firstMatch I (before ++ [new]) = some before.length

theorem firstMatch_append_singleton {I : κ → Bool} {before : List (Entry κ τ)} {new : Entry κ τ} :
    firstMatch I (before ++ [new]) = some before.length ↔
      (∀ e ∈ before, e.fires I = false) ∧ new.fires I = true := by
  induction before with
  | nil => simp [firstMatch, List.findIdx?_cons]
  | cons e es ih =>
    simp only [firstMatch] at ih
    simp only [firstMatch, List.cons_append, List.findIdx?_cons, List.mem_cons, forall_eq_or_imp,
      List.length_cons]
    cases he : e.fires I with
    | true => simp
    | false => simpa [Option.map_eq_some_iff] using ih

/-- **`takesEffect_iff`** — the appended entry takes effect exactly when no catch-all stands before
it, or when it is conditional and its condition stood before it (so that it decides nothing). -/
theorem takesEffect_iff [DecidableEq κ] (before : List (Entry κ τ)) (new : Entry κ τ) :
    TakesEffect before new ↔
      (∀ e ∈ before, e.cond ≠ none) ∨
        ∃ k, new.cond = some k ∧ ∃ e ∈ before, e.cond = some k := by
  constructor
  · intro h
    by_contra hcon
    push Not at hcon
    obtain ⟨⟨e, he, hnone⟩, hfresh⟩ := hcon
    -- a request that meets the condition of `new` and no other
    have heff := h (fun k => decide (new.cond = some k)) ?_ ?_
    · have hfires := (firstMatch_append_singleton.mp heff).1 e he
      simp [Entry.fires, hnone] at hfires
    · cases hc : new.cond with
      | none => simp [Entry.fires, hc]
      | some k => simp [Entry.fires, hc]
    · intro e' he' hcond
      cases hk : e'.cond with
      | none => exact absurd hk hcond
      | some k =>
        have hne : new.cond ≠ some k := fun hn => hfresh k hn e' he' hk
        simp [Entry.fires, hk, hne]
  · rintro (hall | ⟨k, hk, e, he, hek⟩) I hnew hearlier
    · exact firstMatch_append_singleton.mpr ⟨fun e he => hearlier e he (hall e he), hnew⟩
    · have hfalse := hearlier e he (by simp [hek])
      simp only [Entry.fires, hek, hk] at hfalse hnew
      rw [hfalse] at hnew
      nomatch hnew

/-! ## Two tables for one list of rules -/

/-- A rule, with the target each of the two tables gives it. -/
structure Item (κ : Type u) (τ : Type v) where
  key : κ
  left : τ
  right : τ
  deriving DecidableEq, Repr

section Agree

variable {θ : Type w} [DecidableEq θ] (slot : κ → θ)

/-- A rule of `items` stands in the slot of `k`. -/
def Taken (items : List (Item κ τ)) (k : κ) : Prop := ∃ y ∈ items, slot y.key = slot k

/-- What the second table tests in place of `k`: the condition of the first rule in its slot. -/
def owner (items : List (Item κ τ)) (k : κ) : κ :=
  match items.find? fun y => slot y.key = slot k with
  | some y => y.key
  | none => k

def leftTable (items : List (Item κ τ)) : List (Entry κ τ) :=
  items.map fun x => ⟨some x.key, x.left⟩

def rightTable (items : List (Item κ τ)) : List (Entry κ τ) :=
  items.map fun x => ⟨some (owner slot items x.key), x.right⟩

variable {slot}

theorem owner_of_taken {pre : List (Item κ τ)} (post : List (Item κ τ)) {k : κ}
    (h : Taken slot pre k) :
    ∃ y ∈ pre, slot y.key = slot k ∧ owner slot (pre ++ post) k = y.key := by
  obtain ⟨w, hw, hslot⟩ := h
  obtain ⟨y, hy⟩ := Option.isSome_iff_exists.mp
    (List.find?_isSome.mpr ⟨w, hw, by simpa using hslot⟩ :
      (pre.find? fun y => slot y.key = slot k).isSome)
  refine ⟨y, List.mem_of_find?_eq_some hy, by simpa using List.find?_some hy, ?_⟩
  simp only [owner, List.find?_append, hy, Option.some_or]

theorem owner_of_fresh {pre post : List (Item κ τ)} {x : Item κ τ} (h : ¬ Taken slot pre x.key) :
    owner slot (pre ++ x :: post) x.key = x.key := by
  have hnone : (pre.find? fun y => slot y.key = slot x.key) = none :=
    List.find?_eq_none.mpr fun y hy hs => h ⟨y, hy, by simpa using hs⟩
  simp [owner, List.find?_append, hnone]

theorem slot_owner (items : List (Item κ τ)) (k : κ) : slot (owner slot items k) = slot k := by
  unfold owner
  split
  · next y hy => simpa using List.find?_some hy
  · rfl

/-- A slot has one owner. -/
theorem owner_congr {items : List (Item κ τ)} {k k' : κ} (h : slot k = slot k')
    (htaken : Taken slot items k) : owner slot items k = owner slot items k' := by
  obtain ⟨w, hw, hslot⟩ := htaken
  simp only [owner, h]
  cases hf : items.find? fun y => slot y.key = slot k' with
  | some z => rfl
  | none =>
    have := List.find?_eq_none.mp hf w hw
    simp [hslot.trans h] at this

variable (slot)

/-- **`Agreeable`** — the conditions under which the first table (the rules `before`, then the
default `dl`) and the second one (all rules, then `dr`) decide alike.  A rule counts in the second
table only when it is the first one of its slot. -/
structure Agreeable (before after : List (Item κ τ)) (dl dr : τ) : Prop where
  default_eq : dl = dr
  /-- Both tables give a rule that counts the same target. -/
  decided : ∀ pre x post, before = pre ++ x :: post → ¬ Taken slot pre x.key → x.left = x.right
  /-- The rules that only the second table has lead to the default. -/
  leftover : ∀ pre x post, after = pre ++ x :: post → ¬ Taken slot (before ++ pre) x.key →
    x.right = dl
  /-- A condition that the second table mistakes for an earlier one leads to the default, and so
  does every rule after it. -/
  mistaken : ∀ pre x post, before = pre ++ x :: post → (∀ y ∈ pre, y.key ≠ x.key) →
    Taken slot pre x.key → x.left = dl ∧ ∀ mid z rest, post ++ after = mid ++ z :: rest →
      ¬ Taken slot (pre ++ x :: mid) z.key → z.right = dl

variable {slot}
variable {I : κ → Bool} {before after : List (Item κ τ)} {dl dr : τ}

theorem leftDecision_of_none (h : ∀ y ∈ before, I y.key = false) :
    decision I dl (leftTable before) = dl :=
  decision_of_none I dl (by simpa [leftTable, Entry.fires] using h)

theorem leftDecision_of_first {pre post : List (Item κ τ)} {x : Item κ τ}
    (h : ∀ y ∈ pre, I y.key = false) (hx : I x.key = true) :
    decision I dl (leftTable (pre ++ x :: post)) = x.left := by
  simp only [leftTable, List.map_append, List.map_cons]
  exact decision_of_first I dl (by simpa [Entry.fires] using h) hx

theorem leftDecision_cases (I : κ → Bool) (items : List (Item κ τ)) :
    (∀ y ∈ items, I y.key = false) ∨
      ∃ pre x post, items = pre ++ x :: post ∧ (∀ y ∈ pre, I y.key = false) ∧ I x.key = true := by
  rcases decision_cases I (leftTable items) with hnone | ⟨pre, e, post, heq, hpre, he⟩
  · exact .inl (by simpa [leftTable, Entry.fires] using hnone)
  · obtain ⟨pre', tail, rfl, rfl, htail⟩ := List.map_eq_append_iff.mp heq
    obtain ⟨x, post', rfl, rfl, rfl⟩ := List.map_eq_cons_iff.mp htail
    exact .inr ⟨pre', x, post', rfl, by simpa [Entry.fires] using hpre, he⟩

theorem rightDecision_of_none {items : List (Item κ τ)}
    (h : ∀ y ∈ items, I (owner slot items y.key) = false) :
    decision I dr (rightTable slot items) = dr := by
  refine decision_of_none I dr fun e he => ?_
  obtain ⟨y, hy, rfl⟩ := List.mem_map.mp he
  exact h y hy

theorem rightDecision_of_first {items pre post : List (Item κ τ)} {x : Item κ τ}
    (heq : items = pre ++ x :: post) (h : ∀ y ∈ pre, I (owner slot items y.key) = false)
    (hfresh : ¬ Taken slot pre x.key) (hx : I x.key = true) :
    decision I dr (rightTable slot items) = x.right := by
  have howner : owner slot items x.key = x.key := heq ▸ owner_of_fresh hfresh
  have htable : rightTable slot items =
      pre.map (fun y => ⟨some (owner slot items y.key), y.right⟩) ++
        ⟨some (owner slot items x.key), x.right⟩ ::
          post.map fun y => ⟨some (owner slot items y.key), y.right⟩ := by
    conv_lhs => rw [rightTable, heq]
    simp [heq]
  rw [htable]
  exact decision_of_first I dr (by simpa [Entry.fires] using h) (by simpa [Entry.fires, howner])

/-- In the second table, only a rule that is the first of its slot is ever the first to fire. -/
theorem rightDecision_cases (slot : κ → θ) (I : κ → Bool) (dr : τ) (items : List (Item κ τ)) :
    decision I dr (rightTable slot items) = dr ∨
      ∃ pre x post, items = pre ++ x :: post ∧ ¬ Taken slot pre x.key ∧ I x.key = true ∧
        decision I dr (rightTable slot items) = x.right := by
  rcases decision_cases I (rightTable slot items) with hnone | ⟨pre, e, post, heq, hpre, he⟩
  · exact .inl (decision_of_none I dr hnone)
  · obtain ⟨pre', tail, hitems, rfl, htail⟩ := List.map_eq_append_iff.mp heq
    obtain ⟨x, post', rfl, rfl, rfl⟩ := List.map_eq_cons_iff.mp htail
    simp only [List.mem_map, forall_exists_index, and_imp, forall_apply_eq_imp_iff₂,
      Entry.fires] at hpre he
    have hfresh : ¬ Taken slot pre' x.key := by
      rintro ⟨y, hy, hslot⟩
      have hsame : owner slot items y.key = owner slot items x.key :=
        owner_congr hslot ⟨y, by simp [hitems, hy], rfl⟩
      have hfalse := hpre y hy
      rw [hsame, he] at hfalse
      nomatch hfalse
    have hx : I x.key = true := by rwa [hitems, owner_of_fresh hfresh] at he
    exact .inr ⟨pre', x, post', hitems, hfresh, hx, rightDecision_of_first hitems hpre hfresh hx⟩

/-- An element of two lists put together stands in the first one, or behind all of it. -/
theorem mem_or_append_of_split {α : Type*} {l r p q : List α} {z : α}
    (h : l ++ r = p ++ z :: q) : z ∈ l ∨ ∃ mid, p = l ++ mid ∧ r = mid ++ z :: q := by
  rcases List.append_eq_append_iff.mp h with ⟨mid, hp, hr⟩ | ⟨mid, hl, htail⟩
  · exact .inr ⟨mid, hp, hr⟩
  · cases mid with
    | nil => exact .inr ⟨[], by simpa using hl.symm, htail.symm⟩
    | cons w mid =>
      obtain ⟨rfl, -⟩ := List.cons_eq_cons.mp (htail : z :: q = w :: (mid ++ r))
      exact .inl (by simp [hl])

theorem agree_of_agreeable (h : Agreeable slot before after dl dr) (I : κ → Bool) :
    decision I dl (leftTable before) = decision I dr (rightTable slot (before ++ after)) := by
  rcases leftDecision_cases I before with hnone | ⟨pre, x, post, rfl, hpre, hx⟩
  · -- the first table falls through to its default
    rw [leftDecision_of_none hnone]
    rcases rightDecision_cases slot I dr (before ++ after) with
      hr | ⟨p, z, q, heq, hfresh, hz, hr⟩
    · rw [hr, h.default_eq]
    · rw [hr]
      rcases mem_or_append_of_split heq with hmem | ⟨mid, rfl, hafter⟩
      · rw [hnone z hmem] at hz
        nomatch hz
      · exact (h.leftover mid z q hafter hfresh).symm
  · rw [leftDecision_of_first hpre hx]
    by_cases htaken : Taken slot pre x.key
    · -- the first table decides by `x`, whose slot the second one has given to an earlier rule
      have hnew : ∀ y ∈ pre, y.key ≠ x.key := by
        intro y hy hk
        have hfalse := hpre y hy
        rw [hk, hx] at hfalse
        nomatch hfalse
      obtain ⟨hleft, hlater⟩ := h.mistaken pre x post rfl hnew htaken
      rw [hleft]
      rcases rightDecision_cases slot I dr (pre ++ x :: post ++ after) with
        hr | ⟨p, z, q, heq, hfresh, hz, hr⟩
      · rw [hr, h.default_eq]
      · rw [hr]
        rw [List.append_assoc, List.cons_append] at heq
        rcases mem_or_append_of_split heq with hmem | ⟨mid, rfl, htail⟩
        · rw [hpre z hmem] at hz
          nomatch hz
        · cases mid with
          | nil =>
            obtain ⟨rfl, -⟩ := List.cons_eq_cons.mp (htail : x :: (post ++ after) = z :: q)
            exact absurd htaken (by simpa using hfresh)
          | cons w mid =>
            obtain ⟨rfl, hmid⟩ :=
              List.cons_eq_cons.mp (htail : x :: (post ++ after) = w :: (mid ++ z :: q))
            exact (hlater mid z q hmid hfresh).symm
    · rw [h.decided pre x post rfl htaken]
      have heq : pre ++ x :: post ++ after = pre ++ x :: (post ++ after) := by simp
      refine (rightDecision_of_first heq ?_ htaken hx).symm
      intro y hy
      obtain ⟨w, hw, -, howner⟩ := owner_of_taken (x :: (post ++ after))
        (⟨y, hy, rfl⟩ : Taken slot pre y.key)
      rw [heq, howner]
      exact hpre w hw

/-- Where the first table sees a condition for the first time and the second one has its slot taken,
no entry of the second table tests it. -/
theorem owner_ne_of_mistaken {pre post : List (Item κ τ)} {k k' : κ}
    (hnew : ∀ y ∈ pre, y.key ≠ k) (htaken : Taken slot pre k) (hk' : Taken slot (pre ++ post) k') :
    owner slot (pre ++ post) k' ≠ k := by
  intro heq
  have hslot : slot k' = slot k := (slot_owner _ k').symm.trans (congrArg slot heq)
  obtain ⟨y, hy, -, howner⟩ := owner_of_taken post htaken
  refine hnew y hy ?_
  rw [← howner, ← owner_congr hslot hk', heq]

theorem agreeable_of_agree [DecidableEq κ]
    (h : ∀ I : κ → Bool,
      decision I dl (leftTable before) = decision I dr (rightTable slot (before ++ after))) :
    Agreeable slot before after dl dr := by
  have hdefault : dl = dr := by
    have h0 := h fun _ => false
    rwa [leftDecision_of_none fun _ _ => rfl, rightDecision_of_none fun _ _ => rfl] at h0
  have hmiss : ∀ k k', slot k ≠ slot k' → decide (k = k') = false := by
    intro k k' hk
    exact decide_eq_false fun heq => hk (congrArg slot heq)
  refine ⟨hdefault, fun pre x post hb hfresh => ?_, fun pre x post ha hfresh => ?_,
    fun pre x post hb hnew htaken => ?_⟩
  · -- the request that meets the condition of `x` only
    have hx := h fun k => decide (k = x.key)
    have heq : pre ++ x :: post ++ after = pre ++ x :: (post ++ after) := by simp
    rw [hb, leftDecision_of_first (fun y hy => hmiss _ _ fun hs => hfresh ⟨y, hy, hs⟩) (by simp),
      rightDecision_of_first heq
        (fun y hy => hmiss _ _ fun hs => hfresh ⟨y, hy, (slot_owner _ _).symm.trans hs⟩) hfresh
        (by simp)] at hx
    exact hx
  · -- the same request, for a rule that only the second table has
    have hx := h fun k => decide (k = x.key)
    have heq : before ++ after = (before ++ pre) ++ x :: post := by simp [ha]
    rw [leftDecision_of_none (fun y hy => hmiss _ _ fun hs =>
        hfresh ⟨y, List.mem_append_left _ hy, hs⟩),
      rightDecision_of_first heq
        (fun y hy => hmiss _ _ fun hs => hfresh ⟨y, hy, (slot_owner _ _).symm.trans hs⟩) hfresh
        (by simp)] at hx
    exact hx.symm
  · have hitems : before ++ after = pre ++ x :: (post ++ after) := by simp [hb]
    have hne : ∀ y ∈ before ++ after, owner slot (before ++ after) y.key ≠ x.key := by
      intro y hy
      rw [hitems] at hy ⊢
      exact owner_ne_of_mistaken hnew htaken ⟨y, hy, rfl⟩
    have hleft : x.left = dl := by
      have hx := h fun k => decide (k = x.key)
      have hright : decision (fun k => decide (k = x.key)) dr
          (rightTable slot (before ++ after)) = dr :=
        rightDecision_of_none fun y hy => decide_eq_false (hne y hy)
      rw [hright, hb, leftDecision_of_first ?_ (by simp)] at hx
      · rw [hx, hdefault]
      · exact fun y hy => decide_eq_false (hnew y hy)
    refine ⟨hleft, fun mid z rest hrest hfresh => ?_⟩
    -- the request that meets the conditions of `x` and of `z` only
    have hz := h fun k => decide (k = x.key ∨ k = z.key)
    have hitems' : before ++ after = (pre ++ x :: mid) ++ z :: rest := by
      rw [hitems, hrest, List.append_assoc, List.cons_append]
    rw [rightDecision_of_first hitems' ?_ hfresh (by simp), hb,
      leftDecision_of_first ?_ (by simp)] at hz
    · rw [← hz, hleft]
    · intro y hy
      simp only [decide_eq_false_iff_not, not_or]
      exact ⟨hnew y hy, fun hk => hfresh ⟨y, by simp [hy], congrArg slot hk⟩⟩
    · intro y hy
      simp only [decide_eq_false_iff_not, not_or]
      refine ⟨hne y (by rw [hitems']; exact List.mem_append_left _ hy), fun hk => ?_⟩
      exact hfresh ⟨y, hy, (slot_owner _ _).symm.trans (congrArg slot hk)⟩

/-- **`agree_iff`** — the two tables decide every request alike exactly under `Agreeable`. -/
theorem agree_iff [DecidableEq κ] :
    (∀ I : κ → Bool,
      decision I dl (leftTable before) = decision I dr (rightTable slot (before ++ after))) ↔
      Agreeable slot before after dl dr :=
  ⟨agreeable_of_agree, agree_of_agreeable⟩

end Agree

end ProxyGateway.Logic
