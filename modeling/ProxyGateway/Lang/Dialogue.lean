/-
# ProxyGateway.Lang.Dialogue — programs that talk to an environment and may raise

A program with side effects is judged by what it did, also where it ends in an exception.  `Dialogue E
X α` is such a program: it appends events of type `E` to a history and returns a value or raises an
`X`.  The environment is whoever answers: `ask` hands it the whole history, so an answer may depend on
everything that was asked and answered before (`answer : List E → β`).  What holds for every such
function holds against every adaptive opponent.

`Emits m Q` is the rule of postconditions: whatever came before, the events that `m` adds and its
result satisfy `Q`.
-/
import Mathlib.Init

namespace ProxyGateway.Lang

universe u

/-- A program that records events of type `E`, may raise an `X`, and returns an `α`. -/
def Dialogue (E X α : Type u) : Type u := List E → Except X α × List E

namespace Dialogue

variable {E X α β : Type u}

protected def bind (m : Dialogue E X α) (f : α → Dialogue E X β) : Dialogue E X β := fun h =>
  match m h with
  | (.ok a, h') => f a h'
  | (.error x, h') => (.error x, h')

instance : Monad (Dialogue E X) where
  pure a := fun h => (.ok a, h)
  bind := Dialogue.bind

/-- `raise` -/
def raise (x : X) : Dialogue E X α := fun h => (.error x, h)

/-- A computation without side effects. -/
def lift (r : Except X α) : Dialogue E X α := fun h => (r, h)

/-- Does something and gets the environment's answer; `event` records both. -/
def ask (answer : List E → β) (event : β → E) : Dialogue E X β := fun h =>
  (.ok (answer h), h ++ [event (answer h)])

/-! ## Postconditions -/

/-- **`Emits m Q`** — the events that `m` adds and its result satisfy `Q`, whatever came before. -/
def Emits (m : Dialogue E X α) (Q : List E → Except X α → Prop) : Prop :=
  ∀ h, ∃ es, (m h).2 = h ++ es ∧ Q es (m h).1

variable {m : Dialogue E X α} {f : α → Dialogue E X β} {Q : List E → Except X α → Prop}
  {R : List E → Except X β → Prop}

theorem Emits.mono {Q' : List E → Except X α → Prop} (h : Emits m Q)
    (himp : ∀ es r, Q es r → Q' es r) : Emits m Q' := by
  intro hist
  obtain ⟨es, hes, hq⟩ := h hist
  exact ⟨es, hes, himp es _ hq⟩

theorem emits_pure {a : α} (h : Q [] (.ok a)) : Emits (pure a) Q :=
  fun hist => ⟨[], (List.append_nil hist).symm, h⟩

theorem emits_raise {x : X} (h : Q [] (.error x)) : Emits (raise x) Q :=
  fun hist => ⟨[], (List.append_nil hist).symm, h⟩

theorem emits_lift {r : Except X α} (h : Q [] r) : Emits (lift r) Q :=
  fun hist => ⟨[], (List.append_nil hist).symm, h⟩

theorem emits_ask {answer : List E → α} {event : α → E}
    (h : ∀ hist, Q [event (answer hist)] (.ok (answer hist))) : Emits (ask answer event) Q :=
  fun hist => ⟨[event (answer hist)], rfl, h hist⟩

/-- Sequencing: what the second half adds comes behind what the first half added. -/
theorem Emits.bind (hm : Emits m Q)
    (hok : ∀ es a, Q es (.ok a) → Emits (f a) fun es' r => R (es ++ es') r)
    (herror : ∀ es x, Q es (.error x) → R es (.error x)) : Emits (m >>= f) R := by
  intro hist
  obtain ⟨es, hes, hq⟩ := hm hist
  have hrun : (m >>= f) hist = Dialogue.bind m f hist := rfl
  rw [hrun, Dialogue.bind]
  cases hr : m hist with
  | mk r h' =>
    rw [hr] at hes hq
    simp only at hes hq
    subst hes
    cases r with
    | error x => exact ⟨es, rfl, herror es x hq⟩
    | ok a =>
      obtain ⟨es', hes', hr'⟩ := hok es a hq (hist ++ es)
      exact ⟨es ++ es', by rw [hes', List.append_assoc], hr'⟩

/-- A first half without side effects. -/
theorem emits_lift_bind {r : Except X α}
    (hok : ∀ a, r = .ok a → Emits (f a) R) (herror : ∀ x, r = .error x → R [] (.error x)) :
    Emits (lift r >>= f) R := by
  refine Emits.bind (Q := fun es r' => es = [] ∧ r' = r) (emits_lift ⟨rfl, rfl⟩) ?_ ?_
  · rintro es a ⟨rfl, ha⟩
    exact hok a ha.symm
  · rintro es x ⟨rfl, hx⟩
    exact herror x hx.symm

/-- A first half that is one question. -/
theorem emits_ask_bind {answer : List E → α} {event : α → E}
    (hok : ∀ a, Emits (f a) fun es r => R (event a :: es) r) : Emits (ask answer event >>= f) R := by
  refine Emits.bind (Q := fun es r => ∃ a, es = [event a] ∧ r = .ok a)
    (emits_ask fun hist => ⟨_, rfl, rfl⟩) ?_ ?_
  · rintro es a ⟨a', rfl, ha⟩
    cases ha
    exact hok a
  · rintro es x ⟨a, -, hx⟩
    nomatch hx

end Dialogue

end ProxyGateway.Lang
