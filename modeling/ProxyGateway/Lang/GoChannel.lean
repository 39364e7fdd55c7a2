/-
# ProxyGateway.Lang.GoChannel — buffered channels and one-shot timers

A Go program that waits in a `select` reads two kinds of channel: a buffered channel that goroutines
send on, and the channel of a `time.Timer`, which carries one tick.

`Chan` keeps the whole history of what was sent; the buffer is the part of it that was not received
yet.  That a receive takes the oldest value, and that a buffer never outgrows its capacity, are then
part of the type: no later proof carries them.

`Timer` separates the moment a timer may fire (the clock has reached `due`) from the moment its tick
is seen.  A tick that is ready may be left unread for as long as the reader is busy.
-/
import Mathlib.Data.List.Basic

namespace ProxyGateway.Lang

universe u

/-! ## Buffered channels -/

/-- **`Chan`** — a channel made by `make(chan α, cap)`: everything sent so far, and how much of it
was received. -/
structure Chan (α : Type u) where
  cap : Nat
  sent : List α
  taken : Nat
  taken_le : taken ≤ sent.length
  fits : sent.length ≤ taken + cap
  deriving DecidableEq, Repr

namespace Chan

variable {α : Type u}

/-- `make(chan α, cap)`. -/
def make (cap : Nat) : Chan α := ⟨cap, [], 0, Nat.le_refl 0, Nat.zero_le _⟩

/-- What was sent and not received, oldest first. -/
def buf (c : Chan α) : List α := c.sent.drop c.taken

/-- `c <- a`; `none` says that the sender has to wait. -/
def send (c : Chan α) (a : α) : Option (Chan α) :=
  if h : c.sent.length < c.taken + c.cap then
    some ⟨c.cap, c.sent ++ [a], c.taken, by
      rw [List.length_append]
      exact Nat.le_add_right_of_le c.taken_le, by
      rw [List.length_append]
      exact h⟩
  else none

/-- `<-c`; `none` says that the receiver has to wait. -/
def recv (c : Chan α) : Option (α × Chan α) :=
  if h : c.taken < c.sent.length then
    some (c.sent.get ⟨c.taken, h⟩,
      ⟨c.cap, c.sent, c.taken + 1, h, Nat.le_trans c.fits (by omega)⟩)
  else none

@[simp] theorem make_sent (cap : Nat) : (make cap : Chan α).sent = [] := rfl

@[simp] theorem make_taken (cap : Nat) : (make cap : Chan α).taken = 0 := rfl

/-- Everything a send can do. -/
theorem send_eq_some {c c' : Chan α} {a : α} (h : c.send a = some c') :
    c'.sent = c.sent ++ [a] ∧ c'.taken = c.taken ∧ c'.cap = c.cap := by
  unfold send at h
  split at h
  · obtain rfl := Option.some.inj h
    exact ⟨rfl, rfl, rfl⟩
  · nomatch h

/-- Everything a receive can do. -/
theorem recv_eq_some {c c' : Chan α} {a : α} (h : c.recv = some (a, c')) :
    c.sent[c.taken]? = some a ∧ c'.sent = c.sent ∧ c'.taken = c.taken + 1 ∧ c'.cap = c.cap := by
  unfold recv at h
  split at h
  · next hlt =>
    obtain ⟨rfl, rfl⟩ := Prod.mk.inj (Option.some.inj h)
    exact ⟨List.getElem?_eq_getElem hlt, rfl, rfl, rfl⟩
  · nomatch h

/-- Before the first receive the buffer is all that was sent. -/
theorem buf_of_taken_zero {c : Chan α} (h : c.taken = 0) : c.buf = c.sent := by
  rw [buf, h, List.drop_zero]

end Chan

/-! ## Timers -/

/-- The channel `t.C` of a timer. -/
inductive Tick where
  | pending
  | ready
  | received
  deriving DecidableEq, Repr

/-- **`Timer`** — a `time.Timer`: when it is due, and what became of its one tick. -/
structure Timer where
  due : Int
  tick : Tick
  deriving DecidableEq, Repr

namespace Timer

/-- `time.NewTimer(delay)` at time `now`. -/
def new (now delay : Int) : Timer := ⟨now + delay, .pending⟩

/-- The runtime fires the timer, at its due time or any time later. -/
def fire (t : Timer) (now : Int) : Option Timer :=
  if t.tick = .pending ∧ t.due ≤ now then some { t with tick := .ready } else none

/-- `<-t.C`. -/
def recv (t : Timer) : Option Timer :=
  if t.tick = .ready then some { t with tick := .received } else none

end Timer

end ProxyGateway.Lang
