/-
# ProxyGateway.Lang.Errexit — a small shell language under `set -e`

`Cmd` has the constructs of a bash script that matter to `set -e`: simple commands, lists, `&&`,
`||`, `!`, `if`, loops, function calls, command substitutions and subshells.  `Cmd.eval ign` runs a
command; `ign` says that `-e` is being ignored (a condition, the left side of `&&` or `||`, below
`!`, inside a command substitution).  A SIMPLE command with a non-zero status ends the script unless
`-e` is ignored.  A function call is a simple command, whose status is that of the last command its
body ran; a compound command that merely passes on the status of an ignored failure is not.

`Triple ign P c Q` is the rule of pre- and postconditions: from a world in `P`, `c` ends with an
outcome and a world in `Q`.  One rule per construct; `Triple.forIn` carries a loop invariant.
-/
import Mathlib.Init

namespace ProxyGateway.Lang

/-! ## Syntax and semantics -/

/-- How a command ends: with a status, or by leaving a loop, a function or the script. -/
inductive Outcome where
  | status (n : Nat)
  | cont
  | brk
  | ret (n : Nat)
  | exit (n : Nat)
  deriving DecidableEq, Repr

/-- Commands over worlds `W`; a loop runs its body for each item of type `ι`. -/
inductive Cmd (W ι : Type) where
  | simple (f : W → Nat × W)
  | seq (c d : Cmd W ι)
  | and (c d : Cmd W ι)
  | or (c d : Cmd W ι)
  | not (c : Cmd W ι)
  | ite (c t e : Cmd W ι)
  | forIn (items : W → List ι) (body : ι → Cmd W ι)
  | call (body : Cmd W ι)
  | capture (body : Cmd W ι)
  | subshell (body : Cmd W ι)
  | cont
  | brk
  | ret (n : Nat)
  | exit (n : Nat)

namespace Cmd

variable {W ι : Type}

/-- The end of a simple command: under `set -e` a failure ends the script. -/
def settle (ign : Bool) (n : Nat) : Outcome :=
  if n ≠ 0 ∧ ign = false then .exit n else .status n

/-- A loop; `n` is the status of the last body run so far. -/
def loop (step : ι → W → Outcome × W) : List ι → Nat → W → Outcome × W
  | [], n, w => (.status n, w)
  | x :: xs, _, w =>
    match step x w with
    | (.status n, w) => loop step xs n w
    | (.cont, w) => loop step xs 0 w
    | (.brk, w) => (.status 0, w)
    | (.ret n, w) => (.ret n, w)
    | (.exit n, w) => (.exit n, w)

/-- What a function call is to its caller. -/
def returned (ign : Bool) : Outcome → Outcome
  | .status n => settle ign n
  | .ret n => settle ign n
  | .exit n => .exit n
  | .cont => .status 0
  | .brk => .status 0

/-- What a subshell is to its parent: also `exit` only ends the subshell. -/
def joined (ign : Bool) : Outcome → Outcome
  | .status n => settle ign n
  | .ret n => settle ign n
  | .exit n => settle ign n
  | .cont => .status 0
  | .brk => .status 0

/-- **`eval`** — runs a command; `ign` is whether `-e` is ignored. -/
def eval (ign : Bool) : Cmd W ι → W → Outcome × W
  | simple f, w => (settle ign (f w).1, (f w).2)
  | seq c d, w =>
    match eval ign c w with
    | (.status _, w) => eval ign d w
    | r => r
  | and c d, w =>
    match eval true c w with
    | (.status 0, w) => eval ign d w
    | r => r
  | or c d, w =>
    match eval true c w with
    | (.status (_ + 1), w) => eval ign d w
    | r => r
  | not c, w =>
    match eval true c w with
    | (.status 0, w) => (.status 1, w)
    | (.status (_ + 1), w) => (.status 0, w)
    | r => r
  | ite c t e, w =>
    match eval true c w with
    | (.status 0, w) => eval ign t w
    | (.status (_ + 1), w) => eval ign e w
    | r => r
  | forIn items body, w => loop (fun x => eval ign (body x)) (items w) 0 w
  | call body, w => (returned ign (eval ign body w).1, (eval ign body w).2)
  -- bash clears `-e` in a command substitution
  | capture body, w => (joined ign (eval true body w).1, (eval true body w).2)
  | subshell body, w => (joined ign (eval ign body w).1, (eval ign body w).2)
  | cont, w => (.cont, w)
  | brk, w => (.brk, w)
  | ret n, w => (.ret n, w)
  | exit n, w => (.exit n, w)

/-! `eval` on the commands that look at a status. -/

section Eval

variable (ign : Bool) (c d t e : Cmd W ι) (w : W)

theorem eval_seq_eq : (seq c d).eval ign w =
    match c.eval ign w with
    | (.status _, w) => d.eval ign w
    | r => r := by
  -- not `rfl`: this has Lean make the equations of `eval` here, once for all later proofs
  simp only [eval]

theorem eval_and_eq : (and c d).eval ign w =
    match c.eval true w with
    | (.status 0, w) => d.eval ign w
    | r => r := rfl

theorem eval_or_eq : (or c d).eval ign w =
    match c.eval true w with
    | (.status (_ + 1), w) => d.eval ign w
    | r => r := rfl

theorem eval_not_eq : (not c).eval ign w =
    match c.eval true w with
    | (.status 0, w) => (.status 1, w)
    | (.status (_ + 1), w) => (.status 0, w)
    | r => r := rfl

theorem eval_ite_eq : (ite c t e).eval ign w =
    match c.eval true w with
    | (.status 0, w) => t.eval ign w
    | (.status (_ + 1), w) => e.eval ign w
    | r => r := rfl

end Eval

/-- `[[ ... ]]` -/
def test (p : W → Bool) : Cmd W ι := simple fun w => (if p w then 0 else 1, w)

/-- The missing `else` of an `if`. -/
def nop : Cmd W ι := simple fun w => (0, w)

/-- A command that cannot fail: an assignment, a message, or a tool that is taken to succeed. -/
def assign (f : W → W) : Cmd W ι := simple fun w => (0, f w)

/-- A block of commands. -/
def block : List (Cmd W ι) → Cmd W ι
  | [] => nop
  | [c] => c
  | c :: cs => seq c (block cs)

/-- The status a script ends with. -/
def exitStatus : Outcome → Nat
  | .status n => n
  | .ret n => n
  | .exit n => n
  | .cont => 0
  | .brk => 0

/-- A script with a trap on EXIT: the handler gets the status, and may replace it by leaving with
its own. -/
def script (main : Cmd W ι) (onExit : Nat → Cmd W ι) (w : W) : Nat × W :=
  let r := eval false main w
  match eval false (onExit (exitStatus r.1)) r.2 with
  | (.status _, w) => (exitStatus r.1, w)
  | (o, w) => (exitStatus o, w)

end Cmd

/-! ## Triples -/

open Cmd

variable {W ι : Type} {ign : Bool} {P R : W → Prop} {Q Q' : Outcome → W → Prop}

/-- **`Triple`** — from a world in `P`, the command ends in `Q`. -/
def Triple (ign : Bool) (P : W → Prop) (c : Cmd W ι) (Q : Outcome → W → Prop) : Prop :=
  ∀ w, P w → Q (c.eval ign w).1 (c.eval ign w).2

/-- Go on in `R` after a status, pass every other outcome to `Q`. -/
def onStatus (R : Nat → W → Prop) (Q : Outcome → W → Prop) : Outcome → W → Prop
  | .status n, w => R n w
  | o, w => Q o w

theorem onStatus_of {R : Nat → W → Prop} {o : Outcome} {w : W} (hq : Q o w)
    (hr : ∀ n, o = .status n → R n w) : onStatus R Q o w := by
  cases o with
  | status n => exact hr n rfl
  | _ => exact hq

theorem Triple.mono {c : Cmd W ι} (h : Triple ign P c Q) (hq : ∀ o w, Q o w → Q' o w) :
    Triple ign P c Q' := fun w hp => hq _ _ (h w hp)

/-- What holds whatever the outcome is goes on, or is the end of it. -/
theorem Triple.go_on {c : Cmd W ι} (h : Triple ign P c fun _ => R) (hq : ∀ o w, R w → Q o w) :
    Triple ign P c (onStatus (fun _ => R) Q) :=
  h.mono fun o w hr => onStatus_of (hq o w hr) fun _ _ => hr

/-- A call hands back the status of its body. -/
@[simp] theorem Cmd.exitStatus_returned (ign : Bool) (o : Outcome) :
    exitStatus (returned ign o) = exitStatus o := by
  cases o with
  | status n => simp only [returned, settle]; split <;> rfl
  | ret n => simp only [returned, settle]; split <;> rfl
  | _ => rfl

theorem Triple.simple {f : W → Nat × W} (h : ∀ w, P w → Q (settle ign (f w).1) (f w).2) :
    Triple ign P (Cmd.simple f : Cmd W ι) Q := h

/-- A simple command that `-e` watches: the script goes on where it succeeds and ends where it
fails. -/
theorem Triple.strict {f : W → Nat × W}
    (h : ∀ w, P w → if (f w).1 = 0 then R (f w).2 else Q (.exit (f w).1) (f w).2) :
    Triple false P (Cmd.simple f : Cmd W ι) (onStatus (fun _ => R) Q) := by
  refine Triple.simple fun w hw => ?_
  have h := h w hw
  by_cases hok : (f w).1 = 0
  · simpa [settle, hok, onStatus] using h
  · simpa [settle, hok, onStatus] using h

/-- A tool with status `n`, which does `f` where it succeeds and leaves `g` where it fails. -/
theorem Triple.tool {n : Nat} {f g : W → W} (hok : n = 0 → ∀ w, P w → R (f w))
    (hfail : n ≠ 0 → ∀ w, P w → Q (.exit n) (g w)) :
    Triple false P (Cmd.simple fun w => if n = 0 then (0, f w) else (n, g w) : Cmd W ι)
      (onStatus (fun _ => R) Q) := by
  refine Triple.strict fun w hw => ?_
  by_cases hn : n = 0
  · simpa [hn] using hok hn w hw
  · simpa [hn] using hfail hn w hw

theorem Triple.seq {c d : Cmd W ι} (hc : Triple ign P c (onStatus (fun _ => R) Q))
    (hd : Triple ign R d Q) : Triple ign P (Cmd.seq c d) Q := by
  intro w hp
  have hc := hc w hp
  rw [eval_seq_eq]
  generalize eval ign c w = r at hc
  obtain ⟨o, w'⟩ := r
  cases o with
  | status n => exact hd w' hc
  | _ => exact hc

theorem Triple.and {c d : Cmd W ι}
    (hc : Triple true P c (onStatus (fun n w => if n = 0 then R w else Q (.status n) w) Q))
    (hd : Triple ign R d Q) : Triple ign P (Cmd.and c d) Q := by
  intro w hp
  have hc := hc w hp
  rw [eval_and_eq]
  generalize eval true c w = r at hc
  obtain ⟨o, w'⟩ := r
  cases o with
  | status n =>
    cases n with
    | zero => exact hd w' hc
    | succ n => exact hc
  | _ => exact hc

theorem Triple.or {c d : Cmd W ι}
    (hc : Triple true P c (onStatus (fun n w => if n = 0 then Q (.status n) w else R w) Q))
    (hd : Triple ign R d Q) : Triple ign P (Cmd.or c d) Q := by
  intro w hp
  have hc := hc w hp
  rw [eval_or_eq]
  generalize eval true c w = r at hc
  obtain ⟨o, w'⟩ := r
  cases o with
  | status n =>
    cases n with
    | zero => exact hc
    | succ n => exact hd w' hc
  | _ => exact hc

theorem Triple.not {c : Cmd W ι}
    (hc : Triple true P c (onStatus (fun n w => Q (.status (if n = 0 then 1 else 0)) w) Q)) :
    Triple ign P (Cmd.not c) Q := by
  intro w hp
  have hc := hc w hp
  rw [eval_not_eq]
  generalize eval true c w = r at hc
  obtain ⟨o, w'⟩ := r
  cases o with
  | status n =>
    cases n with
    | zero => exact hc
    | succ n => exact hc
  | _ => exact hc

theorem Triple.ite {c t e : Cmd W ι} {S : W → Prop}
    (hc : Triple true P c (onStatus (fun n w => if n = 0 then R w else S w) Q))
    (ht : Triple ign R t Q) (he : Triple ign S e Q) : Triple ign P (Cmd.ite c t e) Q := by
  intro w hp
  have hc := hc w hp
  rw [eval_ite_eq]
  generalize eval true c w = r at hc
  obtain ⟨o, w'⟩ := r
  cases o with
  | status n =>
    cases n with
    | zero => exact ht w' hc
    | succ n => exact he w' hc
  | _ => exact hc

/-- What a loop body may end with, when the loop has invariant `P` and ends in `Q`. -/
def bodyPost (P : W → Prop) (Q : Outcome → W → Prop) : Outcome → W → Prop
  | .status n, w => P w ∧ Q (.status n) w
  | .cont, w => P w ∧ Q (.status 0) w
  | .brk, w => Q (.status 0) w
  | o, w => Q o w

/-- The loop rule: `P` is the invariant, and the items are known to be in `S`. -/
theorem Triple.forIn_mem {items : W → List ι} {body : ι → Cmd W ι} {S : ι → Prop}
    (hitems : ∀ w, P w → ∀ x ∈ items w, S x) (hnil : ∀ w, P w → Q (.status 0) w)
    (hbody : ∀ x, S x → Triple ign P (body x) (bodyPost P Q)) :
    Triple ign P (Cmd.forIn items body) Q := by
  have hloop : ∀ xs : List ι, (∀ x ∈ xs, S x) → ∀ n w, P w → Q (.status n) w →
      Q (loop (fun x => eval ign (body x)) xs n w).1
        (loop (fun x => eval ign (body x)) xs n w).2 := by
    intro xs
    induction xs with
    | nil => exact fun _ _ _ _ hq => hq
    | cons x xs ih =>
      intro hmem n w hp _
      have hb := hbody x (hmem x (List.mem_cons_self ..)) w hp
      have ih := ih fun y hy => hmem y (List.mem_cons_of_mem _ hy)
      simp only [loop]
      generalize eval ign (body x) w = r at hb
      obtain ⟨o, w'⟩ := r
      cases o with
      | status m => exact ih m w' hb.1 hb.2
      | cont => exact ih 0 w' hb.1 hb.2
      | _ => exact hb
  exact fun w hp => hloop _ (hitems w hp) 0 w hp (hnil w hp)

/-- The loop rule for any items. -/
theorem Triple.forIn {items : W → List ι} {body : ι → Cmd W ι} (hnil : ∀ w, P w → Q (.status 0) w)
    (hbody : ∀ x, Triple ign P (body x) (bodyPost P Q)) :
    Triple ign P (Cmd.forIn items body) Q :=
  Triple.forIn_mem (S := fun _ => True) (fun _ _ _ _ => trivial) hnil fun x _ => hbody x

theorem Triple.call {body : Cmd W ι} (h : Triple ign P body fun o w => Q (returned ign o) w) :
    Triple ign P (Cmd.call body) Q := h

theorem Triple.capture {body : Cmd W ι} (h : Triple true P body fun o w => Q (joined ign o) w) :
    Triple ign P (Cmd.capture body) Q := h

theorem Triple.subshell {body : Cmd W ι} (h : Triple ign P body fun o w => Q (joined ign o) w) :
    Triple ign P (Cmd.subshell body) Q := h

theorem Triple.cont (h : ∀ w, P w → Q .cont w) : Triple ign P (Cmd.cont : Cmd W ι) Q := h

theorem Triple.brk (h : ∀ w, P w → Q .brk w) : Triple ign P (Cmd.brk : Cmd W ι) Q := h

theorem Triple.ret {n : Nat} (h : ∀ w, P w → Q (.ret n) w) :
    Triple ign P (Cmd.ret n : Cmd W ι) Q := h

theorem Triple.exit {n : Nat} (h : ∀ w, P w → Q (.exit n) w) :
    Triple ign P (Cmd.exit n : Cmd W ι) Q := h

/-- A block: every command but the last one goes on in the invariant `P`. -/
theorem Triple.block {cs : List (Cmd W ι)} {c : Cmd W ι}
    (hcs : ∀ d ∈ cs, Triple ign P d (onStatus (fun _ => P) Q)) (hc : Triple ign P c Q) :
    Triple ign P (Cmd.block (cs ++ [c])) Q := by
  induction cs with
  | nil => exact hc
  | cons d cs ih =>
    have hne : cs ++ [c] ≠ [] := by simp
    obtain ⟨e, es, hes⟩ := List.exists_cons_of_ne_nil hne
    have hih := ih fun e he => hcs e (List.mem_cons_of_mem _ he)
    rw [List.cons_append, hes]
    rw [hes] at hih
    exact (hcs d (List.mem_cons_self ..)).seq hih

/-- A script with a trap: the handler starts from the status that the script was ending with. -/
theorem Triple.script {main : Cmd W ι} (onExit : Nat → Cmd W ι) {R S : Nat → W → Prop}
    (hmain : Triple false P main fun o w => R (exitStatus o) w)
    (hexit : ∀ rc, Triple false (R rc) (onExit rc)
      (onStatus (fun _ w => S rc w) fun o w => S (exitStatus o) w)) {w : W} (hp : P w) :
    S (Cmd.script main onExit w).1 (Cmd.script main onExit w).2 := by
  have hm := hmain w hp
  have he := hexit _ _ hm
  simp only [Cmd.script]
  generalize eval false (onExit (exitStatus (eval false main w).1)) (eval false main w).2 = r at he
  obtain ⟨o, w'⟩ := r
  cases o <;> exact he

/-! ## Frames, and commands that `set -e` cannot stop -/

/-- A post-condition that says of a status only the invariant `P`; what it adds is about the ways to
leave. -/
def Passes (P : W → Prop) (Q : Outcome → W → Prop) : Prop := ∀ n w, Q (.status n) w ↔ P w

namespace Triple

theorem passes_on {c : Cmd W ι} (hQ : Passes P Q) (hc : Triple ign P c Q) :
    Triple ign P c (onStatus (fun _ => P) Q) := by
  refine hc.mono fun o w hq => onStatus_of hq fun n hn => ?_
  subst hn
  exact (hQ n w).1 hq

/-- In a condition `P` holds whichever status is handed back. -/
theorem passes_cond {c : Cmd W ι} {Q' : Nat → W → Prop} (hQ : Passes P Q)
    (hc : Triple ign P c Q) (h : ∀ n w, P w → Q' n w) : Triple ign P c (onStatus Q' Q) := by
  refine (hc.passes_on hQ).mono fun o w ho => ?_
  cases o with
  | status n => exact h n w ho
  | _ => exact ho

theorem seq_passes {c d : Cmd W ι} (hQ : Passes P Q) (hc : Triple ign P c Q)
    (hd : Triple ign P d Q) : Triple ign P (Cmd.seq c d) Q :=
  Triple.seq (hc.passes_on hQ) hd

theorem and_passes {c d : Cmd W ι} (hQ : Passes P Q) (hc : Triple true P c Q)
    (hd : Triple ign P d Q) : Triple ign P (Cmd.and c d) Q := by
  refine Triple.and (R := P) (hc.passes_cond hQ fun n w hp => ?_) hd
  split
  · exact hp
  · exact (hQ n w).2 hp

theorem or_passes {c d : Cmd W ι} (hQ : Passes P Q) (hc : Triple true P c Q)
    (hd : Triple ign P d Q) : Triple ign P (Cmd.or c d) Q := by
  refine Triple.or (R := P) (hc.passes_cond hQ fun n w hp => ?_) hd
  split
  · exact (hQ n w).2 hp
  · exact hp

theorem not_passes {c : Cmd W ι} (hQ : Passes P Q) (hc : Triple true P c Q) :
    Triple ign P (Cmd.not c) Q :=
  Triple.not (hc.passes_cond hQ fun _ w hp => (hQ _ w).2 hp)

theorem ite_passes {c t e : Cmd W ι} (hQ : Passes P Q) (hc : Triple true P c Q)
    (ht : Triple ign P t Q) (he : Triple ign P e Q) : Triple ign P (Cmd.ite c t e) Q := by
  refine Triple.ite (R := P) (S := P) (hc.passes_cond hQ fun n w hp => ?_) ht he
  split <;> exact hp

end Triple

/-- Every simple command in `c` keeps `P`. -/
def Cmd.keeps (P : W → Prop) : Cmd W ι → Prop
  | simple f => ∀ w, P w → P (f w).2
  | seq c d => c.keeps P ∧ d.keeps P
  | and c d => c.keeps P ∧ d.keeps P
  | or c d => c.keeps P ∧ d.keeps P
  | not c => c.keeps P
  | ite c t e => c.keeps P ∧ t.keeps P ∧ e.keeps P
  | forIn _ body => ∀ x, (body x).keeps P
  | call body => body.keeps P
  | capture body => body.keeps P
  | subshell body => body.keeps P
  | cont | brk | ret _ | exit _ => True

/-- Whatever its outcome, a command keeps what all its simple commands keep. -/
theorem Triple.frame {c : Cmd W ι} (h : c.keeps P) : Triple ign P c fun _ => P := by
  have hQ : Passes P (fun _ => P) := fun _ _ => Iff.rfl
  induction c generalizing ign with
  | simple f => exact Triple.simple h
  | seq c d ihc ihd => exact Triple.seq_passes hQ (ihc h.1) (ihd h.2)
  | and c d ihc ihd => exact Triple.and_passes hQ (ihc h.1) (ihd h.2)
  | or c d ihc ihd => exact Triple.or_passes hQ (ihc h.1) (ihd h.2)
  | not c ihc => exact Triple.not_passes hQ (ihc h)
  | ite c t e ihc iht ihe => exact Triple.ite_passes hQ (ihc h.1) (iht h.2.1) (ihe h.2.2)
  | forIn items body ih =>
    refine Triple.forIn (fun _ hp => hp) fun x => (ih x (h x)).mono fun o w hp => ?_
    cases o <;> simp [bodyPost, hp]
  | call body ih => exact Triple.call (ih h)
  | capture body ih => exact Triple.capture (ih h)
  | subshell body ih => exact Triple.subshell (ih h)
  | cont => exact Triple.cont fun _ hp => hp
  | brk => exact Triple.brk fun _ hp => hp
  | ret n => exact Triple.ret fun _ hp => hp
  | exit n => exact Triple.exit fun _ hp => hp

/-- Every `return` of `c` is `return 0`. -/
def Cmd.returnsZero : Cmd W ι → Prop
  | simple _ | cont | brk | exit _ | call _ | capture _ | subshell _ => True
  | seq c d | and c d | or c d => c.returnsZero ∧ d.returnsZero
  | not c => c.returnsZero
  | ite c t e => c.returnsZero ∧ t.returnsZero ∧ e.returnsZero
  | forIn _ body => ∀ x, (body x).returnsZero
  | ret n => n = 0

/-- The status of `c` is 0 whenever it ends with one. -/
def Cmd.endsInZero : Cmd W ι → Prop
  | simple f => ∀ w, (f w).1 = 0
  | seq _ d => d.endsInZero
  | and c d => c.endsInZero ∧ d.endsInZero
  | or _ d => d.endsInZero
  | not _ => False
  | ite _ t e => t.endsInZero ∧ e.endsInZero
  | forIn _ body => ∀ x, (body x).endsInZero
  | call body => body.endsInZero ∧ body.returnsZero
  | capture _ | subshell _ => False
  | cont | brk | ret _ | exit _ => True

/-- **`Cmd.quiet`** — no failure in `c` can end the script: a simple command succeeds or stands
where `-e` is ignored, and a called body ends in status 0.  `loop` and `fn` say whether `c` may leave
an enclosing loop or function. -/
def Cmd.quiet (ign loop fn : Bool) : Cmd W ι → Prop
  | simple f => ign = true ∨ ∀ w, (f w).1 = 0
  | seq c d => c.quiet ign loop fn ∧ d.quiet ign loop fn
  | and c d | or c d => c.quiet true loop fn ∧ d.quiet ign loop fn
  | not c => c.quiet true loop fn
  | ite c t e => c.quiet true loop fn ∧ t.quiet ign loop fn ∧ e.quiet ign loop fn
  | forIn _ body => ∀ x, (body x).quiet ign true fn
  | call body => body.quiet ign true true ∧ (ign = true ∨ body.endsInZero ∧ body.returnsZero)
  | capture body => body.quiet true true true ∧ (ign = true ∨ body.endsInZero ∧ body.returnsZero)
  | subshell body => body.quiet ign true true ∧ (ign = true ∨ body.endsInZero ∧ body.returnsZero)
  | cont | brk => loop = true
  | ret _ => fn = true
  | exit _ => False

@[simp] theorem Cmd.test_keeps (p : W → Bool) : (test p : Cmd W ι).keeps P := fun _ h => h

@[simp] theorem Cmd.nop_keeps : (nop : Cmd W ι).keeps P := fun _ h => h

@[simp] theorem Cmd.test_quiet (p : W → Bool) (loop fn : Bool) :
    (test p : Cmd W ι).quiet true loop fn := Or.inl rfl

@[simp] theorem Cmd.nop_quiet (ign loop fn : Bool) : (nop : Cmd W ι).quiet ign loop fn :=
  Or.inr fun _ => rfl

@[simp] theorem Cmd.assign_quiet (f : W → W) (ign loop fn : Bool) :
    (assign f : Cmd W ι).quiet ign loop fn := Or.inr fun _ => rfl

@[simp] theorem Cmd.nop_endsInZero : (nop : Cmd W ι).endsInZero := fun _ => rfl

@[simp] theorem Cmd.nop_returnsZero : (nop : Cmd W ι).returnsZero := trivial

@[simp] theorem Cmd.test_returnsZero (p : W → Bool) : (test p : Cmd W ι).returnsZero := trivial

/-- The outcomes of a quiet command. -/
def Outcome.quiet (loop fn : Bool) : Outcome → Prop
  | .status _ => True
  | .cont | .brk => loop = true
  | .ret _ => fn = true
  | .exit _ => False

theorem settle_quiet {n : Nat} {loop fn : Bool} (h : ign = true ∨ n = 0) :
    (settle ign n).quiet loop fn := by
  rcases h with h | h <;> simp [settle, h, Outcome.quiet]

/-- A value returned from a function, if any, is 0. -/
def Outcome.retZero : Outcome → Prop
  | .ret n => n = 0
  | _ => True

/-- The status an outcome carries, if any, is 0. -/
def Outcome.zero : Outcome → Prop
  | .status n => n = 0
  | .ret n => n = 0
  | _ => True

theorem settle_retZero (ign : Bool) (n : Nat) : (settle ign n).retZero := by
  unfold settle
  split <;> trivial

theorem returned_retZero (ign : Bool) (o : Outcome) : (returned ign o).retZero := by
  cases o with
  | status n => exact settle_retZero ign n
  | ret n => exact settle_retZero ign n
  | _ => trivial

theorem joined_retZero (ign : Bool) (o : Outcome) : (joined ign o).retZero := by
  cases o with
  | status n => exact settle_retZero ign n
  | ret n => exact settle_retZero ign n
  | exit n => exact settle_retZero ign n
  | _ => trivial

theorem Cmd.returnsZero_triple {c : Cmd W ι} (h : c.returnsZero) :
    Triple ign (fun _ => True) c fun o _ => o.retZero := by
  have hQ : Passes (fun _ : W => True) fun o _ => o.retZero := fun _ _ => Iff.rfl
  induction c generalizing ign with
  | simple f => exact Triple.simple fun w _ => settle_retZero ign _
  | seq c d ihc ihd => exact Triple.seq_passes hQ (ihc h.1) (ihd h.2)
  | and c d ihc ihd => exact Triple.and_passes hQ (ihc h.1) (ihd h.2)
  | or c d ihc ihd => exact Triple.or_passes hQ (ihc h.1) (ihd h.2)
  | not c ihc => exact Triple.not_passes hQ (ihc h)
  | ite c t e ihc iht ihe => exact Triple.ite_passes hQ (ihc h.1) (iht h.2.1) (ihe h.2.2)
  | forIn items body ih =>
    refine Triple.forIn (fun _ _ => trivial) fun x => (ih x (h x)).mono fun o w ho => ?_
    cases o <;> simp [bodyPost] <;> exact ho
  | call body ih => exact Triple.call fun w _ => returned_retZero ign _
  | capture body ih => exact Triple.capture fun w _ => joined_retZero ign _
  | subshell body ih => exact Triple.subshell fun w _ => joined_retZero ign _
  | cont => exact Triple.cont fun _ _ => trivial
  | brk => exact Triple.brk fun _ _ => trivial
  | ret n => exact Triple.ret fun _ _ => h
  | exit n => exact Triple.exit fun _ _ => trivial

theorem settle_zero {n : Nat} (h : n = 0) : (settle ign n).zero := by
  subst h
  simp [settle, Outcome.zero]

theorem returned_zero {o : Outcome} (h : o.zero) : (returned ign o).zero := by
  cases o with
  | status n => exact settle_zero h
  | ret n => exact settle_zero h
  | exit n => trivial
  | _ => exact rfl

theorem returned_quiet {o : Outcome} {l f loop fn : Bool} (hq : o.quiet l f)
    (hz : ign = true ∨ o.zero) : (returned ign o).quiet loop fn := by
  cases o with
  | status n => exact settle_quiet hz
  | ret n => exact settle_quiet hz
  | exit n => exact hq.elim
  | _ => trivial

theorem joined_quiet {o : Outcome} {l f loop fn : Bool} (hq : o.quiet l f)
    (hz : ign = true ∨ o.zero) : (joined ign o).quiet loop fn := by
  cases o with
  | status n => exact settle_quiet hz
  | ret n => exact settle_quiet hz
  | exit n => exact hq.elim
  | _ => trivial

theorem Cmd.endsInZero_triple {c : Cmd W ι} (h : c.endsInZero) (hr : c.returnsZero) :
    Triple ign (fun _ => True) c fun o _ => o.zero := by
  induction c generalizing ign with
  | simple f => exact Triple.simple fun w _ => settle_zero (h w)
  | seq c d ihc ihd =>
    refine Triple.seq (R := fun _ => True) ((returnsZero_triple hr.1).mono fun o _ ho => ?_)
      (ihd h hr.2)
    cases o <;> exact ho
  | and c d ihc ihd =>
    refine Triple.and ((ihc h.1 hr.1).mono fun _ _ ho => onStatus_of ho fun n hn => ?_)
      (ihd h.2 hr.2)
    subst hn
    split
    · trivial
    · exact ho
  | or c d ihc ihd =>
    refine Triple.or (R := fun _ => True) ((returnsZero_triple hr.1).mono fun o _ ho => ?_)
      (ihd h hr.2)
    cases o with
    | status n =>
      simp only [onStatus]
      split
      · assumption
      · trivial
    | _ => exact ho
  | not c => exact h.elim
  | ite c t e ihc iht ihe =>
    refine Triple.ite (R := fun _ => True) (S := fun _ => True)
      ((returnsZero_triple hr.1).mono fun o _ ho => ?_) (iht h.1 hr.2.1) (ihe h.2 hr.2.2)
    cases o with
    | status n => simp [onStatus]
    | _ => exact ho
  | forIn items body ih =>
    refine Triple.forIn (fun _ _ => rfl) fun x => (ih x (h x) (hr x)).mono fun o w ho => ?_
    cases o with
    | status n => exact ⟨trivial, ho⟩
    | cont => exact ⟨trivial, rfl⟩
    | brk => exact rfl
    | ret n => exact ho
    | exit n => trivial
  | call body ih => exact Triple.call fun w _ => returned_zero (ih h.1 h.2 w trivial)
  | capture body => exact h.elim
  | subshell body => exact h.elim
  | cont => exact Triple.cont fun _ _ => trivial
  | brk => exact Triple.brk fun _ _ => trivial
  | ret n => exact Triple.ret fun _ _ => hr
  | exit n => exact Triple.exit fun _ _ => trivial

/-- **`Cmd.quiet_triple`** — a quiet command never ends the script. -/
theorem Cmd.quiet_triple {c : Cmd W ι} {loop fn : Bool} (h : c.quiet ign loop fn) :
    Triple ign (fun _ => True) c fun o _ => o.quiet loop fn := by
  have hQ : ∀ loop fn, Passes (fun _ : W => True) fun o _ => o.quiet loop fn :=
    fun _ _ _ _ => Iff.rfl
  induction c generalizing ign loop fn with
  | simple f => exact Triple.simple fun w _ => settle_quiet (h.imp id fun h => h w)
  | seq c d ihc ihd => exact Triple.seq_passes (hQ loop fn) (ihc h.1) (ihd h.2)
  | and c d ihc ihd => exact Triple.and_passes (hQ loop fn) (ihc h.1) (ihd h.2)
  | or c d ihc ihd => exact Triple.or_passes (hQ loop fn) (ihc h.1) (ihd h.2)
  | not c ihc => exact Triple.not_passes (hQ loop fn) (ihc h)
  | ite c t e ihc iht ihe =>
    exact Triple.ite_passes (hQ loop fn) (ihc h.1) (iht h.2.1) (ihe h.2.2)
  | forIn items body ih =>
    refine Triple.forIn (fun _ _ => trivial) fun x => (ih x (h x)).mono fun o w ho => ?_
    cases o with
    | status n => exact ⟨trivial, trivial⟩
    | cont => exact ⟨trivial, trivial⟩
    | brk => trivial
    | _ => exact ho
  | call body ih =>
    exact Triple.call fun w _ => returned_quiet (ih h.1 w trivial)
      (h.2.imp id fun hz => endsInZero_triple hz.1 hz.2 w trivial)
  | capture body ih =>
    exact Triple.capture fun w _ => joined_quiet (ih h.1 w trivial)
      (h.2.imp id fun hz => endsInZero_triple hz.1 hz.2 w trivial)
  | subshell body ih =>
    exact Triple.subshell fun w _ => joined_quiet (ih h.1 w trivial)
      (h.2.imp id fun hz => endsInZero_triple hz.1 hz.2 w trivial)
  | cont => exact Triple.cont fun _ _ => h
  | brk => exact Triple.brk fun _ _ => h
  | ret n => exact Triple.ret fun _ _ => h
  | exit n => exact h.elim

/-- A quiet command at the top level of a script goes on, in any invariant that it keeps. -/
theorem Triple.of_quiet {c : Cmd W ι} (hq : c.quiet ign false false) (hk : c.keeps P) :
    Triple ign P c (onStatus (fun _ => P) Q) := by
  intro w hp
  have ho := Cmd.quiet_triple hq w trivial
  have hw : P (Cmd.eval ign c w).2 := Triple.frame hk w hp
  generalize Cmd.eval ign c w = r at ho hw
  obtain ⟨o, w'⟩ := r
  cases o with
  | status n => exact hw
  | exit n => exact ho.elim
  | _ => nomatch ho

/-! ## Commands that stop the script only with a failure -/

/-- **`Cmd.fatal`** — where `c` stops the script, it does so with a non-zero status.  `loop` and `fn`
say whether `c` may leave an enclosing loop or function. -/
def Cmd.fatal (loop fn : Bool) : Cmd W ι → Prop
  | simple _ | capture _ | subshell _ => True
  | seq c d | and c d | or c d => c.fatal loop fn ∧ d.fatal loop fn
  | not c => c.fatal loop fn
  | ite c t e => c.fatal loop fn ∧ t.fatal loop fn ∧ e.fatal loop fn
  | forIn _ body => ∀ x, (body x).fatal true fn
  | call body => body.fatal true true
  | cont | brk => loop = true
  | ret _ => fn = true
  | exit n => n ≠ 0

def Outcome.fatal (loop fn : Bool) : Outcome → Prop
  | .status _ => True
  | .cont | .brk => loop = true
  | .ret _ => fn = true
  | .exit n => n ≠ 0

theorem settle_fatal (ign : Bool) (n : Nat) (loop fn : Bool) : (settle ign n).fatal loop fn := by
  unfold settle
  split
  · next h => exact h.1
  · trivial

theorem joined_fatal (ign : Bool) (o : Outcome) (loop fn : Bool) :
    (joined ign o).fatal loop fn := by
  cases o with
  | status n => exact settle_fatal ign n loop fn
  | ret n => exact settle_fatal ign n loop fn
  | exit n => exact settle_fatal ign n loop fn
  | _ => trivial

theorem returned_fatal {o : Outcome} {l f loop fn : Bool} (ho : o.fatal l f) :
    (returned ign o).fatal loop fn := by
  cases o with
  | status n => exact settle_fatal ign n loop fn
  | ret n => exact settle_fatal ign n loop fn
  | exit n => exact ho
  | _ => trivial

/-- **`Cmd.fatal_triple`** — such a command ends as it says. -/
theorem Cmd.fatal_triple {c : Cmd W ι} {loop fn : Bool} (h : c.fatal loop fn) :
    Triple ign (fun _ => True) c fun o _ => o.fatal loop fn := by
  have hQ : ∀ loop fn, Passes (fun _ : W => True) fun o _ => o.fatal loop fn :=
    fun _ _ _ _ => Iff.rfl
  induction c generalizing ign loop fn with
  | simple f => exact Triple.simple fun w _ => settle_fatal ign _ loop fn
  | seq c d ihc ihd => exact Triple.seq_passes (hQ loop fn) (ihc h.1) (ihd h.2)
  | and c d ihc ihd => exact Triple.and_passes (hQ loop fn) (ihc h.1) (ihd h.2)
  | or c d ihc ihd => exact Triple.or_passes (hQ loop fn) (ihc h.1) (ihd h.2)
  | not c ihc => exact Triple.not_passes (hQ loop fn) (ihc h)
  | ite c t e ihc iht ihe =>
    exact Triple.ite_passes (hQ loop fn) (ihc h.1) (iht h.2.1) (ihe h.2.2)
  | forIn items body ih =>
    refine Triple.forIn (fun _ _ => trivial) fun x => (ih x (h x)).mono fun o w ho => ?_
    cases o with
    | status n => exact ⟨trivial, trivial⟩
    | cont => exact ⟨trivial, trivial⟩
    | brk => trivial
    | _ => exact ho
  | call body ih => exact Triple.call fun w _ => returned_fatal (ih h w trivial)
  | capture body ih => exact Triple.capture fun w _ => joined_fatal ign _ loop fn
  | subshell body ih => exact Triple.subshell fun w _ => joined_fatal ign _ loop fn
  | cont => exact Triple.cont fun _ _ => h
  | brk => exact Triple.brk fun _ _ => h
  | ret n => exact Triple.ret fun _ _ => h
  | exit n => exact Triple.exit fun _ _ => h

/-- At the top level such a command goes on in any invariant that it keeps, or stops the script in
it with a failure. -/
theorem Triple.of_fatal {c : Cmd W ι} (hf : c.fatal false false) (hk : c.keeps P)
    (hq : ∀ n w, n ≠ 0 → P w → Q (.exit n) w) :
    Triple ign P c (onStatus (fun _ => P) Q) := by
  intro w hp
  have ho := (Cmd.fatal_triple hf : Triple ign _ c _) w trivial
  have hw : P (Cmd.eval ign c w).2 := Triple.frame hk w hp
  generalize Cmd.eval ign c w = r at ho hw
  obtain ⟨o, w'⟩ := r
  cases o with
  | status n => exact hw
  | exit n => exact hq n w' ho hw
  | _ => nomatch ho

/-! ## Conditions -/

/-- Where `-e` is ignored, a subshell always hands back a status. -/
theorem Triple.subshell_ignored {body : Cmd W ι} (hk : body.keeps P) :
    Triple true P (Cmd.subshell body) (onStatus (fun _ => P) Q) := by
  intro w hp
  have hframe : Triple true P body fun _ => P := Triple.frame hk
  have hw := hframe w hp
  show onStatus (fun _ => P) Q (joined true (eval true body w).1) (eval true body w).2
  generalize eval true body w = r at hw
  obtain ⟨o, w'⟩ := r
  cases o <;> simpa [joined, settle, onStatus] using hw

theorem Triple.not_ignored {c : Cmd W ι}
    (hc : ∀ {Q : Outcome → W → Prop}, Triple true P c (onStatus (fun _ => P) Q)) :
    Triple true P (Cmd.not c) (onStatus (fun _ => P) Q) :=
  Triple.not (hc.mono fun o w ho => by cases o <;> exact ho)

theorem Triple.or_ignored {c d : Cmd W ι}
    (hc : ∀ {Q : Outcome → W → Prop}, Triple true P c (onStatus (fun _ => P) Q))
    (hd : ∀ {Q : Outcome → W → Prop}, Triple true P d (onStatus (fun _ => P) Q)) :
    Triple true P (Cmd.or c d) (onStatus (fun _ => P) Q) := by
  refine Triple.or (R := P) ((hc (Q := Q)).mono fun o w ho => ?_) hd
  cases o with
  | status n => simpa [onStatus] using ho
  | _ => exact ho

/-- An `if` whose condition keeps `P` and always hands back a status. -/
theorem Triple.branch {c t e : Cmd W ι}
    (hc : ∀ {Q : Outcome → W → Prop}, Triple true P c (onStatus (fun _ => P) Q))
    (ht : Triple ign P t Q) (he : Triple ign P e Q) : Triple ign P (Cmd.ite c t e) Q :=
  Triple.ite (hc.mono fun o w ho => by
    cases o with
    | status n => simpa [onStatus] using ho
    | _ => exact ho) ht he

/-- A test in a condition. -/
theorem Triple.test {p : W → Bool} {S : W → Prop} (htrue : ∀ w, P w → p w = true → R w)
    (hfalse : ∀ w, P w → p w = false → S w) :
    Triple true P (Cmd.test p : Cmd W ι)
      (onStatus (fun n w => if n = 0 then R w else S w) Q) := by
  refine Triple.simple fun w hw => ?_
  cases hp : p w with
  | true => simpa [settle, onStatus, hp] using htrue w hw hp
  | false => simpa [settle, onStatus, hp] using hfalse w hw hp

/-- Going on after a command that hands back a status. -/
theorem Cmd.eval_seq {c d : Cmd W ι} {n : Nat} {w w' : W} (h : c.eval ign w = (.status n, w')) :
    (seq c d).eval ign w = d.eval ign w' := by
  rw [eval_seq_eq, h]

/-- Running on after `seq c d` is running on after `d`. -/
theorem Cmd.eval_seq_assoc (ign : Bool) (c d e : Cmd W ι) (w : W) :
    (seq c (seq d e)).eval ign w = (seq (seq c d) e).eval ign w := by
  simp only [eval_seq_eq]
  generalize eval ign c w = r
  obtain ⟨o, w'⟩ := r
  cases o <;> rfl

theorem Cmd.eval_seq_congr (c : Cmd W ι) {d e : Cmd W ι} (h : ∀ w, d.eval ign w = e.eval ign w)
    (w : W) : (seq c d).eval ign w = (seq c e).eval ign w := by
  simp only [eval_seq_eq, h]

/-! ## Pipelines -/

/-- A stage of a pipeline: from the lines it reads, its status and the lines it writes. -/
abbrev Stage (α : Type) := List α → Nat × List α

/-- A pipeline under `pipefail`: its status is that of the last stage with a status other than 0. -/
def pipeline {α : Type} : List (Stage α) → Stage α
  | [], lines => (0, lines)
  | stage :: stages, lines =>
    let rest := pipeline stages (stage lines).2
    (if rest.1 ≠ 0 then rest.1 else (stage lines).1, rest.2)

/-- `grep` fails where no line matches. -/
def grep {α : Type} (p : α → Bool) : Stage α := fun lines =>
  (if lines.any p then 0 else 1, lines.filter p)

/-- `head -n1` -/
def headOne {α : Type} : Stage α := fun lines => (0, lines.take 1)

/-- `tr`, or a `sed` that edits each line. -/
def editLines {α : Type} (f : α → α) : Stage α := fun lines => (0, lines.map f)

/-- A pipeline fails with its first stage. -/
theorem pipeline_fails {α : Type} {stage : Stage α} {lines : List α} (h : (stage lines).1 ≠ 0)
    (stages : List (Stage α)) : (pipeline (stage :: stages) lines).1 ≠ 0 := by
  show (if (pipeline stages (stage lines).2).1 ≠ 0 then _ else _) ≠ 0
  split
  · next hrest => exact hrest
  · exact h

theorem grep_fails {α : Type} {p : α → Bool} {lines : List α} (h : ∀ line ∈ lines, p line = false) :
    (grep p lines).1 ≠ 0 := by
  have hnone : lines.any p = false := List.any_eq_false.mpr fun line hline => by simp [h line hline]
  rw [grep, hnone]
  exact Nat.one_ne_zero

end ProxyGateway.Lang
