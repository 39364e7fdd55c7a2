/-
# ProxyGateway.Dns.LockLoser — an update that finds the lock taken

`begin_transaction` tries the lock before it saves anything, and leaves the script if another update has
it.  But the script has had its EXIT trap since before that.  The trap asks for a status other than 0 and
for `TXN_COMMITTED=0`, both of which hold then; `rollback_transaction` returns early, for there is no
backup, and the next line restarts dnsdist.

So the loser touches none of the six objects, and yet restarts dnsdist on whatever the winner has left
of them at that moment (`loser_not_harmless`).
-/
import ProxyGateway.Dns.UpdateRules

namespace ProxyGateway.Dns

open ProxyGateway.Lang

section Loser

variable {D : Type} (env : Env D)

/-- A second update that starts while the update in the world `p` has the lock. -/
def World.contender (p : World D) : World D :=
  World.start p.disk true p.template p.extras p.defaultRules p.certBasename

/-- The loser of the lock leaves the managed objects and the running dnsdist alone. -/
structure Harmless (p : World D) : Prop where
  disk : (runUpdate env p.contender).2.disk = p.disk
  dnsdist : ∀ s ∈ (runUpdate env p.contender).2.log, s ≠ .restart ∧ s ≠ .start

/-- Before the trap: no backup, no commit, and the objects as they are. -/
structure LockedOut (disk : Disk D) (w : World D) : Prop where
  lock : w.lockTaken = true
  backup : w.backup = none
  uncommitted : w.committed = false
  disk : w.disk = disk

/-- The script is left with a failure. -/
def Stopped (disk : Disk D) (o : Outcome) (w : World D) : Prop :=
  ∃ n, n ≠ 0 ∧ o = .exit n ∧ LockedOut disk w

variable {env} {disk : Disk D}

theorem lockedOut_ext (s : Step) : (env.ext s).keeps (LockedOut disk) :=
  ext_keeps env (fun _ _ _ h => ⟨h.lock, h.backup, h.uncommitted, h.disk⟩) s

/-- A command on the way to the lock. -/
theorem lockedOut_goesOn {Q : Outcome → World D → Prop} (hq : ∀ o w, Stopped disk o w → Q o w)
    (s : Step) :
    Triple false (LockedOut disk) (env.ext s) (onStatus (fun _ => LockedOut disk) Q) := by
  apply Triple.of_fatal _ (lockedOut_ext s)
  · intro n w hn hw
    exact hq _ w ⟨n, hn, rfl, hw⟩
  · exact trivial

/-- The lock is not to be had. -/
theorem lock_stops : Triple false (LockedOut disk)
    (.or (.test fun w => !w.lockTaken) (.block [env.ext .echo, .exit 1]))
    (onStatus (fun _ _ => False) (Stopped disk)) := by
  refine Triple.or (R := LockedOut disk) ?_ ?_
  · intro w hw
    simp only [Cmd.test, Cmd.eval, Cmd.settle, hw.lock]
    exact hw
  · refine Triple.seq (lockedOut_goesOn ?_ .echo) (Triple.exit fun w hw => ?_)
    · rintro o w ⟨n, hn, rfl, hw⟩
      exact ⟨n, hn, rfl, hw⟩
    · exact ⟨1, Nat.one_ne_zero, rfl, hw⟩

/-- However it is left, the script is left by way of a failure and before its backup. -/
theorem updateRules_stops : Triple false (LockedOut disk) env.updateRules (Stopped disk) := by
  have hext : ∀ s, Triple false (LockedOut disk) (env.ext s)
      (onStatus (fun _ => LockedOut disk) (Stopped disk)) := lockedOut_goesOn fun _ _ h => h
  have hbegin : Triple false (LockedOut disk) (.call env.beginTransaction)
      (onStatus (fun _ _ => False) (Stopped disk)) := by
    apply Triple.call
    refine Triple.mono (Triple.seq (hext .mkdir) <| Triple.seq (hext .openLock) <|
      Triple.seq lock_stops fun _ h => h.elim) ?_
    rintro o w ⟨n, hn, rfl, hw⟩
    exact ⟨n, hn, rfl, hw⟩
  exact Triple.seq (hext .echo) <| Triple.seq (hext .mkdir) <|
    Triple.seq hbegin fun _ h => h.elim

/-- dnsdist was restarted, and nothing else changed. -/
structure Restarted (disk : Disk D) (w : World D) : Prop where
  backup : w.backup = none
  disk : w.disk = disk
  restart : .restart ∈ w.log

/-- `systemctl restart dnsdist || true` -/
theorem restart_spec {Q : Outcome → World D → Prop} :
    Triple false (LockedOut disk) (.or (env.ext .restart) .nop)
      (onStatus (fun _ => Restarted disk) Q) := by
  intro w hw
  have hdone : Restarted disk { w with clock := w.clock + 1, log := .restart :: w.log } :=
    ⟨hw.backup, hw.disk, List.mem_cons_self⟩
  -- the command has run, with whatever status
  cases hn : env.fails w.clock .restart with
  | zero => simpa [Env.ext, Env.command, Cmd.eval, Cmd.settle, hn, onStatus] using hdone
  | succ n => simpa [Env.ext, Env.command, Cmd.eval, Cmd.settle, Cmd.nop, hn, onStatus] using hdone

/-- `rollback_transaction` returns at its first line. -/
theorem rollback_returns {Q : Outcome → World D → Prop} :
    Triple false (LockedOut disk) (.call env.rollbackTransaction)
      (onStatus (fun _ => LockedOut disk) Q) := by
  intro w hw
  simp only [Env.rollbackTransaction, Cmd.block, Cmd.eval, Cmd.test, Cmd.settle, hw.backup]
  exact hw

/-- The trap has nothing to put back, and goes on to the restart. -/
theorem finish_restarts {rc : Nat} (hrc : rc ≠ 0) : Triple false (LockedOut disk)
    (env.finishTransaction rc) fun o w => o = .exit rc ∧ Restarted disk w := by
  have hundo : Triple false (LockedOut disk)
      (.block [message, .call env.rollbackTransaction, .or (env.ext .restart) .nop])
      (onStatus (fun _ => Restarted disk) fun o w => o = .exit rc ∧ Restarted disk w) := by
    exact Triple.seq (R := LockedOut disk) (fun w hw => hw) (Triple.seq rollback_returns restart_spec)
  refine Triple.seq (R := Restarted disk) ?_ (Triple.seq (R := Restarted disk) ?_ ?_)
  · refine Triple.ite (R := LockedOut disk) (S := fun _ => False) ?_ hundo (fun _ h => h.elim)
    intro w hw
    simpa [Cmd.eval, Cmd.test, Cmd.settle, onStatus, hw.uncommitted, hrc] using hw
  · intro w hw
    simp only [Cmd.eval, Cmd.test, Cmd.settle, hw.backup]
    exact hw
  · exact Triple.exit fun w hw => ⟨rfl, hw⟩

/-- **`loser_restarts`** — whatever the winner is at, the loser ends with a failure, leaves the managed
objects alone and restarts dnsdist. -/
theorem loser_restarts (env : Env D) (p : World D) :
    (runUpdate env p.contender).1 ≠ 0 ∧ Restarted p.disk (runUpdate env p.contender).2 := by
  have hstart : LockedOut p.disk p.contender := ⟨rfl, rfl, rfl, rfl⟩
  refine Triple.script env.finishTransaction (R := fun rc w => rc ≠ 0 ∧ LockedOut p.disk w)
    (S := fun rc w => rc ≠ 0 ∧ Restarted p.disk w) (updateRules_stops.mono ?_) ?_ hstart
  · rintro o w ⟨n, hn, rfl, hw⟩
    exact ⟨hn, hw⟩
  · intro rc w hw
    obtain ⟨ho, hrestarted⟩ := finish_restarts hw.1 w hw.2
    rw [ho]
    exact ⟨hw.1, hrestarted⟩

/-- **`loser_not_harmless`** — no update that loses the lock is harmless. -/
theorem loser_not_harmless (env : Env D) (p : World D) : ¬ Harmless env p := fun h =>
  (h.dnsdist .restart (loser_restarts env p).2.restart).1 rfl

end Loser

/-- An update that has just taken the lock, with every object in place. -/
def winner : World Unit :=
  { World.start (fun _ => some ()) false true false true true with lockTaken := true }

theorem lost_lock_restarts : ¬ ∀ (D : Type) (env : Env D) (p : World D), Harmless env p := by
  intro h
  have hlog : Step.restart ∈ (runUpdate emptyLists winner.contender).2.log := by decide
  exact ((h Unit emptyLists winner).dnsdist .restart hlog).1 rfl

end ProxyGateway.Dns
