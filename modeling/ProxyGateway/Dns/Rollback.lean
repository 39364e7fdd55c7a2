/-
# ProxyGateway.Dns.Rollback — a failed update leaves the six objects as they were

Between its backup and its commit `update-rules.sh` writes in place, moves the chunk directory aside
and replaces the configuration, and any of its commands may fail.  `update_allOrNothing` follows all
of these failures: `set -e` ends the script with a non-zero status wherever it ends it
(`Cmd.fatal`), nothing after `begin_transaction` touches the backup, and the EXIT trap then copies
every saved object back and removes the others.  What a failing command leaves of the objects is
arbitrary, and may differ from one run of the command to the next.
-/
import ProxyGateway.Dns.UpdateRules

namespace ProxyGateway.Dns

open ProxyGateway.Lang

section Rollback

variable {D : Type} {env : Env D}

/-- The commands with which the trap restores succeed. -/
structure Env.Restores (env : Env D) : Prop where
  restore : ∀ t o, env.fails t (.restore o) = 0
  remove : ∀ t o, env.fails t (.remove o) = 0

/-- The script up to its transaction. -/
def Env.prologue (env : Env D) : Script D :=
  .block [env.ext .echo, env.ext .mkdir, .call env.beginTransaction]

/-- The script after it. -/
def Env.rest (env : Env D) : Script D :=
  .block [.block env.collect, env.requireTemplate, .block (env.apply ++ [env.commit])]

theorem updateRules_eq (w : World D) :
    env.updateRules.eval false w = (Cmd.seq env.prologue env.rest).eval false w := by
  show (Cmd.seq (env.ext .echo) (.seq (env.ext .mkdir) (.seq _ env.rest))).eval false w =
    (Cmd.seq (.seq (env.ext .echo) (.seq (env.ext .mkdir) _)) env.rest).eval false w
  rw [← Cmd.eval_seq_assoc]
  exact Cmd.eval_seq_congr _ (Cmd.eval_seq_assoc false _ _ _) w

/-! ## The script -/

/-- The backup holds what `disk` is. -/
def Saved (disk : Disk D) (w : World D) : Prop := w.backup = some disk

/-- What holds as long as nothing is committed. -/
def Pending (disk : Disk D) (w : World D) : Prop := Saved disk w ∧ w.committed = false

/-- What holds when the script ends. -/
def Ended (disk : Disk D) (rc : Nat) (w : World D) : Prop :=
  Saved disk w ∧ (rc = 0 → w.committed = true)

theorem pending_disk (disk : Disk D) (w : World D) (d : Disk D) (clock : Nat)
    (log : List Step) (h : Pending disk w) : Pending disk { w with disk := d, clock, log } := h

theorem pending_clock (disk : Disk D) (w : World D) (clock : Nat) (log : List Step)
    (h : Pending disk w) : Pending disk { w with clock, log } := h

/-- A command of the script before its commit. -/
theorem goesOn {disk : Disk D} {c : Script D} (hf : c.fatal false false)
    (hk : c.keeps (Pending disk)) :
    Triple false (Pending disk) c
      (onStatus (fun _ => Pending disk) fun o => Ended disk (Cmd.exitStatus o)) := by
  apply Triple.of_fatal hf hk
  intro n w hn hp
  exact ⟨hp.1, fun hzero => absurd hzero hn⟩

theorem collect_fatal : (Cmd.block env.collect).fatal false false := by
  simp [Env.collect, Env.updateGfwList, Env.gfwLine, Env.appendGfw, Env.touch, Env.updateChinaList,
    Env.appendLocalGfwlistExtras, Env.appendDefaultRuleDomains, Env.writeChinalistChunks,
    Env.installChinalistChunks, Cmd.fatal, Cmd.block, Cmd.test, Cmd.nop, present, assign, Env.ext,
    Env.run, Env.command]

theorem collect_pending {disk : Disk D} : (Cmd.block env.collect).keeps (Pending disk) :=
  collect_keeps (pending_disk disk) (pending_clock disk) fun _ _ _ h => h

theorem requireTemplate_goesOn {disk : Disk D} :
    Triple false (Pending disk) env.requireTemplate
      (onStatus (fun _ => Pending disk) fun o => Ended disk (Cmd.exitStatus o)) := by
  have hext := ext_keeps env (pending_clock disk)
  apply goesOn
  · simp [Env.requireTemplate, Cmd.fatal, Cmd.block, Cmd.test, Cmd.nop, Env.ext, Env.command]
  · simp [Env.requireTemplate, Cmd.keeps, Cmd.block, hext]

theorem apply_pending {disk : Disk D} :
    ∀ d ∈ env.apply, Triple false (Pending disk) d
      (onStatus (fun _ => Pending disk) fun o => Ended disk (Cmd.exitStatus o)) := by
  have hrun := run_keeps env (pending_disk disk)
  have hext := ext_keeps env (pending_clock disk)
  intro d hd
  apply goesOn
  · simp only [Env.apply, List.mem_cons, List.not_mem_nil, or_false] at hd
    rcases hd with rfl | rfl | rfl | rfl | rfl | rfl | rfl | rfl | rfl <;>
      simp [Env.readSettings, Env.ensureDnsdistActive, Cmd.fatal, Cmd.block, Cmd.test, Cmd.nop,
        Env.ext, Env.run, Env.command]
  · simp only [Env.apply, List.mem_cons, List.not_mem_nil, or_false] at hd
    rcases hd with rfl | rfl | rfl | rfl | rfl | rfl | rfl | rfl | rfl <;>
      simp [Env.readSettings, Env.ensureDnsdistActive, Cmd.keeps, Cmd.block, hrun, hext]

/-- From `TXN_COMMITTED=1` on the update may stay, however the script ends. -/
theorem commit_ends {disk : Disk D} :
    Triple false (Pending disk) env.commit fun o => Ended disk (Cmd.exitStatus o) := by
  have hcommitted : (env.ext .echo).keeps fun w : World D => Saved disk w ∧ w.committed = true :=
    ext_keeps env (fun _ _ _ hp => hp) _
  refine Triple.seq (R := fun w : World D => Saved disk w ∧ w.committed = true) ?_ ?_
  · intro w hp
    exact ⟨hp.1, rfl⟩
  · exact (Triple.frame hcommitted).mono fun _ _ hw => ⟨hw.1, fun _ => hw.2⟩

/-- However the script ends, it ends with a failure or after its commit. -/
theorem rest_ends {disk : Disk D} :
    Triple false (Pending disk) env.rest fun o => Ended disk (Cmd.exitStatus o) :=
  Triple.seq (goesOn collect_fatal collect_pending)
    (Triple.seq requireTemplate_goesOn (Triple.block apply_pending commit_ends))

/-! ## The trap -/

/-- The objects of a set are back. -/
def Restored (disk : Disk D) (os : List Obj) (w : World D) : Prop :=
  Saved disk w ∧ ∀ o ∈ os, w.disk o = disk o

theorem put_restored {disk d : Disk D} {os : List Obj} {o : Obj} {x : Option D}
    (h : ∀ o' ∈ os, d o' = disk o') (hx : x = disk o) :
    ∀ o' ∈ o :: os, d.put o x o' = disk o' := by
  intro o' ho'
  by_cases heq : o' = o
  · rw [heq, Disk.put, if_pos rfl, hx]
  · rw [Disk.put, if_neg heq]
    exact h o' ((List.mem_cons.mp ho').resolve_left heq)

theorem restoreObj_eval (hr : env.Restores) {disk : Disk D} {w : World D} (h : Saved disk w)
    (ign : Bool) (o : Obj) :
    (env.restoreObj o).eval ign w =
      (.status 0, { w with
        clock := w.clock + 1, log := .restore o :: w.log, disk := w.disk.put o (disk o) }) := by
  have hbackup : w.backup = some disk := h
  simp [Env.restoreObj, Env.command, Cmd.eval, Cmd.settle, hr.restore, hbackup]

theorem removeObj_eval (hr : env.Restores) (w : World D) (ign : Bool) (o : Obj) :
    (env.removeObj o).eval ign w =
      (.status 0, { w with
        clock := w.clock + 1, log := .remove o :: w.log, disk := w.disk.put o none }) := by
  simp [Env.removeObj, Env.run, Env.command, Cmd.eval, Cmd.settle, hr.remove]

theorem inBackup_eval {disk : Disk D} {w : World D} (h : Saved disk w) (o : Obj) :
    (inBackup o).eval true w = (.status (if (disk o).isSome then 0 else 1), w) := by
  have hbackup : w.backup = some disk := h
  simp [inBackup, Cmd.test, Cmd.eval, Cmd.settle, hbackup]

/-- A file is copied back, or removed where it was not there. -/
theorem restoreFile_spec (hr : env.Restores) {ign : Bool} {disk : Disk D} {os : List Obj} (o : Obj)
    {Q : Outcome → World D → Prop} :
    Triple ign (Restored disk os) (.ite (inBackup o) (env.restoreObj o) (env.removeObj o))
      (onStatus (fun _ => Restored disk (o :: os)) Q) := by
  intro w hp
  cases ho : disk o with
  | some x =>
    simp only [Cmd.eval, inBackup_eval hp.1, restoreObj_eval hr hp.1, ho, Option.isSome_some,
      if_true]
    exact ⟨hp.1, put_restored hp.2 ho.symm⟩
  | none =>
    simp only [Cmd.eval, inBackup_eval hp.1, removeObj_eval hr, ho, Option.isSome_none,
      Bool.false_eq_true, if_false]
    exact ⟨hp.1, put_restored hp.2 ho.symm⟩

theorem put_put (disk : Disk D) (o : Obj) (x y : Option D) :
    (disk.put o x).put o y = disk.put o y := by
  funext o'
  simp only [Disk.put]
  split <;> rfl

/-- The chunk directory is removed, then copied back if it was there. -/
theorem restoreChunks_spec (hr : env.Restores) {ign : Bool} {disk : Disk D} {os : List Obj} :
    Triple ign (Restored disk os)
      (.seq (env.removeObj .chunkDir) (.and (inBackup .chunkDir) (env.restoreObj .chunkDir)))
      fun _ => Restored disk (.chunkDir :: os) := by
  intro w hp
  have hremoved : Saved disk
      { w with
        clock := w.clock + 1, log := .remove .chunkDir :: w.log, disk := w.disk.put .chunkDir none } := hp.1
  cases ho : disk .chunkDir with
  | some x =>
    simp only [Cmd.eval, removeObj_eval hr, inBackup_eval hremoved, restoreObj_eval hr hremoved,
      ho, Option.isSome_some, if_true, put_put]
    exact ⟨hp.1, put_restored hp.2 ho.symm⟩
  | none =>
    simp only [Cmd.eval, removeObj_eval hr, inBackup_eval hremoved, ho, Option.isSome_none,
      Bool.false_eq_true, if_false]
    exact ⟨hp.1, put_restored hp.2 ho.symm⟩

/-- **`rollback_restores`** — after `rollback_transaction` the six objects are as they were. -/
theorem rollback_restores (hr : env.Restores) {disk : Disk D} :
    Triple false (Saved disk) (.call env.rollbackTransaction) fun _ w => w.disk = disk := by
  have hall : ∀ w : World D, Restored disk
      [.chunkDir, .conf, .chinaLua, .chinaRaw, .gfwLua, .gfwRaw] w → w.disk = disk := by
    intro w hw
    funext o
    apply hw.2
    cases o <;> simp
  have hguard : Triple false (Saved disk)
      (.or (.test fun w => w.backup.isSome) (.ret 0) : Script D)
      (onStatus (fun _ => Restored disk []) fun _ w => w.disk = disk) := by
    intro w hw
    have hbackup : w.backup = some disk := hw
    simp only [Cmd.eval, Cmd.test, Cmd.settle, hbackup]
    exact ⟨hw, List.forall_mem_nil _⟩
  have hfiles : Triple false (Restored disk [])
      (Cmd.block (files.map fun f => .ite (inBackup f) (env.restoreObj f) (env.removeObj f)))
      (onStatus (fun _ => Restored disk [.conf, .chinaLua, .chinaRaw, .gfwLua, .gfwRaw])
        fun _ w => w.disk = disk) :=
    -- one step for each of the five files
    Triple.seq (restoreFile_spec hr .gfwRaw) <| Triple.seq (restoreFile_spec hr .gfwLua) <|
      Triple.seq (restoreFile_spec hr .chinaRaw) <| Triple.seq (restoreFile_spec hr .chinaLua) <|
        restoreFile_spec hr .conf
  apply Triple.call
  exact Triple.seq hguard (Triple.seq hfiles ((restoreChunks_spec hr).mono fun _ w hw => hall w hw))

/-- What the update promises. -/
def AllOrNothing (disk : Disk D) (w : World D) : Prop := w.committed = true ∨ w.disk = disk

/-- The trap puts everything back unless the update was committed. -/
theorem finish_restores (hr : env.Restores) {disk : Disk D} (rc : Nat) :
    Triple false (Ended disk rc) (env.finishTransaction rc) fun _ => AllOrNothing disk := by
  have hext := ext_keeps env (P := AllOrNothing disk) (fun _ _ _ h => h)
  have hrestart : Triple false (AllOrNothing disk) (.or (env.ext .restart) .nop)
      (onStatus (fun _ => AllOrNothing disk) fun _ => AllOrNothing disk) := by
    refine (Triple.frame ?_).go_on fun _ _ hw => hw
    exact ⟨hext _, Cmd.nop_keeps⟩
  have hundo : Triple false (Saved disk)
      (.block [message, .call env.rollbackTransaction, .or (env.ext .restart) .nop])
      (onStatus (fun _ => AllOrNothing disk) fun _ => AllOrNothing disk) := by
    refine Triple.seq (R := Saved disk) (fun w hw => hw) (Triple.seq ?_ hrestart)
    have hrollback : Triple false (Saved disk) (.call env.rollbackTransaction)
        fun _ => AllOrNothing disk := (rollback_restores hr).mono fun _ _ hw => Or.inr hw
    exact hrollback.go_on fun _ _ hw => onStatus_of hw fun _ _ => hw
  have hcases : Triple false (Ended disk rc)
      (.ite (.test fun w => rc ≠ 0 ∧ w.committed = false)
        (.block [message, .call env.rollbackTransaction, .or (env.ext .restart) .nop]) .nop)
      (onStatus (fun _ => AllOrNothing disk) fun _ => AllOrNothing disk) := by
    refine Triple.ite (R := Saved disk) (S := AllOrNothing disk) ?_ hundo ?_
    · intro w hw
      by_cases hcond : rc ≠ 0 ∧ w.committed = false
      · simpa [Cmd.eval, Cmd.test, Cmd.settle, onStatus, hcond] using hw.1
      · -- a script that ends in status 0 has committed
        have hcommitted : w.committed = true := by
          by_contra hno
          exact hcond ⟨fun hzero => hno (hw.2 hzero), by simpa using hno⟩
        simp only [Cmd.eval, Cmd.test, Cmd.settle, hcond, decide_false]
        exact Or.inl hcommitted
    · exact (Triple.frame Cmd.nop_keeps).go_on fun _ _ hw => hw
  refine Triple.seq hcases (Triple.frame ?_)
  exact ⟨⟨Cmd.test_keeps _, hext _⟩, trivial⟩

/-! ## A run of the script -/

theorem uncommitted_prologue :
    env.prologue.keeps fun w : World D => w.committed = false := by
  have hext := ext_keeps env (P := fun w : World D => w.committed = false) (fun _ _ _ h => h)
  have hcopy : ∀ o, (env.copyToBackup o).keeps fun w : World D => w.committed = false := by
    intro o
    exact command_keeps (fun _ _ _ h => h) fun _ _ _ h => h
  have hmktemp : env.mktempBackup.keeps fun w : World D => w.committed = false :=
    command_keeps (fun _ _ _ h => h) fun _ _ _ h => h
  simp [Env.prologue, Env.beginTransaction, files, present, Cmd.keeps, Cmd.block, hext, hcopy,
    hmktemp]

theorem prologue_fatal : env.prologue.fatal false false := by
  simp [Env.prologue, Env.beginTransaction, files, present, Cmd.fatal, Cmd.block, Cmd.test,
    Env.ext, Env.copyToBackup, Env.mktempBackup, Env.command]

/-- The commands of `begin_transaction` succeed. -/
structure Env.BacksUp (env : Env D) : Prop where
  echo : ∀ t, env.fails t .echo = 0
  mkdir : ∀ t, env.fails t .mkdir = 0
  openLock : ∀ t, env.fails t .openLock = 0
  mktemp : ∀ t, env.fails t .mktempBackup = 0
  copy : ∀ t o, env.fails t (.backup o) = 0

/-- The backup holds `disk` on `os` and nothing else. -/
def Copied (disk : Disk D) (os : List Obj) (w : World D) : Prop :=
  w.disk = disk ∧ ∃ saved, w.backup = some saved ∧
    ∀ o, saved o = if o ∈ os then disk o else none

theorem copied_all {disk : Disk D} {w : World D}
    (h : Copied disk [.chunkDir, .conf, .chinaLua, .chinaRaw, .gfwLua, .gfwRaw] w) :
    w.backup = some w.disk := by
  obtain ⟨hdisk, saved, hbackup, hsaved⟩ := h
  rw [hbackup, hdisk, Option.some.injEq]
  funext o
  rw [hsaved, if_pos (by cases o <;> simp)]

/-- What exists is copied, what does not is absent from the backup. -/
theorem copy_spec (hb : env.BacksUp) {ign : Bool} {disk : Disk D} {os : List Obj} (o : Obj) :
    Triple ign (Copied disk os) (.and (present o) (env.copyToBackup o))
      (fun out w => Copied disk (o :: os) w ∧ out = .status (if (disk o).isSome then 0 else 1)) := by
  rintro w ⟨hdisk, saved, hbackup, hsaved⟩
  cases ho : disk o with
  | some x =>
    have hcopy : Copied disk (o :: os) { w with
        clock := w.clock + 1, log := .backup o :: w.log, backup := some (saved.put o (w.disk o)) } := by
      refine ⟨hdisk, _, rfl, fun o' => ?_⟩
      by_cases heq : o' = o
      · simp [Disk.put, heq, hdisk]
      · simp [Disk.put, heq, hsaved]
    simpa [Cmd.eval, present, Cmd.test, Cmd.settle, hdisk, ho, Env.copyToBackup, Env.command,
      hb.copy, hbackup] using hcopy
  | none =>
    have hskip : Copied disk (o :: os) w := by
      refine ⟨hdisk, saved, hbackup, fun o' => ?_⟩
      by_cases heq : o' = o
      · simp [heq, hsaved, ho]
      · simp [heq, hsaved]
    simpa [Cmd.eval, present, Cmd.test, Cmd.settle, hdisk, ho] using hskip

/-- **`prologue_saves`** — with the lock free, the backup is complete when `begin_transaction` ends,
with whatever status. -/
theorem prologue_saves (hb : env.BacksUp) {disk : Disk D} :
    Triple false (fun w => w.lockTaken = false ∧ w.disk = disk) env.prologue fun _ w =>
      Copied disk [.chunkDir, .conf, .chinaLua, .chinaRaw, .gfwLua, .gfwRaw] w := by
  have hcopy : ∀ {os : List Obj} (o : Obj) {Q : Outcome → World D → Prop},
      Triple false (Copied disk os) (.and (present o) (env.copyToBackup o))
        (onStatus (fun _ => Copied disk (o :: os)) Q) := by
    intro os o Q
    refine (copy_spec hb o).mono fun out w hw => ?_
    rw [hw.2]
    exact hw.1
  have hext : ∀ s, (∀ t, env.fails t s = 0) → ∀ {Q : Outcome → World D → Prop},
      Triple false (fun w => w.lockTaken = false ∧ w.disk = disk) (env.ext s)
        (onStatus (fun _ w => w.lockTaken = false ∧ w.disk = disk) Q) := by
    intro s hs Q w hw
    simp only [Env.ext, Env.command, Cmd.eval, if_pos (hs _)]
    exact hw
  have hlock : ∀ {Q : Outcome → World D → Prop},
      Triple false (fun w => w.lockTaken = false ∧ w.disk = disk)
        (.or (.test fun w => !w.lockTaken) (.block [env.ext .echo, .exit 1]))
        (onStatus (fun _ w => w.lockTaken = false ∧ w.disk = disk) Q) := by
    intro Q w hw
    simp only [Cmd.eval, Cmd.test, Cmd.settle, hw.1]
    exact hw
  have hmktemp : ∀ {Q : Outcome → World D → Prop},
      Triple false (fun w => w.lockTaken = false ∧ w.disk = disk) env.mktempBackup
        (onStatus (fun _ => Copied disk []) Q) := by
    intro Q w hw
    simp only [Env.mktempBackup, Env.command, Cmd.eval, if_pos (hb.mktemp _)]
    exact ⟨hw.2, _, rfl, fun _ => rfl⟩
  have hfiles : ∀ {Q : Outcome → World D → Prop}, Triple false (Copied disk [])
      (Cmd.block (files.map fun f => .and (present f) (env.copyToBackup f)))
      (onStatus (fun _ => Copied disk [.conf, .chinaLua, .chinaRaw, .gfwLua, .gfwRaw]) Q) :=
    Triple.seq (hcopy .gfwRaw) <| Triple.seq (hcopy .gfwLua) <| Triple.seq (hcopy .chinaRaw) <|
      Triple.seq (hcopy .chinaLua) (hcopy .conf)
  have hbegin : Triple false (fun w => w.lockTaken = false ∧ w.disk = disk) env.beginTransaction
      fun _ w => Copied disk [.chunkDir, .conf, .chinaLua, .chinaRaw, .gfwLua, .gfwRaw] w :=
    Triple.seq (hext _ hb.mkdir) <| Triple.seq (hext _ hb.openLock) <| Triple.seq hlock <|
      Triple.seq hmktemp <| Triple.seq hfiles ((copy_spec hb .chunkDir).mono fun _ _ hw => hw.1)
  exact Triple.seq (hext _ hb.echo) (Triple.seq (hext _ hb.mkdir) (Triple.call hbegin))

/-- **`update_allOrNothing`** — whatever fails in a run of `update-rules.sh`: if the backup was
complete when `begin_transaction` ended, then afterwards the script reached `TXN_COMMITTED=1`, or
each of the six objects has the presence and the content it had then. -/
theorem update_allOrNothing (hr : env.Restores) {start begun : World D}
    (hstart : start.committed = false) (hbegun : (env.prologue.eval false start).2 = begun)
    (hsaved : begun.backup = some begun.disk) :
    (runUpdate env start).2.committed = true ∨
      ∀ o, (runUpdate env start).2.disk o = begun.disk o := by
  have hmain : Triple false (fun w => w = start) env.updateRules
      fun o w => Ended begun.disk (Cmd.exitStatus o) w := by
    intro w hw
    subst hw
    rw [updateRules_eq]
    have hpending : Pending begun.disk (env.prologue.eval false w).2 :=
      ⟨by rw [hbegun]; exact hsaved, Triple.frame uncommitted_prologue w hstart⟩
    have hfatal := (Cmd.fatal_triple prologue_fatal : Triple false _ env.prologue _) w trivial
    simp only [Cmd.eval]
    generalize env.prologue.eval false w = r at hpending hfatal
    obtain ⟨o, w'⟩ := r
    cases o with
    | status n => exact rest_ends w' hpending
    -- the script ended in `begin_transaction`, with a failure
    | exit n => exact ⟨hpending.1, fun hzero => absurd hzero hfatal⟩
    | _ => cases hfatal
  have hend : AllOrNothing begun.disk (runUpdate env start).2 :=
    Triple.script env.finishTransaction (S := fun _ => AllOrNothing begun.disk) hmain
      (fun rc => (finish_restores hr rc).go_on fun _ _ hw => hw) rfl
  exact hend.imp_right fun hdisk o => congrFun hdisk o

end Rollback

/-- Surroundings in which dnsdist refuses every configuration. -/
def failedCheck : Env Nat where
  fails _ s := if s = .checkConfig then 1 else 0
  damage _ _ := id
  downloaded _ := 1
  empty := 0
  gfwLines _ := []
  gfwSkip _ := false
  gfwDomain := id
  gfwAdmissible _ := false
  addDomain d _ := d
  extraLines := []
  extraDomain := id
  extraValid _ := false
  defaultDomains := []
  chinaDomains _ := []
  chunks _ := 1
  loader _ := 1
  rendered _ := 1

theorem failedCheck_backsUp : failedCheck.BacksUp :=
  ⟨fun _ => rfl, fun _ => rfl, fun _ => rfl, fun _ => rfl, fun _ _ => rfl⟩

theorem failedCheck_restored :
    (runUpdate failedCheck (World.start (fun _ => some 7) false true false true true)).2.committed
      = true ∨
    ∀ o, (runUpdate failedCheck (World.start (fun _ => some 7) false true false true true)).2.disk o
      = (failedCheck.prologue.eval false
          (World.start (fun _ => some 7) false true false true true)).2.disk o :=
  update_allOrNothing ⟨fun _ _ => rfl, fun _ _ => rfl⟩ rfl rfl
    (copied_all (prologue_saves failedCheck_backsUp _ ⟨rfl, rfl⟩))

/-- That update is undone, although it had already written both lists. -/
example : (runUpdate failedCheck (World.start (fun _ => some 7) false true false true true)).1 = 1 ∧
    (runUpdate failedCheck (World.start (fun _ => some 7) false true false true true)).2.disk .gfwRaw
      = some 7 := by decide

end ProxyGateway.Dns
