/-
# ProxyGateway.Dns.UpdateRules — `update-rules.sh` and its transaction

The rule updater changes six objects under `/etc/dnsdist` and promises to put them back when it
fails: `begin_transaction` copies what exists, an EXIT trap restores the copies unless the script
reached `TXN_COMMITTED=1`.  The script runs under `set -e`, so which command ends it depends on the
status of every list and every function body; the model is the script's text over `Lang.Errexit`,
with the pattern tests and the contents of the downloads as parameters.

`begin_transaction` ends in `[[ -d chinalist.d ]] && cp`.  Where that directory does not exist the
list has status 1, which is the status of the call, and the call is a simple command: a fresh
installation never gets past its first line.  `update_commits_iff` says that this is the only way in
which an update whose commands all succeed can fail to commit (a missing template apart, for which
the script stops on purpose).
-/
import ProxyGateway.Lang.Errexit
import ProxyGateway.Lang.Text

namespace ProxyGateway.Dns

open ProxyGateway.Lang

/-! ## State -/

/-- The managed objects: five files and the directory `chinalist.d`. -/
inductive Obj where
  | gfwRaw | gfwLua | chinaRaw | chinaLua | conf | chunkDir
  deriving DecidableEq, Repr

/-- The five files, in the order of the loops over them. -/
def files : List Obj := [.gfwRaw, .gfwLua, .chinaRaw, .chinaLua, .conf]

/-- Presence and content of the managed objects. -/
abbrev Disk (D : Type) := Obj → Option D

def Disk.put {D : Type} (disk : Disk D) (o : Obj) (d : Option D) : Disk D :=
  fun o' => if o' = o then d else disk o'

/-- The external commands, by what they are for. -/
inductive Step where
  | echo | mkdir | openLock | mktempBackup | backup (o : Obj)
  | restore (o : Obj) | remove (o : Obj) | removeBackup | restart | start | isActive
  | download (o : Obj) | install (o : Obj) | rmDownload | touch (o : Obj)
  | truncate | decode | decodeIgnoring | decodeOpenssl | appendGfw | rmDecoded
  | indexGfw | lookupDomain (domain : Text) | rmIndex | defaultDomains
  | mktempChunks | mktempLoader | mkdirChunks | writeChunk | writeLoader | chmod
  | rmOldChunks | moveOldChunks | moveChunks | moveLoader
  | mktempCandidate | readSetting | render | findDnsdist | checkConfig | replaceConf | sleep
  deriving DecidableEq, Repr

/-- What the script reads and writes besides the network. -/
structure World (D : Type) where
  disk : Disk D
  /-- the lock is held by another update -/
  lockTaken : Bool
  /-- `dnsdist.conf.template` exists -/
  template : Bool
  /-- `gfwlist-extra-local.txt`, `rules-default.conf` and `runtime/.cert_basename` exist -/
  extras : Bool
  defaultRules : Bool
  certBasename : Bool
  /-- `TXN_BACKUP`: unset, or a directory and what it holds -/
  backup : Option (Disk D)
  /-- `TXN_COMMITTED` -/
  committed : Bool
  /-- the counters of the loops -/
  count : Nat
  entries : Nat
  /-- how many external commands have run, and which, the last of them first -/
  clock : Nat
  log : List Step

/-- A machine on which the updater is about to start. -/
def World.start {D : Type} (disk : Disk D) (lockTaken template extras defaultRules
    certBasename : Bool) : World D :=
  { disk, lockTaken, template, extras, defaultRules, certBasename
    backup := none, committed := false, count := 0, entries := 0, clock := 0, log := [] }

/-- What the surroundings answer.  `fails t s` is the exit status of a command that is the `t`-th to
run, `damage` what it leaves of the disk when it fails; the rest are the downloads and the pattern
tests of the parsers. -/
structure Env (D : Type) where
  fails : Nat → Step → Nat
  damage : Nat → Step → Disk D → Disk D
  downloaded : Obj → D
  empty : D
  gfwLines : D → List Text
  gfwSkip : Text → Bool
  gfwDomain : Text → Text
  gfwAdmissible : Text → Bool
  addDomain : D → Text → D
  extraLines : List Text
  extraDomain : Text → Text
  extraValid : Text → Bool
  defaultDomains : List Text
  chinaDomains : D → List Text
  chunks : List Text → D
  loader : List Text → D
  rendered : Disk D → D

/-- No external command fails. -/
def Env.Succeeds {D : Type} (env : Env D) : Prop := ∀ t s, env.fails t s = 0

abbrev Script (D : Type) := Cmd (World D) Text

section Script

variable {D : Type} (env : Env D)

/-- An external command, with what it does to the world if it succeeds and if it fails. -/
def Env.command (s : Step) (done failed : World D → World D) : Script D :=
  .simple fun w =>
    let w' := { w with clock := w.clock + 1, log := s :: w.log }
    if env.fails w.clock s = 0 then (0, done w') else (env.fails w.clock s, failed w')

/-- What a failing command leaves. -/
def Env.spoil (s : Step) (w : World D) : World D :=
  { w with disk := env.damage w.clock s w.disk }

/-- An external command that changes the disk by `f`. -/
def Env.run (s : Step) (f : Disk D → Disk D) : Script D :=
  env.command s (fun w => { w with disk := f w.disk }) (env.spoil s)

/-- An external command without effect on the managed objects. -/
def Env.ext (s : Step) : Script D := env.command s id id

/-- An assignment or another builtin that cannot fail. -/
def assign (f : World D → World D) : Script D := .simple fun w => (0, f w)

/-- A message on stderr. -/
def message : Script D := assign id

/-! ## The transaction -/

def Env.copyToBackup (o : Obj) : Script D :=
  env.command (.backup o)
    (fun w => { w with backup := w.backup.map fun saved => saved.put o (w.disk o) }) id

def Env.mktempBackup : Script D :=
  env.command .mktempBackup (fun w => { w with backup := some fun _ => none }) id

def present (o : Obj) : Script D := .test fun w => (w.disk o).isSome

def inBackup (o : Obj) : Script D := .test fun w => (w.backup.bind fun saved => saved o).isSome

/-- `begin_transaction` -/
def Env.beginTransaction : Script D :=
  .block [
    env.ext .mkdir,
    env.ext .openLock,
    .or (.test fun w => !w.lockTaken) (.block [env.ext .echo, .exit 1]),
    env.mktempBackup,
    .block (files.map fun f => .and (present f) (env.copyToBackup f)),
    .and (present .chunkDir) (env.copyToBackup .chunkDir)]

/-- Copying a saved object back. -/
def Env.restoreObj (o : Obj) : Script D :=
  env.command (.restore o)
    (fun w => { w with disk := w.disk.put o (w.backup.bind fun saved => saved o) })
    (env.spoil (.restore o))

def Env.removeObj (o : Obj) : Script D := env.run (.remove o) fun disk => disk.put o none

/-- `rollback_transaction` -/
def Env.rollbackTransaction : Script D :=
  .block [
    .or (.test fun w => w.backup.isSome) (.ret 0),
    .block (files.map fun f => .ite (inBackup f) (env.restoreObj f) (env.removeObj f)),
    env.removeObj .chunkDir,
    .and (inBackup .chunkDir) (env.restoreObj .chunkDir)]

/-- `finish_transaction`, the EXIT trap; `rc` is the status the script is about to end with. -/
def Env.finishTransaction (rc : Nat) : Script D :=
  .block [
    .ite (.test fun w => rc ≠ 0 ∧ w.committed = false)
      (.block [message, .call env.rollbackTransaction, .or (env.ext .restart) .nop])
      .nop,
    .and (.test fun w => w.backup.isSome) (env.ext .removeBackup),
    .exit rc]

/-! ## GFWList -/

def Env.appendGfw (domain : Text) : Script D :=
  env.run .appendGfw fun disk =>
    disk.put .gfwLua (some (env.addDomain ((disk .gfwLua).getD env.empty) domain))

def Env.touch (o : Obj) : Script D :=
  env.run (.touch o) fun disk => disk.put o (some ((disk o).getD env.empty))

/-- The body of the parsing loop; `[[ $count -ge $max ]] && break` is its last command. -/
def Env.gfwLine (line : Text) : Script D :=
  .block [
    .and (.test fun _ => env.gfwSkip line) .cont,
    .and (.test fun _ => line.isEmpty) .cont,
    .ite (.test fun _ => env.gfwAdmissible (env.gfwDomain line))
      (.block [
        env.appendGfw (env.gfwDomain line),
        assign fun w => { w with count := w.count + 1 },
        .and (.test fun w => 20000 ≤ w.count) .brk])
      .nop]

def Env.updateGfwList : Script D :=
  .ite (.not (env.ext (.download .gfwRaw)))
    (.block [env.ext .echo, env.ext .rmDownload, .or (env.touch .gfwLua) .nop])
    (.block [
      env.run (.install .gfwRaw) fun disk => disk.put .gfwRaw (some (env.downloaded .gfwRaw)),
      env.ext .rmDownload,
      env.ext .echo,
      env.ext .truncate,
      .or (.or (.or (env.ext .decode) (env.ext .decodeIgnoring)) (env.ext .decodeOpenssl)) .nop,
      env.run .truncate fun disk => disk.put .gfwLua (some env.empty),
      assign fun w => { w with count := 0 },
      .forIn (fun w => ((w.disk .gfwRaw).map env.gfwLines).getD []) env.gfwLine,
      env.ext .rmDecoded,
      env.ext .echo])

/-- `append_local_gfwlist_extras` -/
def Env.appendLocalGfwlistExtras : Script D :=
  .block [
    .or (.test fun w => w.extras) (.ret 0),
    env.ext .echo,
    env.touch .gfwLua,
    env.ext .indexGfw,
    .forIn (fun _ => env.extraLines) fun line =>
      let domain := env.extraDomain line
      .block [
        .and (.test fun _ => domain.isEmpty) .cont,
        .or (.test fun _ => env.extraValid domain) (.block [env.ext .echo, .cont]),
        .ite (env.ext (.lookupDomain domain)) .cont .nop,
        env.appendGfw domain,
        env.ext .indexGfw,
        assign fun w => { w with count := w.count + 1 }],
    env.ext .rmIndex,
    env.ext .echo]

/-- `append_default_rule_domains` -/
def Env.appendDefaultRuleDomains : Script D :=
  .block [
    .or (.test fun w => w.defaultRules) (.ret 0),
    env.ext .echo,
    env.touch .gfwLua,
    env.ext .indexGfw,
    .capture (env.ext .defaultDomains),
    .forIn (fun _ => env.defaultDomains) fun domain =>
      .block [
        .and (.test fun _ => domain.isEmpty) .cont,
        .ite (env.ext (.lookupDomain domain)) .cont .nop,
        env.appendGfw domain,
        env.ext .indexGfw,
        assign fun w => { w with count := w.count + 1 }],
    env.ext .rmIndex,
    env.ext .echo]

/-! ## ChinaList -/

/-- `install_chinalist_chunks`; `domains` are the extracted names. -/
def Env.installChinalistChunks : Script D :=
  .block [
    env.ext .rmOldChunks,
    .ite (present .chunkDir) (env.run .moveOldChunks fun disk => disk.put .chunkDir none) .nop,
    env.run .moveChunks fun disk =>
      disk.put .chunkDir (some (env.chunks (((disk .chinaRaw).map env.chinaDomains).getD []))),
    env.run .moveLoader fun disk =>
      disk.put .chinaLua (some (env.loader (((disk .chinaRaw).map env.chinaDomains).getD []))),
    env.ext .rmOldChunks]

/-- `write_chinalist_chunks`, with its inner function `start_chinalist_chunk`. -/
def Env.writeChinalistChunks : Script D :=
  .block [
    env.ext .mkdirChunks,
    .forIn (fun w => ((w.disk .chinaRaw).map env.chinaDomains).getD []) fun domain =>
      .block [
        .and (.test fun _ => domain.isEmpty) .cont,
        .ite (.test fun w => w.entries = 0)
          (.call (.block [env.ext .writeChunk, assign fun w => { w with entries := 0 }])) .nop,
        env.ext .writeChunk,
        assign fun w => { w with count := w.count + 1, entries := w.entries + 1 },
        .ite (.test fun w => 20000 ≤ w.entries) (assign fun w => { w with entries := 0 }) .nop],
    .ite (.test fun w => w.count = 0) (env.ext .writeLoader) (env.ext .writeLoader),
    env.ext .chmod,
    env.ext .chmod,
    env.ext .echo]

def Env.updateChinaList : Script D :=
  .ite (.not (env.ext (.download .chinaRaw)))
    (.block [env.ext .echo, env.ext .rmDownload, .or (env.touch .chinaLua) .nop])
    (.block [
      env.run (.install .chinaRaw) fun disk => disk.put .chinaRaw (some (env.downloaded .chinaRaw)),
      env.ext .rmDownload,
      env.ext .echo,
      env.ext .mktempChunks,
      env.ext .mktempLoader,
      .capture env.writeChinalistChunks,
      .call env.installChinalistChunks,
      env.ext .echo])

/-! ## The configuration, and the script -/

/-- `ensure_dnsdist_active` -/
def Env.ensureDnsdistActive : Script D :=
  .block [
    env.ext .sleep,
    .ite (.not (env.ext .isActive)) (.block [env.ext .echo, env.ext .restart]) .nop]

/-- The settings read between the template test and the rendering. -/
def Env.readSettings : Script D :=
  .block [
    env.ext .mktempCandidate,
    .capture (.or (env.ext .readSetting) (env.ext .echo)),
    .capture (.or (env.ext .readSetting) (env.ext .echo)),
    .ite (.test fun w => w.certBasename) (.capture (env.ext .readSetting)) .nop,
    .capture (.or (.or (env.ext .readSetting) (env.ext .readSetting)) (env.ext .echo)),
    .capture (env.ext .readSetting),
    .capture (.or (env.ext .readSetting) (env.ext .echo)),
    .or (.test fun _ => true) .nop]

/-- Everything from the first `echo` to the test for the template. -/
def Env.collect : List (Script D) :=
  [env.ext .echo, env.updateGfwList, .call env.appendLocalGfwlistExtras,
   .call env.appendDefaultRuleDomains, env.ext .echo, env.updateChinaList]

/-- Rendering, validation, replacement and restart. -/
def Env.apply : List (Script D) :=
  [env.ext .echo, env.readSettings, env.ext .render, env.ext .echo,
   .ite (env.ext .findDnsdist)
     (.block [
       env.ext .echo,
       .ite (.not (env.ext .checkConfig)) (.block [env.ext .echo, .exit 1]) .nop,
       env.ext .echo])
     (.block [env.ext .echo, .exit 1]),
   env.run .replaceConf fun disk => disk.put .conf (some (env.rendered disk)),
   env.ext .echo,
   .ite (env.ext .isActive)
     (.block [.and (env.ext .restart) (env.ext .echo), .call env.ensureDnsdistActive])
     (env.ext .start),
   .or (env.ext .isActive) (.block [env.ext .echo, .exit 1])]

/-- `[[ ! -f template ]]` -/
def Env.requireTemplate : Script D :=
  .ite (.not (.test fun w => w.template)) (.block [env.ext .echo, .exit 1]) .nop

/-- `TXN_COMMITTED=1` and the closing message. -/
def Env.commit : Script D :=
  .seq (assign fun w => { w with committed := true }) (env.ext .echo)

/-- **`update-rules.sh`** -/
def Env.updateRules : Script D :=
  .block [env.ext .echo, env.ext .mkdir, .call env.beginTransaction, .block env.collect,
    env.requireTemplate, .block (env.apply ++ [env.commit])]

/-- One run of the script: its exit status and the world it leaves. -/
def runUpdate (w : World D) : Nat × World D := Cmd.script env.updateRules env.finishTransaction w

/-! ## When an update without failures commits -/

/-- Before the commit, with the template present or not. -/
def Uncommitted (template : Bool) (w : World D) : Prop :=
  w.committed = false ∧ w.template = template

variable {env}

theorem command_keeps {P : World D → Prop} {s : Step} {done failed : World D → World D}
    (hdone : ∀ w clock log, P w → P (done { w with clock, log }))
    (hfailed : ∀ w clock log, P w → P (failed { w with clock, log })) :
    (env.command s done failed).keeps P := by
  intro w hp
  simp only
  split
  · exact hdone w _ _ hp
  · exact hfailed w _ _ hp

theorem run_keeps (env : Env D) {P : World D → Prop}
    (hdisk : ∀ w disk clock log, P w → P { w with disk, clock, log }) (s : Step) (f : Disk D → Disk D) :
    (env.run s f).keeps P :=
  command_keeps (fun w _ _ hp => hdisk w _ _ _ hp) fun w _ _ hp => hdisk w _ _ _ hp

theorem ext_keeps (env : Env D) {P : World D → Prop}
    (hclock : ∀ w clock log, P w → P { w with clock, log }) (s : Step) : (env.ext s).keeps P :=
  command_keeps hclock hclock

theorem command_status (hok : env.Succeeds) (s : Step) (done failed : World D → World D) :
    ∃ g : World D → World D, env.command s done failed = .simple fun w => (0, g w) := by
  refine ⟨fun w => done { w with clock := w.clock + 1, log := s :: w.log }, ?_⟩
  simp only [Env.command, if_pos (hok _ s)]

theorem command_quiet (hok : env.Succeeds) (s : Step) (done failed : World D → World D)
    (ign loop fn : Bool) : (env.command s done failed).quiet ign loop fn := by
  obtain ⟨g, hg⟩ := command_status hok s done failed
  rw [hg]
  exact Or.inr fun _ => rfl

theorem run_quiet (hok : env.Succeeds) (s : Step) (f : Disk D → Disk D) (ign loop fn : Bool) :
    (env.run s f).quiet ign loop fn := command_quiet hok s _ _ ign loop fn

theorem ext_quiet (hok : env.Succeeds) (s : Step) (ign loop fn : Bool) :
    (env.ext s).quiet ign loop fn := command_quiet hok s _ _ ign loop fn

theorem command_endsInZero (hok : env.Succeeds) (s : Step) (done failed : World D → World D) :
    (env.command s done failed).endsInZero := by
  obtain ⟨g, hg⟩ := command_status hok s done failed
  rw [hg]
  exact fun _ => rfl

theorem ext_endsInZero (hok : env.Succeeds) (s : Step) : (env.ext s).endsInZero :=
  command_endsInZero hok s _ _

@[simp] theorem ext_returnsZero (s : Step) : (env.ext s).returnsZero := trivial

@[simp] theorem run_returnsZero (s : Step) (f : Disk D → Disk D) : (env.run s f).returnsZero :=
  trivial

@[simp] theorem assign_quiet (f : World D → World D) (ign loop fn : Bool) :
    (assign f).quiet ign loop fn := Or.inr fun _ => rfl

@[simp] theorem assign_endsInZero (f : World D → World D) : (assign f).endsInZero := fun _ => rfl

@[simp] theorem assign_returnsZero (f : World D → World D) : (assign f).returnsZero := trivial

/-- A command without effect that succeeds. -/
theorem ext_eq_tick (hok : env.Succeeds) (s : Step) :
    env.ext s = .simple fun w => (0, { w with clock := w.clock + 1, log := s :: w.log }) := by
  simp only [Env.ext, Env.command, if_pos (hok _ s), id]

theorem uncommitted_disk {t : Bool} (w : World D) (disk : Disk D) (clock : Nat)
    (log : List Step) (h : Uncommitted t w) : Uncommitted t { w with disk, clock, log } := h

theorem uncommitted_clock {t : Bool} (w : World D) (clock : Nat) (log : List Step)
    (h : Uncommitted t w) : Uncommitted t { w with clock, log } := h

/-- Collecting the lists changes the managed objects, the clock and the counters. -/
theorem collect_keeps {P : World D → Prop}
    (hdisk : ∀ w disk clock log, P w → P { w with disk, clock, log })
    (hclock : ∀ w clock log, P w → P { w with clock, log })
    (hcount : ∀ w count entries, P w → P { w with count, entries }) :
    (Cmd.block env.collect).keeps P := by
  have hrun := run_keeps env hdisk
  have hext := ext_keeps env hclock
  have hassign : ∀ count entries : World D → Nat,
      (assign fun w => { w with count := count w, entries := entries w }).keeps P :=
    fun _ _ w hp => hcount w _ _ hp
  simp [Env.collect, Env.updateGfwList, Env.gfwLine, Env.appendGfw, Env.touch, Env.updateChinaList,
    Env.appendLocalGfwlistExtras, Env.appendDefaultRuleDomains, Env.writeChinalistChunks,
    Env.installChinalistChunks, Cmd.keeps, Cmd.block, present, hrun, hext, hassign]

theorem collect_uncommitted (t : Bool) : (Cmd.block env.collect).keeps (Uncommitted t) :=
  collect_keeps uncommitted_disk uncommitted_clock fun _ _ _ h => h

theorem collect_quiet (hok : env.Succeeds) : (Cmd.block env.collect).quiet false false false := by
  simp [Env.collect, Env.updateGfwList, Env.gfwLine, Env.appendGfw, Env.touch, Env.updateChinaList,
    Env.appendLocalGfwlistExtras, Env.appendDefaultRuleDomains, Env.writeChinalistChunks,
    Env.installChinalistChunks, Cmd.quiet, Cmd.endsInZero, Cmd.returnsZero, Cmd.block,
    present, run_quiet hok, ext_quiet hok, ext_endsInZero hok]

/-- The steps after the template test, the commit apart. -/
theorem apply_goesOn (hok : env.Succeeds) {Q : Outcome → World D → Prop} :
    ∀ d ∈ env.apply, Triple false (Uncommitted true) d (onStatus (fun _ => Uncommitted true) Q) := by
  have hrun := run_keeps env (uncommitted_disk (D := D) (t := true))
  have hkeeps := ext_keeps env (uncommitted_clock (D := D) (t := true))
  have hext : ∀ s, Triple false (Uncommitted true) (env.ext s)
      (onStatus (fun _ => Uncommitted true) Q) := fun s =>
    Triple.of_quiet (ext_quiet hok s _ _ _) (hkeeps s)
  intro d hd
  simp only [Env.apply, List.mem_cons, List.not_mem_nil, or_false] at hd
  rcases hd with rfl | rfl | rfl | rfl | rfl | rfl | rfl | rfl | rfl
  · exact hext _
  · -- the settings; those that are missing have defaults
    refine Triple.of_quiet ?_ ?_
    · simp [Env.readSettings, Cmd.quiet, Cmd.endsInZero, Cmd.returnsZero, Cmd.block,
        ext_quiet hok, ext_endsInZero hok]
    · simp [Env.readSettings, Cmd.keeps, Cmd.block, hkeeps]
  · exact hext _
  · exact hext _
  · -- the check of the configuration
    simp only [ext_eq_tick hok]
    exact fun w hp => hp
  · exact Triple.of_quiet (run_quiet hok _ _ _ _ _) (hrun _ _)
  · exact hext _
  · -- the restart
    refine Triple.of_quiet ?_ ?_
    · simp [Env.ensureDnsdistActive, Cmd.quiet, Cmd.endsInZero, Cmd.returnsZero, Cmd.block,
        ext_quiet hok, ext_endsInZero hok]
    · simp [Env.ensureDnsdistActive, Cmd.keeps, Cmd.block, hkeeps]
  · simp only [ext_eq_tick hok]
    exact fun w hp => hp

/-- Everything after `begin_transaction`, with the template in place. -/
theorem afterBegin_commits (hok : env.Succeeds) :
    Triple false (Uncommitted true)
      (Cmd.block [.block env.collect, env.requireTemplate, .block (env.apply ++ [env.commit])])
      fun o w => o = .status 0 ∧ w.committed = true := by
  refine Triple.seq (Triple.of_quiet (collect_quiet hok) (collect_uncommitted true)) ?_
  refine Triple.seq (R := Uncommitted true) ?_ (Triple.block (apply_goesOn hok) ?_)
  · intro w hp
    simp only [Env.requireTemplate, Cmd.eval, Cmd.test, Cmd.nop, Cmd.settle, hp.2]
    exact hp
  · intro w _
    simp only [Env.commit, ext_eq_tick hok]
    exact ⟨rfl, rfl⟩

/-- Without the template the script stops there, uncommitted. -/
theorem afterBegin_stops (hok : env.Succeeds) :
    Triple false (Uncommitted false)
      (Cmd.block [.block env.collect, env.requireTemplate, .block (env.apply ++ [env.commit])])
      fun o w => o = .exit 1 ∧ w.committed = false := by
  refine Triple.seq (Triple.of_quiet (collect_quiet hok) (collect_uncommitted false)) ?_
  refine Triple.seq (R := fun _ => False) ?_ (fun _ h => h.elim)
  intro w hp
  simp only [Env.requireTemplate, ext_eq_tick hok, Cmd.eval, Cmd.test, Cmd.nop, Cmd.settle, hp.2,
    Cmd.block]
  exact ⟨rfl, hp.1⟩

/-- What holds while `begin_transaction` copies: the lock is free, nothing is committed, and the
managed objects are untouched. -/
structure Copying (disk : Disk D) (t : Bool) (w : World D) : Prop where
  lock : w.lockTaken = false
  uncommitted : Uncommitted t w
  disk : w.disk = disk

theorem copying_ext {disk : Disk D} {t : Bool} (s : Step) : (env.ext s).keeps (Copying disk t) :=
  ext_keeps env (fun _ _ _ hp => ⟨hp.lock, hp.uncommitted, hp.disk⟩) s

theorem copyToBackup_keeps {disk : Disk D} {t : Bool} (o : Obj) :
    (env.copyToBackup o).keeps (Copying disk t) :=
  command_keeps (fun _ _ _ hp => ⟨hp.lock, hp.uncommitted, hp.disk⟩)
    fun _ _ _ hp => ⟨hp.lock, hp.uncommitted, hp.disk⟩

theorem mktempBackup_keeps {disk : Disk D} {t : Bool} :
    env.mktempBackup.keeps (Copying disk t) :=
  command_keeps (fun _ _ _ hp => ⟨hp.lock, hp.uncommitted, hp.disk⟩)
    fun _ _ _ hp => ⟨hp.lock, hp.uncommitted, hp.disk⟩

/-- The commands of `begin_transaction` before its last one. -/
theorem begin_goesOn (hok : env.Succeeds) {disk : Disk D} {t : Bool}
    {Q : Outcome → World D → Prop} :
    ∀ d ∈ [env.ext .mkdir, env.ext .openLock,
        .or (.test fun w => !w.lockTaken) (.block [env.ext .echo, .exit 1]), env.mktempBackup,
        .block (files.map fun f => .and (present f) (env.copyToBackup f))],
      Triple false (Copying disk t) d (onStatus (fun _ => Copying disk t) Q) := by
  intro d hd
  simp only [List.mem_cons, List.not_mem_nil, or_false] at hd
  rcases hd with rfl | rfl | rfl | rfl | rfl
  · exact Triple.of_quiet (ext_quiet hok _ _ _ _) (copying_ext _)
  · exact Triple.of_quiet (ext_quiet hok _ _ _ _) (copying_ext _)
  · intro w hp
    simp only [Cmd.eval, Cmd.test, Cmd.settle, hp.lock]
    exact hp
  · exact Triple.of_quiet (command_quiet hok _ _ _ _ _ _) mktempBackup_keeps
  · refine Triple.of_quiet ?_ ?_
    · simp [files, present, Env.copyToBackup, Cmd.quiet, Cmd.block, command_quiet hok]
    · simp [files, present, Cmd.keeps, Cmd.block, copyToBackup_keeps]

/-- **`beginTransaction_outcome`** — the status of `begin_transaction` is that of its last list: 0
when `chinalist.d` exists, 1 when it does not. -/
theorem beginTransaction_outcome (hok : env.Succeeds) (disk : Disk D) (t : Bool) :
    Triple false (Copying disk t) (.call env.beginTransaction) fun o w =>
      Uncommitted t w ∧ o = if (disk .chunkDir).isSome then .status 0 else .exit 1 := by
  refine Triple.call (Triple.block (begin_goesOn hok) fun w hp => ?_)
  simp only [Cmd.eval, present, Cmd.test, hp.disk, Env.copyToBackup, Env.command,
    if_pos (hok _ _)]
  by_cases hdir : (disk .chunkDir).isSome
  · simp only [hdir]
    exact ⟨hp.uncommitted, rfl⟩
  · simp only [hdir]
    exact ⟨hp.uncommitted, rfl⟩

/-- The EXIT trap hands on the status 0 of a committed run. -/
theorem finish_commits (hok : env.Succeeds) :
    Triple false (fun w => w.committed = true) (env.finishTransaction 0)
      fun o w => o = .exit 0 ∧ w.committed = true := by
  intro w hp
  cases hb : w.backup <;>
    simp [Env.finishTransaction, ext_eq_tick hok, Cmd.block, Cmd.eval, Cmd.test, Cmd.nop,
      Cmd.settle, hb, hp]

/-- The EXIT trap commits nothing. -/
theorem finish_keeps (rc : Nat) :
    (env.finishTransaction rc).keeps fun w => w.committed = false := by
  have hrun := run_keeps env (P := fun w => w.committed = false) (fun _ _ _ _ h => h)
  have hext := ext_keeps env (P := fun w => w.committed = false) (fun _ _ _ h => h)
  have hrestore : ∀ o, (env.restoreObj o).keeps fun w => w.committed = false := by
    intro o
    exact command_keeps (fun _ _ _ hp => hp) fun _ _ _ hp => hp
  simp [Env.finishTransaction, Env.rollbackTransaction, Env.removeObj, inBackup, files,
    message, assign, Cmd.keeps, Cmd.block, hrun, hext, hrestore]

/-- How the script ends, before its trap. -/
theorem updateRules_outcome (hok : env.Succeeds) (disk : Disk D) (t : Bool) :
    Triple false (Copying disk t) env.updateRules fun o w =>
      if (disk .chunkDir).isSome ∧ t = true then o = .status 0 ∧ w.committed = true
      else w.committed = false := by
  have hext : ∀ s {Q : Outcome → World D → Prop}, Triple false (Copying disk t) (env.ext s)
      (onStatus (fun _ => Copying disk t) Q) := fun s _ =>
    Triple.of_quiet (ext_quiet hok s _ _ _) (copying_ext s)
  refine Triple.seq (hext _) (Triple.seq (hext _) ?_)
  by_cases hdir : (disk .chunkDir).isSome
  · refine Triple.seq (R := Uncommitted t) ((beginTransaction_outcome hok disk t).mono ?_) ?_
    · rintro o w ⟨hw, ho⟩
      rw [if_pos hdir] at ho
      subst ho
      exact hw
    · cases t with
      | true => simpa [hdir] using afterBegin_commits hok
      | false => exact (afterBegin_stops hok).mono fun o w h => by simpa using h.2
  · refine Triple.seq (R := fun _ => False) ((beginTransaction_outcome hok disk t).mono ?_)
      (fun _ h => h.elim)
    rintro o w ⟨hw, ho⟩
    rw [if_neg hdir] at ho
    subst ho
    simpa [onStatus, hdir] using hw.1

end Script

/-- Surroundings in which every command succeeds and every list is empty. -/
def emptyLists : Env Unit where
  fails _ _ := 0
  damage _ _ := id
  downloaded _ := ()
  empty := ()
  gfwLines _ := []
  gfwSkip _ := false
  gfwDomain := id
  gfwAdmissible _ := false
  addDomain _ _ := ()
  extraLines := []
  extraDomain := id
  extraValid _ := false
  defaultDomains := []
  chinaDomains _ := []
  chunks _ := ()
  loader _ := ()
  rendered _ := ()

end ProxyGateway.Dns
