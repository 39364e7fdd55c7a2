/-
# ProxyGateway.Smart.Transactions — the smart commands step by step, and what they take back

`Lifecycle` treats a command as one step.  Here `set_rules`, `set_policy`, `del_policy`,
`rename_policy` and `proxy_domain` are their texts over `Lang.Errexit`, with every tool that may fail:
each takes a snapshot of the four state files, edits, rebuilds, and copies the snapshot back where the
rebuild fails.

The rebuild runs as `if ! (regen_smart)`, so `-e` is off in it and it always comes back with a status;
whatever it did to the files, the snapshot undoes.  That makes the four commands transactions
(`smart_rollback`).  `proxy_domain` installs two files before its `if`, and each of these is a simple
command: when the second one fails, the script is over and the first one stays
(`proxyDomain_atomic_iff`).
-/
import ProxyGateway.Lang.Errexit
import ProxyGateway.Smart.Lifecycle

namespace ProxyGateway.Smart

open ProxyGateway.Lang

/-! ## State -/

/-- The files of the smart state: `rules.conf`, the policy map, `smart.yaml` and `smart.type`. -/
inductive StateFile where
  | rules | policy | yaml | type
  deriving DecidableEq, Repr

/-- In the order of the loops over them. -/
def stateFiles : List StateFile := [.rules, .policy, .yaml, .type]

/-- Presence and content. -/
abbrev Files := StateFile → Option Text

/-- What the commands read and write. -/
structure Desk where
  files : Files
  /-- `gfwlist-extra-local.txt` -/
  extra : Option Text
  /-- `SMART_LOCK_HELD` -/
  lockHeld : Bool
  /-- what the directory `$snapshot` holds -/
  snapshot : Files
  /-- `$extra_backup` and `$backup`: unset, or a copy -/
  extraBackup : Option Text
  backup : Option Text
  /-- the temporary files that hold the candidates -/
  candidate : StateFile → Text
  extraCandidate : Text

/-- What an absent file is read as. -/
def Desk.text (w : Desk) (f : StateFile) : Text := (w.files f).getD []

def Desk.put (w : Desk) (f : StateFile) (x : Option Text) : Desk :=
  { w with files := Function.update w.files f x }

def Desk.setCandidate (w : Desk) (f : StateFile) (t : Text) : Desk :=
  { w with candidate := Function.update w.candidate f t }

/-- The tools that may fail, by what they are for. -/
inductive Tool where
  | lock | ensureMihomo | generate | check
  | install (f : StateFile) | writeType | moveType
  | putYaml | putType | putBack | restart | restartBack | applyExit
  | installExtra | updateDnsdist | updateDnsdistBack | restartRestored
  deriving DecidableEq, Repr

/-- What the surroundings answer: the status of each tool, what a tool other than `atomic_install`
leaves of the state files when it fails, what the generator writes for these rules under this map,
whether it is installed, and whether `current-exit` is `smart`. -/
structure Tools where
  setup : Setup
  exits : Exits
  fails : Tool → Nat
  damage : Tool → Files → Files
  generated : Text → Text → Text
  generator : Bool
  active : Bool

abbrev SmartScript := Cmd Desk StateFile

section Script

variable (T : Tools)

/-- A tool, with what it does to the files when it succeeds and when it fails. -/
def Tools.tool (t : Tool) (done failed : Desk → Desk) : SmartScript :=
  .simple fun w => if T.fails t = 0 then (0, done w) else (T.fails t, failed w)

/-- A tool without effect on the files. -/
def Tools.call (t : Tool) : SmartScript := T.tool t id id

/-- A tool that writes a state file in place. -/
def Tools.write (t : Tool) (f : StateFile) (content : Desk → Option Text) : SmartScript :=
  T.tool t (fun w => w.put f (content w)) fun w => { w with files := T.damage t w.files }

/-- `err`, `ok`, `info` and the removal of temporary files. -/
def say : SmartScript := .assign id

def hasFile (f : StateFile) : SmartScript := .test fun w => (w.files f).isSome

/-! ## The shared functions -/

/-- `acquire_smart_lock` -/
def Tools.acquireSmartLock : SmartScript :=
  .block [
    .and (.test fun w => w.lockHeld) (.ret 0),
    .or (T.call .lock) (.block [say, .ret 1]),
    .assign fun w => { w with lockHeld := true }]

def saveFile (f : StateFile) : SmartScript :=
  .ite (hasFile f)
    (.assign fun w => { w with snapshot := Function.update w.snapshot f (w.files f) }) .nop

/-- `snapshot="$(mktemp -d)"; snapshot_smart_state "$snapshot"` -/
def snapshotSmartState : SmartScript :=
  .seq (.assign fun w => { w with snapshot := fun _ => none })
    (.call (.block (stateFiles.map saveFile)))

def restoreFile (f : StateFile) : SmartScript :=
  .ite (.test fun w => (w.snapshot f).isSome) (.assign fun w => w.put f (w.snapshot f))
    (.assign fun w => w.put f none)

/-- `restore_smart_state` -/
def restoreSmartState : SmartScript := .call (.block (stateFiles.map restoreFile))

/-- `atomic_install` of a candidate: it replaces the file, or leaves it alone. -/
def Tools.atomicInstall (f : StateFile) : SmartScript :=
  T.tool (.install f) (fun w => w.put f (some (w.candidate f))) id

/-- `init_policy_map`, which touches the map. -/
def Tools.initPolicyMap : SmartScript :=
  .call (.block [
    .assign fun w => w.put .policy (some (w.text .policy)),
    .assign fun w => w.setCandidate .policy (T.setup.shell.initPolicyMap T.exits (w.text .policy)
      (T.setup.defaults.effective (w.candidate .rules)))])

/-- `build_smart_candidate`; the generator writes its output in any case. -/
def Tools.buildSmartCandidate (rulesSource policySource : Desk → Text) : SmartScript :=
  .call (.block [
    .or (.test fun w => rulesSource w ≠ []) (.block [say, .ret 1]),
    .or (.test fun _ => T.generator) (.block [say, .ret 1]),
    .or (T.call .ensureMihomo) (.ret 1),
    .assign fun w => w.setCandidate .yaml
      (T.generated (T.setup.defaults.effective (rulesSource w)) (policySource w)),
    .ite (.not (T.call .generate)) (.block [say, .ret 1]) .nop,
    .ite (.not (T.call .check)) (.block [say, .ret 1]) .nop])

def routerType : Text := lit "router\n"

/-- `regen_smart` -/
def Tools.regenSmart : SmartScript :=
  .block [
    .or (.call T.acquireSmartLock) (.ret 1),
    .or (hasFile .rules) (.block [say, .ret 1]),
    .assign fun w => { w with backup := none },
    .or (T.buildSmartCandidate (·.text .rules) (·.text .policy)) (.block [say, .exit 1]),
    .and (hasFile .yaml) (.assign fun w => { w with backup := w.files .yaml }),
    T.write .putYaml .yaml fun w => some (w.candidate .yaml),
    T.write .putType .type fun _ => some routerType,
    .ite (.test fun _ => T.active)
      (.block [
        .ite (.not (T.call .restart))
          (.block [
            .and (.test fun w => w.backup.isSome) (T.write .putBack .yaml (·.backup)),
            .or (T.call .restartBack) .nop,
            say,
            .exit 1])
          .nop,
        .or (T.call .applyExit) .nop,
        say])
      say,
    say]

/-! ## The commands -/

/-- Where `set_rules` reads the rules from. -/
inductive RuleSource where
  | file (content : Text)
  | missing
  | stdin (content : Text)

/-- The commit of `set_rules`. -/
def Tools.commitRules : SmartScript :=
  .and (.and (.and (.and (T.atomicInstall .rules) (T.atomicInstall .policy)) (T.atomicInstall .yaml))
    (T.call .writeType)) (T.write .moveType .type fun _ => some routerType)

/-- **`set_rules`** -/
def Tools.setRules (src : RuleSource) : SmartScript :=
  .block [
    .or (.call T.acquireSmartLock) (.ret 1),
    match src with
    | .file content => .assign fun w => w.setCandidate .rules content
    | .missing => .block [say, .ret 1]
    | .stdin content => .assign fun w => w.setCandidate .rules content,
    .or (.test fun w => w.candidate .rules ≠ []) (.block [say, .ret 1]),
    T.initPolicyMap,
    .or (T.buildSmartCandidate (·.candidate .rules) (·.candidate .policy)) (.ret 1),
    snapshotSmartState,
    .ite (.not T.commitRules) (.block [restoreSmartState, say, .ret 1]) .nop,
    .ite (.and (.test fun _ => T.active) (.not (T.call .restart)))
      (.block [restoreSmartState, .or (T.call .restartBack) .nop, say, .ret 1]) .nop,
    say]

/-- `[[ -z "$a" || -z "$b" ]] && { err ...; return 1; }` -/
def rejectEmpty (args : List Text) : SmartScript :=
  .and (.test fun _ => args.any List.isEmpty) (.block [say, .ret 1])

/-- `case "$target" in direct|block) ;; *) exit_exists "$target" || ...` -/
def Tools.checkTarget (target : Text) : SmartScript :=
  .ite (.test fun _ => target ∈ [lit "direct", lit "block"]) .nop
    (.or (.test fun _ => T.exits.exitExists target) (.block [say, .ret 1]))

/-- `if ! (regen_smart); then restore_smart_state "$snapshot"; ...; return 1; fi` -/
def Tools.rebuildOrRestore : SmartScript :=
  .ite (.not (.subshell T.regenSmart)) (.block [restoreSmartState, say, .ret 1]) .nop

/-- **`set_policy`** -/
def Tools.setPolicy (cat target : Text) : SmartScript :=
  .block [
    .or (.call T.acquireSmartLock) (.ret 1),
    rejectEmpty [cat, target],
    T.checkTarget target,
    snapshotSmartState,
    .assign fun w => w.put .policy (some (T.setup.shell.setPolicyText cat target (w.text .policy))),
    say,
    T.rebuildOrRestore,
    say]

/-- **`del_policy`** -/
def Tools.delPolicy (cat : Text) : SmartScript :=
  .block [
    .or (.call T.acquireSmartLock) (.ret 1),
    rejectEmpty [cat],
    .or (hasFile .policy) (.block [say, .ret 1]),
    snapshotSmartState,
    .assign fun w => w.put .policy (some (T.setup.delPolicyText cat (w.text .policy))),
    say,
    T.rebuildOrRestore,
    say]

/-- **`rename_policy`** -/
def Tools.renamePolicy (old new : Text) : SmartScript :=
  .block [
    .or (.call T.acquireSmartLock) (.ret 1),
    rejectEmpty [old, new],
    .or (.test fun _ => validCategory new) (.block [say, .ret 1]),
    snapshotSmartState,
    .ite (hasFile .policy)
      (.assign fun w => w.put .policy
        (some (fileOf ((shLines (w.text .policy)).map (T.setup.renameKey old new))))) .nop,
    .ite (hasFile .rules)
      (.assign fun w => w.put .rules
        (some (fileOf ((shLines (w.text .rules)).map (T.setup.renameRule old new))))) .nop,
    say,
    T.rebuildOrRestore,
    say]

/-- `awk 'NF&&!seen[$0]++'` -/
def distinctLines (text : Text) : Text :=
  fileOf ((shLines text).filter fun line => line.any fun c => c ≠ ' ' && c ≠ '\t').eraseDups

/-- The candidate for `gfwlist-extra-local.txt`. -/
def extraText (domain target extra : Text) : Text :=
  if target = lit "direct" then fileOf ((shLines extra).filter (· ≠ domain))
  else distinctLines (extra ++ domain ++ ['\n'])

/-- `[[ -f "$extra" ]] && cp -a "$extra" "$extra_backup"` -/
def backUpExtra : SmartScript :=
  .and (.test fun w => w.extra.isSome) (.assign fun w => { w with extraBackup := w.extra })

/-- **`proxy_domain`** -/
def Tools.proxyDomain (domain target : Text) : SmartScript :=
  .block [
    .or (.call T.acquireSmartLock) (.ret 1),
    rejectEmpty [domain, target],
    .or (.test fun _ => validDomain domain) (.block [say, .ret 1]),
    T.checkTarget target,
    .assign fun w => w.put .rules (some (w.text .rules)),
    snapshotSmartState,
    .assign fun w => { w with extraBackup := none },
    backUpExtra,
    .assign fun w => w.setCandidate .rules (proxyDomainText domain target (w.text .rules)),
    .assign fun w => { w with extraCandidate := extraText domain target (w.extra.getD []) },
    T.atomicInstall .rules,
    T.tool .installExtra (fun w => { w with extra := some w.extraCandidate }) id,
    .ite (.or (.not (T.call .updateDnsdist)) (.not (.subshell T.regenSmart)))
      (.block [
        restoreSmartState,
        .assign fun w => { w with extra := w.extraBackup },
        .or (T.call .updateDnsdistBack) .nop,
        .or (T.call .restartRestored) .nop,
        say,
        .ret 1])
      .nop,
    say]

end Script

/-! ## Snapshot and restore -/

theorem saveFile_eval (ign : Bool) (f : StateFile) {w : Desk} (h : w.snapshot f = none) :
    (saveFile f).eval ign w =
      (.status 0, { w with snapshot := Function.update w.snapshot f (w.files f) }) := by
  cases hf : w.files f with
  | some x => simp [saveFile, Cmd.eval, hasFile, Cmd.test, Cmd.assign, Cmd.settle, hf]
  | none =>
    have hsame : Function.update w.snapshot f none = w.snapshot := by
      rw [← h, Function.update_eq_self]
    simp [saveFile, Cmd.eval, hasFile, Cmd.test, Cmd.nop, Cmd.settle, hf, hsame]

/-- The snapshot is what the files are. -/
theorem snapshot_eval (ign : Bool) (w : Desk) :
    snapshotSmartState.eval ign w = (.status 0, { w with snapshot := w.files }) := by
  have hall : Function.update (Function.update (Function.update (Function.update
      (fun _ => none) .rules (w.files .rules)) .policy (w.files .policy)) .yaml (w.files .yaml))
      .type (w.files .type) = w.files := by
    funext f
    cases f <;> rfl
  have hfiles : (Cmd.block (stateFiles.map saveFile)).eval ign
      { w with snapshot := fun _ => none } = (.status 0, { w with snapshot := w.files }) := by
    show (Cmd.seq (saveFile .rules) (.seq (saveFile .policy)
      (.seq (saveFile .yaml) (saveFile .type)))).eval ign _ = _
    rw [Cmd.eval_seq (saveFile_eval ign .rules rfl), Cmd.eval_seq (saveFile_eval ign .policy rfl),
      Cmd.eval_seq (saveFile_eval ign .yaml rfl), saveFile_eval ign .type rfl]
    simp only [hall]
  rw [snapshotSmartState, Cmd.eval_seq rfl, Cmd.eval, hfiles]
  rfl

theorem restoreFile_eval (ign : Bool) (f : StateFile) (w : Desk) :
    (restoreFile f).eval ign w = (.status 0, w.put f (w.snapshot f)) := by
  cases hf : w.snapshot f <;>
    simp [restoreFile, Cmd.eval, Cmd.test, Cmd.assign, Cmd.settle, hf]

/-- The files are what the snapshot was, whatever they were in between. -/
theorem restore_eval (ign : Bool) (w : Desk) :
    restoreSmartState.eval ign w = (.status 0, { w with files := w.snapshot }) := by
  have hall : Function.update (Function.update (Function.update (Function.update
      w.files .rules (w.snapshot .rules)) .policy (w.snapshot .policy)) .yaml (w.snapshot .yaml))
      .type (w.snapshot .type) = w.snapshot := by
    funext f
    cases f <;> rfl
  have hfiles : (Cmd.block (stateFiles.map restoreFile)).eval ign w =
      (.status 0, { w with files := w.snapshot }) := by
    show (Cmd.seq (restoreFile .rules) (.seq (restoreFile .policy)
      (.seq (restoreFile .yaml) (restoreFile .type)))).eval ign _ = _
    rw [Cmd.eval_seq (restoreFile_eval ign .rules _), Cmd.eval_seq (restoreFile_eval ign .policy _),
      Cmd.eval_seq (restoreFile_eval ign .yaml _), restoreFile_eval ign .type]
    simp only [Desk.put, hall]
  rw [restoreSmartState, Cmd.eval, hfiles]
  rfl

/-! ## What the shared functions leave alone -/

section Keeps

variable {T : Tools} {P : Desk → Prop}

theorem call_keeps (t : Tool) : (T.call t).keeps P := by
  intro w hp
  simp only [id]
  split <;> exact hp

theorem call_quiet (t : Tool) (loop fn : Bool) : (T.call t).quiet true loop fn := Or.inl rfl

theorem write_keeps (hfiles : ∀ w files, P w → P { w with files }) (t : Tool) (f : StateFile)
    (content : Desk → Option Text) : (T.write t f content).keeps P := by
  intro w hp
  simp only
  split <;> exact hfiles w _ hp

theorem atomicInstall_keeps (hfiles : ∀ w files, P w → P { w with files }) (f : StateFile) :
    (T.atomicInstall f).keeps P := by
  intro w hp
  simp only [id]
  split
  · exact hfiles w _ hp
  · exact hp

@[simp] theorem say_keeps : say.keeps P := fun _ hp => hp

@[simp] theorem hasFile_keeps (f : StateFile) : (hasFile f).keeps P := fun _ hp => hp

theorem lock_keeps (hlock : ∀ w lockHeld, P w → P { w with lockHeld }) :
    (Cmd.or (.call T.acquireSmartLock) (.ret 1) : SmartScript).keeps P := by
  have hset : (Cmd.assign fun w => { w with lockHeld := true } : SmartScript).keeps P :=
    fun w => hlock w true
  simp [Tools.acquireSmartLock, Cmd.block, Cmd.keeps, call_keeps, hset]

theorem build_keeps (hcandidate : ∀ w candidate, P w → P { w with candidate })
    (rulesSource policySource : Desk → Text) :
    (T.buildSmartCandidate rulesSource policySource).keeps P := by
  have hwrite : ∀ content : Desk → Text,
      (Cmd.assign fun w => w.setCandidate .yaml (content w) : SmartScript).keeps P :=
    fun _ w => hcandidate w _
  simp [Tools.buildSmartCandidate, Cmd.block, Cmd.keeps, call_keeps, hwrite]

/-- `regen_smart` changes the state files, its candidate and its own backup. -/
theorem regenSmart_keeps (hfiles : ∀ w files, P w → P { w with files })
    (hcandidate : ∀ w candidate, P w → P { w with candidate })
    (hbackup : ∀ w backup, P w → P { w with backup })
    (hlock : ∀ w lockHeld, P w → P { w with lockHeld }) : T.regenSmart.keeps P := by
  have hset : ∀ copy : Desk → Option Text,
      (Cmd.assign fun w => { w with backup := copy w } : SmartScript).keeps P :=
    fun _ w => hbackup w _
  have hacquire := (lock_keeps (T := T) hlock).1
  simp [Tools.regenSmart, Cmd.block, Cmd.keeps, call_keeps, write_keeps hfiles,
    build_keeps hcandidate, hset]
  exact hacquire

theorem rejectEmpty_keeps (args : List Text) : (rejectEmpty args).keeps P := by
  simp [rejectEmpty, Cmd.block, Cmd.keeps]

theorem checkTarget_keeps (target : Text) : (T.checkTarget target).keeps P := by
  simp [Tools.checkTarget, Cmd.block, Cmd.keeps]

end Keeps

/-! ## A failed command -/

section Rollback

variable {T : Tools} {before : Files} {ign : Bool}

/-- The same presence and content of the four files, an absent policy map being an empty one. -/
structure SameState (before after : Files) : Prop where
  rules : after .rules = before .rules
  policy : (after .policy).getD [] = (before .policy).getD []
  yaml : after .yaml = before .yaml
  type : after .type = before .type

/-- A command that ends with a failure leaves the state as it was. -/
def Undone (before : Files) (o : Outcome) (w : Desk) : Prop :=
  Cmd.exitStatus o ≠ 0 → SameState before w.files

theorem undone_goesOn {c : SmartScript} (hk : c.keeps fun w => SameState before w.files) :
    Triple ign (fun w => SameState before w.files) c
      (onStatus (fun _ w => SameState before w.files) (Undone before)) :=
  (Triple.frame hk).go_on fun _ _ hw _ => hw

/-- From here on the snapshot holds what the state was. -/
theorem snapshot_spec {Q : Outcome → Desk → Prop} :
    Triple ign (fun w => SameState before w.files) snapshotSmartState
      (onStatus (fun _ w => SameState before w.snapshot) Q) := by
  intro w hw
  rw [snapshot_eval]
  exact hw

theorem saved_goesOn {c : SmartScript} {Q : Outcome → Desk → Prop}
    (hq : c.quiet ign false false) (hk : c.keeps fun w => SameState before w.snapshot) :
    Triple ign (fun w => SameState before w.snapshot) c
      (onStatus (fun _ w => SameState before w.snapshot) Q) := Triple.of_quiet hq hk

/-- Restoring, before the script goes on. -/
theorem restore_then {d : SmartScript} {Q : Outcome → Desk → Prop}
    (hd : Triple ign (fun w => SameState before w.files) d Q) :
    Triple ign (fun w => SameState before w.snapshot) (.seq restoreSmartState d) Q := by
  refine Triple.seq ?_ hd
  intro w hw
  rw [restore_eval]
  exact hw

theorem giveUp {P : Desk → Prop} {Q : Outcome → Desk → Prop} (hend : ∀ w, P w → Q (.ret 1) w) :
    Triple ign P (.seq say (.ret 1)) Q := Triple.seq (fun _ hw => hw) hend

/-- A command whose last words are a message does not fail any more. -/
theorem say_succeeds {P : Desk → Prop} : Triple ign P say (Undone before) := by
  intro w _ hfailed
  exact absurd rfl hfailed

/-- The rebuild of `set_policy`, `del_policy` and `rename_policy`. -/
theorem rebuild_spec :
    Triple ign (fun w => SameState before w.snapshot) (.seq T.rebuildOrRestore say)
      (Undone before) := by
  have hregen : T.regenSmart.keeps fun w => SameState before w.snapshot :=
    regenSmart_keeps (fun _ _ h => h) (fun _ _ h => h) (fun _ _ h => h) (fun _ _ h => h)
  have hrestore : Triple ign (fun w => SameState before w.snapshot)
      (.block [restoreSmartState, say, .ret 1]) (onStatus (fun _ _ => True) (Undone before)) :=
    restore_then (giveUp fun _ hw _ => hw)
  refine Triple.seq (R := fun _ => True) ?_ say_succeeds
  exact Triple.branch (Triple.not_ignored (Triple.subshell_ignored hregen)) hrestore
    fun _ _ => trivial

theorem lock_goesOn :
    Triple ign (fun w => SameState before w.files) (.or (.call T.acquireSmartLock) (.ret 1))
      (onStatus (fun _ w => SameState before w.files) (Undone before)) :=
  undone_goesOn (lock_keeps fun _ _ h => h)

theorem guard_goesOn (p : Desk → Bool) :
    Triple ign (fun w => SameState before w.files) (.or (.test p) (.block [say, .ret 1]))
      (onStatus (fun _ w => SameState before w.files) (Undone before)) :=
  undone_goesOn ⟨Cmd.test_keeps p, say_keeps, trivial⟩

theorem setPolicy_undone (cat target : Text) :
    Triple ign (fun w => SameState before w.files) (T.setPolicy cat target) (Undone before) :=
  Triple.seq lock_goesOn <| Triple.seq (undone_goesOn (rejectEmpty_keeps _)) <|
    Triple.seq (undone_goesOn (checkTarget_keeps _)) <| Triple.seq snapshot_spec <|
      Triple.seq (saved_goesOn (Cmd.assign_quiet _ _ _ _) fun _ h => h) <|
        Triple.seq (saved_goesOn (Cmd.assign_quiet _ _ _ _) say_keeps) rebuild_spec

theorem delPolicy_undone (cat : Text) :
    Triple ign (fun w => SameState before w.files) (T.delPolicy cat) (Undone before) :=
  Triple.seq lock_goesOn <| Triple.seq (undone_goesOn (rejectEmpty_keeps _)) <|
    Triple.seq (guard_goesOn _) <| Triple.seq snapshot_spec <|
      Triple.seq (saved_goesOn (Cmd.assign_quiet _ _ _ _) fun _ h => h) <|
        Triple.seq (saved_goesOn (Cmd.assign_quiet _ _ _ _) say_keeps) rebuild_spec

/-- An edit of a file that exists. -/
theorem edit_goesOn (f : StateFile) (content : Desk → Option Text) {Q : Outcome → Desk → Prop} :
    Triple ign (fun w => SameState before w.snapshot)
      (.ite (hasFile f) (.assign fun w => w.put f (content w)) .nop)
      (onStatus (fun _ w => SameState before w.snapshot) Q) :=
  saved_goesOn ⟨Cmd.test_quiet _ _ _, Cmd.assign_quiet _ _ _ _, Cmd.nop_quiet _ _ _⟩
    ⟨hasFile_keeps f, fun _ h => h, Cmd.nop_keeps⟩

theorem renamePolicy_undone (old new : Text) :
    Triple ign (fun w => SameState before w.files) (T.renamePolicy old new) (Undone before) :=
  Triple.seq lock_goesOn <| Triple.seq (undone_goesOn (rejectEmpty_keeps _)) <|
    Triple.seq (guard_goesOn _) <| Triple.seq snapshot_spec <| Triple.seq (edit_goesOn _ _) <|
      Triple.seq (edit_goesOn _ _) <|
        Triple.seq (saved_goesOn (Cmd.assign_quiet _ _ _ _) say_keeps) rebuild_spec

theorem commitRules_quiet (loop fn : Bool) : T.commitRules.quiet true loop fn :=
  ⟨⟨⟨⟨.inl rfl, .inl rfl⟩, .inl rfl⟩, .inl rfl⟩, .inl rfl⟩

theorem commitRules_keeps {P : Desk → Prop} (hfiles : ∀ w files, P w → P { w with files }) :
    T.commitRules.keeps P :=
  ⟨⟨⟨⟨atomicInstall_keeps hfiles _, atomicInstall_keeps hfiles _⟩, atomicInstall_keeps hfiles _⟩,
    call_keeps _⟩, write_keeps hfiles _ _ _⟩

theorem setRules_undone (src : RuleSource) :
    Triple ign (fun w => SameState before w.files) (T.setRules src) (Undone before) := by
  -- up to the snapshot only candidates are written, so a failure has nothing to undo
  have hread : Triple ign (fun w => SameState before w.files)
      (match src with
        | .file content => .assign fun w => w.setCandidate .rules content
        | .missing => .block [say, .ret 1]
        | .stdin content => .assign fun w => w.setCandidate .rules content)
      (onStatus (fun _ w => SameState before w.files) (Undone before)) := by
    apply undone_goesOn
    cases src with
    | file content => exact fun _ h => h
    | missing => exact ⟨say_keeps, trivial⟩
    | stdin content => exact fun _ h => h
  have hseed : T.initPolicyMap.keeps fun w => SameState before w.files :=
    -- an absent map is touched
    ⟨fun _ h => ⟨h.rules, h.policy, h.yaml, h.type⟩, fun _ h => h⟩
  have hbuild := build_keeps (T := T) (P := fun w => SameState before w.files) (fun _ _ h => h)
    (·.candidate .rules) (·.candidate .policy)
  -- from the snapshot on it is the snapshot that stays, whatever happens to the files
  have hcommit : ∀ {Q : Outcome → Desk → Prop}, Triple true (fun w => SameState before w.snapshot)
      T.commitRules (onStatus (fun _ w => SameState before w.snapshot) Q) :=
    Triple.of_quiet (commitRules_quiet false false) (commitRules_keeps fun _ _ h => h)
  have hreload : ∀ {Q : Outcome → Desk → Prop}, Triple true (fun w => SameState before w.snapshot)
      (.and (.test fun _ => T.active) (.not (T.call .restart)))
      (onStatus (fun _ w => SameState before w.snapshot) Q) :=
    Triple.of_quiet ⟨Cmd.test_quiet _ false false, call_quiet _ false false⟩
      ⟨Cmd.test_keeps _, call_keeps _⟩
  refine Triple.seq lock_goesOn <| Triple.seq hread <| Triple.seq (guard_goesOn _) <|
    Triple.seq (undone_goesOn hseed) <| Triple.seq (undone_goesOn ⟨hbuild, trivial⟩) <|
    Triple.seq snapshot_spec <| Triple.seq (R := fun w => SameState before w.snapshot) ?_ <|
    Triple.seq (R := fun _ => True) ?_ say_succeeds
  · -- the commit
    exact Triple.branch (Triple.not_ignored hcommit)
      (restore_then (giveUp fun _ hw _ => hw)) fun _ hw => hw
  · -- the restart, after which a failure restores first and restarts again
    have hback : Triple ign (fun w => SameState before w.files)
        (.or (T.call .restartBack) .nop)
        (onStatus (fun _ w => SameState before w.files)
          (onStatus (fun _ _ => True) (Undone before))) :=
      Triple.of_quiet ⟨call_quiet _ _ _, Cmd.nop_quiet _ _ _⟩ ⟨call_keeps _, Cmd.nop_keeps⟩
    exact Triple.branch hreload
      (restore_then (Triple.seq hback (giveUp fun _ hw _ => hw))) fun _ _ => trivial

/-- The commands that change the smart state and nothing else. -/
inductive SmartEdit where
  | setRules (src : RuleSource)
  | setPolicy (cat target : Text)
  | delPolicy (cat : Text)
  | renamePolicy (old new : Text)

def Tools.edit (T : Tools) : SmartEdit → SmartScript
  | .setRules src => T.setRules src
  | .setPolicy cat target => T.setPolicy cat target
  | .delPolicy cat => T.delPolicy cat
  | .renamePolicy old new => T.renamePolicy old new

/-- **`smart_rollback`** — whichever tools fail, and whatever they leave of the files: when one of the
four commands comes back with a failure, the four files are as they were.  `ign` says whether its
caller ignores `-e`. -/
theorem smart_rollback (T : Tools) (ign : Bool) (c : SmartEdit) (w : Desk)
    (hfailed : Cmd.exitStatus ((Cmd.call (T.edit c)).eval ign w).1 ≠ 0) :
    SameState w.files ((Cmd.call (T.edit c)).eval ign w).2.files := by
  have hundone : Triple ign (fun w' => SameState w.files w'.files) (T.edit c) (Undone w.files) := by
    cases c with
    | setRules src => exact setRules_undone src
    | setPolicy cat target => exact setPolicy_undone cat target
    | delPolicy cat => exact delPolicy_undone cat
    | renamePolicy old new => exact renamePolicy_undone old new
  rw [Cmd.eval, Cmd.exitStatus_returned] at hfailed
  exact hundone w ⟨rfl, rfl, rfl, rfl⟩ hfailed

end Rollback

/-- A machine on which everything works but for one tool. -/
def failing (broken : Tool) : Tools where
  setup := plainSetup
  exits := ⟨[], []⟩
  fails t := if t = broken then 1 else 0
  damage _ := fun _ _ => none
  generated rules map := rules ++ map
  generator := true
  active := true

/-- A machine with these two files and without a smart exit. -/
def deskWith (rules policy : Text) : Desk where
  files := Function.update (Function.update (fun _ => none) .rules (some rules)) .policy (some policy)
  extra := none
  lockHeld := false
  snapshot _ := none
  extraBackup := none
  backup := none
  candidate _ := []
  extraCandidate := []

theorem smart_rollback_restart :
    SameState (deskWith (lit "FINAL,Web\n") (lit "Web=direct\n")).files
      ((Cmd.call ((failing .restart).edit (.renamePolicy (lit "Web") (lit "All")))).eval false
        (deskWith (lit "FINAL,Web\n") (lit "Web=direct\n"))).2.files :=
  smart_rollback _ _ _ _ (by decide)

/-! ## `proxy_domain` -/

section ProxyDomain

variable {T : Tools} {domain target : Text} {w : Desk}

/-- The guards of `proxy_domain`. -/
structure Tools.Admits (T : Tools) (domain target : Text) (w : Desk) : Prop where
  lock : w.lockHeld = true ∨ T.fails .lock = 0
  given : domain ≠ [] ∧ target ≠ []
  domain : validDomain domain = true
  target : target ∈ [lit "direct", lit "block"] ∨ T.exits.exitExists target = true

/-- The five files have the content they had, an absent `rules.conf`, which `proxy_domain` touches,
being an empty one. -/
structure Untouched (before after : Desk) : Prop where
  rules : after.text .rules = before.text .rules
  policy : after.files .policy = before.files .policy
  yaml : after.files .yaml = before.files .yaml
  type : after.files .type = before.files .type
  extra : after.extra = before.extra

/-- The new `rules.conf` is in place when the new extras cannot be installed, and it is another one
than before. -/
def Tools.Strands (T : Tools) (domain target : Text) (w : Desk) : Prop :=
  T.Admits domain target w ∧ T.fails (.install .rules) = 0 ∧ T.fails .installExtra ≠ 0 ∧
    proxyDomainText domain target (w.text .rules) ≠ w.text .rules

theorem lock_spec {Q : Outcome → Desk → Prop}
    (hret : ¬ (w.lockHeld = true ∨ T.fails .lock = 0) → Q (.ret 1) w) :
    Triple false (fun w' => w' = w) (.or (.call T.acquireSmartLock) (.ret 1) : SmartScript)
      (onStatus (fun _ w' => w' = { w with lockHeld := true } ∧
        (w.lockHeld = true ∨ T.fails .lock = 0)) Q) := by
  rintro w' rfl
  cases hheld : w'.lockHeld with
  | true =>
    -- held by the caller: `return 0` before the lock is asked for
    have hsame : w' = { w' with lockHeld := true } := by rw [← hheld]
    simpa [Tools.acquireSmartLock, Cmd.block, Cmd.eval, Cmd.test, Cmd.settle, Cmd.returned, hheld,
      onStatus] using hsame
  | false =>
    by_cases hlock : T.fails .lock = 0
    · simp [Tools.acquireSmartLock, Cmd.block, Cmd.eval, Cmd.test, Cmd.settle, Cmd.returned, hheld,
        onStatus, Tools.call, Tools.tool, Cmd.assign, hlock]
    · obtain ⟨n, hn⟩ := Nat.exists_eq_succ_of_ne_zero hlock
      have hstop : Q (.ret 1) w' := hret (by simp [hheld, hlock])
      simpa [Tools.acquireSmartLock, Cmd.block, Cmd.eval, Cmd.test, Cmd.settle, Cmd.returned, hheld,
        onStatus, Tools.call, Tools.tool, say, Cmd.assign, hn] using hstop

/-- A guard lets the script go on where `p` holds. -/
theorem guard_spec {A : Prop} {p : Bool} {Q : Outcome → Desk → Prop}
    (hret : p = false → Q (.ret 1) w) :
    Triple false (fun w' => w' = w ∧ A) (.or (.test fun _ => p) (.block [say, .ret 1]))
      (onStatus (fun _ w' => w' = w ∧ A ∧ p = true) Q) := by
  rintro w' ⟨rfl, ha⟩
  cases p with
  | true => simpa [Cmd.eval, Cmd.test, Cmd.settle, onStatus] using ha
  | false =>
    simpa [Cmd.eval, Cmd.test, Cmd.settle, Cmd.block, say, Cmd.assign, onStatus] using hret rfl

theorem rejectEmpty_spec {A : Prop} {args : List Text} {Q : Outcome → Desk → Prop}
    (hret : args.any List.isEmpty = true → Q (.ret 1) w) :
    Triple false (fun w' => w' = w ∧ A) (rejectEmpty args)
      (onStatus (fun _ w' => w' = w ∧ A ∧ args.any List.isEmpty = false) Q) := by
  rintro w' ⟨rfl, ha⟩
  cases hany : args.any List.isEmpty with
  | true =>
    simpa [rejectEmpty, Cmd.eval, Cmd.test, Cmd.settle, Cmd.block, say, Cmd.assign, onStatus,
      hany] using hret hany
  | false => simpa [rejectEmpty, Cmd.eval, Cmd.test, Cmd.settle, onStatus, hany] using ha

theorem checkTarget_spec {A : Prop} {Q : Outcome → Desk → Prop}
    (hret : ¬ (target ∈ [lit "direct", lit "block"] ∨ T.exits.exitExists target = true) →
      Q (.ret 1) w) :
    Triple false (fun w' => w' = w ∧ A) (T.checkTarget target)
      (onStatus (fun _ w' => w' = w ∧ A ∧
        (target ∈ [lit "direct", lit "block"] ∨ T.exits.exitExists target = true)) Q) := by
  by_cases hbuiltin : target ∈ [lit "direct", lit "block"]
  · rintro w' ⟨rfl, ha⟩
    simpa only [Tools.checkTarget, Cmd.eval, Cmd.test, Cmd.settle, onStatus, hbuiltin] using
      ⟨rfl, ha, .inl trivial⟩
  · -- the `*)` of the `case`, a guard of its own
    refine Triple.ite (R := fun _ => False) (S := fun w' => w' = w ∧ A) ?_ (fun _ h => h.elim) ?_
    · rintro w' ⟨rfl, ha⟩
      simpa only [Cmd.eval, Cmd.test, Cmd.settle, onStatus, hbuiltin] using ⟨rfl, ha⟩
    · refine (guard_spec (Q := Q) fun hno => hret (by simp [hbuiltin, hno])).mono fun o w' ho => ?_
      cases o with
      | status n => exact ⟨ho.1, ho.2.1, .inr ho.2.2⟩
      | _ => exact ho

/-- What the script goes on with after its guards. -/
theorem admit_spec {d : SmartScript} {Q : Outcome → Desk → Prop}
    (hret : ¬ T.Admits domain target w → ∀ lockHeld, Q (.ret 1) { w with lockHeld })
    (hd : T.Admits domain target w → Q (d.eval false { w with lockHeld := true }).1
      (d.eval false { w with lockHeld := true }).2) :
    Triple false (fun w' => w' = w) (.seq (.or (.call T.acquireSmartLock) (.ret 1))
      (.seq (rejectEmpty [domain, target])
        (.seq (.or (.test fun _ => validDomain domain) (.block [say, .ret 1]))
          (.seq (T.checkTarget target) d)))) Q := by
  refine Triple.seq (lock_spec fun hno => hret (fun h => hno h.lock) w.lockHeld) <|
    Triple.seq (rejectEmpty_spec fun hno => hret (fun h => ?_) true) <|
    Triple.seq (guard_spec fun hno => hret (fun h => ?_) true) <|
    Triple.seq (checkTarget_spec fun hno => hret (fun h => hno h.target) true) ?_
  · simp [h.given] at hno
  · simp [h.domain] at hno
  · rintro w' ⟨rfl, ⟨⟨hlock, hgiven⟩, hdomain⟩, htarget⟩
    exact hd ⟨hlock, by simpa using hgiven, hdomain, htarget⟩

/-- The state in which the script begins to install: the rules touched, the snapshot and the backup
taken, the candidates written. -/
def Desk.staged (w : Desk) (domain target : Text) : Desk :=
  { w with
    lockHeld := true
    files := (w.put .rules (some (w.text .rules))).files
    snapshot := (w.put .rules (some (w.text .rules))).files
    extraBackup := w.extra
    candidate := Function.update w.candidate .rules (proxyDomainText domain target (w.text .rules))
    extraCandidate := extraText domain target (w.extra.getD []) }

theorem backUpExtra_eval (ign : Bool) (h : w.extraBackup = none) :
    ∃ n, backUpExtra.eval ign w = (.status n, { w with extraBackup := w.extra }) := by
  cases hextra : w.extra with
  | some x =>
    exact ⟨0, by simp [backUpExtra, Cmd.eval, Cmd.test, Cmd.settle, Cmd.assign, hextra]⟩
  | none =>
    -- the status of a failed `[[ ]] &&`, which `-e` lets pass
    have hsame : w = { w with extraBackup := none } := by rw [← h]
    exact ⟨1, by simpa [backUpExtra, Cmd.eval, Cmd.test, Cmd.settle, hextra] using hsame⟩

theorem staged_eval (d : SmartScript) :
    (Cmd.seq (.assign fun w => w.put .rules (some (w.text .rules))) <|
      .seq snapshotSmartState <|
      .seq (.assign fun w => { w with extraBackup := none }) <|
      .seq backUpExtra <|
      .seq (.assign fun w => w.setCandidate .rules (proxyDomainText domain target (w.text .rules))) <|
      .seq (.assign fun w => { w with extraCandidate := extraText domain target (w.extra.getD []) })
        d).eval false { w with lockHeld := true } = d.eval false (w.staged domain target) := by
  rw [Cmd.eval_seq rfl, Cmd.eval_seq (snapshot_eval false _), Cmd.eval_seq rfl]
  obtain ⟨n, hbackup⟩ := backUpExtra_eval false (w := { w with
    lockHeld := true
    files := (w.put .rules (some (w.text .rules))).files
    snapshot := (w.put .rules (some (w.text .rules))).files
    extraBackup := none }) rfl
  exact (Cmd.eval_seq hbackup).trans rfl

theorem untouched_staged : Untouched w (w.staged domain target) := ⟨rfl, rfl, rfl, rfl, rfl⟩

/-- What the rollback of `proxy_domain` goes back to. -/
def StagedFor (w w' : Desk) : Prop :=
  w'.snapshot = (w.put .rules (some (w.text .rules))).files ∧ w'.extraBackup = w.extra

/-- From the update of dnsdist on, a failure is rolled back. -/
theorem update_spec :
    Triple false (StagedFor w)
      (.seq (.ite (.or (.not (T.call .updateDnsdist)) (.not (.subshell T.regenSmart)))
        (.block [
          restoreSmartState,
          .assign fun w => { w with extra := w.extraBackup },
          .or (T.call .updateDnsdistBack) .nop,
          .or (T.call .restartRestored) .nop,
          say,
          .ret 1])
        .nop) say)
      fun o w' => Cmd.exitStatus o ≠ 0 → Untouched w w' := by
  have hregen : T.regenSmart.keeps (StagedFor w) :=
    regenSmart_keeps (fun _ _ h => h) (fun _ _ h => h) (fun _ _ h => h) (fun _ _ h => h)
  have hback : ∀ t {Q : Outcome → Desk → Prop}, Triple false (Untouched w) (.or (T.call t) .nop)
      (onStatus (fun _ => Untouched w) Q) := fun t _ =>
    Triple.of_quiet ⟨call_quiet _ _ _, Cmd.nop_quiet _ _ _⟩ ⟨call_keeps _, Cmd.nop_keeps⟩
  refine Triple.seq (R := fun _ => True) (Triple.branch (Triple.or_ignored
    (Triple.not_ignored (Triple.of_quiet (call_quiet _ false false) (call_keeps _)))
    (Triple.not_ignored (Triple.subshell_ignored hregen))) ?_ fun _ _ => trivial)
    fun _ _ hfailed => absurd rfl hfailed
  -- the rollback: the four files, then the extras, then two tools that are allowed to fail
  refine Triple.seq (R := fun w' => w'.files = (w.put .rules (some (w.text .rules))).files ∧
    w'.extraBackup = w.extra) ?_ (Triple.seq (R := Untouched w) ?_ (Triple.seq (hback _)
      (Triple.seq (hback _) (giveUp fun _ hw _ => hw))))
  · intro w' hw'
    rw [restore_eval]
    exact hw'
  · rintro w' ⟨hfiles, hextra⟩
    refine ⟨?_, congrFun hfiles .policy, congrFun hfiles .yaml, congrFun hfiles .type, hextra⟩
    exact congrArg (·.getD []) (congrFun hfiles .rules)

/-- The installation of the two files, and what follows. -/
def Tools.installs (T : Tools) : SmartScript :=
  .seq (T.atomicInstall .rules) <|
  .seq (T.tool .installExtra (fun w => { w with extra := some w.extraCandidate }) id) <|
  .seq (.ite (.or (.not (T.call .updateDnsdist)) (.not (.subshell T.regenSmart)))
    (.block [
      restoreSmartState,
      .assign fun w => { w with extra := w.extraBackup },
      .or (T.call .updateDnsdistBack) .nop,
      .or (T.call .restartRestored) .nop,
      say,
      .ret 1])
    .nop) say

/-- A tool that fails where `-e` counts. -/
theorem tool_fails {t : Tool} (h : T.fails t ≠ 0) (done failed : Desk → Desk) (w : Desk) :
    (T.tool t done failed).eval false w = (.exit (T.fails t), failed w) := by
  simp [Tools.tool, Cmd.eval, Cmd.settle, h]

theorem tool_succeeds {t : Tool} (h : T.fails t = 0) (done failed : Desk → Desk) (w : Desk) :
    (T.tool t done failed).eval false w = (.status 0, done w) := by
  simp [Tools.tool, Cmd.eval, Cmd.settle, h]

/-- When the second installation fails, the script is over and the first one stays. -/
theorem installs_strands (hrules : T.fails (.install .rules) = 0)
    (hextra : T.fails .installExtra ≠ 0) :
    T.installs.eval false (w.staged domain target) =
      (.exit (T.fails .installExtra),
        (w.staged domain target).put .rules (some (proxyDomainText domain target (w.text .rules)))) := by
  rw [Tools.installs, Tools.atomicInstall, Cmd.eval_seq (tool_succeeds hrules _ _ _), Cmd.eval,
    tool_fails hextra]
  rfl

/-- A failure after the guards leaves the files alone unless the second installation fails. -/
theorem installs_undone (h : ¬ (T.fails (.install .rules) = 0 ∧ T.fails .installExtra ≠ 0 ∧
      proxyDomainText domain target (w.text .rules) ≠ w.text .rules))
    (hfailed : Cmd.exitStatus (T.installs.eval false (w.staged domain target)).1 ≠ 0) :
    Untouched w (T.installs.eval false (w.staged domain target)).2 := by
  by_cases hrules : T.fails (.install .rules) = 0
  · by_cases hextra : T.fails .installExtra = 0
    · rw [Tools.installs, Tools.atomicInstall, Cmd.eval_seq (tool_succeeds hrules _ _ _),
        Cmd.eval_seq (tool_succeeds hextra _ _ _)] at hfailed ⊢
      exact update_spec _ ⟨rfl, rfl⟩ hfailed
    · -- the rules that stay are the old ones
      have hsame : proxyDomainText domain target (w.text .rules) = w.text .rules := by
        by_contra hne
        exact h ⟨hrules, hextra, hne⟩
      rw [installs_strands hrules hextra]
      exact ⟨hsame, rfl, rfl, rfl, rfl⟩
  · have hstop : T.installs.eval false (w.staged domain target) =
        (.exit (T.fails (.install .rules)), w.staged domain target) := by
      rw [Tools.installs, Tools.atomicInstall, Cmd.eval, tool_fails hrules]
      rfl
    rw [hstop]
    exact untouched_staged

/-- The script after its guards. -/
theorem proxyDomain_spec {Q : Outcome → Desk → Prop}
    (hret : ¬ T.Admits domain target w → ∀ lockHeld, Q (.ret 1) { w with lockHeld })
    (hinstalls : T.Admits domain target w → Q (T.installs.eval false (w.staged domain target)).1
      (T.installs.eval false (w.staged domain target)).2) :
    Q ((T.proxyDomain domain target).eval false w).1
      ((T.proxyDomain domain target).eval false w).2 := by
  refine admit_spec hret (fun hadmits => ?_) w rfl
  have hend := hinstalls hadmits
  rw [← staged_eval] at hend
  exact hend

/-- **`proxyDomain_atomic_iff`** — a `proxy_domain` that fails leaves the five files as they were,
exactly if it is not the installation of the new extras that fails with new rules already in place. -/
theorem proxyDomain_atomic_iff (T : Tools) (domain target : Text) (w : Desk) :
    (Cmd.exitStatus ((Cmd.call (T.proxyDomain domain target)).eval false w).1 ≠ 0 →
        Untouched w ((Cmd.call (T.proxyDomain domain target)).eval false w).2) ↔
      ¬ T.Strands domain target w := by
  rw [Cmd.eval, Cmd.exitStatus_returned]
  constructor
  · rintro hatomic ⟨hadmits, hrules, hextra, hne⟩
    have hstays : (T.proxyDomain domain target).eval false w = (.exit (T.fails .installExtra),
        (w.staged domain target).put .rules
          (some (proxyDomainText domain target (w.text .rules)))) := by
      refine proxyDomain_spec (Q := fun o w' => (o, w') = _) (fun hno => absurd hadmits hno) ?_
      intro _
      rw [← installs_strands hrules hextra]
    rw [hstays] at hatomic
    exact hne (hatomic hextra).rules
  · intro hno
    exact proxyDomain_spec (Q := fun o w' => Cmd.exitStatus o ≠ 0 → Untouched w w')
      (fun _ _ _ => ⟨rfl, rfl, rfl, rfl, rfl⟩) fun hadmits =>
        installs_undone fun hstrands => hno ⟨hadmits, hstrands⟩

end ProxyDomain

/-- The new `rules.conf` is installed, the new extras cannot be, and `set -e` ends the script. -/
theorem proxyDomain_leaves_new_rules :
    ¬ ∀ (T : Tools) (domain target : Text) (w : Desk),
      Cmd.exitStatus ((Cmd.call (T.proxyDomain domain target)).eval false w).1 ≠ 0 →
        Untouched w ((Cmd.call (T.proxyDomain domain target)).eval false w).2 := by
  intro hclaim
  have huntouched := hclaim (failing .installExtra) (lit "example.com") (lit "block")
    (deskWith (lit "FINAL,direct\n") []) (by decide)
  have hrules : ((Cmd.call ((failing .installExtra).proxyDomain (lit "example.com")
      (lit "block"))).eval false (deskWith (lit "FINAL,direct\n") [])).2.text .rules =
      lit "DOMAIN-SUFFIX,example.com,block\nFINAL,direct\n" := by decide
  exact absurd (hrules.symm.trans huntouched.rules) (by decide)

end ProxyGateway.Smart
