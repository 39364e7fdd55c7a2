/-
# ProxyGateway.Dns.Port53 — `check_port_53`

Before dnsdist is installed, port 53 has to be free.  `check_port_53` asks `ss` who has it and, if the
administrator agrees, stops the units of the owners; it waits for ten seconds, sends a signal to who is
left, waits again, kills what is left then, and gives up with a message.

`wait_for_port53_free` hands back a failure where the port is still taken, and the function calls it
like any other command: `set -e` ends the script there, without a word.  So a signal is only sent where
the port was free and is taken again (`port53_signals_returned`).  An owner that never lets go of the
port gets none.

The machine is any: what a command does to it is a parameter, and so is what becomes of it between two
looks at the port.
-/
import ProxyGateway.Lang.Errexit
import ProxyGateway.Smart.SeedCoverage

namespace ProxyGateway.Dns.Port53

open ProxyGateway.Lang
open ProxyGateway.Smart (sortUnique mem_sortUnique)

/-! ## The owners of the port -/

/-- `awk '$5 ~ /(^|\[|:)53$/'` -/
def onPort53 (line : Text) : Bool :=
  let field := ((line.splitOnP fun c => c == ' ' || c == '\t').filter (· ≠ []))[4]?.getD []
  field = lit "53" || (lit "[53").isSuffixOf field || (lit ":53").isSuffixOf field

/-- `grep -oP 'pid=\K[0-9]+'` on a line -/
def pidsOf (line : Text) : List Text :=
  line.tails.filterMap fun rest =>
    let pid := (rest.drop 4).takeWhile Char.isDigit
    if (lit "pid=").isPrefixOf rest ∧ pid ≠ [] then some pid else none

/-- **`port53_pids`**, from what `ss -H -lnptu` prints -/
def port53Pids (lines : List Text) : List Text := sortUnique ((lines.filter onPort53).flatMap pidsOf)

/-- The match of `[^/]+\.service` in what stands between two slashes. -/
def serviceIn (segment : Text) : Option Text :=
  segment.inits.reverse.find? fun t => 8 < t.length && (lit ".service").isSuffixOf t

/-- What a command does: a look at the port, the question, `systemctl stop`, `systemctl disable`, one
second of sleep, or a signal. -/
inductive Act where
  | look (seen : List Text)
  | ask (answer : Text)
  | stop (unit : Text)
  | disable (unit socket : Text)
  | sleep
  | signal (kill : Bool) (pid : Text)
  deriving DecidableEq, Repr

/-- The machine.  `after` is what becomes of it while a command runs. -/
structure Machine (M : Type) where
  /-- `ss -H -lnptu` -/
  ss : M → List Text
  /-- `ps -p … -o comm=`, where it succeeds -/
  comm : M → Text → Option Text
  /-- the lines of `/proc/…/cgroup`, where it can be read -/
  cgroup : M → Text → Option (List Text)
  /-- `/etc/resolv.conf` is a link to nothing -/
  dangling : M → Bool
  /-- the line that `read` gets, if there is one -/
  answer : M → Option Text
  after : Act → M → M

/-- The machine, the variables, the messages, and the commands so far, the newest first. -/
structure World (M : Type) where
  env : M
  pids : List Text
  remaining : List Text
  confirm : Text
  proc : Text
  unit : Text
  messages : List Text
  log : List Act

def World.start {M : Type} (m : M) : World M := ⟨m, [], [], [], [], [], [], []⟩

/-- The loops are over process ids. -/
abbrev Script (M : Type) := Cmd (World M) Text

/-! ## The script -/

section Script

variable {M : Type} (P : Machine M)

/-- `info`, `warn`, `ok` and `err` -/
def say (text : World M → Text) : Script M :=
  .assign fun w => { w with messages := w.messages ++ [text w] }

def Machine.act (a : Act) (w : World M) : World M :=
  { w with env := P.after a w.env, log := a :: w.log }

/-- What `port53_pids` prints now. -/
def Machine.owners (w : World M) : List Text := port53Pids (P.ss w.env)

def Machine.look (w : World M) : World M := P.act (.look (P.owners w)) w

/-- `[[ -z "$(port53_pids)" ]]` -/
def Machine.isFree : Script M :=
  .simple fun w => (if P.owners w = [] then 0 else 1, P.look w)

/-- `$(ps -p "$pid" -o comm= 2>/dev/null || echo "unknown")` -/
def Machine.procOf (m : M) (pid : Text) : Text := (P.comm m pid).getD (lit "unknown")

/-- **`systemd_unit_for_pid`** -/
def Machine.systemdUnitForPid (m : M) (pid : Text) : Text :=
  match P.cgroup m pid with
  | some lines => ((lines.flatMap fun line => (line.splitOn '/').filterMap serviceIn).head?).getD []
  | none => []

/-- One owner in `port53_owner_summary`. -/
def Machine.summary (m : M) (pid : Text) : Text :=
  let unit := P.systemdUnitForPid m pid
  P.procOf m pid ++ lit " (PID: " ++ pid ++
    if unit = [] then lit ")" else lit ", unit: " ++ unit ++ lit ")"

/-- A message that ends in `$(port53_owner_summary)`, which looks at the port itself.  The first
character of `IFS` joins the owners. -/
def Machine.sayOwners (text : Text) : Script M :=
  .assign fun w =>
    let seen := P.owners w
    let w := P.look w
    { w with messages := w.messages ++ [text ++ [','].intercalate (seen.map (P.summary w.env))] }

/-- `${unit%.service}.socket` -/
def socketOf (unit : Text) : Text :=
  (if (lit ".service").isSuffixOf unit then unit.take (unit.length - 8) else unit) ++ lit ".socket"

/-- **`stop_systemd_unit_and_socket`** -/
def Machine.stopUnit (unit : World M → Text) : Script M :=
  .call (.block [
    .and (.test fun w => unit w = []) (.ret 0),
    say fun w => lit "Stopping systemd unit owning port 53: " ++ unit w,
    .assign fun w => P.act (.stop (socketOf (unit w))) w,
    .assign fun w => P.act (.stop (unit w)) w,
    .assign fun w => P.act (.disable (unit w) (socketOf (unit w))) w])

/-- **`stop_port53_owner`** -/
def Machine.stopPort53Owner (pid : Text) : Script M :=
  .call (.block [
    .assign fun w => { w with unit := P.systemdUnitForPid w.env pid },
    .ite (.test fun w => w.unit ≠ []) (P.stopUnit (·.unit)) .nop,
    .ite (.test fun w => w.proc = lit "systemd-resolve" ∨ w.proc = lit "systemd-resolved")
      (.block [
        say fun _ => lit "Stopping systemd-resolved service to release DNS stub port 53",
        P.stopUnit fun _ => lit "systemd-resolved.service",
        .ite (.test fun w => P.dangling w.env)
          (.block [
            say fun _ => lit "/etc/resolv.conf became a dangling symlink after stopping " ++
              lit "systemd-resolved; configure a resolver explicitly and rerun",
            .ret 1]) .nop])
      (.ite (.test fun w => w.proc = lit "dnsdist") (P.stopUnit fun _ => lit "dnsdist.service")
        (.ite (.test fun w => w.proc = lit "dnsmasq") (P.stopUnit fun _ => lit "dnsmasq.service")
          (.ite (.test fun w => w.proc = lit "named")
            (.block [P.stopUnit fun _ => lit "named.service",
              P.stopUnit fun _ => lit "bind9.service"]) .nop)))])

/-- **`wait_for_port53_free`** -/
def Machine.waitForPort53Free (timeout : Nat) : Script M :=
  .call (.seq
    (.forIn (fun _ => List.replicate timeout []) fun _ =>
      .seq (.and P.isFree (.ret 0)) (.assign (P.act .sleep)))
    P.isFree)

/-- `read -r -p "Stop and disable '$proc' to free port 53? [Y/n]: " confirm` -/
def Machine.ask : Script M :=
  .simple fun w =>
    match P.answer w.env with
    | some answer =>
      let w := P.act (.ask answer) w
      (0, { w with confirm := answer })
    | none => (1, w)

/-- `[[ "$confirm" =~ ^[Nn]$ ]]` -/
def isNo (answer : Text) : Bool := answer = lit "N" || answer = lit "n"

/-- `remaining=$(port53_pids)` -/
def Machine.lookAgain : Script M :=
  .assign fun w =>
    let seen := P.owners w
    { P.look w with remaining := seen }

/-- `kill "$pid" 2>/dev/null || true`, or `kill -9` -/
def Machine.killAll (kill : Bool) : Script M :=
  .forIn (·.remaining) fun pid => .assign (P.act (.signal kill pid))

/-- The texts before `SIGTERM`. -/
def Machine.stillInUse : List (Script M) :=
  [P.sayOwners (lit "Port 53 is still in use by: "),
    say fun _ => lit "Trying SIGTERM/SIGKILL on remaining port 53 owners..."]

/-- A signal to who is left, and a wait. -/
def Machine.escalate (kill : Bool) (texts : List (Script M)) (timeout : Nat) : Script M :=
  .seq P.lookAgain
    (.ite (.test fun w => w.remaining ≠ [])
      (.seq (.block texts) (.seq (P.killAll kill) (P.waitForPort53Free timeout))) .nop)

/-- How the last message begins. -/
def failedText : Text := lit "Failed to free port 53. Still in use by: "

/-- The last look. -/
def Machine.giveUp : Script M :=
  .seq P.lookAgain
    (.ite (.test fun w => w.remaining ≠ [])
      (.block [
        P.sayOwners failedText,
        say fun _ => lit "Check with: ss -lnptu 'sport = :53' ; systemctl status <unit> ; " ++
          lit "journalctl -u <unit> -n 50",
        .exit 1]) .nop)

/-- `pids=$(port53_pids)` -/
def Machine.firstLook : Script M := .assign fun w => { P.look w with pids := P.owners w }

/-- The question, and the units of the owners. -/
def Machine.stopOwners : List (Script M) :=
  [.assign fun w => { w with proc := P.procOf w.env ((w.pids.head?).getD []) },
    P.sayOwners (lit "Port 53 is already in use by: "),
    P.ask,
    .ite (.test fun w => isNo w.confirm)
      (.block [say fun _ => lit "Port 53 must be free for dnsdist to start. Aborting.", .exit 1]) .nop,
    .forIn (·.pids) fun pid =>
      .seq (.assign fun w => { w with proc := P.procOf w.env pid }) (P.stopPort53Owner pid)]

/-- **`check_port_53`** -/
def Machine.checkPort53 : Script M :=
  .seq (say fun _ => lit "Checking port 53 availability...") <|
  .seq P.firstLook <|
  .ite (.test fun w => w.pids ≠ [])
    (.seq (.block P.stopOwners) <|
      .seq (P.waitForPort53Free 10) <|
      .seq (P.escalate false P.stillInUse 5) <|
      .seq (P.escalate true [] 3) <|
      .seq P.giveUp (say fun _ => lit "Port 53 is now free"))
    (say fun _ => lit "Port 53 is available")

/-- A call of `check_port_53` in the installation: the status of the script where it ends there, else
0, and the world it leaves. -/
def Machine.checkPort53Status (m : M) : Nat × World M :=
  let r := (Cmd.call P.checkPort53).eval false (.start m)
  (Cmd.exitStatus r.1, r.2)

end Script

/-! ## What a run may do -/

/-- The administrator has not said no. -/
def Agreed (log : List Act) : Prop := ∃ answer, .ask answer ∈ log ∧ isNo answer = false

/-- A look saw the process on the port right after one that saw the port free. -/
def Retaken (pid : Text) (log : List Act) : Prop :=
  ∃ later seen earlier, log = later ++ .look seen :: .look [] :: earlier ∧ pid ∈ seen

/-- What has to be in the log before a command. -/
def Permitted (earlier : List Act) : Act → Prop
  | .look _ | .ask _ | .sleep => True
  | .stop _ | .disable _ _ => Agreed earlier
  | .signal _ pid => Agreed earlier ∧ Retaken pid earlier

/-- **`Lawful`** — every command had its condition. -/
def Lawful (log : List Act) : Prop :=
  ∀ later a earlier, log = later ++ a :: earlier → Permitted earlier a

/-- No signal, and no word of a failure. -/
structure Silent {M : Type} (w : World M) : Prop where
  unsignalled : ∀ kill pid, .signal kill pid ∉ w.log
  unsaid : ∀ owners, failedText ++ owners ∉ w.messages

/-- **`Ends`** — how the function ends, or the script with it. -/
structure Ends {M : Type} (status : Nat) (w : World M) : Prop where
  free : status = 0 → w.log.head? = some (.look [])
  lawful : Lawful w.log
  stuck : .look [] ∉ w.log → status ≠ 0 ∧ Silent w

section Run

variable {M : Type} {P : Machine M} {w : World M} {log : List Act}

theorem Lawful.act {a : Act} (h : Lawful log) (ha : Permitted log a) : Lawful (a :: log) := by
  intro later b earlier heq
  cases later with
  | nil =>
    obtain ⟨rfl, rfl⟩ := List.cons.inj heq
    exact ha
  | cons c later => exact h later b earlier (List.cons.inj heq).2

theorem Agreed.act (h : Agreed log) (a : Act) : Agreed (a :: log) := by
  obtain ⟨answer, hask, hno⟩ := h
  exact ⟨answer, List.mem_cons_of_mem _ hask, hno⟩

theorem Retaken.act {pid : Text} (h : Retaken pid log) (a : Act) : Retaken pid (a :: log) := by
  obtain ⟨later, seen, earlier, rfl, hpid⟩ := h
  exact ⟨a :: later, seen, earlier, rfl, hpid⟩

/-! ### Up to the first wait -/

/-- Nothing has gone wrong so far, and nothing was forced. -/
structure Asking (w : World M) : Prop extends Silent w where
  lawful : Lawful w.log

theorem Asking.act {a : Act} (h : Asking w) (ha : Permitted w.log a)
    (hsignal : ∀ kill pid, a ≠ .signal kill pid) : Asking (P.act a w) where
  unsignalled kill pid hmem := by
    rcases List.mem_cons.mp hmem with heq | hmem
    · exact hsignal kill pid heq.symm
    · exact h.unsignalled kill pid hmem
  unsaid := h.unsaid
  lawful := h.lawful.act ha

theorem Asking.look (h : Asking w) : Asking (P.look w) := h.act trivial (by intros; simp)

/-- A text that begins otherwise than the message of failure. -/
def Other (text : Text) : Prop := ∃ t u, text = t ++ u ∧ t ≠ [] ∧ t.head? ≠ failedText.head?

theorem Other.ne {text : Text} (h : Other text) (owners : Text) : text ≠ failedText ++ owners := by
  obtain ⟨t, u, rfl, hne, hhead⟩ := h
  obtain ⟨c, t, rfl⟩ := List.exists_cons_of_ne_nil hne
  intro heq
  have hfirst := congrArg List.head? heq
  rw [List.cons_append, List.head?_cons, List.head?_append_of_ne_nil _ (by decide)] at hfirst
  exact hhead hfirst

theorem Asking.say (h : Asking w) {text : Text} (ht : Other text) :
    Asking { w with messages := w.messages ++ [text] } where
  unsignalled := h.unsignalled
  unsaid owners hmem := by
    rcases List.mem_append.mp hmem with hmem | hmem
    · exact h.unsaid owners hmem
    · exact ht.ne owners (List.mem_singleton.mp hmem).symm
  lawful := h.lawful

theorem Asking.fails (h : Asking w) {status : Nat} (hstatus : status ≠ 0) : Ends status w where
  free hzero := absurd hzero hstatus
  lawful := h.lawful
  stuck _ := ⟨hstatus, h.toSilent⟩

/-- The administrator has agreed. -/
structure Stopping (w : World M) : Prop extends Asking w where
  agreed : Agreed w.log

theorem Stopping.act {a : Act} (h : Stopping w) (ha : Permitted w.log a)
    (hsignal : ∀ kill pid, a ≠ .signal kill pid) : Stopping (P.act a w) :=
  ⟨h.toAsking.act ha hsignal, h.agreed.act a⟩

theorem Stopping.say (h : Stopping w) {text : Text} (ht : Other text) :
    Stopping { w with messages := w.messages ++ [text] } := ⟨h.toAsking.say ht, h.agreed⟩

theorem stopUnit_keeps (unit : World M → Text) : (P.stopUnit unit).keeps Stopping := by
  refine ⟨⟨Cmd.test_keeps _, trivial⟩, fun w hw => hw.say ?_, fun w hw => ?_, fun w hw => ?_,
    fun w hw => ?_⟩
  · exact ⟨_, _, rfl, by decide, by decide⟩
  · exact hw.act hw.agreed (by intros; simp)
  · exact hw.act hw.agreed (by intros; simp)
  · exact hw.act hw.agreed (by intros; simp)

theorem stopUnit_fatal (unit : World M → Text) (loop fn : Bool) :
    (P.stopUnit unit).fatal loop fn := ⟨⟨trivial, rfl⟩, trivial, trivial, trivial, trivial⟩

theorem stopPort53Owner_keeps (pid : Text) : (P.stopPort53Owner pid).keeps Stopping := by
  refine ⟨fun w hw => ⟨⟨⟨hw.unsignalled, hw.unsaid⟩, hw.lawful⟩, hw.agreed⟩,
    ⟨Cmd.test_keeps _, stopUnit_keeps _, Cmd.nop_keeps⟩, Cmd.test_keeps _,
    ⟨fun w hw => hw.say ?_, stopUnit_keeps _, Cmd.test_keeps _,
      ⟨fun w hw => hw.say ?_, trivial⟩, Cmd.nop_keeps⟩,
    Cmd.test_keeps _, stopUnit_keeps _, Cmd.test_keeps _, stopUnit_keeps _, Cmd.test_keeps _,
    ⟨stopUnit_keeps _, stopUnit_keeps _⟩, Cmd.nop_keeps⟩
  · have hother : Other (lit "Stopping systemd-resolved service to release DNS stub port 53") :=
      ⟨_, [], (List.append_nil _).symm, by decide, by decide⟩
    exact hother
  · exact ⟨_, _, rfl, by decide, by decide⟩

theorem stopPort53Owner_fatal (pid : Text) (loop fn : Bool) :
    (P.stopPort53Owner pid).fatal loop fn :=
  ⟨trivial, ⟨trivial, stopUnit_fatal _ _ _, trivial⟩, trivial,
    ⟨trivial, stopUnit_fatal _ _ _, trivial, ⟨trivial, rfl⟩, trivial⟩,
    trivial, stopUnit_fatal _ _ _, trivial, stopUnit_fatal _ _ _, trivial,
    ⟨stopUnit_fatal _ _ _, stopUnit_fatal _ _ _⟩, trivial⟩

variable {Q : Outcome → World M → Prop}

theorem sayOwners_keeps {K : World M → Prop} (text : Text)
    (h : ∀ w owners, K w →
      K { P.look w with messages := w.messages ++ [text ++ owners] }) :
    (P.sayOwners text).keeps K := fun w hw => h w _ hw

/-- The answer is there. -/
structure Answered (w : World M) : Prop extends Asking w where
  asked : .ask w.confirm ∈ w.log

/-- **`stopOwners_spec`** — the units are stopped, or the script ends in a failure. -/
theorem stopOwners_spec (hQ : ∀ n w, n ≠ 0 → Asking w → Q (.exit n) w) :
    Triple false Asking (.block P.stopOwners) (onStatus (fun _ => Stopping) Q) := by
  have hsaid : (P.sayOwners (lit "Port 53 is already in use by: ")).keeps Asking :=
    sayOwners_keeps _ fun w owners hw => hw.look.say ⟨_, owners, rfl, by decide, by decide⟩
  refine Triple.seq (R := Asking) (Triple.of_quiet (Or.inr fun _ => rfl) fun w hw => ?_) ?_
  · exact ⟨⟨hw.unsignalled, hw.unsaid⟩, hw.lawful⟩
  refine Triple.seq (R := Asking) (Triple.of_quiet (Or.inr fun _ => rfl) hsaid) ?_
  refine Triple.seq (R := Answered) (Triple.strict fun w hw => ?_) ?_
  · -- without an answer `read` fails
    cases hanswer : P.answer w.env with
    | none => exact hQ 1 w Nat.one_ne_zero hw
    | some answer =>
      have hasking : Asking (P.act (.ask answer) w) := hw.act trivial (by intros; simp)
      exact ⟨⟨⟨hasking.unsignalled, hasking.unsaid⟩, hasking.lawful⟩, List.mem_cons_self ..⟩
  refine Triple.seq (R := Stopping) ?_ ?_
  · refine Triple.ite (R := Answered) (S := Stopping) (Triple.test (fun w hw _ => hw) ?_) ?_ ?_
    · exact fun w hw hno => ⟨hw.toAsking, w.confirm, hw.asked, hno⟩
    · have hother : Other (lit "Port 53 must be free for dnsdist to start. Aborting.") :=
        ⟨_, [], (List.append_nil _).symm, by decide, by decide⟩
      refine Triple.seq (R := Asking) (Triple.simple fun w hw => hw.toAsking.say hother) ?_
      exact Triple.exit fun w hw => hQ 1 w Nat.one_ne_zero hw
    · exact Triple.simple fun w hw => hw
  · refine Triple.of_fatal (fun pid => ⟨trivial, stopPort53Owner_fatal pid _ _⟩)
      (fun pid => ⟨fun w hw => ?_, stopPort53Owner_keeps pid⟩) fun n w hn hw => ?_
    · exact ⟨⟨⟨hw.unsignalled, hw.unsaid⟩, hw.lawful⟩, hw.agreed⟩
    · exact hQ n w hn hw.toAsking

/-! ### The waits -/

/-- The last command was a look that saw the port free. -/
def SeenFree (w : World M) : Prop := w.log.head? = some (.look [])

/-- A look, and what it tells. -/
theorem isFree_spec {ign : Bool} {K : World M → Prop} (hlook : ∀ w, K w → K (P.look w))
    (hfree : ∀ w, K w ∧ SeenFree w → Q (.status 0) w) (htaken : ∀ w, K w → Q (Cmd.settle ign 1) w) :
    Triple ign K P.isFree Q := by
  refine Triple.simple fun w hw => ?_
  by_cases hnone : P.owners w = []
  · have hseen : SeenFree (P.look w) := by
      rw [SeenFree, Machine.look, hnone]
      rfl
    simpa [Cmd.settle, hnone] using hfree _ ⟨hlook w hw, hseen⟩
  · simpa [hnone] using htaken _ (hlook w hw)

/-- **`waitForPort53Free_spec`** — the wait ends at a look that saw the port free, or the script does. -/
theorem waitForPort53Free_spec {K : World M → Prop} (hlook : ∀ w, K w → K (P.look w))
    (hsleep : ∀ w, K w → K (P.act .sleep w)) (hQ : ∀ n w, n ≠ 0 → K w → Q (.exit n) w) (timeout : Nat) :
    Triple false K (P.waitForPort53Free timeout)
      (onStatus (fun _ w => K w ∧ SeenFree w) Q) := by
  refine Triple.call (Triple.seq (R := K) (Triple.forIn (fun _ hw => hw) fun _ => ?_) ?_)
  · refine Triple.seq (R := K) (Triple.and (R := fun w => K w ∧ SeenFree w) ?_ ?_) ?_
    · exact isFree_spec hlook (fun w hw => hw) fun w hw => hw
    · exact Triple.ret fun w hw => hw
    · exact Triple.simple fun w hw => ⟨hsleep w hw, hsleep w hw⟩
  · -- the last look is a command of its own, and `-e` watches it
    exact isFree_spec hlook (fun w hw => hw) fun w hw => hQ 1 w Nat.one_ne_zero hw

/-! ### The signals -/

/-- The port was free at some time since the administrator agreed. -/
structure Freed (w : World M) : Prop where
  lawful : Lawful w.log
  agreed : Agreed w.log
  freed : .look [] ∈ w.log

theorem Freed.act {a : Act} (h : Freed w) (ha : Permitted w.log a) : Freed (P.act a w) :=
  ⟨h.lawful.act ha, h.agreed.act a, List.mem_cons_of_mem _ h.freed⟩

theorem Freed.fails (h : Freed w) {status : Nat} (hstatus : status ≠ 0) : Ends status w where
  free hzero := absurd hzero hstatus
  lawful := h.lawful
  stuck hnever := absurd h.freed hnever

/-- The port is taken again by `seen`. -/
structure Back (seen : List Text) (w : World M) : Prop extends Freed w where
  remaining : w.remaining = seen
  back : ∃ later earlier, w.log = later ++ .look seen :: .look [] :: earlier

theorem Back.act {seen : List Text} {a : Act} (h : Back seen w) (ha : Permitted w.log a) :
    Back seen (P.act a w) where
  toFreed := h.toFreed.act ha
  remaining := h.remaining
  back := by
    obtain ⟨later, earlier, hlog⟩ := h.back
    exact ⟨a :: later, earlier, congrArg (a :: ·) hlog⟩

/-- The owners that are back may get a signal. -/
theorem Back.signal {seen : List Text} {pid : Text} (h : Back seen w) (hpid : pid ∈ seen)
    (kill : Bool) : Back seen (P.act (.signal kill pid) w) := by
  obtain ⟨later, earlier, hlog⟩ := h.back
  exact h.act ⟨h.agreed, later, seen, earlier, hlog, hpid⟩

/-- The function may go on with a look. -/
def Calm (w : World M) : Prop := Freed w ∧ SeenFree w

theorem Calm.lookAgain (h : Calm w) : Back (P.owners w) { P.look w with remaining := P.owners w } := by
  obtain ⟨hfreed, hseen⟩ := h
  have hlooked : Freed (P.look w) := hfreed.act trivial
  refine ⟨⟨hlooked.lawful, hlooked.agreed, hlooked.freed⟩, rfl, [], ?_⟩
  obtain ⟨earlier, hearlier⟩ := List.head?_eq_some_iff.mp hseen
  exact ⟨earlier, congrArg (Act.look (P.owners w) :: ·) hearlier⟩

/-- What `lookAgain` leaves. -/
def Looked (w : World M) : Prop := ∃ seen, Back seen w ∧ (seen = [] → SeenFree w)

theorem lookAgain_spec : Triple false Calm P.lookAgain (onStatus (fun _ => Looked) Q) := by
  refine Triple.simple fun w hw => ⟨_, hw.lookAgain, fun hnone => ?_⟩
  show some (Act.look (P.owners w)) = some (.look [])
  rw [hnone]

/-- Somebody is left, or the function may go on. -/
theorem left_spec {again rest : Script M} (hagain : ∀ seen, Triple false (Back seen) again Q)
    (hrest : Triple false Calm rest Q) :
    Triple false Looked (.ite (.test fun w => w.remaining ≠ []) again rest) Q := by
  refine Triple.ite (R := fun w => ∃ seen, Back seen w) (Triple.test ?_ ?_) ?_ hrest
  · rintro w ⟨seen, hback, -⟩ -
    exact ⟨seen, hback⟩
  · rintro w ⟨seen, hback, hnone⟩ hempty
    have hseen : seen = [] := by simpa [hback.remaining] using hempty
    exact ⟨hback.toFreed, hnone hseen⟩
  · rintro w ⟨seen, hback⟩
    exact hagain seen w hback

theorem killAll_spec (seen : List Text) (kill : Bool) :
    Triple false (Back seen) (P.killAll kill) (onStatus (fun _ => Back seen) Q) := by
  refine Triple.forIn_mem (S := (· ∈ seen)) (fun w hw pid hpid => ?_) (fun w hw => hw)
    fun pid hpid => Triple.simple fun w hw => ?_
  · exact hw.remaining ▸ hpid
  · exact ⟨hw.signal hpid kill, hw.signal hpid kill⟩

/-- **`escalate_spec`** — who is left gets a signal, and the port is free then, or the script ends. -/
theorem escalate_spec {texts : List (Script M)} (hquiet : (Cmd.block texts).quiet false false false)
    (hkeeps : ∀ seen, (Cmd.block texts).keeps (Back seen))
    (hQ : ∀ n w, n ≠ 0 → Freed w → Q (.exit n) w) (kill : Bool) (timeout : Nat) :
    Triple false Calm (P.escalate kill texts timeout) (onStatus (fun _ => Calm) Q) := by
  refine Triple.seq lookAgain_spec (left_spec (fun seen => ?_) (Triple.simple fun w hw => hw))
  refine Triple.seq (Triple.of_quiet hquiet (hkeeps seen)) (Triple.seq (killAll_spec seen kill) ?_)
  refine (waitForPort53Free_spec (fun w hw => hw.act trivial) (fun w hw => hw.act trivial)
    (fun n w hn hw => hQ n w hn hw.toFreed) timeout).mono fun o w ho => ?_
  cases o with
  | status n => exact ⟨ho.1.toFreed, ho.2⟩
  | _ => exact ho

theorem giveUp_spec (hQ : ∀ n w, n ≠ 0 → Freed w → Q (.exit n) w) :
    Triple false Calm P.giveUp (onStatus (fun _ => Calm) Q) := by
  refine Triple.seq lookAgain_spec (left_spec (fun seen => ?_) (Triple.simple fun w hw => hw))
  have hsaid : ∀ w : World M, ∀ messages, Freed w → Freed { w with messages := messages } :=
    fun w _ hw => ⟨hw.lawful, hw.agreed, hw.freed⟩
  refine Triple.seq (R := Freed) (Triple.simple fun w hw => ?_) ?_
  · exact hsaid _ _ (hw.toFreed.act trivial)
  refine Triple.seq (R := Freed) (Triple.simple fun w hw => hsaid _ _ hw) ?_
  exact Triple.exit fun w hw => hQ 1 w Nat.one_ne_zero hw

/-! ## The function -/

/-- The first look. -/
def FirstLook (w : World M) : Prop := Asking w ∧ (w.pids = [] → SeenFree w)

theorem firstLook_spec : Triple false Asking P.firstLook (onStatus (fun _ => FirstLook) Q) := by
  refine Triple.simple fun w hw => ⟨?_, fun hnone => ?_⟩
  · have hlooked : Asking (P.look w) := hw.look
    exact ⟨⟨hlooked.unsignalled, hlooked.unsaid⟩, hlooked.lawful⟩
  · show some (Act.look (P.owners w)) = some (.look [])
    rw [show P.owners w = [] from hnone]

/-- Once the units are stopped. -/
theorem freeOrStop_spec (hQ : ∀ n w, n ≠ 0 → Ends n w → Q (.exit n) w) :
    Triple false Stopping (P.waitForPort53Free 10) (onStatus (fun _ => Calm) Q) := by
  refine (waitForPort53Free_spec (fun w hw => hw.act trivial (by intros; simp))
    (fun w hw => hw.act trivial (by intros; simp))
    (fun n w hn hw => hQ n w hn (hw.toAsking.fails hn)) 10).mono fun o w ho => ?_
  cases o with
  | status n =>
    obtain ⟨hstopping, hseen⟩ := ho
    exact ⟨⟨hstopping.lawful, hstopping.agreed, List.mem_of_mem_head? hseen⟩, hseen⟩
  | _ => exact ho

theorem stillInUse_quiet : (Cmd.block P.stillInUse).quiet false false false :=
  ⟨Or.inr fun _ => rfl, Or.inr fun _ => rfl⟩

theorem stillInUse_keeps (seen : List Text) : (Cmd.block P.stillInUse).keeps (Back seen) := by
  have hsaid : ∀ w : World M, ∀ messages, Back seen w → Back seen { w with messages := messages } :=
    fun w _ hw => ⟨⟨hw.lawful, hw.agreed, hw.freed⟩, hw.remaining, hw.back⟩
  exact ⟨sayOwners_keeps _ fun w _ hw => hsaid _ _ (hw.act trivial), fun w hw => hsaid _ _ hw⟩

theorem checkPort53_spec :
    Triple false Asking P.checkPort53 fun o w => Ends (Cmd.exitStatus o) w := by
  have hfailed : ∀ n (w : World M), n ≠ 0 → Freed w → Ends n w := fun _ _ hn hw => hw.fails hn
  have hdone : ∀ w : World M, ∀ messages, Lawful w.log → SeenFree w →
      Ends 0 { w with messages := messages } := fun w messages hlawful hseen =>
    ⟨fun _ => hseen, hlawful, fun hnever => absurd (List.mem_of_mem_head? hseen) hnever⟩
  have hchecking : Other (lit "Checking port 53 availability...") :=
    ⟨_, [], (List.append_nil _).symm, by decide, by decide⟩
  refine Triple.seq (R := Asking) (Triple.simple fun w hw => hw.say hchecking) ?_
  refine Triple.seq firstLook_spec ?_
  refine Triple.ite (R := Asking) (S := fun w => Asking w ∧ SeenFree w) (Triple.test ?_ ?_) ?_ ?_
  · exact fun w hw _ => hw.1
  · exact fun w hw hnone => ⟨hw.1, hw.2 (by simpa using hnone)⟩
  · refine Triple.seq (stopOwners_spec fun n w hn hw => hw.fails hn) ?_
    refine Triple.seq (freeOrStop_spec fun n w _ hw => hw) ?_
    refine Triple.seq (escalate_spec stillInUse_quiet stillInUse_keeps hfailed false 5) ?_
    refine Triple.seq (escalate_spec (Cmd.nop_quiet ..) (fun _ => Cmd.nop_keeps) hfailed true 3) ?_
    refine Triple.seq (giveUp_spec hfailed) ?_
    exact Triple.simple fun w hw => hdone w _ hw.1.lawful hw.2
  · exact Triple.simple fun w hw => hdone w _ hw.1.lawful hw.2

end Run

/-- **`port53_signals_returned`** — `check_port_53` succeeds only where its last look saw the port free.
Units are only stopped once the administrator has agreed, and a process only gets a signal that was seen
on the port right after the port had been seen free.  Where no look sees the port free, the script ends
in a failure without any signal, and does not say that it failed. -/
theorem port53_signals_returned {M : Type} (P : Machine M) (m : M) :
    let r := P.checkPort53Status m
    (r.1 = 0 → r.2.log.head? = some (.look [])) ∧
    (∀ later a earlier, r.2.log = later ++ a :: earlier → Permitted earlier a) ∧
    (.look [] ∉ r.2.log → r.1 ≠ 0 ∧ (∀ kill pid, .signal kill pid ∉ r.2.log) ∧
      ∀ owners, failedText ++ owners ∉ r.2.messages) := by
  have hstart : Asking (World.start m) :=
    ⟨⟨fun _ _ => List.not_mem_nil, fun _ => List.not_mem_nil⟩, fun later a earlier heq => by
      cases later <;> cases heq⟩
  have hends : Ends (P.checkPort53Status m).1 (P.checkPort53Status m).2 := by
    have hspec := (checkPort53_spec : Triple false Asking P.checkPort53 _) _ hstart
    simpa only [Machine.checkPort53Status, Cmd.eval, Cmd.exitStatus_returned] using hspec
  refine ⟨hends.free, hends.lawful, fun hnever => ?_⟩
  obtain ⟨hstatus, hsilent⟩ := hends.stuck hnever
  exact ⟨hstatus, hsilent.unsignalled, hsilent.unsaid⟩

/-- A server without a unit, which stays where it is. -/
def stubborn : Machine Unit where
  ss _ := [lit "udp UNCONN 0 0 0.0.0.0:53 0.0.0.0:* users:((\"unbound\",pid=7,fd=3))"]
  comm _ _ := some (lit "unbound")
  cgroup _ _ := none
  dangling _ := false
  answer _ := some []
  after _ _ := ()

theorem port53_signals_returned_stubborn :
    (stubborn.checkPort53Status ()).1 ≠ 0 ∧
      (∀ kill pid, .signal kill pid ∉ (stubborn.checkPort53Status ()).2.log) ∧
        .sleep ∈ (stubborn.checkPort53Status ()).2.log := by
  obtain ⟨hstatus, hsignal, -⟩ := (port53_signals_returned stubborn ()).2.2 (by decide)
  exact ⟨hstatus, hsignal, by decide⟩

end ProxyGateway.Dns.Port53
