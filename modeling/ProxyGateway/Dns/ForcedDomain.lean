/-
# ProxyGateway.Dns.ForcedDomain — `force_set_dot_domain`, and one change of the domain after another

The forced command is `set_dot_domain` without a certificate: it warns where the other refuses, never
calls `certbot`, and has the same way back when dnsdist does not take the domain up.

Both commands report success exactly where the new domain stands.  So after any number of them the
three small files name the domain of the last one that succeeded (`last_success_named`), whatever DNS,
`certbot`, dnsdist and the profile did in between.
-/
import ProxyGateway.Dns.DotDomain
import ProxyGateway.Smart.Extract

namespace ProxyGateway.Dns.DotDomain

open ProxyGateway.Lang

/-! ## The script -/

section Script

variable {D : Type} (T : Tools D)

/-- The checks of the forced command: of an address that is not this host's it only warns. -/
def Tools.forceChecks (newDomain : Text) : List (Script D) :=
  [.or (.test fun _ => newDomain ≠ [])
      (refuse [fun _ => lit "Usage: --set-dot-domain-force <domain>"]),
    .ite (.not (.test fun _ => isValidDomain newDomain))
      (refuse [fun _ => lit "Invalid domain: '" ++ newDomain ++
        lit "'. Provide a fully-qualified domain like dns.example.com"]) .nop,
    .call T.getPublicIp,
    .ite (.not (.test fun _ => T.domainResolvesToPublicIp newDomain))
      (say fun _ => newDomain ++ lit " 当前解析到 " ++
        (if T.records newDomain = [] then lit "无" else joined (T.records newDomain)) ++
        lit "，不是本机 " ++ T.publicIp ++ lit "；按强制模式继续。") .nop]

/-- **`force_set_dot_domain`** -/
def Tools.forceSetDotDomain (newDomain : Text) : Script D :=
  .seq (.block (T.forceChecks newDomain)) <|
  .seq (.assign fun w => { w with old := fun f => remembered (w.files.names f), domain := newDomain }) <|
  .seq (.block T.writeNames) <|
  .seq T.reload <|
  .seq (.or (.call T.regenerateIosProfile) (say fun _ => lit "iOS profile regeneration failed")) <|
  .seq (say fun _ => lit "DoT domain forcibly updated without issuing a new certificate. " ++
      lit "Run --renew-cert after fixing certbot/port 80 issues.")
    (say fun w => lit "DoT domain forcibly updated: " ++ w.domain)

end Script

/-! ## One change after another -/

/-- What stays on the host between two commands. -/
structure Host (D : Type) where
  files : Files D
  live : Text → Option (D × D)

/-- A change of the domain, with what the tools do in it. -/
structure Change (D : Type) where
  tools : Tools D
  domain : Text
  forced : Bool

variable {D : Type}

/-- `--set-dot-domain` or `--set-dot-domain-force` -/
def Change.script (c : Change D) : Script D :=
  .call (if c.forced then c.tools.forceSetDotDomain c.domain else c.tools.setDotDomain c.domain)

/-- The status of the command, and the host behind it. -/
def Change.run (c : Change D) (host : Host D) : Nat × Host D :=
  let r := c.script.eval false (World.start host.files host.live)
  (Cmd.exitStatus r.1, ⟨r.2.files, r.2.live⟩)

/-- The domains of the commands that report success, and the host behind all of them. -/
def runChanges : List (Change D) → Host D → List Text × Host D
  | [], host => ([], host)
  | c :: cs, host =>
    let r := c.run host
    let rest := runChanges cs r.2
    (if r.1 = 0 then c.domain :: rest.1 else rest.1, rest.2)

/-- The three files where `domain` is set. -/
def namesOf (domain : Text) : NameFile → Option Text
  | .confDomain | .dnsdistDomain => some (echo domain)
  | .certBasename => none

/-- The files after successes with these domains. -/
def namedBy (names : NameFile → Option Text) (succeeded : List Text) : NameFile → Option Text :=
  match succeeded.getLast? with
  | some domain => namesOf domain
  | none => names

/-- The small files can be written, removed and written back. -/
structure Tools.WritesNames (T : Tools D) : Prop where
  mkdir : T.fails .mkdirConf = 0
  write : ∀ f, T.fails (.write f) = 0
  back : T.WritesBack

/-! ## A domain in its file -/

theorem ne_nil_of_isValidDomain {domain : Text} (h : isValidDomain domain = true) : domain ≠ [] := by
  rintro rfl
  revert h
  decide

/-- An option of `echo` has no dot. -/
theorem echo_domain {domain : Text} (h : isValidDomain domain = true) :
    echo domain = domain ++ ['\n'] := by
  refine if_neg fun hoption => ?_
  have hdot : '.' ∉ domain := by
    unfold isEchoOption at hoption
    split at hoption
    · next c t =>
      intro hmem
      rcases List.mem_cons.mp hmem with heq | hmem
      · revert heq
        decide
      · have hletter := List.all_eq_true.mp hoption _ hmem
        revert hletter
        decide
    · cases hoption
  have hlength := (Bool.and_eq_true_iff.mp h).1
  rw [List.splitOn_eq_singleton hdot] at hlength
  revert hlength
  simp

theorem nul_not_mem_domain {domain : Text} (h : isValidDomain domain = true) :
    Char.ofNat 0 ∉ domain := by
  intro hmem
  rcases Smart.isDomain_chars h hmem with halnum | heq | heq | heq
  · have hrange := toNat_of_isAlphanum halnum
    revert hrange
    decide
  · exact absurd heq (by decide)
  · exact absurd heq (by decide)
  · exact absurd heq (by decide)

theorem getLast?_domain {domain : Text} (h : isValidDomain domain = true) :
    domain.getLast? ≠ some '\n' :=
  fun hlast => (stringBody_of_isDomain h).newline (List.mem_of_getLast? hlast)

theorem oneLine_echo {domain : Text} (h : isValidDomain domain = true) : OneLine (echo domain) :=
  ⟨domain, ne_nil_of_isValidDomain h, getLast?_domain h, nul_not_mem_domain h, echo_domain h⟩

theorem remembered_echo {domain : Text} (h : isValidDomain domain = true) :
    remembered (some (echo domain)) = domain := by
  rw [echo_domain h]
  exact remembered_line (getLast?_domain h) (nul_not_mem_domain h)

/-! ## One command -/

section Command

variable {T : Tools D} {names : NameFile → Option Text} {domain : Text}
  {P : World D → Prop} {Q : Outcome → World D → Prop}

/-- Nothing of the three files is changed. -/
def Untouched (names : NameFile → Option Text) (w : World D) : Prop := w.files.names = names

/-- The files hold `current`, and the variables of the command remember `names`. -/
structure Holding (names current : NameFile → Option Text) (domain : Text) (w : World D) : Prop where
  current : w.files.names = current
  old : w.old = fun f => remembered (names f)
  domain : w.domain = domain

/-- Success with the names of `domain`, or a failure with the names of before. -/
def Ended (names : NameFile → Option Text) (domain : Text) (o : Outcome) (w : World D) : Prop :=
  if Cmd.exitStatus o = 0 then isValidDomain domain = true ∧ w.files.names = namesOf domain
  else w.files.names = names

/-- A post-condition under which the script may fail with the names of before. -/
def Stops (names : NameFile → Option Text) (Q : Outcome → World D → Prop) : Prop :=
  ∀ n w, n ≠ 0 → w.files.names = names → Q (.exit n) w

theorem stops_ended : Stops names (Ended (D := D) names domain) := by
  intro n w hn hw
  exact (if_neg hn).mpr hw

theorem Stops.onStatus {R : Nat → World D → Prop} (hQ : Stops names Q) :
    Stops names (onStatus R Q) := hQ

theorem Stops.returned (hQ : Stops names Q) :
    Stops names fun o w => Q (Cmd.returned false o) w := hQ

/-- What no message changes goes on. -/
theorem refuse_kept (hsay : ∀ text, (say text : Script D).keeps P) (texts : List (World D → Text)) :
    (refuse texts).keeps P := by
  induction texts with
  | nil => exact trivial
  | cons text texts ih => exact ⟨hsay text, ih⟩

theorem refuse_stops (hQ : Stops names Q) (texts : List (World D → Text)) :
    Triple false (Untouched names) (refuse texts) Q := by
  refine (refuse_exits (fun _ _ hw => hw) texts).mono ?_
  rintro o w ⟨rfl, hw⟩
  exact hQ 1 w Nat.one_ne_zero hw

theorem run_kept {tool : Tool} {f : World D → World D}
    (hlog : ∀ w log, P w → P { w with log := log }) (hf : ∀ w, P w → P (f w)) :
    (T.run tool f).keeps P := by
  intro w hw
  have hw : P { w with log := tool :: w.log } := hlog w _ hw
  simp only
  split
  · exact hf _ hw
  · exact hw

theorem say_holding {current : NameFile → Option Text} (text : World D → Text) :
    (say text : Script D).keeps (Holding names current domain) :=
  fun _ hw => ⟨hw.current, hw.old, hw.domain⟩

theorem run_holding {current : NameFile → Option Text} {tool : Tool} {f : World D → World D}
    (hf : ∀ w, Holding names current domain w → Holding names current domain (f w)) :
    (T.run tool f).keeps (Holding names current domain) :=
  run_kept (fun _ _ hw => ⟨hw.current, hw.old, hw.domain⟩) hf

theorem tool_holding {current : NameFile → Option Text} {tool : Tool} :
    (T.run tool id).keeps (Holding names current domain) :=
  run_holding fun _ hw => hw

/-- A tool that works. -/
theorem run_works {R : World D → Prop} {tool : Tool} {f : World D → World D}
    (hok : T.fails tool = 0) (hf : ∀ w, P w → R (f { w with log := tool :: w.log })) :
    Triple false P (T.run tool f) (onStatus (fun _ => R) Q) :=
  Triple.tool (fun _ w hw => hf w hw) fun hne => (hne hok).elim

/-! ### The checks -/

/-- What a command needs to get to the files. -/
def Passing (T : Tools D) (domain : Text) : Prop := isValidDomain domain = true ∧ T.publicIp ≠ []

theorem getPublicIp_stops (hQ : Stops names Q) (hip : T.publicIp = []) :
    Triple false (Untouched names) (.call T.getPublicIp) (onStatus (fun _ _ => False) Q) := by
  apply Triple.call
  refine Triple.seq (R := fun _ => False) ?_ fun _ h => h.elim
  refine Triple.ite (R := Untouched names) (S := fun _ => False) (fun w hw => ?_)
    (refuse_stops hQ.onStatus.returned.onStatus _) fun _ h => h.elim
  simpa [Cmd.eval, Cmd.test, Cmd.settle, onStatus, hip] using hw

/-- The three checks that both commands make first. -/
theorem checks_refuse (hQ : Stops names Q) (hpass : ¬ Passing T domain)
    (usage invalid : List (World D → Text)) (c : Script D) :
    Triple false (Untouched names)
      (.seq (.or (.test fun _ => domain ≠ []) (refuse usage)) <|
        .seq (.ite (.not (.test fun _ => isValidDomain domain)) (refuse invalid) .nop) <|
          .seq (.call T.getPublicIp) c) (onStatus (fun _ _ => False) Q) := by
  have hsay : ∀ text, (say text : Script D).keeps (Untouched names) := fun _ _ hw => hw
  have hgo : ∀ {c : Script D}, c.fatal false false → c.keeps (Untouched names) →
      Triple false (Untouched names) c
        (onStatus (fun _ => Untouched names) (onStatus (fun _ _ => False) Q)) :=
    fun hf hk => Triple.of_fatal hf hk hQ
  refine Triple.seq (hgo ⟨trivial, refuse_fatal _⟩ ⟨Cmd.test_keeps _, refuse_kept hsay _⟩) ?_
  by_cases hvalid : isValidDomain domain = true
  · have hip : T.publicIp = [] := by
      by_contra hip
      exact hpass ⟨hvalid, hip⟩
    refine Triple.seq (hgo ⟨trivial, refuse_fatal _, trivial⟩
      ⟨fun _ hw => hw, refuse_kept hsay _, Cmd.nop_keeps⟩) ?_
    exact Triple.seq (R := fun _ => False) (getPublicIp_stops hQ.onStatus hip) fun _ h => h.elim
  · refine Triple.seq (R := fun _ => False) ?_ fun _ h => h.elim
    refine Triple.ite (R := Untouched names) (S := fun _ => False) (fun w hw => ?_)
      (refuse_stops hQ.onStatus.onStatus _) fun _ h => h.elim
    simpa [Cmd.eval, Cmd.test, Cmd.settle, onStatus, hvalid] using hw

/-! ### The names, and the way back -/

theorem setName_works {current : NameFile → Option Text} {tool : Tool} {f : NameFile}
    {text : World D → Option Text} {t : Option Text} (hok : T.fails tool = 0)
    (htext : ∀ w : World D, w.domain = domain → text w = t) :
    Triple false (Holding names current domain) (T.run tool fun w => w.setName f (text w))
      (onStatus (fun _ => Holding names (Function.update current f t) domain) Q) := by
  refine run_works hok fun w hw => ⟨?_, hw.old, hw.domain⟩
  have htext := htext { w with log := tool :: w.log } hw.domain
  show Function.update w.files.names f (text { w with log := tool :: w.log }) = _
  rw [hw.current, htext]

theorem writeNames_works (hwrites : T.WritesNames) :
    Triple false (Holding names names domain) (.block T.writeNames)
      (onStatus (fun _ => Holding names (namesOf domain) domain) Q) := by
  have hmkdir : ∀ {Q : Outcome → World D → Prop},
      Triple false (Holding names names domain) (T.run .mkdirConf id)
        (onStatus (fun _ => Holding names names domain) Q) :=
    run_works hwrites.mkdir fun w hw => ⟨hw.current, hw.old, hw.domain⟩
  have hecho : ∀ w : World D, w.domain = domain → some (echo w.domain) = some (echo domain) :=
    fun w hw => congrArg (fun d => some (echo d)) hw
  have hall : Function.update (Function.update (Function.update names .confDomain
      (some (echo domain))) .dnsdistDomain (some (echo domain))) .certBasename none =
      namesOf domain := by
    funext f
    cases f <;> rfl
  rw [← hall]
  exact Triple.seq hmkdir <| Triple.seq (setName_works (hwrites.write _) hecho) <|
    Triple.seq (setName_works (hwrites.write _) hecho)
      (setName_works (hwrites.back .certBasename).2 fun _ _ => rfl)

/-- The way back ends with the names of before, if these are one line each. -/
theorem rollback_untouched (hback : T.WritesBack)
    (hline : ∀ f, restored (remembered (names f)) = names f) {current : NameFile → Option Text}
    {c : Script D} (hc : Triple false (Untouched names) c Q) :
    Triple false (Holding names current domain) (.block (T.rollback ++ [c])) Q := by
  intro w hw
  refine rollback_spec (k := w.core) hback (fun w' hw' => hc w' ?_) w rfl
  have hnames : w'.files.names = fun f => restored (w.old f) :=
    congrArg (fun k : Core D => k.files.names) hw'
  rw [Untouched, hnames, hw.old]
  exact funext hline

/-- dnsdist takes the domain up, or the command fails with the names of before. -/
theorem reload_works (hQ : Stops names Q) (hback : T.WritesBack)
    (hline : ∀ f, restored (remembered (names f)) = names f) {current : NameFile → Option Text} :
    Triple false (Holding names current domain) T.reload
      (onStatus (fun _ => Holding names current domain) Q) := by
  have hrun : ∀ {tool : Tool} {Q : Outcome → World D → Prop},
      Triple true (Holding names current domain) (.not (T.run tool id))
        (onStatus (fun _ => Holding names current domain) Q) :=
    Triple.not_ignored (Triple.of_quiet (.inl rfl) tool_holding)
  have hend : ∀ texts, Triple false (Untouched names) (refuse texts)
      (onStatus (fun _ => Holding names current domain) Q) :=
    fun texts => refuse_stops hQ.onStatus texts
  have hagain : Triple false (Untouched names) (.or (T.run .updateAgain id) .nop)
      (onStatus (fun _ => Untouched names) (onStatus (fun _ => Holding names current domain) Q)) :=
    Triple.of_quiet ⟨.inl rfl, Cmd.nop_quiet ..⟩
      ⟨run_kept (fun _ _ hw => hw) fun _ hw => hw, Cmd.nop_keeps⟩
  refine Triple.branch (Triple.of_quiet (Cmd.test_quiet ..) (Cmd.test_keeps _)) ?_ ?_
  · exact Triple.branch hrun (rollback_untouched hback hline (Triple.seq hagain (hend _)))
      fun w hw => hw
  · exact Triple.branch hrun (rollback_untouched hback hline (hend _)) fun w hw => hw

/-! ### The profile, and the end -/

/-- A body that always goes on, called where `-e` is ignored. -/
theorem call_ignored {body : Script D}
    (h : Triple true P body (onStatus (fun _ => P) fun _ _ => False)) :
    Triple true P (.call body) (onStatus (fun _ => P) Q) := by
  refine Triple.call (h.mono fun o w ho => ?_)
  cases o with
  | status n => simpa [Cmd.returned, Cmd.settle, onStatus] using ho
  | _ => exact ho.elim

theorem getPublicIp_works (hsay : ∀ text, (say text : Script D).keeps P) (hip : T.publicIp ≠ []) :
    Triple true P (.call T.getPublicIp) (onStatus (fun _ => P) Q) := by
  refine call_ignored (Triple.seq (R := P) ?_ (Triple.of_quiet (.inl rfl) (hsay _)))
  refine Triple.ite (R := fun _ => False) (S := P) (fun w hw => ?_) (fun _ h => h.elim) fun _ hw => hw
  simpa [Cmd.eval, Cmd.test, Cmd.settle, onStatus, hip] using hw

/-- With the domain in the files and an address the profile cannot end the command. -/
theorem profile_works (hpass : Passing T domain) :
    Triple true (Holding names (namesOf domain) domain) (.call T.regenerateIosProfile)
      (onStatus (fun _ => Holding names (namesOf domain) domain) Q) := by
  refine call_ignored (Triple.seq (R := Holding names (namesOf domain) domain) (fun w hw => ?_)
    (Triple.seq (R := Holding names (namesOf domain) domain) ?_
      (Triple.seq (R := Holding names (namesOf domain) domain) ?_ ?_)))
  -- the domain is read back from the file
  · refine ⟨hw.current, hw.old, ?_⟩
    simp only [Cmd.assign, Cmd.eval, hw.current, namesOf]
    exact remembered_echo hpass.1
  · exact Triple.branch (Triple.of_quiet (Cmd.test_quiet ..) (Cmd.test_keeps _)) (fun _ hw => hw)
      (getPublicIp_works say_holding hpass.2)
  · refine Triple.ite (R := fun _ => False) (S := Holding names (namesOf domain) domain)
      (fun w hw => ?_) (fun _ h => h.elim) fun _ hw => hw
    have hne : w.domain ≠ [] := by
      rw [hw.domain]
      exact ne_nil_of_isValidDomain hpass.1
    simpa [Cmd.eval, Cmd.test, Cmd.settle, onStatus, hne] using hw
  · exact Triple.of_quiet (.inl rfl) tool_holding

/-- A success, with a message behind it. -/
theorem say_ends (hpass : Passing T domain) (text : World D → Text) :
    Triple false (Holding names (namesOf domain) domain) (say text) (Ended names domain) :=
  Triple.simple fun _ hw => ⟨hpass.1, hw.current⟩

/-! ### Both commands -/

theorem getPublicIp_fatal : (Cmd.call T.getPublicIp).fatal false false :=
  ⟨⟨trivial, refuse_fatal _, trivial⟩, trivial⟩

theorem getPublicIp_kept (hsay : ∀ text, (say text : Script D).keeps P) :
    (Cmd.call T.getPublicIp).keeps P :=
  ⟨⟨fun _ hw => hw, refuse_kept hsay _, Cmd.nop_keeps⟩, hsay _⟩

theorem remember_spec : Triple false (Untouched names)
    (.assign fun w => { w with
      old := fun f => remembered (w.files.names f), domain := domain } : Script D)
    (onStatus (fun _ => Holding names names domain) Q) := by
  rintro w rfl
  exact ⟨rfl, rfl, rfl⟩

/-- From the names to the end. -/
theorem named_ends (hpass : Passing T domain) (hwrites : T.WritesNames)
    (hline : ∀ f, restored (remembered (names f)) = names f) {text : World D → Text}
    {bye : Script D}
    (hbye : Triple false (Holding names (namesOf domain) domain) bye (Ended names domain)) :
    Triple false (Holding names names domain)
      (.seq (.block T.writeNames) <| .seq T.reload <|
        .seq (.or (.call T.regenerateIosProfile) (say text)) bye) (Ended names domain) := by
  have hprofile : Triple false (Holding names (namesOf domain) domain)
      (.or (.call T.regenerateIosProfile) (say text))
      (onStatus (fun _ => Holding names (namesOf domain) domain) (Ended names domain)) :=
    Triple.or_passes (fun _ _ => Iff.rfl) (profile_works hpass)
      (Triple.of_quiet (Cmd.assign_quiet ..) (say_holding text))
  exact Triple.seq (writeNames_works hwrites) <|
    Triple.seq (reload_works stops_ended hwrites.back hline) <| Triple.seq hprofile hbye

theorem forceSetDotDomain_ended (hwrites : T.WritesNames)
    (hline : ∀ f, restored (remembered (names f)) = names f) :
    Triple false (Untouched names) (T.forceSetDotDomain domain) (Ended names domain) := by
  have hsay : ∀ text, (say text : Script D).keeps (Untouched names) := fun _ _ hw => hw
  by_cases hpass : Passing T domain
  · have hchecks : Triple false (Untouched names) (.block (T.forceChecks domain))
        (onStatus (fun _ => Untouched names) (Ended names domain)) := by
      refine Triple.of_fatal ?_ ?_ stops_ended
      · exact ⟨⟨trivial, refuse_fatal _⟩, ⟨trivial, refuse_fatal _, trivial⟩, getPublicIp_fatal,
          trivial, trivial, trivial⟩
      · exact ⟨⟨Cmd.test_keeps _, refuse_kept hsay _⟩,
          ⟨fun _ hw => hw, refuse_kept hsay _, Cmd.nop_keeps⟩, getPublicIp_kept hsay,
          fun _ hw => hw, hsay _, Cmd.nop_keeps⟩
    refine Triple.seq hchecks <| Triple.seq remember_spec <| named_ends hpass hwrites hline ?_
    exact Triple.seq (Triple.of_quiet (Cmd.assign_quiet ..) (say_holding _)) (say_ends hpass _)
  · exact Triple.seq (R := fun _ => False) (checks_refuse stops_ended hpass _ _ _) fun _ h => h.elim

theorem runCertbot_fatal : (Cmd.call T.runCertbot).fatal false false :=
  ⟨trivial, ⟨trivial, rfl, trivial⟩, trivial,
    ⟨trivial, ⟨trivial, trivial, trivial⟩, trivial, trivial, trivial⟩, rfl⟩

theorem runCertbot_holding : (Cmd.call T.runCertbot).keeps (Holding names names domain) := by
  have hcertbot : ∀ tool, (T.certbot tool).keeps (Holding names names domain) :=
    fun tool w hw => ⟨hw.current, hw.old, hw.domain⟩
  exact ⟨hcertbot _, ⟨Cmd.test_keeps _, trivial, Cmd.nop_keeps⟩, Cmd.test_keeps _,
    ⟨say_holding _, ⟨tool_holding, tool_holding, Cmd.nop_keeps⟩, say_holding _, hcertbot _,
      fun _ hw => hw⟩, trivial⟩

theorem copyCerts_holding : (Cmd.block (T.copyCerts ++
    [say fun _ => lit "Certificates copied to /etc/dnsdist/certs/"])).keeps
    (Holding names names domain) := by
  refine ⟨tool_holding, run_holding ?_, run_holding ?_, tool_holding, tool_holding, say_holding _⟩
  · exact fun w hw => ⟨hw.current, hw.old, hw.domain⟩
  · exact fun w hw => ⟨hw.current, hw.old, hw.domain⟩

/-- The certificate never reaches the names. -/
theorem installCert_holding (hQ : Stops names Q) : Triple false (Holding names names domain)
    (.call T.installCert) (onStatus (fun _ => Holding names names domain) Q) := by
  refine Triple.of_fatal ?_ ?_ fun n w hn hw => hQ n w hn hw.current
  · exact ⟨trivial, trivial, trivial, ⟨runCertbot_fatal, refuse_fatal _, trivial⟩, trivial,
      ⟨trivial, ⟨trivial, trivial, trivial, trivial, trivial, trivial⟩, trivial⟩, trivial,
      trivial, ⟨trivial, trivial, trivial⟩, trivial, trivial⟩
  · exact ⟨tool_holding, fun w hw => ⟨hw.current, hw.old, hw.domain⟩, say_holding _,
      ⟨runCertbot_holding, refuse_kept say_holding _, Cmd.nop_keeps⟩, say_holding _,
      ⟨Cmd.test_keeps _, copyCerts_holding, say_holding _⟩, tool_holding, Cmd.test_keeps _,
      ⟨tool_holding, tool_holding, say_holding _⟩, say_holding _, say_holding _⟩

theorem setDotDomain_ended (hwrites : T.WritesNames)
    (hline : ∀ f, restored (remembered (names f)) = names f) :
    Triple false (Untouched names) (T.setDotDomain domain) (Ended names domain) := by
  have hsay : ∀ text, (say text : Script D).keeps (Untouched names) := fun _ _ hw => hw
  by_cases hpass : Passing T domain
  · have hchecks : Triple false (Untouched names) (.block (T.checks domain))
        (onStatus (fun _ => Untouched names) (Ended names domain)) := by
      refine Triple.of_fatal ?_ ?_ stops_ended
      · exact ⟨⟨trivial, refuse_fatal _⟩, ⟨trivial, refuse_fatal _, trivial⟩, getPublicIp_fatal,
          trivial, trivial, trivial, trivial, refuse_fatal _, trivial⟩
      · exact ⟨⟨Cmd.test_keeps _, refuse_kept hsay _⟩,
          ⟨fun _ hw => hw, refuse_kept hsay _, Cmd.nop_keeps⟩, getPublicIp_kept hsay, hsay _, hsay _,
          hsay _, fun _ hw => hw, refuse_kept hsay _, Cmd.nop_keeps⟩
    exact Triple.seq hchecks <| Triple.seq remember_spec <|
      Triple.seq (installCert_holding stops_ended) <| named_ends hpass hwrites hline (say_ends hpass _)
  · exact Triple.seq (R := fun _ => False) (checks_refuse stops_ended hpass _ _ _) fun _ h => h.elim

/-! ### The certificate that is served -/

/-- Certificate, key and the issued certificates are those of `host`. -/
structure Served (host : Host D) (w : World D) : Prop where
  fullchain : w.files.fullchain = host.files.fullchain
  privkey : w.files.privkey = host.files.privkey
  live : w.live = host.live

/-- The forced command leaves the certificate alone. -/
theorem forceSetDotDomain_served (host : Host D) :
    (T.forceSetDotDomain domain).keeps (Served host) := by
  have hsay : ∀ text, (say text : Script D).keeps (Served host) :=
    fun text w hw => ⟨hw.fullchain, hw.privkey, hw.live⟩
  have hrun : ∀ {tool : Tool} {f : World D → World D}, (∀ w, Served host w → Served host (f w)) →
      (T.run tool f).keeps (Served host) :=
    run_kept fun _ _ hw => ⟨hw.fullchain, hw.privkey, hw.live⟩
  have htool : ∀ {tool : Tool}, (T.run tool id).keeps (Served host) := hrun fun _ hw => hw
  have hset : ∀ {tool : Tool} (f : NameFile) (text : World D → Option Text),
      (T.run tool fun w => w.setName f (text w)).keeps (Served host) :=
    fun f text => hrun fun w hw => ⟨hw.fullchain, hw.privkey, hw.live⟩
  have hrestore : ∀ f, (T.restoreOrRemoveFile f).keeps (Served host) := by
    intro f
    refine ⟨Cmd.test_keeps _, ⟨?_, ⟨hsay _, trivial⟩, Cmd.nop_keeps⟩, hset f _⟩
    exact hset f fun w => some (w.old f ++ ['\n'])
  have hchecks : (Cmd.block (T.forceChecks domain)).keeps (Served host) :=
    ⟨⟨Cmd.test_keeps _, refuse_kept hsay _⟩, ⟨fun _ hw => hw, refuse_kept hsay _, Cmd.nop_keeps⟩,
      getPublicIp_kept hsay, fun _ hw => hw, hsay _, Cmd.nop_keeps⟩
  have hreload : T.reload.keeps (Served host) :=
    ⟨Cmd.test_keeps _,
      ⟨htool, ⟨hrestore _, hrestore _, hrestore _, ⟨htool, Cmd.nop_keeps⟩, refuse_kept hsay _⟩,
        Cmd.nop_keeps⟩,
      htool, ⟨hrestore _, hrestore _, hrestore _, refuse_kept hsay _⟩, Cmd.nop_keeps⟩
  have hprofile : T.regenerateIosProfile.keeps (Served host) :=
    ⟨fun w hw => ⟨hw.fullchain, hw.privkey, hw.live⟩,
      ⟨Cmd.test_keeps _, Cmd.nop_keeps, getPublicIp_kept hsay⟩,
      ⟨Cmd.test_keeps _, refuse_kept hsay _, Cmd.nop_keeps⟩, htool⟩
  exact ⟨hchecks, fun w hw => ⟨hw.fullchain, hw.privkey, hw.live⟩,
    ⟨htool, hset _ _, hset _ _, hset _ _⟩, hreload, ⟨hprofile, hsay _⟩, hsay _, hsay _⟩

end Command

/-! ## Any number of commands -/

section Runs

variable {c : Change D} {host : Host D}

theorem Change.run_ended (hwrites : c.tools.WritesNames) (hline : OneLineEach host.files) :
    if (c.run host).1 = 0 then
      isValidDomain c.domain = true ∧ (c.run host).2.files.names = namesOf c.domain
    else (c.run host).2.files.names = host.files.names := by
  have hback : ∀ f, restored (remembered (host.files.names f)) = host.files.names f :=
    fun f => (restored_remembered_iff _).mpr (hline f)
  have hend : Triple false (Untouched host.files.names)
      (if c.forced then c.tools.forceSetDotDomain c.domain else c.tools.setDotDomain c.domain)
      (Ended host.files.names c.domain) := by
    split
    · exact forceSetDotDomain_ended hwrites hback
    · exact setDotDomain_ended hwrites hback
  have hrun := hend (World.start host.files host.live) rfl
  simp only [Change.run, Change.script, Cmd.eval, Cmd.exitStatus_returned]
  exact hrun

theorem Change.run_served (hforced : c.forced = true) :
    (c.run host).2.files.fullchain = host.files.fullchain ∧
      (c.run host).2.files.privkey = host.files.privkey := by
  have hkeeps : c.script.keeps (Served host) := by
    rw [Change.script, if_pos hforced]
    exact forceSetDotDomain_served host
  have hframe : Triple false (Served host) c.script fun _ => Served host := Triple.frame hkeeps
  have hserved := hframe (World.start host.files host.live) ⟨rfl, rfl, rfl⟩
  exact ⟨hserved.fullchain, hserved.privkey⟩

theorem oneLineEach_namesOf {files : Files D} {domain : Text} (h : isValidDomain domain = true)
    (hnames : files.names = namesOf domain) : OneLineEach files := by
  intro f text htext
  rw [hnames] at htext
  cases f with
  | certBasename => cases htext
  | _ =>
    obtain rfl := Option.some.inj htext
    exact oneLine_echo h

theorem namedBy_cons (names : NameFile → Option Text) (domain : Text) (domains : List Text) :
    namedBy names (domain :: domains) = namedBy (namesOf domain) domains := by
  rw [namedBy, namedBy, List.getLast?_cons]
  cases domains.getLast? <;> rfl

theorem names_runChanges {cs : List (Change D)} (hwrites : ∀ c ∈ cs, c.tools.WritesNames)
    (hline : OneLineEach host.files) :
    (runChanges cs host).2.files.names = namedBy host.files.names (runChanges cs host).1 := by
  induction cs generalizing host with
  | nil => rfl
  | cons c cs ih =>
    have hstep := Change.run_ended (hwrites c (List.mem_cons_self ..)) hline
    have ih := @ih (c.run host).2 fun c' hc' => hwrites c' (List.mem_cons_of_mem _ hc')
    by_cases hok : (c.run host).1 = 0
    · rw [if_pos hok] at hstep
      have hrest := ih (oneLineEach_namesOf hstep.1 hstep.2)
      simp only [runChanges, if_pos hok, namedBy_cons, hrest, hstep.2]
    · rw [if_neg hok] at hstep
      have hrest := ih fun f text htext => hline f text (hstep ▸ htext)
      simp only [runChanges, if_neg hok, hrest, hstep]

theorem served_runChanges {cs : List (Change D)} (hforced : ∀ c ∈ cs, c.forced = true) :
    (runChanges cs host).2.files.fullchain = host.files.fullchain ∧
      (runChanges cs host).2.files.privkey = host.files.privkey := by
  induction cs generalizing host with
  | nil => exact ⟨rfl, rfl⟩
  | cons c cs ih =>
    obtain ⟨hcert, hkey⟩ := @Change.run_served D c host (hforced c (List.mem_cons_self ..))
    have hrest := @ih (c.run host).2 fun c' hc' => hforced c' (List.mem_cons_of_mem _ hc')
    exact ⟨hrest.1.trans hcert, hrest.2.trans hkey⟩

end Runs

/-- A host on which dnsdist starts. -/
def workingTools : Tools Text := { failingTools with fails := fun _ => 0 }

/-- `b.example` is taken up, `c.example` is not; the certificate is that of `a.example` throughout. -/
def twoForced : List (Change Text) :=
  [⟨workingTools, lit "b.example", true⟩, ⟨failingTools, lit "c.example", true⟩]

end ProxyGateway.Dns.DotDomain
