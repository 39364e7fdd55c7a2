/-
# ProxyGateway.Smart.Rename — `rename_policy`, and the rules that keep the old name

A group is renamed by two `awk` programs: one rewrites the key of its line in the policy map, the other
the last field of the rules in `rules.conf`.  The router asks for more: it reads the built-in rules too,
it takes the third field for the policy where more follow, and it cuts comments off.  Such a rule keeps
the old name, and the map has lost it.

So a rename preserves the routing exactly where each of the two names that some rule bears afterwards
leads, under the rewritten map, to what the old name led to (`rename_preserves_iff`).  For a rule that
keeps the old name this means that the group was mapped to the exit of its own name.  The built-in rules
that are installed name a group, and renaming it fails (`builtinRules_keep_name`).

The theorem asks of the new name that it can be written on both sides (`PlainRename`).  The command asks
less: one character outside ASCII, and it takes commas, comments and assignments too.
-/
import ProxyGateway.Smart.Lifecycle

namespace ProxyGateway.Smart

open ProxyGateway.Lang ProxyGateway.Logic

/-! ## The rename -/

section Define

variable (S : Setup) (E : Exits) (defaults : Text)

/-- **`build_smart_candidate`**, over any built-in rules. -/
def Setup.smartConfig (policy text : Text) : Option MihomoConfig :=
  if text = [] then none
  else match S.host.mihomoConfig E (loadPolicyMap policy) (defaults ++ text) with
    | .ok cfg => if S.mihomo.accepts cfg then some cfg else none
    | .error _ => none

/-- The policy map after the first `awk`. -/
def Setup.renamedMap (old new map : Text) : Text := fileOf ((shLines map).map (S.renameKey old new))

/-- `rules.conf` after the second `awk`. -/
def Setup.renamedRules (old new rules : Text) : Text :=
  fileOf ((shLines rules).map (S.renameRule old new))

/-- The configuration that `rename_policy` rebuilds; none where it fails. -/
def Setup.renameConfig (old new policy rules : Text) : Option MihomoConfig :=
  if old ≠ [] ∧ new ≠ [] ∧ validCategory new then
    S.smartConfig E defaults (S.renamedMap old new policy) (S.renamedRules old new rules)
  else none

/-- Without a failing tool, `rename_policy` commits exactly what it can rebuild. -/
theorem renamePolicy_eq {st : State} {old new policy rules : Text} (hrules : st.rules = some rules)
    (hpolicy : st.policy = some policy) :
    S.renamePolicy st old new true =
      match S.renameConfig st.exits S.defaults.text old new policy rules with
      | some cfg => ⟨st.exits.install smart (smartLoads cfg), some (S.renamedRules old new rules),
          some (S.renamedMap old new policy)⟩
      | none => st := by
  unfold Setup.renamePolicy Setup.renameConfig
  split
  · simp only [hrules, hpolicy, Option.map_some, Setup.regenSmart]
    show (match S.smartConfig st.exits S.defaults.text (S.renamedMap old new policy)
        (S.renamedRules old new rules) with | some cfg => _ | none => _ : Option State).getD st = _
    cases S.smartConfig st.exits S.defaults.text (S.renamedMap old new policy)
      (S.renamedRules old new rules) <;> rfl
  · rfl

/-- **`RenamePreserves`** — the rename succeeds, and every rule has the matcher and the target it had. -/
def Setup.RenamePreserves (old new policy rules : Text) (cfg : MihomoConfig) : Prop :=
  ∃ cfg', S.renameConfig E defaults old new policy rules = some cfg' ∧ cfg'.rules = cfg.rules

/-- Some rule bears the policy; a `FINAL` without one bears `DEFAULT_TARGET`. -/
def Setup.Bears (text policy : Text) : Prop :=
  policy ∈ (pyLines text).filterMap fun raw => (S.host.linePolicy raw).map strip

instance (text policy : Text) : Decidable (S.Bears text policy) :=
  inferInstanceAs (Decidable (_ ∈ _))

/-- **`FreshGroup`** — a new name that `rename_policy` takes and that means nothing yet. -/
structure Setup.FreshGroup (policy rules new : Text) : Prop where
  nonempty : new ≠ []
  accepted : validCategory new = true
  noRule : ¬ S.Bears (defaults ++ rules) new
  noKey : (loadPolicyMap policy).get new = none
  noExit : E.exitExists new = false
  noBuiltin : S.host.builtin new = none

/-- **`PlainRename`** — a new name that `awk` writes as it is, that a map and a rule can hold, and an old
name that `awk` finds nowhere but in front of an equals sign or behind a comma. -/
structure Setup.PlainRename (old new policy rules : Text) : Prop where
  verbatim : S.awkVar new = new
  name : PlainName new
  field : PlainField new
  mapHits : ∀ line ∈ shLines policy, S.shell.awkEq (before '=' line) old = true →
    before '=' line = old
  ruleHits : ∀ line ∈ shLines rules, S.shell.isRule line = true →
    S.shell.awkEq (lastField line) old = true → lastField line = old ∧ ',' ∈ line ∧ PlainField old

end Define

/-! ## The lines of the two files -/

section Lines

theorem fileOf_splitOn (t : Text) : fileOf (t.splitOn '\n') = t ++ ['\n'] := by
  induction t with
  | nil => rfl
  | cons c t ih =>
    rw [List.splitOn_cons_eq_if_modifyHead]
    split
    · next hc =>
      obtain rfl : c = '\n' := beq_iff_eq.mp hc
      show '\n' :: fileOf (t.splitOn '\n') = _
      rw [ih, List.cons_append]
    · obtain ⟨first, rest, hsplit⟩ := List.exists_cons_of_ne_nil (List.splitOn_ne_nil '\n' t)
      rw [hsplit] at ih ⊢
      show c :: fileOf (first :: rest) = _
      rw [ih, List.cons_append]

/-- The lines that the shell reads are the file, but for the end of the last one. -/
theorem fileOf_shLines (t : Text) : fileOf (shLines t) = t ∨ fileOf (shLines t) = t ++ ['\n'] := by
  unfold shLines
  split
  · next hlast =>
    left
    obtain ⟨u, rfl⟩ : ∃ u, t = u ++ ['\n'] := ⟨_, (List.dropLast_append_getLast? _ hlast).symm⟩
    rw [List.splitOn_append_cons_self, List.splitOn_nil, List.dropLast_concat, fileOf_splitOn]
  · split
    · next hnil => exact .inl hnil.symm
    · exact .inr (fileOf_splitOn t)

theorem fileOf_cons_append (a line : Text) (lines : List Text) :
    a ++ fileOf (line :: lines) = a ++ (line ++ '\n' :: fileOf lines) := by
  simp [fileOf]

/-- An edit of lines that does no more than put `new` for a plain `old` behind the last comma. -/
def EndsRenamed (old new line line' : Text) : Prop :=
  line' = line ∨ PlainField old ∧ ∃ w, line = w ++ ',' :: old ∧ line' = w ++ ',' :: new

/-- The router sees the same edit on its own lines. -/
theorem pyLines_endsRenamed {old new : Text} (hold : SingleLine old) (hnew : SingleLine new)
    {edit : Text → Text} {lines : List Text}
    (hlines : ∀ line ∈ lines, EndsRenamed old new line (edit line)) (a : Text) :
    List.Forall₂ (EndsRenamed old new) (pyLines (a ++ fileOf lines))
      (pyLines (a ++ fileOf (lines.map edit))) := by
  have hsame : ∀ l : List Text, List.Forall₂ (EndsRenamed old new) l l := fun l =>
    List.forall₂_same.mpr fun _ _ => .inl rfl
  -- `a` is what stands before the remaining lines; the router may split it where the shell does not
  induction lines generalizing a with
  | nil => exact hsame _
  | cons line lines ih =>
    have hrest := ih (fun l hl => hlines l (List.mem_cons_of_mem _ hl)) []
    rw [List.nil_append, List.nil_append] at hrest
    rw [List.map_cons, fileOf_cons_append, fileOf_cons_append]
    rcases hlines line (List.mem_cons_self ..) with heq | ⟨hplain, w, hline, hedit⟩
    · obtain ⟨before, hbefore⟩ := pyLines_append_newline (a ++ line)
      rw [heq, ← List.append_assoc, ← List.append_assoc, hbefore, hbefore]
      exact List.rel_append (hsame _) hrest
    · have hcomma : ∀ t, SingleLine t → SingleLine (',' :: t) := fun t ht =>
        singleLine_append (a := []) ⟨List.not_mem_nil, List.not_mem_nil⟩ ht (by decide) (by decide)
      obtain ⟨before, last, hbefore⟩ := pyLines_append_tail (a ++ w)
      have hsplit : ∀ t b : Text, a ++ (w ++ ',' :: t ++ '\n' :: b) =
          a ++ w ++ (',' :: t ++ '\n' :: b) := by simp
      rw [hedit, hline, hsplit, hsplit, hbefore _ (hcomma old hold) (List.cons_ne_nil _ _),
        hbefore _ (hcomma new hnew) (List.cons_ne_nil _ _)]
      exact List.rel_append (hsame _) (.cons (.inr ⟨hplain, last, rfl, rfl⟩) hrest)

variable {S : Setup} {E : Exits} {defaults old new policy rules : Text}

theorem exists_last_comma {line : Text} (h : ',' ∈ line) :
    ∃ w o, line = w ++ ',' :: o ∧ ',' ∉ o := by
  induction line with
  | nil => nomatch h
  | cons c line ih =>
    by_cases hmem : ',' ∈ line
    · obtain ⟨w, o, rfl, ho⟩ := ih hmem
      exact ⟨c :: w, o, rfl, ho⟩
    · obtain rfl : ',' = c := (List.mem_cons.mp h).resolve_right hmem
      exact ⟨[], line, rfl, hmem⟩

/-- The second `awk` is such an edit. -/
theorem renameRule_ends (hplain : S.PlainRename old new policy rules) {line : Text}
    (hline : line ∈ shLines rules) : EndsRenamed old new line (S.renameRule old new line) := by
  unfold Setup.renameRule
  split
  · next hhit =>
    obtain ⟨hrule, heq⟩ := Bool.and_eq_true_iff.mp hhit
    obtain ⟨hlast, hcomma, hfield⟩ := hplain.ruleHits line hline hrule heq
    obtain ⟨w, o, rfl, ho⟩ := exists_last_comma hcomma
    have hsplit : ∀ t : Text, ',' ∉ t → (w ++ ',' :: t).splitOn ',' = w.splitOn ',' ++ [t] := by
      intro t ht
      rw [List.splitOn_append_cons_self, List.splitOn_eq_singleton ht]
    obtain rfl : o = old := by
      rw [lastField, hsplit o ho, List.getLast?_append_of_ne_nil] at hlast
      · simpa using hlast
      · simp
    refine .inr ⟨hfield, w, rfl, ?_⟩
    rw [hsplit o ho, List.dropLast_concat, hplain.verbatim, ← hsplit new hplain.field.2.2,
      List.intercalate_splitOn]
  · exact .inl rfl

end Lines

/-! ## One line before and after -/

section Line

/-- A text as the last field of a line: either a comment hides it, or it is the last field that the
router reads. -/
theorem fields_lastField (u : Text) :
    (∃ t, ∀ o, PlainField o → strip o = o → ruleText (u ++ ',' :: o) = t) ∨
      ∃ head rest, ∀ o, PlainField o → strip o = o →
        ruleText (u ++ ',' :: o) ≠ [] ∧ fields (ruleText (u ++ ',' :: o)) = head :: (rest ++ [o]) := by
  -- a comment in `u` hides the field; `#` is looked for first
  by_cases hhash : '#' ∈ u
  · refine .inl ⟨strip (before ';' (before '#' u)), fun o _ _ => ?_⟩
    rw [ruleText, before_append_of_mem hhash]
  have hcut : ∀ o, PlainField o → before '#' (u ++ ',' :: o) = u ++ ',' :: o := by
    intro o ho
    exact before_of_not_mem (by simp [hhash, ho.1])
  by_cases hsemi : ';' ∈ u
  · refine .inl ⟨strip (before ';' u), fun o ho _ => ?_⟩
    rw [ruleText, hcut o ho, before_append_of_mem hsemi]
  · right
    have hline : ∀ o, PlainField o → strip o = o →
        ruleText (u ++ ',' :: o) = u.dropWhile isSpace ++ ',' :: o := by
      intro o ho hstrip
      have hend := rdropWhile_strip (fun _ h => h) o
      rw [hstrip] at hend
      rw [ruleText, hcut o ho, before_of_not_mem (by simp [hsemi, ho.2.1]),
        strip_append_cons (by decide), hend]
    obtain ⟨head, rest, hsplit⟩ :=
      List.exists_cons_of_ne_nil (List.splitOn_ne_nil ',' (u.dropWhile isSpace))
    refine ⟨strip head, rest.map strip, fun o ho hstrip => ?_⟩
    rw [hline o ho hstrip]
    refine ⟨by simp, ?_⟩
    rw [fields, List.splitOn_append_cons_self, List.splitOn_eq_singleton ho.2.2, hsplit]
    simp [hstrip]

/-- The line with another policy. -/
def RuleLine.mapPolicy (f : Text → Text) : RuleLine → RuleLine
  | .final policy => .final (policy.map f)
  | .rule head value policy => .rule head value (f policy)
  | line => line

theorem RuleLine.mapPolicy_id (line : RuleLine) : line.mapPolicy id = line := by
  cases line with
  | final policy => simp [RuleLine.mapPolicy]
  | _ => rfl

/-- The policy before the rename. -/
def oldName (old new policy : Text) : Text := if strip policy = new then old else policy

variable {H : Host} {E : Exits} {m m' : PolicyMap} {old new raw raw' : Text}

/-- Where the last field is the policy, the rename changes the policy; elsewhere it changes nothing. -/
theorem parseLine_endsRenamed (hends : EndsRenamed old new raw raw') (hsold : strip old = old)
    (hnew : PlainField new) (hsnew : strip new = new)
    (hshort : ∀ line, H.parseLine raw ≠ .short line) :
    H.parseLine raw' = H.parseLine raw ∨
      (∃ head value, H.parseLine raw = .rule head value old ∧
        H.parseLine raw' = .rule head value new) ∨
      (H.parseLine raw = .final (some old) ∧ H.parseLine raw' = .final (some new)) := by
  rcases hends with heq | ⟨hplain, u, rfl, rfl⟩
  · exact .inl (by rw [heq])
  have hparse : ∀ r r' : Text, ruleText r = ruleText r' → H.parseLine r = H.parseLine r' :=
    fun r r' h => by unfold Host.parseLine; rw [h]
  rcases fields_lastField u with ⟨t, ht⟩ | ⟨head, rest, hfields⟩
  · exact .inl (hparse _ _ ((ht new hnew hsnew).trans (ht old hplain hsold).symm))
  obtain ⟨hne, hfields_old⟩ := hfields old hplain hsold
  obtain ⟨hne', hfields_new⟩ := hfields new hnew hsnew
  by_cases hfinal : H.ruleType head = lit "FINAL"
  · have hread : ∀ r o : Text, ruleText r ≠ [] → fields (ruleText r) = head :: (rest ++ [o]) →
        H.parseLine r = .final (rest ++ [o]).head? := fun r o hr hf =>
      Host.parseLine_eq_final_iff.mpr ⟨hr, head, _, hf, hfinal, rfl⟩
    rw [hread _ _ hne hfields_old, hread _ _ hne' hfields_new]
    cases rest with
    | nil => exact .inr (.inr ⟨rfl, rfl⟩)
    | cons p rest => exact .inl rfl
  · -- the policy is the third field, so it is the last one only where there are three
    match rest, hfields_old, hfields_new with
    | [], hfields_old, _ =>
      refine absurd ?_ (hshort (ruleText (u ++ ',' :: old)))
      unfold Host.parseLine
      simp [hne, hfields_old, hfinal]
    | [value], hfields_old, hfields_new =>
      exact .inr (.inl ⟨head, value, Host.parseLine_eq_rule_iff.mpr ⟨hfinal, [], hfields_old⟩,
        Host.parseLine_eq_rule_iff.mpr ⟨hfinal, [], hfields_new⟩⟩)
    | value :: policy :: rest, hfields_old, hfields_new =>
      left
      rw [Host.parseLine_eq_rule_iff.mpr ⟨hfinal, rest ++ [old], hfields_old⟩]
      exact Host.parseLine_eq_rule_iff.mpr ⟨hfinal, rest ++ [new], hfields_new⟩

/-- What is known of a line and its renamed copy, for a line that builds and does not bear the new
name. -/
structure RenamedLine (H : Host) (old new raw raw' : Text) : Prop where
  parse : H.parseLine raw = (H.parseLine raw').mapPolicy (oldName old new)
  default : H.parseLine raw' = .final none → oldName old new H.defaultTarget = H.defaultTarget

/-- A rule that builds bears its policy. -/
theorem linePolicy_of_rule {ln : Nat} {out : Option Emitted}
    (hbuild : H.emitLine E m ln raw = .ok out) {head value policy : Text}
    (hline : H.parseLine raw = .rule head value policy) : H.linePolicy raw = some policy := by
  have hcond : (H.cond? head value).isSome = true := by
    unfold Host.emitLine at hbuild
    unfold Host.cond?
    cases htype : mihomoType (H.ruleType head) with
    | none => simp [hline, htype] at hbuild
    | some t => cases t <;> rfl
  obtain ⟨k, hk⟩ := Option.isSome_iff_exists.mp hcond
  simp [Host.linePolicy, hline, hk]

/-- A line whose policy is not renamed. -/
theorem mapPolicy_eq_self {f : Text → Text} {ln : Nat} {out : Option Emitted}
    (hbuild : H.emitLine E m ln raw = .ok out)
    (hkeep : ∀ p, H.linePolicy raw = some p → f p = p) :
    (H.parseLine raw).mapPolicy f = H.parseLine raw := by
  cases hline : H.parseLine raw with
  | blank => rfl
  | short line => rfl
  | final policy =>
    cases policy with
    | none => rfl
    | some p =>
      have hp : f p = p := hkeep p (by simp [Host.linePolicy, hline])
      simp [RuleLine.mapPolicy, hp]
  | rule head value policy =>
    have hp : f policy = policy := hkeep policy (linePolicy_of_rule hbuild hline)
    simp [RuleLine.mapPolicy, hp]

theorem renamedLine_of_ends (hends : EndsRenamed old new raw raw') (hsold : strip old = old)
    (hnew : PlainField new) (hsnew : strip new = new) {ln : Nat} {out : Option Emitted}
    (hbuild : H.emitLine E m ln raw = .ok out)
    (hfresh : ∀ p, H.linePolicy raw = some p → strip p ≠ new) : RenamedLine H old new raw raw' := by
  have hshort : ∀ line, H.parseLine raw ≠ .short line := by
    intro line hline
    unfold Host.emitLine at hbuild
    simp [hline] at hbuild
  have hkeep : ∀ p, H.linePolicy raw = some p → oldName old new p = p := fun p hp =>
    if_neg (hfresh p hp)
  have hself : oldName old new new = old := if_pos hsnew
  rcases parseLine_endsRenamed hends hsold hnew hsnew hshort with
    heq | ⟨head, value, hline, hline'⟩ | ⟨hline, hline'⟩
  · refine ⟨?_, fun hfinal => hkeep _ ?_⟩
    · rw [heq, mapPolicy_eq_self hbuild hkeep]
    · rw [heq] at hfinal
      simp [Host.linePolicy, hfinal]
  · refine ⟨?_, fun hfinal => ?_⟩
    · rw [hline, hline', RuleLine.mapPolicy, hself]
    · rw [hline'] at hfinal
      nomatch hfinal
  · refine ⟨?_, fun hfinal => ?_⟩
    · rw [hline, hline', RuleLine.mapPolicy, Option.map_some, hself]
    · rw [hline'] at hfinal
      nomatch hfinal

theorem RenamedLine.linePolicy (h : RenamedLine H old new raw raw') :
    H.linePolicy raw = (H.linePolicy raw').map (oldName old new) := by
  unfold Host.linePolicy
  rw [h.parse]
  cases hline : H.parseLine raw' with
  | blank => rfl
  | short line => rfl
  | final policy =>
    cases policy with
    | none => simp [RuleLine.mapPolicy, h.default hline]
    | some p => rfl
  | rule head value policy =>
    simp only [RuleLine.mapPolicy, Option.map_map]
    rfl

/-- Lines that differ in the policy only emit the same, under maps that send the two policies the
same way. -/
theorem emitLine_of_mapPolicy {f : Text → Text}
    (hparse : H.parseLine raw = (H.parseLine raw').mapPolicy f)
    (hdefault : H.parseLine raw' = .final none → f H.defaultTarget = H.defaultTarget)
    (htarget : ∀ p, H.linePolicy raw' = some p →
      H.resolveTarget E m' p = H.resolveTarget E m (f p)) (ln : Nat) :
    H.emitLine E m' ln raw' = H.emitLine E m ln raw := by
  unfold Host.emitLine
  rw [hparse]
  cases hline : H.parseLine raw' with
  | blank => rfl
  | short line => rfl
  | final policy =>
    cases policy with
    | none =>
      have hp := htarget H.defaultTarget (by simp [Host.linePolicy, hline])
      rw [hdefault hline] at hp
      simp [RuleLine.mapPolicy, hp]
    | some p =>
      have hp := htarget p (by simp [Host.linePolicy, hline])
      simp [RuleLine.mapPolicy, hp]
  | rule head value policy =>
    simp only [RuleLine.mapPolicy]
    cases htype : mihomoType (H.ruleType head) with
    | none => rfl
    | some t =>
      have hp := htarget policy (by
        unfold Host.linePolicy Host.cond?
        cases t <;> simp [hline, htype])
      rw [hp]

theorem RenamedLine.emitLine (h : RenamedLine H old new raw raw')
    (htarget : ∀ p, H.linePolicy raw' = some p →
      H.resolveTarget E m' p = H.resolveTarget E m (oldName old new p)) (ln : Nat) :
    H.emitLine E m' ln raw' = H.emitLine E m ln raw :=
  emitLine_of_mapPolicy h.parse h.default htarget ln

/-- Where both lines have the same entry, the maps send the policy the same way. -/
theorem RenamedLine.target_of_entry (h : RenamedLine H old new raw raw')
    (heq : H.entry? E m raw = H.entry? E m' raw') {p : Text} (hp : H.linePolicy raw' = some p) :
    H.resolveTarget E m' p = H.resolveTarget E m (oldName old new p) := by
  have htarget := entry?_target (H := H) (m := m) (E := E) raw
  rw [heq, entry?_target, h.linePolicy, hp] at htarget
  exact Option.some.inj htarget

theorem RenamedLine.entry_isSome (h : RenamedLine H old new raw raw') :
    (H.entry? E m raw).isSome = (H.entry? E m' raw').isSome := by
  rw [entry?_isSome, entry?_isSome, h.linePolicy, Option.isSome_map]

end Line

/-! ## All lines -/

section File

variable {H : Host} {E : Exits} {m m' : PolicyMap} {old new : Text}

theorem emitLines_congr {lines lines' : List Text}
    (h : List.Forall₂ (fun raw raw' => ∀ ln, H.emitLine E m' ln raw' = H.emitLine E m ln raw)
      lines lines') (ln : Nat) : H.emitLines E m' ln lines' = H.emitLines E m ln lines := by
  induction h generalizing ln with
  | nil => rfl
  | cons hline _ ih => simp only [Host.emitLines, hline, ih]

theorem forall₂_of_filterMap_eq {α β γ : Type*} {f : α → Option γ} {g : β → Option γ}
    {l : List α} {l' : List β}
    (h : List.Forall₂ (fun a b => (f a).isSome = (g b).isSome) l l')
    (heq : l.filterMap f = l'.filterMap g) : List.Forall₂ (fun a b => f a = g b) l l' := by
  induction h with
  | nil => exact .nil
  | @cons a b l l' hab _ ih =>
    cases ha : f a with
    | none =>
      have hb : g b = none := by simpa [ha] using hab
      rw [List.filterMap_cons_none ha, List.filterMap_cons_none hb] at heq
      exact .cons (ha.trans hb.symm) (ih heq)
    | some x =>
      obtain ⟨y, hb⟩ : ∃ y, g b = some y := Option.isSome_iff_exists.mp (by simp [← hab, ha])
      rw [List.filterMap_cons_some ha, List.filterMap_cons_some hb] at heq
      obtain ⟨rfl, hrest⟩ := List.cons_eq_cons.mp heq
      exact .cons (ha.trans hb.symm) (ih hrest)

/-- A blank line at the end adds nothing. -/
theorem emitLines_append_blank (ln : Nat) (lines : List Text) :
    H.emitLines E m ln (lines ++ [[]]) = H.emitLines E m ln lines := by
  induction lines generalizing ln with
  | nil => rfl
  | cons raw lines ih => simp only [List.cons_append, Host.emitLines, ih]

theorem pyLines_append_newline_nil (t : Text) :
    pyLines (t ++ ['\n']) = pyLines t ∨ pyLines (t ++ ['\n']) = pyLines t ++ [[]] := by
  unfold pyLines
  obtain ⟨u, hu | hu, h⟩ := universalNewlines_append_newline t
  · right
    rw [h [], hu, List.splitOn_append_cons_self]
    rfl
  · left
    rw [h [], hu]
    rfl

/-- The end of the last line makes no difference to the generator. -/
theorem mihomoConfig_fileOf (defaults rules : Text) :
    H.mihomoConfig E m (defaults ++ fileOf (shLines rules)) =
      H.mihomoConfig E m (defaults ++ rules) := by
  rcases fileOf_shLines rules with heq | heq
  · rw [heq]
  · have hlines : H.emitLines E m 1 (pyLines (defaults ++ rules ++ ['\n'])) =
        H.emitLines E m 1 (pyLines (defaults ++ rules)) := by
      rcases pyLines_append_newline_nil (defaults ++ rules) with h | h
      · rw [h]
      · rw [h, emitLines_append_blank]
    rw [heq, ← List.append_assoc, Host.mihomoConfig, hlines, Host.mihomoConfig]

theorem mem_pyLines_fileOf {defaults rules raw : Text}
    (h : raw ∈ pyLines (defaults ++ fileOf (shLines rules))) :
    raw ∈ pyLines (defaults ++ rules) ∨ raw = [] := by
  rcases fileOf_shLines rules with heq | heq
  · exact .inl (heq ▸ h)
  · rw [heq, ← List.append_assoc] at h
    rcases pyLines_append_newline_nil (defaults ++ rules) with hlines | hlines
    · exact .inl (hlines ▸ h)
    · rw [hlines] at h
      exact (List.mem_append.mp h).imp_right List.mem_singleton.mp

theorem exists_emitLines {text : Text} {cfg : MihomoConfig} (h : H.mihomoConfig E m text = .ok cfg) :
    ∃ out, H.emitLines E m 1 (pyLines text) = .ok out := by
  unfold Host.mihomoConfig at h
  split at h
  · nomatch h
  · next out hout => exact ⟨out, hout⟩

theorem mihomoConfig_congr {text text' : Text}
    (h : H.emitLines E m' 1 (pyLines text') = H.emitLines E m 1 (pyLines text)) :
    H.mihomoConfig E m' text' = H.mihomoConfig E m text := by
  unfold Host.mihomoConfig
  rw [h]

theorem resolveTarget_strip (policy : Text) :
    H.resolveTarget E m (strip policy) = H.resolveTarget E m policy := by
  unfold Host.resolveTarget
  rw [strip_strip]

theorem resolveTarget_congr {policy : Text} (h : m'.get (strip policy) = m.get (strip policy)) :
    H.resolveTarget E m' policy = H.resolveTarget E m policy := by
  unfold Host.resolveTarget
  simp only [h]

end File

/-! ## The policy map -/

section Map

variable {S : Setup} {old new policy rules : Text}

theorem get_flatMap_congr {f g : Text → PolicyMap} {lines : List Text} {key key' : Text}
    (h : ∀ line ∈ lines, (f line).get key = (g line).get key') :
    PolicyMap.get (lines.flatMap f) key = PolicyMap.get (lines.flatMap g) key' := by
  induction lines with
  | nil => rfl
  | cons line lines ih =>
    rw [List.flatMap_cons, List.flatMap_cons, PolicyMap.get_append, PolicyMap.get_append,
      h line (List.mem_cons_self ..), ih fun l hl => h l (List.mem_cons_of_mem _ hl)]

theorem get_eq_none_of_flatMap {f : Text → PolicyMap} {lines : List Text} {key : Text}
    (h : PolicyMap.get (lines.flatMap f) key = none) {line : Text} (hline : line ∈ lines) :
    (f line).get key = none :=
  PolicyMap.get_eq_none_iff.mpr fun kv hkv =>
    PolicyMap.get_eq_none_iff.mp h kv (List.mem_flatMap.mpr ⟨line, hline, hkv⟩)

theorem loadPolicyMap_fileOf (lines : List Text) :
    loadPolicyMap (fileOf lines) = lines.flatMap loadPolicyMap := loadPolicyMap_lines lines

theorem loadPolicyMap_shLines (text : Text) :
    (shLines text).flatMap loadPolicyMap = loadPolicyMap text := by
  rw [← loadPolicyMap_fileOf]
  rcases fileOf_shLines text with heq | heq
  · rw [heq]
  · rw [heq]
    unfold loadPolicyMap
    rw [filterMap_pyLines_append policyEntry_nil, filterMap_pyLines_nil policyEntry_nil,
      List.append_nil]

/-- A key of the map is a plain name. -/
theorem plainName_of_get {text key v : Text} (h : (loadPolicyMap text).get key = some v) :
    PlainName key := by
  obtain ⟨⟨k, w⟩, hfind, -⟩ := Option.map_eq_some_iff.mp h
  obtain rfl : k = key := by simpa using List.find?_some hfind
  obtain ⟨raw, hraw, hentry⟩ := List.mem_filterMap.mp
    (List.mem_reverse.mp (List.mem_of_find?_eq_some hfind))
  unfold policyEntry at hentry
  simp only at hentry
  split at hentry
  · nomatch hentry
  · next hline =>
    obtain ⟨rfl, -⟩ := Prod.mk.inj (Option.some.inj hentry)
    refine ⟨⟨singleLine_of_subset (fun c hc => ?_) (singleLine_of_mem_pyLines hraw), strip_strip _⟩,
      fun hmem => not_mem_before (mem_of_mem_strip hmem), fun hcomment => ?_⟩
    · exact mem_of_mem_strip ((List.takeWhile_prefix _).subset (mem_of_mem_strip hc))
    · -- a stripped line starts with the first character of its key, if the key has one
      have hstart := dropWhile_strip raw
      generalize strip raw = line at hline hcomment hstart
      rcases line with - | ⟨c, line⟩
      · exact hline (.inl rfl)
      · have hc : isSpace c = false := by
          have hhead := List.dropWhile_eq_self_iff.mp hstart (by simp)
          simpa using hhead
        by_cases heq : c = '='
        · simp [before, heq, strip] at hcomment
        · have hbefore : before '=' (c :: line) = c :: before '=' line :=
            List.takeWhile_cons_of_pos (by simpa using heq)
          have hstrip : strip (c :: before '=' line) = c :: (before '=' line).rdropWhile isSpace := by
            simpa using strip_append_cons hc [] (before '=' line)
          rw [hbefore, hstrip] at hcomment
          exact hline (.inr (.inl hcomment))

/-- The assignments of a line: the one in front of the first equals sign, and what a carriage return
sets off. -/
theorem exists_loadPolicyMap_assign (t : Text) : ∃ v rest, ∀ e, PlainName e →
    loadPolicyMap (e ++ '=' :: t) = (e, v) :: rest := by
  obtain ⟨first, lines, hlines⟩ := pyLines_append_head t
  refine ⟨strip (first.rdropWhile isSpace), lines.filterMap policyEntry, fun e he => ?_⟩
  have hmark : SingleLine (e ++ ['=']) :=
    singleLine_append he.line ⟨List.not_mem_nil, List.not_mem_nil⟩ (by decide) (by decide)
  have hsplit := hlines _ hmark
  rw [List.append_assoc, List.append_assoc] at hsplit
  show (pyLines (e ++ (['='] ++ t))).filterMap policyEntry = _
  rw [hsplit]
  exact List.filterMap_cons_some (policyEntry_assign he first)

/-- Without an equals sign a line assigns nothing. -/
theorem loadPolicyMap_of_noEq {t : Text} (hline : SingleLine t) (hno : '=' ∉ t) :
    loadPolicyMap t = [] := by
  have hentry : policyEntry t = none := by
    unfold policyEntry
    simp only
    rw [if_pos]
    exact .inr (.inr fun hmem => hno (mem_of_mem_strip hmem))
  rw [loadPolicyMap, pyLines_of_singleLine hline, List.filterMap_cons_none hentry, List.filterMap_nil]

theorem PolicyMap.get_cons (e v key : Text) (m : PolicyMap) :
    PolicyMap.get ((e, v) :: m) key = (m.get key).or (if e = key then some v else none) := by
  show PolicyMap.get ([(e, v)] ++ m) key = _
  rw [PolicyMap.get_append]
  by_cases h : e = key <;> simp [PolicyMap.get, h]

/-- What the first `awk` does to a line: nothing, or it replaces the key. -/
theorem renameKey_cases (hplain : S.PlainRename old new policy rules) (hold : PlainName old)
    {line : Text} (hline : line ∈ shLines policy) :
    S.renameKey old new line = line ∨
      (loadPolicyMap line = [] ∧ loadPolicyMap (S.renameKey old new line) = []) ∨
      ∃ v rest, loadPolicyMap line = (old, v) :: rest ∧
        loadPolicyMap (S.renameKey old new line) = (new, v) :: rest := by
  unfold Setup.renameKey
  split
  · next hhit =>
    have hbefore := hplain.mapHits line hline hhit
    rw [hbefore, hplain.verbatim]
    right
    -- behind the key the line ends, or the value follows
    rcases eq_before_or '=' line with heq | ⟨t, heq⟩ <;> rw [hbefore] at heq <;> rw [heq]
    · left
      rw [List.drop_length, List.append_nil]
      exact ⟨loadPolicyMap_of_noEq hold.line hold.noEq,
        loadPolicyMap_of_noEq hplain.name.line hplain.name.noEq⟩
    · right
      obtain ⟨v, rest, hload⟩ := exists_loadPolicyMap_assign t
      rw [List.drop_left]
      exact ⟨v, rest, hload old hold, hload new hplain.name⟩
  · exact .inl rfl

/-- Under the rewritten map every other policy is what it was. -/
theorem get_renamedMap_of_ne (hplain : S.PlainRename old new policy rules) (hold : PlainName old)
    {key : Text} (hkey : key ≠ old) (hkey' : key ≠ new) :
    (loadPolicyMap (S.renamedMap old new policy)).get key = (loadPolicyMap policy).get key := by
  rw [Setup.renamedMap, loadPolicyMap_fileOf, List.flatMap_map, ← loadPolicyMap_shLines policy]
  refine get_flatMap_congr fun line hline => ?_
  rcases renameKey_cases hplain hold hline with heq | ⟨hnil, hnil'⟩ | ⟨v, rest, hload, hload'⟩
  · rw [heq]
  · rw [hnil, hnil']
  · rw [hload, hload', PolicyMap.get_cons, PolicyMap.get_cons, if_neg hkey.symm, if_neg hkey'.symm]

/-- Where no entry for the old name is left, the new name has its value. -/
theorem get_renamedMap_new (hplain : S.PlainRename old new policy rules) (hold : PlainName old)
    (hfresh : (loadPolicyMap policy).get new = none)
    (hgone : (loadPolicyMap (S.renamedMap old new policy)).get old = none) :
    (loadPolicyMap (S.renamedMap old new policy)).get new = (loadPolicyMap policy).get old := by
  rw [Setup.renamedMap, loadPolicyMap_fileOf, List.flatMap_map] at hgone ⊢
  rw [← loadPolicyMap_shLines policy] at hfresh ⊢
  refine get_flatMap_congr fun line hline => ?_
  have hnew := get_eq_none_of_flatMap hfresh hline
  have hnone := get_eq_none_of_flatMap hgone hline
  -- line by line: an assignment to `old` that stays is excluded by `hgone`
  rcases renameKey_cases hplain hold hline with heq | ⟨hnil, hnil'⟩ | ⟨v, rest, hload, hload'⟩
  · rw [heq] at hnone ⊢
    rw [hnew, hnone]
  · rw [hnil, hnil']
    rfl
  · rw [hload, PolicyMap.get_cons, Option.or_eq_none_iff] at hnew
    rw [hload', PolicyMap.get_cons, Option.or_eq_none_iff] at hnone
    rw [hload, hload', PolicyMap.get_cons, PolicyMap.get_cons, hnew.1, hnone.1, if_pos rfl, if_pos rfl]

end Map

/-! ## What a rename keeps -/

section Preserves

variable {S : Setup} {E : Exits} {defaults old new policy rules : Text} {cfg cfg' : MihomoConfig}

theorem smartConfig_eq_some_iff {policy text : Text} :
    S.smartConfig E defaults policy text = some cfg ↔ text ≠ [] ∧
      S.host.mihomoConfig E (loadPolicyMap policy) (defaults ++ text) = .ok cfg ∧
      S.mihomo.accepts cfg = true := by
  unfold Setup.smartConfig
  split
  · next hnil => simp [hnil]
  · next hne =>
    cases S.host.mihomoConfig E (loadPolicyMap policy) (defaults ++ text) with
    | error e => simp
    | ok c =>
      simp only [ne_eq, hne, not_false_eq_true, Except.ok.injEq, true_and]
      split
      · next haccepts =>
        rw [Option.some.injEq]
        exact ⟨fun heq => ⟨heq, heq ▸ haccepts⟩, And.left⟩
      · next hrefused =>
        rw [iff_false_left (by simp), not_and]
        exact fun heq haccepts => hrefused (heq ▸ haccepts)

/-- The rules are there after the rename if they were there before. -/
theorem renamedRules_ne_nil (hne : rules ≠ []) : S.renamedRules old new rules ≠ [] := by
  have hlines : shLines rules ≠ [] := by
    intro hnil
    rcases fileOf_shLines rules with heq | heq <;> rw [hnil] at heq
    · exact hne heq.symm
    · simp [fileOf] at heq
  obtain ⟨line, lines, hsplit⟩ := List.exists_cons_of_ne_nil hlines
  rw [Setup.renamedRules, hsplit]
  simp [fileOf]

theorem exists_left_of_mem {α β : Type*} {R : α → β → Prop} {l : List α} {l' : List β}
    (h : List.Forall₂ R l l') {b : β} (hb : b ∈ l') : ∃ a ∈ l, R a b := by
  induction h with
  | nil => nomatch hb
  | cons hab _ ih =>
    rcases List.mem_cons.mp hb with rfl | hb
    · exact ⟨_, List.mem_cons_self .., hab⟩
    · obtain ⟨a, ha, hR⟩ := ih hb
      exact ⟨a, List.mem_cons_of_mem _ ha, hR⟩

theorem bears_of_mem {text raw p : Text} (hraw : raw ∈ pyLines text)
    (hp : S.host.linePolicy raw = some p) : S.Bears text (strip p) :=
  List.mem_filterMap.mpr ⟨raw, hraw, by rw [hp]; rfl⟩

/-- Each line that the router reads after the rename is the renamed copy of a line before it. -/
theorem renamedLines (hbuild : S.smartConfig E defaults policy rules = some cfg)
    (hold : PlainName old) (hfresh : S.FreshGroup E defaults policy rules new)
    (hplain : S.PlainRename old new policy rules) :
    List.Forall₂ (RenamedLine S.host old new)
      (pyLines (defaults ++ fileOf (shLines rules)))
      (pyLines (defaults ++ S.renamedRules old new rules)) := by
  obtain ⟨-, hcfg, -⟩ := smartConfig_eq_some_iff.mp hbuild
  rw [← mihomoConfig_fileOf] at hcfg
  obtain ⟨out, hout⟩ := exists_emitLines hcfg
  have hends := pyLines_endsRenamed hold.line hplain.name.line
    (fun line hline => renameRule_ends hplain hline) defaults
  have hknown : ∀ raw ∈ pyLines (defaults ++ fileOf (shLines rules)),
      (∃ ln o, S.host.emitLine E (loadPolicyMap policy) ln raw = .ok o) ∧
        ∀ p, S.host.linePolicy raw = some p → strip p ≠ new := by
    intro raw hraw
    refine ⟨emitLines_ok_line hout hraw, fun p hp hnew => ?_⟩
    rcases mem_pyLines_fileOf hraw with hraw | rfl
    · exact hfresh.noRule (hnew ▸ bears_of_mem hraw hp)
    · nomatch hp
  refine ((List.forall₂_and_left _ _).mpr ⟨hknown, hends⟩).imp fun raw raw' h => ?_
  obtain ⟨⟨⟨ln, o, hline⟩, hnew⟩, hends⟩ := h
  exact renamedLine_of_ends hends hold.stripped hplain.field hplain.name.stripped hline hnew

theorem renamePreserves_of_names (hbuild : S.smartConfig E defaults policy rules = some cfg)
    (hold : PlainName old) (hfresh : S.FreshGroup E defaults policy rules new)
    (hplain : S.PlainRename old new policy rules) (hnonempty : old ≠ [])
    (hnames : ∀ name ∈ [old, new], S.Bears (defaults ++ S.renamedRules old new rules) name →
      S.host.resolveTarget E (loadPolicyMap (S.renamedMap old new policy)) name =
        S.host.resolveTarget E (loadPolicyMap policy) old) :
    S.RenamePreserves E defaults old new policy rules cfg := by
  obtain ⟨hrules, hcfg, haccepts⟩ := smartConfig_eq_some_iff.mp hbuild
  have hlines := renamedLines hbuild hold hfresh hplain
  have htarget : ∀ raw' ∈ pyLines (defaults ++ S.renamedRules old new rules), ∀ p,
      S.host.linePolicy raw' = some p →
        S.host.resolveTarget E (loadPolicyMap (S.renamedMap old new policy)) p =
          S.host.resolveTarget E (loadPolicyMap policy) (oldName old new p) := by
    intro raw' hraw' p hp
    have hbears := bears_of_mem hraw' hp
    -- the new name, the old name, or a name that both maps treat alike
    unfold oldName
    split
    · next hnew =>
      rw [← resolveTarget_strip, hnew]
      exact hnames new (by simp) (hnew ▸ hbears)
    · next hnew =>
      by_cases hpold : strip p = old
      · rw [← resolveTarget_strip, ← resolveTarget_strip p, hpold]
        exact hnames old (by simp) (hpold ▸ hbears)
      · exact resolveTarget_congr (get_renamedMap_of_ne hplain hold hpold hnew)
  have hemit : S.host.emitLines E (loadPolicyMap (S.renamedMap old new policy)) 1
        (pyLines (defaults ++ S.renamedRules old new rules)) =
      S.host.emitLines E (loadPolicyMap policy) 1
        (pyLines (defaults ++ fileOf (shLines rules))) := by
    refine emitLines_congr (List.Forall₂.flip ?_) 1
    refine ((List.forall₂_and_left _ _).mpr ⟨htarget, List.Forall₂.flip hlines⟩).imp ?_
    exact fun raw' raw h ln => RenamedLine.emitLine h.2 h.1 ln
  rw [← mihomoConfig_fileOf] at hcfg
  refine ⟨cfg, ?_, rfl⟩
  unfold Setup.renameConfig
  rw [if_pos ⟨hnonempty, hfresh.nonempty, hfresh.accepted⟩, smartConfig_eq_some_iff]
  exact ⟨renamedRules_ne_nil hrules, (mihomoConfig_congr hemit).trans hcfg, haccepts⟩

/-- Where the two programs leave no old name behind, in the rules or in the map, a group that is no word
for direct or block can be renamed. -/
theorem renamePreserves_of_noneLeft (hbuild : S.smartConfig E defaults policy rules = some cfg)
    (hgroup : ((loadPolicyMap policy).get old).isSome = true)
    (hfresh : S.FreshGroup E defaults policy rules new)
    (hplain : S.PlainRename old new policy rules) (hnonempty : old ≠ [])
    (hbuiltin : S.host.builtin old = none)
    (hmap : (loadPolicyMap (S.renamedMap old new policy)).get old = none)
    (hrules : ¬ S.Bears (defaults ++ S.renamedRules old new rules) old) :
    S.RenamePreserves E defaults old new policy rules cfg := by
  obtain ⟨v, hv⟩ := Option.isSome_iff_exists.mp hgroup
  have hold := plainName_of_get hv
  have hnew := get_renamedMap_new hplain hold hfresh.noKey hmap
  refine renamePreserves_of_names hbuild hold hfresh hplain hnonempty fun name hname hbears => ?_
  rcases List.mem_pair.mp hname with rfl | rfl
  · exact absurd hbears hrules
  · unfold Host.resolveTarget
    simp only [hplain.name.stripped, hold.stripped, hfresh.noBuiltin, hbuiltin, hnew]
    rw [hv]

end Preserves

end ProxyGateway.Smart
