/-
# ProxyGateway.Smart.RuleText — the files behind the `smart` exit

Both router generators read the same three things: a rule list, a policy map and the directory of
exits.  This module holds what they read alike: the fields of a rule line, the assignments of the
policy map, the words that mean "direct" and "block", and the exits as files.  How a policy becomes
a target is where they differ, and that is left to their own modules.

The Unicode case mappings and MD5 come from Python; they are fields of `Host`, and nothing is assumed
about them.
-/
import ProxyGateway.Lang.Text

namespace ProxyGateway.Smart

open ProxyGateway.Lang

/-! ## The host -/

/-- How a generator ends without a configuration. -/
inductive Failure where
  | die (msg : Text)
  | raised
  deriving DecidableEq, Repr

/-- A `rule-providers` entry of type `file`. -/
structure Provider where
  path : Text
  behavior : Text
  deriving DecidableEq, Repr

/-- What the generators take from Python, from their environment and from the network. -/
structure Host where
  /-- `str.lower` -/
  lower : Text → Text
  /-- `str.upper` -/
  upper : Text → Text
  /-- `hashlib.md5(value.encode()).hexdigest()` -/
  md5 : Text → Text
  /-- `DEFAULT_TARGET` -/
  defaultTarget : Text
  /-- Validation and download of an `https://` rule provider, at a line of the rules file. -/
  remoteProvider : Text → Nat → Except Failure Provider
  /-- The file of a rule set that is not a remote `.srs` (cached, downloaded or local); none where it
  is skipped with a warning. -/
  localRuleSet : Text → Except Failure (Option Text)

/-- ASCII text, no network: enough to evaluate a configuration. -/
def plainHost : Host where
  lower := List.map Char.toLower
  upper := List.map Char.toUpper
  md5 := id
  defaultTarget := lit "direct"
  remoteProvider := fun _ _ => .error .raised
  localRuleSet := fun _ => .ok none

/-! ## Rule lines -/

/-- `raw.split("#", 1)[0].split(";", 1)[0].strip()` -/
def ruleText (raw : Text) : Text := strip (before ';' (before '#' raw))

/-- `[p.strip() for p in line.split(",")]` -/
def fields (line : Text) : List Text := (line.splitOn ',').map strip

/-- `parts[0].upper().replace("_", "-")` -/
def Host.ruleType (H : Host) (head : Text) : Text :=
  (H.upper head).map fun c => if c = '_' then '-' else c

/-- A line of the rules file; `head` is its first field as written. -/
inductive RuleLine where
  | blank
  | final (policy : Option Text)
  | short (line : Text)
  | rule (head value policy : Text)
  deriving DecidableEq, Repr

/-- The part of the main loop that the two generators share. -/
def Host.parseLine (H : Host) (raw : Text) : RuleLine :=
  let line := ruleText raw
  if line = [] then .blank
  else match fields line with
    | [] => .blank
    | head :: rest =>
      if H.ruleType head = lit "FINAL" then .final rest.head?
      else match rest with
        | value :: policy :: _ => .rule head value policy
        | _ => .short line

theorem fields_nil : fields [] = [[]] := rfl

theorem Host.parseLine_eq_rule_iff {H : Host} {raw head value policy : Text} :
    H.parseLine raw = .rule head value policy ↔
      H.ruleType head ≠ lit "FINAL" ∧
        ∃ rest, fields (ruleText raw) = head :: value :: policy :: rest := by
  unfold Host.parseLine
  simp only
  split
  · next hblank => simp [hblank, fields_nil]
  · cases fields (ruleText raw) with
    | nil => simp
    | cons first rest =>
      by_cases hfinal : H.ruleType first = lit "FINAL"
      · simp only [hfinal, if_true, reduceCtorEq, List.cons.injEq, false_iff, not_and, not_exists]
        rintro hne - rfl
        exact absurd hfinal hne
      · rcases rest with - | ⟨v, - | ⟨p, rest⟩⟩
        · simp [hfinal]
        · simp [hfinal]
        · simp only [hfinal, if_false, RuleLine.rule.injEq, List.cons.injEq]
          constructor
          · rintro ⟨rfl, rfl, rfl⟩
            exact ⟨hfinal, rest, rfl, rfl, rfl, rfl⟩
          · rintro ⟨-, -, rfl, rfl, rfl, -⟩
            exact ⟨rfl, rfl, rfl⟩

theorem Host.parseLine_eq_final_iff {H : Host} {raw : Text} {policy : Option Text} :
    H.parseLine raw = .final policy ↔
      ruleText raw ≠ [] ∧ ∃ head rest, fields (ruleText raw) = head :: rest ∧
        H.ruleType head = lit "FINAL" ∧ rest.head? = policy := by
  unfold Host.parseLine
  simp only
  split
  · next hblank => simp [hblank]
  · next hblank =>
    cases fields (ruleText raw) with
    | nil => simp
    | cons first rest =>
      by_cases hfinal : H.ruleType first = lit "FINAL"
      · simp [hfinal, hblank]
      · rcases rest with - | ⟨v, - | ⟨p, rest⟩⟩ <;> simp [hfinal, hblank]

/-- Every field is stripped. -/
theorem strip_of_mem_fields {line f : Text} (h : f ∈ fields line) : strip f = f := by
  obtain ⟨piece, -, rfl⟩ := List.mem_map.mp h
  exact strip_strip piece

/-- A field that the line parser of the router leaves in one piece. -/
def PlainField (t : Text) : Prop := '#' ∉ t ∧ ';' ∉ t ∧ ',' ∉ t

instance (t : Text) : Decidable (PlainField t) := inferInstanceAs (Decidable (_ ∧ _ ∧ _))

theorem plainField_of_mem_fields {raw f : Text} (h : f ∈ fields (ruleText raw)) : PlainField f := by
  obtain ⟨piece, hpiece, rfl⟩ := List.mem_map.mp h
  have hline : ∀ c ∈ strip piece, c ∈ before ';' (before '#' raw) ∧ c ≠ ',' := by
    intro c hc
    obtain ⟨hmem, hne⟩ := mem_of_mem_splitOn hpiece (mem_of_mem_strip hc)
    exact ⟨mem_of_mem_strip hmem, hne⟩
  refine ⟨fun hc => ?_, fun hc => ?_, fun hc => (hline ',' hc).2 rfl⟩
  · exact not_mem_before ((List.takeWhile_prefix _).subset (hline '#' hc).1)
  · exact not_mem_before (hline ';' hc).1

/-- Three plain fields between commas are the fields that the router reads. -/
theorem fields_of_plain {t v c : Text} (ht : PlainField t) (hv : PlainField v) (hc : PlainField c)
    (hst : strip t = t) (hsv : strip v = v) (hsc : strip c = c) :
    fields (ruleText (t ++ ',' :: (v ++ ',' :: c))) = [t, v, c] := by
  have hhash : '#' ∉ t ++ ',' :: (v ++ ',' :: c) := by simp [ht.1, hv.1, hc.1]
  have hsemi : ';' ∉ t ++ ',' :: (v ++ ',' :: c) := by simp [ht.2.1, hv.2.1, hc.2.1]
  have hstrip : strip (t ++ ',' :: (v ++ ',' :: c)) = t ++ ',' :: (v ++ ',' :: c) :=
    strip_join rfl hst (strip_join rfl hsv hsc)
  rw [ruleText, before_of_not_mem hhash, before_of_not_mem hsemi, hstrip, fields,
    List.splitOn_append_cons_self_of_not_mem ht.2.2,
    List.splitOn_append_cons_self_of_not_mem hv.2.2, List.splitOn_eq_singleton hc.2.2]
  simp [hst, hsv, hsc]

/-- A rule whose first two fields are plain keeps them, whatever its policy looks like. -/
theorem fields_of_plain_head {t v : Text} (ht : PlainField t) (hv : PlainField v)
    (hst : strip t = t) (hsv : strip v = v) (c : Text) :
    ∃ policy rest, fields (ruleText (t ++ ',' :: (v ++ ',' :: c))) = t :: v :: policy :: rest := by
  have hbefore : ∀ sep, sep ∉ t → sep ∉ v → sep ≠ ',' → ∀ c : Text,
      before sep (t ++ ',' :: (v ++ ',' :: c)) = t ++ ',' :: (v ++ ',' :: before sep c) := by
    intro sep hsept hsepv hcomma c
    have hstep : ∀ s : Text, before sep (',' :: s) = ',' :: before sep s := fun s =>
      List.takeWhile_cons_of_pos (by simpa using hcomma.symm)
    rw [before_append_of_not_mem hsept, hstep, before_append_of_not_mem hsepv, hstep]
  have hstart : t.dropWhile isSpace = t := by
    have hdrop := dropWhile_strip t
    rwa [hst] at hdrop
  obtain ⟨policy, rest, hsplit⟩ := List.exists_cons_of_ne_nil (List.splitOn_ne_nil ','
    ((before ';' (before '#' c)).rdropWhile isSpace))
  refine ⟨strip policy, rest.map strip, ?_⟩
  rw [ruleText, hbefore '#' ht.1 hv.1 (by decide), hbefore ';' ht.2.1 hv.2.1 (by decide),
    strip_append_cons rfl, hstart, rdropWhile_append_cons rfl, fields,
    List.splitOn_append_cons_self_of_not_mem ht.2.2,
    List.splitOn_append_cons_self_of_not_mem hv.2.2, hsplit]
  simp only [List.map_cons, hst, hsv]

/-- A `FINAL` line. -/
def Host.isFinal (H : Host) (raw : Text) : Bool :=
  match H.parseLine raw with
  | .final _ => true
  | _ => false

/-- `line %d: '%s' needs <type>,<value>,<policy>` -/
def needsFields (ln : Nat) (line : Text) : Failure :=
  .die (lit "line " ++ decimal ln ++ lit ": '" ++ line ++ lit "' needs <type>,<value>,<policy>")

/-- `line %d: unsupported rule type '%s'` -/
def unsupportedType (ln : Nat) (head : Text) : Failure :=
  .die (lit "line " ++ decimal ln ++ lit ": unsupported rule type '" ++ head ++ lit "'")

/-! ## Targets and the policy map -/

/-- Where a rule sends a request; `DIRECT` and `REJECT` for one generator, `direct` and `block` for
the other. -/
inductive Target where
  | direct
  | reject
  | exit (name : Text)
  deriving DecidableEq, Repr

def Target.exitName? : Target → Option Text
  | .exit name => some name
  | _ => none

/-- The words for a direct or a blocked connection. -/
def Host.builtin (H : Host) (t : Text) : Option Target :=
  let low := H.lower t
  if low ∈ [lit "direct", lit "direct-out", lit "dir"] then some .direct
  else if low ∈ [lit "block", lit "reject", lit "reject-drop"] then some .reject
  else none

theorem Host.builtin_ne_exit (H : Host) (t name : Text) : H.builtin t ≠ some (.exit name) := by
  unfold Host.builtin
  simp only
  split
  · nofun
  · split <;> nofun

/-- The assignments of the policy map, in the order of the file. -/
abbrev PolicyMap := List (Text × Text)

/-- The assignment that a line makes. -/
def policyEntry (raw : Text) : Option (Text × Text) :=
  let line := strip raw
  if line = [] ∨ line.head? = some '#' ∨ '=' ∉ line then none
  else some (strip (before '=' line), strip (after '=' line))

@[simp] theorem policyEntry_nil : policyEntry [] = none := rfl

/-- **`load_policy_map`**; a missing file reads as an empty one. -/
def loadPolicyMap (text : Text) : PolicyMap := (pyLines text).filterMap policyEntry

/-- The value of a key: its last assignment. -/
def PolicyMap.get (m : PolicyMap) (key : Text) : Option Text :=
  (m.reverse.find? fun kv => kv.1 = key).map Prod.snd

/-! ## Exits -/

/-- What the mihomo generator gets out of an exit file: a proxy, nothing (a YAML without proxies), or
an error. -/
inductive Loads where
  | proxy
  | nothing
  | fails
  deriving DecidableEq, Repr

/-- A file of the exits directory, with its full name. -/
structure ExitFile where
  name : Text
  loads : Loads
  /-- The sing-box generator can read it. -/
  singboxLoads : Bool
  deriving DecidableEq, Repr

/-- A WireGuard exit: `pgw-<name>.conf`. -/
structure WgConf where
  name : Text
  /-- The mihomo generator can read it. -/
  loads : Bool
  /-- The sing-box generator can read it. -/
  singboxLoads : Bool
  deriving DecidableEq, Repr

/-- The configured exits: the exits directory in the order of `os.listdir`, and the WireGuard
configurations. -/
structure Exits where
  files : List ExitFile
  wireguard : List WgConf
  deriving DecidableEq, Repr

namespace Exits

variable (E : Exits)

def hasFile (name : Text) : Bool := E.files.any (·.name = name)

def hasWg (name : Text) : Bool := E.wireguard.any (·.name = name)

/-- **`exit_exists`** -/
def exitExists (name : Text) : Bool := E.hasFile (name ++ lit ".type") || E.hasWg name

end Exits

end ProxyGateway.Smart
