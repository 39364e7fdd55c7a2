/-
# ProxyGateway.Bot.RuleNumbers — the numbers under which the bot shows the rules

`op_show_rules` numbers the rules, and `op_del_rule` deletes by number; neither of them reads a rule.
The router reads them, from another copy of the file and with another reader: `str.splitlines` ends a
line where the router does not.

What matters is what the router reads (`readRules`).  On that list an added line is appended and a number
deletes the rule at its place, in every sequence of edits, and the bot shows that list
(`numbered_edits`), as long as the texts that are submitted read alike in both ways (`SameRules`).
-/
import ProxyGateway.Bot.Markup
import ProxyGateway.Logic.Purge
import ProxyGateway.Smart.SetFinal
import ProxyGateway.Smart.Updates

namespace ProxyGateway.Bot

open ProxyGateway.Lang ProxyGateway.Logic ProxyGateway.Dns ProxyGateway.Smart
open ProxyGateway.Smart.Updates (Edit)

section Numbers

variable (H : Host)

/-! ## What is read and what is shown -/

/-- What the router makes of a line, unless it skips it. -/
def readRule (raw : Text) : Option RuleLine :=
  if ruleText raw = [] then none else some (H.parseLine raw)

/-- The rules of a text as the router reads them. -/
def readRules (text : Text) : List RuleLine := (pyLines text).filterMap (readRule H)

/-- The lines that `op_show_rules` numbers. -/
def shownRules (txt : Text) : List Text := ((linesOf txt).filter isRuleEntry).map strip

/-- Cut where `str.splitlines` cuts, the text has the same rules. -/
def SameRules (text : Text) : Prop := (splitlines text).filterMap (readRule H) = readRules H text

/-- The text of the message: a heading, and the lines with their numbers from 1 on. -/
theorem opShowRules_shown {txt : Text} (hne : shownRules txt ≠ []) :
    opShowRules txt = lit "🧭 <b>当前分流规则</b>（" ++ decimal (shownRules txt).length ++ lit " 条）：\n" ++
      wrapPre (joinWith '\n' ((shownRules txt).zipIdx.map fun (line, i) =>
        decimal (i + 1) ++ lit ". " ++ line)) := by
  have hentries : (linesOf txt).filter isRuleEntry ≠ [] := fun h => hne (by rw [shownRules, h]; rfl)
  have hlength : (shownRules txt).length = ((linesOf txt).filter isRuleEntry).length := by
    rw [shownRules, List.length_map]
  unfold opShowRules
  rw [if_neg hentries, hlength, shownRules, List.zipIdx_map, List.map_map]
  rfl

variable {H}

theorem skipsSpaces_readRule : SkipsSpaces (readRule H) where
  nil := rfl
  strip raw := by rw [readRule, ruleText_strip, parseLine_strip, readRule]

/-- The bot numbers the lines that the router does not skip. -/
theorem isRuleEntry_eq (raw : Text) : isRuleEntry raw = (readRule H raw).isSome := by
  have hsome : (readRule H raw).isSome = decide (ruleText (strip raw) ≠ []) := by
    rw [readRule, ruleText_strip]
    by_cases hblank : ruleText raw = []
    · rw [if_pos hblank]
      simp [hblank]
    · rw [if_neg hblank]
      simp [hblank]
  rw [hsome, isRuleEntry]
  cases hstrip : strip raw with
  | nil => rfl
  | cons c t =>
    have hspace : isSpace c = false := head_not_space (by rw [← hstrip, strip_strip])
    by_cases hhash : c = '#'
    · subst hhash
      rfl
    · by_cases hsemi : c = ';'
      · subst hsemi
        rfl
      · -- the first character stays, up to the comment
        have hrest : before ';' (before '#' (c :: t)) = c :: before ';' (before '#' t) := by
          simp [before, hhash, hsemi]
        have hmem : c ∈ ruleText (c :: t) := by
          rw [ruleText, hrest]
          exact mem_strip_of_mem (List.mem_cons_self ..) hspace
        have hne : ruleText (c :: t) ≠ [] := List.ne_nil_of_mem hmem
        simp [hne, hhash, hsemi]

/-- The rules shown are those of the lines of `str.splitlines`. -/
theorem shownRules_read (file : Text) :
    (shownRules (readFile file)).map H.parseLine = (splitlines file).filterMap (readRule H) := by
  rw [← filterMap_linesOf skipsSpaces_readRule, shownRules, List.map_map]
  induction linesOf (readFile file) with
  | nil => rfl
  | cons raw lines ih =>
    have hentry := isRuleEntry_eq (H := H) raw
    by_cases hblank : ruleText raw = []
    · have hnone : readRule H raw = none := if_pos hblank
      rw [hnone] at hentry
      rw [List.filter_cons_of_neg (by simp [hentry]), List.filterMap_cons_none hnone, ih]
    · have hsome : readRule H raw = some (H.parseLine raw) := if_neg hblank
      rw [hsome] at hentry
      rw [List.filter_cons_of_pos (by simp [hentry]), List.filterMap_cons_some hsome, List.map_cons,
        ih, Function.comp_apply, parseLine_strip]

/-! ## Texts put together -/

theorem readRule_nil : readRule H [] = none := rfl

/-- A text and a line behind it. -/
theorem readRules_append (a b : Text) :
    readRules H (a ++ '\n' :: b) = readRules H a ++ readRules H b :=
  filterMap_pyLines_append readRule_nil a b

theorem SameRules.append {a b : Text} (ha : SameRules H a) (hb : SameRules H b) :
    SameRules H (a ++ '\n' :: b) := by
  rw [SameRules, filterMap_splitlines_append readRule_nil, ha, hb, readRules_append]

theorem readRules_nil : readRules H [] = [] := rfl

theorem sameRules_nil : SameRules H [] := rfl

/-- Lines that are joined are read one by one, in both ways. -/
theorem readRules_joinLines {lines : List Text}
    (h : ∀ line ∈ lines, ∀ c ∈ line, isLineBreak c = false) :
    readRules H (joinLines lines) = lines.filterMap (readRule H) ∧ SameRules H (joinLines lines) := by
  have hsingle : ∀ line ∈ lines, SingleLine line := fun line hline =>
    ⟨fun hc => absurd (h line hline '\n' hc) (by decide),
      fun hc => absurd (h line hline '\r' hc) (by decide)⟩
  have hread : readRules H (joinLines lines) = lines.filterMap (readRule H) := by
    rw [joinLines, readRules_append, readRules_nil, List.append_nil, readRules,
      filterMap_pyLines_intercalate readRule_nil hsingle]
  refine ⟨hread, ?_⟩
  rw [SameRules, hread, joinLines, filterMap_splitlines_append readRule_nil]
  have hreturn : '\r' ∉ (lit "\n").intercalate lines :=
    not_mem_intercalate (by decide) fun line hline => (hsingle line hline).2
  have htail : (splitlines []).filterMap (readRule H) = [] := rfl
  rw [htail, List.append_nil, splitlines, universalNewlines_of_singleLine hreturn]
  by_cases hne : lines = []
  · subst hne
    rfl
  · rw [splitOnP_intercalate (by decide) hne h]

/-- What the bot reads of the file has the same rules. -/
theorem SameRules.readFile {file : Text} (h : SameRules H file) :
    readRules H (readFile file) = readRules H file ∧ SameRules H (readFile file) := by
  have hreturn : '\r' ∉ strip (universalNewlines file) := fun hc =>
    return_not_mem_universalNewlines file (mem_of_mem_strip hc)
  have hpy : readRules H (Smart.readFile file) = readRules H file := by
    rw [readRules, pyLines, Smart.readFile, universalNewlines_of_singleLine hreturn]
    exact skipsSpaces_readRule.filterMap_strip (universalNewlines file)
  have hsplit : (splitlines (Smart.readFile file)).filterMap (readRule H) =
      (splitlines file).filterMap (readRule H) := by
    rw [splitlines, Smart.readFile, universalNewlines_of_singleLine hreturn,
      skipsSpaces_readRule.filterMap_strip, splitlines]
  exact ⟨hpy, hsplit.trans (h.trans hpy.symm)⟩

/-! ## Edits -/

/-- The line that `op_import_ruleset` adds. -/
def rulesetLine (url target : Text) : Text := lit "RULE-SET," ++ url ++ ',' :: importTarget target

def isDefaultRule : RuleLine → Bool
  | .final _ => true
  | _ => false

/-- Another target for the defaults, or a default at the end. -/
def setDefault (target : Text) (rules : List RuleLine) : List RuleLine :=
  let replaced := rules.map fun rule => if isDefaultRule rule then .final (some target) else rule
  if rules.any isDefaultRule then replaced else replaced ++ [.final (some target)]

/-- What an edit of the bot is on the list of rules. -/
def onRules (H : Host) (rules : List RuleLine) : Edit → List RuleLine
  | .addRule line => rules ++ readRules H (strip line)
  | .delRule num => rules.eraseIdx (num.toNat - 1)
  | .importRuleset url target _ => rules ++ readRules H (rulesetLine url target)
  | .setFinal target => setDefault target rules
  | .proxyDomain .. => rules

/-- **`Plainly`** — what is submitted reads alike in both ways; a default is only set where the bot
recognises the defaults that there are. -/
def Plainly (H : Host) (file : Text) : Edit → Prop
  | .addRule line => SameRules H (strip line)
  | .delRule _ => True
  | .importRuleset url target _ => SameRules H (rulesetLine url target)
  | .setFinal target => PlainTarget target ∧
      ∀ raw ∈ splitlines file, H.isFinal raw = true → H.startsFinal (strip raw) = true
  | .proxyDomain .. => False

theorem noBreak_of_mem_linesOf {txt raw : Text} (h : raw ∈ linesOf txt) :
    ∀ c ∈ raw, isLineBreak c = false := by
  unfold linesOf at h
  split at h
  · cases h
  · exact fun c hc => (mem_of_mem_splitOnP h hc).2

/-- A line behind what the bot has read. -/
theorem readRules_behind {file text line : Text} (hsame : SameRules H file)
    (htext : text = Smart.readFile file ++ '\n' :: (line ++ ['\n'])) (hline : SameRules H line) :
    readRules H text = readRules H file ++ readRules H line ∧ SameRules H text := by
  obtain ⟨hread, hsame'⟩ := hsame.readFile
  subst htext
  refine ⟨?_, hsame'.append (hline.append sameRules_nil)⟩
  rw [readRules_append, readRules_append, readRules_nil, List.append_nil, hread]

theorem addRule_onRules {file line text : Text} (hsame : SameRules H file)
    (hline : SameRules H (strip line)) (h : opAddRule line (Smart.readFile file) = some text) :
    readRules H text = readRules H file ++ readRules H (strip line) ∧ SameRules H text := by
  have htext := opAddRule_eq_some h
  by_cases hblank : strip (Smart.readFile file) = []
  · -- the first rule
    have hempty : Smart.readFile file = [] := by rwa [Smart.readFile, strip_strip] at hblank
    have hnone : readRules H file = [] := by rw [← hsame.readFile.1, hempty, readRules_nil]
    rw [if_neg (not_not_intro hblank)] at htext
    subst htext
    refine ⟨?_, hline.append sameRules_nil⟩
    rw [readRules_append, readRules_nil, List.append_nil, hnone, List.nil_append]
  · rw [if_pos hblank, rstripNewlines_readFile] at htext
    exact readRules_behind hsame htext hline

theorem opImportRuleset_eq_some {url target txt text : Text} {usable : Bool}
    (h : opImportRuleset url target usable txt = some text) :
    text = rstripNewlines txt ++ '\n' :: (rulesetLine url target ++ ['\n']) := by
  unfold opImportRuleset at h
  by_cases husable : usable = true
  · rw [if_pos husable] at h
    exact (Option.some.inj h).symm
  · rw [if_neg husable] at h
    cases h

theorem importRuleset_onRules {file url target text : Text} {usable : Bool}
    (hsame : SameRules H file) (hline : SameRules H (rulesetLine url target))
    (h : opImportRuleset url target usable (Smart.readFile file) = some text) :
    readRules H text = readRules H file ++ readRules H (rulesetLine url target) ∧
      SameRules H text := by
  have htext := opImportRuleset_eq_some h
  rw [rstripNewlines_readFile] at htext
  exact readRules_behind hsame htext hline

/-- What is deleted by number: the line at that place among those that are numbered. -/
theorem opDelRule_eq_some {num : Int} {txt text : Text} (h : opDelRule num txt = some text) :
    1 ≤ num ∧ num ≤ (ruleEntries txt).length ∧ ∃ drop,
      (ruleEntries txt)[num.toNat - 1]? = some drop ∧ text = joinLines ((linesOf txt).eraseIdx drop) := by
  unfold opDelRule at h
  split at h
  · cases h
  · rename_i hrange
    split at h
    · rename_i drop hdrop
      unfold opSetRules at h
      split at h
      · cases h
      · exact ⟨by omega, by omega, drop, hdrop, (Option.some.inj h).symm⟩
    · cases h

theorem delRule_onRules {file text : Text} {num : Int} (hsame : SameRules H file)
    (h : opDelRule num (Smart.readFile file) = some text) :
    readRules H text = (readRules H file).eraseIdx (num.toNat - 1) ∧ SameRules H text := by
  obtain ⟨-, -, drop, hdrop, rfl⟩ := opDelRule_eq_some h
  obtain ⟨raw, hraw, hentry, hkept⟩ := positions_spec hdrop
  have hlines := @readRules_joinLines H ((linesOf (Smart.readFile file)).eraseIdx drop)
    fun line hline => noBreak_of_mem_linesOf (List.mem_of_mem_eraseIdx hline)
  refine ⟨?_, hlines.2⟩
  have hall : (linesOf (Smart.readFile file)).filterMap (readRule H) = readRules H file :=
    (filterMap_linesOf skipsSpaces_readRule file).trans hsame
  have hsome : (fun line => (readRule H line).isSome) = isRuleEntry :=
    funext fun line => (isRuleEntry_eq line).symm
  rw [hlines.1, filterMap_eraseIdx hraw (by rw [← isRuleEntry_eq]; exact hentry), hall, hsome, hkept]

theorem isFinal_eq (raw : Text) : H.isFinal raw = (readRule H raw).any isDefaultRule := by
  unfold readRule
  by_cases hblank : ruleText raw = []
  · rw [if_pos hblank, Host.isFinal, Host.parseLine, hblank]
    rfl
  · rw [if_neg hblank, Host.isFinal]
    cases H.parseLine raw with
    | _ => rfl

theorem setFinal_onRules (hU : H.Uppers) {file target text : Text} (hsame : SameRules H file)
    (ht : PlainTarget target)
    (hknown : ∀ raw ∈ splitlines file, H.isFinal raw = true → H.startsFinal (strip raw) = true)
    (h : H.opSetFinal target (Smart.readFile file) = some text) :
    readRules H text = setDefault target (readRules H file) ∧ SameRules H text := by
  have htext : text = joinLines (H.setFinalLines target file) := by
    rw [opSetFinal_eq (startsFinal_nil hU), opSetRules] at h
    split at h
    · cases h
    · exact (Option.some.inj h).symm
  have hlines := @readRules_joinLines H (H.setFinalLines target file)
    fun line hline => (mem_setFinalLines ht hline).2.2
  rw [← htext] at hlines
  refine ⟨?_, hlines.2⟩
  have hnew : readRule H (lit "FINAL," ++ target) = some (.final (some target)) := by
    have hparse := parseLine_final hU ht
    unfold readRule
    rw [hparse, if_neg]
    intro hblank
    rw [Host.parseLine, hblank] at hparse
    cases hparse
  have hfinal : ∀ raw ∈ splitlines file, H.startsFinal (strip raw) = H.isFinal raw := by
    intro raw hraw
    rw [Bool.eq_iff_iff]
    exact ⟨isFinal_of_startsFinal hU, hknown raw hraw⟩
  rw [hlines.1, filterMap_setFinalLines skipsSpaces_readRule, hnew, ← hsame]
  -- line by line
  have hmap : ((splitlines file).filterMap fun raw =>
      if H.startsFinal (strip raw) then some (.final (some target)) else readRule H raw) =
      ((splitlines file).filterMap (readRule H)).map fun rule =>
        if isDefaultRule rule then .final (some target) else rule := by
    rw [List.map_filterMap]
    refine List.filterMap_congr fun raw hraw => ?_
    rw [hfinal raw hraw, isFinal_eq]
    cases readRule H raw with
    | none => rfl
    | some rule =>
      rw [Option.map_some, Option.any_some]
      split
      · rfl
      · rfl
  have hany : ((splitlines file).any fun raw => H.startsFinal (strip raw)) =
      ((splitlines file).filterMap (readRule H)).any isDefaultRule := by
    rw [List.any_filterMap, Bool.eq_iff_iff, List.any_eq_true, List.any_eq_true]
    refine exists_congr fun raw => and_congr_right fun hraw => ?_
    rw [hfinal raw hraw, isFinal_eq]
    cases readRule H raw with
    | _ => rfl
  rw [hmap, hany, setDefault]
  split
  · exact List.append_nil _
  · rfl

/-! ## When a number is refused -/

theorem strip_eq_nil_iff {t : Text} : strip t = [] ↔ ∀ c ∈ t, isSpace c = true := by
  constructor
  · intro h c hc
    by_contra hspace
    have hmem := mem_strip_of_mem hc (by simpa using hspace)
    rw [h] at hmem
    cases hmem
  · exact trimBy_of_spaces

theorem strip_append_newline_iff {a b : Text} :
    strip (a ++ '\n' :: b) = [] ↔ strip a = [] ∧ strip b = [] := by
  simp only [strip_eq_nil_iff, List.forall_mem_append, List.forall_mem_cons]
  exact and_congr_right fun _ => and_iff_right (by decide)

theorem strip_joinLines_eq_nil_iff {lines : List Text} :
    strip (joinLines lines) = [] ↔ ∀ line ∈ lines, strip line = [] := by
  have hnil : strip [] = [] := rfl
  induction lines with
  | nil => exact iff_of_true (by decide) (fun line hline => by cases hline)
  | cons line lines ih =>
    rw [List.forall_mem_cons]
    cases lines with
    | nil =>
      rw [joinLines, List.intercalate_singleton, strip_append_newline_iff, hnil]
      simp
    | cons next lines =>
      have hjoin : joinLines (line :: next :: lines) = line ++ '\n' :: joinLines (next :: lines) := by
        rw [joinLines, List.intercalate_cons_cons, joinLines]
        simp [lit]
      rw [hjoin, strip_append_newline_iff]
      exact and_congr_right fun _ => ih

/-- A number is taken if there is such a rule, and a line that is not blank besides. -/
theorem opDelRule_isSome_iff {num : Int} {txt : Text} :
    (opDelRule num txt).isSome = true ↔ 1 ≤ num ∧ num ≤ (ruleEntries txt).length ∧
      1 < (linesOf txt).countP fun line => strip line ≠ [] := by
  by_cases hrange : 1 ≤ num ∧ num ≤ (ruleEntries txt).length
  · obtain ⟨hone, hle⟩ := hrange
    have hlt : num.toNat - 1 < (ruleEntries txt).length := by omega
    have hdrop := List.getElem?_eq_getElem hlt
    generalize (ruleEntries txt)[num.toNat - 1] = drop at hdrop
    obtain ⟨raw, hraw, hentry, -⟩ := positions_spec hdrop
    have hblank : strip raw ≠ [] := by
      intro hnil
      rw [isRuleEntry, hnil] at hentry
      cases hentry
    -- the line goes, and the others stay
    have hcount : (linesOf txt).countP (fun line => strip line ≠ []) =
        ((linesOf txt).eraseIdx drop).countP (fun line => strip line ≠ []) + 1 := by
      rw [List.eraseIdx_eq_take_drop_succ, List.countP_append]
      conv_lhs => rw [split_at_index hraw, List.countP_append, List.countP_cons]
      simp only [hblank, ne_eq, not_false_eq_true, decide_true, if_true]
      omega
    have hdel : opDelRule num txt = opSetRules (joinLines ((linesOf txt).eraseIdx drop)) := by
      rw [opDelRule, if_neg (by omega), hdrop]
    have hleft : strip (joinLines ((linesOf txt).eraseIdx drop)) ≠ [] ↔
        0 < ((linesOf txt).eraseIdx drop).countP (fun line => strip line ≠ []) := by
      rw [ne_eq, strip_joinLines_eq_nil_iff, List.countP_pos_iff]
      simp
    rw [hdel, hcount, opSetRules]
    by_cases hnil : strip (joinLines ((linesOf txt).eraseIdx drop)) = []
    · rw [if_pos hnil]
      have hzero := mt hleft.mpr (not_not_intro hnil)
      simp only [Option.isSome_none, Bool.false_eq_true, false_iff]
      omega
    · rw [if_neg hnil]
      have hpos := hleft.mp hnil
      simp only [Option.isSome_some, true_iff]
      omega
  · have hdel : opDelRule num txt = none := by
      rw [opDelRule, if_pos (by omega)]
    rw [hdel]
    simp only [Option.isSome_none, Bool.false_eq_true, false_iff]
    omega

/-! ## Runs -/

/-- An edit of the file that is committed, and what it is on the rules. -/
def editStep (H : Host) (s : Text × List RuleLine) (e : Edit) : Option (Text × List RuleLine) :=
  (e.apply H s.1).map fun text => (text, onRules H s.2 e)

/-- The entry of a rule in the configuration of the router. -/
def ruleEntry (H : Host) (E : Exits) (m : PolicyMap) : RuleLine → Option (Entry Cond Target)
  | .final policy => some ⟨none, H.resolveTarget E m (policy.getD H.defaultTarget)⟩
  | .rule head value policy =>
    (H.cond? head value).map fun k => ⟨some k, H.resolveTarget E m policy⟩
  | _ => none

theorem entry?_eq (E : Exits) (m : PolicyMap) (raw : Text) :
    H.entry? E m raw = (readRule H raw).bind (ruleEntry H E m) := by
  unfold readRule
  by_cases hblank : ruleText raw = []
  · rw [if_pos hblank, Host.entry?, Host.parseLine, hblank]
    rfl
  · rw [if_neg hblank, Host.entry?, Option.bind_some]
    cases H.parseLine raw with
    | _ => rfl

/-- **`editStep_reads`** — an edit of the text is the edit of the rules. -/
theorem editStep_reads (hU : H.Uppers) {s s' : Text × List RuleLine} {e : Edit}
    (hsame : SameRules H s.1) (hread : readRules H s.1 = s.2) (hplain : Plainly H s.1 e)
    (hstep : editStep H s e = some s') : SameRules H s'.1 ∧ readRules H s'.1 = s'.2 := by
  obtain ⟨text, htext, rfl⟩ := Option.map_eq_some_iff.mp hstep
  show SameRules H text ∧ readRules H text = onRules H s.2 e
  rw [← hread]
  cases e with
  | addRule line => exact (addRule_onRules hsame hplain htext).symm
  | delRule num => exact (delRule_onRules hsame htext).symm
  | importRuleset url target usable => exact (importRuleset_onRules hsame hplain htext).symm
  | setFinal target => exact (setFinal_onRules hU hsame hplain.1 hplain.2 htext).symm
  | proxyDomain domain target => exact hplain.elim

end Numbers

/-- **`numbered_edits`** — take a file that reads alike in both ways, and any edits of the bot, one after
the other; `rules` is what they come to on the list of rules.  Then the router reads this list, and puts
it behind the built-in rules; the bot shows it; and a number is taken exactly if it stands before one of
its rules and something is left in the file. -/
theorem numbered_edits {H : Host} (hU : H.Uppers) {file text : Text} {rules : List RuleLine}
    (hsame : SameRules H file)
    (h : Reaches (editStep H) (fun s e => Plainly H s.1 e) (file, readRules H file) (text, rules)) :
    readRules H text = rules ∧
      (∀ (E : Exits) (m : PolicyMap) (defaults : DefaultRules) (cfg : MihomoConfig),
        H.mihomoConfig E m (defaults.effective text) = .ok cfg →
          cfg.rules = (pyLines defaults.text).filterMap (H.entry? E m) ++
            rules.filterMap (ruleEntry H E m)) ∧
      (shownRules (readFile text)).map H.parseLine = rules ∧
      ∀ num, (opDelRule num (readFile text)).isSome = true ↔
        1 ≤ num ∧ num ≤ rules.length ∧
          1 < (linesOf (readFile text)).countP fun line => strip line ≠ [] := by
  have hinv : SameRules H text ∧ readRules H text = rules := by
    have hpres : ∀ s e s', SameRules H s.1 ∧ readRules H s.1 = s.2 → Plainly H s.1 e →
        editStep H s e = some s' → SameRules H s'.1 ∧ readRules H s'.1 = s'.2 := by
      intro s e s' hs hplain hstep
      exact editStep_reads hU hs.1 hs.2 hplain hstep
    exact @Reaches.invariant _ _ _ _ _ _
      (fun s => SameRules H s.1 ∧ readRules H s.1 = s.2) ⟨hsame, rfl⟩ hpres h
  obtain ⟨hsame', hread⟩ := hinv
  have hshown : (shownRules (readFile text)).map H.parseLine = rules := by
    rw [shownRules_read, ← hread]
    exact hsame'
  refine ⟨hread, fun E m defaults cfg hcfg => ?_, hshown, fun num => ?_⟩
  · rw [mihomoConfig_rules hcfg, DefaultRules.effective,
      filterMap_pyLines_terminated (entry?_nil H E m) defaults.terminated, ← hread, readRules,
      List.filterMap_filterMap]
    congr 1
    exact List.filterMap_congr fun raw _ => entry?_eq E m raw
  · have hlength : (ruleEntries (readFile text)).length = rules.length := by
      rw [← hshown, shownRules, List.length_map, List.length_map, ← List.countP_eq_length_filter]
      exact length_positions isRuleEntry _
    rw [opDelRule_isSome_iff, hlength]

/-- A comment and two rules; a rule is added, the default is set, and number 1 is deleted. -/
def twoRules : Text := lit "# mine\nDOMAIN,a.com,us\nFINAL,direct\n"

def threeRules : Text := lit "# mine\nDOMAIN,a.com,us\nFINAL,direct\nDOMAIN,b.com,us\n"

theorem numbered_edits_two : ∃ text,
    readRules plainHost text =
        [.final (some (lit "us")), .rule (lit "DOMAIN") (lit "b.com") (lit "us")] ∧
      (opDelRule 2 (readFile text)).isSome = true := by
  have hsame : SameRules plainHost twoRules := by
    unfold SameRules
    decide
  have hline : Plainly plainHost twoRules (.addRule (lit " DOMAIN,b.com,us")) := by
    show SameRules plainHost (strip (lit " DOMAIN,b.com,us"))
    unfold SameRules
    decide
  have hfinal : Plainly plainHost threeRules (.setFinal (lit "us")) :=
    ⟨⟨by decide, by decide, List.all_iff_forall_prop.mp (by decide)⟩, by decide⟩
  have hstart : Reaches (editStep plainHost) (fun s e => Plainly plainHost s.1 e)
    (twoRules, readRules plainHost twoRules) (twoRules, readRules plainHost twoRules) := .init
  have hadd : editStep plainHost (twoRules, readRules plainHost twoRules)
      (.addRule (lit " DOMAIN,b.com,us")) = some (threeRules, readRules plainHost threeRules) := by
    decide
  have hset : editStep plainHost (threeRules, readRules plainHost threeRules) (.setFinal (lit "us")) =
      some (lit "# mine\nDOMAIN,a.com,us\nFINAL,us\nDOMAIN,b.com,us\n",
        [.rule (lit "DOMAIN") (lit "a.com") (lit "us"), .final (some (lit "us")),
          .rule (lit "DOMAIN") (lit "b.com") (lit "us")]) := by
    decide
  have hdel : editStep plainHost (lit "# mine\nDOMAIN,a.com,us\nFINAL,us\nDOMAIN,b.com,us\n",
        [.rule (lit "DOMAIN") (lit "a.com") (lit "us"), .final (some (lit "us")),
          .rule (lit "DOMAIN") (lit "b.com") (lit "us")]) (.delRule 1) =
      some (lit "# mine\nFINAL,us\nDOMAIN,b.com,us\n",
        [.final (some (lit "us")), .rule (lit "DOMAIN") (lit "b.com") (lit "us")]) := by
    decide
  have hnumber : Plainly plainHost (lit "# mine\nDOMAIN,a.com,us\nFINAL,us\nDOMAIN,b.com,us\n")
    (.delRule 1) := trivial
  have hreaches := ((hstart.step hline hadd).step hfinal hset).step hnumber hdel
  obtain ⟨hread, -, -, hnumbers⟩ := numbered_edits uppers_plainHost hsame hreaches
  exact ⟨_, hread, (hnumbers 2).mpr ⟨by decide, by decide, by decide⟩⟩

end ProxyGateway.Bot
