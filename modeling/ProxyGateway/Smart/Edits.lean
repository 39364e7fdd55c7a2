/-
# ProxyGateway.Smart.Edits — edits of `rules.conf`, as functions on its text

The bot reads the file through `_read_file` (text mode, stripped), builds a whole new text and pipes
it into `--set-rules`; `proxy_domain` of the management script filters the file with `grep` and puts
one rule on top.  Here each edit is the function from the text it starts from to the text it wants
committed, with `none` where it refuses.  Who runs them, and when, is left to the modules after this
one.
-/
import ProxyGateway.Smart.RuleText

namespace ProxyGateway.Smart

open ProxyGateway.Lang

/-- **`_read_file`**; a missing file reads as an empty one. -/
def readFile (file : Text) : Text := strip (universalNewlines file)

/-- `txt.rstrip("\n")` -/
def rstripNewlines (t : Text) : Text := t.rdropWhile (· == '\n')

theorem rstripNewlines_readFile (file : Text) : rstripNewlines (readFile file) = readFile file := by
  refine rdropWhile_strip (fun c hc => ?_) _
  obtain rfl : c = '\n' := by simpa using hc
  rfl

/-- What `op_set_rules` pipes into `--set-rules`. -/
def opSetRules (text : Text) : Option Text := if strip text = [] then none else some text

/-- **`op_add_rule`** -/
def opAddRule (line txt : Text) : Option Text :=
  let line := strip line
  if line = [] then none
  else opSetRules <|
    if strip txt ≠ [] then rstripNewlines txt ++ '\n' :: (line ++ ['\n']) else line ++ ['\n']

theorem opAddRule_eq_some {line txt text : Text} (h : opAddRule line txt = some text) :
    text = if strip txt ≠ [] then rstripNewlines txt ++ '\n' :: (strip line ++ ['\n'])
      else strip line ++ ['\n'] := by
  unfold opAddRule at h
  by_cases hline : strip line = []
  · simp [hline] at h
  · simp only [hline, if_false, opSetRules] at h
    generalize (if strip txt ≠ [] then _ else _) = out at h ⊢
    by_cases hblank : strip out = []
    · simp [hblank] at h
    · simpa [hblank] using h.symm

/-- `txt.splitlines()` of a stripped text, which has no line end at its end. -/
def linesOf (txt : Text) : List Text := if txt = [] then [] else splitlines txt

/-- `s.upper().startswith("FINAL,")` -/
def Host.startsFinal (H : Host) (s : Text) : Bool := (lit "FINAL,").isPrefixOf (H.upper s)

/-- `"\n".join(lines) + "\n"` -/
def joinLines (lines : List Text) : Text := (lit "\n").intercalate lines ++ ['\n']

/-- **`op_set_final`** -/
def Host.opSetFinal (H : Host) (target txt : Text) : Option Text :=
  let final := lit "FINAL," ++ target
  let lines := (linesOf txt).filterMap fun line =>
    let s := strip line
    if H.startsFinal s then some final else if s ≠ [] then some s else none
  let replaced := (linesOf txt).any fun line => H.startsFinal (strip line)
  opSetRules (joinLines (if replaced then lines else lines ++ [final]))

/-- A line that `_rule_entries` counts. -/
def isRuleEntry (line : Text) : Bool :=
  match strip line with
  | [] => false
  | c :: _ => c != '#' && c != ';'

/-- The positions of the lines that `_rule_entries` counts. -/
def ruleEntries (txt : Text) : List Nat :=
  ((linesOf txt).zipIdx.filter (isRuleEntry ·.1)).map Prod.snd

/-- **`op_del_rule`**, of the entry with number `num`, from 1 on. -/
def opDelRule (num : Int) (txt : Text) : Option Text :=
  if num < 1 ∨ (ruleEntries txt).length < num then none
  else match (ruleEntries txt)[num.toNat - 1]? with
    | some drop => opSetRules (joinLines ((linesOf txt).eraseIdx drop))
    | none => none

/-- The target that `op_import_ruleset` falls back on. -/
def importTarget (target : Text) : Text := if strip target = [] then lit "Proxy" else strip target

/-- **`op_import_ruleset`**; `usable` says whether the converter found rules behind the URL. -/
def opImportRuleset (url target : Text) (usable : Bool) (txt : Text) : Option Text :=
  if usable then
    some (rstripNewlines txt ++ '\n' ::
      (lit "RULE-SET," ++ url ++ ',' :: importTarget target ++ ['\n']))
  else none

/-- The lines of a file as `grep` reads them. -/
def shLines (file : Text) : List Text :=
  if file.getLast? = some '\n' then (file.splitOn '\n').dropLast
  else if file = [] then [] else file.splitOn '\n'

/-- The rule that `proxy_domain` puts on top. -/
def domainRule (domain target : Text) : Text := lit "DOMAIN-SUFFIX," ++ domain ++ ',' :: target

/-- **`proxy_domain`**: the candidate `rules.conf`.  A domain has passed the check
`^[a-z0-9.-]+$`, so with its dots escaped it stands for itself in the pattern. -/
def proxyDomainText (domain target file : Text) : Text :=
  let rest := (shLines file).filter fun line =>
    !(lit "DOMAIN-SUFFIX," ++ domain ++ [',']).isPrefixOf line
  (domainRule domain target :: rest).flatMap (· ++ ['\n'])

/-! ## The built-in rules -/

/-- **`DefaultRules`** — the built-in rules, which precede every candidate: an installed file that
ends each of its lines. -/
structure DefaultRules where
  text : Text
  terminated : Terminated text

def noDefaults : DefaultRules := ⟨[], .inl rfl⟩

/-- The rules that `build_smart_candidate` gives the generator. -/
def DefaultRules.effective (d : DefaultRules) (rules : Text) : Text := d.text ++ rules

end ProxyGateway.Smart
