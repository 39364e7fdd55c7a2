/-
# ProxyGateway.Smart.Extract — the domains of a downloaded rule set

`rules-import.py --extract-domains` fetches a rule set, guesses its format from its start and prints
the names it finds, sorted, on standard output; how many they are it says on standard error.  A list
with commas and a plain list only yield what matches the pattern of a domain name
(`isDomain_of_mem_extractDomains`).  A Clash payload is turned into rules first, and every rule counts
there: the keywords and the networks of the list are printed among its domains.
-/
import ProxyGateway.Dns.GfwList
import ProxyGateway.Smart.Import
import ProxyGateway.Smart.SeedCoverage

namespace ProxyGateway.Smart

open ProxyGateway.Lang ProxyGateway.Dns

/-! ## Pieces of the parsers -/

/-- `t.strip("'\"")` -/
def stripBothQuotes (t : Text) : Text :=
  let quote := fun c : Char => c.toNat = 34 || c.toNat = 39
  (t.dropWhile quote).rdropWhile quote

/-- `line.lstrip("- ")` -/
def stripDashes (t : Text) : Text := t.dropWhile fun c => c = '-' || c = ' '

/-- `t.rstrip(".")` -/
def rstripDots (t : Text) : Text := t.rdropWhile (· == '.')

/-- `re.sub(r"^[*+]?\.", "", t)` -/
def cutWildcard : Text → Text
  | '*' :: '.' :: t => t
  | '+' :: '.' :: t => t
  | '.' :: t => t
  | t => t

/-- A line that starts with one of the marks. -/
def startsWithMark (marks line : Text) : Bool := line.head?.any (· ∈ marks)

inductive RuleFormat where
  | csv
  | clash
  | plain
  deriving DecidableEq, Repr

section Extract

variable (I : Importer)

/-- **`detect_format`** on the start of the file; none where it raises. -/
def Importer.detectFormat (start url : Text) : Option RuleFormat :=
  if lit ".srs" <:+ I.lower url then none
  else if [lit "payload:", lit "rules:", lit "rule-providers:", lit "\x7b"].any
      (·.isPrefixOf (strip start)) then some .clash
  else
    let lines := (splitlines start).filter fun l =>
      strip l ≠ [] && !startsWithMark (lit "#;![") (strip l)
    let header := fun l => [lit "domain,", lit "domain-suffix,", lit "ip-cidr,", lit "rule-set,",
      lit "geosite,", lit "geoip,"].any fun word => (afterWord word l).isSome
    if lines.head?.any header then some .csv else some .plain

/-- A line of a list with commas. -/
def Importer.csvDomain (line : Text) : Option Text :=
  match csvSplit (strip line) with
  | typ :: value :: _ =>
    let d := (strip value).dropWhile (· = '.')
    if I.upper typ ∈ [lit "DOMAIN", lit "DOMAIN-SUFFIX"] ∧ isDomain d = true then some d else none
  | _ => none

/-- A line of a Clash payload as a rule. -/
def Importer.clashRule (line : Text) : Option Text :=
  let line := stripBothQuotes (strip (stripDashes line))
  if ',' ∈ line then
    let parts := (line.splitOn ',').map fun part => stripBothQuotes (strip part)
    let t := I.upper (parts.head?.getD [])
    let v := (parts.drop 1).head?.getD []
    let suffix := v.dropWhile (· = '.')
    if t ∈ [lit "DOMAIN", lit "HOST"] ∧ isDomain v = true then some (lit "DOMAIN," ++ v)
    else if t ∈ [lit "DOMAIN-SUFFIX", lit "HOST-SUFFIX"] ∧ isDomain suffix = true then
      some (lit "DOMAIN-SUFFIX," ++ suffix)
    else if t ∈ [lit "DOMAIN-KEYWORD", lit "HOST-KEYWORD"] ∧ v ≠ [] then
      some (lit "DOMAIN-KEYWORD," ++ v)
    else if t ∈ [lit "IP-CIDR", lit "IP-CIDR6"] ∧ v ≠ [] then some (lit "IP-CIDR," ++ v)
    else none
  else
    let v := rstripDots (cutWildcard line)
    if isDomain v = true then some (lit "DOMAIN-SUFFIX," ++ v) else none

/-- The loop of `parse_clash_yaml`, `payload` once that key was seen.  Before it the loop also looks
for other keys, but skips the line either way. -/
def Importer.clashLoop : Bool → List Text → List Text
  | _, [] => []
  | payload, raw :: lines =>
    let line := strip raw
    if line = [] ∨ startsWithMark (lit "#!;") line = true then Importer.clashLoop payload lines
    else if (lit "payload:").isPrefixOf line then Importer.clashLoop true lines
    else if payload then (I.clashRule line).toList ++ Importer.clashLoop true lines
    else Importer.clashLoop false lines

/-- **`parse_clash_yaml`** -/
def Importer.parseClashYaml (text : Text) : List Text := I.clashLoop false (splitlines text)

/-- A line of a plain list as a rule. -/
def plainRule (raw : Text) : Option Text :=
  let line := strip (before ';' (before '#' raw))
  if line = [] ∨ startsWithMark (lit "![") line = true then none
  else
    let v := cutWildcard (rstripDots (stripBothQuotes (strip (stripDashes line))))
    if isDomain v = true then some (lit "DOMAIN-SUFFIX," ++ v) else none

/-- **`parse_plain_list`** -/
def parsePlainList (text : Text) : List Text := (splitlines text).filterMap plainRule

/-- `parts[1].strip()`, where a rule has two parts. -/
def ruleValue (rule : Text) : Text := strip (after ',' rule)

/-- The names in the text of a rule set, before they are sorted. -/
def Importer.ruleSetDomains (text : Text) : RuleFormat → List Text
  | .csv => (splitlines text).filterMap I.csvDomain
  | .clash => (I.parseClashYaml text).map ruleValue
  | .plain => (parsePlainList text).map ruleValue

/-- **`extract_domains`** on the text of a rule set. -/
def Importer.extractDomains (url text : Text) : Option (List Text) :=
  (I.detectFormat (text.take 4096) url).map fun fmt =>
    sortUnique (I.ruleSetDomains text fmt)

end Extract

/-! ## What is extracted -/

section Lemmas

variable {I : Importer}

theorem isDomain_of_csvDomain {line d : Text} (h : I.csvDomain line = some d) : isDomain d = true := by
  unfold Importer.csvDomain at h
  split at h
  · dsimp only at h
    split at h
    · next hcond =>
      obtain rfl := Option.some.inj h
      exact hcond.2
    · nomatch h
  · nomatch h

/-- A domain name has neither spaces nor commas. -/
theorem isDomain_chars {d : Text} (h : isDomain d = true) {c : Char} (hc : c ∈ d) :
    c.isAlphanum = true ∨ c = '_' ∨ c = '-' ∨ c = '.' := by
  by_cases hdot : c = '.'
  · exact .inr (.inr (.inr hdot))
  · obtain ⟨label, hlabel, hin⟩ := exists_piece_of_mem hc hdot
    have hall := List.all_eq_true.mp (Bool.and_eq_true_iff.mp h).2 label hlabel
    have hchar := List.all_eq_true.mp (Bool.and_eq_true_iff.mp (Bool.and_eq_true_iff.mp hall).1).1 c hin
    simp only [Bool.or_eq_true, beq_iff_eq, or_assoc] at hchar
    tauto

theorem isSpace_of_isAlphanum {c : Char} (h : c.isAlphanum = true) : isSpace c = false := by
  have hrange := toNat_of_isAlphanum h
  simp only [isSpace, Bool.or_eq_false_iff, Bool.and_eq_false_iff, beq_eq_false_iff_ne,
    decide_eq_false_iff_not]
  omega

theorem noSpace_of_isDomain {d : Text} (h : isDomain d = true) : ∀ c ∈ d, isSpace c = false := by
  intro c hc
  rcases isDomain_chars h hc with h | rfl | rfl | rfl
  · exact isSpace_of_isAlphanum h
  · decide
  · decide
  · decide

theorem ruleValue_suffix {d : Text} (h : isDomain d = true) :
    ruleValue (lit "DOMAIN-SUFFIX," ++ d) = d := strip_of_noSpace (noSpace_of_isDomain h)

theorem isDomain_of_plainRule {raw rule : Text} (h : plainRule raw = some rule) :
    isDomain (ruleValue rule) = true := by
  unfold plainRule at h
  dsimp only at h
  split at h
  · nomatch h
  · split at h
    · next hv =>
      rw [← Option.some.inj h, ruleValue_suffix hv]
      exact hv
    · nomatch h

/-- **`isDomain_of_mem_extractDomains`** — outside of a Clash payload only names are extracted. -/
theorem isDomain_of_mem_extractDomains {url text : Text} {names : List Text}
    (hfmt : I.detectFormat (text.take 4096) url ≠ some .clash)
    (h : I.extractDomains url text = some names) : ∀ d ∈ names, isDomain d = true := by
  intro d hd
  unfold Importer.extractDomains at h
  cases hformat : I.detectFormat (text.take 4096) url with
  | none =>
    rw [hformat] at h
    nomatch h
  | some fmt =>
    rw [hformat] at h hfmt
    rw [Option.map_some, Option.some.injEq] at h
    subst h
    rw [mem_sortUnique] at hd
    cases fmt with
    | csv =>
      obtain ⟨line, -, hline⟩ := List.mem_filterMap.mp hd
      exact isDomain_of_csvDomain hline
    | clash => exact absurd rfl hfmt
    | plain =>
      obtain ⟨rule, hrule, rfl⟩ := List.mem_map.mp hd
      obtain ⟨raw, -, hraw⟩ := List.mem_filterMap.mp hrule
      exact isDomain_of_plainRule hraw

end Lemmas

end ProxyGateway.Smart
