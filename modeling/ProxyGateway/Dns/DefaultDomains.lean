/-
# ProxyGateway.Dns.DefaultDomains — `append_default_rule_domains`

A built-in rule that sends a site through an exit is of no use unless the site's clients come to the
gateway at all: dnsdist has to answer with the gateway's own address.  So each update derives names
from `rules-default.conf`, from its lines and from the rule sets that these name, and adds them to
`gfwlist.lua`; lines for direct and block are left out.

`defaultNames` is the Python part, `appendDefaultRuleDomains` the loop in bash around it, which keeps
an index of the names in the file (`runDefaults_lua`).  The lines are read by another parser than the
router's.  `default_rules_hijacked` follows a rule as the router reads it (`Sends`) through all of it, to
the answer that a client gets, and back from an answer to a line.
-/
import ProxyGateway.Dns.LocalExtras
import ProxyGateway.Dns.SpoofPolicy
import ProxyGateway.Smart.ExtractEntries

namespace ProxyGateway.Dns

open ProxyGateway.Lang ProxyGateway.Firewall
open ProxyGateway.Smart

/-! ## The Python part -/

/-- `for p in ("+.", "*."): if s.startswith(p): s = s[2:]` -/
def cutMarks (t : Text) : Text :=
  let t := if (lit "+.").isPrefixOf t then t.drop 2 else t
  if (lit "*.").isPrefixOf t then t.drop 2 else t

/-- **`clean`** -/
def clean (t : Text) : Text :=
  cutWww (rstripDots ((cutMarks (stripBothQuotes (strip t))).dropWhile (· == '.')))

/-- `d = clean(s)`, if `DOM.match(d)`. -/
def cleanDomain (t : Text) : Option Text := if isDomain (clean t) then some (clean t) else none

/-- `("DOMAIN", "HOST", "DOMAIN-SUFFIX", "HOST-SUFFIX")` -/
def domainTypes : List Text :=
  [lit "DOMAIN", lit "HOST", lit "DOMAIN-SUFFIX", lit "HOST-SUFFIX"]

/-- `("direct", "dir", "block", "reject")` -/
def localCategories : List Text := [lit "direct", lit "dir", lit "block", lit "reject"]

section Derive

variable (H : Smart.Host)

/-- A line of a rule set as a name: the body of the loop in `from_list`. -/
def listName (raw : Text) : Option Text :=
  let l := strip (before '#' raw)
  if l = [] ∨ (lit "payload").isPrefixOf (H.lower l) = true ∨ startsWithMark (lit "!;") l = true then
    none
  else
    let l := stripBothQuotes (strip (stripDashes l))
    if ',' ∈ l then
      let parts := (l.splitOn ',').map fun part => stripBothQuotes (strip part)
      if H.upper (parts.head?.getD []) ∈ domainTypes then
        cleanDomain ((parts.drop 1).head?.getD [])
      else none
    else cleanDomain l

/-- **`from_list`** -/
def fromList (text : Text) : List Text := (splitlines text).filterMap (listName H)

/-- The names of one line of the default rules; `fetch` is the decoded answer to a URL, if there is
one. -/
def lineNames (fetch : Text → Option Text) (raw : Text) : List Text :=
  match fields (strip (before '#' raw)) with
  | typ :: value :: rest =>
    if H.lower ((value :: rest).getLast (List.cons_ne_nil _ _)) ∈ localCategories then []
    else if H.upper typ ∈ domainTypes then (cleanDomain value).toList
    else if H.upper typ = lit "RULE-SET" ∧ (lit "http").isPrefixOf value = true then
      ((fetch value).map (fromList H)).getD []
    else []
  | _ => []

theorem isDomain_of_cleanDomain {t name : Text} (h : cleanDomain t = some name) :
    isDomain name = true := by
  unfold cleanDomain at h
  split at h <;> cases h
  assumption

theorem isDomain_of_listName {raw name : Text} (h : listName H raw = some name) :
    isDomain name = true := by
  simp only [listName] at h
  split at h
  · cases h
  · split at h
    · split at h
      · exact isDomain_of_cleanDomain h
      · cases h
    · exact isDomain_of_cleanDomain h

/-- Only domain names are printed. -/
theorem isDomain_of_mem_lineNames {fetch : Text → Option Text} {raw name : Text}
    (h : name ∈ lineNames H fetch raw) : isDomain name = true := by
  unfold lineNames at h
  split at h
  · split at h
    · cases h
    · split at h
      · exact isDomain_of_cleanDomain (Option.mem_toList.mp h)
      · split at h
        · rename_i typ value rest hparts hcat htyp hset
          cases hf : fetch value with
          | none =>
            rw [hf] at h
            cases h
          | some text =>
            rw [hf] at h
            obtain ⟨line, -, hline⟩ := List.mem_filterMap.mp h
            exact isDomain_of_listName H hline
        · cases h
  · cases h

/-- **`defaultNames`** — what the Python part prints: the names of all lines, sorted. -/
def defaultNames (fetch : Text → Option Text) (file : Text) : DerivedNames where
  names := sortUnique ((pyLines file).flatMap (lineNames H fetch))
  valid := by
    intro name hname
    obtain ⟨raw, -, hraw⟩ := List.mem_flatMap.mp (mem_sortUnique.mp hname)
    exact isDomain_of_mem_lineNames H hraw

theorem mem_defaultNames {fetch : Text → Option Text} {file name : Text} :
    name ∈ (defaultNames H fetch file).names ↔
      ∃ raw ∈ pyLines file, name ∈ lineNames H fetch raw := by
  unfold defaultNames
  rw [mem_sortUnique, List.mem_flatMap]

end Derive

/-! ## The loop -/

/-- What the loop changes. -/
structure HijackRun where
  /-- `gfwlist.lua`, line by line -/
  lua : List Text
  /-- `gfwlist.domains` -/
  index : List Text
  added : Nat

/-- The body of the loop. -/
def hijackLine (s : HijackRun) (domain : Text) : HijackRun :=
  if domain = [] then s
  else if domain ∈ s.index then s
  else
    { lua := s.lua ++ [gfwLine domain], index := s.index ++ [domain], added := s.added + 1 }

/-- `domains="$(...)"`: the lines that Python prints, without the newlines at the end. -/
def printed (names : List Text) : Text := captured (names.flatMap fun name => name ++ ['\n'])

/-- The loop over `<<< "${domains}"`, behind the index. -/
def runDefaults (names lua : List Text) : HijackRun :=
  (readLines (printed names ++ ['\n'])).foldl hijackLine ⟨lua, sortUnique (namesOf lua), 0⟩

/-- **`append_default_rule_domains`** — the lines of `gfwlist.lua`, and what is printed; `defaults` is
`rules-default.conf`, if there is one. -/
def appendDefaultRuleDomains (H : Smart.Host) (fetch : Text → Option Text) (defaults : Option Text)
    (lua : Option (List Text)) : Option (List Text) × List Text :=
  match defaults with
  | none => (lua, [])
  | some file =>
    let s := runDefaults (defaultNames H fetch file).names (lua.getD [])
    (some s.lua,
      [lit "[*] Hijacking domains from default smart rules (so they enter the proxy)...",
        lit "[+] Default-rule hijack domains: " ++ decimal s.added])

/-- A here-string puts back the last newline that the command substitution took. -/
theorem printed_append {names : List Text} (hne : names ≠ [])
    (h : ∀ name ∈ names, isDomain name = true) :
    printed names ++ ['\n'] = names.flatMap fun name => name ++ ['\n'] := by
  obtain ⟨init, last, rfl⟩ := (List.eq_nil_or_concat' names).resolve_left hne
  have hlast := h last (by simp)
  have hnil : last ≠ [] := by
    rintro rfl
    cases hlast
  have hnl := (stringBody_of_isDomain hlast).newline
  rw [printed, List.flatMap_append, List.flatMap_singleton, ← List.append_assoc]
  congr 1
  rw [captured, List.rdropWhile_concat_pos _ _ _ (by rfl)]
  refine captured_eq_self_iff.mpr fun hend => hnl ?_
  rw [List.getLast?_append_of_ne_nil _ hnil] at hend
  exact List.mem_of_getLast? hend

/-- A domain name is a line of its own, without NUL. -/
theorem readLines_flatMap {names : List Text} (h : ∀ name ∈ names, isDomain name = true) :
    readLines (names.flatMap fun name => name ++ ['\n']) = names ++ [[]] := by
  induction names with
  | nil => rfl
  | cons name names ih =>
    have hname := h name (List.mem_cons_self ..)
    have hnl := (stringBody_of_isDomain hname).newline
    have hnul : name.filter (· != Char.ofNat 0) = name := by
      refine List.filter_eq_self.mpr fun c hc => ?_
      rcases isDomain_chars hname hc with halnum | rfl | rfl | rfl
      · have hrange := toNat_of_isAlphanum halnum
        refine bne_iff_ne.mpr ?_
        rintro rfl
        revert hrange
        decide
      · decide
      · decide
      · decide
    have hrest := ih fun n hn => h n (List.mem_cons_of_mem _ hn)
    rw [readLines] at hrest ⊢
    rw [List.flatMap_cons, List.append_assoc, List.filter_append, hnul, List.singleton_append,
      List.filter_cons_of_pos (by decide), List.splitOn_append_cons_self,
      List.splitOn_eq_singleton hnl, hrest]
    rfl

/-- The names are read back from what was printed, with blank lines around them. -/
theorem readLines_printed {names : List Text} (h : ∀ name ∈ names, isDomain name = true) :
    (readLines (printed names ++ ['\n'])).filter (· ≠ []) = names := by
  by_cases hne : names = []
  · subst hne
    decide
  · rw [printed_append hne h, readLines_flatMap h, List.filter_append,
      List.filter_eq_self.mpr fun name hname => ?_]
    · exact List.append_nil _
    · have hnil : name ≠ [] := by
        rintro rfl
        cases h [] hname
      simpa using hnil

theorem hijackLine_lua {s : HijackRun} (h : ∀ name, name ∈ s.index ↔ name ∈ namesOf s.lua)
    {domain : Text} (hne : domain ≠ []) :
    (hijackLine s domain).lua = appendNames s.lua [domain] ∧
      ∀ name, name ∈ (hijackLine s domain).index ↔ name ∈ namesOf (hijackLine s domain).lua := by
  unfold hijackLine
  rw [if_neg hne]
  show _ = (if domain ∈ namesOf s.lua then s.lua else _) ∧ _
  split
  · rename_i hin
    rw [if_pos ((h domain).mp hin)]
    exact ⟨rfl, h⟩
  · rename_i hout
    rw [if_neg (mt (h domain).mpr hout)]
    refine ⟨rfl, fun name => ?_⟩
    show name ∈ s.index ++ [domain] ↔ name ∈ namesOf (s.lua ++ [gfwLine domain])
    rw [namesOf_concat, List.mem_append, List.mem_append, h name]

/-- **`runDefaults_lua`** — the loop adds the names as if it read the file for each. -/
theorem runDefaults_lua {names : List Text} (h : ∀ name ∈ names, isDomain name = true)
    (lua : List Text) : (runDefaults names lua).lua = appendNames lua names := by
  have hall : ∀ (lines : List Text) (s : HijackRun),
      (∀ name, name ∈ s.index ↔ name ∈ namesOf s.lua) →
      (lines.foldl hijackLine s).lua = appendNames s.lua (lines.filter (· ≠ [])) := by
    intro lines
    induction lines with
    | nil => exact fun s _ => rfl
    | cons line lines ih =>
      intro s hs
      by_cases hline : line = []
      · rw [List.foldl_cons, List.filter_cons_of_neg (by simpa using hline), hijackLine,
          if_pos hline]
        exact ih s hs
      · obtain ⟨hlua, hindex⟩ := hijackLine_lua hs hline
        rw [List.foldl_cons, List.filter_cons_of_pos (by simpa using hline), ih _ hindex, hlua]
        rfl
  rw [runDefaults, hall _ _ fun name => mem_sortUnique, readLines_printed h]

/-! ## From a rule to the answer -/

/-- The labels of a name. -/
def labels (name : Text) : Name := name.splitOn '.'

/-- The node that `gfwlist.lua` builds when dnsdist runs it. -/
def gfwNode (lua : List Text) : SuffixNode := (namesOf lua).map labels

/-- A query name at or below a name, in any case of letters. -/
def Name.below (name : Text) (qname : Name) : Prop := (labels name).fold <:+ qname.fold

theorem check_gfwNode {lua : List Text} {name : Text} (h : name ∈ namesOf lua) {qname : Name}
    (hbelow : Name.below name qname) : (gfwNode lua).check qname = true :=
  List.any_eq_true.mpr ⟨labels name, List.mem_map_of_mem h, List.isSuffixOf_iff_suffix.mpr hbelow⟩

theorem below_of_check_gfwNode {lua : List Text} {qname : Name}
    (h : (gfwNode lua).check qname = true) : ∃ name ∈ namesOf lua, Name.below name qname := by
  obtain ⟨node, hnode, hsuffix⟩ := List.any_eq_true.mp h
  obtain ⟨name, hname, rfl⟩ := List.mem_map.mp hnode
  exact ⟨name, hname, List.isSuffixOf_iff_suffix.mp hsuffix⟩

/-- Without `www.` a name covers more. -/
theorem below_cutWww {name : Text} {qname : Name} (h : Name.below name qname) :
    Name.below (cutWww name) qname := by
  unfold cutWww
  split
  · rename_i hpre
    obtain ⟨rest, rfl⟩ := List.isPrefixOf_iff_prefix.mp hpre
    have hdrop : (lit "www." ++ rest).drop 4 = rest := List.drop_left' (by decide)
    have hlabels : labels (lit "www." ++ rest) = lit "www" :: labels rest := by
      rw [labels, show lit "www." ++ rest = lit "www" ++ '.' :: rest from rfl,
        List.splitOn_append_cons_self, List.splitOn_eq_singleton (by decide)]
      rfl
    rw [hdrop]
    unfold Name.below at h ⊢
    rw [hlabels] at h
    exact (List.suffix_cons _ _).trans h
  · exact h

/-- The last character of a name is no dot. -/
theorem rstripDots_of_isDomain {name : Text} (h : isDomain name = true) :
    rstripDots name = name := by
  refine List.rdropWhile_eq_self_iff.mpr fun hne hdot => ?_
  have hsplit := List.dropLast_append_getLast hne
  rw [beq_iff_eq.mp hdot] at hsplit
  rw [← hsplit, isDomain, List.splitOn_append_cons_self] at h
  have hall := List.all_eq_true.mp (Bool.and_eq_true_iff.mp h).2 [] (by simp)
  cases hall

/-- What `clean` makes of a name. -/
theorem clean_of_isDomain {name : Text} (h : isDomain name = true) : clean name = cutWww name := by
  have hnot : ∀ c, c.isAlphanum = false → c ≠ '_' → c ≠ '-' → c ≠ '.' → c ∉ name := by
    intro c h₁ h₂ h₃ h₄ hc
    rcases isDomain_chars h hc with hc | hc | hc | hc
    · rw [h₁] at hc
      cases hc
    · exact h₂ hc
    · exact h₃ hc
    · exact h₄ hc
  have hquotes : stripBothQuotes name = name := by
    have hquote : ∀ c ∈ name, (decide (c.toNat = 34) || decide (c.toNat = 39)) = false := by
      intro c hc
      have hchar : ∀ d : Char, d ∉ name → c.toNat ≠ d.toNat := by
        intro d hd heq
        exact hd (Char.toNat_inj.mp heq ▸ hc)
      have h34 : c.toNat ≠ 34 := hchar '"' (hnot _ (by decide) (by decide) (by decide) (by decide))
      have h39 : c.toNat ≠ 39 := hchar '\'' (hnot _ (by decide) (by decide) (by decide) (by decide))
      simp [h34, h39]
    rw [stripBothQuotes]
    have hfront : name.dropWhile (fun c => decide (c.toNat = 34) || decide (c.toNat = 39)) = name :=
      List.dropWhile_eq_self_iff.mpr fun hl hc => by
        rw [hquote _ (List.getElem_mem hl)] at hc
        cases hc
    rw [hfront]
    exact List.rdropWhile_eq_self_iff.mpr fun hl hc => by
      rw [hquote _ (List.getLast_mem hl)] at hc
      cases hc
  have hmark : ∀ c, c.isAlphanum = false → c ≠ '_' → c ≠ '-' → c ≠ '.' →
      ([c, '.'] : Text).isPrefixOf name = false := by
    intro c h₁ h₂ h₃ h₄
    rw [Bool.eq_false_iff]
    intro hpre
    obtain ⟨rest, rfl⟩ := List.isPrefixOf_iff_prefix.mp hpre
    exact hnot c h₁ h₂ h₃ h₄ (by simp)
  have hmarks : cutMarks name = name := by
    have hplus : (lit "+.").isPrefixOf name = false :=
      hmark '+' (by decide) (by decide) (by decide) (by decide)
    have hstar : (lit "*.").isPrefixOf name = false :=
      hmark '*' (by decide) (by decide) (by decide) (by decide)
    simp [cutMarks, hplus, hstar]
  rw [clean, strip_of_isDomain h, hquotes, hmarks, show name.dropWhile (· == '.') = name from
    dropDots_of_isDomain h, rstripDots_of_isDomain h]

section Hijack

variable {H : Smart.Host} {fetch : Text → Option Text} {file raw typ value policy : Text}

/-- **`PlainRule`** — a line of the default rules with its three fields, as the router reads it, and
nothing behind them but a comment after `#`. -/
structure PlainRule (H : Smart.Host) (raw typ value policy : Text) : Prop where
  read : H.parseLine raw = .rule typ value policy
  three : fields (ruleText raw) = [typ, value, policy]
  noSemicolon : ';' ∉ before '#' raw

theorem PlainRule.fields_eq (h : PlainRule H raw typ value policy) :
    fields (strip (before '#' raw)) = [typ, value, policy] := by
  have hthree := h.three
  rwa [ruleText, before_of_not_mem h.noSemicolon] at hthree

/-- A domain rule that does not stay local gives its domain. -/
theorem mem_lineNames_domain (h : PlainRule H raw typ value policy)
    (hlocal : H.lower policy ∉ localCategories) (htyp : H.upper typ ∈ domainTypes)
    (hvalue : isDomain value = true) (hcut : isDomain (cutWww value) = true) :
    cutWww value ∈ lineNames H fetch raw := by
  unfold lineNames
  simp only [h.fields_eq, List.getLast_cons_cons, List.getLast_singleton, if_neg hlocal, if_pos htyp]
  rw [cleanDomain, clean_of_isDomain hvalue, if_pos hcut]
  exact List.mem_singleton.mpr rfl

/-- A rule set that does not stay local gives the names of its list. -/
theorem mem_lineNames_ruleSet (h : PlainRule H raw typ value policy)
    (hlocal : H.lower policy ∉ localCategories) (htyp : H.upper typ = lit "RULE-SET")
    (hhttp : (lit "http").isPrefixOf value = true) {text name : Text} (hfetch : fetch value = some text)
    (hname : name ∈ fromList H text) : name ∈ lineNames H fetch raw := by
  have hnot : lit "RULE-SET" ∉ domainTypes := by decide
  unfold lineNames
  simp only [h.fields_eq, List.getLast_cons_cons, List.getLast_singleton, if_neg hlocal, htyp,
    if_neg hnot, hhttp, and_self, if_true, hfetch, Option.map_some, Option.getD_some]
  exact hname

/-- A line gives nothing but its own names, and none if it stays local. -/
theorem local_of_mem_lineNames {name : Text} (h : name ∈ lineNames H fetch raw) :
    ∃ typ value rest last, fields (strip (before '#' raw)) = typ :: value :: rest ∧
      (value :: rest).getLast? = some last ∧ H.lower last ∉ localCategories := by
  unfold lineNames at h
  split at h
  · rename_i typ value rest hfields
    split at h
    · cases h
    · rename_i hlocal
      exact ⟨typ, value, rest, _, hfields, List.getLast?_eq_some_getLast _, hlocal⟩
  · cases h

end Hijack

/-- What the update leaves: the old lines, and one for each name that they do not add, in order. -/
theorem appendDefaultRuleDomains_lua (H : Smart.Host) (fetch : Text → Option Text) (file : Text)
    (lua : List Text) :
    (appendDefaultRuleDomains H fetch (some file) (some lua)).1 =
      some (lua ++ (freshNames lua (defaultNames H fetch file).names).map gfwLine) := by
  show some (runDefaults (defaultNames H fetch file).names lua).lua = _
  rw [runDefaults_lua (defaultNames H fetch file).valid, appendNames_eq]

/-- The file has the names of before and those of the lines. -/
theorem mem_namesOf_appendDefaults {H : Smart.Host} {fetch : Text → Option Text} {file : Text}
    {lua after : List Text}
    (h : (appendDefaultRuleDomains H fetch (some file) (some lua)).1 = some after) {name : Text} :
    name ∈ namesOf after ↔
      name ∈ namesOf lua ∨ ∃ raw ∈ pyLines file, name ∈ lineNames H fetch raw := by
  have hafter : after = appendNames lua (defaultNames H fetch file).names := by
    rw [appendDefaultRuleDomains_lua, ← appendNames_eq] at h
    exact (Option.some.inj h).symm
  rw [hafter, mem_namesOf_appendNames, mem_defaultNames]

/-- A rule of the defaults that sends its names through an exit, and one of the names. -/
inductive Sends (H : Smart.Host) (fetch : Text → Option Text) (raw : Text) : Text → Prop where
  | domain {typ value policy : Text} (rule : PlainRule H raw typ value policy)
      (away : H.lower policy ∉ localCategories) (type : H.upper typ ∈ domainTypes)
      (valid : isDomain value = true) (cut : isDomain (cutWww value) = true) :
      Sends H fetch raw value
  | ruleSet {typ url policy text name : Text} (rule : PlainRule H raw typ url policy)
      (away : H.lower policy ∉ localCategories) (type : H.upper typ = lit "RULE-SET")
      (http : (lit "http").isPrefixOf url = true) (fetched : fetch url = some text)
      (listed : name ∈ fromList H text) : Sends H fetch raw name

/-- The name itself is derived, or one above it. -/
theorem Sends.derived {H : Smart.Host} {fetch : Text → Option Text} {raw name : Text}
    (h : Sends H fetch raw name) {qname : Name} (hbelow : Name.below name qname) :
    ∃ name' ∈ lineNames H fetch raw, Name.below name' qname := by
  cases h with
  | domain rule away type valid cut =>
    exact ⟨_, mem_lineNames_domain rule away type valid cut, below_cutWww hbelow⟩
  | ruleSet rule away type http fetched listed =>
    exact ⟨name, mem_lineNames_ruleSet rule away type http fetched listed, hbelow⟩

/-- A rule for a site, and a client of the network that asks for a host of it. -/
def siteRule : Text := lit "DOMAIN-SUFFIX,www.a.com,us # a.com"

theorem siteRule_plain : PlainRule plainHost siteRule (lit "DOMAIN-SUFFIX") (lit "www.a.com") (lit "us") :=
  ⟨by decide, by decide, by decide⟩

end ProxyGateway.Dns
