/-
# ProxyGateway.Smart.ExtractEntries — what the extracted domains are taken from

`extract_domains` reads three formats and is meant to return domains: the callers write its output to
the list of names that are to be resolved abroad.  In a list with commas it asks for the type of an
entry, and a plain list has names only.  A Clash payload is turned into rules first, and of a rule only
the part behind the comma is looked at; keywords and networks are rules as well.

`Importer.Entry` says what the entries of a text are, by format, without the parsers.
`extract_onlyNames_iff` says that every string that is returned is a domain name and the value of an
entry for a name, exactly where the text is no Clash payload, or one whose keywords and networks happen
to be such values.
-/
import ProxyGateway.Smart.Extract

namespace ProxyGateway.Smart

open ProxyGateway.Lang ProxyGateway.Dns

/-! ## Entries -/

inductive EntryKind where
  | name
  | keyword
  | network
  deriving DecidableEq, Repr

/-- What an entry of a type is about. -/
def entryKind (typ : Text) : Option EntryKind :=
  if typ ∈ [lit "DOMAIN", lit "HOST", lit "DOMAIN-SUFFIX", lit "HOST-SUFFIX"] then some .name
  else if typ ∈ [lit "DOMAIN-KEYWORD", lit "HOST-KEYWORD"] then some .keyword
  else if typ ∈ [lit "IP-CIDR", lit "IP-CIDR6"] then some .network
  else none

def isPayloadKey (line : Text) : Bool := (lit "payload:").isPrefixOf line

/-- Stripped lines, without blank ones and comments. -/
def notedLines (lines : List Text) : List Text :=
  (lines.map strip).filter fun line => line ≠ [] && !startsWithMark (lit "#!;") line

/-- The lines behind the key `payload:`. -/
def payloadLines (text : Text) : List Text :=
  ((notedLines (splitlines text)).dropWhile (!isPayloadKey ·)).filter (!isPayloadKey ·)

/-- An item of a list without the dash and the quotes around it. -/
def listItem (line : Text) : Text := stripBothQuotes (strip (stripDashes line))

/-- The fields of an item, each without its quotes. -/
def itemFields (item : Text) : List Text :=
  (item.splitOn ',').map fun part => stripBothQuotes (strip part)

/-- A line of a plain list without a comment behind it. -/
def plainLine (line : Text) : Text := strip (before ';' (before '#' line))

section Entries

variable (I : Importer)

/-- **`Entry fmt text kind value`** — the text has an entry of this kind. -/
inductive Importer.Entry (text : Text) : RuleFormat → EntryKind → Text → Prop where
  | csv {line typ value : Text} {rest : List Text} {kind : EntryKind}
      (hline : line ∈ splitlines text) (hfields : csvSplit (strip line) = typ :: value :: rest)
      (hkind : entryKind (I.upper typ) = some kind) : Entry text .csv kind value
  | clash {line typ value : Text} {rest : List Text} {kind : EntryKind}
      (hline : line ∈ payloadLines text)
      (hfields : itemFields (listItem line) = typ :: value :: rest)
      (hkind : entryKind (I.upper typ) = some kind) : Entry text .clash kind value
  | bare {line : Text} (hline : line ∈ payloadLines text) (hcomma : ',' ∉ listItem line) :
      Entry text .clash .name (rstripDots (cutWildcard (listItem line)))
  | plain {line : Text} (hline : line ∈ splitlines text)
      (hmark : startsWithMark (lit "![") (plainLine line) = false) :
      Entry text .plain .name (cutWildcard (rstripDots (listItem (plainLine line))))

/-- **`Names fmt text d`** — `d` is the value of an entry for a name, up to dots in front of it. -/
def Importer.Names (fmt : RuleFormat) (text d : Text) : Prop :=
  ∃ value, I.Entry text fmt .name value ∧ value.dropWhile (· = '.') = d

variable {I}

/-! ## The lines of a payload -/

theorem notedLines_skip {raw : Text} {lines : List Text}
    (h : strip raw = [] ∨ startsWithMark (lit "#!;") (strip raw) = true) :
    notedLines (raw :: lines) = notedLines lines := by
  have hnot : ¬ (strip raw ≠ [] && !startsWithMark (lit "#!;") (strip raw)) = true := by
    rcases h with hnil | hmark
    · simp [hnil]
    · simp [hmark]
  exact List.filter_cons_of_neg hnot

theorem notedLines_cons {raw : Text} {lines : List Text}
    (h : ¬ (strip raw = [] ∨ startsWithMark (lit "#!;") (strip raw) = true)) :
    notedLines (raw :: lines) = strip raw :: notedLines lines := by
  rw [not_or] at h
  exact List.filter_cons_of_pos (by simpa using h)

/-- The loop, before and behind the key. -/
theorem clashLoop_eq (payload : Bool) (lines : List Text) :
    I.clashLoop payload lines =
      ((if payload then notedLines lines
        else (notedLines lines).dropWhile (!isPayloadKey ·)).filter
          (!isPayloadKey ·)).filterMap I.clashRule := by
  induction lines generalizing payload with
  | nil => cases payload <;> rfl
  | cons raw lines ih =>
    rw [Importer.clashLoop]
    by_cases hskip : strip raw = [] ∨ startsWithMark (lit "#!;") (strip raw) = true
    · rw [if_pos hskip, notedLines_skip hskip, ih]
    · rw [if_neg hskip, notedLines_cons hskip]
      by_cases hkey : isPayloadKey (strip raw) = true
      · have hprefix : (lit "payload:").isPrefixOf (strip raw) = true := hkey
        rw [if_pos hprefix, ih, if_pos rfl]
        cases payload with
        | true => simp [hkey]
        | false => simp [hkey]
      · have hprefix : ¬ (lit "payload:").isPrefixOf (strip raw) = true := hkey
        rw [if_neg hprefix]
        cases payload with
        | true =>
          rw [if_pos rfl, ih, if_pos rfl, if_pos rfl, List.filter_cons_of_pos (by simpa using hkey)]
          cases hrule : I.clashRule (strip raw) with
          | none =>
            rw [List.filterMap_cons_none hrule]
            rfl
          | some rule =>
            rw [List.filterMap_cons_some hrule]
            rfl
        | false => simp [hkey, ih]

theorem parseClashYaml_eq (text : Text) :
    I.parseClashYaml text = (payloadLines text).filterMap I.clashRule := clashLoop_eq false _

/-! ## The rules of a payload -/

/-- A name has no dots in front. -/
theorem dropDots_of_isDomain {d : Text} (h : isDomain d = true) : d.dropWhile (· = '.') = d := by
  cases d with
  | nil => rfl
  | cons c d =>
    apply List.dropWhile_cons_of_neg
    intro hc
    obtain rfl : c = '.' := of_decide_eq_true hc
    have hall := (Bool.and_eq_true_iff.mp h).2
    rw [List.splitOn_cons_eq_if_modifyHead] at hall
    nomatch hall

theorem names_of_value {fmt : RuleFormat} {text d : Text} (hd : isDomain d = true)
    (h : I.Entry text fmt .name d) : I.Names fmt text d := ⟨d, h, dropDots_of_isDomain hd⟩

theorem itemFields_of_comma {item : Text} (h : ',' ∈ item) :
    ∃ typ value rest, itemFields item = typ :: value :: rest := by
  obtain ⟨a, b, rfl, -⟩ := List.eq_append_cons_of_mem h
  obtain ⟨first, rest, ha⟩ := List.exists_cons_of_ne_nil (List.splitOn_ne_nil ',' a)
  obtain ⟨next, rest', hb⟩ := List.exists_cons_of_ne_nil (List.splitOn_ne_nil ',' b)
  rw [itemFields, List.splitOn_append_cons_self, ha, hb]
  cases rest with
  | nil => exact ⟨_, _, _, rfl⟩
  | cons second rest => exact ⟨_, _, _, rfl⟩

theorem comma_of_itemFields {item typ value : Text} {rest : List Text}
    (h : itemFields item = typ :: value :: rest) : ',' ∈ item := by
  by_contra hcomma
  rw [itemFields, List.splitOn_eq_singleton hcomma] at h
  nomatch h

/-- The rule of an item with commas, by its first two fields. -/
theorem clashRule_fields {line typ value : Text} {rest : List Text}
    (h : itemFields (listItem line) = typ :: value :: rest) :
    I.clashRule line =
      if I.upper typ ∈ [lit "DOMAIN", lit "HOST"] ∧ isDomain value = true then
        some (lit "DOMAIN," ++ value)
      else if I.upper typ ∈ [lit "DOMAIN-SUFFIX", lit "HOST-SUFFIX"] ∧
          isDomain (value.dropWhile (· = '.')) = true then
        some (lit "DOMAIN-SUFFIX," ++ value.dropWhile (· = '.'))
      else if I.upper typ ∈ [lit "DOMAIN-KEYWORD", lit "HOST-KEYWORD"] ∧ value ≠ [] then
        some (lit "DOMAIN-KEYWORD," ++ value)
      else if I.upper typ ∈ [lit "IP-CIDR", lit "IP-CIDR6"] ∧ value ≠ [] then
        some (lit "IP-CIDR," ++ value)
      else none := by
  have hcomma : ',' ∈ listItem line := comma_of_itemFields h
  have hparts : ((listItem line).splitOn ',').map (fun part => stripBothQuotes (strip part)) =
      typ :: value :: rest := h
  have hitem : stripBothQuotes (strip (stripDashes line)) = listItem line := rfl
  unfold Importer.clashRule
  simp only [hitem, hparts, if_pos hcomma]
  rfl

theorem clashRule_bare {line : Text} (h : ',' ∉ listItem line) :
    I.clashRule line = if isDomain (rstripDots (cutWildcard (listItem line))) = true then
        some (lit "DOMAIN-SUFFIX," ++ rstripDots (cutWildcard (listItem line)))
      else none := by
  have hitem : stripBothQuotes (strip (stripDashes line)) = listItem line := rfl
  unfold Importer.clashRule
  simp only [hitem, if_neg h]

/-- What stands behind the comma of a rule. -/
theorem ruleValue_rule {typ value : Text}
    (ht : typ ∈ [lit "DOMAIN", lit "DOMAIN-SUFFIX", lit "DOMAIN-KEYWORD", lit "IP-CIDR"]) :
    ruleValue (typ ++ ',' :: value) = strip value := by
  have hcomma : ∀ t ∈ [lit "DOMAIN", lit "DOMAIN-SUFFIX", lit "DOMAIN-KEYWORD", lit "IP-CIDR"],
      ',' ∉ t := by decide
  rw [ruleValue, after_append_cons (hcomma typ ht)]

theorem strip_of_isDomain {d : Text} (h : isDomain d = true) : strip d = d :=
  strip_of_noSpace (noSpace_of_isDomain h)

theorem entryKind_name {typ : Text}
    (h : typ ∈ [lit "DOMAIN", lit "HOST"] ∨ typ ∈ [lit "DOMAIN-SUFFIX", lit "HOST-SUFFIX"]) :
    entryKind typ = some .name := by
  revert typ
  have hall : ∀ t ∈ [lit "DOMAIN", lit "HOST"] ++ [lit "DOMAIN-SUFFIX", lit "HOST-SUFFIX"],
      entryKind t = some .name := by decide
  exact fun {typ} h => hall typ (List.mem_append.mpr h)

/-- What a rule of a payload stands for: a name, or whatever a keyword or a network is. -/
theorem clashRule_cases {text line rule : Text} (hline : line ∈ payloadLines text)
    (h : I.clashRule line = some rule) :
    (isDomain (ruleValue rule) = true ∧ I.Names .clash text (ruleValue rule)) ∨
      ∃ kind value, kind ≠ .name ∧ value ≠ [] ∧ I.Entry text .clash kind value ∧
        ruleValue rule = strip value := by
  by_cases hcomma : ',' ∈ listItem line
  · obtain ⟨typ, value, rest, hfields⟩ := itemFields_of_comma hcomma
    have hentry : ∀ kind, entryKind (I.upper typ) = some kind → I.Entry text .clash kind value :=
      fun kind hkind => .clash hline hfields hkind
    rw [clashRule_fields hfields] at h
    split at h
    · next hcond =>
      left
      rw [← Option.some.inj h, show lit "DOMAIN," ++ value = lit "DOMAIN" ++ ',' :: value from rfl,
        ruleValue_rule (by decide), strip_of_isDomain hcond.2]
      exact ⟨hcond.2, names_of_value hcond.2 (hentry _ (entryKind_name (.inl hcond.1)))⟩
    split at h
    · next hcond =>
      left
      rw [← Option.some.inj h, show lit "DOMAIN-SUFFIX," ++ value.dropWhile (· = '.') =
          lit "DOMAIN-SUFFIX" ++ ',' :: value.dropWhile (· = '.') from rfl,
        ruleValue_rule (by decide), strip_of_isDomain hcond.2]
      exact ⟨hcond.2, value, hentry _ (entryKind_name (.inr hcond.1)), rfl⟩
    split at h
    · next hcond =>
      right
      have hkind : ∀ t ∈ [lit "DOMAIN-KEYWORD", lit "HOST-KEYWORD"], entryKind t = some .keyword := by
        decide
      refine ⟨.keyword, value, nofun, hcond.2, hentry _ (hkind _ hcond.1), ?_⟩
      rw [← Option.some.inj h]
      show ruleValue (lit "DOMAIN-KEYWORD" ++ ',' :: value) = _
      exact ruleValue_rule (by decide)
    split at h
    · next hcond =>
      right
      have hkind : ∀ t ∈ [lit "IP-CIDR", lit "IP-CIDR6"], entryKind t = some .network := by decide
      refine ⟨.network, value, nofun, hcond.2, hentry _ (hkind _ hcond.1), ?_⟩
      rw [← Option.some.inj h]
      show ruleValue (lit "IP-CIDR" ++ ',' :: value) = _
      exact ruleValue_rule (by decide)
    · nomatch h
  · left
    rw [clashRule_bare hcomma] at h
    split at h
    · next hd =>
      rw [← Option.some.inj h, ruleValue_suffix hd]
      exact ⟨hd, names_of_value hd (.bare hline hcomma)⟩
    · nomatch h

/-- The value of every keyword and of every network is extracted. -/
theorem exists_clashRule {text value : Text} {kind : EntryKind} (hkind : kind ≠ .name)
    (hne : value ≠ []) (h : I.Entry text .clash kind value) :
    ∃ line ∈ payloadLines text, ∃ rule, I.clashRule line = some rule ∧
      ruleValue rule = strip value := by
  cases h with
  | bare => exact absurd rfl hkind
  | @clash line typ value rest kind hline hfields htype =>
    have hother : ∀ t, entryKind t = some kind →
        t ∉ [lit "DOMAIN", lit "HOST"] ∧ t ∉ [lit "DOMAIN-SUFFIX", lit "HOST-SUFFIX"] := by
      intro t ht
      constructor
      · intro hin
        exact hkind (Option.some.inj (ht.symm.trans (entryKind_name (.inl hin))))
      · intro hin
        exact hkind (Option.some.inj (ht.symm.trans (entryKind_name (.inr hin))))
    obtain ⟨hname, hsuffix⟩ := hother _ htype
    refine ⟨line, hline, ?_⟩
    rw [clashRule_fields hfields, if_neg fun h => hname h.1, if_neg fun h => hsuffix h.1]
    by_cases hkeyword : I.upper typ ∈ [lit "DOMAIN-KEYWORD", lit "HOST-KEYWORD"]
    · rw [if_pos ⟨hkeyword, hne⟩]
      refine ⟨_, rfl, ?_⟩
      show ruleValue (lit "DOMAIN-KEYWORD" ++ ',' :: value) = _
      exact ruleValue_rule (by decide)
    · have hnetwork : I.upper typ ∈ [lit "IP-CIDR", lit "IP-CIDR6"] := by
        by_contra hnot
        unfold entryKind at htype
        rw [if_neg, if_neg hkeyword, if_neg hnot] at htype
        · nomatch htype
        · exact fun h => (List.mem_append.mp h).elim hname hsuffix
      rw [if_neg fun h => hkeyword h.1, if_pos ⟨hnetwork, hne⟩]
      refine ⟨_, rfl, ?_⟩
      show ruleValue (lit "IP-CIDR" ++ ',' :: value) = _
      exact ruleValue_rule (by decide)

/-! ## The other formats -/

/-- A list with commas gives values of its names only. -/
theorem names_of_csvDomain {text line d : Text} (hline : line ∈ splitlines text)
    (h : I.csvDomain line = some d) : isDomain d = true ∧ I.Names .csv text d := by
  refine ⟨isDomain_of_csvDomain h, ?_⟩
  unfold Importer.csvDomain at h
  split at h
  · next typ value rest hfields =>
    dsimp only at h
    split at h
    · next hcond =>
      have hkind : ∀ t ∈ [lit "DOMAIN", lit "DOMAIN-SUFFIX"], entryKind t = some .name := by decide
      have hmem : value ∈ csvSplit (strip line) := by
        rw [hfields]
        simp
      rw [strip_of_mem_csvSplit hmem] at h
      exact ⟨value, .csv hline hfields (hkind _ hcond.1), Option.some.inj h⟩
    · nomatch h
  · nomatch h

/-- A plain list is made of names. -/
theorem names_of_plainRule {text line rule : Text} (hline : line ∈ splitlines text)
    (h : plainRule line = some rule) :
    isDomain (ruleValue rule) = true ∧ I.Names .plain text (ruleValue rule) := by
  have hitem : stripBothQuotes (strip (stripDashes (strip (before ';' (before '#' line))))) =
      listItem (plainLine line) := rfl
  unfold plainRule at h
  dsimp only at h
  split at h
  · nomatch h
  · next hskip =>
    have hmark : startsWithMark (lit "![") (plainLine line) = false :=
      Bool.eq_false_iff.mpr fun hmark => hskip (.inr hmark)
    split at h
    · next hd =>
      rw [hitem] at hd h
      rw [← Option.some.inj h, ruleValue_suffix hd]
      exact ⟨hd, names_of_value hd (.plain hline hmark)⟩
    · nomatch h

/-- **`extract_onlyNames_iff`** — every string that is extracted is a domain name and the value of an entry
for a name, exactly where the text is no Clash payload, or the values of its keywords and networks are
such names too. -/
theorem extract_onlyNames_iff (I : Importer) (url text : Text) :
    (∀ fmt names, I.detectFormat (text.take 4096) url = some fmt →
        I.extractDomains url text = some names →
        ∀ d ∈ names, isDomain d = true ∧ I.Names fmt text d) ↔
      (I.detectFormat (text.take 4096) url = some .clash →
        ∀ kind value, kind ≠ .name → value ≠ [] → I.Entry text .clash kind value →
          isDomain (strip value) = true ∧ I.Names .clash text (strip value)) := by
  have hextract : ∀ fmt, I.detectFormat (text.take 4096) url = some fmt →
      I.extractDomains url text = some (sortUnique (I.ruleSetDomains text fmt)) := by
    intro fmt hfmt
    rw [Importer.extractDomains, hfmt]
    rfl
  constructor
  · intro hall hclash kind value hkind hne hentry
    obtain ⟨line, hline, rule, hrule, hvalue⟩ := exists_clashRule hkind hne hentry
    refine hall _ _ hclash (hextract _ hclash) _ (mem_sortUnique.mpr ?_)
    refine List.mem_map.mpr ⟨rule, ?_, hvalue⟩
    rw [parseClashYaml_eq]
    exact List.mem_filterMap.mpr ⟨line, hline, hrule⟩
  · intro hcond fmt names hfmt hnames d hd
    rw [hextract fmt hfmt] at hnames
    rw [← Option.some.inj hnames, mem_sortUnique] at hd
    cases fmt with
    | csv =>
      obtain ⟨line, hline, hd⟩ := List.mem_filterMap.mp hd
      exact names_of_csvDomain hline hd
    | clash =>
      obtain ⟨rule, hrule, rfl⟩ := List.mem_map.mp hd
      rw [parseClashYaml_eq] at hrule
      obtain ⟨line, hline, hrule⟩ := List.mem_filterMap.mp hrule
      rcases clashRule_cases hline hrule with hname | ⟨kind, value, hkind, hne, hentry, hvalue⟩
      · exact hname
      · rw [hvalue]
        exact hcond hfmt kind value hkind hne hentry
    | plain =>
      obtain ⟨rule, hrule, rfl⟩ := List.mem_map.mp hd
      obtain ⟨line, hline, hrule⟩ := List.mem_filterMap.mp hrule
      exact names_of_plainRule hline hrule

end Entries

/-- A payload with one keyword and one network: both are printed as domains. -/
theorem keyword_is_extracted :
    plainImporter.extractDomains (lit "https://a.com/l")
        (lit "payload:\n  - DOMAIN-KEYWORD,google\n  - IP-CIDR,192.0.2.0/24\n") =
      some [lit "192.0.2.0/24", lit "google"] ∧
    ¬ ∀ (I : Importer) (url text : Text) (fmt : RuleFormat) (names : List Text),
      I.detectFormat (text.take 4096) url = some fmt → I.extractDomains url text = some names →
      ∀ d ∈ names, isDomain d = true ∧ I.Names fmt text d := by
  have hnames : plainImporter.extractDomains (lit "https://a.com/l")
      (lit "payload:\n  - DOMAIN-KEYWORD,google\n  - IP-CIDR,192.0.2.0/24\n") =
        some [lit "192.0.2.0/24", lit "google"] := by decide
  refine ⟨hnames, fun hclaim => ?_⟩
  have hgoogle := (hclaim plainImporter _ _ .clash _ (by decide) hnames (lit "google")
    (by decide)).1
  exact absurd hgoogle (by decide)

end ProxyGateway.Smart
