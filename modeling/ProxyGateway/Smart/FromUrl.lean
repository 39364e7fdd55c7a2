/-
# ProxyGateway.Smart.FromUrl — `rules-import.py --from-url`, and the order of the lines

A list of `TYPE,value` lines is read by one of two parsers.  `detect_format` chooses by the first line
that is no comment: the pattern it searches for names six types, and the importer knows eight.  A list
that starts with `DOMAIN-KEYWORD` or `IP-CIDR6` is taken for a plain list of names, and in a plain list
no such line means anything (`parsePlainList_entries`).  So the same lines give all their rules or none.

`orderIndependent_iff` says when the order does not matter: where none of the lines has one of these two
types, or all of them have.
-/
import Mathlib.Data.Multiset.Basic
import ProxyGateway.Lang.Lines
import ProxyGateway.Smart.Extract

namespace ProxyGateway.Smart

open ProxyGateway.Lang ProxyGateway.Dns

/-! ## The import of a rule set -/

section FromUrl

variable (I : Importer)

/-- The rules of a rule set. -/
def Importer.ruleSetRules (text : Text) : RuleFormat → List Text
  | .csv => ((splitlines text).map strip).filter fun l => l ≠ [] && !startsWithMark (lit "#;") l
  | .clash => I.parseClashYaml text
  | .plain => parsePlainList text

/-- A rule with less than two commas in it gets the category. -/
def withCategory (category rule : Text) : Text :=
  if 2 ≤ rule.count ',' then rule else rule ++ ',' :: category

/-- **`--from-url`**: the rules that are written; none where it raises. -/
def Importer.fromUrlRules (url category text : Text) : Option (List Text) :=
  (I.detectFormat (text.take 4096) url).map fun fmt =>
    (I.ruleSetRules text fmt).map (withCategory category)

end FromUrl

/-! ## Lists of entries -/

/-- The lines that are neither blank nor comments. -/
def entryLines (text : Text) : List Text :=
  (splitlines text).filter fun l => strip l ≠ [] && !startsWithMark (lit "#;![") (strip l)

/-- **`IsEntry`** — `TYPE,value[,policy]`, and whatever else stands behind the first comma. -/
def IsEntry (line : Text) : Prop := ∃ typ ∈ keepTypes, ∃ rest, line = typ ++ ',' :: rest

/-- The types that the pattern of `detect_format` lacks. -/
def undetectedTypes : List Text := [lit "DOMAIN-KEYWORD", lit "IP-CIDR6"]

/-- The same lines in another order, blank ones apart. -/
def Reordered (text text' : Text) : Prop :=
  ((splitlines text').filter (strip · ≠ [])).Perm ((splitlines text).filter (strip · ≠ []))

section Order

variable (I : Importer)

/-- **`OrderIndependent`** — in every order, the lines give the same domains, and the same rules, counted
with their repetitions. -/
def Importer.OrderIndependent (url category text : Text) : Prop :=
  ∀ text', Reordered text text' → text'.length ≤ 4096 →
    I.extractDomains url text' = I.extractDomains url text ∧
      (I.fromUrlRules url category text').map Multiset.ofList =
        (I.fromUrlRules url category text).map Multiset.ofList

/-- The format of a list of entries. -/
def entryFormat : List Text → RuleFormat
  | [] => .plain
  | line :: _ => if before ',' line ∈ undetectedTypes then .plain else .csv

variable {I} {text text' url category : Text}

/-! ### The detector -/

/-- What the types start with. -/
theorem head_entry {line : Text} (h : IsEntry line) :
    ∃ c ∈ ['D', 'I', 'R', 'G'], (strip line).head? = some c := by
  obtain ⟨typ, htyp, rest, rfl⟩ := h
  have hheads : ∀ t ∈ keepTypes, t.head?.any (· ∈ ['D', 'I', 'R', 'G']) = true := by decide
  have hspace : ∀ c ∈ ['D', 'I', 'R', 'G'], isSpace c = false :=
    List.all_iff_forall_prop.mp (by decide)
  have hhead := hheads typ htyp
  cases typ with
  | nil => nomatch hhead
  | cons c typ =>
    have hc : c ∈ ['D', 'I', 'R', 'G'] := of_decide_eq_true hhead
    refine ⟨c, hc, ?_⟩
    rw [head_strip, List.cons_append, List.dropWhile_cons_of_neg (by simp [hspace c hc])]
    rfl

theorem before_entry {typ rest : Text} (h : typ ∈ keepTypes) :
    before ',' (typ ++ ',' :: rest) = typ := by
  have hcomma : ∀ t ∈ keepTypes, ',' ∉ t := by decide
  rw [before_append_of_not_mem (hcomma typ h)]
  simp [before]

/-- The pattern of `detect_format` on a line. -/
def detected (line : Text) : Bool :=
  [lit "domain,", lit "domain-suffix,", lit "ip-cidr,", lit "rule-set,", lit "geosite,",
    lit "geoip,"].any fun word => (afterWord word line).isSome

theorem detected_entry {line : Text} (h : IsEntry line) :
    detected line = true ↔ before ',' line ∉ undetectedTypes := by
  obtain ⟨typ, htyp, rest, rfl⟩ := h
  rw [before_entry htyp]
  simp only [keepTypes, List.mem_cons, List.not_mem_nil, or_false] at htyp
  have hmissed : ∀ t ∈ undetectedTypes, detected (t ++ ',' :: rest) = false := by
    intro t ht
    simp only [undetectedTypes, List.mem_cons, List.not_mem_nil, or_false] at ht
    rcases ht with rfl | rfl <;> rfl
  rcases htyp with rfl | rfl | rfl | rfl | rfl | rfl | rfl | rfl
  · exact iff_of_true rfl (by decide)
  · exact iff_of_true rfl (by decide)
  · simp [hmissed (lit "DOMAIN-KEYWORD") (by decide), undetectedTypes]
  · exact iff_of_true rfl (by decide)
  · simp [hmissed (lit "IP-CIDR6") (by decide), undetectedTypes]
  · exact iff_of_true rfl (by decide)
  · exact iff_of_true rfl (by decide)
  · exact iff_of_true rfl (by decide)

/-- A list of entries does not start like a Clash payload. -/
theorem not_clash (hlist : ∀ line ∈ entryLines text, IsEntry line) {word : Text}
    (hword : word ∈ [lit "payload:", lit "rules:", lit "rule-providers:", lit "\x7b"]) :
    ¬ word.isPrefixOf (strip text) = true := by
  have hheads : ∀ w ∈ [lit "payload:", lit "rules:", lit "rule-providers:", lit "\x7b"],
      w.head?.any (· ∉ lit "#;![" ++ ['D', 'I', 'R', 'G']) = true := by decide
  have hhead := hheads word hword
  intro hprefix
  obtain ⟨rest, hrest⟩ := List.isPrefixOf_iff_prefix.mp hprefix
  cases word with
  | nil => nomatch hhead
  | cons c word =>
    have hc : c ∉ lit "#;![" ++ ['D', 'I', 'R', 'G'] := of_decide_eq_true hhead
    rw [List.mem_append, not_or] at hc
    obtain ⟨line, hline, hstart⟩ := exists_line_head (t := text) (c := c) (by rw [← hrest]; rfl)
    have hentry : line ∈ entryLines text := by
      refine List.mem_filter.mpr ⟨hline, ?_⟩
      have hne : strip line ≠ [] := fun h => by
        rw [h] at hstart
        nomatch hstart
      have hmark : startsWithMark (lit "#;![") (strip line) = false := by
        rw [startsWithMark, hstart]
        exact decide_eq_false hc.1
      rw [hmark]
      simpa using hne
    obtain ⟨d, hd, hentryHead⟩ := head_entry (hlist line hentry)
    obtain rfl := Option.some.inj (hstart.symm.trans hentryHead)
    exact hc.2 hd

/-- The detector sees no more of a list of entries than the type of its first one. -/
theorem detectFormat_entries (hlist : ∀ line ∈ entryLines text, IsEntry line) :
    I.detectFormat text url =
      if lit ".srs" <:+ I.lower url then none else some (entryFormat (entryLines text)) := by
  have hclash : ([lit "payload:", lit "rules:", lit "rule-providers:", lit "\x7b"].any
      (·.isPrefixOf (strip text))) = false := by
    rw [List.any_eq_false]
    exact fun word hword => not_clash hlist hword
  unfold Importer.detectFormat
  split
  · rfl
  · rw [hclash]
    show (if (entryLines text).head?.any detected then some RuleFormat.csv else some .plain) = _
    cases hlines : entryLines text with
    | nil => rfl
    | cons line lines =>
      have hentry := detected_entry (hlist line (hlines ▸ List.mem_cons_self ..))
      rw [List.head?_cons, Option.any_some, entryFormat]
      by_cases htype : before ',' line ∈ undetectedTypes
      · have hnot : ¬ detected line = true := fun h => hentry.mp h htype
        rw [if_neg hnot, if_pos htype]
      · rw [if_pos (hentry.mpr htype), if_neg htype]

/-! ### The plain parser -/

theorem comma_mem_cutWildcard {t : Text} (h : ',' ∈ t) : ',' ∈ cutWildcard t := by
  unfold cutWildcard
  split
  · simpa using h
  · simpa using h
  · simpa using h
  · exact h

/-- A comma in front of all comments makes a line no name. -/
theorem plainRule_of_comma {raw : Text} (h : ',' ∈ before ';' (before '#' raw)) :
    plainRule raw = none := by
  unfold plainRule
  dsimp only
  split
  · rfl
  · rw [if_neg]
    intro hdomain
    have hcomma : ',' ∈ cutWildcard (rstripDots (stripBothQuotes
        (strip (stripDashes (strip (before ';' (before '#' raw))))))) := by
      apply comma_mem_cutWildcard
      apply mem_rdropWhile (by decide)
      apply mem_rdropWhile (by decide)
      apply mem_dropWhile (by decide)
      apply mem_strip_of_mem _ (by decide)
      apply mem_dropWhile (by decide)
      exact mem_strip_of_mem h (by decide)
    rcases isDomain_chars hdomain hcomma with h | h | h | h
    · exact absurd h (by decide)
    · exact absurd h (by decide)
    · exact absurd h (by decide)
    · exact absurd h (by decide)

theorem plainRule_entry {line : Text} (h : IsEntry line) : plainRule line = none := by
  obtain ⟨typ, htyp, rest, rfl⟩ := h
  have hmarks : ∀ t ∈ keepTypes, '#' ∉ t ∧ ';' ∉ t := by decide
  obtain ⟨hhash, hsemi⟩ := hmarks typ htyp
  apply plainRule_of_comma
  have hcut : ∀ (m : Char) (u : Text), m ∉ typ → m ≠ ',' →
      before m (typ ++ ',' :: u) = typ ++ ',' :: before m u := by
    intro m u hm hne
    rw [before_append_of_not_mem hm]
    simp [before, Ne.symm hne]
  rw [hcut '#' rest hhash (by decide), hcut ';' _ hsemi (by decide)]
  simp

theorem before_cons {m c : Char} (h : c ≠ m) (t : Text) : before m (c :: t) = c :: before m t := by
  simp [before, h]

theorem strip_spaces {sp : Text} (h : ∀ c ∈ sp, isSpace c = true) : strip sp = [] := by
  have hdrop : sp.dropWhile isSpace = [] := List.dropWhile_eq_nil_iff.mpr h
  rw [strip, hdrop]
  rfl

/-- Nothing but spaces is left in front of a comment, or a mark that is skipped. -/
theorem plainRule_spaces {sp t : Text} (hsp : ∀ c ∈ sp, isSpace c = true)
    (ht : ∀ c ∈ t.head?, c ∈ lit "#;![") : plainRule (sp ++ t) = none := by
  have hnot : ∀ m, isSpace m = false → m ∉ sp := by
    intro m hm hmem
    rw [hsp m hmem] at hm
    nomatch hm
  have hhash := hnot '#' (by decide)
  have hsemi := hnot ';' (by decide)
  have hskip : strip (before ';' (before '#' (sp ++ t))) = [] ∨
      startsWithMark (lit "![") (strip (before ';' (before '#' (sp ++ t)))) = true := by
    rw [before_append_of_not_mem hhash, before_append_of_not_mem hsemi]
    cases t with
    | nil => exact .inl (strip_spaces (by simpa [before] using hsp))
    | cons m t =>
      have hm := ht m rfl
      by_cases hcut : m = '#' ∨ m = ';'
      · left
        have hnil : before ';' (before '#' (m :: t)) = [] := by
          rcases hcut with rfl | rfl <;> rfl
        rw [hnil, List.append_nil]
        exact strip_spaces hsp
      · right
        rw [not_or] at hcut
        rw [before_cons hcut.1, before_cons hcut.2, startsWithMark, head_strip,
          List.dropWhile_append_of_pos hsp]
        have hmark : ∀ c ∈ lit "#;![", c ≠ '#' → c ≠ ';' → isSpace c = false ∧ c ∈ lit "![" :=
          List.all_iff_forall_prop.mp (by decide)
        obtain ⟨hspace, hin⟩ := hmark m hm hcut.1 hcut.2
        rw [List.dropWhile_cons_of_neg (by simp [hspace])]
        exact decide_eq_true hin
  unfold plainRule
  exact if_pos hskip

/-- Neither a blank line nor a comment is a name. -/
theorem plainRule_comment {line : Text}
    (h : strip line = [] ∨ startsWithMark (lit "#;![") (strip line) = true) :
    plainRule line = none := by
  rw [← List.takeWhile_append_dropWhile (p := isSpace) (l := line)]
  refine plainRule_spaces (fun c hc => List.mem_takeWhile_imp hc) fun c hc => ?_
  rw [← head_strip] at hc
  rcases h with hblank | hmark
  · rw [hblank] at hc
    nomatch hc
  · rw [startsWithMark, Option.mem_def.mp hc] at hmark
    exact of_decide_eq_true hmark

/-- **`parsePlainList_entries`** — taken for a plain list, a list of entries has no rules. -/
theorem parsePlainList_entries (hlist : ∀ line ∈ entryLines text, IsEntry line) :
    parsePlainList text = [] := by
  rw [parsePlainList, List.filterMap_eq_nil_iff]
  intro line hline
  by_cases hentry : line ∈ entryLines text
  · exact plainRule_entry (hlist line hentry)
  · apply plainRule_comment
    have hnot : ¬ (strip line ≠ [] && !startsWithMark (lit "#;![") (strip line)) = true :=
      fun h => hentry (List.mem_filter.mpr ⟨hline, h⟩)
    by_cases hblank : strip line = []
    · exact .inl hblank
    · right
      simpa [hblank] using hnot

/-! ### Other orders -/

/-- Lists with the same elements are sorted into the same list. -/
theorem sortUnique_congr {l l' : List Text} (h : ∀ t, t ∈ l ↔ t ∈ l') :
    sortUnique l = sortUnique l' := by
  have hnodup : ∀ l : List Text, (sortUnique l).Nodup := by
    intro l
    refine (sortUnique_sorted l).imp ?_
    rintro a b hlt rfl
    exact textLt_asymm hlt hlt
  have hperm : (sortUnique l).Perm (sortUnique l') := by
    rw [List.perm_ext_iff_of_nodup (hnodup l) (hnodup l')]
    intro t
    rw [mem_sortUnique, mem_sortUnique, h]
  exact hperm.eq_of_pairwise (fun a b _ _ hab hba => absurd hba (textLt_asymm hab))
    (sortUnique_sorted l) (sortUnique_sorted l')

theorem Reordered.entryLines (h : Reordered text text') :
    (entryLines text').Perm (entryLines text) := by
  have hsplit : ∀ t, Smart.entryLines t = ((splitlines t).filter (strip · ≠ [])).filter
      fun l => !startsWithMark (lit "#;![") (strip l) := by
    intro t
    rw [Smart.entryLines, List.filter_filter]
    refine List.filter_congr fun l _ => ?_
    exact Bool.and_comm _ _
  rw [hsplit, hsplit]
  exact h.filter _

/-- A reader that skips blank lines reads the same from the lines, in another order. -/
theorem Reordered.filterMap {β : Type*} (h : Reordered text text') {p : Text → Option β}
    (hp : ∀ line, strip line = [] → p line = none) :
    ((splitlines text').filterMap p).Perm ((splitlines text).filterMap p) := by
  have hblank : ∀ t, (splitlines t).filterMap p =
      ((splitlines t).filter (strip · ≠ [])).filterMap p := by
    intro t
    rw [List.filterMap_filter]
    refine List.filterMap_congr fun line _ => ?_
    by_cases hline : strip line = []
    · simp [hline, hp line hline]
    · simp [hline]
  rw [hblank, hblank]
  exact List.Perm.filterMap p h

theorem csvDomain_blank {line : Text} (h : strip line = []) : I.csvDomain line = none := by
  unfold Importer.csvDomain
  rw [h]
  rfl

/-- In the same format, the lines give the same in every order. -/
theorem Reordered.extract (h : Reordered text text') {fmt : RuleFormat} (hfmt : fmt ≠ .clash) :
    sortUnique (I.ruleSetDomains text' fmt) = sortUnique (I.ruleSetDomains text fmt) := by
  apply sortUnique_congr
  intro t
  cases fmt with
  | csv => exact (h.filterMap fun _ hline => csvDomain_blank hline).mem_iff
  | clash => exact absurd rfl hfmt
  | plain => exact ((h.filterMap fun _ hline => plainRule_comment (.inl hline)).map _).mem_iff

theorem Reordered.rules (h : Reordered text text') {fmt : RuleFormat} (hfmt : fmt ≠ .clash) :
    (I.ruleSetRules text' fmt).Perm (I.ruleSetRules text fmt) := by
  cases fmt with
  | csv =>
    have hread : ∀ t, I.ruleSetRules t .csv = (splitlines t).filterMap fun line =>
        if strip line ≠ [] && !startsWithMark (lit "#;") (strip line) then some (strip line)
        else none := by
      intro t
      rw [Importer.ruleSetRules, ← List.filterMap_eq_filter, List.filterMap_map]
      rfl
    rw [hread, hread]
    exact h.filterMap fun line hline => by simp [hline]
  | clash => exact absurd rfl hfmt
  | plain => exact h.filterMap fun _ hline => plainRule_comment (.inl hline)

theorem entryFormat_ne_clash (lines : List Text) : entryFormat lines ≠ .clash := by
  unfold entryFormat
  split
  · nofun
  · split <;> nofun

/-- The format of lines whose types are all in the pattern, or all not. -/
theorem entryFormat_congr {lines lines' : List Text} (h : lines'.Perm lines)
    (huniform : (∀ line ∈ lines, before ',' line ∉ undetectedTypes) ∨
      ∀ line ∈ lines, before ',' line ∈ undetectedTypes) :
    entryFormat lines' = entryFormat lines := by
  cases lines with
  | nil => rw [h.eq_nil]
  | cons line lines =>
    cases lines' with
    | nil => exact absurd h.symm (List.not_perm_cons_nil)
    | cons line' lines' =>
      have hmem : line' ∈ line :: lines := h.mem_iff.mp (List.mem_cons_self ..)
      have hself : line ∈ line :: lines := List.mem_cons_self ..
      show (if _ then _ else _) = if _ then _ else _
      rcases huniform with hall | hall
      · rw [if_neg (hall _ hmem), if_neg (hall _ hself)]
      · rw [if_pos (hall _ hmem), if_pos (hall _ hself)]

/-! ### The two outcomes -/

theorem extractDomains_entries (hlen : text.length ≤ 4096)
    (hlist : ∀ line ∈ entryLines text, IsEntry line) :
    I.extractDomains url text = if lit ".srs" <:+ I.lower url then none
      else some (sortUnique (I.ruleSetDomains text (entryFormat (entryLines text)))) := by
  rw [Importer.extractDomains, List.take_of_length_le hlen, detectFormat_entries hlist]
  split <;> rfl

theorem fromUrlRules_entries (hlen : text.length ≤ 4096)
    (hlist : ∀ line ∈ entryLines text, IsEntry line) :
    I.fromUrlRules url category text = if lit ".srs" <:+ I.lower url then none
      else some ((I.ruleSetRules text (entryFormat (entryLines text))).map
        (withCategory category)) := by
  rw [Importer.fromUrlRules, List.take_of_length_le hlen, detectFormat_entries hlist]
  split <;> rfl

/-- Any entry can come first. -/
theorem exists_entry_first {line : Text} (hline : line ∈ entryLines text) :
    ∃ text', Reordered text text' ∧ text'.length ≤ text.length ∧
      ∃ lines, entryLines text' = line :: lines := by
  obtain ⟨hmem, hentry⟩ := List.mem_filter.mp hline
  obtain ⟨text', hlines, hlen⟩ := exists_reordered (List.perm_cons_erase hmem).symm
  refine ⟨text', ?_, hlen, ((splitlines text).erase line).filter fun l =>
    strip l ≠ [] && !startsWithMark (lit "#;![") (strip l), ?_⟩
  · rw [Reordered, hlines]
    exact (List.perm_cons_erase hmem).symm.filter _
  · rw [entryLines, hlines]
    exact List.filter_cons_of_pos hentry

/-- A list of entries gives its rules where the first one is detected, and no rules otherwise. -/
theorem rules_eq_nil_iff (hlist : ∀ line ∈ entryLines text, IsEntry line) {line : Text}
    {lines : List Text} (hlines : entryLines text = line :: lines) :
    I.ruleSetRules text (entryFormat (entryLines text)) = [] ↔
      before ',' line ∈ undetectedTypes := by
  rw [hlines]
  show I.ruleSetRules text (if _ then _ else _) = [] ↔ _
  by_cases htype : before ',' line ∈ undetectedTypes
  · rw [if_pos htype]
    exact iff_of_true (parsePlainList_entries hlist) htype
  · rw [if_neg htype]
    refine iff_of_false ?_ htype
    have hline : line ∈ entryLines text := hlines ▸ List.mem_cons_self ..
    obtain ⟨hmem, hentry⟩ := List.mem_filter.mp hline
    apply List.ne_nil_of_mem (a := strip line)
    refine List.mem_filter.mpr ⟨List.mem_map.mpr ⟨line, hmem, rfl⟩, ?_⟩
    obtain ⟨c, hc, hhead⟩ := head_entry (hlist line hline)
    have hmark : ∀ c ∈ ['D', 'I', 'R', 'G'], c ∉ lit "#;" := List.all_iff_forall_prop.mp (by decide)
    rw [startsWithMark, hhead, Option.any_some, decide_eq_false (hmark c hc), Bool.not_false,
      Bool.and_true]
    exact (Bool.and_eq_true_iff.mp hentry).1

/-- **`orderIndependent_iff`** — a list of entries gives the same domains and the same rules in every order
exactly where none of its types is missing in the pattern of the detector, or all of them are (or the
URL is refused). -/
theorem orderIndependent_iff (I : Importer) {url category text : Text} (hlen : text.length ≤ 4096)
    (hlist : ∀ line ∈ entryLines text, IsEntry line) :
    I.OrderIndependent url category text ↔
      lit ".srs" <:+ I.lower url ∨
        (∀ line ∈ entryLines text, before ',' line ∉ undetectedTypes) ∨
        ∀ line ∈ entryLines text, before ',' line ∈ undetectedTypes := by
  have hlist' : ∀ {text'}, Reordered text text' → ∀ line ∈ entryLines text', IsEntry line :=
    fun h line hline => hlist line (h.entryLines.mem_iff.mp hline)
  by_cases hsrs : lit ".srs" <:+ I.lower url
  · -- both commands raise
    refine iff_of_true (fun text' h hlen' => ?_) (.inl hsrs)
    rw [extractDomains_entries hlen' (hlist' h), extractDomains_entries hlen hlist,
      fromUrlRules_entries hlen' (hlist' h), fromUrlRules_entries hlen hlist]
    simp [hsrs]
  · rw [or_iff_right hsrs]
    constructor
    · -- otherwise either kind of line could come first
      intro hall
      by_contra hmixed
      rw [not_or] at hmixed
      obtain ⟨hdetected, hmissed⟩ := hmixed
      push Not at hdetected hmissed
      obtain ⟨missed, hmissedMem, hmissedType⟩ := hdetected
      obtain ⟨found, hfoundMem, hfoundType⟩ := hmissed
      have hcount : ∀ line ∈ entryLines text,
          I.ruleSetRules text (entryFormat (entryLines text)) = [] ↔
            before ',' line ∈ undetectedTypes := by
        intro line hline
        obtain ⟨text', hre, hlen', lines, hlines⟩ := exists_entry_first hline
        have hsame := (hall text' hre (hlen'.trans hlen)).2
        rw [fromUrlRules_entries (hlen'.trans hlen) (hlist' hre), fromUrlRules_entries hlen hlist,
          if_neg hsrs, if_neg hsrs, Option.map_some, Option.map_some, Option.some.injEq,
          Multiset.coe_eq_coe] at hsame
        have hlength := hsame.length_eq
        rw [List.length_map, List.length_map] at hlength
        rw [← rules_eq_nil_iff (hlist' hre) hlines, ← List.length_eq_zero_iff,
          ← List.length_eq_zero_iff, hlength]
      exact hfoundType ((hcount found hfoundMem).mp ((hcount missed hmissedMem).mpr hmissedType))
    · intro huniform text' hre hlen'
      have hfmt := entryFormat_congr hre.entryLines huniform
      have hne := entryFormat_ne_clash (entryLines text)
      rw [extractDomains_entries hlen' (hlist' hre), extractDomains_entries hlen hlist,
        fromUrlRules_entries hlen' (hlist' hre), fromUrlRules_entries hlen hlist, hfmt]
      simp only [if_neg hsrs, Option.map_some, Option.some.injEq]
      exact ⟨hre.extract hne, Multiset.coe_eq_coe.mpr ((hre.rules hne).map _)⟩

end Order

/-! ## Two lines -/

theorem orderIndependent_two : plainImporter.OrderIndependent (lit "https://a.com/l") (lit "Proxy")
      (lit "DOMAIN,a.com\nIP-CIDR,192.0.2.0/24\n") ↔
    lit ".srs" <:+ plainImporter.lower (lit "https://a.com/l") ∨
      (∀ line ∈ entryLines (lit "DOMAIN,a.com\nIP-CIDR,192.0.2.0/24\n"),
        before ',' line ∉ undetectedTypes) ∨
      ∀ line ∈ entryLines (lit "DOMAIN,a.com\nIP-CIDR,192.0.2.0/24\n"),
        before ',' line ∈ undetectedTypes := by
  refine orderIndependent_iff plainImporter (by decide) ?_
  have hlines : entryLines (lit "DOMAIN,a.com\nIP-CIDR,192.0.2.0/24\n") =
      [lit "DOMAIN,a.com", lit "IP-CIDR,192.0.2.0/24"] := by decide
  rw [hlines]
  intro line hline
  simp only [List.mem_cons, List.not_mem_nil, or_false] at hline
  rcases hline with rfl | rfl
  · exact ⟨lit "DOMAIN", by decide, lit "a.com", rfl⟩
  · exact ⟨lit "IP-CIDR", by decide, lit "192.0.2.0/24", rfl⟩

/-- A keyword in front of it loses the domain. -/
theorem keyword_first_loses_domain :
    plainImporter.extractDomains (lit "https://a.com/l") (lit "DOMAIN,a.com\nDOMAIN-KEYWORD,b") =
        some [lit "a.com"] ∧
      plainImporter.extractDomains (lit "https://a.com/l") (lit "DOMAIN-KEYWORD,b\nDOMAIN,a.com") =
        some [] ∧
      ¬ ∀ (I : Importer) (url category text : Text), text.length ≤ 4096 →
        (∀ line ∈ entryLines text, IsEntry line) → I.OrderIndependent url category text := by
  have hfirst : plainImporter.extractDomains (lit "https://a.com/l")
      (lit "DOMAIN,a.com\nDOMAIN-KEYWORD,b") = some [lit "a.com"] := by decide
  have hsecond : plainImporter.extractDomains (lit "https://a.com/l")
      (lit "DOMAIN-KEYWORD,b\nDOMAIN,a.com") = some [] := by decide
  refine ⟨hfirst, hsecond, fun hclaim => ?_⟩
  have hlines : entryLines (lit "DOMAIN,a.com\nDOMAIN-KEYWORD,b") =
      [lit "DOMAIN,a.com", lit "DOMAIN-KEYWORD,b"] := by decide
  have hlist : ∀ line ∈ entryLines (lit "DOMAIN,a.com\nDOMAIN-KEYWORD,b"), IsEntry line := by
    rw [hlines]
    intro line hline
    simp only [List.mem_cons, List.not_mem_nil, or_false] at hline
    rcases hline with rfl | rfl
    · exact ⟨lit "DOMAIN", by decide, lit "a.com", rfl⟩
    · exact ⟨lit "DOMAIN-KEYWORD", by decide, lit "b", rfl⟩
  have hre : Reordered (lit "DOMAIN,a.com\nDOMAIN-KEYWORD,b")
      (lit "DOMAIN-KEYWORD,b\nDOMAIN,a.com") := by
    show List.Perm [lit "DOMAIN-KEYWORD,b", lit "DOMAIN,a.com"]
      [lit "DOMAIN,a.com", lit "DOMAIN-KEYWORD,b"]
    exact List.Perm.swap ..
  have hsame := (hclaim plainImporter (lit "https://a.com/l") [] _ (by decide) hlist _ hre
    (by decide)).1
  rw [hfirst, hsecond] at hsame
  exact absurd hsame (by decide)

end ProxyGateway.Smart
