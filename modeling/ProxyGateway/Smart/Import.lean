/-
# ProxyGateway.Smart.Import — `rules-import.py`, the conversion of a rule list

The importer reads a list in the syntax of another client and writes lines for the router.  Its reader
honours double quotes: `csv_split` keeps a comma inside them, and `#` and `;` are characters like any
other.  Its writer puts type, value and category between commas and quotes nothing, and the line parser
of the router cuts at `#`, at `;` and at every comma.

So a line is read back as it was meant exactly where neither its value nor the category that is kept
has one of the three characters in it (`import_roundTrips_iff`); a URL with a fragment is enough to
break it (`fragment_is_cut`).  The file itself keeps its lines apart whatever is in them (`readBack`).

The statistics on standard error are left out.
-/
import ProxyGateway.Smart.Edits

namespace ProxyGateway.Smart

open ProxyGateway.Lang

/-! ## The fields of the source list -/

/-- The loop of `csv_split`: `q` inside double quotes, `cur` the field so far. -/
def csvLoop : Bool → Text → Text → List Text
  | _, cur, [] => [cur]
  | q, cur, ch :: s =>
    if ch = '"' then csvLoop (!q) cur s
    else if ch = ',' ∧ q = false then cur :: csvLoop q [] s
    else csvLoop q (cur ++ [ch]) s

/-- **`csv_split`** -/
def csvSplit (s : Text) : List Text := (csvLoop false [] s).map strip

/-- The loop of `split_top_parens` over `s`, at index `i`. -/
def topParens (s : Text) : Nat → Int → Option Nat → Text → List Text
  | _, _, _, [] => []
  | i, depth, start, ch :: rest =>
    if ch = '(' then
      topParens s (i + 1) (depth + 1) (if depth = 0 then some (i + 1) else start) rest
    else if ch = ')' then
      match start with
      | some k =>
        if depth - 1 = 0 then
          (s.drop k).take (i - k) :: topParens s (i + 1) (depth - 1) none rest
        else topParens s (i + 1) (depth - 1) start rest
      | none => topParens s (i + 1) (depth - 1) none rest
    else topParens s (i + 1) depth start rest

/-- **`split_top_parens`** -/
def splitTopParens (s : Text) : List Text := topParens s 0 0 none s

/-- The index, from `j` on, at which the parentheses are balanced again. -/
def closing : Nat → Int → Text → Option Nat
  | _, _, [] => none
  | j, depth, ch :: rest =>
    if ch = '(' then closing (j + 1) (depth + 1) rest
    else if ch = ')' then
      if depth - 1 = 0 then some j else closing (j + 1) (depth - 1) rest
    else closing (j + 1) depth rest

/-- **`parse_logical`**: the members and the policy.  Without a parenthesis `line.index` raises. -/
def parseLogical (line : Text) : Option (List Text × Option Text) :=
  if '(' ∉ line then none
  else
    let i := (before '(' line).length
    match closing i 0 (line.drop i) with
    | none => some ([], none)
    | some e =>
      let group := (line.drop (i + 1)).take (e - (i + 1))
      let tail := (line.drop (e + 1)).dropWhile (· = ',')
      some (splitTopParens group, if tail = [] then none else (csvSplit tail).head?)

/-- **`KEEP`** -/
def keepTypes : List Text :=
  [lit "DOMAIN", lit "DOMAIN-SUFFIX", lit "DOMAIN-KEYWORD", lit "IP-CIDR", lit "IP-CIDR6",
    lit "RULE-SET", lit "GEOIP", lit "GEOSITE"]

/-- **`DROP`** -/
def dropTypes : List Text :=
  [lit "PROCESS-NAME", lit "SRC-IP", lit "SRC-PORT", lit "DEST-PORT", lit "IN-PORT",
    lit "MAC-ADDRESS", lit "DEVICE-NAME", lit "IP-ASN", lit "USER-AGENT", lit "SUBNET",
    lit "PROTOCOL", lit "CELLULAR-RADIO", lit "SSID"]

/-- A small letter of a pattern under `re.I`, which also takes the dotted and the dotless i and the
long s. -/
def sameLetter (p c : Char) : Bool :=
  c.toLower = p || (p = 'i' && (c = 'İ' || c = 'ı')) || (p = 's' && c = 'ſ')

/-- What follows a word at the start of a text. -/
def afterWord : Text → Text → Option Text
  | [], t => some t
  | _ :: _, [] => none
  | p :: word, c :: t => if sameLetter p c then afterWord word t else none

/-- **`MODIFIERS`**, on a field of a line, which has no newline in it. -/
def isModifier (t : Text) : Bool :=
  [lit "no-resolve", lit "extended-matching", lit "dns-failed", lit "pre-matching"].any
      (fun word => afterWord word t = some []) ||
    [lit "update-interval=", lit "interval="].any fun word => (afterWord word t).isSome

/-- `t.strip('"')` -/
def stripQuotes (t : Text) : Text := (t.dropWhile (· = '"')).rdropWhile (· = '"')

/-! ## The importer -/

/-- ASCII without small letters. -/
def isCapital (t : Text) : Bool := t.all fun c => c.toNat < 128 && !c.isLower

/-- Python, and the two settings. -/
structure Importer extends Host where
  /-- `\w` -/
  isWord : Char → Bool
  /-- `PGW_KEEP_CATEGORIES` -/
  keepSetting : Text
  /-- `PGW_DIRECT_CATEGORIES` -/
  directSetting : Text
  /-- `str.upper` leaves capitals alone. -/
  upper_eq_self : ∀ t, isCapital t = true → upper t = t

/-- What is passed to `emit`. -/
structure Matcher where
  typ : Text
  value : Text
  category : Text
  deriving DecidableEq, Repr

/-- What a line adds. -/
inductive Imported where
  /-- A comment, or a line that is dropped. -/
  | nothing
  | rules (matchers : List Matcher)
  | final (category : Option Text)
  deriving DecidableEq, Repr

def Imported.matchers : Imported → List Matcher
  | .rules ms => ms
  | _ => []

def Imported.final? : Imported → Option (Option Text)
  | .final category => some category
  | _ => none

/-- `[c for c in re.split(r"[,\s]+", setting) if c]` -/
def settingWords (setting : Text) : List Text :=
  ((setting.splitOnP fun c => c = ',' || isSpace c).map strip).filter (· ≠ [])

/-- The type as the gateway writes it. -/
def gatewayType (typ : Text) : Text := if typ = lit "IP-CIDR6" then lit "IP-CIDR" else typ

section Importer

variable (I : Importer)

/-- **`norm_category`** -/
def Importer.normCategory (p : Text) : Text :=
  let p := strip (stripQuotes (strip p))
  let p := strip (p.dropWhile fun c => !(I.isWord c || (0x4e00 ≤ c.toNat && c.toNat ≤ 0x9fff)))
  if p = [] then lit "Proxy" else p

/-- **`_KEEP`** -/
def Importer.keep : List Text := settingWords I.keepSetting

/-- **`_DIRECT`** -/
def Importer.direct : List Text := (settingWords I.directSetting).map I.lower

/-- A category that goes out under its own name. -/
def Importer.keeps (cat : Text) : Bool :=
  I.lower cat ∉ I.direct && (I.keep = [] || cat ∈ I.keep)

/-- **`category_of`** -/
def Importer.categoryOf (policy : Text) : Text :=
  let cat := I.normCategory policy
  let low := I.lower cat
  if low ∈ I.direct then lit "direct"
  else if I.keep = [] ∨ cat ∈ I.keep then cat
  else if low ∈ [lit "dir", lit "direct", lit "china", lit "lan", lit "domestic"] then lit "direct"
  else if [lit "advert", lit "hijack", lit "privacy", lit "reject", lit "广告", lit "malware"].any
      (· <:+: low) then lit "block"
  else lit "Proxy"

/-- **`emit`**: the line it appends. -/
def Importer.emit (m : Matcher) : Text :=
  gatewayType (I.upper m.typ) ++ ',' :: (m.value ++ ',' :: I.categoryOf m.category)

/-- A member of an `OR`. -/
def Importer.member (policy m : Text) : Option Matcher :=
  match csvSplit m with
  | head :: value :: _ =>
    if I.upper head ∈ keepTypes then some ⟨I.upper head, value, policy⟩ else none
  | _ => none

/-- `line.split(",", 1)[0].strip().upper()` -/
def Importer.typeOf (line : Text) : Text := I.upper (strip (before ',' line))

/-- One turn of the main loop; none where it raises. -/
def Importer.readLine (raw : Text) : Option Imported :=
  let line := strip raw
  if line = [] ∨ line.head? ∈ [some '#', some ';', some '['] then some .nothing
  else
    let typ := I.typeOf line
    if typ = lit "AND" then some .nothing
    else if typ = lit "OR" then
      match parseLogical line with
      | none => none
      | some (_, none) => some .nothing
      | some (members, some policy) =>
        if policy = [] then some .nothing
        else some (.rules (members.filterMap (I.member policy)))
    else
      let parts := csvSplit line
      if typ = lit "FINAL" then some (.final (parts[1]?.map I.categoryOf))
      else if typ ∈ dropTypes then some .nothing
      else if typ ∉ keepTypes then some .nothing
      else match parts with
        | _ :: value :: rest =>
          match rest.filter fun x => !isModifier (stripQuotes (strip x)) with
          | policy :: _ => some (.rules [⟨typ, value, policy⟩])
          | [] => some .nothing
        | _ => some .nothing

/-- The main loop over a rule list. -/
def Importer.readFile (file : Text) : Option (List Imported) := (pyLines file).mapM I.readLine

/-- The lines of the output: the rules, and the last `FINAL` with its category. -/
def Importer.outLines (out : List Imported) : List Text :=
  (out.flatMap Imported.matchers).map I.emit ++
    ((out.filterMap Imported.final?).getLast?.join.map (lit "FINAL," ++ ·)).toList

/-- **`rules-import.py`** on a rule list; it writes nothing where it raises. -/
def Importer.importFile (file : Text) : Option Text :=
  (I.readFile file).map fun out => joinLines (I.outLines out)

/-- The matchers of the lines that the importer writes. -/
def Importer.written (file : Text) : List Matcher :=
  ((I.readFile file).getD []).flatMap Imported.matchers

end Importer

/-! ## What the readers make of a field -/

theorem mem_csvLoop {q : Bool} {cur s piece : Text} (h : piece ∈ csvLoop q cur s) {c : Char}
    (hc : c ∈ piece) : c ∈ cur ∨ c ∈ s := by
  fun_induction csvLoop q cur s with
  | case1 q cur =>
    rw [List.mem_singleton.mp h] at hc
    exact .inl hc
  | case2 q cur s ih =>
    exact (ih h).imp_right (List.mem_cons_of_mem _)
  | case3 q cur ch s hquote hcomma ih =>
    rcases List.mem_cons.mp h with rfl | h
    · exact .inl hc
    · exact .inr (List.mem_cons_of_mem _ ((ih h).resolve_left List.not_mem_nil))
  | case4 q cur ch s hquote hcomma ih =>
    rcases ih h with hcur | hs
    · rcases List.mem_append.mp hcur with hcur | hch
      · exact .inl hcur
      · exact .inr (List.mem_singleton.mp hch ▸ List.mem_cons_self ..)
    · exact .inr (List.mem_cons_of_mem _ hs)

theorem mem_of_mem_csvSplit {s piece : Text} (h : piece ∈ csvSplit s) {c : Char} (hc : c ∈ piece) :
    c ∈ s := by
  obtain ⟨raw, hraw, rfl⟩ := List.mem_map.mp h
  exact (mem_csvLoop hraw (mem_of_mem_strip hc)).resolve_left List.not_mem_nil

theorem strip_of_mem_csvSplit {s piece : Text} (h : piece ∈ csvSplit s) : strip piece = piece := by
  obtain ⟨raw, -, rfl⟩ := List.mem_map.mp h
  exact strip_strip raw

/-! ## One line through both programs -/

section RoundTrip

variable (I : Importer)

/-- **`RoundTrips`** — the router reads the line of a matcher as its type, value and category. -/
def Importer.RoundTrips (m : Matcher) : Prop :=
  I.ruleType (gatewayType m.typ) = gatewayType m.typ ∧
    I.parseLine (I.emit m) =
      .rule (gatewayType m.typ) m.value (I.categoryOf m.category)

variable {I}

/-- What holds of the types, and is what their lines need. -/
theorem keepTypes_plain : ∀ t ∈ keepTypes, isCapital t = true ∧ isCapital (gatewayType t) = true ∧
    PlainField (gatewayType t) ∧ strip (gatewayType t) = gatewayType t ∧ '_' ∉ gatewayType t ∧
    gatewayType t ≠ lit "FINAL" := by
  decide

theorem ruleType_gatewayType {t : Text} (ht : t ∈ keepTypes) :
    I.ruleType (gatewayType t) = gatewayType t := by
  obtain ⟨-, hupper, -, -, hline, -⟩ := keepTypes_plain t ht
  rw [Host.ruleType, I.upper_eq_self _ hupper]
  refine (List.map_congr_left fun c hc => ?_).trans (List.map_id _)
  exact if_neg fun heq : c = '_' => hline (heq ▸ hc)

theorem strip_normCategory (p : Text) : strip (I.normCategory p) = I.normCategory p := by
  unfold Importer.normCategory
  simp only
  split
  · decide
  · exact strip_strip _

theorem categoryOf_cases (p : Text) :
    (I.keeps (I.normCategory p) = true ∧ I.categoryOf p = I.normCategory p) ∨
      (I.keeps (I.normCategory p) = false ∧
        I.categoryOf p ∈ [lit "direct", lit "block", lit "Proxy"]) := by
  unfold Importer.categoryOf Importer.keeps
  simp only
  by_cases hdirect : I.lower (I.normCategory p) ∈ I.direct
  · simp [hdirect]
  · by_cases hkeep : I.keep = [] ∨ I.normCategory p ∈ I.keep
    · simp [hdirect, hkeep]
    · right
      simp only [hdirect, hkeep, if_false, not_false_eq_true, decide_true, Bool.true_and]
      refine ⟨by simpa using hkeep, ?_⟩
      split
      · simp
      · split <;> simp

theorem strip_categoryOf (p : Text) : strip (I.categoryOf p) = I.categoryOf p := by
  rcases categoryOf_cases (I := I) p with ⟨-, heq⟩ | ⟨-, hmem⟩
  · rw [heq, strip_normCategory]
  · generalize I.categoryOf p = c at hmem
    revert c
    decide

/-- **`roundTrips_iff`** — a line is read back exactly where its value is plain, and its category too if
it goes out under its own name. -/
theorem roundTrips_iff {m : Matcher} (ht : m.typ ∈ keepTypes) (hv : strip m.value = m.value) :
    I.RoundTrips m ↔ PlainField m.value ∧
      (I.keeps (I.normCategory m.category) = true → PlainField (I.normCategory m.category)) := by
  obtain ⟨hupper, -, hplain, hstrip, -, hnotFinal⟩ := keepTypes_plain m.typ ht
  have htype := ruleType_gatewayType (I := I) ht
  have hcategory : (I.keeps (I.normCategory m.category) = true →
      PlainField (I.normCategory m.category)) ↔ PlainField (I.categoryOf m.category) := by
    rcases categoryOf_cases (I := I) m.category with ⟨hkeeps, heq⟩ | ⟨hkeeps, hmem⟩
    · simp [hkeeps, heq]
    · have hwords : ∀ c ∈ [lit "direct", lit "block", lit "Proxy"], PlainField c := by decide
      simp [hkeeps, hwords _ hmem]
  rw [hcategory, Importer.RoundTrips, Importer.emit, I.upper_eq_self _ hupper]
  constructor
  · -- the fields that the router reads are plain, and among them are the value and the category
    rintro ⟨-, hparse⟩
    obtain ⟨-, rest, hfields⟩ := Host.parseLine_eq_rule_iff.mp hparse
    have hmem : ∀ f ∈ gatewayType m.typ :: m.value :: I.categoryOf m.category :: rest,
        PlainField f := by
      rw [← hfields]
      exact fun f hf => plainField_of_mem_fields hf
    exact ⟨hmem _ (by simp), hmem _ (by simp)⟩
  · rintro ⟨hvalue, hcat⟩
    refine ⟨htype, Host.parseLine_eq_rule_iff.mpr ⟨?_, [], ?_⟩⟩
    · rw [htype]
      exact hnotFinal
    · exact fields_of_plain hplain hvalue hcat hstrip hv (strip_categoryOf _)

end RoundTrip

/-! ## What a rule list passes to `emit` -/

section Written

theorem mem_topParens {s rest piece : Text} {i : Nat} {depth : Int} {start : Option Nat}
    (h : piece ∈ topParens s i depth start rest) : piece ⊆ s := by
  fun_induction topParens s i depth start rest with
  | case1 => nomatch h
  | case2 i depth start rest ih => exact ih h
  | case3 i depth rest hopen k hdepth ih =>
    rcases List.mem_cons.mp h with rfl | h
    · exact fun c hc => List.mem_of_mem_drop (List.mem_of_mem_take hc)
    · exact ih h
  | case4 i depth rest hopen k hdepth ih => exact ih h
  | case5 i depth rest hopen ih => exact ih h
  | case6 i depth start ch rest hopen hclose ih => exact ih h

/-- The members and the policy of a logical rule are made of its characters. -/
theorem parseLogical_subset {line policy : Text} {members : List Text}
    (h : parseLogical line = some (members, some policy)) :
    (∀ m ∈ members, m ⊆ line) ∧ policy ⊆ line := by
  unfold parseLogical at h
  simp only at h
  split at h
  · nomatch h
  · split at h
    · nomatch h
    · next e he =>
      obtain ⟨rfl, hpolicy⟩ := Prod.mk.inj (Option.some.inj h)
      constructor
      · intro m hm c hc
        exact List.mem_of_mem_drop (List.mem_of_mem_take (mem_topParens hm hc))
      · intro c hc
        split at hpolicy
        · nomatch hpolicy
        · exact List.mem_of_mem_drop
            ((List.dropWhile_suffix _).subset (mem_of_mem_csvSplit (List.mem_of_head? hpolicy) hc))

variable {I : Importer}

theorem member_eq_some {policy m : Text} {mt : Matcher} (h : I.member policy m = some mt) :
    mt.typ ∈ keepTypes ∧ mt.value ∈ csvSplit m ∧ mt.category = policy := by
  unfold Importer.member at h
  split at h
  · next head value rest hsplit =>
    split at h
    · next hkeep =>
      cases h
      exact ⟨hkeep, hsplit ▸ by simp, rfl⟩
    · nomatch h
  · nomatch h

/-- Everything that a line can add. -/
theorem readLine_cases {raw : Text} {out : Imported} (h : I.readLine raw = some out) :
    out = .nothing ∨
      (∃ members policy, I.typeOf (strip raw) = lit "OR" ∧ policy ≠ [] ∧
        parseLogical (strip raw) = some (members, some policy) ∧
        out = .rules (members.filterMap (I.member policy))) ∨
      (∃ head value rest policy, I.typeOf (strip raw) ∈ keepTypes ∧
        csvSplit (strip raw) = head :: value :: rest ∧
        (rest.filter fun x => !isModifier (stripQuotes (strip x))).head? = some policy ∧
        out = .rules [⟨I.typeOf (strip raw), value, policy⟩]) ∨
      (I.typeOf (strip raw) = lit "FINAL" ∧
        out = .final ((csvSplit (strip raw))[1]?.map I.categoryOf)) := by
  unfold Importer.readLine at h
  simp only at h
  -- blank lines, comments and section headers
  split at h
  · exact .inl (Option.some.inj h).symm
  -- `AND`
  split at h
  · exact .inl (Option.some.inj h).symm
  split at h
  · next hor =>
    split at h
    · nomatch h
    · exact .inl (Option.some.inj h).symm
    · next members policy hlogical =>
      split at h
      · exact .inl (Option.some.inj h).symm
      · next hpolicy =>
        exact .inr (.inl ⟨members, policy, hor, hpolicy, hlogical, (Option.some.inj h).symm⟩)
  split at h
  · next hfinal => exact .inr (.inr (.inr ⟨hfinal, (Option.some.inj h).symm⟩))
  -- types that are dropped, and types that are unknown
  split at h
  · exact .inl (Option.some.inj h).symm
  split at h
  · exact .inl (Option.some.inj h).symm
  next hkeep =>
  split at h
  · next head value rest hparts =>
    split at h
    · next policy others hrest =>
      refine .inr (.inr (.inl ⟨head, value, rest, policy, by simpa using hkeep, hparts, ?_,
        (Option.some.inj h).symm⟩))
      rw [hrest, List.head?_cons]
    · exact .inl (Option.some.inj h).symm
  · exact .inl (Option.some.inj h).symm

/-- What `emit` gets from a line: a type it keeps, a stripped value, and characters of the line. -/
theorem readLine_matcher {raw : Text} {out : Imported} (h : I.readLine raw = some out) {m : Matcher}
    (hm : m ∈ out.matchers) :
    m.typ ∈ keepTypes ∧ strip m.value = m.value ∧ m.value ⊆ raw ∧ m.category ⊆ raw := by
  have hline : strip raw ⊆ raw := fun c hc => mem_of_mem_strip hc
  rcases readLine_cases h with rfl | ⟨members, policy, -, -, hlogical, rfl⟩ |
    ⟨head, value, rest, policy, hkeep, hparts, hrest, rfl⟩ | ⟨-, rfl⟩
  · nomatch hm
  · -- a member has its own value, and the policy of the whole
    obtain ⟨member, hmember, hm⟩ := List.mem_filterMap.mp hm
    obtain ⟨htype, hvalue, hcat⟩ := member_eq_some hm
    obtain ⟨hmembers, hpolicy⟩ := parseLogical_subset hlogical
    refine ⟨htype, strip_of_mem_csvSplit hvalue, fun c hc => ?_, ?_⟩
    · exact hline (hmembers member hmember (mem_of_mem_csvSplit hvalue hc))
    · rw [hcat]
      exact fun c hc => hline (hpolicy hc)
  · obtain rfl := List.mem_singleton.mp hm
    have hvalue : value ∈ csvSplit (strip raw) := hparts ▸ by simp
    have hpolicy : policy ∈ csvSplit (strip raw) := by
      rw [hparts]
      exact List.mem_cons_of_mem _ (List.mem_cons_of_mem _
        (List.mem_of_mem_filter (List.mem_of_head? hrest)))
    refine ⟨hkeep, strip_of_mem_csvSplit hvalue, fun c hc => ?_, fun c hc => ?_⟩
    · exact hline (mem_of_mem_csvSplit hvalue hc)
    · exact hline (mem_of_mem_csvSplit hpolicy hc)
  · nomatch hm

/-- The category of a `FINAL` is made of characters of its line. -/
theorem readLine_final {raw category : Text}
    (h : I.readLine raw = some (.final (some category))) :
    ∃ p, p ⊆ raw ∧ category = I.categoryOf p := by
  rcases readLine_cases h with hout | ⟨_, _, -, -, -, hout⟩ | ⟨_, _, _, _, -, -, -, hout⟩ |
    ⟨-, hout⟩
  · nomatch hout
  · nomatch hout
  · nomatch hout
  · obtain ⟨p, hp, rfl⟩ := Option.map_eq_some_iff.mp (Imported.final.inj hout).symm
    exact ⟨p, fun c hc => mem_of_mem_strip (mem_of_mem_csvSplit (List.mem_of_getElem? hp) hc), rfl⟩

theorem exists_line_of_mem {lines : List Text} {out : List Imported}
    (h : lines.mapM I.readLine = some out) {o : Imported} (ho : o ∈ out) :
    ∃ raw ∈ lines, I.readLine raw = some o := by
  induction lines generalizing out with
  | nil =>
    obtain rfl : out = [] := by simpa using h.symm
    nomatch ho
  | cons raw lines ih =>
    rw [List.mapM_cons, Option.bind_eq_bind, Option.bind_eq_some_iff] at h
    obtain ⟨first, hfirst, h⟩ := h
    obtain ⟨rest, hrest, h⟩ := Option.bind_eq_some_iff.mp h
    cases h
    rcases List.mem_cons.mp ho with rfl | ho
    · exact ⟨raw, List.mem_cons_self .., hfirst⟩
    · obtain ⟨raw', hmem, hraw'⟩ := ih hrest ho
      exact ⟨raw', List.mem_cons_of_mem _ hmem, hraw'⟩

theorem mem_written_iff {file : Text} {m : Matcher} :
    m ∈ I.written file ↔ ∃ out, I.readFile file = some out ∧ ∃ o ∈ out, m ∈ o.matchers := by
  unfold Importer.written
  cases I.readFile file <;> simp [List.mem_flatMap]

/-- **`import_roundTrips_iff`** — every line written for a matcher is read back by the router as it was
meant exactly where the values, and the categories that go out under their own names, are plain. -/
theorem import_roundTrips_iff (I : Importer) (file : Text) :
    (∀ m ∈ I.written file, I.RoundTrips m) ↔
      ∀ m ∈ I.written file, PlainField m.value ∧
        (I.keeps (I.normCategory m.category) = true →
          PlainField (I.normCategory m.category)) := by
  refine forall₂_congr fun m hm => ?_
  obtain ⟨out, hout, o, ho, hm⟩ := mem_written_iff.mp hm
  obtain ⟨raw, -, hraw⟩ := exists_line_of_mem hout ho
  obtain ⟨htype, hvalue, -, -⟩ := readLine_matcher hraw hm
  exact roundTrips_iff htype hvalue

theorem toUpper_of_isCapital (t : Text) (h : isCapital t = true) : t.map Char.toUpper = t := by
  refine (List.map_congr_left fun c hc => ?_).trans (List.map_id _)
  have hcapital := List.all_eq_true.mp h c hc
  rcases toUpper_eq_self_or c with hself | hsmall
  · exact hself
  · simp [isLower_iff.mpr hsmall] at hcapital

/-- ASCII text, and no categories named. -/
def plainImporter : Importer where
  toHost := plainHost
  isWord := fun c => c.isAlphanum || c == '_'
  keepSetting := []
  directSetting := []
  upper_eq_self := toUpper_of_isCapital

/-- To the router the fragment of a URL is a comment, and the policy behind it too. -/
theorem fragment_is_cut :
    plainImporter.written (lit "RULE-SET,https://example.com/list#eu,Proxy\n") =
        [⟨lit "RULE-SET", lit "https://example.com/list#eu", lit "Proxy"⟩] ∧
      plainImporter.importFile (lit "RULE-SET,https://example.com/list#eu,Proxy\n") =
        some (lit "RULE-SET,https://example.com/list#eu,Proxy\n") ∧
      plainHost.parseLine (lit "RULE-SET,https://example.com/list#eu,Proxy") =
        .short (lit "RULE-SET,https://example.com/list") ∧
      ¬ ∀ m ∈ plainImporter.written (lit "RULE-SET,https://example.com/list#eu,Proxy\n"),
        plainImporter.RoundTrips m := by
  have hwritten : plainImporter.written (lit "RULE-SET,https://example.com/list#eu,Proxy\n") =
      [⟨lit "RULE-SET", lit "https://example.com/list#eu", lit "Proxy"⟩] := by decide
  refine ⟨hwritten, by decide, by decide, fun hclaim => ?_⟩
  rw [hwritten] at hclaim
  obtain ⟨-, hparse⟩ := hclaim _ (List.mem_singleton.mpr rfl)
  revert hparse
  decide

/-! ## The output as a file -/

theorem stripQuotes_subset (t : Text) : stripQuotes t ⊆ t := fun _ hc =>
  (List.dropWhile_suffix _).subset ((List.rdropWhile_prefix _ _).subset hc)

theorem normCategory_subset (p : Text) : I.normCategory p ⊆ p ∨ I.normCategory p = lit "Proxy" := by
  unfold Importer.normCategory
  simp only
  split
  · exact .inr rfl
  · refine .inl fun c hc => mem_of_mem_strip (stripQuotes_subset _ ?_)
    exact mem_of_mem_strip ((List.dropWhile_suffix _).subset (mem_of_mem_strip hc))

theorem singleLine_categoryOf {p : Text} (h : SingleLine p) : SingleLine (I.categoryOf p) := by
  have hwords : ∀ c ∈ [lit "direct", lit "block", lit "Proxy"], SingleLine c := by
    unfold SingleLine
    decide
  rcases categoryOf_cases (I := I) p with ⟨-, heq⟩ | ⟨-, hmem⟩
  · rw [heq]
    rcases normCategory_subset (I := I) p with hsub | hproxy
    · exact singleLine_of_subset hsub h
    · exact hproxy ▸ hwords _ (by simp)
  · exact hwords _ hmem

theorem singleLine_emit {m : Matcher} (ht : m.typ ∈ keepTypes) (hv : SingleLine m.value)
    (hc : SingleLine m.category) : SingleLine (I.emit m) := by
  have htypes : ∀ t ∈ keepTypes, SingleLine (gatewayType t) := by
    unfold SingleLine
    decide
  rw [Importer.emit, I.upper_eq_self _ (keepTypes_plain m.typ ht).1]
  refine singleLine_append (htypes _ ht) ?_ (by decide) (by decide)
  exact singleLine_append hv (singleLine_categoryOf hc) (by decide) (by decide)

theorem singleLine_outLines {file : Text} {out : List Imported} (h : I.readFile file = some out) :
    ∀ line ∈ I.outLines out, SingleLine line := by
  intro line hline
  rcases List.mem_append.mp hline with hrule | hfinal
  · obtain ⟨m, hm, rfl⟩ := List.mem_map.mp hrule
    obtain ⟨o, ho, hm⟩ := List.mem_flatMap.mp hm
    obtain ⟨raw, hmem, hraw⟩ := exists_line_of_mem h ho
    obtain ⟨htype, -, hvalue, hcat⟩ := readLine_matcher hraw hm
    have hsingle := singleLine_of_mem_pyLines hmem
    exact singleLine_emit htype (singleLine_of_subset hvalue hsingle)
      (singleLine_of_subset hcat hsingle)
  · rw [Option.mem_toList, Option.map_eq_some_iff] at hfinal
    obtain ⟨category, hcategory, rfl⟩ := hfinal
    rw [Option.join_eq_some_iff] at hcategory
    obtain ⟨o, ho, hcat⟩ := List.mem_filterMap.mp (List.mem_of_getLast? hcategory)
    obtain ⟨raw, hmem, hraw⟩ := exists_line_of_mem h ho
    match o, hcat, hraw with
    | .final _, rfl, hraw =>
      obtain ⟨p, hp, rfl⟩ := readLine_final hraw
      have hsingle := singleLine_categoryOf (I := I)
        (singleLine_of_subset hp (singleLine_of_mem_pyLines hmem))
      have hfinal : SingleLine (lit "FINAL") := by
        unfold SingleLine
        decide
      exact singleLine_append hfinal hsingle (by decide) (by decide)

theorem filterMap_pyLines_intercalate {β : Type*} {p : Text → Option β} (hp : p [] = none)
    {lines : List Text} (hlines : ∀ line ∈ lines, SingleLine line) :
    (pyLines ((lit "\n").intercalate lines)).filterMap p = lines.filterMap p := by
  induction lines with
  | nil => exact filterMap_pyLines_nil hp
  | cons line lines ih =>
    have hline := pyLines_of_singleLine (hlines line (List.mem_cons_self ..))
    have hrest := ih fun l hl => hlines l (List.mem_cons_of_mem _ hl)
    cases lines with
    | nil => rw [List.intercalate_singleton, hline]
    | cons next lines =>
      rw [List.intercalate_cons_cons, List.append_assoc]
      show (pyLines (line ++ '\n' :: (lit "\n").intercalate (next :: lines))).filterMap p = _
      rw [filterMap_pyLines_append hp, hline, hrest]
      exact (List.filterMap_append (l := [line])).symm

/-- **`readBack`** — a reader that skips blank lines gets the lines of the output back from the file. -/
theorem readBack {β : Type*} {p : Text → Option β} (hp : p [] = none) {file text : Text}
    (h : I.importFile file = some text) :
    ∃ out, I.readFile file = some out ∧
      (pyLines text).filterMap p = (I.outLines out).filterMap p := by
  obtain ⟨out, hout, rfl⟩ := Option.map_eq_some_iff.mp h
  refine ⟨out, hout, ?_⟩
  rw [joinLines, filterMap_pyLines_append hp, filterMap_pyLines_nil hp, List.append_nil]
  exact filterMap_pyLines_intercalate hp (singleLine_outLines hout)

end Written

end ProxyGateway.Smart
