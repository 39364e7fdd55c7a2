/-
# ProxyGateway.Dns.ExtrasFile — who writes `gfwlist-extra-local.txt`

The bot adds a name to the file, removes one, or adds all names of a downloaded rule set; the shell
reads the file when it updates the rules, and skips with a warning what is no domain name.  Each
writer reads the file the way Python does, builds a new list and writes it back line by line.

Three things get past the writers.  The import takes the output of `rules-import.py` with standard
error merged in, so the line `extracted=1 domains` becomes an entry.  The pattern of `op_gfwlist_add`
allows empty labels and hyphens at the ends of a label, and cuts `www.` once where the reader cuts it
again.  And `str.splitlines` ends a line where the shell does not, so that the rest of a comment
becomes an entry.  In a run in which none of these happens the file stays loadable
(`loadable_of_reaches`).

A write either happens as a whole or, where the file cannot be opened, not at all.
-/
import ProxyGateway.Lang.Lines
import ProxyGateway.Logic.Machine
import ProxyGateway.Smart.Extract

namespace ProxyGateway.Dns

open ProxyGateway.Lang ProxyGateway.Logic ProxyGateway.Smart

/-! ## The reader -/

/-- What is left of a line without its comment and the spaces around it. -/
def Bash.trimmed (B : Bash) (line : Text) : Text := trimBy B.space (before '#' line)

/-- The line is taken without a warning: it is blank but for a comment, or a domain name. -/
def Bash.Passes (B : Bash) (line : Text) : Prop :=
  B.trimmed line = [] ∨ isDomain (B.extraDomain line) = true

instance (B : Bash) (line : Text) : Decidable (B.Passes line) :=
  inferInstanceAs (Decidable (_ ∨ _))

/-- **`Loadable`** — every line of the file that is no comment is a domain name to the reader. -/
def Bash.Loadable (B : Bash) (file : Text) : Prop := ∀ line ∈ readLines file, B.Passes line

/-! ## The writers -/

/-- Python, with the library functions that the bot uses. -/
structure Editor extends Importer where
  /-- `urlparse(url).hostname`; none where it raises or finds no name -/
  hostname : Text → Option Text
  /-- `data.decode("utf-8", "replace")` -/
  decode : List UInt8 → Text
  /-- `list(set(lines))` -/
  listed : List Text → List Text
  mem_listed : ∀ lines d, d ∈ listed lines ↔ d ∈ lines

/-- **`_read_gfwlist_extra`** -/
def readExtras (file : Text) : List Text :=
  ((splitlines (readFile file)).map strip).filter fun d => d ≠ [] && d.head? ≠ some '#'

/-- `[0-9;]*m`, and what follows it. -/
def ansiEnd : Text → Option Text
  | [] => none
  | c :: t => if c = 'm' then some t else if c.isDigit || c == ';' then ansiEnd t else none

/-- `_ANSI_RE.sub("", t)`, with fuel for the characters of the text. -/
def stripAnsiLoop : Nat → Text → Text
  | 0, t => t
  | _, [] => []
  | fuel + 1, c :: t =>
    match if c.toNat = 0x1b ∧ t.head? = some '[' then ansiEnd (t.drop 1) else none with
    | some rest => stripAnsiLoop fuel rest
    | none => c :: stripAnsiLoop fuel t

/-- **`_strip_ansi`** -/
def stripAnsi (t : Text) : Text := stripAnsiLoop t.length t

/-- The pattern `^[a-zA-Z0-9]([a-zA-Z0-9.-]*[a-zA-Z0-9])?\.[a-zA-Z]{2,}$`, which also matches in front
of a newline at the end. -/
def matchesExtra (name : Text) : Bool :=
  let body := cutLast '\n' name
  let root := (body.rdropWhile (· != '.')).dropLast
  let tld := body.rtakeWhile (· != '.')
  body.contains '.' && root.head?.any Char.isAlphanum && root.getLast?.any Char.isAlphanum &&
    root.all (fun c => c.isAlphanum || c == '.' || c == '-') &&
    tld.all Char.isAlpha && 2 ≤ tld.length

/-- An operation of the bot, with what it is given from outside. -/
inductive ExtraOp where
  | add (input : Text)
  | del (input : Text)
  /-- `data` is the download, if it succeeds; `cut` is how much of standard output `rules-import.py`
  has written when its message on standard error comes. -/
  | importSet (url : Text) (data : Option (List UInt8)) (cut : Nat)

section Editor

variable (L : Editor)

/-- The host that an input names. -/
def Editor.hostOf (raw : Text) : Text :=
  if [lit "http://", lit "https://", lit "//"].any (·.isPrefixOf raw) then
    match L.hostname (if lit "://" <:+: raw then raw else lit "https:" ++ raw) with
    | some host => if host = [] then raw else host
    | none => raw
  else before '/' raw

/-- The name that `op_gfwlist_add` takes from its argument. -/
def Editor.extraName (input : Text) : Text :=
  cutWww (rstripDots (L.lower (L.hostOf (strip input))))

/-- **`op_gfwlist_add`**: the text that it writes. -/
def Editor.opGfwlistAdd (input file : Text) : Option Text :=
  let name := L.extraName input
  if matchesExtra name = false then none
  else if name ∈ readExtras file then none
  else some (joinLines (readExtras file ++ [name]))

/-- **`op_gfwlist_del`** -/
def Editor.opGfwlistDel (input file : Text) : Option Text :=
  let domainLower := L.lower (strip input)
  if domainLower ∈ (readExtras file).map L.lower then
    some (joinLines ((readExtras file).filter fun d => L.lower d ≠ domainLower))
  else none

/-- What `run2` returns for `rules-import.py --extract-domains`, if that succeeds. -/
def Editor.extractOutput (url : Text) (data : List UInt8) (cut : Nat) : Option Text :=
  (L.extractDomains url (L.decode data)).map fun domains =>
    let stdout := joinLines domains
    let stderr := lit "extracted=" ++ (decimal domains.length ++ lit " domains\n")
    stripAnsi (stdout.take cut ++ (stderr ++ stdout.drop cut))

/-- **`op_gfwl_import_set`**, on the output. -/
def Editor.opGfwlImportSet (out file : Text) : Option Text :=
  let newDomains := ((splitlines (strip out)).map strip).filter (· ≠ [])
  let added := newDomains.filter (· ∉ readExtras file)
  if added = [] then none else some (joinLines (L.listed (readExtras file) ++ added))

/-- The text that an operation writes, if it writes the file. -/
def Editor.edit : ExtraOp → Text → Option Text
  | .add input, file => L.opGfwlistAdd input file
  | .del input, file => L.opGfwlistDel input file
  | .importSet url data cut, file =>
    (data.bind (L.extractOutput url · cut)).bind (L.opGfwlImportSet · file)

/-- An operation, and whether the file can be opened for writing. -/
structure ExtraCall where
  op : ExtraOp
  opened : Bool

def Editor.extraStep (file : Text) (call : ExtraCall) : Option Text :=
  some (if call.opened then (L.edit call.op file).getD file else file)

end Editor

/-! ## What gets past the writers -/

/-- A name with an empty label or one with a hyphen at an end, and a `www.` that is cut once more. -/
def sloppy (name : Text) : Bool :=
  (name.splitOn '.').any (fun label => label.isEmpty || label.head? == some '-' ||
      label.getLast? == some '-') ||
    (lit "www.").isPrefixOf name && !(name.drop 4).contains '.'

/-- No line break behind the `#` of a line, but for white space at its end. -/
def PlainComments (file : Text) : Prop :=
  ∀ line ∈ file.splitOn '\n', ∀ c ∈ (after '#' line).rdropWhile isSpace, isLineBreak c = false

/-- An operation whose names are not sloppy. -/
def Editor.Sound (L : Editor) : ExtraOp → Prop
  | .add input => sloppy (cutLast '\n' (L.extraName input)) = false
  | .del _ => True
  | .importSet .. => False

/-- **`Careful`** — if the operation writes the file, then it finds plain comments there, is no import
and adds no sloppy name. -/
def Editor.Careful (L : Editor) (file : Text) (call : ExtraCall) : Prop :=
  (L.edit call.op file).isSome = true → PlainComments file ∧ L.Sound call.op

/-! ## What Python reads is what the shell reads -/

section Reading

variable {B : Bash} {file : Text}

/-- What the bot takes for an entry. -/
structure Entry (file d : Text) : Prop where
  within : Within d file
  oneLine : ∀ c ∈ d, isLineBreak c = false
  nonempty : d ≠ []
  stripped : strip d = d

theorem entry_of_mem_readExtras {d : Text} (h : d ∈ readExtras file) : Entry file d := by
  obtain ⟨hd, hcond⟩ := List.mem_filter.mp h
  obtain ⟨line, hline, rfl⟩ := List.mem_map.mp hd
  obtain ⟨hin, hbreaks⟩ := within_of_mem_splitlines hline
  have hone : ∀ c ∈ strip line, isLineBreak c = false := fun c hc => hbreaks c (mem_of_mem_strip hc)
  refine ⟨?_, hone, ?_, strip_strip line⟩
  · apply Within.of_universalNewlines _ hone
    exact (within_strip line).trans (hin.trans (within_strip _))
  · rw [Bool.and_eq_true, decide_eq_true_eq] at hcond
    exact hcond.1

/-- NUL is all that `read` leaves out. -/
theorem mem_readLines_iff {line : Text} :
    line ∈ readLines file ↔ ∃ raw ∈ file.splitOn '\n', line = raw.filter (· != Char.ofNat 0) := by
  rw [readLines, splitOn_filter (by decide), List.mem_map]
  constructor
  · rintro ⟨raw, hraw, rfl⟩
    exact ⟨raw, hraw, rfl⟩
  · rintro ⟨raw, hraw, rfl⟩
    exact ⟨raw, hraw, rfl⟩

theorem Bash.extraDomain_eq (B : Bash) (line : Text) :
    B.extraDomain line = cutWww (cutLast '.' (B.trimmed line)) := rfl

/-- A part of a line that is taken is taken as well. -/
theorem Bash.Passes.spaced {line part : Text} (h : B.Passes line)
    (hin : Spaced (before '#' part) (before '#' line)) : B.Passes part := by
  have hword : ∀ c ∈ B.trimmed line, isSpace c = false := by
    intro c hc
    rcases h with hempty | hdomain
    · rw [hempty] at hc
      nomatch hc
    · by_cases hwww : c ∈ lit "www."
      · rw [show lit "www." = ['w', 'w', 'w', '.'] from rfl] at hwww
        have hchar : c = 'w' ∨ c = '.' := by simpa using hwww
        rcases hchar with rfl | rfl
        · decide
        · decide
      · apply noSpace_of_isDomain hdomain
        rw [B.extraDomain_eq, mem_cutWww_iff hwww, mem_cutLast_iff]
        · exact hc
        · rintro rfl
          exact hwww (by decide)
  rcases trimBy_spaced hin hword with hempty | hwhole
  · exact .inl hempty
  · have heq : B.trimmed part = B.trimmed line := hwhole
    rwa [Bash.Passes, B.extraDomain_eq, heq]

theorem Entry.newline {d : Text} (h : Entry file d) : '\n' ∉ d := fun hmem =>
  absurd (h.oneLine _ hmem) (by decide)

/-- An entry, as the shell reads it. -/
theorem Entry.passes {d : Text} (h : Entry file d) (hfile : B.Loadable file)
    (hplain : PlainComments file) : B.Passes (d.filter (· != Char.ofNat 0)) := by
  have hnewline : ∀ c ∈ d, (c == '\n') = false := by
    intro c hc
    rw [beq_eq_false_iff_ne]
    rintro rfl
    exact h.newline hc
  obtain ⟨line, hline, hin⟩ := h.within.exists_piece hnewline
  have hbefore : Spaced (before '#' d) (before '#' line) :=
    hin.before (by decide) h.nonempty h.stripped (hplain line hline)
  have hpasses : B.Passes (line.filter (· != Char.ofNat 0)) :=
    hfile _ (mem_readLines_iff.mpr ⟨line, hline, rfl⟩)
  apply hpasses.spaced
  rw [before_filter (by decide), before_filter (by decide)]
  apply hbefore.filter
  intro c hc
  rw [bne_iff_ne]
  rintro rfl
  nomatch hc

end Reading

/-! ## Names that are added -/

section Names

variable {B : Bash}

/-- What the pattern says of a name. -/
structure ExtraName (body : Text) : Prop where
  chars : ∀ c ∈ body, c.isAlphanum = true ∨ c = '.' ∨ c = '-'
  dot : '.' ∈ body
  first : body.head?.any Char.isAlphanum = true
  last : body.getLast?.any Char.isAlphanum = true

theorem extraName_of_matchesExtra {name : Text} (h : matchesExtra name = true) :
    ExtraName (cutLast '\n' name) := by
  simp only [matchesExtra, Bool.and_eq_true, decide_eq_true_eq, List.contains_iff_mem] at h
  obtain ⟨⟨⟨⟨⟨hdot, hfirst⟩, -⟩, hroot⟩, htld⟩, hlen⟩ := h
  have hsplit := eq_append_last hdot
  generalize cutLast '\n' name = body at hdot hfirst hroot htld hlen hsplit ⊢
  generalize (body.rdropWhile (· != '.')).dropLast = root at hfirst hroot hsplit
  generalize body.rtakeWhile (· != '.') = tld at htld hlen hsplit
  subst hsplit
  refine ⟨?_, hdot, ?_, ?_⟩
  · intro c hc
    rcases List.mem_append.mp hc with hc | hc
    · have hchar := List.all_eq_true.mp hroot c hc
      simpa [or_assoc] using hchar
    · rcases List.mem_cons.mp hc with rfl | hc
      · exact .inr (.inl rfl)
      · left
        rw [Char.isAlphanum, List.all_eq_true.mp htld c hc]
        rfl
  · cases root with
    | nil => cases hfirst
    | cons c root => exact hfirst
  · rcases List.eq_nil_or_concat' tld with rfl | ⟨tld, c, rfl⟩
    · rw [List.length_nil] at hlen
      omega
    · have hc := List.all_eq_true.mp htld c (by simp)
      have hassoc : root ++ '.' :: (tld ++ [c]) = (root ++ '.' :: tld) ++ [c] := by simp
      rw [hassoc, List.getLast?_concat]
      simp [Char.isAlphanum, hc]

theorem ExtraName.not_mem {body : Text} (h : ExtraName body) {c : Char}
    (hc : c.isAlphanum = false) (hdot : c ≠ '.') (hhyphen : c ≠ '-') : c ∉ body := by
  intro hmem
  rcases h.chars c hmem with halnum | heq | heq
  · rw [hc] at halnum
    nomatch halnum
  · exact hdot heq
  · exact hhyphen heq

theorem ExtraName.ne_nil {body : Text} (h : ExtraName body) : body ≠ [] := by
  rintro rfl
  exact absurd h.dot List.not_mem_nil

theorem two_le_length_splitOn {t : Text} : 2 ≤ (t.splitOn '.').length ↔ '.' ∈ t := by
  constructor
  · intro hlen
    by_contra hdot
    rw [List.splitOn_eq_singleton hdot, List.length_singleton] at hlen
    omega
  · intro hdot
    obtain ⟨u, hu⟩ := (eq_before_or '.' t).resolve_left fun heq => not_mem_before (heq ▸ hdot)
    rw [hu, List.splitOn_append_cons_self, List.length_append]
    have hleft := List.length_pos_of_ne_nil (List.splitOn_ne_nil '.' (before '.' t))
    have hright := List.length_pos_of_ne_nil (List.splitOn_ne_nil '.' u)
    omega

/-- The labels of a name without a hyphen at an end of one. -/
theorem isLabel_iff {body label : Text} (h : ExtraName body) (hlabel : label ∈ body.splitOn '.') :
    isLabel label = true ↔
      (label.isEmpty || label.head? == some '-' || label.getLast? == some '-') = false := by
  have hchars : ∀ c ∈ label, c.isAlphanum = true ∨ c = '-' := by
    intro c hc
    obtain ⟨hmem, hdot⟩ := mem_of_mem_splitOn hlabel hc
    rcases h.chars c hmem with hc | hc | hc
    · exact .inl hc
    · exact absurd hc hdot
    · exact .inr hc
  have hall : label.all (fun c => c.isAlphanum || c == '_' || c == '-') = true := by
    rw [List.all_eq_true]
    intro c hc
    rcases hchars c hc with hc | hc
    · simp [hc]
    · simp [hc]
  have hend : ∀ c ∈ label, c.isAlphanum = true ↔ c ≠ '-' := by
    intro c hc
    constructor
    · rintro hc rfl
      nomatch hc
    · exact (hchars c hc).resolve_right
  rcases List.eq_nil_or_concat' label with rfl | ⟨init, z, hz⟩
  · simp [isLabel]
  · obtain ⟨a, rest, ha⟩ := List.exists_cons_of_ne_nil (l := label) (by simp [hz])
    have hfirst : label.head? = some a := by rw [ha]; rfl
    have hlast : label.getLast? = some z := by rw [hz]; simp
    have hempty : label.isEmpty = false := by rw [ha]; rfl
    have hiffa := hend a (by rw [ha]; exact List.mem_cons_self ..)
    have hiffz := hend z (by rw [hz]; simp)
    rw [isLabel, hall, hfirst, hlast, hempty]
    simp [hiffa, hiffz]

/-- **`isDomain_cutWww_iff`** — the reader's pattern and the bot's agree where a name is not sloppy, and
nowhere else. -/
theorem isDomain_cutWww_iff {body : Text} (h : ExtraName body) :
    isDomain (cutWww body) = true ↔ sloppy body = false := by
  have hlabels : (body.splitOn '.').all isLabel = true ↔
      (body.splitOn '.').any (fun label => label.isEmpty || label.head? == some '-' ||
        label.getLast? == some '-') = false := by
    rw [List.all_eq_true, List.any_eq_false]
    refine forall₂_congr fun label hlabel => ?_
    rw [isLabel_iff h hlabel, Bool.not_eq_true]
  unfold cutWww sloppy
  split
  · next hpre =>
    obtain ⟨rest, rfl⟩ := List.isPrefixOf_iff_prefix.mp hpre
    have hdrop : (lit "www." ++ rest).drop 4 = rest := List.drop_left' (by decide)
    have hsplit : (lit "www." ++ rest).splitOn '.' = lit "www" :: rest.splitOn '.' := by
      rw [show lit "www." ++ rest = lit "www" ++ '.' :: rest from rfl,
        List.splitOn_append_cons_self, List.splitOn_eq_singleton (by decide)]
      rfl
    rw [Bool.or_eq_false_iff, ← hlabels, hsplit, hdrop, hpre, List.all_cons, isDomain]
    simp [two_le_length_splitOn, show isLabel (lit "www") = true from by decide, and_comm]
  · next hpre =>
    rw [Bool.or_eq_false_iff, ← hlabels, isDomain]
    simp [two_le_length_splitOn, h.dot, hpre]

section Added

variable (hspace : ∀ c, c.isAlphanum = true → B.space c = false)
include hspace

/-- A name of the pattern is not trimmed. -/
theorem extraDomain_extraName {body : Text} (h : ExtraName body) :
    B.trimmed body = body ∧ B.extraDomain body = cutWww body := by
  have hmark : '#' ∉ body := h.not_mem (by decide) (by decide) (by decide)
  have hstart : body.dropWhile B.space = body := by
    obtain ⟨c, rest, rfl⟩ := List.exists_cons_of_ne_nil h.ne_nil
    have hc : c.isAlphanum = true := h.first
    exact List.dropWhile_cons_of_neg (by simp [hspace c hc])
  have hlast : ∃ init z, body = init ++ [z] ∧ z.isAlphanum = true := by
    obtain ⟨init, z, rfl⟩ := (List.eq_nil_or_concat' body).resolve_left h.ne_nil
    exact ⟨init, z, rfl, by simpa using h.last⟩
  obtain ⟨init, z, hz, hzalnum⟩ := hlast
  have hend : body.rdropWhile B.space = body := by
    rw [hz]
    exact List.rdropWhile_concat_neg _ _ _ (by simp [hspace z hzalnum])
  have htrim : B.trimmed body = body := by
    rw [Bash.trimmed, before_of_not_mem hmark, trimBy, hstart, hend]
  have hdot : cutLast '.' body = body := by
    refine if_neg ?_
    rw [hz, List.getLast?_concat]
    intro heq
    rw [Option.some.inj heq] at hzalnum
    cases hzalnum
  exact ⟨htrim, by rw [B.extraDomain_eq, htrim, hdot]⟩

/-- **`passes_extraName_iff`** — what the pattern lets through is loaded unless it is sloppy. -/
theorem passes_extraName_iff {body : Text} (h : ExtraName body) :
    B.Passes body ↔ sloppy body = false := by
  obtain ⟨htrim, hdomain⟩ := extraDomain_extraName hspace h
  rw [Bash.Passes, htrim, hdomain, or_iff_right h.ne_nil, isDomain_cutWww_iff h]

/-- The lines of a name that is added: itself, and an empty one if it ends in a newline. -/
theorem passes_of_mem_added {name line : Text} (h : matchesExtra name = true)
    (hsound : sloppy (cutLast '\n' name) = false) (hline : line ∈ name.splitOn '\n') :
    B.Passes (line.filter (· != Char.ofNat 0)) := by
  have hname := extraName_of_matchesExtra h
  have hpasses := (passes_extraName_iff hspace hname).mpr hsound
  have hnewline : '\n' ∉ cutLast '\n' name := hname.not_mem (by decide) (by decide) (by decide)
  have hnul : Char.ofNat 0 ∉ cutLast '\n' name := hname.not_mem (by decide) (by decide) (by decide)
  have hfilter : (cutLast '\n' name).filter (· != Char.ofNat 0) = cutLast '\n' name := by
    rw [List.filter_eq_self]
    intro c hc
    rw [bne_iff_ne]
    rintro rfl
    exact hnul hc
  have hlines : line = cutLast '\n' name ∨ line = [] := by
    unfold cutLast at hnewline ⊢
    split at hnewline
    · next hlast =>
      obtain ⟨init, rfl⟩ := List.getLast?_eq_some_iff.mp hlast
      rw [List.dropLast_concat] at hnewline
      rw [List.splitOn_append_cons_self, List.splitOn_eq_singleton hnewline] at hline
      rw [if_pos hlast, List.dropLast_concat]
      simpa using hline
    · next hlast =>
      rw [List.splitOn_eq_singleton hnewline, List.mem_singleton] at hline
      rw [if_neg hlast]
      exact .inl hline
  rcases hlines with rfl | rfl
  · rwa [hfilter]
  · exact .inl rfl

end Added

end Names

/-! ## Imports -/

section Imports

variable {B : Bash} {L : Editor}

/-- The message of `rules-import.py`. -/
def extractedLine (n : Nat) : Text := lit "extracted=" ++ (decimal n ++ lit " domains")

theorem mem_extractedLine {n : Nat} {c : Char} (hc : c ∈ extractedLine n) :
    c.isAlphanum = true ∨ c = '=' ∨ c = ' ' := by
  rcases List.mem_append.mp hc with hc | hc
  · have hall : ∀ c ∈ lit "extracted=", c.isAlphanum = true ∨ c = '=' ∨ c = ' ' :=
      List.all_iff_forall_prop.mp (by decide)
    exact hall c hc
  · rcases List.mem_append.mp hc with hc | hc
    · left
      have hdigit : c.isDigit = true := Nat.isDigit_of_mem_toDigits (by omega) (by omega) hc
      simp [Char.isAlphanum, hdigit]
    · have hall : ∀ c ∈ lit " domains", c.isAlphanum = true ∨ c = '=' ∨ c = ' ' :=
        List.all_iff_forall_prop.mp (by decide)
      exact hall c hc

theorem stripAnsiLoop_append {s : Text} (hs : ∀ c ∈ s, c.toNat ≠ 0x1b) (fuel : Nat) (t : Text) :
    stripAnsiLoop (s.length + fuel) (s ++ t) = s ++ stripAnsiLoop fuel t := by
  induction s with
  | nil => rw [List.length_nil, Nat.zero_add, List.nil_append, List.nil_append]
  | cons c s ih =>
    have hc : c.toNat ≠ 0x1b := hs c (List.mem_cons_self ..)
    rw [List.length_cons, Nat.add_right_comm, List.cons_append, stripAnsiLoop,
      if_neg fun hcond => hc hcond.1]
    rw [ih fun d hd => hs d (List.mem_cons_of_mem _ hd), List.cons_append]

/-- The output starts with the message if that comes first. -/
theorem extractOutput_first {url : Text} {data : List UInt8} {out : Text}
    (h : L.extractOutput url data 0 = some out) : ∃ n rest, out = extractedLine n ++ '\n' :: rest := by
  unfold Editor.extractOutput at h
  cases hdomains : L.extractDomains url (L.decode data) with
  | none =>
    rw [hdomains] at h
    nomatch h
  | some domains =>
    rw [hdomains, Option.map_some] at h
    dsimp only at h
    refine ⟨domains.length, stripAnsiLoop (joinLines domains).length (joinLines domains), ?_⟩
    have hplain : ∀ c ∈ extractedLine domains.length ++ ['\n'], c.toNat ≠ 0x1b := by
      intro c hc
      rcases List.mem_append.mp hc with hc | hc
      · rcases mem_extractedLine hc with hc | rfl | rfl
        · have hrange := toNat_of_isAlphanum hc
          omega
        · decide
        · decide
      · rw [List.mem_singleton.mp hc]
        decide
    have hmerged : (joinLines domains).take 0 ++ (lit "extracted=" ++ (decimal domains.length ++
          lit " domains\n") ++ (joinLines domains).drop 0) =
        (extractedLine domains.length ++ ['\n']) ++ joinLines domains := by
      unfold extractedLine
      generalize decimal domains.length = digits
      rw [List.take_zero, List.nil_append, List.drop_zero,
        show lit " domains\n" = lit " domains" ++ ['\n'] from rfl]
      simp only [List.append_assoc]
    rw [← Option.some.inj h, hmerged, stripAnsi, List.length_append, stripAnsiLoop_append hplain,
      List.append_assoc, List.singleton_append]

theorem extractedLine_eq (n : Nat) :
    extractedLine n = 'e' :: (lit "xtracted=" ++ (decimal n ++ lit " domain")) ++ ['s'] := by
  unfold extractedLine
  generalize decimal n = digits
  rw [show lit "extracted=" = 'e' :: lit "xtracted=" from rfl,
    show lit " domains" = lit " domain" ++ ['s'] from rfl]
  simp only [List.append_assoc, List.cons_append]

/-- The message is the first line of such an output. -/
theorem mem_splitlines_first (n : Nat) (rest : Text) :
    extractedLine n ∈ splitlines (strip (extractedLine n ++ '\n' :: rest)) := by
  have hbreaks : ∀ c ∈ extractedLine n, isLineBreak c = false := by
    intro c hc
    rcases mem_extractedLine hc with hc | rfl | rfl
    · have hspace := isSpace_of_isAlphanum hc
      by_contra hbreak
      rw [isSpace_of_isLineBreak (by simpa using hbreak)] at hspace
      nomatch hspace
    · decide
    · decide
  have hsingle : SingleLine (extractedLine n) :=
    ⟨fun hmem => absurd (hbreaks _ hmem) (by decide), fun hmem => absurd (hbreaks _ hmem) (by decide)⟩
  obtain ⟨tail, htail, hstrip⟩ : ∃ tail, (tail = [] ∨ ∃ r, tail = '\n' :: r) ∧
      strip (extractedLine n ++ '\n' :: rest) = extractedLine n ++ tail := by
    refine ⟨('\n' :: rest).rdropWhile isSpace, ?_, ?_⟩
    · obtain ⟨r, hr⟩ := List.rdropWhile_prefix isSpace (l := '\n' :: rest)
      cases htail : ('\n' :: rest).rdropWhile isSpace with
      | nil => exact .inl rfl
      | cons c tail =>
        rw [htail] at hr
        rw [(List.cons.inj hr).1]
        exact .inr ⟨tail, rfl⟩
    · rw [extractedLine_eq, List.append_assoc, List.singleton_append,
        strip_append_cons (by decide), List.cons_append, List.dropWhile_cons_of_neg (by decide)]
      simp
  rw [splitlines, hstrip, universalNewlines_singleLine_append hsingle]
  apply mem_splitOnP_of_append (x := []) (.inl rfl) hbreaks
  rcases htail with rfl | ⟨r, rfl⟩
  · exact .inl rfl
  · exact .inr ⟨'\n', universalNewlines r, universalNewlines_cons (by decide) r, by decide⟩

theorem not_passes_extractedLine (hspace : ∀ c, c.isAlphanum = true → B.space c = false) (n : Nat) :
    ¬ B.Passes (extractedLine n) := by
  have hmark : '#' ∉ extractedLine n := by
    intro hmem
    rcases mem_extractedLine hmem with hc | hc | hc
    · cases hc
    · cases hc
    · cases hc
  have htrim : B.trimmed (extractedLine n) = extractedLine n := by
    rw [Bash.trimmed, before_of_not_mem hmark, trimBy, extractedLine_eq, List.cons_append,
      List.dropWhile_cons_of_neg (by simp [hspace 'e' (by decide)]), ← List.cons_append,
      List.rdropWhile_concat_neg _ _ _ (by simp [hspace 's' (by decide)])]
  rintro (hempty | hdomain)
  · rw [htrim, extractedLine_eq] at hempty
    cases hempty
  · have heq : '=' ∈ B.extraDomain (extractedLine n) := by
      rw [B.extraDomain_eq, htrim, mem_cutWww_iff (by decide), mem_cutLast_iff (by decide)]
      exact List.mem_append_left _ (by decide)
    rcases isDomain_chars hdomain heq with hc | hc | hc | hc
    · cases hc
    · cases hc
    · cases hc
    · cases hc

/-- **`not_loadable_importSet`** — an import that writes the file, and whose message comes first, leaves
a line that is not loaded. -/
theorem not_loadable_importSet (hspace : ∀ c, c.isAlphanum = true → B.space c = false)
    {url : Text} {data : Option (List UInt8)} {file text : Text}
    (hedit : L.edit (.importSet url data 0) file = some text) : ¬ B.Loadable text := by
  obtain ⟨out, hout, himport⟩ := Option.bind_eq_some_iff.mp hedit
  obtain ⟨data, -, hextract⟩ := Option.bind_eq_some_iff.mp hout
  obtain ⟨n, rest, rfl⟩ := extractOutput_first hextract
  unfold Editor.opGfwlImportSet at himport
  dsimp only at himport
  split at himport
  · nomatch himport
  · intro hload
    have hnewline : '\n' ∉ extractedLine n := by
      intro hmem
      rcases mem_extractedLine hmem with hc | hc | hc
      · nomatch hc
      · nomatch hc
      · nomatch hc
    have hnew : extractedLine n ∈ ((splitlines (strip (extractedLine n ++ '\n' :: rest))).map
        strip).filter (· ≠ []) := by
      have hstrip : strip (extractedLine n) = extractedLine n := by
        rw [extractedLine_eq, strip_append_cons (by decide), List.dropWhile_cons_of_neg (by decide)]
        rfl
      refine List.mem_filter.mpr ⟨List.mem_map.mpr ⟨_, mem_splitlines_first n rest, hstrip⟩, ?_⟩
      rw [extractedLine_eq]
      simp
    -- it was listed before, or it is added now
    have hmem : extractedLine n ∈ L.listed (readExtras file) ++ (((splitlines (strip
        (extractedLine n ++ '\n' :: rest))).map strip).filter (· ≠ [])).filter
          (· ∉ readExtras file) := by
      by_cases hin : extractedLine n ∈ readExtras file
      · exact List.mem_append_left _ ((L.mem_listed _ _).mpr hin)
      · exact List.mem_append_right _ (List.mem_filter.mpr ⟨hnew, by simpa using hin⟩)
    have hline := mem_joined_splitOn hmem hnewline
    apply not_passes_extractedLine hspace n
    have hnul : (extractedLine n).filter (· != Char.ofNat 0) = extractedLine n := by
      rw [List.filter_eq_self]
      intro c hc
      rw [bne_iff_ne]
      rintro rfl
      rcases mem_extractedLine hc with hc | hc | hc
      · nomatch hc
      · nomatch hc
      · nomatch hc
    rw [← Option.some.inj himport] at hload
    have hread := hload _ (mem_readLines_iff.mpr ⟨_, hline, rfl⟩)
    rwa [hnul] at hread

end Imports

/-! ## Runs -/

section Runs

variable {B : Bash} {L : Editor} {file : Text}

/-- A file that is written line by line. -/
theorem loadable_joinLines {names : List Text}
    (h : ∀ d ∈ names, ∀ line ∈ d.splitOn '\n', B.Passes (line.filter (· != Char.ofNat 0))) :
    B.Loadable (joinLines names) := by
  intro line hline
  obtain ⟨raw, hraw, rfl⟩ := mem_readLines_iff.mp hline
  rcases mem_splitOn_joined hraw with rfl | ⟨d, hd, hin⟩
  · exact .inl rfl
  · exact h d hd raw hin

/-- Entries that are written back. -/
theorem passes_of_mem_readExtras (hfile : B.Loadable file) (hplain : PlainComments file) {d : Text}
    (hd : d ∈ readExtras file) :
    ∀ line ∈ d.splitOn '\n', B.Passes (line.filter (· != Char.ofNat 0)) := by
  have hentry := entry_of_mem_readExtras hd
  intro line hline
  rw [List.splitOn_eq_singleton hentry.newline, List.mem_singleton] at hline
  subst hline
  exact hentry.passes hfile hplain

/-- One step. -/
theorem loadable_edit (hspace : ∀ c, c.isAlphanum = true → B.space c = false)
    (hfile : B.Loadable file) {op : ExtraOp} {text : Text} (hplain : PlainComments file)
    (hsound : L.Sound op) (hedit : L.edit op file = some text) : B.Loadable text := by
  cases op with
  | add input =>
    simp only [Editor.edit, Editor.opGfwlistAdd] at hedit
    split at hedit
    · nomatch hedit
    · next hmatch =>
      split at hedit
      · nomatch hedit
      · rw [← Option.some.inj hedit]
        apply loadable_joinLines
        intro d hd
        rcases List.mem_append.mp hd with hd | hd
        · exact passes_of_mem_readExtras hfile hplain hd
        · rw [List.mem_singleton.mp hd]
          intro line hline
          exact passes_of_mem_added hspace (by simpa using hmatch) hsound hline
  | del input =>
    simp only [Editor.edit, Editor.opGfwlistDel] at hedit
    split at hedit
    · rw [← Option.some.inj hedit]
      apply loadable_joinLines
      intro d hd
      exact passes_of_mem_readExtras hfile hplain (List.mem_of_mem_filter hd)
    · nomatch hedit
  | importSet url data cut => nomatch hsound

/-- **`loadable_of_reaches`** — in every run whose writes are no imports, add no sloppy names and find
plain comments, the file stays loadable. -/
theorem loadable_of_reaches (hspace : ∀ c, c.isAlphanum = true → B.space c = false) {file₀ : Text}
    (hfile : B.Loadable file₀) (h : Reaches L.extraStep L.Careful file₀ file) : B.Loadable file := by
  apply h.invariant hfile
  intro file call text hinv hcareful hstep
  rw [← Option.some.inj hstep]
  split
  · cases hedit : L.edit call.op file with
    | none => exact hinv
    | some text =>
      obtain ⟨hplain, hsound⟩ := hcareful (by rw [hedit]; rfl)
      exact loadable_edit hspace hinv hplain hsound hedit
  · exact hinv

end Runs

/-! ## A run, and a bad one -/

/-- ASCII text, and URLs without port and credentials. -/
def asciiEditor : Editor where
  toImporter := plainImporter
  hostname url := some ((before '/' ((url.dropWhile (· != '/')).drop 2)).map Char.toLower)
  decode := List.map fun b => Char.ofNat b.toNat
  listed := sortUnique
  mem_listed := fun _ _ => mem_sortUnique

theorem alphanum_space_bash52 {c : Char} (h : c.isAlphanum = true) : bash52.space c = false := by
  have hrange := toNat_of_isAlphanum h
  have hblank : c ≠ ' ' := by
    rintro rfl
    nomatch h
  simp only [bash52, Bool.or_eq_false_iff, beq_eq_false_iff_ne, Bool.and_eq_false_iff,
    decide_eq_false_iff_not]
  exact ⟨hblank, by omega⟩

/-- A name is added from a URL, and removed again. -/
theorem loadable_of_reaches_own :
    bash52.Loadable (lit "example.com # own\n") ∧
      bash52.Loadable (lit "example.com # own\nexample.org\n") := by
  have hplain : PlainComments (lit "example.com # own\n") := by
    intro line hline
    have hall : ∀ line ∈ (lit "example.com # own\n").splitOn '\n',
        ((after '#' line).rdropWhile isSpace).all (fun c => !isLineBreak c) = true := by decide
    simpa using hall line hline
  have hfile : bash52.Loadable (lit "example.com # own\n") := by
    unfold Bash.Loadable
    decide
  have hadd : asciiEditor.extraStep (lit "example.com # own\n")
      ⟨.add (lit " https://www.Example.org/x "), true⟩ =
        some (lit "example.com # own\nexample.org\n") := by decide +kernel
  refine ⟨hfile, loadable_of_reaches (fun c hc => alphanum_space_bash52 hc) hfile
    (Reaches.step .init ?_ hadd)⟩
  intro _
  exact ⟨hplain, show sloppy _ = false from by decide +kernel⟩

/-- A rule set with one name. -/
def oneName : List UInt8 := (lit "DOMAIN-SUFFIX,example.com\n").map fun c => UInt8.ofNat c.toNat

/-- The name gets into the empty file, and so does the message that counts it. -/
theorem import_leaves_message :
    ¬ ∀ (B : Bash) (L : Editor) (file₀ file : Text) (calls : List ExtraCall),
      (∀ c, c.isAlphanum = true → B.space c = false) → B.Loadable file₀ →
      run L.extraStep file₀ calls = some file → B.Loadable file := by
  intro hclaim
  have hrun : run asciiEditor.extraStep []
      [⟨.importSet (lit "https://example.com/list") (some oneName) 0, true⟩] =
        some (lit "extracted=1 domains\nexample.com\n") := by decide
  have hload := hclaim bash52 asciiEditor _ _ _ (fun c hc => alphanum_space_bash52 hc)
    (by unfold Bash.Loadable; decide) hrun
  revert hload
  unfold Bash.Loadable
  decide

end ProxyGateway.Dns
