/-
# ProxyGateway.Dns.GfwList — from the downloaded lists to the Lua that dnsdist runs

`update-rules.sh` turns each name of the GFWList, of the local extras and of the default rules into
the line `gfwList:add(newDNSName("name"))`, and each name of the ChinaList into a like line of a
chunk.  dnsdist runs these files.  The extras and the default rules have to match the pattern of a
domain name; a line of the GFWList only has to contain a dot and none of a few characters, and a name
of the ChinaList is whatever stands between `server=/` and the next slash.

So a quote or a backslash in a list closes or escapes the literal.  `noInjection_iff` says that these
are the only lists to fear: every line written is one call with one string literal exactly if no name
taken from a list contains either.
-/
import ProxyGateway.Lang.Text

namespace ProxyGateway.Dns

open ProxyGateway.Lang

/-! ## Lines -/

/-- The lines that `while IFS= read -r line || [[ -n "$line" ]]` reads; `read` drops NUL.  The empty
piece after a final newline is kept: every reader here skips empty lines. -/
def readLines (file : Text) : List Text := (file.filter (· != Char.ofNat 0)).splitOn '\n'

/-- `echo "list:add(newDNSName(\"${domain}\"))"` -/
def addLine (list domain : Text) : Text :=
  list ++ lit ":add(newDNSName(\"" ++ domain ++ lit "\"))"

def gfwLine (domain : Text) : Text := addLine (lit "gfwList") domain

def chinaLine (domain : Text) : Text := addLine (lit "chinaList") domain

/-! ## The GFWList -/

/-- What bash makes of its locale and of the two patterns with backslashes in their brackets.  Within
brackets the backslash is an ordinary character to the matcher; whether bash hands it on differs. -/
structure Bash where
  /-- `[[:space:]]` -/
  space : Char → Bool
  /-- `^[[:space:]]*[![\]].*` -/
  skips : Text → Bool
  /-- `^[a-zA-Z0-9]([a-zA-Z0-9\-\.]+)` -/
  plain : Text → Bool
  /-- `[\*\/\?\&\=]` -/
  blocked : Char → Bool

section Parser

variable (B : Bash)

/-- `${domain%/}` and the like. -/
def cutLast (c : Char) (t : Text) : Text := if t.getLast? = some c then t.dropLast else t

/-- `${domain#www.}` -/
def cutWww (t : Text) : Text := if (lit "www.").isPrefixOf t then t.drop 4 else t

/-- `^\|https?://([^/]+)` -/
def hostOfUrl (line : Text) : Text :=
  if (lit "|http://").isPrefixOf line then before '/' (line.drop 8)
  else if (lit "|https://").isPrefixOf line then before '/' (line.drop 9)
  else []

/-- What the first pattern that matches captures; the second one takes the whole rest of the line,
as `.+` takes the `^` as well. -/
def Bash.capture (line : Text) : Text :=
  if (lit "||").isPrefixOf line ∧ line.drop 2 ≠ [] then line.drop 2
  else if hostOfUrl line ≠ [] then hostOfUrl line
  else if (lit "*.").isPrefixOf line ∧ line.drop 2 ≠ [] then line.drop 2
  else if B.plain line then line
  else []

/-- The name in a line. -/
def Bash.gfwDomain (line : Text) : Text := cutWww (cutLast '/' (B.capture line))

/-- A line whose name is added. -/
def Bash.takes (line : Text) : Bool :=
  !B.skips line && !line.isEmpty && !(B.gfwDomain line).isEmpty &&
    (B.gfwDomain line).any (· == '.') && !(B.gfwDomain line).any B.blocked

/-- `max` -/
def maxDomains : Nat := 20000

/-- The names that the loop adds, in order. -/
def Bash.parse (decoded : Text) : List Text :=
  (((readLines decoded).filter B.takes).take maxDomains).map B.gfwDomain

end Parser

/-! ## The extras and the default rules -/

/-- `[A-Za-z0-9]([A-Za-z0-9_-]*[A-Za-z0-9])?` -/
def isLabel (t : Text) : Bool :=
  t.all (fun c => c.isAlphanum || c == '_' || c == '-') &&
    t.head?.any Char.isAlphanum && t.getLast?.any Char.isAlphanum

/-- Two or more labels. -/
def isDomain (t : Text) : Bool := 2 ≤ (t.splitOn '.').length && (t.splitOn '.').all isLabel

/-- A line of `gfwlist-extra-local.txt` as a name. -/
def Bash.extraDomain (B : Bash) (line : Text) : Text :=
  cutWww (cutLast '.' (((before '#' line).dropWhile B.space).rdropWhile B.space))

/-- The valid names of the extras. -/
def Bash.extras (B : Bash) (file : Text) : List Text :=
  ((readLines file).map B.extraDomain).filter isDomain

/-- The name that a line of `gfwlist.lua` adds: the `sed` script behind the index. -/
def addedName (line : Text) : Option Text :=
  let opening := lit "gfwList:add(newDNSName(\""
  let closing := lit "\"))"
  if opening.isPrefixOf line ∧ closing.isSuffixOf (line.drop opening.length) then
    some ((line.drop opening.length).rdrop closing.length)
  else none

/-- The names that `gfwlist.lua` adds. -/
def namesOf (lua : List Text) : List Text := lua.filterMap addedName

/-- Adds the names that are not in the file yet, one after the other. -/
def appendNames (lua names : List Text) : List Text :=
  names.foldl (fun lua name => if name ∈ namesOf lua then lua else lua ++ [gfwLine name]) lua

/-- What `append_default_rule_domains` derives: its Python part prints only names that match. -/
structure DerivedNames where
  names : List Text
  valid : ∀ name ∈ names, isDomain name = true

/-- The lines of `gfwlist.lua` after an update: `decoded` is the decoded download, if it succeeded,
`extra` the file of extras, if there is one. -/
def Bash.updateLua (B : Bash) (decoded extra : Option Text) (derived : DerivedNames)
    (lua : List Text) : List Text :=
  let parsed := match decoded with
    | some text => (B.parse text).map gfwLine
    | none => lua
  appendNames (appendNames parsed ((extra.map B.extras).getD [])) derived.names

/-! ## The ChinaList -/

/-- `grep -oP 'server=/\K[^/]+'` on a line: what follows each `server=/` up to the next slash. -/
def serverNames : Nat → Text → List Text
  | 0, _ => []
  | _, [] => []
  | fuel + 1, c :: t =>
    if (lit "server=/").isPrefixOf (c :: t) ∧ before '/' ((c :: t).drop 8) ≠ [] then
      before '/' ((c :: t).drop 8) :: serverNames fuel (((c :: t).drop 8).dropWhile (· != '/'))
    else serverNames fuel t

/-- The names of the ChinaList. -/
def chinaNames (file : Text) : List Text :=
  (file.splitOn '\n').flatMap fun line => serverNames line.length line

/-- `CHINALIST_CHUNK_SIZE` -/
def chunkSize : Nat := 20000

/-- The chunks written so far, each without its first line `local chinaList = ...`, and the number of
entries in the open one. -/
structure Chunks where
  bodies : List (List Text)
  entries : Nat

/-- The body of the loop in `write_chinalist_chunks`. -/
def Chunks.add (chunks : Chunks) (domain : Text) : Chunks :=
  let bodies := if chunks.entries = 0 then chunks.bodies ++ [[]] else chunks.bodies
  { bodies := bodies.dropLast ++ [bodies.getLast?.getD [] ++ [chinaLine domain]]
    entries := if chunkSize ≤ chunks.entries + 1 then 0 else chunks.entries + 1 }

/-- The bodies of the chunks of a ChinaList. -/
def chunkBodies (file : Text) : List (List Text) :=
  ((chinaNames file).foldl Chunks.add ⟨[], 0⟩).bodies

/-! ## String literals -/

/-- The body of a string literal that stands for itself. -/
structure StringBody (d : Text) : Prop where
  quote : '"' ∉ d
  backslash : '\\' ∉ d
  newline : '\n' ∉ d

/-- **`IsCall`** — the line is one call with one string literal. -/
def IsCall (list line : Text) : Prop := ∃ d, StringBody d ∧ line = addLine list d

/-- What a name may not contain. -/
def Breaks (t : Text) : Prop := '"' ∈ t ∨ '\\' ∈ t

theorem addLine_inj {list a b : Text} (h : addLine list a = addLine list b) : a = b := by
  simpa [addLine] using h

theorem isCall_addLine_iff {list d : Text} (hd : '\n' ∉ d) :
    IsCall list (addLine list d) ↔ ¬ Breaks d := by
  constructor
  · rintro ⟨e, he, hline⟩ hbreaks
    rw [← addLine_inj hline] at he
    exact hbreaks.elim he.quote he.backslash
  · intro hno
    exact ⟨d, ⟨fun h => hno (.inl h), fun h => hno (.inr h), hd⟩, rfl⟩

/-! ## What a name is made of -/

section Names

variable {B : Bash}

theorem mem_cutLast_iff {c d : Char} {t : Text} (hd : d ≠ c) : d ∈ cutLast c t ↔ d ∈ t := by
  unfold cutLast
  split
  · next hlast =>
    obtain hsplit := List.dropLast_append_getLast? c hlast
    constructor
    · exact fun hmem => (List.dropLast_sublist t).subset hmem
    · intro hmem
      rw [← hsplit, List.mem_append, List.mem_singleton] at hmem
      exact hmem.resolve_right hd
  · rfl

theorem mem_cutWww_iff {d : Char} {t : Text} (hd : d ∉ lit "www.") : d ∈ cutWww t ↔ d ∈ t := by
  unfold cutWww
  split
  · next hpre =>
    obtain ⟨u, rfl⟩ := List.isPrefixOf_iff_prefix.mp hpre
    have hdrop : (lit "www." ++ u).drop 4 = u := List.drop_left' (by decide)
    rw [hdrop, List.mem_append, or_iff_right hd]
  · rfl

theorem mem_gfwDomain_iff {d : Char} {line : Text} (hslash : d ≠ '/') (hwww : d ∉ lit "www.") :
    d ∈ B.gfwDomain line ↔ d ∈ B.capture line := by
  rw [Bash.gfwDomain, mem_cutWww_iff hwww, mem_cutLast_iff hslash]

theorem breaks_gfwDomain_iff (line : Text) : Breaks (B.gfwDomain line) ↔ Breaks (B.capture line) := by
  have hquote : '"' ∈ B.gfwDomain line ↔ '"' ∈ B.capture line :=
    mem_gfwDomain_iff (by decide) (by decide)
  have hbackslash : '\\' ∈ B.gfwDomain line ↔ '\\' ∈ B.capture line :=
    mem_gfwDomain_iff (by decide) (by decide)
  rw [Breaks, hquote, hbackslash, Breaks]

theorem mem_of_mem_before {c d : Char} {t : Text} (h : d ∈ before c t) : d ∈ t :=
  (List.takeWhile_sublist _).subset h

theorem mem_of_mem_hostOfUrl {d : Char} {line : Text} (h : d ∈ hostOfUrl line) : d ∈ line := by
  unfold hostOfUrl at h
  split at h
  · exact List.mem_of_mem_drop (mem_of_mem_before h)
  · split at h
    · exact List.mem_of_mem_drop (mem_of_mem_before h)
    · nomatch h

theorem mem_of_mem_capture {d : Char} {line : Text} (h : d ∈ B.capture line) : d ∈ line := by
  unfold Bash.capture at h
  split at h
  · exact List.mem_of_mem_drop h
  · split at h
    · exact mem_of_mem_hostOfUrl h
    · split at h
      · exact List.mem_of_mem_drop h
      · split at h
        · exact h
        · nomatch h

/-- A name has no newline, as its line has none. -/
theorem newline_gfwDomain {decoded line : Text} (h : line ∈ readLines decoded) :
    '\n' ∉ B.gfwDomain line := by
  intro hmem
  rw [mem_gfwDomain_iff (by decide) (by decide)] at hmem
  exact not_mem_of_mem_splitOn h (mem_of_mem_capture hmem)

/-- The pattern of a domain name lets nothing through that a string literal minds. -/
theorem stringBody_of_isDomain {t : Text} (h : isDomain t = true) : StringBody t := by
  have hchars : ∀ c ∈ t, c = '.' ∨ (c.isAlphanum || c == '_' || c == '-') = true := by
    intro c hc
    by_cases hdot : c = '.'
    · exact .inl hdot
    · obtain ⟨piece, hpiece, hin⟩ := exists_piece_of_mem hc hdot
      simp only [isDomain, Bool.and_eq_true, List.all_eq_true] at h
      have hlabel := h.2 piece hpiece
      simp only [isLabel, Bool.and_eq_true, List.all_eq_true] at hlabel
      exact .inr (hlabel.1.1 c hin)
  have hnot : ∀ c, c ≠ '.' → (c.isAlphanum || c == '_' || c == '-') = false → c ∉ t := by
    intro c hdot hno hc
    rcases hchars c hc with heq | hok
    · exact hdot heq
    · rw [hno] at hok
      nomatch hok
  exact ⟨hnot _ (by decide) (by decide), hnot _ (by decide) (by decide),
    hnot _ (by decide) (by decide)⟩

end Names

/-! ## What the file holds -/

theorem mem_appendNames_of_mem {lua names : List Text} {line : Text} (h : line ∈ lua) :
    line ∈ appendNames lua names := by
  unfold appendNames
  induction names generalizing lua with
  | nil => exact h
  | cons name names ih =>
    rw [List.foldl_cons]
    apply ih
    split
    · exact h
    · exact List.mem_append_left _ h

theorem mem_appendNames {lua names : List Text} {line : Text} (h : line ∈ appendNames lua names) :
    line ∈ lua ∨ ∃ name ∈ names, line = gfwLine name := by
  unfold appendNames at h
  induction names generalizing lua with
  | nil => exact .inl h
  | cons name names ih =>
    rw [List.foldl_cons] at h
    rcases ih h with h | ⟨other, hother, rfl⟩
    · split at h
      · exact .inl h
      · rcases List.mem_append.mp h with h | h
        · exact .inl h
        · exact .inr ⟨name, List.mem_cons_self .., List.mem_singleton.mp h⟩
    · exact .inr ⟨other, List.mem_cons_of_mem _ hother, rfl⟩

/-- The names appended to the file are domain names. -/
theorem isDomain_extras {B : Bash} {extra : Option Text} {name : Text}
    (h : name ∈ (extra.map B.extras).getD []) : isDomain name = true := by
  cases extra with
  | none => nomatch h
  | some file => exact (List.mem_filter.mp h).2

/-- A chunk is open where its entries are counted. -/
def Chunks.Open (chunks : Chunks) : Prop := chunks.entries ≠ 0 → chunks.bodies ≠ []

theorem add_spec {chunks : Chunks} (h : chunks.Open) (domain : Text) :
    (chunks.add domain).Open ∧
      (chunks.add domain).bodies.flatten = chunks.bodies.flatten ++ [chinaLine domain] := by
  refine ⟨fun _ => List.append_ne_nil_of_right_ne_nil _ (List.cons_ne_nil _ _), ?_⟩
  -- the name goes to the last body, so there has to be one
  have hne : (if chunks.entries = 0 then chunks.bodies ++ [[]] else chunks.bodies) ≠ [] := by
    split
    · exact List.append_ne_nil_of_right_ne_nil _ (List.cons_ne_nil _ _)
    · next hopen => exact h hopen
  have hflat : (if chunks.entries = 0 then chunks.bodies ++ [[]] else chunks.bodies).flatten =
      chunks.bodies.flatten := by split <;> simp
  simp only [Chunks.add]
  rw [← hflat]
  generalize (if chunks.entries = 0 then chunks.bodies ++ [[]] else chunks.bodies) = bodies at hne
  rw [List.getLast?_eq_some_getLast hne, Option.getD_some]
  conv_rhs => rw [← List.dropLast_append_getLast hne]
  simp

/-- Every name is in a chunk, and nothing else is. -/
theorem flatten_chunkBodies (file : Text) :
    (chunkBodies file).flatten = (chinaNames file).map chinaLine := by
  have hfold : ∀ (names : List Text) (chunks : Chunks), chunks.Open →
      (names.foldl Chunks.add chunks).bodies.flatten =
        chunks.bodies.flatten ++ names.map chinaLine := by
    intro names
    induction names with
    | nil => simp
    | cons name names ih =>
      intro chunks hopen
      obtain ⟨hopen', hflat⟩ := add_spec hopen name
      rw [List.foldl_cons, ih _ hopen', hflat, List.map_cons, List.append_assoc,
        List.singleton_append]
  exact hfold _ ⟨[], 0⟩ fun hzero => absurd rfl hzero

theorem mem_of_mem_serverNames {d : Char} {fuel : Nat} {line name : Text}
    (h : name ∈ serverNames fuel line) (hd : d ∈ name) : d ∈ line := by
  induction fuel generalizing line with
  | zero => nomatch h
  | succ fuel ih =>
    cases line with
    | nil => nomatch h
    | cons c t =>
      rw [serverNames] at h
      split at h
      · rcases List.mem_cons.mp h with rfl | h
        · exact List.mem_of_mem_drop (mem_of_mem_before hd)
        · exact List.mem_of_mem_drop ((List.dropWhile_sublist _).subset (ih h))
      · exact List.mem_cons_of_mem _ (ih h)

theorem newline_chinaNames {file name : Text} (h : name ∈ chinaNames file) : '\n' ∉ name := by
  obtain ⟨line, hline, hname⟩ := List.mem_flatMap.mp h
  exact fun hmem => not_mem_of_mem_splitOn hline (mem_of_mem_serverNames hname hmem)

/-- The names of the extras and of the default rules are domain names, so `gfwlist.lua` depends on the
lines of the download. -/
theorem gfwCalls_iff (B : Bash) (decoded : Text) (extra : Option Text) (derived : DerivedNames)
    (lua : List Text) :
    (∀ line ∈ B.updateLua (some decoded) extra derived lua, IsCall (lit "gfwList") line) ↔
      ∀ line ∈ ((readLines decoded).filter B.takes).take maxDomains, ¬ Breaks (B.capture line) := by
  have hline : ∀ line ∈ ((readLines decoded).filter B.takes).take maxDomains,
      (IsCall (lit "gfwList") (gfwLine (B.gfwDomain line)) ↔ ¬ Breaks (B.capture line)) := by
    intro line hmem
    have hread : line ∈ readLines decoded := (List.mem_filter.mp (List.mem_of_mem_take hmem)).1
    rw [gfwLine, isCall_addLine_iff (newline_gfwDomain hread), breaks_gfwDomain_iff]
  have hvalid : ∀ name, isDomain name = true → IsCall (lit "gfwList") (gfwLine name) :=
    fun name hname => ⟨name, stringBody_of_isDomain hname, rfl⟩
  constructor
  · intro hall line hmem
    refine (hline line hmem).mp (hall _ (mem_appendNames_of_mem (mem_appendNames_of_mem ?_)))
    exact List.mem_map_of_mem (List.mem_map_of_mem hmem)
  · intro hsafe line hmem
    -- from the default rules, from the extras, or from the download
    rcases mem_appendNames hmem with hmem | ⟨name, hname, rfl⟩
    · rcases mem_appendNames hmem with hmem | ⟨name, hname, rfl⟩
      · obtain ⟨name, hname, rfl⟩ := List.mem_map.mp hmem
        obtain ⟨raw, hraw, rfl⟩ := List.mem_map.mp hname
        exact (hline raw hraw).mpr (hsafe raw hraw)
      · exact hvalid name (isDomain_extras hname)
    · exact hvalid name (derived.valid name hname)

theorem chinaCalls_iff (china : Text) :
    (∀ body ∈ chunkBodies china, ∀ line ∈ body, IsCall (lit "chinaList") line) ↔
      ∀ name ∈ chinaNames china, ¬ Breaks name := by
  rw [← List.forall_mem_flatten, flatten_chunkBodies, List.forall_mem_map]
  refine forall₂_congr fun name hname => ?_
  rw [chinaLine, isCall_addLine_iff (newline_chinaNames hname)]

/-- **`noInjection_iff`** — every line written into `gfwlist.lua` and into the bodies of the chunks is
one call with one string literal, exactly if neither a line that the GFWList parser takes has a quote
or a backslash in the part it captures, nor has a name of the ChinaList. -/
theorem noInjection_iff (B : Bash) (decoded china : Text) (extra : Option Text)
    (derived : DerivedNames) (lua : List Text) :
    ((∀ line ∈ B.updateLua (some decoded) extra derived lua, IsCall (lit "gfwList") line) ∧
        ∀ body ∈ chunkBodies china, ∀ line ∈ body, IsCall (lit "chinaList") line) ↔
      (∀ line ∈ ((readLines decoded).filter B.takes).take maxDomains, ¬ Breaks (B.capture line)) ∧
        ∀ name ∈ chinaNames china, ¬ Breaks name := by
  rw [gfwCalls_iff, chinaCalls_iff]

/-- Bash 5.2 drops these backslashes: `[![]` and a bracket are left of the one pattern, the other one
has the range `9-.` and is refused, so that it never matches. -/
def bash52 : Bash where
  space c := c == ' ' || (9 ≤ c.toNat && c.toNat ≤ 13)
  skips line := match line.dropWhile (fun c => c == ' ' || (9 ≤ c.toNat && c.toNat ≤ 13)) with
    | c :: ']' :: _ => c == '!' || c == '['
    | _ => false
  plain _ := false
  blocked c := c ∈ lit "*/?&="

/-- A line of the GFWList closes the literal and the call, and goes on in Lua. -/
theorem gfwList_injects :
    ¬ ∀ (B : Bash) (decoded china : Text) (extra : Option Text) (derived : DerivedNames)
        (lua : List Text),
      (∀ line ∈ B.updateLua (some decoded) extra derived lua, IsCall (lit "gfwList") line) ∧
        ∀ body ∈ chunkBodies china, ∀ line ∈ body, IsCall (lit "chinaList") line := by
  intro hclaim
  have hcall := (hclaim bash52 (lit "||a.com\"))os.execute(\"id\")--\n") [] none ⟨[], nofun⟩ []).1
    (gfwLine (lit "a.com\"))os.execute(\"id\")--")) (by decide)
  exact (isCall_addLine_iff (by decide)).mp hcall (.inl (by decide))

end ProxyGateway.Dns
