/-
# ProxyGateway.Dns.LocalExtras — `append_local_gfwlist_extras`

The operator's own names go to the end of `gfwlist.lua`.  What the file adds already is read once, by a
`sed` script, into an index of its own; from then on the loop looks names up in the index and writes to
both.  So the index has to stay what `sed` would read (`Indexed.add`), and then the loop is `appendNames`,
which reads the file anew for every name (`run_lua`).

`extras_merged` says what that comes to: behind the old lines, one for each new name, in the order in
which the names first occur, and nothing on a second run.
-/
import ProxyGateway.Dns.GfwHistory
import ProxyGateway.Smart.SeedCoverage

namespace ProxyGateway.Dns

open ProxyGateway.Lang
open ProxyGateway.Smart (sortUnique mem_sortUnique)

/-! ## The function -/

/-- What the loop changes. -/
structure ExtrasRun where
  /-- `gfwlist.lua`, line by line -/
  lua : List Text
  /-- `gfwlist.domains` -/
  index : List Text
  extraCount : Nat
  stderr : List Text

/-- What is said of a name that does not match. -/
def skipped (domain : Text) : Text :=
  lit "[!] Skipping invalid local GFWList extra domain: " ++ domain

section Loop

variable (B : Bash)

/-- The body of the loop. -/
def Bash.extraLine (s : ExtrasRun) (line : Text) : ExtrasRun :=
  let domain := B.extraDomain line
  if domain = [] then s
  else if isDomain domain = false then { s with stderr := s.stderr ++ [skipped domain] }
  else if domain ∈ s.index then s
  else
    { s with
      lua := s.lua ++ [gfwLine domain]
      index := s.index ++ [domain]
      extraCount := s.extraCount + 1 }

/-- The loop over the lines of the extras, behind the index. -/
def Bash.runExtras (file : Text) (lua : List Text) : ExtrasRun :=
  (readLines file).foldl B.extraLine ⟨lua, sortUnique (namesOf lua), 0, []⟩

/-- **`append_local_gfwlist_extras`** — the lines of `gfwlist.lua`, and what is printed; `extra` is the
file of extras, if there is one. -/
def Bash.appendLocalGfwlistExtras (extra : Option Text) (lua : Option (List Text)) :
    Option (List Text) × List Text :=
  match extra with
  | none => (lua, [])
  | some file =>
    let s := B.runExtras file (lua.getD [])
    (some s.lua, [lit "[*] Loading local GFWList extras...",
      lit "[+] Local GFWList extras: " ++ decimal s.extraCount ++ lit " domains"])

end Loop

/-! ## The index -/

/-- The index has the names that the file adds. -/
def Indexed (s : ExtrasRun) : Prop := ∀ name, name ∈ s.index ↔ name ∈ namesOf s.lua

theorem namesOf_concat (lua : List Text) (name : Text) :
    namesOf (lua ++ [gfwLine name]) = namesOf lua ++ [name] := by
  simp [namesOf, List.filterMap_append]

/-- A name goes into both. -/
theorem Indexed.add {B : Bash} {s : ExtrasRun} (h : Indexed s) (line : Text) :
    Indexed (B.extraLine s line) := by
  unfold Bash.extraLine
  simp only
  split
  · exact h
  · split
    · exact h
    · split
      · exact h
      · intro name
        show name ∈ s.index ++ [_] ↔ name ∈ namesOf (s.lua ++ [gfwLine _])
        rw [namesOf_concat, List.mem_append, List.mem_append, h name]

/-- A name that is valid is looked up in the index as it would be in the file. -/
theorem extraLine_lua {B : Bash} {s : ExtrasRun} (h : Indexed s) (line : Text) :
    (B.extraLine s line).lua = appendNames s.lua ([B.extraDomain line].filter isDomain) := by
  have hempty : isDomain [] = false := rfl
  unfold Bash.extraLine
  simp only
  split
  · next hnil =>
    rw [hnil, List.filter_cons_of_neg (by simp [hempty])]
    rfl
  · split
    · next hbad =>
      rw [List.filter_cons_of_neg (by simp [hbad])]
      rfl
    · next hgood =>
      rw [List.filter_cons_of_pos (by simpa using hgood)]
      show _ = if B.extraDomain line ∈ namesOf s.lua then s.lua else _
      split
      · next hin => rw [if_pos ((h _).mp hin)]
      · next hout => rw [if_neg (mt (h _).mpr hout)]

theorem appendNames_append (lua names names' : List Text) :
    appendNames lua (names ++ names') = appendNames (appendNames lua names) names' :=
  List.foldl_append

/-- **`run_lua`** — the loop adds the valid names as if it read the file for each. -/
theorem run_lua (B : Bash) (file : Text) (lua : List Text) :
    (B.runExtras file lua).lua = appendNames lua (B.extras file) := by
  have hall : ∀ (lines : List Text) (s : ExtrasRun), Indexed s →
      (lines.foldl B.extraLine s).lua =
        appendNames s.lua ((lines.map B.extraDomain).filter isDomain) := by
    intro lines
    induction lines with
    | nil => exact fun s _ => rfl
    | cons line lines ih =>
      intro s h
      have hsplit : ((line :: lines).map B.extraDomain).filter isDomain =
          [B.extraDomain line].filter isDomain ++ (lines.map B.extraDomain).filter isDomain := by
        rw [← List.filter_append]
        rfl
      rw [List.foldl_cons, ih _ (h.add line), extraLine_lua h, hsplit, appendNames_append]
  exact hall _ _ fun name => mem_sortUnique

/-! ## What is appended -/

/-- The names that the file does not add yet, each where it occurs first. -/
def freshNames (lua names : List Text) : List Text :=
  (names.filter fun name => name ∉ namesOf lua).eraseDups

/-- **`appendNames_eq`** — a line for each fresh name, behind the old ones. -/
theorem appendNames_eq (lua names : List Text) :
    appendNames lua names = lua ++ (freshNames lua names).map gfwLine := by
  induction names generalizing lua with
  | nil => exact (List.append_nil lua).symm
  | cons name names ih =>
    by_cases hknown : name ∈ namesOf lua
    · have hskip : freshNames lua (name :: names) = freshNames lua names := by
        rw [freshNames, List.filter_cons_of_neg (by simpa using hknown)]
        rfl
      have hstep : appendNames lua (name :: names) = appendNames lua names := by
        rw [appendNames, List.foldl_cons, if_pos hknown]
        rfl
      rw [hskip, hstep, ih]
    · have hfresh : freshNames lua (name :: names) =
          name :: freshNames (lua ++ [gfwLine name]) names := by
        have hrest : (names.filter fun other => other ∉ namesOf lua).filter (fun other => !other == name) =
            names.filter fun other => other ∉ namesOf (lua ++ [gfwLine name]) := by
          rw [List.filter_filter, namesOf_concat]
          refine List.filter_congr fun other _ => ?_
          by_cases hother : other = name <;> simp [hother]
        rw [freshNames, List.filter_cons_of_pos (by simpa using hknown), List.eraseDups_cons, hrest]
        rfl
      have hstep : appendNames lua (name :: names) = appendNames (lua ++ [gfwLine name]) names := by
        rw [appendNames, List.foldl_cons, if_neg hknown]
        rfl
      rw [hfresh, hstep, ih, List.append_assoc]
      rfl

/-- Once appended, the names are there. -/
theorem appendNames_again (lua names : List Text) :
    appendNames (appendNames lua names) names = appendNames lua names := by
  have hnone : freshNames (appendNames lua names) names = [] := by
    rw [freshNames, List.filter_eq_nil_iff.mpr fun name hname => ?_]
    · rfl
    · have hthere : name ∈ namesOf (appendNames lua names) :=
        mem_namesOf_appendNames.mpr (.inr hname)
      simpa using hthere
  rw [appendNames_eq (appendNames lua names), hnone]
  exact List.append_nil _

/-- **`extras_merged`** — the old lines stay, the valid names that they do not add follow, once each and
in order, and a second run changes nothing. -/
theorem extras_merged (B : Bash) (file : Text) (lua : List Text) :
    (B.appendLocalGfwlistExtras (some file) (some lua)).1 =
        some (lua ++ (freshNames lua (B.extras file)).map gfwLine) ∧
      (B.appendLocalGfwlistExtras (some file) (B.appendLocalGfwlistExtras (some file) (some lua)).1).1 =
        (B.appendLocalGfwlistExtras (some file) (some lua)).1 := by
  have hrun : ∀ lua, (B.appendLocalGfwlistExtras (some file) (some lua)).1 =
      some (appendNames lua (B.extras file)) := fun lua => congrArg some (run_lua B file lua)
  refine ⟨(hrun lua).trans (congrArg some (appendNames_eq lua _)), ?_⟩
  rw [hrun, hrun, appendNames_again]

end ProxyGateway.Dns
