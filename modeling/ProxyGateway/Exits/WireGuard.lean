/-
# ProxyGateway.Exits.WireGuard — `Table = off` in an imported WireGuard configuration

`wg-quick` puts the default route into the tunnel unless the configuration says `Table = off`, so
`add_exit` writes that line into every configuration it imports: it replaces a `Table` line that is
there, else it adds one under `[Interface]`.

The test for a `Table` line ignores case, the replacement knows `Table` and `table` only; the test for
`[Interface]` ignores case, the insertion does not; and neither asks in which section a `Table` line
stands.  `wg-quick` ignores case throughout.  `effectiveTable_rewrite_iff` says for which files the two
end up agreeing.
-/
import ProxyGateway.Lang.Text

namespace ProxyGateway.Exits.WireGuard

open ProxyGateway.Lang

/-! ## The tools -/

/-- The class `[[:space:]]` of a locale, which is fixed on ASCII. -/
structure Locale where
  space : Char → Bool
  ascii : ∀ c : Char, c.toNat < 128 →
    (space c = true ↔ c = ' ' ∨ c = '\t' ∨ c = '\n' ∨ c = '\u000b' ∨ c = '\u000c' ∨ c = '\r')

variable (P : Locale)

/-- Letters without their case. -/
def fold (t : Text) : Text := t.map Char.toLower

/-- Without the spaces on both sides. -/
def Locale.trim (t : Text) : Text := (t.dropWhile P.space).rdropWhile P.space

/-- A line that matches `^[[:space:]]*Table[[:space:]]*=`, by the given spelling of `Table`. -/
def Locale.tableLine (spells : Text → Bool) (line : Text) : Bool :=
  let rest := line.dropWhile P.space
  spells (rest.take 5) && ((rest.drop 5).dropWhile P.space).head? == some '='

/-- `grep -qi '^[[:space:]]*Table[[:space:]]*='`, on one line. -/
def Locale.grepTable : Text → Bool := P.tableLine fun w => fold w == lit "table"

/-- The pattern of the replacement: `^[[:space:]]*[Tt]able[[:space:]]*=`. -/
def Locale.sedTable : Text → Bool := P.tableLine fun w => w == lit "Table" || w == lit "table"

/-- `grep -qi '^\[Interface\]'` and `grep -qi '^\[Peer\]'`, on one line. -/
def grepSection (header line : Text) : Bool := fold (line.take header.length) == fold header

/-! ## The import -/

def tableOff : Text := lit "Table = off"

/-- `sed -i 's/^[[:space:]]*[Tt]able[[:space:]]*=.*/Table = off/'`. -/
def Locale.replaceTable (lines : List Text) : List Text :=
  lines.map fun line => if P.sedTable line then tableOff else line

/-- `sed -i '0,/^\[Interface\]/s//[Interface]\nTable = off/'`: only the first match, which keeps what
follows it on its line behind the text that is put in. -/
def insertTable : List Text → List Text
  | [] => []
  | line :: rest =>
    if line.take 11 = lit "[Interface]" then
      lit "[Interface]" :: (tableOff ++ line.drop 11) :: rest
    else line :: insertTable rest

/-- The rewriting step. -/
def Locale.rewriteTable (lines : List Text) : List Text :=
  if lines.any P.grepTable then P.replaceTable lines else insertTable lines

/-- The WireGuard branch of `add_exit`, as far as the text goes: the lines that are installed, if the
two checks pass. -/
def Locale.addWireguard (lines : List Text) : Option (List Text) :=
  if lines.any (grepSection (lit "[Interface]")) && lines.any (grepSection (lit "[Peer]")) then
    some (P.rewriteTable lines)
  else none

/-! ## How `wg-quick` reads it -/

/-- A line without its comment. -/
def stripped (line : Text) : Text := before '#' line

/-- What stands before the first `=`. -/
def Locale.key (line : Text) : Text := fold (P.trim (before '=' (stripped line)))

/-- What stands behind it. -/
def Locale.value (line : Text) : Text := P.trim (after '=' (stripped line))

/-- The section after a line. -/
def Locale.inInterface (inside : Bool) (line : Text) : Bool :=
  if (P.key line).head? = some '[' then P.key line == lit "[interface]" else inside

/-- An assignment to `Table`. -/
def Locale.assigns (line : Text) : Bool := (stripped line).contains '=' && P.key line == lit "table"

/-- The assignments to `Table` inside Interface sections, in order. -/
def Locale.assignments (P : Locale) : Bool → List Text → List Text
  | _, [] => []
  | inside, line :: rest =>
    if P.inInterface inside line && P.assigns line then
      line :: P.assignments (P.inInterface inside line) rest
    else P.assignments (P.inInterface inside line) rest

/-- **`effectiveTable`** — the last assignment wins; the default is `auto`. -/
def Locale.effectiveTable (lines : List Text) : Text :=
  ((P.assignments false lines).getLast?.map P.value).getD (lit "auto")

/-! ## When it ends in `off` -/

/-- **`EndsOff`** — the condition on the file.  With a `Table` line: the one that `wg-quick` obeys is
spelled `Table` or `table`, or says `off` already.  Without: the first line that begins with
`[Interface]`, so spelled, has nothing behind it but a comment. -/
def Locale.EndsOff (lines : List Text) : Prop :=
  if lines.any P.grepTable then
    ∃ line, (P.assignments false lines).getLast? = some line ∧
      (P.sedTable line = true ∨ P.value line = lit "off")
  else
    ∃ line, lines.find? (fun l => l.take 11 == lit "[Interface]") = some line ∧
      (stripped (line.drop 11)).all P.space = true

section Lines

variable {P : Locale}

/-! ### Spaces and letters -/

theorem Locale.not_space {c : Char} (h : c.toNat < 128)
    (hc : ¬ (c = ' ' ∨ c = '\t' ∨ c = '\n' ∨ c = '\u000b' ∨ c = '\u000c' ∨ c = '\r')) :
    P.space c = false := by
  rw [← Bool.not_eq_true, P.ascii c h]
  exact hc

theorem Locale.space_blank : P.space ' ' = true := (P.ascii ' ' (by decide)).mpr (.inl rfl)

theorem Locale.space_equals : P.space '=' = false := P.not_space (by decide) (by decide)

theorem Locale.space_hash : P.space '#' = false := P.not_space (by decide) (by decide)

/-- A letter of `Table`, in either case, is neither a space nor one of the signs. -/
theorem mem_table {w : Text} (hw : fold w = lit "table") {c : Char} (hc : c ∈ w) :
    P.space c = false ∧ c ≠ '=' ∧ c ≠ '#' ∧ c ≠ '[' := by
  have hmem : c.toLower ∈ lit "table" := by
    rw [← hw]
    exact List.mem_map_of_mem hc
  rcases toLower_eq_self_or c with hsame | ⟨hlow, hhigh⟩
  · rw [hsame] at hmem
    have hletters : c = 't' ∨ c = 'a' ∨ c = 'b' ∨ c = 'l' ∨ c = 'e' := by simpa [lit] using hmem
    rcases hletters with rfl | rfl | rfl | rfl | rfl <;>
      exact ⟨P.not_space (by decide) (by decide), by decide, by decide, by decide⟩
  · have hne : ∀ d : Char, d.toNat < 65 ∨ 90 < d.toNat → c ≠ d := by
      rintro d hd rfl
      omega
    refine ⟨P.not_space (by omega) ?_, hne _ (by decide), hne _ (by decide), hne _ (by decide)⟩
    rintro (h | h | h | h | h | h) <;> exact hne _ (by decide) h

/-- What trimming takes away. -/
theorem Locale.trim_split (t : Text) :
    ∃ a b, t = a ++ (P.trim t ++ b) ∧ (∀ c ∈ a, P.space c = true) ∧ ∀ c ∈ b, P.space c = true := by
  refine ⟨t.takeWhile P.space, (t.dropWhile P.space).rtakeWhile P.space, ?_, ?_, ?_⟩
  · rw [Locale.trim, List.rdropWhile_append_rtakeWhile, List.takeWhile_append_dropWhile]
  · exact fun c hc => List.mem_takeWhile_imp hc
  · exact fun c hc => List.mem_rtakeWhile_imp hc

/-- Spaces at the end are dropped, up to a text that does not end in one. -/
theorem Locale.rdropWhile_spaces {w b : Text} (hw : w.rdropWhile P.space = w)
    (hb : ∀ c ∈ b, P.space c = true) : (w ++ b).rdropWhile P.space = w := by
  induction b using List.reverseRecOn with
  | nil => rwa [List.append_nil]
  | append_singleton b c ih =>
    rw [← List.append_assoc, List.rdropWhile_concat_pos _ _ _ (hb c (by simp))]
    exact ih fun d hd => hb d (by simp [hd])

theorem Locale.rdropWhile_word {w : Text} (hw : ∀ c ∈ w, P.space c = false) :
    w.rdropWhile P.space = w :=
  List.rdropWhile_eq_self_iff.mpr fun hne => by simp [hw _ (List.getLast_mem hne)]

/-- Trimming gets the word out of the spaces. -/
theorem Locale.trim_append {a w b : Text} (ha : ∀ c ∈ a, P.space c = true)
    (hb : ∀ c ∈ b, P.space c = true) (hw : ∀ c ∈ w, P.space c = false) :
    P.trim (a ++ (w ++ b)) = w := by
  have hleft : (a ++ (w ++ b)).dropWhile P.space = (w ++ b).dropWhile P.space :=
    List.dropWhile_append_of_pos ha
  rw [Locale.trim, hleft]
  cases w with
  | nil =>
    rw [List.nil_append, List.dropWhile_eq_nil_iff.mpr hb]
    rfl
  | cons c w =>
    rw [List.cons_append, List.dropWhile_cons_of_neg (by simp [hw c (.head _)]),
      ← List.cons_append]
    exact P.rdropWhile_spaces (P.rdropWhile_word hw) hb

/-! ### Lines that assign to `Table` -/

/-- **`TableAt`** — the shape of a line that assigns to a word, with what is assigned. -/
def Locale.TableAt (P : Locale) (line w rest : Text) : Prop :=
  ∃ a b, line = a ++ (w ++ (b ++ '=' :: rest)) ∧ (∀ c ∈ a, P.space c = true) ∧
    ∀ c ∈ b, P.space c = true

/-- The two patterns find the shape. -/
theorem Locale.tableLine_iff {spells : Text → Bool}
    (hspells : ∀ w, spells w = true → fold w = lit "table") {line : Text} :
    P.tableLine spells line = true ↔ ∃ w rest, spells w = true ∧ P.TableAt line w rest := by
  unfold Locale.tableLine
  simp only [Bool.and_eq_true, beq_iff_eq]
  constructor
  · rintro ⟨hw, hsign⟩
    obtain ⟨rest, hrest⟩ := List.head?_eq_some_iff.mp hsign
    refine ⟨_, rest, hw, line.takeWhile P.space,
      ((line.dropWhile P.space).drop 5).takeWhile P.space, ?_, ?_, ?_⟩
    · rw [← hrest, List.takeWhile_append_dropWhile, List.take_append_drop,
        List.takeWhile_append_dropWhile]
    · exact fun c hc => List.mem_takeWhile_imp hc
    · exact fun c hc => List.mem_takeWhile_imp hc
  · rintro ⟨w, rest, hw, a, b, rfl, ha, hb⟩
    have hfold := hspells w hw
    have hlen : w.length = 5 := by
      have hmap := congrArg List.length hfold
      rw [fold, List.length_map] at hmap
      exact hmap.trans (by decide)
    have hleft : (a ++ (w ++ (b ++ '=' :: rest))).dropWhile P.space =
        w ++ (b ++ '=' :: rest) := by
      rw [List.dropWhile_append_of_pos ha]
      obtain ⟨c, w', rfl⟩ := List.exists_cons_of_length_eq_add_one hlen
      exact List.dropWhile_cons_of_neg (by simp [(mem_table hfold (.head _)).1])
    rw [hleft, List.take_left' hlen, List.drop_left' hlen, List.dropWhile_append_of_pos hb,
      List.dropWhile_cons_of_neg (by simp [P.space_equals])]
    exact ⟨hw, rfl⟩

/-- What `wg-quick` makes of the shape. -/
theorem Locale.TableAt.read {line w rest : Text} (h : P.TableAt line w rest)
    (hw : fold w = lit "table") :
    P.assigns line = true ∧ P.key line = lit "table" ∧ P.value line = P.trim (before '#' rest) := by
  obtain ⟨a, b, rfl, ha, hb⟩ := h
  have hletters := fun c (hc : c ∈ w) => mem_table (P := P) hw hc
  have hsign : ∀ {t : Text} {c : Char}, (∀ d ∈ t, P.space d = true) → P.space c = false → c ∉ t :=
    fun ht hc hmem => Bool.noConfusion ((ht _ hmem).symm.trans hc)
  have hstripped : stripped (a ++ (w ++ (b ++ '=' :: rest))) =
      a ++ (w ++ b) ++ '=' :: before '#' rest := by
    rw [stripped, before_append_of_not_mem (hsign ha P.space_hash),
      before_append_of_not_mem (fun hmem => (hletters _ hmem).2.2.1 rfl),
      before_append_of_not_mem (hsign hb P.space_hash)]
    simp [before]
  have hnot : '=' ∉ a ++ (w ++ b) := by
    simp only [List.mem_append, not_or]
    exact ⟨hsign ha P.space_equals, fun hmem => (hletters _ hmem).2.1 rfl, hsign hb P.space_equals⟩
  have hkey : P.key (a ++ (w ++ (b ++ '=' :: rest))) = lit "table" := by
    rw [Locale.key, hstripped, before_append_of_not_mem hnot]
    have hnil : before '=' ('=' :: before '#' rest) = [] := by simp [before]
    rw [hnil, List.append_nil, P.trim_append ha hb fun c hc => (hletters c hc).1, hw]
  refine ⟨?_, hkey, ?_⟩
  · rw [Locale.assigns, hkey, hstripped]
    simp
  · rw [Locale.value, hstripped, after, List.dropWhile_append_of_pos
      (fun c hc => by simpa using fun heq : c = '=' => hnot (heq ▸ hc))]
    simp

/-- A line that `wg-quick` takes for an assignment has the shape. -/
theorem Locale.tableAt_of_assigns {line : Text} (h : P.assigns line = true) :
    ∃ w rest, fold w = lit "table" ∧ P.TableAt line w rest := by
  simp only [Locale.assigns, Bool.and_eq_true, beq_iff_eq, Locale.key] at h
  obtain ⟨hmem, hkey⟩ := h
  obtain ⟨a, b, hsplit, ha, hb⟩ := P.trim_split (before '=' (stripped line))
  rcases eq_before_or '=' (stripped line) with heq | ⟨u, hu⟩
  · rw [heq] at hmem
    exact absurd (by simpa using hmem) not_mem_before
  · have hline : ∃ tail, line = stripped line ++ tail := by
      rcases eq_before_or '#' line with h | ⟨v, h⟩
      · exact ⟨[], by rw [List.append_nil]; exact h⟩
      · exact ⟨_, h⟩
    obtain ⟨tail, htail⟩ := hline
    refine ⟨P.trim (before '=' (stripped line)), u ++ tail, hkey, a, b, ?_, ha, hb⟩
    calc line = before '=' (stripped line) ++ '=' :: u ++ tail := by rw [← hu]; exact htail
      _ = a ++ (P.trim (before '=' (stripped line)) ++ b) ++ '=' :: u ++ tail := by rw [← hsplit]
      _ = _ := by simp

theorem Locale.grepTable_iff {line : Text} :
    P.grepTable line = true ↔ ∃ w rest, fold w = lit "table" ∧ P.TableAt line w rest := by
  rw [Locale.grepTable, Locale.tableLine_iff (fun w hw => by simpa using hw)]
  simp

/-- `grep` and `wg-quick` agree on what assigns to `Table`. -/
theorem Locale.assigns_eq_grepTable (line : Text) : P.assigns line = P.grepTable line := by
  rw [Bool.eq_iff_iff, Locale.grepTable_iff]
  constructor
  · exact Locale.tableAt_of_assigns
  · rintro ⟨w, rest, hw, h⟩
    exact (h.read hw).1

theorem sed_spells (w : Text) (hw : (w == lit "Table" || w == lit "table") = true) :
    fold w = lit "table" := by
  simp only [Bool.or_eq_true, beq_iff_eq] at hw
  rcases hw with rfl | rfl <;> decide

/-- What the replacement touches assigns to `Table`. -/
theorem Locale.assigns_of_sedTable {line : Text} (h : P.sedTable line = true) :
    P.assigns line = true := by
  obtain ⟨w, rest, hw, hat⟩ := (Locale.tableLine_iff sed_spells).mp h
  exact (hat.read (sed_spells w hw)).1

/-- A line that assigns to `Table` is no section header. -/
theorem Locale.inInterface_of_assigns {line : Text} (h : P.assigns line = true) (inside : Bool) :
    P.inInterface inside line = inside := by
  obtain ⟨w, rest, hw, hat⟩ := Locale.tableAt_of_assigns h
  rw [Locale.inInterface, (hat.read hw).2.1, if_neg (by decide)]

/-- The line that is written, with whatever stays behind it. -/
theorem Locale.tableOff_at (rest : Text) :
    P.TableAt (tableOff ++ rest) (lit "Table") (lit " off" ++ rest) := by
  have hsplit : tableOff = lit "Table" ++ ([' '] ++ '=' :: lit " off") := by decide
  refine ⟨[], [' '], ?_, fun c hc => (nomatch hc), fun c hc => ?_⟩
  · rw [hsplit]
    simp only [List.nil_append, List.append_assoc, List.cons_append]
  · obtain rfl := List.mem_singleton.mp hc
    exact P.space_blank

theorem Locale.tableOff_read (rest : Text) :
    P.assigns (tableOff ++ rest) = true ∧
      P.value (tableOff ++ rest) = P.trim (lit " off" ++ stripped rest) := by
  have hread := (P.tableOff_at rest).read (by decide)
  refine ⟨hread.1, hread.2.2.trans ?_⟩
  rw [before_append_of_not_mem (by simp [lit]), stripped]

/-- The value is `off` when only spaces, or a comment, follow. -/
theorem Locale.trim_off_iff (rest : Text) :
    P.trim (lit " off" ++ rest) = lit "off" ↔ rest.all P.space = true := by
  have hword : ∀ c ∈ lit "off", P.space c = false := by
    intro c hc
    have hletters : c = 'o' ∨ c = 'f' := by simpa [lit] using hc
    rcases hletters with rfl | rfl <;> exact P.not_space (by decide) (by decide)
  have hsplit : lit " off" ++ rest = [' '] ++ (lit "off" ++ rest) := rfl
  have hblank : ∀ c ∈ [' '], P.space c = true := by
    intro c hc
    obtain rfl := List.mem_singleton.mp hc
    exact P.space_blank
  rw [hsplit]
  constructor
  · intro h
    by_contra hnot
    -- a character that is no space keeps what stands before it
    obtain ⟨c, hc, hspace⟩ : ∃ c ∈ rest, P.space c = false := by simpa using hnot
    obtain ⟨x, y, rfl⟩ := List.append_of_mem hc
    have hleft : ([' '] ++ (lit "off" ++ (x ++ c :: y))).dropWhile P.space =
        lit "off" ++ (x ++ c :: y) := by
      rw [List.dropWhile_append_of_pos hblank]
      have hfirst : lit "off" = 'o' :: lit "ff" := rfl
      rw [hfirst, List.cons_append]
      refine List.dropWhile_cons_of_neg ?_
      rw [hword 'o' (by rw [hfirst]; exact .head _)]
      simp
    rw [Locale.trim, hleft, ← List.append_assoc, rdropWhile_append_cons hspace] at h
    have hlen := congrArg List.length h
    simp only [List.length_append, List.length_cons] at hlen
    omega
  · intro h
    exact P.trim_append hblank (List.all_eq_true.mp h) hword

/-! ### The rewriting, line by line -/

/-- Rewriting lines without changing what they are. -/
theorem Locale.assignments_map {f : Text → Text}
    (hsection : ∀ inside line, P.inInterface inside (f line) = P.inInterface inside line)
    (hassigns : ∀ line, P.assigns (f line) = P.assigns line) (inside : Bool) (lines : List Text) :
    P.assignments inside (lines.map f) = (P.assignments inside lines).map f := by
  induction lines generalizing inside with
  | nil => rfl
  | cons line rest ih =>
    rw [List.map_cons, Locale.assignments, Locale.assignments, hsection, hassigns]
    split
    · rw [List.map_cons, ih]
    · exact ih _

/-- Without a `Table` line nothing is assigned. -/
theorem Locale.assignments_eq_nil {lines : List Text} (h : ∀ line ∈ lines, P.assigns line = false)
    (inside : Bool) : P.assignments inside lines = [] := by
  induction lines generalizing inside with
  | nil => rfl
  | cons line rest ih =>
    rw [Locale.assignments, h line (.head _), Bool.and_false, if_neg (by simp)]
    exact ih (fun l hl => h l (.tail _ hl)) _

theorem Locale.inInterface_header (inside : Bool) :
    P.inInterface inside (lit "[Interface]") = true ∧ P.assigns (lit "[Interface]") = false := by
  have hhash : '#' ∉ lit "[Interface]" := by decide
  have heq : '=' ∉ lit "[Interface]" := by decide
  have hword : ∀ c ∈ lit "[Interface]", P.space c = false := by
    intro c hc
    have hletters : c = '[' ∨ c = 'I' ∨ c = 'n' ∨ c = 't' ∨ c = 'e' ∨ c = 'r' ∨ c = 'f' ∨ c = 'a' ∨
        c = 'c' ∨ c = 'e' ∨ c = ']' := by simpa [lit] using hc
    rcases hletters with rfl | rfl | rfl | rfl | rfl | rfl | rfl | rfl | rfl | rfl | rfl <;>
      exact P.not_space (by decide) (by decide)
  have hstripped : stripped (lit "[Interface]") = lit "[Interface]" := before_of_not_mem hhash
  have hkey : P.key (lit "[Interface]") = lit "[interface]" := by
    have htrim : P.trim (lit "[Interface]") = lit "[Interface]" := by
      have h := P.trim_append (a := []) (b := []) (fun c hc => (nomatch hc))
        (fun c hc => (nomatch hc)) hword
      rwa [List.nil_append, List.append_nil] at h
    rw [Locale.key, hstripped, before_of_not_mem heq, htrim]
    decide
  constructor
  · rw [Locale.inInterface, hkey, if_pos (by decide)]
    simp
  · rw [Locale.assigns, hkey, hstripped]
    decide

/-- The insertion assigns once, behind the first header that is spelled like its pattern. -/
theorem Locale.assignments_insertTable {lines : List Text}
    (h : ∀ line ∈ lines, P.assigns line = false) (inside : Bool) :
    P.assignments inside (insertTable lines) =
      match lines.find? (fun l => l.take 11 == lit "[Interface]") with
      | some line => [tableOff ++ line.drop 11]
      | none => [] := by
  induction lines generalizing inside with
  | nil => rfl
  | cons line rest ih =>
    rw [insertTable]
    have hrest := fun l hl => h l (.tail _ hl)
    split
    · next hheader =>
      rw [List.find?_cons_of_pos (by simpa using hheader)]
      obtain ⟨hopen, hplain⟩ := P.inInterface_header inside
      have hoff := (P.tableOff_read (line.drop 11)).1
      rw [Locale.assignments, hopen, hplain, Bool.and_false, if_neg (by simp), Locale.assignments,
        Locale.inInterface_of_assigns hoff, hoff, Bool.and_true, if_pos rfl,
        Locale.assignments_eq_nil hrest]
    · next hheader =>
      rw [List.find?_cons_of_neg (by simpa using hheader), Locale.assignments, h line (.head _),
        Bool.and_false, if_neg (by simp)]
      exact ih hrest _

theorem auto_ne_off : lit "auto" ≠ lit "off" := by decide

/-- The replacement ends in `off` where the assignment that counts is replaced or says so. -/
theorem Locale.effectiveTable_replaceTable (lines : List Text) :
    P.effectiveTable (P.replaceTable lines) = lit "off" ↔
      ∃ line, (P.assignments false lines).getLast? = some line ∧
        (P.sedTable line = true ∨ P.value line = lit "off") := by
  -- every line that is replaced assigned before and assigns after
  have hoff := P.tableOff_read []
  rw [List.append_nil, show stripped [] = [] from rfl, List.append_nil] at hoff
  have hvalue : P.value tableOff = lit "off" :=
    hoff.2.trans ((P.trim_off_iff []).mpr rfl)
  have hassigns : ∀ line, P.assigns (if P.sedTable line then tableOff else line) =
      P.assigns line := by
    intro line
    split
    · next hsed => rw [hoff.1, Locale.assigns_of_sedTable hsed]
    · rfl
  have hsection : ∀ inside line,
      P.inInterface inside (if P.sedTable line then tableOff else line) =
        P.inInterface inside line := by
    intro inside line
    split
    · next hsed =>
      rw [Locale.inInterface_of_assigns hoff.1,
        Locale.inInterface_of_assigns (Locale.assigns_of_sedTable hsed)]
    · rfl
  rw [Locale.effectiveTable, Locale.replaceTable, P.assignments_map hsection hassigns,
    List.getLast?_map, Option.map_map]
  cases (P.assignments false lines).getLast? with
  | none => simpa using auto_ne_off
  | some line =>
    rw [Option.map_some, Option.getD_some, Function.comp_apply]
    by_cases hsed : P.sedTable line = true
    · rw [if_pos hsed]
      exact iff_of_true hvalue ⟨line, rfl, .inl hsed⟩
    · rw [if_neg hsed]
      simp [hsed]

/-- The insertion ends in `off` where its pattern finds a header with nothing behind it. -/
theorem Locale.effectiveTable_insertTable {lines : List Text}
    (h : ∀ line ∈ lines, P.assigns line = false) :
    P.effectiveTable (insertTable lines) = lit "off" ↔
      ∃ line, lines.find? (fun l => l.take 11 == lit "[Interface]") = some line ∧
        (stripped (line.drop 11)).all P.space = true := by
  rw [Locale.effectiveTable, P.assignments_insertTable h]
  cases lines.find? (fun l => l.take 11 == lit "[Interface]") with
  | none => simpa using auto_ne_off
  | some line =>
    simp only [List.getLast?_singleton, Option.map_some, Option.getD_some,
      Option.some.injEq, exists_eq_left']
    rw [(P.tableOff_read _).2]
    exact P.trim_off_iff _

end Lines

/-- **When an imported configuration ends with `Table = off`**: exactly when the file meets
`EndsOff`. -/
theorem effectiveTable_rewrite_iff (P : Locale) (lines out : List Text)
    (h : P.addWireguard lines = some out) :
    P.effectiveTable out = lit "off" ↔ P.EndsOff lines := by
  unfold Locale.addWireguard at h
  split at h
  · obtain rfl := Option.some.inj h
    unfold Locale.rewriteTable Locale.EndsOff
    split
    · exact P.effectiveTable_replaceTable lines
    · next hany =>
      have hnone : ∀ line ∈ lines, P.assigns line = false := by
        intro line hline
        rw [P.assigns_eq_grepTable, ← Bool.not_eq_true]
        intro hgrep
        exact hany (List.any_eq_true.mpr ⟨line, hline, hgrep⟩)
      exact P.effectiveTable_insertTable hnone
  · nomatch h

/-- The class in the locale `C`. -/
def asciiSpace : Locale where
  space c := c = ' ' || c = '\t' || c = '\n' || c = '\u000b' || c = '\u000c' || c = '\r'
  ascii c _ := by simp [or_assoc]

/-- A configuration whose sections are written in lower case. -/
def lowerCaseConf : List Text :=
  [lit "[interface]", lit "PrivateKey = k", lit "[peer]", lit "AllowedIPs = 0.0.0.0/0"]

theorem lowerCaseConf_keeps_default_route :
    ∃ out, asciiSpace.addWireguard lowerCaseConf = some out ∧
      asciiSpace.effectiveTable out = lit "auto" ∧ asciiSpace.effectiveTable out ≠ lit "off" := by
  obtain ⟨out, hout, hauto⟩ := Option.map_eq_some_iff.mp (show
    (asciiSpace.addWireguard lowerCaseConf).map asciiSpace.effectiveTable = some (lit "auto") by
      decide)
  refine ⟨out, hout, hauto, ?_⟩
  rw [hauto]
  decide

/-- The same with the usual spelling, and a `Table` line of its own. -/
def usualConf : List Text :=
  [lit "[Interface]", lit "PrivateKey = k", lit " table=1234 # main", lit "[Peer]",
    lit "AllowedIPs = 0.0.0.0/0"]

theorem effectiveTable_rewrite_usualConf :
    ∃ out, asciiSpace.addWireguard usualConf = some out ∧
      (asciiSpace.effectiveTable out = lit "off" ↔ asciiSpace.EndsOff usualConf) := by
  obtain ⟨out, hout⟩ := Option.isSome_iff_exists.mp (show
    (asciiSpace.addWireguard usualConf).isSome = true by decide)
  exact ⟨out, hout, effectiveTable_rewrite_iff asciiSpace usualConf out hout⟩

end ProxyGateway.Exits.WireGuard
