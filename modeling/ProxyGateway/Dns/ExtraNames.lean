/-
# ProxyGateway.Dns.ExtraNames — a name that the bot adds, and the answers of dnsdist

`op_gfwlist_add` answers that a name is on the list and in force.  Between the message and the client
stand the file of the extras, which each operation of the bot reads the way Python does and writes anew,
the updates, which read it the way bash does, `gfwlist.lua`, and the actions of dnsdist.

`nameStep` puts the bot and the updates together.  A name is safe in the file once it is a line of its
own (`Listed`): an operation that does not remove it writes that line again, whatever else it adds or
drops, and an update takes it up, without `www.`.  So `added_name_hijacked` holds in every run, for any
file that the name is added to.
-/
import ProxyGateway.Dns.DefaultDomains
import ProxyGateway.Dns.ExtrasFile
import ProxyGateway.Smart.SetFinal

namespace ProxyGateway.Dns

open ProxyGateway.Lang ProxyGateway.Logic ProxyGateway.Firewall
open ProxyGateway.Smart (joinLines readFile)

/-! ## The bot and the updates -/

/-- An operation of the bot on the extras, or a committed update. -/
inductive NameEvent where
  | edit (call : ExtraCall)
  | update (decoded : Option Text) (derived : DerivedNames)

section Machine

variable (B : Bash) (L : Editor)

/-- `_read_file` makes an empty text of a file that is not there. -/
def nameStep (st : GfwState) : NameEvent → Option GfwState
  | .edit call =>
    some (match if call.opened then L.edit call.op (st.extra.getD []) else none with
      | some text => { st with extra := some text }
      | none => st)
  | .update decoded derived => some (st.update B decoded derived)

/-- The line of the name that `op_gfwlist_add` appends; the pattern lets a newline at the end pass. -/
def Editor.addedLine (input : Text) : Text := cutLast '\n' (L.extraName input)

/-- The event takes the name out of the file. -/
def NameEvent.removes (name : Text) : NameEvent → Bool
  | .edit ⟨.del input, _⟩ => L.lower name = L.lower (strip input)
  | _ => false

end Machine

/-! ## Lines and entries -/

/-- A line of the file as an entry. -/
def extraEntry (line : Text) : Option Text :=
  (some (strip line)).filter fun d => d ≠ [] && d.head? ≠ some '#'

theorem skipsSpaces_extraEntry : SkipsSpaces extraEntry where
  nil := rfl
  strip line := by rw [extraEntry, extraEntry, strip_strip]

/-- `_read_file` strips the text, which leaves the entries as they are. -/
theorem readExtras_eq (file : Text) : readExtras file = (splitlines file).filterMap extraEntry := by
  have hreturn : '\r' ∉ strip (universalNewlines file) := fun h =>
    return_not_mem_universalNewlines file (mem_of_mem_strip h)
  have hread : (splitlines (readFile file)).filterMap extraEntry =
      (splitlines file).filterMap extraEntry := by
    rw [splitlines, readFile, universalNewlines_of_singleLine hreturn,
      skipsSpaces_extraEntry.filterMap_strip, splitlines]
  rw [← hread, readExtras, ← List.filterMap_eq_filter, List.filterMap_map]
  rfl

/-- The name is a line of its own. -/
def Listed (name : Text) (st : GfwState) : Prop := ∃ file, st.extra = some file ∧ name ∈ file.splitOn '\n'

/-- A line of a text that is joined is a line of the whole. -/
theorem mem_splitOn_joinLines {texts : List Text} {text line : Text} (htext : text ∈ texts)
    (hline : line ∈ text.splitOn '\n') : line ∈ (joinLines texts).splitOn '\n' := by
  unfold joinLines
  induction texts with
  | nil => cases htext
  | cons first texts ih =>
    cases texts with
    | nil =>
      obtain rfl := List.mem_singleton.mp htext
      rw [List.intercalate_singleton, List.splitOn_append_cons_self]
      exact List.mem_append_left _ hline
    | cons second texts =>
      have hjoined : (lit "\n").intercalate (first :: second :: texts) ++ ['\n'] =
          first ++ '\n' :: ((lit "\n").intercalate (second :: texts) ++ ['\n']) := by
        rw [List.intercalate_cons_cons, List.append_assoc, List.append_assoc]
        rfl
      rw [hjoined, List.splitOn_append_cons_self, List.mem_append]
      rcases List.mem_cons.mp htext with rfl | htext
      · exact .inl hline
      · exact .inr (ih htext)

section Names

variable {name file : Text} (h : ExtraName name)
include h

theorem ExtraName.noSpace : ∀ c ∈ name, isSpace c = false := by
  intro c hc
  rcases h.chars c hc with halnum | rfl | rfl
  · exact ProxyGateway.Smart.isSpace_of_isAlphanum halnum
  · rfl
  · rfl

theorem ExtraName.noBreak : ∀ c ∈ name, isLineBreak c = false := by
  intro c hc
  cases hbreak : isLineBreak c with
  | false => rfl
  | true =>
    rw [← isSpace_of_isLineBreak hbreak]
    exact h.noSpace c hc

theorem ExtraName.entry : extraEntry name = some name := by
  have hmark : name.head? ≠ some '#' := by
    intro hhead
    have hfirst := h.first
    rw [hhead] at hfirst
    cases hfirst
  rw [extraEntry, strip_of_noSpace h.noSpace]
  simp [h.ne_nil, hmark]

theorem ExtraName.readExtras : Dns.readExtras name = [name] := by
  have hreturn : '\r' ∉ name := fun hc => absurd (h.noBreak _ hc) (by decide)
  rw [readExtras_eq, splitlines, universalNewlines_of_singleLine hreturn,
    List.splitOnP_eq_singleton h.noBreak, List.filterMap_cons_some h.entry, List.filterMap_nil]

/-- A line of its own is an entry for the bot. -/
theorem ExtraName.mem_readExtras (hline : name ∈ file.splitOn '\n') : name ∈ Dns.readExtras file := by
  have hcut : ∀ a b : Text, Dns.readExtras (a ++ '\n' :: b) = Dns.readExtras a ++ Dns.readExtras b := by
    intro a b
    rw [readExtras_eq, filterMap_splitlines_append rfl, ← readExtras_eq, ← readExtras_eq]
  have hself : name ∈ Dns.readExtras name := by
    rw [h.readExtras]
    exact List.mem_singleton_self name
  obtain ⟨x, y, rfl, hx, -, hy⟩ := exists_append_of_mem_splitOnP hline
  have hright : name ∈ Dns.readExtras (name ++ y) := by
    rcases hy with rfl | ⟨b, y, rfl, hb⟩
    · rwa [List.append_nil]
    · rw [beq_iff_eq.mp hb, hcut]
      exact List.mem_append_left _ hself
  rcases hx with rfl | ⟨x, b, rfl, hb⟩
  · exact hright
  · rw [beq_iff_eq.mp hb, List.append_assoc, List.singleton_append, hcut]
    exact List.mem_append_right _ hright

end Names

/-! ## A name that stays -/

section Keep

variable {B : Bash} {L : Editor} {name : Text}

/-- An operation that does not remove the name writes its line again. -/
theorem mem_edit (h : ExtraName name) {op : ExtraOp} {file text : Text} {opened : Bool}
    (hline : name ∈ file.splitOn '\n')
    (hkept : (NameEvent.edit ⟨op, opened⟩).removes L name = false)
    (hedit : L.edit op file = some text) : name ∈ text.splitOn '\n' := by
  have hmem := h.mem_readExtras hline
  have hnewline : '\n' ∉ name := fun hc => absurd (h.noBreak _ hc) (by decide)
  have hwritten : ∀ names : List Text, name ∈ names → name ∈ (joinLines names).splitOn '\n' :=
    fun names hnames => mem_splitOn_joinLines hnames (by simp [List.splitOn_eq_singleton hnewline])
  cases op with
  | add input =>
    simp only [Editor.edit, Editor.opGfwlistAdd] at hedit
    split at hedit
    · cases hedit
    split at hedit
    · cases hedit
    rw [← Option.some.inj hedit]
    exact hwritten _ (List.mem_append_left _ hmem)
  | del input =>
    simp only [Editor.edit, Editor.opGfwlistDel] at hedit
    split at hedit
    · rw [← Option.some.inj hedit]
      refine hwritten _ (List.mem_filter.mpr ⟨hmem, ?_⟩)
      simpa [NameEvent.removes] using hkept
    · cases hedit
  | importSet url data cut =>
    obtain ⟨out, -, himport⟩ := Option.bind_eq_some_iff.mp hedit
    simp only [Editor.opGfwlImportSet] at himport
    split at himport
    · cases himport
    rw [← Option.some.inj himport]
    exact hwritten _ (List.mem_append_left _ ((L.mem_listed _ _).mpr hmem))

theorem Listed.step (h : ExtraName name) {st st' : GfwState} {e : NameEvent} (hlisted : Listed name st)
    (hkept : e.removes L name = false) (hstep : nameStep B L st e = some st') : Listed name st' := by
  obtain ⟨file, hfile, hline⟩ := hlisted
  cases e with
  | update decoded derived =>
    rw [← Option.some.inj hstep]
    exact ⟨file, hfile, hline⟩
  | edit call =>
    rw [← Option.some.inj hstep, hfile, Option.getD_some]
    cases hedit : (if call.opened then L.edit call.op file else none) with
    | none => exact ⟨file, hfile, hline⟩
    | some text =>
      refine ⟨text, rfl, ?_⟩
      split at hedit
      · exact mem_edit h hline hkept hedit
      · cases hedit

theorem Listed.run (h : ExtraName name) {es : List NameEvent} {st st' : GfwState}
    (hlisted : Listed name st) (hkept : ∀ e ∈ es, e.removes L name = false)
    (hrun : run (nameStep B L) st es = some st') : Listed name st' := by
  induction es generalizing st with
  | nil =>
    obtain rfl := Option.some.inj hrun
    exact hlisted
  | cons e es ih =>
    obtain ⟨mid, hstep, hrest⟩ := Option.bind_eq_some_iff.mp hrun
    have hmid := hlisted.step h (hkept e (List.mem_cons_self ..)) hstep
    exact ih hmid (fun e he => hkept e (List.mem_cons_of_mem _ he)) hrest

theorem listed_add {input text : Text} {st st' : GfwState}
    (hadd : L.opGfwlistAdd input (st.extra.getD []) = some text)
    (hstep : nameStep B L st (.edit ⟨.add input, true⟩) = some st') :
    ExtraName (L.addedLine input) ∧ Listed (L.addedLine input) st' := by
  have hedit : L.edit (.add input) (st.extra.getD []) = some text := hadd
  have hst : st' = { st with extra := some text } := by
    simp only [nameStep, if_true, hedit] at hstep
    exact (Option.some.inj hstep).symm
  simp only [Editor.opGfwlistAdd] at hadd
  split at hadd
  · cases hadd
  next hmatch =>
    split at hadd
    · cases hadd
    have hname : ExtraName (L.addedLine input) := extraName_of_matchesExtra (by simpa using hmatch)
    have hnewline : '\n' ∉ L.addedLine input := fun hc => absurd (hname.noBreak _ hc) (by decide)
    have hline : L.addedLine input ∈ (L.extraName input).splitOn '\n' := by
      unfold Editor.addedLine cutLast at hnewline ⊢
      split at hnewline
      · next hlast =>
        obtain ⟨init, hinit⟩ := List.getLast?_eq_some_iff.mp hlast
        rw [if_pos hlast, hinit, List.dropLast_concat, List.splitOn_append_cons_self,
          List.splitOn_eq_singleton (by simpa [hinit] using hnewline)]
        exact List.mem_append_left _ (List.mem_singleton_self init)
      · next hlast =>
        rw [if_neg hlast, List.splitOn_eq_singleton hnewline]
        exact List.mem_singleton_self _
    refine ⟨hname, text, by rw [hst], ?_⟩
    rw [← Option.some.inj hadd]
    exact mem_splitOn_joinLines (List.mem_append_right _ (List.mem_singleton_self _)) hline

end Keep

/-! ## The answer -/

section Answer

variable {B : Bash} {L : Editor} {name : Text}

/-- An update takes up a line of its own that is not sloppy. -/
theorem mem_update (hspace : ∀ c, c.isAlphanum = true → B.space c = false) (h : ExtraName name)
    (hsound : sloppy name = false) {st : GfwState} (hlisted : Listed name st) (decoded : Option Text)
    (derived : DerivedNames) : cutWww name ∈ namesOf (st.update B decoded derived).lua := by
  obtain ⟨file, hfile, hline⟩ := hlisted
  have hnul : name.filter (· != Char.ofNat 0) = name := by
    refine List.filter_eq_self.mpr fun c hc => bne_iff_ne.mpr ?_
    rintro rfl
    exact h.not_mem (by decide) (by decide) (by decide) hc
  have hread : name ∈ readLines file := mem_readLines_iff.mpr ⟨name, hline, hnul.symm⟩
  have hdomain := (extraDomain_extraName hspace h).2
  have hextra : cutWww name ∈ B.extras file := by
    refine List.mem_filter.mpr ⟨List.mem_map.mpr ⟨name, hread, hdomain⟩, ?_⟩
    exact (isDomain_cutWww_iff h).mpr hsound
  refine mem_namesOf_update.mpr (.inr (.inl ?_))
  rw [GfwState.extras, hfile]
  exact hextra

end Answer

/-- **`added_name_hijacked`** — the bot has added a name that is not sloppy.  After any operations on the
extras that do not remove it, and any updates, the next update has dnsdist answer with the gateway's own
address for every A query at or below the name that is not dropped, whatever is on the ChinaList. -/
theorem added_name_hijacked (B : Bash) (hspace : ∀ c, c.isAlphanum = true → B.space c = false)
    (L : Editor) (input text : Text) (st after : GfwState) (es : List NameEvent)
    (decoded : Option Text) (derived : DerivedNames)
    (hadd : L.opGfwlistAdd input (st.extra.getD []) = some text)
    (hsound : sloppy (L.addedLine input) = false)
    (hkept : ∀ e ∈ es, e.removes L (L.addedLine input) = false)
    (hrun : run (nameStep B L) st (.edit ⟨.add input, true⟩ :: (es ++ [.update decoded derived])) =
      some after)
    (chinaList : SuffixNode) (serverIP : Addr) (c : Client) (dport : Nat) (qname : Name)
    (hclient : clientNet.contains c.source = true ∨ dport ≠ 53)
    (hbelow : Name.below (L.addedLine input) qname) :
    IsSpoofed (gfwNode after.lua) chinaList serverIP (aQuery c dport qname false) := by
  obtain ⟨added, hstep, hrest⟩ := Option.bind_eq_some_iff.mp hrun
  obtain ⟨hname, hlisted⟩ := listed_add hadd hstep
  rw [run_append] at hrest
  obtain ⟨last, hmid, hupdate⟩ := Option.bind_eq_some_iff.mp hrest
  obtain rfl : last.update B decoded derived = after := Option.some.inj hupdate
  have hin := mem_update hspace hname hsound (hlisted.run hname hkept hmid) decoded derived
  exact (isSpoofed_iff _ _ _ _ _ _ _).mpr
    ⟨rfl, hclient, .inl (check_gfwNode hin (below_cutWww hbelow))⟩

/-- A name is added from a URL, another one is added and removed again; the download of the update
fails. -/
theorem added_name_hijacked_org : ∃ after,
    run (nameStep bash52 asciiEditor) .fresh [.edit ⟨.add (lit "https://www.Example.org/x"), true⟩,
        .edit ⟨.add (lit "a.com"), true⟩, .update none noDerived, .edit ⟨.del (lit "A.com"), true⟩,
        .update none noDerived] = some after ∧
      IsSpoofed (gfwNode after.lua) [] (ipv4 203 0 113 7)
        (aQuery ⟨ipv4 198 51 100 9, false⟩ 853 [lit "cdn", lit "example", lit "ORG"] false) := by
  refine ⟨_, rfl, ?_⟩
  refine added_name_hijacked bash52 (fun c hc => alphanum_space_bash52 hc) asciiEditor
    (lit "https://www.Example.org/x") (lit "example.org\n") .fresh _ [.edit ⟨.add (lit "a.com"), true⟩,
      .update none noDerived, .edit ⟨.del (lit "A.com"), true⟩] none noDerived (by decide +kernel)
    (by decide +kernel) ?_ rfl [] (ipv4 203 0 113 7) ⟨ipv4 198 51 100 9, false⟩ 853 _ (.inr (by decide)) ?_
  · intro e he
    simp only [List.mem_cons, List.not_mem_nil, or_false] at he
    rcases he with rfl | rfl | rfl
    · rfl
    · rfl
    · decide +kernel
  · unfold Name.below
    decide +kernel

end ProxyGateway.Dns
