/-
# ProxyGateway.Dns.GfwHistory — which names `gfwlist.lua` adds after many updates

An update whose download succeeds writes `gfwlist.lua` anew.  One whose download fails keeps the file
and appends to it, so the names that earlier updates took from the extras and from the default rules
stay, also those that have been removed there since.

`GfwState.taken` is a history variable: the names that the updates since the last download took from
these two sources.  The file adds the names of the last download and these, and no others
(`gfwHistory_inv`).  So an update leaves exactly the names of the three sources unless its download
fails and some taken name is in none of them any more (`update_exact_iff`).
-/
import ProxyGateway.Dns.GfwList
import ProxyGateway.Logic.Machine

namespace ProxyGateway.Dns

open ProxyGateway.Lang ProxyGateway.Logic

/-! ## Names and lines -/

/-- The `sed` script reads back what `echo` wrote. -/
@[simp] theorem addedName_gfwLine (name : Text) : addedName (gfwLine name) = some name := by
  have hline : gfwLine name = lit "gfwList:add(newDNSName(\"" ++ (name ++ lit "\"))") := by
    rw [gfwLine, addLine, ← List.append_assoc]
    rfl
  have hdrop : (gfwLine name).drop (lit "gfwList:add(newDNSName(\"").length = name ++ lit "\"))" := by
    rw [hline, List.drop_left]
  have hopens : (lit "gfwList:add(newDNSName(\"").isPrefixOf (gfwLine name) = true := by
    rw [hline]
    exact List.isPrefixOf_iff_prefix.mpr (List.prefix_append _ _)
  have hcloses : (lit "\"))").isSuffixOf (name ++ lit "\"))") = true :=
    List.isSuffixOf_iff_suffix.mpr (List.suffix_append _ _)
  simp only [addedName, hdrop, hopens, hcloses, and_self, if_true]
  rw [List.rdrop, List.length_append, Nat.add_sub_cancel, List.take_left]

theorem namesOf_map_gfwLine (names : List Text) : namesOf (names.map gfwLine) = names := by
  simp [namesOf, List.filterMap_map]

/-- Appending adds the names and nothing else. -/
theorem mem_namesOf_appendNames {lua names : List Text} {name : Text} :
    name ∈ namesOf (appendNames lua names) ↔ name ∈ namesOf lua ∨ name ∈ names := by
  unfold appendNames
  induction names generalizing lua with
  | nil => simp
  | cons first names ih =>
    rw [List.foldl_cons, ih, List.mem_cons]
    split
    · next hknown =>
      constructor
      · rintro (h | h)
        · exact .inl h
        · exact .inr (.inr h)
      · rintro (h | rfl | h)
        · exact .inl h
        · exact .inl hknown
        · exact .inr h
    · simp [namesOf, or_assoc]

/-! ## Histories -/

/-- What an update finds. -/
structure GfwState where
  /-- the lines of `gfwlist.lua` -/
  lua : List Text
  /-- the decoded text of the most recent download -/
  downloaded : Option Text
  /-- `gfwlist-extra-local.txt` -/
  extra : Option Text
  /-- the names that the updates since that download took from the extras and the default rules -/
  taken : List Text

/-- A fresh installation. -/
def GfwState.fresh : GfwState := ⟨[], none, none, []⟩

/-- A committed update, or a change of the extras.  The default rules, and the lists behind their
URLs, may be others at every update. -/
inductive GfwEvent where
  | update (decoded : Option Text) (derived : DerivedNames)
  | setExtra (file : Option Text)

section History

variable (B : Bash)

/-- The valid names of the extras. -/
def GfwState.extras (st : GfwState) : List Text := (st.extra.map B.extras).getD []

/-- The names of the most recent download. -/
def GfwState.parsed (st : GfwState) : List Text := (st.downloaded.map B.parse).getD []

/-- A committed update. -/
def GfwState.update (st : GfwState) (decoded : Option Text) (derived : DerivedNames) : GfwState :=
  { st with
    lua := B.updateLua decoded st.extra derived st.lua
    downloaded := decoded.or st.downloaded
    taken := (if decoded.isSome then [] else st.taken) ++ st.extras B ++ derived.names }

def gfwStep (st : GfwState) : GfwEvent → Option GfwState
  | .update decoded derived => some (st.update B decoded derived)
  | .setExtra file => some { st with extra := file }

/-- **`Exact`** — `gfwlist.lua` adds the names of its three sources and no others. -/
def GfwState.Exact (st : GfwState) (derived : DerivedNames) : Prop :=
  ∀ name, name ∈ namesOf st.lua ↔
    name ∈ st.parsed B ∨ name ∈ st.extras B ∨ name ∈ derived.names

/-- What the file adds, in every history. -/
def GfwState.Tracked (st : GfwState) : Prop :=
  ∀ name, name ∈ namesOf st.lua ↔ name ∈ st.parsed B ∨ name ∈ st.taken

variable {B} {st : GfwState}

theorem mem_namesOf_update {decoded : Option Text} {derived : DerivedNames} {name : Text} :
    name ∈ namesOf (st.update B decoded derived).lua ↔
      name ∈ (match decoded with | some text => B.parse text | none => namesOf st.lua) ∨
        name ∈ st.extras B ∨ name ∈ derived.names := by
  simp only [GfwState.update, Bash.updateLua, mem_namesOf_appendNames, or_assoc, GfwState.extras]
  cases decoded with
  | some text => simp only [namesOf_map_gfwLine]
  | none => rfl

theorem Tracked.update (h : st.Tracked B) (decoded : Option Text) (derived : DerivedNames) :
    (st.update B decoded derived).Tracked B := by
  intro name
  rw [mem_namesOf_update]
  cases decoded with
  | some text => simp [GfwState.update, GfwState.parsed]
  | none =>
    rw [h name]
    simp [GfwState.update, GfwState.parsed, or_assoc]

/-- **`gfwHistory_inv`** — after every history the file adds the names of the last download and those
taken since. -/
theorem gfwHistory_inv (h : Reaches (gfwStep B) Always GfwState.fresh st) : st.Tracked B := by
  refine h.invariant (fun _ => by simp [GfwState.fresh, namesOf, GfwState.parsed]) ?_
  intro st e st' htracked _ hstep
  cases e with
  | update decoded derived =>
    cases hstep
    exact Tracked.update htracked decoded derived
  | setExtra file =>
    cases hstep
    exact htracked

/-- **`update_exact_iff`** — after every history, a committed update leaves exactly the names of the
three sources, exactly if its download succeeds, or every name taken since the last download is still
in one of them. -/
theorem update_exact_iff (h : Reaches (gfwStep B) Always GfwState.fresh st) (decoded : Option Text)
    (derived : DerivedNames) :
    (st.update B decoded derived).Exact B derived ↔
      decoded.isSome = true ∨ ∀ name ∈ st.taken,
        name ∈ st.parsed B ∨ name ∈ st.extras B ∨ name ∈ derived.names := by
  have htracked := gfwHistory_inv h
  cases decoded with
  | some text =>
    refine iff_of_true (fun name => ?_) (.inl rfl)
    rw [mem_namesOf_update]
    rfl
  | none =>
    -- the old file stays: it is exact where the taken names are still named
    have hparsed : (st.update B none derived).parsed B = st.parsed B := rfl
    have hextras : (st.update B none derived).extras B = st.extras B := rfl
    constructor
    · intro hexact
      refine .inr fun name hname => ?_
      rw [← hparsed, ← hextras]
      exact (hexact name).mp (mem_namesOf_update.mpr (.inl ((htracked name).mpr (.inr hname))))
    · rintro (hno | hall) name
      · nomatch hno
      · rw [mem_namesOf_update, hparsed, hextras, htracked name]
        constructor
        · rintro ((hname | hname) | hname)
          · exact .inl hname
          · exact hall name hname
          · exact .inr hname
        · rintro (hname | hname)
          · exact .inl (.inl hname)
          · exact .inr hname

end History

/-- The extras at work: taken, removed, and out of the list with the next download. -/
def removedExtra : List GfwEvent :=
  [.setExtra (some (lit "www.example.org\n")), .update (some (lit "||a.com\n")) ⟨[], nofun⟩,
    .setExtra none]

def noDerived : DerivedNames := ⟨[], nofun⟩

theorem removedExtra_reaches :
    ∃ st, run (gfwStep bash52) GfwState.fresh removedExtra = some st ∧ st.extra = none ∧
      ((st.update bash52 (some (lit "||b.com\n")) noDerived).Exact bash52 noDerived ↔
        (some (lit "||b.com\n")).isSome = true ∨ ∀ name ∈ st.taken,
          name ∈ st.parsed bash52 ∨ name ∈ st.extras bash52 ∨ name ∈ noDerived.names) := by
  obtain ⟨st, hrun, hextra⟩ := Option.map_eq_some_iff.mp
    (rfl : (run (gfwStep bash52) GfwState.fresh removedExtra).map GfwState.extra = some none)
  exact ⟨st, hrun, hextra, update_exact_iff (Reaches.init.of_run hrun) _ _⟩

/-- The next download fails, and the removed name is still hijacked. -/
theorem removedExtra_stays :
    ¬ ∀ (B : Bash) (st : GfwState), Reaches (gfwStep B) Always GfwState.fresh st →
      ∀ (decoded : Option Text) (derived : DerivedNames),
        (st.update B decoded derived).Exact B derived := by
  intro hclaim
  have hmap : (run (gfwStep bash52) GfwState.fresh removedExtra).map (fun st =>
      (namesOf (st.update bash52 none noDerived).lua, (st.update bash52 none noDerived).parsed bash52,
        (st.update bash52 none noDerived).extras bash52)) =
      some ([lit "a.com", lit "example.org"], [lit "a.com"], []) := by decide
  obtain ⟨st, hrun, hst⟩ := Option.map_eq_some_iff.mp hmap
  simp only [Prod.mk.injEq] at hst
  obtain ⟨hnames, hparsed, hextras⟩ := hst
  have hexact := hclaim bash52 st (Reaches.init.of_run hrun) none noDerived (lit "example.org")
  rw [hnames, hparsed, hextras] at hexact
  have hmem : lit "example.org" ∈ [lit "a.com", lit "example.org"] :=
    List.mem_cons_of_mem _ (List.mem_singleton_self _)
  rcases hexact.mp hmem with h | h | h
  · exact absurd (List.mem_singleton.mp h) (by decide)
  · nomatch h
  · nomatch h

end ProxyGateway.Dns
