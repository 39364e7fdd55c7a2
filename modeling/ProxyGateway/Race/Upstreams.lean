/-
# ProxyGateway.Race.Upstreams — the upstream list, from the text of a flag to addresses to dial

`parseUpstreamList` takes a text apart at commas and blanks and gives port 53 to what `SplitHostPort`
refuses.  It takes every refusal for a missing port, and puts the item as it stands into
`JoinHostPort`, which adds brackets of its own where there is a colon.

`Item` is what an operator writes: a name or an IPv4 address, an IPv6 address without brackets, an
IPv6 address in brackets, each with a port or without.  `parseUpstreamList_iff` says for which lists
of them the result can be dialled, is what was written, and is read back unchanged.
-/
import Mathlib.Data.List.Forall2
import ProxyGateway.Lang.HostPort

namespace ProxyGateway.Race

open ProxyGateway.Lang

/-! ## The list -/

/-- The separators of the list. -/
def isSeparator (r : Char) : Bool := r == ',' || r == ' ' || r == '\t' || r == '\n'

/-- One item, with a port. -/
def withPort (item : Text) : Text :=
  match splitHostPort item with
  | none => joinHostPort item (lit "53")
  | some _ => item

/-- **`parseUpstreamList`** -/
def parseUpstreamList (input : Text) : List Text :=
  (fieldsFunc isSeparator input).filterMap fun item =>
    let item := trimSpace item
    if item = [] then none else some (withPort item)

/-- A list of words that carry no blank is the list of its addresses. -/
theorem parseUpstreamList_listed {words : List Text} {input : Text}
    (h : Listed isSeparator words input) (hw : ∀ w ∈ words, w ≠ [] ∧ ∀ c ∈ w, goSpace c = false) :
    parseUpstreamList input = words.map withPort := by
  rw [parseUpstreamList, fieldsFunc_listed h, ← List.filterMap_eq_map]
  apply List.filterMap_congr
  intro w hmem
  obtain ⟨hne, hspace⟩ := hw w hmem
  simp [trimSpace_of_noSpace hspace, hne]

/-! ## What is written -/

/-- How the host of an item is written. -/
inductive Form where
  /-- a host name, or an IPv4 address -/
  | name
  /-- an IPv6 address as it is -/
  | bare
  /-- an IPv6 address in brackets -/
  | bracketed
  deriving DecidableEq

/-- A character that neither separates items nor belongs to the syntax around a host. -/
def HostChar (c : Char) : Prop :=
  isSeparator c = false ∧ goSpace c = false ∧ c ≠ '[' ∧ c ≠ ']'

instance (c : Char) : Decidable (HostChar c) := inferInstanceAs (Decidable (_ ∧ _))

/-- **`Item`** — a host, and its port if it is written. -/
structure Item where
  form : Form
  host : Text
  port : Option Text
  host_ne : host ≠ []
  host_char : ∀ c ∈ host, HostChar c
  /-- A name has no colon, an IPv6 address has two at least. -/
  colons : if form = .name then ':' ∉ host else 2 ≤ host.count ':'
  port_digit : ∀ p ∈ port, p ≠ [] ∧ ∀ c ∈ p, c.isDigit = true

namespace Item

/-- `:port` -/
def suffix : Option Text → Text
  | none => []
  | some port => ':' :: port

/-- The text of an item. -/
def text (it : Item) : Text :=
  match it.form with
  | .name | .bare => it.host ++ suffix it.port
  | .bracketed => '[' :: (it.host ++ ']' :: suffix it.port)

/-- The port that is meant. -/
def dialPort (it : Item) : Text := it.port.getD (lit "53")

/-- **`Plain`** — brackets come with a port, and an address with a port comes in brackets. -/
def Plain (it : Item) : Prop :=
  match it.form with
  | .name => True
  | .bare => it.port = none
  | .bracketed => it.port ≠ none

/-! ### Characters -/

theorem not_separator_of_isDigit {c : Char} (h : c.isDigit = true) :
    isSeparator c = false ∧ goSpace c = false := by
  obtain ⟨hlow, hhigh⟩ := isDigit_range h
  constructor
  · rw [isSeparator]
    have hne : ∀ d : Char, d.toNat < 48 → (c == d) = false := by
      intro d hd
      rw [beq_eq_false_iff_ne]
      rintro rfl
      omega
    simp [hne ',' (by decide), hne ' ' (by decide), hne '\t' (by decide), hne '\n' (by decide)]
  · simp only [goSpace, Bool.or_eq_false_iff, Bool.and_eq_false_iff, decide_eq_false_iff_not,
      beq_eq_false_iff_ne]
    omega

theorem portText_of_digits {port : Text} (h : ∀ c ∈ port, c.isDigit = true) : PortText port :=
  ⟨fun hmem => (by decide : ':'.isDigit ≠ true) (h _ hmem),
    fun hmem => (by decide : '['.isDigit ≠ true) (h _ hmem),
    fun hmem => (by decide : ']'.isDigit ≠ true) (h _ hmem)⟩

theorem dialPort_none {it : Item} (h : it.port = none) : it.dialPort = lit "53" :=
  congrArg (Option.getD · (lit "53")) h

theorem dialPort_some {it : Item} {port : Text} (h : it.port = some port) : it.dialPort = port :=
  congrArg (Option.getD · (lit "53")) h

theorem dialPort_digit (it : Item) : ∀ c ∈ it.dialPort, c.isDigit = true := by
  unfold dialPort
  cases hport : it.port with
  | none => exact List.all_iff_forall_prop.mp (by decide)
  | some port => exact (it.port_digit port hport).2

theorem portText_dialPort (it : Item) : PortText it.dialPort := portText_of_digits it.dialPort_digit

theorem open_not_mem (it : Item) : '[' ∉ it.host := fun h => (it.host_char _ h).2.2.1 rfl

theorem close_not_mem (it : Item) : ']' ∉ it.host := fun h => (it.host_char _ h).2.2.2 rfl

/-- A character that stays in one item and that trimming leaves alone. -/
def Inner (c : Char) : Prop := isSeparator c = false ∧ goSpace c = false

instance (c : Char) : Decidable (Inner c) := inferInstanceAs (Decidable (_ ∧ _))

theorem inner_suffix (it : Item) : ∀ c ∈ suffix it.port, Inner c := by
  cases hport : it.port with
  | none => exact List.forall_mem_nil _
  | some port =>
    exact List.forall_mem_cons.mpr ⟨by decide, fun c hc =>
      not_separator_of_isDigit ((it.port_digit port hport).2 c hc)⟩

theorem inner_host (it : Item) : ∀ c ∈ it.host, Inner c :=
  fun c hc => ⟨(it.host_char c hc).1, (it.host_char c hc).2.1⟩

theorem inner_text (it : Item) : ∀ c ∈ it.text, Inner c := by
  have hplain : ∀ c ∈ it.host ++ suffix it.port, Inner c :=
    List.forall_mem_append.mpr ⟨it.inner_host, it.inner_suffix⟩
  unfold text
  split
  · exact hplain
  · exact hplain
  · exact List.forall_mem_cons.mpr ⟨by decide, List.forall_mem_append.mpr
      ⟨it.inner_host, List.forall_mem_cons.mpr ⟨by decide, it.inner_suffix⟩⟩⟩

theorem text_ne (it : Item) : it.text ≠ [] := by
  unfold text
  split
  · exact List.append_ne_nil_of_left_ne_nil it.host_ne _
  · exact List.append_ne_nil_of_left_ne_nil it.host_ne _
  · exact nofun

theorem inner_joinHostPort (it : Item) : ∀ c ∈ joinHostPort it.host it.dialPort, Inner c := by
  have hport : ∀ c ∈ it.dialPort, Inner c := fun c hc => not_separator_of_isDigit (it.dialPort_digit c hc)
  have hcolon : Inner ':' := by decide
  unfold joinHostPort
  split
  · refine List.forall_mem_cons.mpr ⟨by decide, List.forall_mem_append.mpr
      ⟨it.inner_host, List.forall_mem_cons.mpr ⟨by decide, ?_⟩⟩⟩
    exact List.forall_mem_cons.mpr ⟨hcolon, hport⟩
  · exact List.forall_mem_append.mpr ⟨it.inner_host, List.forall_mem_cons.mpr ⟨hcolon, hport⟩⟩

/-! ### One item -/

theorem two_colons (it : Item) (h : it.form ≠ .name) : 2 ≤ it.host.count ':' := by
  have hcolons := it.colons
  rwa [if_neg h] at hcolons

theorem colon_not_mem (it : Item) (h : it.form = .name) : ':' ∉ it.host := by
  have hcolons := it.colons
  rwa [if_pos h] at hcolons

/-- A host does not open a bracket. -/
theorem head_ne (it : Item) (t : Text) : (it.host ++ t).head? ≠ some '[' := by
  intro h
  cases hhost : it.host with
  | nil => exact it.host_ne hhost
  | cons c host =>
    rw [hhost, List.cons_append, List.head?_cons] at h
    have hmem : c ∈ it.host := hhost ▸ List.mem_cons_self ..
    exact (it.host_char c hmem).2.2.1 (Option.some.inj h)

theorem splitHostPort_join (it : Item) :
    splitHostPort (joinHostPort it.host it.dialPort) = some (it.host, it.dialPort) :=
  splitHostPort_joinHostPort it.open_not_mem it.close_not_mem it.portText_dialPort

/-- Port 53 is added exactly where no port is written. -/
theorem withPort_of_plain (it : Item) (h : it.Plain) :
    withPort it.text = joinHostPort it.host it.dialPort := by
  have hsplit := it.splitHostPort_join
  cases hform : it.form with
  | name =>
    have hcolons := it.colon_not_mem hform
    have htext : it.text = it.host ++ suffix it.port := by rw [text, hform]
    cases hport : it.port with
    | none =>
      rw [htext, hport, suffix, List.append_nil, withPort, splitHostPort_of_not_mem hcolons,
        dialPort_none hport]
    | some port =>
      have hjoin : joinHostPort it.host it.dialPort = it.host ++ ':' :: port := by
        rw [joinHostPort, if_neg hcolons, dialPort_some hport]
      rw [htext, hport, suffix, withPort, ← hjoin, hsplit]
  | bare =>
    have hport : it.port = none := by simpa [Plain, hform] using h
    have htext : it.text = it.host := by rw [text, hform, hport]; exact List.append_nil _
    have hhead : it.host.head? ≠ some '[' := by
      have happend := it.head_ne []
      rwa [List.append_nil] at happend
    rw [htext, withPort, splitHostPort_of_colons hhead (it.two_colons (by simp [hform])),
      dialPort_none hport]
  | bracketed =>
    have hcolons := it.two_colons (by simp [hform])
    have hcolon : ':' ∈ it.host := List.count_pos_iff.mp (by omega)
    have hne : it.port ≠ none := by simpa [Plain, hform] using h
    obtain ⟨port, hport⟩ := Option.ne_none_iff_exists'.mp hne
    have htext : it.text = joinHostPort it.host it.dialPort := by
      rw [text, hform, joinHostPort, if_pos hcolon, dialPort_some hport, hport, suffix]
    rw [htext, withPort, hsplit]

/-- Without brackets all of it is taken for the host, and 53 for the port. -/
theorem splitHostPort_bare {it : Item} {port : Text} (hform : it.form = .bare)
    (hport : it.port = some port) :
    splitHostPort (withPort it.text) = some (it.host ++ ':' :: port, lit "53") := by
  have htext : it.text = it.host ++ ':' :: port := by rw [text, hform, hport, suffix]
  have hcolons : 2 ≤ (it.host ++ ':' :: port).count ':' := by
    rw [List.count_append]
    have htwo := it.two_colons (by simp [hform])
    omega
  have hports := portText_of_digits (it.port_digit port hport).2
  have hfiftyThree : PortText (lit "53") := portText_of_digits (List.all_iff_forall_prop.mp (by decide))
  rw [htext, withPort, splitHostPort_of_colons (it.head_ne (':' :: port)) hcolons]
  apply splitHostPort_joinHostPort
  · simp [it.open_not_mem, hports.2.1]
  · simp [it.close_not_mem, hports.2.2]
  · exact hfiftyThree

/-- Brackets without a port are put into brackets. -/
theorem splitHostPort_bracketed_twice {it : Item} (hform : it.form = .bracketed)
    (hport : it.port = none) : splitHostPort (withPort it.text) = none := by
  have htext : it.text = '[' :: (it.host ++ [']']) := by rw [text, hform, hport, suffix]
  have hcolon : ':' ∈ '[' :: (it.host ++ [']']) := by
    have htwo := it.two_colons (by simp [hform])
    have hmem : ':' ∈ it.host := List.count_pos_iff.mp (by omega)
    simp [hmem]
  have hjoin : joinHostPort ('[' :: (it.host ++ [']'])) (lit "53") =
      '[' :: ('[' :: it.host ++ ']' :: ']' :: ':' :: lit "53") := by
    rw [joinHostPort, if_pos hcolon]
    simp
  rw [htext, withPort, splitHostPort_brackets it.close_not_mem]
  dsimp only
  rw [hjoin]
  exact splitHostPort_closed_twice (by simp [it.close_not_mem]) (by decide)

/-- **`splitHostPort_withPort`** — what an item becomes is taken apart into what was meant exactly for
the plain ones. -/
theorem splitHostPort_withPort (it : Item) :
    splitHostPort (withPort it.text) = some (it.host, it.dialPort) ↔ it.Plain := by
  constructor
  · intro h
    cases hform : it.form with
    | name => simp [Plain, hform]
    | bare =>
      cases hport : it.port with
      | none => simpa [Plain, hform] using hport
      | some port =>
        rw [splitHostPort_bare hform hport] at h
        have hhost : it.host ++ ':' :: port = it.host := congrArg Prod.fst (Option.some.inj h)
        simp at hhost
    | bracketed =>
      cases hport : it.port with
      | some port => simp [Plain, hform, hport]
      | none =>
        rw [splitHostPort_bracketed_twice hform hport] at h
        nomatch h
  · intro h
    rw [it.withPort_of_plain h]
    exact it.splitHostPort_join

end Item

/-! ## The whole list -/

/-- Every address can be dialled, and is the item's host with the item's port. -/
def Denotes (it : Item) (address : Text) : Prop :=
  splitHostPort address = some (it.host, it.dialPort)

/-- **`parseUpstreamList_iff`** — a list of items becomes one address for each, in order, that
`SplitHostPort` takes apart into what was written, and is read back unchanged, exactly when each item
in brackets has a port and each IPv6 address with a port is in brackets. -/
theorem parseUpstreamList_iff {items : List Item} {input : Text}
    (h : Listed isSeparator (items.map Item.text) input) :
    List.Forall₂ Denotes items (parseUpstreamList input) ∧
        parseUpstreamList ([','].intercalate (parseUpstreamList input)) = parseUpstreamList input ↔
      ∀ it ∈ items, it.Plain := by
  have hwords : ∀ w ∈ items.map Item.text, w ≠ [] ∧ ∀ c ∈ w, goSpace c = false := by
    intro w hw
    obtain ⟨it, -, rfl⟩ := List.mem_map.mp hw
    exact ⟨it.text_ne, fun c hc => (it.inner_text c hc).2⟩
  have hresult : parseUpstreamList input = items.map fun it => withPort it.text := by
    rw [parseUpstreamList_listed h hwords, List.map_map]
    rfl
  rw [hresult]
  constructor
  · rintro ⟨hdenotes, -⟩ it hit
    rw [List.forall₂_map_right_iff, List.forall₂_same] at hdenotes
    exact it.splitHostPort_withPort.mp (hdenotes it hit)
  · intro hplain
    refine ⟨?_, ?_⟩
    · rw [List.forall₂_map_right_iff, List.forall₂_same]
      exact fun it hit => it.splitHostPort_withPort.mpr (hplain it hit)
    · have hjoins : items.map (fun it => withPort it.text) =
          items.map fun it => joinHostPort it.host it.dialPort :=
        List.map_congr_left fun it hit => it.withPort_of_plain (hplain it hit)
      rw [hjoins]
      have hinner : ∀ w ∈ items.map fun it => joinHostPort it.host it.dialPort,
          w ≠ [] ∧ ∀ c ∈ w, Item.Inner c := by
        intro w hw
        obtain ⟨it, -, rfl⟩ := List.mem_map.mp hw
        refine ⟨?_, it.inner_joinHostPort⟩
        intro hnil
        have hsplit := it.splitHostPort_join
        rw [hnil] at hsplit
        nomatch hsplit
      rw [parseUpstreamList_listed
        (listed_intercalate rfl fun w hw => ⟨(hinner w hw).1, fun c hc => ((hinner w hw).2 c hc).1⟩)
        fun w hw => ⟨(hinner w hw).1, fun c hc => ((hinner w hw).2 c hc).2⟩, List.map_map]
      refine List.map_congr_left fun it _ => ?_
      simp [withPort, it.splitHostPort_join]

/-- A name without a port, and an address in brackets with one. -/
theorem parseUpstreamList_two :
    let input := lit " dns.test,\n[2001:db8::2]:853"
    ∃ items : List Item, items.map Item.text = [lit "dns.test", lit "[2001:db8::2]:853"] ∧
      List.Forall₂ Denotes items (parseUpstreamList input) ∧
      parseUpstreamList ([','].intercalate (parseUpstreamList input)) = parseUpstreamList input := by
  intro input
  let name : Item :=
    { form := .name, host := lit "dns.test", port := none, host_ne := by decide
      host_char := List.all_iff_forall_prop.mp (by decide), colons := by decide
      port_digit := nofun }
  let address : Item :=
    { form := .bracketed, host := lit "2001:db8::2", port := some (lit "853"), host_ne := by decide
      host_char := List.all_iff_forall_prop.mp (by decide), colons := by decide
      port_digit := by
        rintro _ ⟨⟩
        exact ⟨by decide, List.all_iff_forall_prop.mp (by decide)⟩ }
  have hlisted : Listed isSeparator ([name, address].map Item.text) input := by
    have hlast : Listed isSeparator [lit "[2001:db8::2]:853"] (lit ",\n[2001:db8::2]:853") :=
      .cons (s := lit ",\n") (t := []) (List.all_iff_forall_prop.mp (by decide)) (by decide)
        (List.all_iff_forall_prop.mp (by decide)) nofun (.nil (List.forall_mem_nil _))
    refine .cons (s := lit " ") (t := lit ",\n[2001:db8::2]:853")
      (List.all_iff_forall_prop.mp (by decide)) (by decide)
      (List.all_iff_forall_prop.mp (by decide)) ?_ hlast
    rintro _ ⟨⟩
    rfl
  refine ⟨[name, address], rfl, (parseUpstreamList_iff hlisted).mpr ?_⟩
  exact List.forall_mem_cons.mpr ⟨trivial, List.forall_mem_singleton.mpr (Option.some_ne_none _)⟩

/-- Brackets without a port get a second pair. -/
theorem parseUpstreamList_brackets :
    ¬ ∀ (items : List Item) (input : Text), Listed isSeparator (items.map Item.text) input →
      List.Forall₂ Denotes items (parseUpstreamList input) ∧
        parseUpstreamList ([','].intercalate (parseUpstreamList input)) = parseUpstreamList input := by
  intro hall
  let address : Item :=
    { form := .bracketed, host := lit "2001:db8::1", port := none, host_ne := by decide
      host_char := List.all_iff_forall_prop.mp (by decide), colons := by decide
      port_digit := nofun }
  have hlisted : Listed isSeparator ([address].map Item.text) (lit "[2001:db8::1]") :=
    .cons (s := []) (t := []) (List.forall_mem_nil _) (by decide)
      (List.all_iff_forall_prop.mp (by decide)) nofun (.nil (List.forall_mem_nil _))
  have hresult : parseUpstreamList (lit "[2001:db8::1]") = [lit "[[2001:db8::1]]:53"] := by decide
  obtain ⟨hdenotes, -⟩ := hall [address] _ hlisted
  rw [hresult, List.forall₂_cons] at hdenotes
  have hrefused : splitHostPort (lit "[[2001:db8::1]]:53") = none := by decide
  rw [Denotes, hrefused] at hdenotes
  nomatch hdenotes.1

end ProxyGateway.Race
