/-
# ProxyGateway.Lang.HostPort — host and port in one text, as Go's `net` reads and writes them

`JoinHostPort` puts a host with a colon in it into brackets; `SplitHostPort` takes the text apart at its
last colon, and the brackets have to stand exactly around what is before it.  On hosts without
brackets the one undoes the other (`splitHostPort_joinHostPort`).  A text that fails may fail for
several reasons, and the caller is told only that it did.

`Listed` is a list of words in one text with separators between them, which `strings.FieldsFunc` reads
back.
-/
import ProxyGateway.Lang.Lines
import ProxyGateway.Lang.PyValue

namespace ProxyGateway.Lang

/-! ## Fields -/

/-- `unicode.IsSpace` -/
def goSpace (c : Char) : Bool :=
  let n := c.toNat
  (9 ≤ n && n ≤ 13) || n == 32 || n == 0x85 || n == 0xa0 || n == 0x1680
    || (0x2000 ≤ n && n ≤ 0x200a) || n == 0x2028 || n == 0x2029 || n == 0x202f || n == 0x205f
    || n == 0x3000

/-- `strings.TrimSpace` -/
def trimSpace (t : Text) : Text := trimBy goSpace t

theorem trimSpace_of_noSpace {t : Text} (h : ∀ c ∈ t, goSpace c = false) : trimSpace t = t := by
  have hleft : t.dropWhile goSpace = t := List.dropWhile_eq_self_iff.mpr fun hlen hspace => by
    rw [h _ (List.getElem_mem hlen)] at hspace
    nomatch hspace
  rw [trimSpace, trimBy, hleft, List.rdropWhile_eq_self_iff]
  intro hne hspace
  rw [h _ (List.getLast_mem hne)] at hspace
  nomatch hspace

/-- `strings.FieldsFunc` -/
def fieldsFunc (sep : Char → Bool) (t : Text) : List Text := (t.splitOnP sep).filter (· ≠ [])

/-- **`Listed sep ws t`** — `t` is the words `ws` with separators between them, and perhaps around. -/
inductive Listed (sep : Char → Bool) : List Text → Text → Prop where
  | nil {s : Text} (hs : ∀ c ∈ s, sep c = true) : Listed sep [] s
  | cons {s w t : Text} {ws : List Text} (hs : ∀ c ∈ s, sep c = true) (hne : w ≠ [])
      (hw : ∀ c ∈ w, sep c = false) (ht : ∀ c ∈ t.head?, sep c = true) (h : Listed sep ws t) :
      Listed sep (w :: ws) (s ++ (w ++ t))

section Fields

variable {sep : Char → Bool}

theorem fieldsFunc_separators {s : Text} (hs : ∀ c ∈ s, sep c = true) (t : Text) :
    fieldsFunc sep (s ++ t) = fieldsFunc sep t := by
  induction s with
  | nil => rfl
  | cons c s ih =>
    obtain ⟨hc, hs⟩ := List.forall_mem_cons.mp hs
    have hsplit : (c :: (s ++ t)).splitOnP sep = [] :: (s ++ t).splitOnP sep :=
      List.splitOnP_append_cons_of_forall_mem (List.forall_mem_nil _) c hc (s ++ t)
    rw [List.cons_append, fieldsFunc, hsplit, List.filter_cons_of_neg (by simp)]
    exact ih hs

theorem fieldsFunc_word {w t : Text} (hne : w ≠ []) (hw : ∀ c ∈ w, sep c = false)
    (ht : ∀ c ∈ t.head?, sep c = true) : fieldsFunc sep (w ++ t) = w :: fieldsFunc sep t := by
  cases t with
  | nil =>
    rw [List.append_nil, fieldsFunc, List.splitOnP_eq_singleton hw,
      List.filter_cons_of_pos (by simpa using hne)]
    rfl
  | cons c t =>
    have hc := ht c rfl
    have hskip : fieldsFunc sep (c :: t) = fieldsFunc sep t :=
      fieldsFunc_separators (s := [c]) (by simpa using hc) t
    rw [hskip, fieldsFunc, List.splitOnP_append_cons_of_forall_mem hw c hc t,
      List.filter_cons_of_pos (by simpa using hne)]
    rfl

/-- **`fieldsFunc_listed`** — the words are read back. -/
theorem fieldsFunc_listed {ws : List Text} {t : Text} (h : Listed sep ws t) :
    fieldsFunc sep t = ws := by
  induction h with
  | @nil s hs =>
    have hall := fieldsFunc_separators hs []
    rw [List.append_nil] at hall
    rw [hall]
    rfl
  | cons hs hne hw ht _ ih => rw [fieldsFunc_separators hs, fieldsFunc_word hne hw ht, ih]

/-- Words joined by one separator. -/
theorem listed_intercalate {c : Char} (hc : sep c = true) {ws : List Text}
    (h : ∀ w ∈ ws, w ≠ [] ∧ ∀ d ∈ w, sep d = false) : Listed sep ws ([c].intercalate ws) := by
  -- what follows a word begins with the separator, so the induction is about a text with one in front
  have hrest : ∀ {ws : List Text}, (∀ w ∈ ws, w ≠ [] ∧ ∀ d ∈ w, sep d = false) →
      Listed sep ws (ws.flatMap (c :: ·)) := by
    intro ws h
    induction ws with
    | nil => exact .nil (List.forall_mem_nil _)
    | cons w ws ih =>
      obtain ⟨⟨hne, hw⟩, h⟩ := List.forall_mem_cons.mp h
      refine .cons (s := [c]) (by simpa using hc) hne hw ?_ (ih h)
      cases ws with
      | nil => exact fun d hd => nomatch hd
      | cons v ws => simpa using hc
  cases ws with
  | nil => exact .nil (List.forall_mem_nil _)
  | cons w ws =>
    obtain ⟨⟨hne, hw⟩, h⟩ := List.forall_mem_cons.mp h
    have hjoin : ∀ (w : Text) (ws : List Text),
        [c].intercalate (w :: ws) = w ++ ws.flatMap (c :: ·) := by
      intro w ws
      induction ws generalizing w with
      | nil => simp
      | cons v ws ih => rw [List.intercalate_cons_cons, ih, List.flatMap_cons]; simp
    rw [hjoin]
    refine .cons (s := []) (List.forall_mem_nil _) hne hw ?_ (hrest h)
    cases ws with
    | nil => exact fun d hd => nomatch hd
    | cons v ws => simpa using hc

end Fields

/-! ## Host and port -/

/-- `net.SplitHostPort`; none for each of its errors. -/
def splitHostPort (hostport : Text) : Option (Text × Text) :=
  match rsplit1 ':' hostport with
  | none => none
  | some (front, port) =>
    if hostport.head? = some '[' then
      let close := (before ']' hostport).length
      -- the first `]` has to stand just before the last `:`
      if ']' ∉ hostport ∨ close + 1 ≠ front.length then none
      else if '[' ∈ hostport.drop 1 ∨ ']' ∈ hostport.drop (close + 1) then none
      else some ((hostport.take close).drop 1, port)
    else if ':' ∈ front then none
    else if '[' ∈ hostport ∨ ']' ∈ hostport then none
    else some (front, port)

/-- `net.JoinHostPort` -/
def joinHostPort (host port : Text) : Text :=
  if ':' ∈ host then '[' :: (host ++ ']' :: ':' :: port) else host ++ ':' :: port

/-- No brackets, and no colon. -/
def PortText (port : Text) : Prop := ':' ∉ port ∧ '[' ∉ port ∧ ']' ∉ port

theorem splitHostPort_bracketed {host port : Text} (hopen : '[' ∉ host) (hclose : ']' ∉ host)
    (hport : PortText port) :
    splitHostPort ('[' :: (host ++ ']' :: ':' :: port)) = some (host, port) := by
  obtain ⟨hcolon, hportOpen, hportClose⟩ := hport
  have hlast : rsplit1 ':' ('[' :: (host ++ ']' :: ':' :: port)) =
      some ('[' :: (host ++ [']']), port) := by
    have happend := rsplit1_append hcolon ('[' :: (host ++ [']']))
    simpa using happend
  have hopened : ']' ∉ '[' :: host := by simpa using hclose
  have hbefore : before ']' ('[' :: (host ++ ']' :: ':' :: port)) = '[' :: host :=
    before_append_cons hopened (':' :: port)
  have htake : ('[' :: (host ++ ']' :: ':' :: port)).take (host.length + 1) = '[' :: host := by simp
  have hdrop : ('[' :: (host ++ ']' :: ':' :: port)).drop (host.length + 1 + 1) = ':' :: port := by
    simp [List.drop_append]
  simp only [splitHostPort, hlast, hbefore, List.length_cons, htake, hdrop]
  rw [if_pos List.head?_cons, if_neg (by simp), if_neg (by simp [hopen, hportOpen, hportClose])]
  rfl

/-- **`splitHostPort_joinHostPort`** -/
theorem splitHostPort_joinHostPort {host port : Text} (hopen : '[' ∉ host) (hclose : ']' ∉ host)
    (hport : PortText port) : splitHostPort (joinHostPort host port) = some (host, port) := by
  rw [joinHostPort]
  split
  · exact splitHostPort_bracketed hopen hclose hport
  · next hnone =>
    obtain ⟨hcolon, hportOpen, hportClose⟩ := hport
    have hhead : (host ++ ':' :: port).head? ≠ some '[' := by
      cases host with
      | nil => simp
      | cons c host => simpa using fun heq : c = '[' => hopen (heq ▸ List.mem_cons_self ..)
    simp only [splitHostPort, rsplit1_append hcolon]
    rw [if_neg hhead, if_neg hnone, if_neg (by simp [hopen, hclose, hportOpen, hportClose])]

/-- Without a colon there is no port. -/
theorem splitHostPort_of_not_mem {t : Text} (h : ':' ∉ t) : splitHostPort t = none := by
  rw [splitHostPort, rsplit1, if_neg h]

/-- Two colons and no bracket in front: too many. -/
theorem splitHostPort_of_colons {t : Text} (hhead : t.head? ≠ some '[') (h : 2 ≤ t.count ':') :
    splitHostPort t = none := by
  have hmem : ':' ∈ t := List.count_pos_iff.mp (by omega)
  obtain ⟨front, port, rfl, hport⟩ := exists_append_last hmem
  have hfront : ':' ∈ front := by
    have hnone : port.count ':' = 0 := List.count_eq_zero.mpr hport
    rw [List.count_append, List.count_cons_self, hnone] at h
    exact List.count_pos_iff.mp (by omega)
  simp only [splitHostPort, rsplit1_append hport]
  rw [if_neg hhead, if_pos hfront]

/-- Brackets with nothing behind them have no port either. -/
theorem splitHostPort_brackets {host : Text} (hclose : ']' ∉ host) :
    splitHostPort ('[' :: (host ++ [']'])) = none := by
  by_cases hmem : ':' ∈ host
  · obtain ⟨front, port, rfl, hport⟩ := exists_append_last hmem
    have hlast : rsplit1 ':' ('[' :: (front ++ ':' :: port ++ [']'])) =
        some ('[' :: front, port ++ [']']) := by
      have hclosed : ':' ∉ port ++ [']'] := by simpa using hport
      have happend := rsplit1_append hclosed ('[' :: front)
      simpa using happend
    have hbefore : before ']' ('[' :: (front ++ ':' :: port ++ [']'])) =
        '[' :: (front ++ ':' :: port) := by
      have hopened : ']' ∉ '[' :: (front ++ ':' :: port) := by simpa using hclose
      exact before_append_cons hopened []
    -- the last colon stands inside the brackets
    have hlength : ('[' :: (front ++ ':' :: port)).length + 1 ≠ ('[' :: front).length := by
      simp only [List.length_cons, List.length_append]
      omega
    simp only [splitHostPort, hlast, hbefore]
    rw [if_pos List.head?_cons, if_pos (.inr hlength)]
  · exact splitHostPort_of_not_mem (by simpa using hmem)

/-- A second closing bracket does not stand just before the last colon. -/
theorem splitHostPort_closed_twice {host port : Text} (hclose : ']' ∉ host) (hport : ':' ∉ port) :
    splitHostPort ('[' :: (host ++ ']' :: ']' :: ':' :: port)) = none := by
  have hlast : rsplit1 ':' ('[' :: (host ++ ']' :: ']' :: ':' :: port)) =
      some ('[' :: (host ++ [']', ']']), port) := by
    have happend := rsplit1_append hport ('[' :: (host ++ [']', ']']))
    simpa using happend
  have hopened : ']' ∉ '[' :: host := by simpa using hclose
  have hbefore : before ']' ('[' :: (host ++ ']' :: ']' :: ':' :: port)) = '[' :: host :=
    before_append_cons hopened (']' :: ':' :: port)
  have hlength : ('[' :: host).length + 1 ≠ ('[' :: (host ++ [']', ']'])).length := by
    simp only [List.length_cons, List.length_append]
    omega
  simp only [splitHostPort, hlast, hbefore]
  rw [if_pos List.head?_cons, if_pos (.inr hlength)]

end ProxyGateway.Lang
