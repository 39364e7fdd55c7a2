/-
# ProxyGateway.Lang.PyValue — the values of a Python script that reads JSON and URLs

`Value` is what `json.loads` returns and what a script puts into the dictionaries it dumps.  Scripts
of this kind are full of `d.get(k) or default`: `Value.or` is that `or`, which returns its second
operand for every FALSE first operand, an empty string and a zero as much as `None`.  A method of
`str` on another value raises, so `asStr` is partial.
-/
import ProxyGateway.Lang.Text

namespace ProxyGateway.Lang

/-- A Python value as JSON knows it.  A float is `mantissa * 10 ^ exponent`. -/
inductive Value where
  | null
  | bool (b : Bool)
  | int (i : Int)
  | float (mantissa exponent : Int)
  | str (t : Text)
  | list (items : List Value)
  | dict (items : List (Text × Value))

namespace Value

/-- `bool(v)`. -/
def truthy : Value → Bool
  | null => false
  | bool b => b
  | int i => i != 0
  | float m _ => m != 0
  | str t => !t.isEmpty
  | list items => !items.isEmpty
  | dict items => !items.isEmpty

/-- `a or b`. -/
def or (a b : Value) : Value := if a.truthy then a else b

/-- The receiver of a method of `str`. -/
def asStr : Value → Option Text
  | str t => some t
  | _ => none

/-- `None` or a string. -/
def ofOption : Option Text → Value
  | some t => .str t
  | none => .null

/-- `v in ("1", "true")`. -/
def isOne : Value → Bool
  | str t => t = lit "1" || t = lit "true"
  | _ => false

/-- `items.get(k)`, where the key may be absent. -/
def get? (items : List (Text × Value)) (k : Text) : Option Value := items.lookup k

/-- `items.get(k)`, `None` when the key is absent. -/
def get (items : List (Text × Value)) (k : Text) : Value := (get? items k).getD .null

@[simp] theorem truthy_str (t : Text) : (str t).truthy = true ↔ t ≠ [] := by
  simp [truthy]

end Value

/-- The `lstrip` of one character. -/
def lstrip (c : Char) (t : Text) : Text := t.dropWhile (· == c)

/-- `t.split(sep, 1)` that must have two parts. -/
def split1 (sep : Char) (t : Text) : Option (Text × Text) :=
  if sep ∈ t then some (before sep t, after sep t) else none

/-- `t.rsplit(sep, 1)` that must have two parts. -/
def rsplit1 (sep : Char) (t : Text) : Option (Text × Text) :=
  if sep ∈ t then some ((t.rdropWhile (· != sep)).dropLast, t.rtakeWhile (· != sep)) else none

theorem split1_append {sep : Char} {t : Text} (h : sep ∉ t) (u : Text) :
    split1 sep (t ++ sep :: u) = some (t, u) := by
  rw [split1, if_pos (by simp), before_append_cons h, after_append_cons h]

theorem eq_of_split1 {sep : Char} {t m p : Text} (h : split1 sep t = some (m, p)) :
    t = m ++ sep :: p := by
  unfold split1 at h
  split at h
  · next hmem =>
    obtain ⟨u, hu⟩ := (eq_before_or sep t).resolve_left fun heq => not_mem_before (heq ▸ hmem)
    have hafter : after sep t = u := by
      rw [hu]
      exact after_append_cons not_mem_before u
    obtain ⟨rfl, rfl⟩ := Prod.mk.inj (Option.some.inj h)
    rw [hafter]
    exact hu
  · nomatch h

/-- What stands behind the last `sep`. -/
theorem rtakeWhile_append_cons {sep : Char} {u : Text} (h : sep ∉ u) (t : Text) :
    (t ++ sep :: u).rtakeWhile (· != sep) = u := by
  have hpos : ∀ c ∈ u.reverse, (c != sep) = true := by
    intro c hc
    simpa using fun heq : c = sep => h (heq ▸ List.mem_reverse.mp hc)
  rw [List.rtakeWhile, List.reverse_append, List.reverse_cons, List.append_assoc,
    List.takeWhile_append_of_pos hpos]
  simp

theorem not_mem_rtakeWhile (sep : Char) (t : Text) : sep ∉ t.rtakeWhile (· != sep) := by
  intro h
  have hne := List.mem_rtakeWhile_imp h
  simp at hne

theorem rsplit1_append {sep : Char} {u : Text} (h : sep ∉ u) (t : Text) :
    rsplit1 sep (t ++ sep :: u) = some (t, u) := by
  have hpos : ∀ c ∈ u.reverse, (c != sep) = true := by
    intro c hc
    simpa using fun heq : c = sep => h (heq ▸ List.mem_reverse.mp hc)
  have hdrop : (t ++ sep :: u).rdropWhile (· != sep) = t ++ [sep] := by
    rw [List.rdropWhile, List.reverse_append, List.reverse_cons, List.append_assoc,
      List.dropWhile_append_of_pos hpos]
    simp
  have htake : (t ++ sep :: u).rtakeWhile (· != sep) = u := rtakeWhile_append_cons h t
  rw [rsplit1, if_pos (by simp), hdrop, htake, List.dropLast_concat]

end ProxyGateway.Lang
