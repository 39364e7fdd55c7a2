/-
# ProxyGateway.Lang.Ere — extended regular expressions that do not compile

In an extended regular expression of POSIX a repetition operator needs something to repeat.  GNU
`regcomp` refuses one at the start of an expression, which is at the start of the pattern, after an
opening parenthesis, after a bar and after an anchor; `^` and `$` are anchors wherever they stand.
`refused` scans a pattern for such an operator.  What else may be wrong with a pattern is not
examined, so a pattern that is not refused here need not compile.
-/
import ProxyGateway.Lang.Text

namespace ProxyGateway.Lang.Ere

/-- Where the scan is. -/
inductive Scan where
  /-- before anything that could be repeated, and after an expression -/
  | start
  | expr
  /-- after a backslash -/
  | escape
  /-- after the bracket that opens a bracket expression, within one (at its first character or
  later), and after an opening bracket within one -/
  | opened
  | bracket (first : Bool)
  | bracketed
  /-- within a class such as `[:space:]`, and after what may be its last delimiter -/
  | inClass (delim : Char)
  | classEnd (delim : Char)
  deriving DecidableEq, Repr

def isRepetition (c : Char) : Bool := c ∈ lit "*+?\x7b"

/-- After these an expression starts. -/
def opensExpr (c : Char) : Bool := c ∈ lit "^$(|"

/-- `\b`, `\<` and the like are anchors as well. -/
def escapeAnchor (c : Char) : Bool := c ∈ lit "bB<>`'"

/-- A character of a bracket expression; a bracket that closes is an ordinary character if it is the
first one. -/
def bracketStep (first : Bool) (c : Char) : Scan :=
  if c = ']' then (if first then .bracket false else .expr)
  else if c = '[' then .bracketed
  else .bracket false

/-- One character on; none where a repetition operator has nothing to repeat. -/
def step : Scan → Char → Option Scan
  | .escape, c => some (if escapeAnchor c then .start else .expr)
  | .opened, c => some (if c = '^' then .bracket true else bracketStep true c)
  | .bracket first, c => some (bracketStep first c)
  | .bracketed, c => some (if c ∈ lit ":.=" then .inClass c else bracketStep false c)
  | .inClass delim, c => some (if c = delim then .classEnd delim else .inClass delim)
  | .classEnd delim, c =>
    some (if c = ']' then .bracket false else if c = delim then .classEnd delim else .inClass delim)
  | s, c =>
    if c = '\\' then some .escape
    else if c = '[' then some .opened
    else if isRepetition c then (if s = .start then none else some .expr)
    else some (if opensExpr c then .start else .expr)

/-- **`refused`** — `regcomp` does not take the pattern. -/
def refused (pattern : Text) : Bool := (pattern.foldlM step .start).isNone

/-- A pattern that begins like a refused one is refused. -/
theorem refused_append {p : Text} (h : refused p = true) (q : Text) : refused (p ++ q) = true := by
  rw [refused, Option.isNone_iff_eq_none] at h ⊢
  rw [List.foldlM_append, h]
  rfl

/-- `$` and an opening brace after it. -/
example : refused (lit "a$\x7bb") = true := by decide

/-- An interval, and operators within brackets. -/
example : refused (lit "a\x7b2\x7d[^[:space:]*]+") = false := by decide

end ProxyGateway.Lang.Ere
