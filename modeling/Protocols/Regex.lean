import Protocols.Texts
import Mathlib.Data.List.Infix

namespace Protocols

inductive Regex
  | empty
  | set (member : Char → Bool)
  | seq (first second : Regex)
  | alt (first second : Regex)
  | star (body : Regex)
  | group (n : Nat) (body : Regex)
  | bol
  | eol

namespace Regex

/-- The characters of a literal, without regard to case. -/
def lit (str : String) : Regex :=
  str.toList.foldr (fun c r => seq (set fun x => x.toLower == c.toLower) r) empty

/-- A range of characters, without regard to case. -/
def range (first last : Char) : Regex :=
  set fun x => (first ≤ x.toLower && x.toLower ≤ last) || (first ≤ x.toUpper && x.toUpper ≤ last)

def plus (r : Regex) : Regex := seq r (star r)

def opt (r : Regex) : Regex := alt r empty

/-- `[chars]` -/
def oneOf (chars : String) : Regex := set fun c => chars.toList.contains c

/-- `[a-z0-9]` -/
def alnum : Regex := alt (range 'a' 'z') (range '0' '9')

/-- `\w` -/
def word : Regex := alt alnum (lit "_")

/-- `\S` -/
def nonSpace : Regex := set fun c => !c.isWhitespace && c != '\x0b' && c != '\x0c'

/-- `\s` -/
def space : Regex := set fun c => c.isWhitespace || c == '\x0b' || c == '\x0c'

/-- `.` stands for everything but the line terminators. -/
def any : Regex := set fun c => c != '\n' && c != '\r'

def all (rs : List Regex) : Regex := rs.foldr seq empty

def groups : Regex → Nat
  | empty | set _ | bol | eol => 0
  | seq a b | alt a b => a.groups + b.groups
  | star r => r.groups
  | group _ r => r.groups + 1

end Regex

/-- What the groups have captured, the last capture of a group first. -/
abbrev Captures := List (Nat × Text)

/-- A greedy repetition, whose every round takes something. -/
def repeatGreedily (step : Text → List (Text × Captures)) : Nat → Text → List (Text × Captures)
  | 0, s => [(s, [])]
  | n + 1, s =>
    (((step s).filter fun p => p.1.length < s.length).flatMap fun (rest, caps) =>
      (repeatGreedily step n rest).map fun (rest', caps') => (rest', caps' ++ caps)) ++ [(s, [])]

/-- Every way to match a beginning of what remains of a text of the given length, with the rest and
the captures, in the order in which a backtracking matcher tries them. -/
def Regex.run (length : Nat) : Regex → Text → List (Text × Captures)
  | empty, s => [(s, [])]
  | set member, s =>
    match s with
    | c :: rest => if member c then [(rest, [])] else []
    | [] => []
  | seq a b, s => (a.run length s).flatMap fun (rest, caps) =>
      (b.run length rest).map fun (rest', caps') => (rest', caps' ++ caps)
  | alt a b, s => a.run length s ++ b.run length s
  | star r, s => repeatGreedily (r.run length) s.length s
  | group n r, s => (r.run length s).map fun (rest, caps) =>
      (rest, (n, s.take (s.length - rest.length)) :: caps)
  | bol, s => if s.length = length then [(s, [])] else []
  | eol, s => if s = [] then [(s, [])] else []

/-- The match and its groups, a group that takes no part being empty. -/
def submatches (r : Regex) (matched : Text) (caps : Captures) : List Text :=
  matched :: (List.range r.groups).map fun n => (caps.lookup (n + 1)).getD []

/-- `regex_match`: the first way to match the whole text. -/
def regexMatch (r : Regex) (s : Text) : Option (List Text) :=
  ((r.run s.length s).find? fun p => p.1.isEmpty).map fun p => submatches r s p.2

/-- `regex_search`: the first way to match from the leftmost place where there is one. -/
def regexSearch (r : Regex) (s : Text) : Option (List Text) :=
  s.tails.findSome? fun t => (r.run s.length t).head?.map fun p =>
    submatches r (t.take (t.length - p.1.length)) p.2

/-- `arguments.str(n)` -/
def str (arguments : List Text) (n : Nat) : Text := (arguments[n]?).getD []

end Protocols
