import Protocols.Interleaving
import Protocols.MailStorage
import Protocols.Regex

namespace Protocols

/-- What a session hears and says. A line that tells of the mails of a maildrop is put out together
with the user whose maildrop it is. -/
inductive SessionEvent
  | heard (line : Text)
  | heardBody (lines : List Text)
  | sent (line : Text)
  | listed (user line : Text)
  deriving DecidableEq

/-- What resumes a suspended session: its start, the end of a write, a request line, the lines of a
mail, or a connection that fails. -/
inductive MailWake
  | scheduled
  | written
  | line (request : Text)
  | body (lines : List Text)
  | dropped
  deriving DecidableEq

/-- The command of the first pattern that matches, with the groups of the match. -/
def firstMatch {κ : Type} (unknown : κ) (parser : List (Regex × κ)) (request : Text) :
    κ × List Text :=
  (parser.findSome? fun (regex, command) =>
    (regexMatch regex request).map fun arguments => (command, arguments)).getD (unknown, [])

theorem firstMatch_none {κ : Type} {unknown : κ} {parser : List (Regex × κ)} {request : Text}
    (h : ∀ p ∈ parser, regexMatch p.1 request = none) :
    firstMatch unknown parser request = (unknown, []) := by
  rw [firstMatch, List.findSome?_eq_none_iff.mpr fun p hp => Option.map_eq_none_iff.mpr (h p hp)]
  rfl

/-- The command is the one of a pattern that matches, if there is one. -/
theorem firstMatch_cases {κ : Type} (unknown : κ) (parser : List (Regex × κ)) (request : Text) :
    (∃ p ∈ parser, ∃ arguments, regexMatch p.1 request = some arguments ∧
      firstMatch unknown parser request = (p.2, arguments)) ∨
    (∀ p ∈ parser, regexMatch p.1 request = none) := by
  by_cases h : ∀ p ∈ parser, regexMatch p.1 request = none
  · exact Or.inr h
  · left
    cases hfind : parser.findSome? fun (regex, command) =>
        (regexMatch regex request).map fun arguments => (command, arguments) with
    | none =>
      refine absurd (fun p hp => ?_) h
      exact Option.map_eq_none_iff.mp (List.findSome?_eq_none_iff.mp hfind p hp)
    | some r =>
      obtain ⟨p, hp, hr⟩ := List.exists_of_findSome?_eq_some hfind
      obtain ⟨arguments, hmatch, rfl⟩ := Option.map_eq_some_iff.mp hr
      exact ⟨p, hp, arguments, hmatch, by rw [firstMatch, hfind]; rfl⟩

/-- The first pattern that matches decides. -/
theorem firstMatch_first {κ : Type} {unknown command : κ} {first last : List (Regex × κ)}
    {regex : Regex} {request : Text} {arguments : List Text}
    (hfirst : ∀ p ∈ first, regexMatch p.1 request = none)
    (h : regexMatch regex request = some arguments) :
    firstMatch unknown (first ++ (regex, command) :: last) request = (command, arguments) := by
  have hnone : (first.findSome? fun (regex, command) =>
      (regexMatch regex request).map fun arguments => (command, arguments)) = none :=
    List.findSome?_eq_none_iff.mpr fun p hp => Option.map_eq_none_iff.mpr (hfirst p hp)
  rw [firstMatch, List.findSome?_append, hnone, Option.none_or, List.findSome?_cons]
  simp only [h, Option.map_some, Option.getD_some]

theorem firstMatch_append {κ : Type} {unknown : κ} (first last : List (Regex × κ))
    {request : Text} {p : Regex × κ} (hp : p ∈ first)
    (h : (regexMatch p.1 request).isSome = true) :
    firstMatch unknown (first ++ last) request = firstMatch unknown first request := by
  have hsome : (first.findSome? fun (regex, command) =>
      (regexMatch regex request).map fun arguments => (command, arguments)).isSome = true := by
    rw [List.findSome?_isSome_iff]
    exact ⟨p, hp, by simpa using h⟩
  obtain ⟨r, hr⟩ := Option.isSome_iff_exists.mp hsome
  rw [firstMatch, firstMatch, List.findSome?_append, hr]
  rfl

/-- At most one line is said. -/
def SaysOne (out : List SessionEvent) : Prop := out = [] ∨ ∃ line, out = [.sent line]

theorem saysOne_sent (line : Text) : SaysOne [.sent line] := Or.inr ⟨line, rfl⟩

theorem saysOne_unlisted {out : List SessionEvent} (h : SaysOne out) (user line : Text) :
    SessionEvent.listed user line ∉ out := by
  rcases h with rfl | ⟨_, rfl⟩
  · simp
  · simp

end Protocols
