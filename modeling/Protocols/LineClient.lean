import Protocols.CrlfLines
import Protocols.StepRelation

namespace Protocols

open Relation

variable {σ : Type}

/-- A client that asks one command at a time. While it runs it waits for an answer, which ends with
the first line that it takes for the last one. It waits for another one only when it has sent a
command. -/
structure LineClient (σ : Type) where
  awaits : σ → Option (Text → Bool)
  hears : σ → List Text → σ × Option Text
  asks : ∀ s lines, (hears s lines).2 = none → awaits (hears s lines).1 = none

/-- A client and its server: the pieces of the server's stream that the client has not read, the
commands, and the answers as the client has read them, the greeting first. -/
structure Conversation (σ : Type) where
  client : σ
  unread : List Text
  said : List Text := []
  heard : List (List Text) := []

namespace Conversation

/-- The client reads an answer, if the stream has one for it, and goes on. What the server sends for
a command may depend on all that came before, and comes in any pieces. -/
def next (k : LineClient σ) (server : List Text → List Text) (c : Conversation σ) :
    Option (Conversation σ) :=
  (k.awaits c.client).bind fun ends =>
    (readThrough ends c.unread).map fun (lines, unread) =>
      match k.hears c.client lines with
      | (client, some command) =>
        ⟨client, unread ++ server (c.said ++ [command]), c.said ++ [command], c.heard ++ [lines]⟩
      | (client, none) => ⟨client, unread, c.said, c.heard ++ [lines]⟩

/-- The conversation goes from one answer to the next one. -/
def Talks (k : LineClient σ) (server : List Text → List Text) (c d : Conversation σ) : Prop :=
  c.next k server = some d

/-- The server has sent its greeting. -/
def opening (s : σ) (server : List Text → List Text) : Conversation σ where
  client := s
  unread := server []

/-- The server sends its replies whole, each cut into pieces in some way. -/
structure Serves (server reply : List Text → List Text) : Prop where
  pieces : ∀ said, [] ∉ server said
  whole : ∀ said, (server said).flatten = unlines (reply said)

/-- Every answer that the client has read is the server's reply to the commands up to then, and when
it waits for one, the reply to its last command is all that is there to read. -/
structure InStep (k : LineClient σ) (server reply : List Text → List Text)
    (c : Conversation σ) : Prop where
  paired : ∀ n, n < c.heard.length → c.heard[n]? = some (reply (c.said.take n))
  asked : c.heard.length ≤ c.said.length + 1
  waiting : k.awaits c.client ≠ none → c.heard.length = c.said.length ∧ c.unread = server c.said

variable {k : LineClient σ} {server reply : List Text → List Text} {c d : Conversation σ}
  {ends : Text → Bool}

theorem talks_unique : Relator.RightUnique (Talks k server) := by
  intro c d e hd he
  rw [Talks] at hd he
  rw [hd] at he
  exact Option.some.inj he

/-- What one step of a conversation does. -/
theorem talks_cases (h : Talks k server c d) :
    ∃ ends lines unread, k.awaits c.client = some ends ∧
      readThrough ends c.unread = some (lines, unread) ∧ d.client = (k.hears c.client lines).1 ∧
      d.said = c.said ++ (k.hears c.client lines).2.toList ∧ d.heard = c.heard ++ [lines] := by
  obtain ⟨ends, hw, h⟩ := Option.bind_eq_some_iff.mp h
  obtain ⟨⟨lines, unread⟩, hread, he⟩ := Option.map_eq_some_iff.mp h
  refine ⟨ends, lines, unread, hw, hread, ?_⟩
  dsimp only at he
  cases hh : k.hears c.client lines with
  | mk client command =>
    rw [hh] at he
    cases command with
    | none =>
      cases he
      exact ⟨rfl, (List.append_nil _).symm, rfl⟩
    | some command =>
      cases he
      exact ⟨rfl, rfl, rfl⟩

/-- A client that waits for an answer and can read one does so. -/
theorem talks_of_read {lines unread : List Text} (hw : k.awaits c.client = some ends)
    (hread : readThrough ends c.unread = some (lines, unread)) :
    ∃ d, Talks k server c d ∧ d.client = (k.hears c.client lines).1 ∧
      d.said = c.said ++ (k.hears c.client lines).2.toList ∧ d.heard = c.heard ++ [lines] ∧
      ((k.hears c.client lines).2 ≠ none → d.unread = unread ++ server d.said) := by
  rcases hh : k.hears c.client lines with ⟨client, _ | command⟩
  · exact ⟨⟨client, unread, c.said, c.heard ++ [lines]⟩,
      by simp [Talks, Conversation.next, hw, hread, hh], rfl, by simp, rfl, fun hne => absurd rfl hne⟩
  · exact ⟨⟨client, unread ++ server (c.said ++ [command]), c.said ++ [command], c.heard ++ [lines]⟩,
      by simp [Talks, Conversation.next, hw, hread, hh], rfl, rfl, rfl, fun _ => rfl⟩

/-- A client that comes to some kind of state only by an answer that does not fit, in a kind of state in
which it waits for one, never comes to it if and only if all these answers fit. -/
theorem avoids_iff {s : σ} {P Q : σ → Prop} {fits : List Text → Prop} (hs : ¬ P s)
    (waits : ∀ s, Q s → k.awaits s = some ends)
    (comes : ∀ s lines, k.awaits s ≠ none → (P (k.hears s lines).1 ↔ Q s ∧ ¬ fits lines)) :
    (∀ d, ReflTransGen (Talks k server) (opening s server) d → ¬ P d.client) ↔
    ∀ d, ReflTransGen (Talks k server) (opening s server) d → Q d.client →
      ∀ lines unread, readThrough ends d.unread = some (lines, unread) → fits lines := by
  constructor
  · intro h d run hq lines unread hread
    have hw := waits _ hq
    obtain ⟨e, htalks, hclient, _⟩ := @talks_of_read _ k server d _ _ _ hw hread
    by_contra hunfit
    refine h e (run.tail htalks) ?_
    rw [hclient, comes _ _ (by simp [hw])]
    exact ⟨hq, hunfit⟩
  · intro h d run
    cases run with
    | refl => exact hs
    | tail run htalks =>
      obtain ⟨ends', lines, unread, hw, hread, hclient, _⟩ := talks_cases htalks
      rw [hclient, comes _ _ (by simp [hw])]
      rintro ⟨hq, hunfit⟩
      cases hw.symm.trans (waits _ hq)
      exact hunfit (h _ run hq lines unread hread)

theorem said_grows (h : ReflTransGen (Talks k server) c d) : c.said <+: d.said := by
  induction h with
  | refl => exact List.prefix_refl _
  | tail _ hs ih =>
    obtain ⟨_, _, _, _, _, _, hsaid, _⟩ := talks_cases hs
    rw [hsaid]
    exact ih.trans (List.prefix_append _ _)

/-- What holds of the client and its commands whatever the client hears. -/
theorem talks_invariant {s : σ} {I : σ → List Text → Prop} (start : I s [])
    (goes : ∀ s said lines, I s said → k.awaits s ≠ none →
      I (k.hears s lines).1 (said ++ (k.hears s lines).2.toList))
    (run : ReflTransGen (Talks k server) (opening s server) c) : I c.client c.said := by
  refine reaches_invariant (P := fun c => I c.client c.said) run start fun c d hc h => ?_
  obtain ⟨ends, lines, _, hw, _, hclient, hsaid, _⟩ := talks_cases h
  rw [hclient, hsaid]
  exact goes _ _ _ hc (by simp [hw])

/-- The replies as they are, each in one piece. -/
def inOnePiece (reply : List Text → List Text) (said : List Text) : List Text :=
  [unlines (reply said)]

theorem inOnePiece_serves (h : ∀ said, reply said ≠ []) : Serves (inOnePiece reply) reply where
  pieces said := nil_notMem_whole (h said)
  whole _ := List.flatten_singleton

theorem opening_in_step (s : σ) : InStep k server reply (opening s server) where
  paired _ hn := absurd hn (Nat.not_lt_zero _)
  asked := Nat.zero_le _
  waiting _ := ⟨rfl, rfl⟩

/-- A client in step that takes the server's reply for an answer hears it, and stays in step. -/
theorem InStep.next (h : InStep k server reply c) (hs : Serves server reply)
    (hw : k.awaits c.client = some ends) (ha : IsAnswer ends (reply c.said)) :
    ∃ d, Talks k server c d ∧ InStep k server reply d ∧
      d.client = (k.hears c.client (reply c.said)).1 ∧
      d.said = c.said ++ (k.hears c.client (reply c.said)).2.toList ∧
      d.heard = c.heard ++ [reply c.said] := by
  obtain ⟨hlen, hunread⟩ := h.waiting (by simp [hw])
  have hread : readThrough ends c.unread = some (reply c.said, []) := by
    rw [hunread, ← List.append_nil (server c.said)]
    exact readThrough_whole ha (hs.pieces _) (hs.whole _) []
  obtain ⟨d, htalks, hclient, hsaid, hheard, hunread'⟩ := talks_of_read hw hread
  refine ⟨d, htalks, ⟨fun n hn => ?_, ?_, fun hwaits => ?_⟩, hclient, hsaid, hheard⟩
  · rw [hheard, List.length_append, List.length_singleton] at hn
    rw [hheard, hsaid, List.take_append_of_le_length (by omega)]
    by_cases hlast : n = c.heard.length
    · rw [hlast, List.getElem?_concat_length, hlen, List.take_length]
    · rw [List.getElem?_append_left (by omega)]
      exact h.paired n (by omega)
  · simp [hheard, hsaid, hlen]
  · -- a client that waits has sent a command
    have hasks : (k.hears c.client (reply c.said)).2 ≠ none :=
      fun hnone => hwaits (by rw [hclient, k.asks _ _ hnone])
    obtain ⟨command, hcommand⟩ := Option.ne_none_iff_exists'.mp hasks
    refine ⟨?_, by rw [hunread' hasks, List.nil_append]⟩
    simp [hheard, hsaid, hlen, hcommand]

/-- The client is in step in every state that it comes to, and never waits in vain. -/
def StaysInStep (k : LineClient σ) (server reply : List Text → List Text) (s : σ) : Prop :=
  ∀ c, ReflTransGen (Talks k server) (opening s server) c →
    InStep k server reply c ∧ (k.awaits c.client ≠ none → ∃ d, Talks k server c d)

/-- A client stays in step if and only if it takes every reply that it waits for for an answer. -/
theorem staysInStep_iff {s : σ} (hs : Serves server reply) : StaysInStep k server reply s ↔
    ∀ c, ReflTransGen (Talks k server) (opening s server) c →
      ∀ ends, k.awaits c.client = some ends → IsAnswer ends (reply c.said) := by
  constructor
  · intro h c run ends hw
    obtain ⟨hc, hgoes⟩ := h c run
    obtain ⟨hlen, _⟩ := hc.waiting (by simp [hw])
    obtain ⟨d, hd⟩ := hgoes (by simp [hw])
    obtain ⟨ends', lines, _, hw', hread, _, hsaid, hheard⟩ := talks_cases hd
    cases hw.symm.trans hw'
    -- what the client reads next is paired with its last command
    have hpaired := (h d (run.tail hd)).1.paired c.heard.length (by simp [hheard])
    rw [hheard, hsaid, List.getElem?_concat_length, hlen, List.take_left] at hpaired
    rw [← Option.some.inj hpaired]
    exact (readThrough_some hread).1
  · intro h c run
    have hc : InStep k server reply c := by
      induction run with
      | refl => exact opening_in_step s
      | @tail b c run hbc ih =>
        obtain ⟨ends, _, _, hw, _⟩ := talks_cases hbc
        obtain ⟨d, hd, hstep, _⟩ := ih.next hs hw (h b run ends hw)
        rwa [talks_unique hbc hd]
    refine ⟨hc, fun hne => ?_⟩
    obtain ⟨ends, hw⟩ := Option.ne_none_iff_exists'.mp hne
    obtain ⟨d, hd, _⟩ := hc.next hs hw (h c run ends hw)
    exact ⟨d, hd⟩

end Conversation

end Protocols
