import Protocols.LineClient
import Protocols.MailServer

namespace Protocols

open Relation

variable {σ : Type}

/-- The lines that a session sends to its client. -/
def saidLines (out : List SessionEvent) : List Text :=
  out.filterMap fun
    | .sent line | .listed _ line => some line
    | .heard _ | .heardBody _ => none

/-- A client and the mail server: of their connection, the pieces that one side has sent and the other
side has not read. -/
structure Pairing (σ : Type) where
  config : MailConfig
  client : σ
  toServer : List Text := []
  toClient : List Text := []

/-- The client and the session that it talks to go on, and so do all the other sessions. What is sent
may be cut and joined in any way until it is read. -/
inductive PairStep (k : LineClient σ) (n : Nat) : Pairing σ → Pairing σ → Prop
  | others {p config} : StepWith mailServer n (fun _ => False) p.config config →
      PairStep k n p { p with config }
  | session {p wake config out pieces} : wake = .scheduled ∨ wake = .written ∨ wake = .dropped →
      p.config.resumed mailServer n wake = some config → p.config.Free mailServer n →
      config.logOf n = p.config.logOf n ++ out →
      pieces.flatten = p.toClient.flatten ++ unlines (saidLines out) →
      PairStep k n p { p with config, toClient := pieces }
  | request {p line unread config out pieces} : readData p.toServer = some (line, unread) →
      p.config.resumed mailServer n (.line line) = some config → p.config.Free mailServer n →
      config.logOf n = p.config.logOf n ++ out →
      pieces.flatten = p.toClient.flatten ++ unlines (saidLines out) →
      PairStep k n p { p with config, toServer := unread, toClient := pieces }
  | client {p ends lines unread pieces} : k.awaits p.client = some ends →
      readThrough ends p.toClient = some (lines, unread) →
      pieces.flatten = p.toServer.flatten ++ unlines (k.hears p.client lines).2.toList →
      PairStep k n p
        { p with client := (k.hears p.client lines).1, toServer := pieces, toClient := unread }

/-- One move of the client or its session, with what it sends in one piece. -/
inductive PairMove
  | session (wake : MailWake)
  | request
  | client

/-- The session has gone on, and what it has said since is on its way. -/
def Pairing.answered (p : Pairing σ) (n : Nat) (config : MailConfig) (toServer : List Text) :
    Pairing σ :=
  { p with
    config
    toServer
    toClient := p.toClient ++
      [unlines (saidLines ((config.logOf n).drop (p.config.logOf n).length))] }

def Pairing.move (k : LineClient σ) (n : Nat) (p : Pairing σ) : PairMove → Option (Pairing σ)
  | .session wake =>
    if wake = .scheduled ∨ wake = .written ∨ wake = .dropped then
      (p.config.resumed mailServer n wake).map fun config => p.answered n config p.toServer
    else none
  | .request => (readData p.toServer).bind fun (line, unread) =>
      (p.config.resumed mailServer n (.line line)).map fun config => p.answered n config unread
  | .client => (k.awaits p.client).bind fun ends =>
      (readThrough ends p.toClient).map fun (lines, unread) =>
        { p with
          client := (k.hears p.client lines).1
          toServer := p.toServer ++ [unlines (k.hears p.client lines).2.toList]
          toClient := unread }

section

variable {k : LineClient σ} {n : Nat} {p q : Pairing σ} {l : MailSession}

/-- What a step does to the client, to its session and to what is between them. -/
theorem pairStep_cases (h : PairStep k n p q) (hn : p.config.threads n = some l) :
    (q.config.threads n = some l ∧ q.client = p.client ∧ q.toServer = p.toServer ∧
      q.toClient = p.toClient ∧ MailStep p.config q.config) ∨
    (∃ wake l' out, mailResume p.config.store l wake = some (q.config.store, l', out) ∧
      q.config.threads n = some l' ∧ q.client = p.client ∧
      q.toClient.flatten = p.toClient.flatten ++ unlines (saidLines out) ∧
      MailStep p.config q.config ∧
      (((wake = .scheduled ∨ wake = .written ∨ wake = .dropped) ∧ q.toServer = p.toServer) ∨
        ∃ line, wake = .line line ∧ readData p.toServer = some (line, q.toServer))) ∨
    (∃ ends lines, k.awaits p.client = some ends ∧
      readThrough ends p.toClient = some (lines, q.toClient) ∧ q.config = p.config ∧
      q.client = (k.hears p.client lines).1 ∧
      q.toServer.flatten = p.toServer.flatten ++ unlines (k.hears p.client lines).2.toList) := by
  cases h with
  | others hs =>
    rcases stepWith_running_cases hs hn with ⟨_, _, _, hfalse, _⟩ | ⟨hl, _⟩
    · exact hfalse.elim
    · exact Or.inl ⟨hl, rfl, rfl, rfl, hs.step⟩
  | session hwake hr hf hlog hpieces =>
    obtain ⟨l', out, hres, hl', hout⟩ := resumed_cases hr hn
    rw [hlog, List.append_cancel_left_eq] at hout
    subst hout
    exact Or.inr (Or.inl ⟨_, l', _, hres, hl', rfl, hpieces, resumed_step hr hf,
      Or.inl ⟨hwake, rfl⟩⟩)
  | request hread hr hf hlog hpieces =>
    obtain ⟨l', out, hres, hl', hout⟩ := resumed_cases hr hn
    rw [hlog, List.append_cancel_left_eq] at hout
    subst hout
    exact Or.inr (Or.inl ⟨_, l', _, hres, hl', rfl, hpieces, resumed_step hr hf,
      Or.inr ⟨_, rfl, hread⟩⟩)
  | client hw hread hpieces => exact Or.inr (Or.inr ⟨_, _, hw, hread, rfl, rfl, hpieces⟩)

/-- The server runs as it does with any clients. -/
theorem pairStep_server (h : PairStep k n p q) : ReflTransGen MailStep p.config q.config := by
  cases h with
  | others hs => exact .single hs.step
  | session _ hr hf => exact .single (resumed_step hr hf)
  | request _ hr hf => exact .single (resumed_step hr hf)
  | client => exact .refl

theorem resumed_log {c d : MailConfig} {wake : MailWake} (h : c.resumed mailServer n wake = some d) :
    d.logOf n = c.logOf n ++ (d.logOf n).drop (c.logOf n).length := by
  obtain ⟨out, hout⟩ := machineStep_log_grows n (resumed_parallel h)
  rw [← hout, List.drop_left]

theorem client_step (h : p.move k n .client = some q) : PairStep k n p q := by
  obtain ⟨ends, hw, h⟩ := Option.bind_eq_some_iff.mp h
  obtain ⟨⟨lines, unread⟩, hread, rfl⟩ := Option.map_eq_some_iff.mp h
  exact .client hw hread (by simp)

theorem move_step {m : PairMove} (h : p.move k n m = some q) (hf : p.config.Free mailServer n) :
    PairStep k n p q := by
  cases m with
  | session wake =>
    simp only [Pairing.move] at h
    split at h
    next hwake =>
      obtain ⟨config, hr, rfl⟩ := Option.map_eq_some_iff.mp h
      exact .session hwake hr hf (resumed_log hr) (by simp)
    next => cases h
  | request =>
    obtain ⟨⟨line, unread⟩, hread, h⟩ := Option.bind_eq_some_iff.mp h
    obtain ⟨config, hr, rfl⟩ := Option.map_eq_some_iff.mp h
    exact .request hread hr hf (resumed_log hr) (by simp)
  | client => exact client_step h

/-- A session that nobody keeps from the thread keeps nobody else from it to be resumed itself. -/
theorem move_free {m : PairMove} (h : p.move k n m = some q) (hf : p.config.Free mailServer n) :
    q.config.Free mailServer n := by
  have resumed {config : MailConfig} {wake : MailWake}
      (hr : p.config.resumed mailServer n wake = some config) : config.Free mailServer n :=
    resumed_free hr hf (by simp [Config.lets])
  cases m with
  | session wake =>
    simp only [Pairing.move] at h
    split at h
    next =>
      obtain ⟨config, hr, rfl⟩ := Option.map_eq_some_iff.mp h
      exact resumed hr
    next => cases h
  | request =>
    obtain ⟨_, _, h⟩ := Option.bind_eq_some_iff.mp h
    obtain ⟨config, hr, rfl⟩ := Option.map_eq_some_iff.mp h
    exact resumed hr
  | client =>
    obtain ⟨_, _, h⟩ := Option.bind_eq_some_iff.mp h
    obtain ⟨_, _, rfl⟩ := Option.map_eq_some_iff.mp h
    exact hf

theorem moves_reach {moves : List PairMove} (h : moves.foldlM (Pairing.move k n) p = some q)
    (hf : p.config.Free mailServer n) : ReflTransGen (PairStep k n) p q :=
  (foldlM_invariant h (P := fun q => ReflTransGen (PairStep k n) p q ∧ q.config.Free mailServer n)
    ⟨.refl, hf⟩ fun _ _ _ hreach hm =>
      ⟨hreach.1.tail (move_step hm hreach.2), move_free hm hreach.2⟩).1

/-- Of a stream that has one answer, the answer is read and nothing is left. -/
theorem answer_read {ends : Text → Bool} {answer lines chunks unread : List Text}
    (ha : IsAnswer ends answer) (h : chunks.flatten = unlines answer)
    (hr : readThrough ends chunks = some (lines, unread)) : lines = answer ∧ unread.flatten = [] := by
  obtain ⟨hl, lost, hstream⟩ := readThrough_some hr
  rw [h] at hstream
  obtain rfl : lines = answer := answer_unique hl ha ⟨_, hstream.symm⟩ (List.prefix_refl _)
  rw [List.self_eq_append_right, List.append_eq_nil_iff] at hstream
  exact ⟨rfl, hstream.2⟩

theorem line_read {line command : Text} {chunks unread : List Text} (hfree : CrlfFree command)
    (h : chunks.flatten = unlines [command]) (hr : readData chunks = some (line, unread)) :
    line = command ∧ unread.flatten = [] := by
  obtain ⟨lost, hsplit⟩ := readData_some hr
  rw [h, unlines_cons, splitCrlf_line hfree] at hsplit
  obtain ⟨rfl, hrest⟩ := Prod.mk.inj (Option.some.inj hsplit)
  exact ⟨rfl, (List.append_eq_nil_iff.mp hrest.symm).2⟩

theorem crlfFree_append {a b : Text} (ha : '\r' ∉ a) (hb : CrlfFree b) : CrlfFree (a ++ b) := by
  induction a with
  | nil => exact hb
  | cons c a ih =>
    obtain ⟨hc, ha⟩ := List.ne_and_not_mem_of_not_mem_cons ha
    intro h
    rcases List.infix_cons_iff.mp h with hpre | hin
    · exact hc (List.cons_prefix_cons.mp hpre).1
    · exact ih ha hin

theorem no_line_read {chunks unread : List Text} {line : Text} (h : chunks.flatten = []) :
    readData chunks ≠ some (line, unread) := by
  rw [readData_none.mpr (by rw [h]; rfl)]
  exact Option.some_ne_none _ ∘ Eq.symm

theorem no_answer_read {ends : Text → Bool} {chunks lines unread : List Text}
    (h : chunks.flatten = []) : readThrough ends chunks ≠ some (lines, unread) := by
  rw [@readThrough_unending ends chunks [] (List.forall_mem_nil _) (List.forall_mem_nil _) h]
  exact Option.some_ne_none _ ∘ Eq.symm

/-- A client that has an answer to read can go on. -/
theorem client_moves {ends : Text → Bool} {answer : List Text} (hw : k.awaits p.client = some ends)
    (ha : IsAnswer ends answer) (h : unlines answer <+: p.toClient.flatten) :
    ∃ q, p.move k n .client = some q := by
  obtain ⟨unread, hread⟩ := readThrough_answer ha h
  exact ⟨_, by rw [Pairing.move, hw, Option.bind_some, hread, Option.map_some]⟩

theorem session_moves (k : LineClient σ) {wake : MailWake} {r : MailStorage × MailSession × List SessionEvent}
    (hwake : wake = .scheduled ∨ wake = .written ∨ wake = .dropped)
    (hn : p.config.threads n = some l) (hr : mailResume p.config.store l wake = some r) :
    ∃ q, p.move k n (.session wake) = some q := by
  obtain ⟨config, hconfig, _⟩ := resumed_some (m := mailServer) hn hr
  exact ⟨_, by rw [Pairing.move, if_pos hwake, hconfig, Option.map_some]⟩

/-- A session that has a line to read can go on. -/
theorem request_moves (k : LineClient σ) {line : Text} {r : MailStorage × MailSession × List SessionEvent}
    (hn : p.config.threads n = some l) (hfree : CrlfFree line)
    (h : p.toServer.flatten = unlines [line])
    (hr : mailResume p.config.store l (.line line) = some r) :
    ∃ q, p.move k n .request = some q := by
  cases hread : readData p.toServer with
  | none =>
    have hnone := readData_none.mp hread
    rw [h, unlines_cons, splitCrlf_line hfree] at hnone
    cases hnone
  | some read =>
    obtain ⟨line', unread⟩ := read
    obtain ⟨rfl, _⟩ := line_read hfree h hread
    obtain ⟨config, hconfig, _⟩ := resumed_some (m := mailServer) hn hr
    refine ⟨p.answered n config unread, ?_⟩
    simp only [Pairing.move, hread, Option.bind_some, hconfig, Option.map_some]

end

end Protocols
