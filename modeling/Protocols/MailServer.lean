import Protocols.ImapSession
import Protocols.Pop3Session
import Protocols.SmtpDelivery

namespace Protocols

open Relation

inductive MailSession
  | smtp (s : SmtpSession)
  | pop3 (s : Pop3Session)
  | imap (s : ImapSession)
  deriving DecidableEq

def mailResume (storage : MailStorage) (l : MailSession) (wake : MailWake) :
    Option (MailStorage × MailSession × List SessionEvent) :=
  match l with
  | .smtp s => (smtpResume storage s wake).map fun (storage, t, out) => (storage, .smtp t, out)
  | .pop3 s => (pop3Resume storage s wake).map fun (storage, t, out) => (storage, .pop3 t, out)
  | .imap s => (imapResume storage s wake).map fun (t, out) => (storage, .imap t, out)

/-- A session that reads the body of a mail does not let the others run. -/
def MailSession.readsBody : MailSession → Bool
  | .smtp s => s.control = .readingBody
  | .pop3 _ | .imap _ => false

/-- The listeners spawn sessions of the three protocols over one storage. -/
def mailServer : Machine MailStorage MailSession MailWake SessionEvent where
  starts l := l = .smtp {} ∨ l = .pop3 {} ∨ l = .imap {}
  resume := mailResume
  holds := MailSession.readsBody

abbrev MailConfig := Config MailStorage MailSession SessionEvent

abbrev MailStep : MailConfig → MailConfig → Prop := MachineStep mailServer

section

variable {storage storage' : MailStorage} {l l' : MailSession} {wake : MailWake}
  {out : List SessionEvent}

theorem mailResume_smtp {s : SmtpSession}
    (h : mailResume storage (.smtp s) wake = some (storage', l', out)) :
    ∃ t, l' = .smtp t ∧ smtpResume storage s wake = some (storage', t, out) := by
  obtain ⟨⟨storage₁, t, out₁⟩, ht, he⟩ := Option.map_eq_some_iff.mp h
  cases he
  exact ⟨t, rfl, ht⟩

theorem mailResume_pop3 {s : Pop3Session}
    (h : mailResume storage (.pop3 s) wake = some (storage', l', out)) :
    ∃ t, l' = .pop3 t ∧ pop3Resume storage s wake = some (storage', t, out) := by
  obtain ⟨⟨storage₁, t, out₁⟩, ht, he⟩ := Option.map_eq_some_iff.mp h
  cases he
  exact ⟨t, rfl, ht⟩

theorem mailResume_imap {s : ImapSession}
    (h : mailResume storage (.imap s) wake = some (storage', l', out)) :
    ∃ t, l' = .imap t ∧ imapResume storage s wake = some (t, out) ∧ storage' = storage := by
  obtain ⟨⟨t, out₁⟩, ht, he⟩ := Option.map_eq_some_iff.mp h
  cases he
  exact ⟨t, rfl, ht, rfl⟩

theorem mailResume_cases (h : mailResume storage l wake = some (storage', l', out)) :
    (∃ s t, l = .smtp s ∧ l' = .smtp t ∧ smtpResume storage s wake = some (storage', t, out)) ∨
    (∃ s t, l = .pop3 s ∧ l' = .pop3 t ∧ pop3Resume storage s wake = some (storage', t, out)) ∨
    (∃ s t, l = .imap s ∧ l' = .imap t ∧ imapResume storage s wake = some (t, out) ∧
      storage' = storage) := by
  cases l with
  | smtp s =>
    obtain ⟨t, hl, ht⟩ := mailResume_smtp h
    exact Or.inl ⟨s, t, rfl, hl, ht⟩
  | pop3 s =>
    obtain ⟨t, hl, ht⟩ := mailResume_pop3 h
    exact Or.inr (Or.inl ⟨s, t, rfl, hl, ht⟩)
  | imap s =>
    obtain ⟨t, hl, ht⟩ := mailResume_imap h
    exact Or.inr (Or.inr ⟨s, t, rfl, hl, ht⟩)

/-- What follows when a session hears a line and goes on. -/
theorem line_heard {c : MailConfig} {n : Nat} {line : Text} (hn : c.threads n = some l)
    (hr : mailServer.resume c.store l (.line line) = some (storage', l', .heard line :: out)) :
    ∃ c₁, c.resumed mailServer n (.line line) = some c₁ ∧ c₁.threads n = some l' ∧
      c₁.store = storage' ∧ c₁.logOf n = (c.logOf n ++ [.heard line]) ++ out := by
  obtain ⟨c₁, hc₁, hn₁, hstore, hlog⟩ := resumed_some hn hr
  exact ⟨c₁, hc₁, hn₁, hstore, by rw [hlog, List.append_assoc]; rfl⟩

end

theorem smtpResume_storage {storage storage' : MailStorage} {s t : SmtpSession} {wake : MailWake}
    {out : List SessionEvent} (h : smtpResume storage s wake = some (storage', t, out)) :
    storage' = storage ∨ ∃ mail, storage' = storage.deliver mail := by
  cases smtpResume_step h with
  | greeted _ _ he => exact Or.inl (Prod.mk.inj he).1
  | heard _ _ _ he => exact Or.inl (Prod.mk.inj he).1
  | heardBody _ _ _ _ he => exact Or.inr ⟨_, (Prod.mk.inj he).1⟩
  | written _ _ _ he => exact Or.inl (Prod.mk.inj he).1
  | dropped _ _ he => exact Or.inl (Prod.mk.inj he).1

theorem smtp_lists_nothing {storage storage' : MailStorage} {s t : SmtpSession} {wake : MailWake}
    {out : List SessionEvent} (h : smtpResume storage s wake = some (storage', t, out))
    (user line : Text) : SessionEvent.listed user line ∉ out := by
  rcases smtpResume_speaks h with hs | ⟨_, rest, rfl, hs⟩ | ⟨_, rest, rfl, hs⟩
  · exact saysOne_unlisted hs user line
  · simpa using saysOne_unlisted hs user line
  · simpa using saysOne_unlisted hs user line

theorem imap_lists_nothing {storage : MailStorage} {s t : ImapSession} {wake : MailWake}
    {out : List SessionEvent} (h : imapResume storage s wake = some (t, out))
    (user line : Text) : SessionEvent.listed user line ∉ out := by
  rcases imapResume_speaks h with hs | ⟨_, rest, rfl, hs⟩
  · exact saysOne_unlisted hs user line
  · simpa using saysOne_unlisted hs user line

/-- The body of a mail is being read, and no session runs but the one that reads it. -/
def BodyAwaited (c : MailConfig) : Prop :=
  ∃ k s, c.threads k = some (.smtp s) ∧ s.control = .readingBody

theorem free_or_bodyAwaited (c : MailConfig) (n : Nat) : c.Free mailServer n ∨ BodyAwaited c := by
  by_cases h : BodyAwaited c
  · exact Or.inr h
  · refine Or.inl fun k l _ hk => ?_
    cases l with
    | smtp s => exact decide_eq_false fun hc => h ⟨k, s, hk, hc⟩
    | pop3 s => rfl
    | imap s => rfl

/-- The server's own storage, and an IMAP session that has just come. -/
def oneImap : MailConfig := ⟨mockData, Function.update (fun _ => none) 0 (some (.imap {})), []⟩

theorem oneImap_spawned : MailStep (Config.init mockData) oneImap :=
  .spawn rfl (Or.inr (Or.inr rfl)) (free_init mockData 0)

theorem oneImap_free : oneImap.Free mailServer 0 :=
  free_update mockData [] (free_init mockData 0) (Or.inl rfl)

end Protocols
