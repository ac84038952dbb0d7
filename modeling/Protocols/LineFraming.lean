import Protocols.CrlfLines
import Protocols.MailServer

namespace Protocols

open Relation

/-- The lines up to the first `.`, every one from the buffer that the one before has left. -/
def readLines : Nat → Text → List Text → Option (List Text × List Text)
  | 0, _, _ => none
  | fuel + 1, buffer, chunks =>
    (readUntil buffer chunks).bind fun (line, rest, chunks) =>
      if line = endOfData then some ([line], chunks)
      else (readLines fuel rest chunks).map fun (lines, chunks) => (line :: lines, chunks)

/-- `read_multiple_lines` keeps its buffer from line to line. Every line takes its CRLF, so there are
no more lines than bytes. -/
def readMultipleLines (chunks : List Text) : Option (List Text × List Text) :=
  readLines (chunks.flatten.length + 1) [] chunks

/-- A session with its client: what the client has sent comes in pieces, and the session has taken
lines of it for requests. -/
structure Framed where
  storage : MailStorage
  session : MailSession
  unread : List Text
  requests : List Text := []
  log : List SessionEvent := []

inductive FramedStep : Framed → Framed → Prop
  | request {c line unread storage session out} : readData c.unread = some (line, unread) →
      mailResume c.storage c.session (.line line) = some (storage, session, out) →
      FramedStep c ⟨storage, session, unread, c.requests ++ [line], c.log ++ out⟩
  | body {c lines unread storage session out} : readMultipleLines c.unread = some (lines, unread) →
      mailResume c.storage c.session (.body lines) = some (storage, session, out) →
      FramedStep c ⟨storage, session, unread, c.requests, c.log ++ out⟩
  | goOn {c wake storage session out} : wake = .scheduled ∨ wake = .written ∨ wake = .dropped →
      mailResume c.storage c.session wake = some (storage, session, out) →
      FramedStep c ⟨storage, session, c.unread, c.requests, c.log ++ out⟩

/-- What can come of a session when its client's stream comes in the given pieces: the requests it
has processed, what it has said and the storage. -/
def Observed (storage : MailStorage) (l : MailSession) (chunks : List Text)
    (o : List Text × List SessionEvent × MailStorage) : Prop :=
  ∃ c, ReflTransGen FramedStep { storage := storage, session := l, unread := chunks } c ∧
    o = (c.requests, c.log, c.storage)

/-- Whatever pieces the stream is cut into, the same can come of the session. -/
def FramingIndependent (storage : MailStorage) (l : MailSession) (stream : Text) : Prop :=
  ∀ chunks chunks' : List Text, [] ∉ chunks → [] ∉ chunks' → chunks.flatten = stream →
    chunks'.flatten = stream → ∀ o, Observed storage l chunks o → Observed storage l chunks' o

/-- The request that ends a session of the protocol. -/
def MailSession.Quits (request : Text) : MailSession → Prop
  | .smtp _ => (smtpParseRequest request).1 = .quit
  | .pop3 _ => (pop3ParseRequest request).1 = .quit
  | .imap _ => (imapParseRequest request).1 = .logout

/-- There is no second line, or the first one ends the session. -/
def OneRequest (l : MailSession) (stream : Text) : Prop :=
  ∀ line rest, splitCrlf stream = some (line, rest) → splitCrlf rest = none ∨ l.Quits line

theorem readLines_eq (fuel : Nat) (buffer : Text) (chunks : List Text) :
    readLines fuel buffer chunks = readFrom (fun line => line == endOfData) fuel buffer chunks := by
  induction fuel generalizing buffer chunks with
  | zero => rfl
  | succ fuel ih => simp only [readLines, readFrom, ih, beq_iff_eq]

theorem readMultipleLines_eq (chunks : List Text) :
    readMultipleLines chunks = readThrough (fun line => line == endOfData) chunks :=
  readLines_eq _ _ _

theorem readMultipleLines_none {chunks : List Text} (h : splitCrlf chunks.flatten = none) :
    readMultipleLines chunks = none := by
  have hr : readUntil [] chunks = none := readUntil_none.mpr h
  simp [readMultipleLines, readLines, hr]

/-- A session that has had no request, and waits for the first one or is about to. -/
def Fresh : MailSession → Prop
  | .smtp s => s.control = .spawned ∨ s.control = .writing (.next .waitHelo) ∨
      (s.control = .reading ∧ s.state = .waitHelo)
  | .pop3 s => s.user = [] ∧ (s.control = .spawned ∨ s.control = .writing (.next .authorization) ∨
      (s.control = .reading ∧ s.state = .authorization))
  | .imap s => s.control = .spawned ∨ s.control = .writing (.next .unauthenticated) ∨
      (s.control = .reading ∧ s.state = .unauthenticated)

/-- A session that says its last words, or has ended. -/
def Leaving : MailSession → Prop
  | .smtp s => s.control = .writing .close ∨ s.control = .ended
  | .pop3 s => s.control = .writing (.next .quit) ∨ s.control = .ended
  | .imap s => (∃ tag, s.control = .writing (.complete tag .quit)) ∨
      s.control = .writing (.next .quit) ∨ s.control = .ended

section

variable {storage storage' : MailStorage} {l l' : MailSession} {out : List SessionEvent}

theorem leaving_reads_nothing (h : Leaving l) (request : Text) (lines : List Text) :
    mailResume storage l (.line request) = none ∧ mailResume storage l (.body lines) = none := by
  cases l with
  | smtp s => rcases h with h | h <;> simp [mailResume, smtpResume, h]
  | pop3 s => rcases h with h | h <;> simp [mailResume, pop3Resume, h]
  | imap s => rcases h with ⟨tag, h⟩ | h | h <;> simp [mailResume, imapResume, h]

/-- However far it is, a session ends when its connection drops. -/
theorem dropped_leaves (hr : mailResume storage l .dropped = some (storage', l', out)) :
    Leaving l' := by
  rcases mailResume_cases hr with ⟨s, t, _, rfl, ht⟩ | ⟨s, t, _, rfl, ht⟩ | ⟨s, t, _, rfl, ht, _⟩
  · cases smtpResume_dropped ht
    exact Or.inr rfl
  · cases pop3Resume_dropped ht
    exact Or.inr rfl
  · cases imapResume_dropped ht
    exact Or.inr (Or.inr rfl)

theorem leaving_goes_on {wake : MailWake} (h : Leaving l)
    (hr : mailResume storage l wake = some (storage', l', out)) : Leaving l' := by
  -- what is left to a leaving session is the end of its last write
  cases wake with
  | dropped => exact dropped_leaves hr
  | line request =>
    rw [(leaving_reads_nothing h request []).1] at hr
    cases hr
  | body lines =>
    rw [(leaving_reads_nothing h [] lines).2] at hr
    cases hr
  | scheduled =>
    cases l with
    | smtp s => rcases h with h | h <;> simp [mailResume, smtpResume, h] at hr
    | pop3 s => rcases h with h | h <;> simp [mailResume, pop3Resume, h] at hr
    | imap s => rcases h with ⟨tag, h⟩ | h | h <;> simp [mailResume, imapResume, h] at hr
  | written =>
    rcases mailResume_cases hr with ⟨s, t, rfl, rfl, ht⟩ | ⟨s, t, rfl, rfl, ht⟩ |
      ⟨s, t, rfl, rfl, ht, _⟩
    · obtain ⟨after, hc, he⟩ := smtpResume_written ht
      rcases h with h | h <;> cases h.symm.trans hc
      cases he
      exact Or.inr rfl
    · obtain ⟨after, hc, he⟩ := pop3Resume_written ht
      rcases h with h | h <;> cases h.symm.trans hc
      cases he
      exact Or.inr rfl
    · obtain ⟨after, hc, he⟩ := imapResume_written ht
      rcases h with ⟨tag, h⟩ | h | h <;> cases h.symm.trans hc
      · cases he
        exact Or.inr (Or.inl rfl)
      · cases he
        exact Or.inr (Or.inr rfl)

theorem fresh_reads_no_body (h : Fresh l) (lines : List Text) :
    mailResume storage l (.body lines) = none := by
  cases l with
  | smtp s => rcases h with h | h | h <;> simp [mailResume, smtpResume, h]
  | pop3 s => rcases h with ⟨_, h | h | h⟩ <;> simp [mailResume, pop3Resume, h]
  | imap s => rcases h with h | h | h <;> simp [mailResume, imapResume, h]

/-- A fresh session that is not asked anything goes on to its first request, or its connection
drops. -/
theorem fresh_goes_on {wake : MailWake} (h : Fresh l)
    (hw : wake = .scheduled ∨ wake = .written ∨ wake = .dropped)
    (hr : mailResume storage l wake = some (storage', l', out)) : Fresh l' ∨ Leaving l' := by
  rcases hw with rfl | rfl | rfl
  · rcases mailResume_cases hr with ⟨s, t, rfl, rfl, ht⟩ | ⟨s, t, rfl, rfl, ht⟩ |
      ⟨s, t, rfl, rfl, ht, _⟩
    · cases smtpResume_scheduled ht
      exact Or.inl (Or.inr (Or.inl rfl))
    · cases pop3Resume_scheduled ht
      exact Or.inl ⟨h.1, Or.inr (Or.inl rfl)⟩
    · cases imapResume_scheduled ht
      exact Or.inl (Or.inr (Or.inl rfl))
  · rcases mailResume_cases hr with ⟨s, t, rfl, rfl, ht⟩ | ⟨s, t, rfl, rfl, ht⟩ |
      ⟨s, t, rfl, rfl, ht, _⟩
    · obtain ⟨after, hc, he⟩ := smtpResume_written ht
      rcases h with h | h | ⟨h, _⟩ <;> cases h.symm.trans hc
      cases he
      exact Or.inl (Or.inr (Or.inr ⟨rfl, rfl⟩))
    · obtain ⟨after, hc, he⟩ := pop3Resume_written ht
      obtain ⟨hu, h | h | ⟨h, _⟩⟩ := h <;> cases h.symm.trans hc
      cases he
      exact Or.inl ⟨hu, Or.inr (Or.inr ⟨rfl, rfl⟩)⟩
    · obtain ⟨after, hc, he⟩ := imapResume_written ht
      rcases h with h | h | ⟨h, _⟩ <;> cases h.symm.trans hc
      cases he
      exact Or.inl (Or.inr (Or.inr ⟨rfl, rfl⟩))
  · exact Or.inr (dropped_leaves hr)

theorem fresh_quits {request : Text} (h : Fresh l) (hq : l.Quits request)
    (hr : mailResume storage l (.line request) = some (storage', l', out)) : Leaving l' := by
  cases l with
  | smtp s =>
    obtain ⟨⟨storage₁, t, out₁⟩, ht, he⟩ := Option.map_eq_some_iff.mp hr
    cases he
    rcases h with h | h | ⟨h, hs⟩
    · simp [smtpResume, h] at ht
    · simp [smtpResume, h] at ht
    · simp only [smtpResume, h, SmtpSession.request, hs,
        show (smtpParseRequest request).1 = .quit from hq, SmtpSession.waitHelo, Option.some.injEq,
        Prod.mk.injEq] at ht
      rw [← ht.2.1]
      exact Or.inl rfl
  | pop3 s =>
    obtain ⟨⟨storage₁, t, out₁⟩, ht, he⟩ := Option.map_eq_some_iff.mp hr
    cases he
    obtain ⟨_, h | h | ⟨h, hs⟩⟩ := h
    · simp [pop3Resume, h] at ht
    · simp [pop3Resume, h] at ht
    · simp only [pop3Resume, h, Pop3Session.request, hs,
        show (pop3ParseRequest request).1 = .quit from hq, Pop3Session.authorization,
        Option.some.injEq, Prod.mk.injEq] at ht
      rw [← ht.2.1]
      exact Or.inl rfl
  | imap s =>
    obtain ⟨⟨t, out₁⟩, ht, he⟩ := Option.map_eq_some_iff.mp hr
    cases he
    rcases h with h | h | ⟨h, hs⟩
    · simp [imapResume, h] at ht
    · simp [imapResume, h] at ht
    · simp only [imapResume, h, ImapSession.request, hs,
        show (imapParseRequest request).1 = .logout from hq, ImapSession.unauthenticated,
        Option.some.injEq, Prod.mk.injEq] at ht
      rw [← ht.1]
      exact Or.inl ⟨_, rfl⟩

/-- A session that waits for a request. -/
def Reading : MailSession → Prop
  | .smtp s => s.control = .reading
  | .pop3 s => s.control = .reading
  | .imap s => s.control = .reading

theorem reading_hears (h : Reading l) (storage : MailStorage) (request : Text) :
    ∃ storage' l' out, mailResume storage l (.line request) = some (storage', l', out) := by
  cases l with
  | smtp s =>
    rw [Reading] at h
    simp [mailResume, smtpResume, h]
  | pop3 s =>
    rw [Reading] at h
    simp [mailResume, pop3Resume, h]
  | imap s =>
    rw [Reading] at h
    simp [mailResume, imapResume, h]

theorem starts_greets (h : mailServer.starts l) (storage : MailStorage) :
    ∃ l₁ out l₂, mailResume storage l .scheduled = some (storage, l₁, out) ∧
      mailResume storage l₁ .written = some (storage, l₂, []) ∧ Fresh l₂ ∧ Reading l₂ := by
  rcases h with rfl | rfl | rfl
  · exact ⟨_, _, _, rfl, rfl, Or.inr (Or.inr ⟨rfl, rfl⟩), rfl⟩
  · exact ⟨_, _, _, rfl, rfl, ⟨rfl, Or.inr (Or.inr ⟨rfl, rfl⟩)⟩, rfl⟩
  · exact ⟨_, _, _, rfl, rfl, Or.inr (Or.inr ⟨rfl, rfl⟩), rfl⟩

theorem starts_fresh (h : mailServer.starts l) : Fresh l := by
  rcases h with rfl | rfl | rfl
  · exact Or.inl rfl
  · exact ⟨rfl, Or.inl rfl⟩
  · exact Or.inl rfl

theorem fresh_answers {request : Text} (h : Fresh l) (hl : Reading l) (hq : ¬ l.Quits request)
    (storage : MailStorage) :
    ∃ storage' l₁ out l₂ out', mailResume storage l (.line request) = some (storage', l₁, out) ∧
      mailResume storage' l₁ .written = some (storage', l₂, out') ∧ Reading l₂ := by
  cases l with
  | smtp s =>
    have hc : s.control = .reading := hl
    have hs : s.state = .waitHelo := by
      rcases h with h | h | h
      · simp [h] at hc
      · simp [h] at hc
      · exact h.2
    have hq : (smtpParseRequest request).1 ≠ .quit := hq
    simp only [mailResume, smtpResume, hc, SmtpSession.request, hs]
    cases hp : (smtpParseRequest request).1 with
    | helo =>
      simp only [SmtpSession.waitHelo]
      split
      next => exact ⟨_, _, _, _, _, rfl, rfl, rfl⟩
      next => exact ⟨_, _, _, _, _, rfl, rfl, rfl⟩
    | quit => exact absurd hp hq
    | _ => exact ⟨_, _, _, _, _, rfl, rfl, rfl⟩
  | pop3 s =>
    have hc : s.control = .reading := hl
    obtain ⟨hu, hplace⟩ := h
    have hs : s.state = .authorization := by
      rcases hplace with h | h | h
      · simp [h] at hc
      · simp [h] at hc
      · exact h.2
    have hq : (pop3ParseRequest request).1 ≠ .quit := hq
    simp only [mailResume, pop3Resume, hc, Pop3Session.request, hs]
    cases hp : (pop3ParseRequest request).1 with
    | user =>
      simp only [Pop3Session.authorization, hu, ne_eq, not_true_eq_false, if_false]
      split
      next => exact ⟨_, _, _, _, _, rfl, rfl, rfl⟩
      next => exact ⟨_, _, _, _, _, rfl, rfl, rfl⟩
    | pass =>
      simp only [Pop3Session.authorization, hu, if_true]
      exact ⟨_, _, _, _, _, rfl, rfl, rfl⟩
    | quit => exact absurd hp hq
    | _ => exact ⟨_, _, _, _, _, rfl, rfl, rfl⟩
  | imap s =>
    have hc : s.control = .reading := hl
    have hs : s.state = .unauthenticated := by
      rcases h with h | h | h
      · simp [h] at hc
      · simp [h] at hc
      · exact h.2
    have hq : (imapParseRequest request).1 ≠ .logout := hq
    simp only [mailResume, imapResume, hc, ImapSession.request, hs]
    cases hp : (imapParseRequest request).1 with
    | login =>
      simp only [ImapSession.unauthenticated]
      split
      next => exact ⟨_, _, _, _, _, rfl, rfl, rfl⟩
      next => exact ⟨_, _, _, _, _, rfl, rfl, rfl⟩
    | logout => exact absurd hp hq
    | _ => exact ⟨_, _, _, _, _, rfl, rfl, rfl⟩

end

theorem quits_resumed {storage storage' : MailStorage} {l l' : MailSession} {wake : MailWake}
    {out : List SessionEvent} (hr : mailResume storage l wake = some (storage', l', out))
    (request : Text) : l'.Quits request ↔ l.Quits request := by
  rcases mailResume_cases hr with ⟨_, _, rfl, rfl, _⟩ | ⟨_, _, rfl, rfl, _⟩ | ⟨_, _, rfl, rfl, _⟩
  · exact Iff.rfl
  · exact Iff.rfl
  · exact Iff.rfl

/-- Two sessions that have done the same, and have both the whole stream before them, or no line
that they will ever read. -/
structure SameFraming (stream : Text) (c c' : Framed) : Prop where
  storage : c'.storage = c.storage
  session : c'.session = c.session
  requests : c'.requests = c.requests
  log : c'.log = c.log
  ahead : (Fresh c.session ∧ OneRequest c.session stream ∧ c.unread.flatten = stream ∧
      c'.unread.flatten = stream) ∨
    (splitCrlf c.unread.flatten = none ∧ splitCrlf c'.unread.flatten = none) ∨ Leaving c.session

theorem sameFraming_request {stream line : Text} {c c' : Framed} {unread : List Text}
    {storage : MailStorage} {session : MailSession} {out : List SessionEvent}
    (h : SameFraming stream c c') (hread : readData c.unread = some (line, unread))
    (hr : mailResume c.storage c.session (.line line) = some (storage, session, out)) :
    ∃ d', FramedStep c' d' ∧
      SameFraming stream ⟨storage, session, unread, c.requests ++ [line], c.log ++ out⟩ d' := by
  rcases h.ahead with ⟨hfresh, hone, hc, hc'⟩ | ⟨hnone, _⟩ | hleaving
  · obtain ⟨lost, hsplit⟩ := readData_some hread
    cases hread' : readData c'.unread with
    | none =>
      rw [readData_none, hc', ← hc, hsplit] at hread'
      cases hread'
    | some r =>
      obtain ⟨line', unread'⟩ := r
      obtain ⟨lost', hsplit'⟩ := readData_some hread'
      rw [hc] at hsplit
      rw [hc', hsplit] at hsplit'
      simp only [Option.some.injEq, Prod.mk.injEq] at hsplit'
      obtain ⟨rfl, hrest⟩ := hsplit'
      refine ⟨⟨storage, session, unread', c'.requests ++ [line], c'.log ++ out⟩,
        .request hread' (by rw [h.storage, h.session]; exact hr), ?_⟩
      refine ⟨rfl, rfl, by rw [h.requests], by rw [h.log], ?_⟩
      rcases hone line _ hsplit with hnone | hquits
      · exact Or.inr (Or.inl ⟨splitCrlf_suffix hnone, splitCrlf_suffix (hrest ▸ hnone)⟩)
      · exact Or.inr (Or.inr (fresh_quits hfresh hquits hr))
  · rw [readData_none.mpr hnone] at hread
    cases hread
  · rw [(leaving_reads_nothing hleaving line []).1] at hr
    cases hr

theorem sameFraming_step {stream : Text} {c d c' : Framed} (h : SameFraming stream c c')
    (hs : FramedStep c d) : ∃ d', FramedStep c' d' ∧ SameFraming stream d d' := by
  cases hs with
  | request hread hr => exact sameFraming_request h hread hr
  | @body lines unread storage session out hread hr =>
    rcases h.ahead with ⟨hfresh, _⟩ | ⟨hnone, _⟩ | hleaving
    · rw [fresh_reads_no_body hfresh lines] at hr
      cases hr
    · rw [readMultipleLines_none hnone] at hread
      cases hread
    · rw [(leaving_reads_nothing hleaving [] lines).2] at hr
      cases hr
  | @goOn wake storage session out hw hr =>
    refine ⟨_, .goOn hw (by rw [h.storage, h.session]; exact hr), rfl, rfl, h.requests,
      by rw [h.log], ?_⟩
    rcases h.ahead with ⟨hfresh, hone, hc, hc'⟩ | hnone | hleaving
    · rcases fresh_goes_on hfresh hw hr with hf | hl
      · refine Or.inl ⟨hf, fun line rest hsplit => ?_, hc, hc'⟩
        rw [quits_resumed hr]
        exact hone line rest hsplit
      · exact Or.inr (Or.inr hl)
    · exact Or.inr (Or.inl hnone)
    · exact Or.inr (Or.inr (leaving_goes_on hleaving hr))

theorem oneRequest_independent {storage : MailStorage} {l : MailSession} {stream : Text}
    (hl : mailServer.starts l) (one : OneRequest l stream) :
    FramingIndependent storage l stream := by
  rintro chunks chunks' _ _ hc hc' o ⟨c, run, rfl⟩
  have start : SameFraming stream ⟨storage, l, chunks, [], []⟩ ⟨storage, l, chunks', [], []⟩ :=
    ⟨rfl, rfl, rfl, rfl, Or.inl ⟨starts_fresh hl, one, hc, hc'⟩⟩
  have simulated : ∃ c', ReflTransGen FramedStep ⟨storage, l, chunks', [], []⟩ c' ∧
      SameFraming stream c c' := by
    refine reaches_simulation run start fun _ _ _ hr hs => ?_
    obtain ⟨v, hv, hr'⟩ := sameFraming_step hr hs
    exact ⟨v, .single hv, hr'⟩
  obtain ⟨c', run', h⟩ := simulated
  exact ⟨c', run', by rw [h.requests, h.log, h.storage]⟩

theorem readLines_suffix {fuel : Nat} {buffer : Text} {chunks unread : List Text}
    {lines : List Text} (h : readLines fuel buffer chunks = some (lines, unread)) :
    unread <:+ chunks := by
  rw [readLines_eq] at h
  exact readFrom_suffix h

/-- A stream that comes in one piece: it is there before the first request, and gone after it. -/
def OnePiece (stream : Text) (c : Framed) : Prop :=
  (c.unread = [stream] ∧ c.requests.length = 0) ∨ (c.unread = [] ∧ c.requests.length ≤ 1)

theorem onePiece_step {stream : Text} {c d : Framed} (h : OnePiece stream c)
    (hs : FramedStep c d) : OnePiece stream d := by
  cases hs with
  | @request line unread storage session out hread hr =>
    rcases h with ⟨hu, hn⟩ | ⟨hu, _⟩
    · rw [hu] at hread
      obtain ⟨lost, hsplit⟩ := readData_some hread
      rw [List.flatten_singleton] at hsplit
      rw [readData_piece hsplit] at hread
      exact Or.inr ⟨(Prod.mk.inj (Option.some.inj hread)).2.symm, by simp [hn]⟩
    · rw [hu] at hread
      simp [readData, readUntil, splitCrlf] at hread
  | @body lines unread storage session out hread hr =>
    have hsuffix := readLines_suffix hread
    rcases h with ⟨hu, hn⟩ | ⟨hu, hn⟩
    · rw [hu, List.suffix_cons_iff] at hsuffix
      rcases hsuffix with hsame | hgone
      · exact Or.inl ⟨hsame, hn⟩
      · exact Or.inr ⟨List.suffix_nil.mp hgone, by simp [hn]⟩
    · rw [hu] at hsuffix
      exact Or.inr ⟨List.suffix_nil.mp hsuffix, hn⟩
  | goOn _ _ => exact h

/-- Of a stream that comes in one piece, one request is processed. -/
theorem one_piece_one_request {storage : MailStorage} {l : MailSession} {stream : Text}
    {o : List Text × List SessionEvent × MailStorage} (h : Observed storage l [stream] o) :
    o.1.length ≤ 1 := by
  obtain ⟨c, run, rfl⟩ := h
  rcases reaches_invariant (P := OnePiece stream) run (Or.inl ⟨rfl, rfl⟩)
    fun _ _ => onePiece_step with ⟨_, hn⟩ | ⟨_, hn⟩
  · exact hn.le.trans (Nat.zero_le 1)
  · exact hn

theorem two_pieces_two_requests {l : MailSession} {stream line rest line' rest' : Text}
    (hl : mailServer.starts l) (storage : MailStorage)
    (hs : splitCrlf stream = some (line, rest)) (hs' : splitCrlf rest = some (line', rest'))
    (hq : ¬ l.Quits line) :
    ∃ o, Observed storage l [line ++ crlf, rest] o ∧ o.1.length = 2 := by
  obtain ⟨l₁, out₁, l₂, hgreets, hwaits, hfresh, hreading⟩ := starts_greets hl storage
  have hq₂ : ¬ l₂.Quits line := by
    rwa [quits_resumed hwaits, quits_resumed hgreets]
  obtain ⟨storage₃, l₃, out₃, l₄, out₄, hanswers, hagain, hreading'⟩ :=
    fresh_answers hfresh hreading hq₂ storage
  obtain ⟨storage₅, l₅, out₅, hhears⟩ := reading_hears hreading' storage₃ line'
  have run : ReflTransGen FramedStep ⟨storage, l, [line ++ crlf, rest], [], []⟩
      ⟨storage₅, l₅, [], [line, line'], out₁ ++ out₃ ++ out₄ ++ out₅⟩ := by
    refine .head (.goOn (Or.inl rfl) hgreets) ?_
    refine .head (.goOn (Or.inr (Or.inl rfl)) hwaits) ?_
    refine .head (.request (readData_piece (splitCrlf_eq hs).2 [rest]) hanswers) ?_
    refine .head (.goOn (Or.inr (Or.inl rfl)) hagain) ?_
    simpa using ReflTransGen.single (FramedStep.request
      (c := ⟨storage₃, l₄, [rest], [line], out₁ ++ out₃ ++ out₄⟩) (readData_piece hs' []) hhears)
  exact ⟨_, ⟨_, run, rfl⟩, rfl⟩

theorem framing_differs {storage : MailStorage} {l : MailSession} {stream : Text}
    (hl : mailServer.starts l) (h : ¬ OneRequest l stream) :
    ¬ FramingIndependent storage l stream := by
  intro independent
  simp only [OneRequest, not_forall, not_or] at h
  obtain ⟨line, rest, hs, hrest, hq⟩ := h
  obtain ⟨⟨line', rest'⟩, hs'⟩ := Option.ne_none_iff_exists'.mp hrest
  obtain ⟨o, ho, htwo⟩ := two_pieces_two_requests hl storage hs hs' hq
  have hstream := (splitCrlf_eq hs).1
  have hone := one_piece_one_request (independent [line ++ crlf, rest] [stream] ?_ ?_
    (by rw [hstream]; simp) (by simp) o ho)
  · omega
  · have hne : rest ≠ [] := by
      rintro rfl
      simp [splitCrlf] at hs'
    simpa [crlf] using hne.symm
  · rw [hstream]
    simp [crlf]

/-- What comes of a session does not depend on the pieces if and only if it gets one request. -/
theorem framing_independent_iff {storage : MailStorage} {l : MailSession} {stream : Text}
    (hl : mailServer.starts l) : FramingIndependent storage l stream ↔ OneRequest l stream :=
  ⟨fun h => by_contra fun hone => framing_differs hl hone h, oneRequest_independent hl⟩

theorem framing_independent_helo :
    FramingIndependent mockData (.smtp {}) "helo ab\r\n".toList := by
  refine (framing_independent_iff (Or.inl rfl)).mpr fun line rest hs => Or.inl ?_
  have hsplit : splitCrlf "helo ab\r\n".toList = some ("helo ab".toList, []) := by decide
  rw [hsplit] at hs
  cases hs
  rfl

theorem framing_depends :
    ¬ FramingIndependent mockData (.smtp {}) "helo ab\r\nquit\r\n".toList := by
  refine framing_differs (Or.inl rfl) fun one => ?_
  rcases one "helo ab".toList "quit\r\n".toList (by decide) with h | h
  · exact absurd h (by decide)
  · exact absurd (show (smtpParseRequest "helo ab".toList).1 = .quit from h) (by decide +kernel)

end Protocols
