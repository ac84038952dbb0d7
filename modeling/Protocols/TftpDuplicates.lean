import Protocols.TftpOrigin
import Protocols.TftpServer

namespace Protocols

open Relation

/-- Where the client, the server's listening socket and the sockets of its connections are. -/
structure Hosts where
  client : Endpoint
  listener : Endpoint
  port : Nat → UInt16

/-- A client that uploads a file, and the server with everything it has sent so far. -/
structure UploadNet where
  client : WriteClient
  server : ServerConfig

/-- What can happen next. Datagrams that have been sent arrive any number of times and at any time,
and to the connections the network may bring anything. -/
inductive NetEvent
  /-- a copy of the client's request -/
  | request (n : Nat)
  /-- a request of somebody else, who does not write to the name -/
  | other (n : Nat) (sender : Endpoint) (request : List UInt8)
  | resume (n : Nat) (disk : Disk) (wake : Wake)
  /-- a copy of a datagram that a connection has sent to the client -/
  | reply (n : Nat) (disk : Disk) (bytes : List UInt8)
  | client (disk : Disk) (wake : Wake)

def UploadNet.spawn (x : UploadNet) (n : Nat) (sender : Endpoint) (request : List UInt8) :
    Option UploadNet :=
  if (x.server.threads n).isSome then none
  else (spawnConnection sender request).map fun l =>
    { x with server := { x.server with threads := Function.update x.server.threads n (some l) } }

def UploadNet.next (k : Hosts) (x : UploadNet) : NetEvent → Option UploadNet
  | .request n =>
    match x.client.control with
    | .requesting => none
    | _ => x.spawn n k.client (WrqPacket.toBuffer { filename := x.client.filename })
  | .other n sender request =>
    if sender = k.client ∨ getOpcode request = .wrq ∧
        pathFilename (getFilename request) = uploadPath x.client.filename then none
    else x.spawn n sender request
  | .resume n disk wake =>
    (x.server.resumed tftpServer n (disk, wake)).map fun server => { x with server }
  | .reply n disk bytes =>
    if (n, k.client, bytes) ∈ x.server.log then
      (writeClientResume disk x.client (.datagram ⟨k.listener.address, k.port n⟩ bytes)).map
        fun (client, _) => { x with client }
    else none
  | .client disk wake =>
    match wake with
    | .datagram _ _ => none
    -- no socket refuses to send to an endpoint it is not connected to
    | .sent (some .connectionRefused) => none
    | wake => (writeClientResume disk x.client wake).map fun (client, _) => { x with client }

/-- The client takes the datagram for a refusal. -/
def Refuses (bytes : List UInt8) : Prop := (getError (receivePacket bytes)).1 = .error

theorem error_refuses {p : ErrorPacket} (hop : p.op = .error) (h : p.errorMsg ≠ []) :
    Refuses p.toBuffer := by
  have hlength : p.toBuffer.length = p.errorMsg.length + 5 := by
    simp [ErrorPacket.toBuffer, copyIntegral_length, copyString]
    omega
  have hpos := List.length_pos_iff.mpr h
  have hlong : 5 < (receivePacket p.toBuffer).length := by
    rw [receivePacket, List.length_take, hlength, maxReceiveSize]
    omega
  simp [Refuses, getError, hlong.not_ge, getOpcode_receivePacket, hop]

theorem unknownTransfer_refuses (msg : String) (h : literal msg ≠ []) :
    Refuses (unknownTransfer msg) :=
  error_refuses rfl h

theorem fileExists_refuses (path : List UInt8) : Refuses (fileExists path) :=
  error_refuses rfl (by simp [literal])

/-- What a connection has sent to the client: acknowledgements if it stores the client's upload,
and nothing but errors otherwise. -/
def Speaks (client : Endpoint) (name : List UInt8) (l : Connection) (out : Outgoing) : Prop :=
  match l with
  | .read r => r.clientEndpoint ≠ client ∧ ∀ q ∈ out, q.1 = client → Refuses q.2
  | .write w =>
    (w.clientEndpoint = client ∧ w.path = name ∨ w.clientEndpoint ≠ client ∧ w.path ≠ name) ∧
    match w.control with
    | .spawned | .refusing => out = []
    | .opened stream => out = [] ∧ (stream.isOpen = false → stream.good = false)
    | .looping s => (∀ stranger, s.control = .rejecting stranger → stranger ≠ w.clientEndpoint) ∧
        (s.fileStream.isOpen = false → out = [] ∧ ∃ error, s.control = .finished error) ∧
        ∀ q ∈ out, q.1 = client →
          if w.clientEndpoint = client then getOpcode (receivePacket q.2) = .ack else Refuses q.2
    | .returned _ stream => ∀ q ∈ out, q.1 = client →
        if w.clientEndpoint = client ∧ stream.isOpen = true then getOpcode (receivePacket q.2) = .ack
        else Refuses q.2

theorem ack_opcode (block : UInt16) :
    getOpcode (receivePacket (AckPacket.toBuffer { block })) = .ack := by
  rw [getOpcode_receivePacket, getOpcode_ack]

theorem sendLoop_resume_receiver {msg : String} {peer : Endpoint} {f : InputFile} {s t : SendLoop}
    {wake : Wake} {out : Outgoing} (hs : sendLoopResume msg peer f s wake = some (t, out)) :
    ∀ q ∈ out, q.1 = peer ∨ q.2 = unknownTransfer msg := by
  cases sendLoopResume_step hs <;> simp

theorem readConnection_resume_speaks {disk : Disk} {dir : Directory} {r r' : ReadConnection}
    {wake : Wake} {out sent : Outgoing} {client : Endpoint} {name : List UInt8}
    (h : Speaks client name (.read r) sent)
    (hs : readConnectionResume disk dir r wake = some (r', out)) :
    Speaks client name (.read r') (sent ++ out) := by
  obtain ⟨hne, hsent⟩ := h
  have add : ∀ {r' : ReadConnection}, r'.clientEndpoint = r.clientEndpoint →
      (∀ q ∈ out, q.1 = client → Refuses q.2) → Speaks client name (.read r') (sent ++ out) := by
    intro r' hr hout
    refine ⟨by rwa [hr], fun q hq => ?_⟩
    rcases List.mem_append.mp hq with hq | hq
    · exact hsent q hq
    · exact hout q hq
  cases readConnectionResume_step hs with
  | missing => exact add rfl (by simp)
  | found => exact add rfl (by simp)
  | refused =>
    refine add rfl fun q hq hc => ?_
    rw [List.mem_singleton.mp hq] at hc
    exact absurd hc hne
  | unsent => exact add rfl (by simp)
  | started => exact add rfl (by simp)
  | returned => exact add rfl (by simp)
  | looped loop loop' out _ hloop =>
    refine add rfl fun q hq hc => ?_
    rcases sendLoop_resume_receiver hloop q hq with hp | hp
    · exact absurd (hp.symm.trans hc) hne
    · rw [hp]
      exact unknownTransfer_refuses _ (by simp [literal])

theorem loopHead_bad {μ : Type} {s : ReceiveLoop μ} (h : s.fileStream.good = false) :
    ∃ error, s.loopHead.control = .finished error :=
  ⟨some .fault, by rw [ReceiveLoop.loopHead, if_neg (by simp [h])]⟩

theorem receiveLoop_resume_speaks {who client : Endpoint} {disk : Disk} {s t : ReceiveLoop Bool}
    {wake : Wake} {out : Outgoing}
    (hpolite : ∀ stranger, s.control = .rejecting stranger → stranger ≠ who)
    (hs : serverReceiveLoop who disk s wake = some (t, out)) :
    ∀ q ∈ out, q.1 = client →
      if who = client then getOpcode (receivePacket q.2) = .ack else Refuses q.2 := by
  intro q hq hc
  rcases receiveLoop_resume_cases hs with ⟨_, _, _, rfl | ⟨_, _, _, rfl⟩ | ⟨stranger, hr, rfl⟩⟩ |
    ⟨rfl, _⟩
  · cases hq
  · rw [List.mem_singleton.mp hq] at hc ⊢
    rw [if_pos hc]
    exact ack_opcode _
  · rw [List.mem_singleton.mp hq] at hc ⊢
    rw [if_neg fun he => hpolite stranger hr (hc.trans he.symm)]
    exact unknownTransfer_refuses _ (by simp [serverMemory, literal])
  · cases hq

theorem writeConnection_resume_speaks {disk : Disk} {dir dir' : Directory} {w w' : WriteConnection}
    {wake : Wake} {out sent : Outgoing} {client : Endpoint} {name : List UInt8}
    (h : Speaks client name (.write w) sent)
    (hs : writeConnectionResume disk dir w wake = some (dir', w', out)) :
    Speaks client name (.write w') (sent ++ out) := by
  obtain ⟨hwho, h⟩ := h
  cases writeConnectionResume_step hs with
  | present hc =>
    simp only [hc] at h
    exact ⟨hwho, by simpa using h⟩
  | created hc =>
    simp only [hc] at h
    refine ⟨hwho, by simpa using h, ?_⟩
    unfold Directory.openOut
    split <;> simp
  | refused hc =>
    simp only [hc] at h
    refine ⟨hwho, fun q hq _ => ?_⟩
    simp only [h, List.nil_append, List.mem_singleton] at hq
    rw [if_neg (by simp), hq]
    exact fileExists_refuses w.path
  | unsent error hc =>
    simp only [hc] at h
    refine ⟨hwho, fun q hq => ?_⟩
    simp [h] at hq
  | started stream hc =>
    simp only [hc] at h
    obtain ⟨hnone, hbad⟩ := h
    refine ⟨hwho, fun stranger ht => absurd ht (receiveLoop_head_rejecting _ _), fun ho => ?_, ?_⟩
    · refine ⟨by simp [hnone], loopHead_bad ?_⟩
      exact hbad (by simpa [serverReceiveStart] using ho)
    · simp [hnone]
  | returned loop error hc =>
    simp only [hc] at h
    obtain ⟨_, hclosed, hsent⟩ := h
    refine ⟨hwho, fun q hq hq₁ => ?_⟩
    rw [List.append_nil] at hq
    by_cases ho : loop.fileStream.isOpen = true
    · simpa [close_isOpen, ho] using hsent q hq hq₁
    · rw [(hclosed (by simpa using ho)).1] at hq
      cases hq
  | looped loop loop' out hc hloop =>
    simp only [hc] at h
    obtain ⟨hpolite, hclosed, hsent⟩ := h
    refine ⟨hwho, fun stranger ht => ?_, fun ho => ?_, fun q hq hq₁ => ?_⟩
    · rcases receiveLoop_rejecting hloop ht with hr | ⟨_, _, hne⟩
      · exact hpolite stranger hr
      · exact hne
    · rw [receiveLoop_resume_isOpen hloop] at ho
      obtain ⟨_, error, he⟩ := hclosed ho
      simp [serverReceiveLoop, receiveLoopResume, he] at hloop
    · rcases List.mem_append.mp hq with hq | hq
      · exact hsent q hq hq₁
      · exact receiveLoop_resume_speaks hpolite hloop q hq hq₁

theorem connection_resume_speaks {disk : Disk} {dir dir' : Directory} {l l' : Connection}
    {wake : Wake} {out sent : Outgoing} {client : Endpoint} {name : List UInt8}
    (h : Speaks client name l sent)
    (hs : connectionResume disk dir l wake = some (dir', l', out)) :
    Speaks client name l' (sent ++ out) := by
  cases l with
  | read r =>
    obtain ⟨⟨r', o⟩, hr, hs⟩ := Option.map_eq_some_iff.mp hs
    cases hs
    exact readConnection_resume_speaks h hr
  | write w =>
    obtain ⟨⟨d, w', o⟩, hw, hs⟩ := Option.map_eq_some_iff.mp hs
    cases hs
    exact writeConnection_resume_speaks h hw

/-- What a connection says to the client shows whether it stores the client's upload. -/
theorem Speaks.upload {client : Endpoint} {name : List UInt8} {l : Connection} {out : Outgoing}
    (h : Speaks client name l out) {q : Endpoint × List UInt8} (hq : q ∈ out) (hc : q.1 = client) :
    if (l.upload name).isSome then getOpcode (receivePacket q.2) = .ack else Refuses q.2 := by
  cases l with
  | read r => exact h.2 q hq hc
  | write w =>
    obtain ⟨who, path, control⟩ := w
    obtain ⟨hwho, h⟩ := h
    cases control with
    | spawned => simp [show out = [] from h] at hq
    | refusing => simp [show out = [] from h] at hq
    | opened stream => simp [h.1] at hq
    | looping s =>
      have hsaid := h.2.2 q hq hc
      have hopen : s.fileStream.isOpen = true := by
        by_contra ho
        simp [(h.2.1 (by simpa using ho)).1] at hq
      rcases hwho with ⟨rfl, rfl⟩ | ⟨hne, hpath⟩
      · simpa [Connection.upload, hopen] using hsaid
      · dsimp only at hne hpath
        simpa [Connection.upload, hne, hpath] using hsaid
    | returned error stream =>
      have hsaid := h q hq hc
      rcases hwho with ⟨rfl, rfl⟩ | ⟨hne, hpath⟩
      · by_cases ho : stream.isOpen = true
        · simpa [Connection.upload, ho] using hsaid
        · simpa [Connection.upload, ho] using hsaid
      · dsimp only at hne hpath
        simpa [Connection.upload, hne, hpath] using hsaid

def WriteClient.refused (c : WriteClient) : Prop :=
  c.control = .returned (some .connectionRefused)

/-- No send of the client's loop has failed with the error of a refusal. -/
def WriteClient.unrefused (c : WriteClient) : Prop :=
  ∀ s, c.control = .looping s → s.control ≠ .finished (some .connectionRefused)

theorem sendLoop_head_unrefused (s : SendLoop) :
    s.loopHead.control ≠ .finished (some .connectionRefused) := by
  unfold SendLoop.loopHead
  split
  next => split <;> simp
  next => split <;> simp

theorem sendLoop_resume_unrefused {msg : String} {peer : Endpoint} {f : InputFile} {s t : SendLoop}
    {wake : Wake} {out : Outgoing} (hw : wake ≠ .sent (some .connectionRefused))
    (hs : sendLoopResume msg peer f s wake = some (t, out)) :
    t.control ≠ .finished (some .connectionRefused) := by
  cases sendLoopResume_step hs with
  | expired hc => exact hc _
  | sent => simp
  | unsent error _ hsent =>
    intro he
    simp only [LoopControl.finished.injEq, Option.some.injEq] at he
    exact hw (by rw [hsent, he])
  | unheard => exact sendLoop_head_unrefused s
  | stranger => simp
  | ignored => exact sendLoop_head_unrefused s
  | acknowledged => exact sendLoop_head_unrefused _
  | answered => exact sendLoop_head_unrefused s
  | unanswered => exact sendLoop_head_unrefused s

theorem handleServerResponse_refused_iff {expected : Opcode} {block : UInt16} {wake : Wake}
    {response : Except ErrorCode (Endpoint × List UInt8)}
    (h : handleServerResponse expected block wake = some response) :
    response = .error .connectionRefused ↔
      ∃ sender bytes, wake = .datagram sender bytes ∧ Refuses bytes := by
  unfold handleServerResponse at h
  split at h
  next => cases h; simp
  next sender bytes =>
    dsimp only at h
    split at h
    next hr => cases h; exact iff_of_true rfl ⟨sender, bytes, rfl, hr⟩
    next hr =>
      refine iff_of_false ?_ ?_
      · split at h <;> (cases h; simp)
      · rintro ⟨_, _, he, hr'⟩
        cases he
        exact hr hr'
  next => cases h

/-- The client fails with a refusal exactly if its handshake hears one. -/
theorem writeClient_resume_refused_iff {disk : Disk} {c c' : WriteClient} {wake : Wake}
    {out : Outgoing} (hw : wake ≠ .sent (some .connectionRefused)) (hc : c.unrefused)
    (hs : writeClientResume disk c wake = some (c', out)) :
    c'.filename = c.filename ∧ c'.unrefused ∧ (c'.refused ↔ c.control = .responding ∧
      ∃ sender bytes, wake = .datagram sender bytes ∧ Refuses bytes) := by
  cases writeClientResume_step hs with
  | requested hreq => simp [WriteClient.unrefused, WriteClient.refused, hreq]
  | unsent error hreq hsent =>
    refine ⟨rfl, by simp [WriteClient.unrefused], iff_of_false (fun he => ?_) (by simp [hreq])⟩
    simp only [WriteClient.refused, WriteClientControl.returned.injEq, Option.some.injEq] at he
    exact hw (by rw [hsent, he])
  | refused error hresp hresponse =>
    have hiff := handleServerResponse_refused_iff hresponse
    refine ⟨rfl, by simp [WriteClient.unrefused], ?_⟩
    simpa [WriteClient.refused, hresp] using hiff
  | answered sender response hresp hresponse =>
    have hiff := handleServerResponse_refused_iff hresponse
    refine ⟨rfl, by simp [WriteClient.unrefused], ?_⟩
    simpa [WriteClient.refused, hresp] using hiff
  | started hopen =>
    refine ⟨rfl, ?_, by simp [WriteClient.refused, hopen]⟩
    rintro s hs
    cases hs
    exact sendLoop_head_unrefused _
  | returned loop error hloop he =>
    refine ⟨rfl, by simp [WriteClient.unrefused], iff_of_false (fun hr => ?_) (by simp [hloop])⟩
    cases hr
    exact hc loop hloop he
  | looped loop loop' out hloop hr =>
    refine ⟨rfl, ?_, by simp [WriteClient.refused, hloop]⟩
    rintro _ hs
    cases hs
    exact sendLoop_resume_unrefused hw hr

/-- The client takes a reply for the answer to its request, and it comes from a connection that
does not store the upload. -/
def OthersAnswerFirst (x : UploadNet) (event : NetEvent) : Prop :=
  x.client.control = .responding ∧ ∃ n disk bytes, event = .reply n disk bytes ∧
    uploads x.server (uploadPath x.client.filename) n = none

structure NetInv (k : Hosts) (before : Directory) (x : UploadNet) : Prop where
  reach : ReflTransGen ServerStep (Config.init before) x.server
  speaks : ∀ n l, x.server.threads n = some l →
    Speaks k.client (uploadPath x.client.filename) l (x.server.logOf n)
  unrefused : x.client.unrefused

theorem spawnConnection_speaks {client sender : Endpoint} {name request : List UInt8}
    {l : Connection} (h : spawnConnection sender request = some l)
    (hwho : sender = client ∧ getOpcode request = .wrq ∧ pathFilename (getFilename request) = name ∨
      sender ≠ client ∧
        ¬ (getOpcode request = .wrq ∧ pathFilename (getFilename request) = name)) :
    Speaks client name l [] := by
  unfold spawnConnection at h
  dsimp only at h
  split at h
  next hop =>
    cases h
    rcases hwho with ⟨_, hw, _⟩ | ⟨hne, _⟩
    · rw [hop] at hw
      cases hw
    · exact ⟨hne, by simp⟩
  next hop =>
    cases h
    refine ⟨hwho.imp (fun h => ⟨h.1, h.2.2⟩) fun h => ⟨h.1, fun he => h.2 ⟨hop, he⟩⟩, rfl⟩
  next => cases h

theorem netInv_spawn {k : Hosts} {before : Directory} {x y : UploadNet} {n : Nat}
    {sender : Endpoint} {request : List UInt8} (inv : NetInv k before x)
    (hwho : sender = k.client ∧ getOpcode request = .wrq ∧
        pathFilename (getFilename request) = uploadPath x.client.filename ∨
      sender ≠ k.client ∧ ¬ (getOpcode request = .wrq ∧
        pathFilename (getFilename request) = uploadPath x.client.filename))
    (hs : x.spawn n sender request = some y) : NetInv k before y ∧ y.client = x.client := by
  unfold UploadNet.spawn at hs
  split at hs
  next => cases hs
  next hfree =>
    obtain ⟨l, hl, rfl⟩ := Option.map_eq_some_iff.mp hs
    have hnone : x.server.threads n = none := by simpa using hfree
    have hstep : ServerStep x.server
        { x.server with threads := Function.update x.server.threads n (some l) } :=
      .spawn hnone ⟨sender, request, hl⟩ (tftpServer_free _ _)
    refine ⟨⟨inv.reach.tail hstep, fun m l' hm => ?_, inv.unrefused⟩, rfl⟩
    by_cases hmn : m = n
    · subst hmn
      simp only [Function.update_self, Option.some.injEq] at hm
      subst hm
      have hlog : x.server.logOf m = [] := server_reaches_fresh inv.reach hnone
      exact (show Speaks _ _ _ (x.server.logOf m) by rw [hlog]; exact spawnConnection_speaks hl hwho)
    · simp only [Function.update_of_ne hmn] at hm
      exact inv.speaks m l' hm

theorem netInv_resume {k : Hosts} {before : Directory} {x : UploadNet} {n : Nat} {i : Disk × Wake}
    {server : ServerConfig} (inv : NetInv k before x)
    (hs : x.server.resumed tftpServer n i = some server) :
    NetInv k before { x with server } := by
  refine ⟨inv.reach.tail (resumed_step hs (tftpServer_free _ _)), fun m l' hm => ?_, inv.unrefused⟩
  obtain ⟨l, hl, hs⟩ := Option.bind_eq_some_iff.mp hs
  obtain ⟨⟨dir, l₁, out⟩, hr, rfl⟩ := Option.map_eq_some_iff.mp hs
  by_cases hmn : m = n
  · subst hmn
    simp only [Function.update_self, Option.some.injEq] at hm
    subst hm
    rw [logOf_append_self]
    exact connection_resume_speaks (inv.speaks m l hl) hr
  · simp only [Function.update_of_ne hmn] at hm
    rw [logOf_append_ne _ _ _ _ (Ne.symm hmn)]
    exact inv.speaks m l' hm

theorem mem_logOf {c : ServerConfig} {n : Nat} {e : Endpoint × List UInt8} (h : (n, e) ∈ c.log) :
    e ∈ c.logOf n :=
  List.mem_map.mpr ⟨(n, e), List.mem_filter.mpr ⟨h, by simp⟩, rfl⟩

/-- A reply is a refusal exactly if it comes from a connection that does not store the upload. -/
theorem reply_refuses_iff {k : Hosts} {before : Directory} {x : UploadNet} {n : Nat}
    {bytes : List UInt8} (inv : NetInv k before x) (h : (n, k.client, bytes) ∈ x.server.log) :
    Refuses bytes ↔ uploads x.server (uploadPath x.client.filename) n = none := by
  have hmem := mem_logOf h
  cases hl : x.server.threads n with
  | none =>
    rw [server_reaches_fresh inv.reach hl] at hmem
    cases hmem
  | some l =>
    have hup := (inv.speaks n l hl).upload hmem rfl
    rw [uploads, hl, Option.bind_some]
    cases hl : l.upload (uploadPath x.client.filename) with
    | none => simpa [hl] using hup
    | some s =>
      refine iff_of_false (fun hr => ?_) (by simp)
      simp only [hl, Option.isSome_some, if_true] at hup
      unfold Refuses getError at hr
      split at hr
      next => cases hr
      next => simp [hup] at hr

theorem netInv_client {k : Hosts} {before : Directory} {x : UploadNet} {disk : Disk} {wake : Wake}
    {client : WriteClient} {out : Outgoing} (inv : NetInv k before x)
    (hw : wake ≠ .sent (some .connectionRefused))
    (hs : writeClientResume disk x.client wake = some (client, out)) :
    NetInv k before { x with client } ∧ ¬ x.client.refused ∧ (client.refused ↔
      x.client.control = .responding ∧ ∃ sender bytes, wake = .datagram sender bytes ∧
        Refuses bytes) := by
  obtain ⟨hname, hpolite, hiff⟩ := writeClient_resume_refused_iff hw inv.unrefused hs
  refine ⟨⟨inv.reach, by simpa only [hname] using inv.speaks, hpolite⟩, fun hr => ?_, hiff⟩
  rw [WriteClient.refused] at hr
  simp [writeClientResume, hr] at hs

/-- What an event does to the invariant, and when it makes the client fail. -/
theorem net_next {k : Hosts} {before : Directory} {x y : UploadNet} {event : NetEvent}
    (inv : NetInv k before x) (hs : x.next k event = some y) :
    NetInv k before y ∧ (y.client.refused ↔ x.client.refused ∨ OthersAnswerFirst x event) := by
  -- what does not reach the client does not make it fail
  have away : (∀ n disk bytes, event ≠ .reply n disk bytes) → y.client = x.client →
      (y.client.refused ↔ x.client.refused ∨ OthersAnswerFirst x event) := by
    intro hne hc
    rw [hc, or_iff_left]
    rintro ⟨_, n, disk, bytes, he, _⟩
    exact hne n disk bytes he
  cases event with
  | request n =>
    simp only [UploadNet.next] at hs
    split at hs
    next => cases hs
    next =>
      obtain ⟨inv', hc⟩ := netInv_spawn inv (Or.inl ⟨rfl, by simp, rfl⟩) hs
      exact ⟨inv', away (by simp) hc⟩
  | other n sender request =>
    simp only [UploadNet.next] at hs
    split at hs
    next => cases hs
    next hwho =>
      obtain ⟨inv', hc⟩ := netInv_spawn inv (Or.inr (not_or.mp hwho)) hs
      exact ⟨inv', away (by simp) hc⟩
  | resume n disk wake =>
    obtain ⟨server, hr, rfl⟩ := Option.map_eq_some_iff.mp hs
    exact ⟨netInv_resume inv hr, away (by simp) rfl⟩
  | reply n disk bytes =>
    simp only [UploadNet.next] at hs
    split at hs
    next hmem =>
      obtain ⟨⟨client, out⟩, hr, rfl⟩ := Option.map_eq_some_iff.mp hs
      obtain ⟨inv', hnot, hiff⟩ := netInv_client inv (by simp) hr
      refine ⟨inv', ?_⟩
      rw [or_iff_right hnot, hiff]
      constructor
      · rintro ⟨hc, _, _, he, hrefuses⟩
        cases he
        exact ⟨hc, n, disk, bytes, rfl, (reply_refuses_iff inv hmem).mp hrefuses⟩
      · rintro ⟨hc, _, _, _, he, hnone⟩
        cases he
        exact ⟨hc, _, bytes, rfl, (reply_refuses_iff inv hmem).mpr hnone⟩
    next => cases hs
  | client disk wake =>
    simp only [UploadNet.next] at hs
    split at hs
    next => cases hs
    next => cases hs
    next hdatagram hrefusal =>
      obtain ⟨⟨client, out⟩, hr, rfl⟩ := Option.map_eq_some_iff.mp hs
      obtain ⟨inv', hnot, hiff⟩ := netInv_client inv (fun he => hrefusal he) hr
      refine ⟨inv', ?_⟩
      rw [or_iff_right hnot, hiff]
      refine iff_of_false ?_ ?_
      · rintro ⟨_, sender, bytes, he, _⟩
        exact hdatagram sender bytes he
      · rintro ⟨_, _, _, _, he, _⟩
        cases he

def UploadNet.start (k : Hosts) (before : Directory) (filename source : List UInt8) : UploadNet :=
  ⟨⟨k.listener, filename, source, .requesting⟩, Config.init before⟩

/-- The first reply to reach the client is not from a connection that has found the file there. -/
def CreatorAnswersFirst (k : Hosts) (before : Directory) (filename source : List UInt8)
    (events : List NetEvent) : Prop :=
  ¬ MeetsEvent (UploadNet.next k) OthersAnswerFirst (.start k before filename source) events

/-- Whatever the network does with the copies of the request and with the replies, the client does
not fail with a refusal exactly if the creator of the file answers first. -/
theorem upload_unrefused_iff (k : Hosts) (before : Directory) (filename source : List UInt8)
    (events : List NetEvent) (x : UploadNet)
    (run : events.foldlM (UploadNet.next k) (.start k before filename source) = some x) :
    ¬ x.client.refused ↔ CreatorAnswersFirst k before filename source events := by
  refine not_congr (foldlM_history (P := fun past x => NetInv k before x ∧ (x.client.refused ↔
    MeetsEvent (UploadNet.next k) OthersAnswerFirst (.start k before filename source) past))
    run ⟨⟨.refl, ?_, ?_⟩, ?_⟩ ?_).2
  · intro n l hn
    cases hn
  · intro s hs
    cases hs
  · refine iff_of_false (fun hr => by cases hr) ?_
    rintro ⟨_, _, _, _, he, _⟩
    simp at he
  · rintro past u event v _ hrun ⟨inv, hiff⟩ hs
    obtain ⟨inv', hnext⟩ := net_next inv hs
    exact ⟨inv', by rw [meetsEvent_snoc hrun, hnext, hiff]⟩

def threePorts : Hosts := ⟨⟨1, 50000⟩, askedServer, fun n => 50001 + UInt16.ofNat n⟩

/-- Two copies of the request have arrived; the first one has created the file. -/
def requestedTwice : List NetEvent :=
  [.client {} (.sent none), .request 0, .request 1, .resume 0 {} .scheduled, .resume 1 {} .scheduled]

def creatorAnswered : List NetEvent :=
  requestedTwice ++ [.resume 0 {} .scheduled, .resume 0 {} (.sent none), .reply 0 {} (ackBytes 0)]

def duplicateAnswered : List NetEvent :=
  requestedTwice ++ [.resume 1 {} (.sent none), .reply 1 {} (fileExists (literal "f"))]

theorem upload_unrefused_creator :
    CreatorAnswersFirst threePorts noFiles (literal "f") [7] creatorAnswered :=
  (upload_unrefused_iff threePorts noFiles (literal "f") [7] creatorAnswered _ rfl).mp
    fun hr => by cases hr

/-- The reply to the second copy arrives first: the upload is refused, and no file was there. -/
theorem upload_refused_duplicate : noFiles.status (uploadPath (literal "f")) = none ∧
    ∃ x, duplicateAnswered.foldlM (UploadNet.next threePorts)
      (.start threePorts noFiles (literal "f") [7]) = some x ∧ x.client.refused :=
  ⟨by decide +kernel, _, rfl, rfl⟩

end Protocols
