import Protocols.TftpExchange
import Protocols.TftpRefinement

namespace Protocols

open Relation

abbrev WriteExchange := Exchange WriteClient (Directory × Option Connection)

abbrev WriteExchangeStep (k : Sockets) : WriteExchange → WriteExchange → Prop :=
  ExchangeStep (writeClientParty k) (serverParty k)

/-- A write transfer on file systems on which anything may fail but reading the file from within. -/
abbrev UnbrokenWriteStep (k : Sockets) (file : List UInt8) : WriteExchange → WriteExchange → Prop :=
  ExchangeStepOn (fun disk => UnbrokenWithin file disk.readFault) (writeClientParty k) (serverParty k)

/-- Where `write_client` stands when the abstract sender is at `a`. -/
def WriteClientRelated (k : Sockets) (file : List UInt8) (c : WriteClient)
    (a : StopAndWaitState (List UInt8)) : Prop :=
  match c.control with
  | .requesting | .responding => c.server = k.listener ∧ a.next = 1
  | .opened => c.server = k.connection ∧ a.next = 1
  | .looping s => c.server = k.connection ∧ SenderStands file s a
  | .returned none => a.next = chunkCount dataChunkSize file + 1
  | .returned (some _) => True

/-- Where `write_connection` stands when the abstract receiver is at `a`. -/
def WriteConnectionRelated (k : Sockets) (c : WriteConnection)
    (a : StopAndWaitState (List UInt8)) : Prop :=
  c.clientEndpoint = k.client ∧
  match c.control with
  | .spawned | .refusing => a.received = []
  | .opened stream => a.received = [] ∧ stream.contents = []
  | .looping s => ReceiverRelated s a
  | .returned _ stream => stream.contents = a.received.flatten

theorem WriteClientRelated.of_next {k : Sockets} {file : List UInt8} {c : WriteClient}
    {a b : StopAndWaitState (List UInt8)} (h : WriteClientRelated k file c a)
    (hn : b.next = a.next) : WriteClientRelated k file c b := by
  unfold WriteClientRelated at h ⊢
  split at h
  next => exact ⟨h.1, hn.trans h.2⟩
  next => exact ⟨h.1, hn.trans h.2⟩
  next => exact ⟨h.1, hn.trans h.2⟩
  next => exact ⟨h.1, h.2.of_next hn⟩
  next => exact hn.trans h
  next => trivial

theorem WriteConnectionRelated.of_received {k : Sockets} {c : WriteConnection}
    {a b : StopAndWaitState (List UInt8)} (h : WriteConnectionRelated k c a)
    (hr : b.received = a.received) : WriteConnectionRelated k c b := by
  refine ⟨h.1, ?_⟩
  have hc := h.2
  split at hc
  next => exact hr.trans hc
  next => exact hr.trans hc
  next => exact ⟨hr.trans hc.1, hc.2⟩
  next => exact ⟨by rw [hr]; exact hc.count, by rw [hr]; exact hc.contents, hc.running, hc.polite⟩
  next => rw [hr]; exact hc

/-- Every datagram of a write transfer is the request, an offered block, a given
acknowledgement, or the refusal of the request. -/
def WritePacket (k : Sockets) (file : List UInt8) (a : StopAndWaitState (List UInt8))
    (p : Packet) : Prop :=
  (p.sender = k.client ∧ p.receiver = k.listener ∧ getOpcode p.bytes = .wrq) ∨
  (p.sender = k.client ∧ p.receiver = k.connection ∧ ∃ j ∈ a.offered, p.bytes = dataBytes file j) ∨
  (p.sender = k.connection ∧ p.receiver = k.client ∧ ∃ b ∈ a.confirmed, p.bytes = ackBytes b) ∨
  (p.sender = k.connection ∧ p.receiver = k.client ∧ getOpcode p.bytes = .error)

structure WriteRelated (k : Sockets) (file : List UInt8) (x : WriteExchange)
    (a : StopAndWaitState (List UInt8)) : Prop where
  inv : StopAndWaitInv (transfer file 0) a
  source : x.client.source = file
  client : WriteClientRelated k file x.client a
  unserved : x.server.2 = none → a.received = []
  server : ∀ c, x.server.2 = some c → ∃ w, c = .write w ∧ WriteConnectionRelated k w a
  packets : ∀ p ∈ x.sent, WritePacket k file a p

theorem WritePacket.mono {k : Sockets} {file : List UInt8} {a b : StopAndWaitState (List UInt8)}
    {p : Packet} (h : WritePacket k file a p) (ho : ∀ j ∈ a.offered, j ∈ b.offered)
    (hc : ∀ j ∈ a.confirmed, j ∈ b.confirmed) : WritePacket k file b p := by
  rcases h with h | ⟨h1, h2, j, hj, h3⟩ | ⟨h1, h2, j, hj, h3⟩ | h
  · exact Or.inl h
  · exact Or.inr (Or.inl ⟨h1, h2, j, ho j hj, h3⟩)
  · exact Or.inr (Or.inr (Or.inl ⟨h1, h2, j, hc j hj, h3⟩))
  · exact Or.inr (Or.inr (Or.inr h))

theorem WriteRelated.client_hears {k : Sockets} {file : List UInt8} {x : WriteExchange}
    {a : StopAndWaitState (List UInt8)} (h : WriteRelated k file x a) {wake : Wake}
    (ha : Arrives x.sent k.client wake) {sender : Endpoint} {bytes : List UInt8}
    (hw : wake = .datagram sender bytes) :
    sender = k.connection ∧
      (getOpcode (receivePacket bytes) = .ack → ∃ b ∈ a.confirmed, bytes = ackBytes b) := by
  have hne : k.client ≠ k.connection := k.client_ne_connection
  rcases h.packets _ (ha _ _ hw) with ⟨_, hr, _⟩ | ⟨_, hr, _⟩ | ⟨hs, _, b, hb, hbytes⟩ |
    ⟨hs, _, herr⟩
  · exact absurd hr k.client_ne_listener
  · exact absurd hr hne
  · exact ⟨hs, fun _ => ⟨b, hb, hbytes⟩⟩
  · refine ⟨hs, fun hop => ?_⟩
    rw [getOpcode_receivePacket, herr] at hop
    cases hop

theorem WriteRelated.connection_hears {k : Sockets} {file : List UInt8} {x : WriteExchange}
    {a : StopAndWaitState (List UInt8)} (h : WriteRelated k file x a) {wake : Wake}
    (ha : Arrives x.sent k.connection wake) {sender : Endpoint} {bytes : List UInt8}
    (hw : wake = .datagram sender bytes) :
    sender = k.client ∧
      (getOpcode (receivePacket bytes) = .data → ∃ j ∈ a.offered, bytes = dataBytes file j) := by
  have hne : k.client ≠ k.connection := k.client_ne_connection
  rcases h.packets _ (ha _ _ hw) with ⟨_, hr, _⟩ | ⟨hs, _, j, hj, hbytes⟩ | ⟨_, hr, _⟩ | ⟨_, hr, _⟩
  · exact absurd hr.symm k.listener_ne_connection
  · exact ⟨hs, fun _ => ⟨j, hj, hbytes⟩⟩
  · exact absurd hr.symm hne
  · exact absurd hr.symm hne

theorem handleServerResponse_ok {expected : Opcode} {block : UInt16} {wake : Wake}
    {sender : Endpoint} {response : List UInt8}
    (h : handleServerResponse expected block wake = some (.ok (sender, response))) :
    ∃ bytes, wake = .datagram sender bytes ∧ response = receivePacket bytes ∧
      getOpcode response = expected ∧ getBlockNumber response = block := by
  unfold handleServerResponse at h
  dsimp only at h
  split at h
  next => simp at h
  next sender' bytes =>
    split at h
    next => simp at h
    next =>
      split at h
      next => simp at h
      next hc =>
        simp only [Option.some.injEq, Except.ok.injEq, Prod.mk.injEq] at h
        obtain ⟨rfl, rfl⟩ := h
        simp only [ne_eq, not_or, not_not] at hc
        exact ⟨bytes, rfl, rfl, hc⟩
  next => simp at h

/-- The abstract run that follows a step of `write_client`. -/
structure WriteClientFollows (k : Sockets) (file : List UInt8) (a : StopAndWaitState (List UInt8))
    (c : WriteClient) (out : Outgoing) (a' : StopAndWaitState (List UInt8)) : Prop where
  reach : ReflTransGen (StopAndWaitStep (transfer file 0)) a a'
  related : WriteClientRelated k file c a'
  source : c.source = file
  received : a'.received = a.received
  confirmed : a'.confirmed = a.confirmed
  offered : ∀ j ∈ a.offered, j ∈ a'.offered
  out : ∀ q ∈ out, (q.1 = k.listener ∧ getOpcode q.2 = .wrq) ∨
    (q.1 = k.connection ∧ ∃ j ∈ a'.offered, q.2 = dataBytes file j)

theorem writeClientFollows_stay {k : Sockets} {file : List UInt8}
    {a : StopAndWaitState (List UInt8)} {c : WriteClient} {out : Outgoing}
    (hc : WriteClientRelated k file c a) (hs : c.source = file)
    (ho : ∀ q ∈ out, q.1 = k.listener ∧ getOpcode q.2 = .wrq) :
    ∃ a', WriteClientFollows k file a c out a' :=
  ⟨a, .refl, hc, hs, rfl, rfl, fun _ hj => hj, fun q hq => Or.inl (ho q hq)⟩

theorem writeClient_simulates {k : Sockets} {file : List UInt8} {x : WriteExchange}
    {a : StopAndWaitState (List UInt8)} {disk : Disk} {wake : Wake} {c : WriteClient}
    {out : Outgoing} (h : WriteRelated k file x a) (hd : UnbrokenWithin file disk.readFault)
    (ha : Arrives x.sent k.client wake) (hs : writeClientResume disk x.client wake = some (c, out)) :
    ∃ a', WriteClientFollows k file a c out a' := by
  have hrel := h.client
  unfold WriteClientRelated at hrel
  cases writeClientResume_step hs with
  | requested hc =>
    simp only [hc] at hrel
    exact writeClientFollows_stay hrel h.source (by simp [hrel.1])
  | unsent => exact writeClientFollows_stay trivial h.source (by simp)
  | refused => exact writeClientFollows_stay trivial h.source (by simp)
  | answered sender response hc hresponse =>
    simp only [hc] at hrel
    obtain ⟨raw, hw, _⟩ := handleServerResponse_ok hresponse
    have hsender := (h.client_hears ha hw).1
    refine writeClientFollows_stay ⟨?_, hrel.2⟩ h.source (by simp)
    simp [hsender, hrel.1, Sockets.connection]
  | started hc =>
    simp only [hc] at hrel
    refine writeClientFollows_stay ⟨hrel.1, ?_⟩ h.source (by simp)
    rw [h.source]
    exact @senderStands_start ⟨file, disk.readFault⟩ a hrel.2
  | returned loop error hc he =>
    simp only [hc] at hrel
    refine writeClientFollows_stay ?_ h.source (by simp)
    cases error with
    | none => exact (hrel.2.running (by simp [he])).at_next.succeeded he
    | some => trivial
  | looped loop loop' out hc hloop =>
    simp only [hc] at hrel
    rw [hrel.1] at hloop
    obtain ⟨a', hreach, hrel', hrec, hconf, hoff, hout⟩ := sender_simulates
      (hrel.2.running (sendLoop_runs hloop _)) h.source hd (fun _ _ hw => h.client_hears ha hw) hloop
    exact ⟨a', hreach, ⟨hrel.1, Or.inl hrel'⟩, h.source, hrec, hconf, hoff,
      fun q hq => Or.inr (hout q hq)⟩

/-- The abstract run that follows a step of `write_connection`. -/
structure WriteConnectionFollows (k : Sockets) (file : List UInt8)
    (a : StopAndWaitState (List UInt8)) (c : WriteConnection) (out : Outgoing)
    (a' : StopAndWaitState (List UInt8)) : Prop where
  reach : ReflTransGen (StopAndWaitStep (transfer file 0)) a a'
  related : WriteConnectionRelated k c a'
  next : a'.next = a.next
  offered : a'.offered = a.offered
  confirmed : ∀ b ∈ a.confirmed, b ∈ a'.confirmed
  out : ∀ q ∈ out, q.1 = k.client ∧
    ((∃ b ∈ a'.confirmed, q.2 = ackBytes b) ∨ getOpcode q.2 = .error)

theorem writeConnectionFollows_stay {k : Sockets} {file : List UInt8}
    {a : StopAndWaitState (List UInt8)} {c : WriteConnection} {out : Outgoing}
    (hc : WriteConnectionRelated k c a)
    (ho : ∀ q ∈ out, q.1 = k.client ∧ getOpcode q.2 = .error) :
    ∃ a', WriteConnectionFollows k file a c out a' :=
  ⟨a, .refl, hc, rfl, rfl, fun _ hb => hb, fun q hq => ⟨(ho q hq).1, Or.inr (ho q hq).2⟩⟩

theorem serverReceiveStart_related {stream : OfStream} {a : StopAndWaitState (List UInt8)}
    (hr : a.received = []) (hs : stream.contents = []) :
    ReceiverRelated (serverReceiveStart stream) a where
  count := by simp [serverReceiveStart, hr]
  contents := by simp [serverReceiveStart, hr, hs]
  running := receiveLoop_head_running
  polite := receiveLoop_head_rejecting _

theorem openOut_contents (disk : Disk) (dir : Directory) (name : List UInt8) :
    (dir.openOut disk name).2.contents = [] := by
  unfold Directory.openOut
  split <;> rfl

theorem writeConnection_simulates {k : Sockets} {file : List UInt8} {x : WriteExchange}
    {a : StopAndWaitState (List UInt8)} {disk : Disk} {wake : Wake} {dir : Directory}
    {w c : WriteConnection} {out : Outgoing} (h : WriteRelated k file x a)
    (hw : WriteConnectionRelated k w a) (ha : Arrives x.sent k.connection wake)
    (hs : writeConnectionResume disk x.server.1 w wake = some (dir, c, out)) :
    ∃ a', WriteConnectionFollows k file a c out a' := by
  obtain ⟨hclient, hrel⟩ := hw
  cases writeConnectionResume_step hs with
  | present hc =>
    simp only [hc] at hrel
    exact writeConnectionFollows_stay ⟨hclient, hrel⟩ (by simp)
  | created hc =>
    simp only [hc] at hrel
    exact writeConnectionFollows_stay ⟨hclient, hrel, openOut_contents _ _ _⟩ (by simp)
  | refused hc =>
    simp only [hc] at hrel
    exact writeConnectionFollows_stay ⟨hclient, by simp [hrel, OfStream.contents]⟩
      (by simp [hclient, fileExists])
  | unsent error hc =>
    simp only [hc] at hrel
    exact writeConnectionFollows_stay ⟨hclient, by simp [hrel, OfStream.contents]⟩ (by simp)
  | started stream hc =>
    simp only [hc] at hrel
    exact writeConnectionFollows_stay ⟨hclient, serverReceiveStart_related hrel.1 hrel.2⟩ (by simp)
  | returned loop error hc =>
    simp only [hc] at hrel
    exact writeConnectionFollows_stay ⟨hclient, by simp [hrel.contents]⟩ (by simp)
  | looped loop loop' out hc hloop =>
    simp only [hc] at hrel
    rw [hclient] at hloop
    obtain ⟨a', hreach, hrel', hnext, hoff, hconf, _, hout⟩ := receiver_simulates h.inv hrel
      (Nat.zero_le _) (fun _ _ hw => h.connection_hears ha hw) hloop
    exact ⟨a', hreach, ⟨hclient, hrel'⟩, hnext, hoff, hconf,
      fun q hq => ⟨(hout q hq).1, Or.inl (hout q hq).2⟩⟩

theorem stopAndWait_run_inv {p : StopAndWait (List UInt8)} {a b : StopAndWaitState (List UInt8)}
    (inv : StopAndWaitInv p a) (h : ReflTransGen (StopAndWaitStep p) a b) : StopAndWaitInv p b :=
  reaches_invariant h inv fun _ _ => stopAndWait_step_inv

/-- Every step of a write transfer is followed by the abstract protocol. -/
theorem write_simulates {k : Sockets} {file : List UInt8} {x y : WriteExchange}
    {a : StopAndWaitState (List UInt8)} (h : WriteRelated k file x a)
    (hs : UnbrokenWriteStep k file x y) :
    ∃ b, ReflTransGen (StopAndWaitStep (transfer file 0)) a b ∧ WriteRelated k file y b := by
  cases hs with
  | @client disk wake c out hd ha hs =>
    obtain ⟨b, hf⟩ := writeClient_simulates h hd ha hs
    refine ⟨b, hf.reach, stopAndWait_run_inv h.inv hf.reach, hf.source, hf.related, ?_, ?_, ?_⟩
    · rw [hf.received]; exact h.unserved
    · intro c hc
      obtain ⟨w, hw, hrel⟩ := h.server c hc
      exact ⟨w, hw, hrel.of_received hf.received⟩
    · intro q hq
      rcases List.mem_append.mp hq with hq | hq
      · exact (h.packets q hq).mono hf.offered (by rw [hf.confirmed]; exact fun _ hj => hj)
      · obtain ⟨hsend, hout⟩ := mem_outgoing.mp hq
        rcases hf.out _ hout with ⟨hr, hop⟩ | ⟨hr, hj⟩
        · exact Or.inl ⟨hsend, hr, hop⟩
        · exact Or.inr (Or.inl ⟨hsend, hr, hj⟩)
  | @server disk wake t out hd ha hs =>
    rcases serverParty_step ha hs with ⟨sender, bytes, c, hc, hrequest, hspawn, rfl, rfl⟩ |
      ⟨c, dir, c', hc, ha, hresume, rfl⟩
    · refine ⟨a, .refl, h.inv, h.source, h.client, by simp, ?_, by simpa [outgoing] using h.packets⟩
      intro c' hc'
      cases hc'
      have hconn : k.client ≠ k.connection := k.client_ne_connection
      -- of all that has been sent, only the request has gone to the listening socket
      rcases h.packets _ hrequest with ⟨hsender, _, hop⟩ | ⟨_, hr, _⟩ | ⟨_, hr, _⟩ | ⟨_, hr, _⟩
      · simp only at hsender hop
        simp only [spawnConnection, hop, Option.some.injEq] at hspawn
        exact ⟨_, hspawn.symm, hsender, h.unserved hc⟩
      · exact absurd hr k.listener_ne_connection
      · exact absurd hr.symm k.client_ne_listener
      · exact absurd hr.symm k.client_ne_listener
    · obtain ⟨w, rfl, hw⟩ := h.server c hc
      obtain ⟨⟨_, c, _⟩, hconn, he⟩ := Option.map_eq_some_iff.mp hresume
      cases he
      obtain ⟨b, hf⟩ := writeConnection_simulates h hw ha hconn
      refine ⟨b, hf.reach, stopAndWait_run_inv h.inv hf.reach, h.source, ?_, by simp, ?_, ?_⟩
      · exact h.client.of_next hf.next
      · intro c' hc'
        cases hc'
        exact ⟨c, rfl, hf.related⟩
      · intro q hq
        rcases List.mem_append.mp hq with hq | hq
        · exact (h.packets q hq).mono (by rw [hf.offered]; exact fun _ hj => hj) hf.confirmed
        · obtain ⟨hsend, hout⟩ := mem_outgoing.mp hq
          obtain ⟨hr, hb | hop⟩ := hf.out _ hout
          · exact Or.inr (Or.inr (Or.inl ⟨hsend, hr, hb⟩))
          · exact Or.inr (Or.inr (Or.inr ⟨hsend, hr, hop⟩))

theorem write_reaches_unbroken {k : Sockets} {file filename : List UInt8} {dir : Directory}
    {x : WriteExchange}
    (h : ReflTransGen (UnbrokenWriteStep k file) (writeExchange k file filename dir) x) :
    ∃ a, WriteRelated k file x a := by
  have start : WriteRelated k file (writeExchange k file filename dir) .init :=
    ⟨stopAndWait_init_inv (by simp [transfer]), rfl, ⟨rfl, rfl⟩, fun _ => rfl,
      by simp [writeExchange], by simp [writeExchange]⟩
  obtain ⟨a, _, hr⟩ := reaches_simulation h start fun _ _ _ hr hs => write_simulates hr hs
  exact ⟨a, hr⟩

theorem write_unbroken {k : Sockets} {file : List UInt8} {x y : WriteExchange}
    (h : WriteExchangeStep k x y) : UnbrokenWriteStep k file x y :=
  h.mono fun _ hd => unbroken_of_none hd.reads

theorem write_reaches_related {k : Sockets} {file filename : List UInt8} {dir : Directory}
    {x : WriteExchange} (h : ReflTransGen (WriteExchangeStep k) (writeExchange k file filename dir) x) :
    ∃ a, WriteRelated k file x a :=
  write_reaches_unbroken (ReflTransGen.mono (fun _ _ => write_unbroken) _ _ h)

end Protocols
