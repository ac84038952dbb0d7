import Protocols.TftpWrite

namespace Protocols

open Relation

abbrev ReadExchange := Exchange (Directory × ReadClient) (Directory × Option Connection)

abbrev ReadExchangeStep (k : Sockets) : ReadExchange → ReadExchange → Prop :=
  ExchangeStep (readClientParty k) (serverParty k)

/-- A read transfer on file systems on which anything may fail but reading the file from within. -/
abbrev UnbrokenReadStep (k : Sockets) (file : List UInt8) : ReadExchange → ReadExchange → Prop :=
  ExchangeStepOn (fun disk => UnbrokenWithin file disk.readFault) (readClientParty k) (serverParty k)

/-- The name under which the server looks for what a client asks for. -/
def requestedPath (target : List UInt8) : List UInt8 :=
  pathFilename (getFilename (RrqPacket.toBuffer { filename := target }))

/-- Where `read_client` stands when the abstract receiver is at `a`. -/
def ReadClientRelated (k : Sockets) (file target : List UInt8) (dir : Directory) (c : ReadClient)
    (a : StopAndWaitState (List UInt8)) : Prop :=
  c.target = target ∧
  match c.control with
  | .requesting | .responding =>
    c.server = k.listener ∧ a.received = [] ∧ dir.status target = none
  | .opened stream response => c.server = k.connection ∧ a.received = [] ∧ stream.contents = [] ∧
    stream.good = true ∧ ∃ j ∈ a.offered, j % 65536 = 1 ∧ response = dataBytes file j
  | .looping s => c.server = k.connection ∧ ReceiverRelated s a ∧ 1 ≤ a.received.length
  | .returned _ stream => stream.contents = a.received.flatten
  | .threw => a.received = []

/-- Where `read_connection` stands when the abstract sender is at `a`. -/
def ReadConnectionRelated (k : Sockets) (file target : List UInt8) (c : ReadConnection)
    (a : StopAndWaitState (List UInt8)) : Prop :=
  c.clientEndpoint = k.client ∧ c.path = requestedPath target ∧
  match c.control with
  | .spawned | .opened => a.next = 1
  | .refusing => False
  | .looping s => SenderStands file s a
  | .returned none => a.next = chunkCount dataChunkSize file + 1
  | .returned (some _) => True

/-- Every datagram of a read transfer is the request, an offered block or a given
acknowledgement. -/
def ReadPacket (k : Sockets) (file target : List UInt8) (a : StopAndWaitState (List UInt8))
    (p : Packet) : Prop :=
  (p.sender = k.client ∧ p.receiver = k.listener ∧
    p.bytes = RrqPacket.toBuffer { filename := target }) ∨
  (p.sender = k.connection ∧ p.receiver = k.client ∧ ∃ j ∈ a.offered, p.bytes = dataBytes file j) ∨
  (p.sender = k.client ∧ p.receiver = k.connection ∧ ∃ b ∈ a.confirmed, p.bytes = ackBytes b)

structure ReadRelated (k : Sockets) (file target : List UInt8) (x : ReadExchange)
    (a : StopAndWaitState (List UInt8)) : Prop where
  inv : StopAndWaitInv (transfer file 1) a
  found : x.server.1.status (requestedPath target) = some (.file file)
  client : ReadClientRelated k file target x.client.1 x.client.2 a
  unserved : x.server.2 = none → a.next = 1
  server : ∀ c, x.server.2 = some c → ∃ r, c = .read r ∧ ReadConnectionRelated k file target r a
  packets : ∀ p ∈ x.sent, ReadPacket k file target a p

theorem ReadClientRelated.mono {k : Sockets} {file target : List UInt8} {dir : Directory}
    {c : ReadClient} {a b : StopAndWaitState (List UInt8)}
    (h : ReadClientRelated k file target dir c a) (hr : b.received = a.received)
    (ho : ∀ j ∈ a.offered, j ∈ b.offered) : ReadClientRelated k file target dir c b := by
  refine ⟨h.1, ?_⟩
  have hc := h.2
  split at hc
  next => rw [hr]; exact hc
  next => rw [hr]; exact hc
  next =>
    obtain ⟨h1, h2, h3, h4, j, hj, h5⟩ := hc
    exact ⟨h1, hr.trans h2, h3, h4, j, ho j hj, h5⟩
  next =>
    obtain ⟨h1, h2, h3⟩ := hc
    exact ⟨h1, ⟨by rw [hr]; exact h2.count, by rw [hr]; exact h2.contents, h2.running, h2.polite⟩,
      by rw [hr]; exact h3⟩
  next => rw [hr]; exact hc
  next => rw [hr]; exact hc

theorem ReadConnectionRelated.of_next {k : Sockets} {file target : List UInt8} {c : ReadConnection}
    {a b : StopAndWaitState (List UInt8)} (h : ReadConnectionRelated k file target c a)
    (hn : b.next = a.next) : ReadConnectionRelated k file target c b := by
  refine ⟨h.1, h.2.1, ?_⟩
  have hc := h.2.2
  split at hc
  next => exact hn.trans hc
  next => exact hn.trans hc
  next => exact hc
  next => exact hc.of_next hn
  next => exact hn.trans hc
  next => trivial

theorem ReadPacket.mono {k : Sockets} {file target : List UInt8}
    {a b : StopAndWaitState (List UInt8)} {p : Packet} (h : ReadPacket k file target a p)
    (ho : ∀ j ∈ a.offered, j ∈ b.offered) (hc : ∀ j ∈ a.confirmed, j ∈ b.confirmed) :
    ReadPacket k file target b p := by
  rcases h with h | ⟨h1, h2, j, hj, h3⟩ | ⟨h1, h2, j, hj, h3⟩
  · exact Or.inl h
  · exact Or.inr (Or.inl ⟨h1, h2, j, ho j hj, h3⟩)
  · exact Or.inr (Or.inr ⟨h1, h2, j, hc j hj, h3⟩)

theorem ReadRelated.client_hears {k : Sockets} {file target : List UInt8} {x : ReadExchange}
    {a : StopAndWaitState (List UInt8)} (h : ReadRelated k file target x a) {wake : Wake}
    (ha : Arrives x.sent k.client wake) {sender : Endpoint} {bytes : List UInt8}
    (hw : wake = .datagram sender bytes) :
    sender = k.connection ∧ ∃ j ∈ a.offered, bytes = dataBytes file j := by
  have hne : k.client ≠ k.connection := k.client_ne_connection
  rcases h.packets _ (ha _ _ hw) with ⟨_, hr, _⟩ | ⟨hs, _, hj⟩ | ⟨_, hr, _⟩
  · exact absurd hr k.client_ne_listener
  · exact ⟨hs, hj⟩
  · exact absurd hr hne

theorem ReadRelated.connection_hears {k : Sockets} {file target : List UInt8} {x : ReadExchange}
    {a : StopAndWaitState (List UInt8)} (h : ReadRelated k file target x a) {wake : Wake}
    (ha : Arrives x.sent k.connection wake) {sender : Endpoint} {bytes : List UInt8}
    (hw : wake = .datagram sender bytes) :
    sender = k.client ∧ ∃ b ∈ a.confirmed, bytes = ackBytes b := by
  have hne : k.client ≠ k.connection := k.client_ne_connection
  rcases h.packets _ (ha _ _ hw) with ⟨_, hr, _⟩ | ⟨_, hr, _⟩ | ⟨hs, _, hb⟩
  · exact absurd hr.symm k.listener_ne_connection
  · exact absurd hr.symm hne
  · exact ⟨hs, hb⟩

/-- A target that was not there opens, unless its name is empty and then it is still not there. -/
theorem openOut_good {disk : Disk} {dir : Directory} {name : List UInt8}
    (hn : dir.status name = none) (ho : (dir.openOut disk name).1.status name ≠ none) :
    (dir.openOut disk name).2.good = true := by
  unfold Directory.openOut at ho ⊢
  split at ho
  next hc => rw [if_pos hc]
  next => exact absurd hn ho

/-- The abstract run that follows a step of `read_client`. -/
structure ReadClientFollows (k : Sockets) (file target : List UInt8)
    (a : StopAndWaitState (List UInt8)) (dir : Directory) (c : ReadClient) (out : Outgoing)
    (a' : StopAndWaitState (List UInt8)) : Prop where
  reach : ReflTransGen (StopAndWaitStep (transfer file 1)) a a'
  related : ReadClientRelated k file target dir c a'
  next : a'.next = a.next
  offered : a'.offered = a.offered
  confirmed : ∀ b ∈ a.confirmed, b ∈ a'.confirmed
  out : ∀ q ∈ out, (q.1 = k.listener ∧ q.2 = RrqPacket.toBuffer { filename := target }) ∨
    (q.1 = k.connection ∧ ∃ b ∈ a'.confirmed, q.2 = ackBytes b)

theorem readClientFollows_stay {k : Sockets} {file target : List UInt8}
    {a : StopAndWaitState (List UInt8)} {dir : Directory} {c : ReadClient} {out : Outgoing}
    (hc : ReadClientRelated k file target dir c a)
    (ho : ∀ q ∈ out, q.1 = k.listener ∧ q.2 = RrqPacket.toBuffer { filename := target }) :
    ∃ a', ReadClientFollows k file target a dir c out a' :=
  ⟨a, .refl, hc, rfl, rfl, fun _ hb => hb, fun q hq => Or.inl (ho q hq)⟩

theorem clientReceiveStart_simulates {file : List UInt8} {a : StopAndWaitState (List UInt8)}
    {disk : Disk} {stream : OfStream} {j : Nat} (hr : a.received = [])
    (hs : stream.contents = []) (hg : stream.good = true) (hj : j ∈ a.offered)
    (hn : j % 65536 = 1) :
    StopAndWaitStep (transfer file 1) a
      { a with received := a.received ++ [chunk dataChunkSize file j] } ∧
    ReceiverRelated (clientReceiveStart disk stream (dataBytes file j))
      { a with received := a.received ++ [chunk dataChunkSize file j] } := by
  refine ⟨.accept hj (by simp [hr, transfer, hn]), ?_, ?_, receiveLoop_head_running,
    receiveLoop_head_rejecting _⟩
  · simp [clientReceiveStart, hr]
  · simp [clientReceiveStart, hr, write_contents hg, hs, dataBytes]

theorem readClient_simulates {k : Sockets} {file target : List UInt8} {x : ReadExchange}
    {a : StopAndWaitState (List UInt8)} {disk : Disk} {wake : Wake} {dir : Directory}
    {c : ReadClient} {out : Outgoing} (h : ReadRelated k file target x a)
    (ha : Arrives x.sent k.client wake)
    (hs : readClientResume disk x.client.1 x.client.2 wake = some (dir, c, out)) :
    ∃ a', ReadClientFollows k file target a dir c out a' := by
  obtain ⟨htarget, hrel⟩ := h.client
  cases readClientResume_step hs with
  | requested hc =>
    simp only [hc] at hrel
    exact readClientFollows_stay ⟨htarget, hrel⟩ (by simp [hrel.1, htarget])
  | unsent error hc =>
    simp only [hc] at hrel
    exact readClientFollows_stay ⟨htarget, by simp [hrel.2.1, OfStream.contents]⟩ (by simp)
  | refused error hc =>
    simp only [hc] at hrel
    exact readClientFollows_stay ⟨htarget, by simp [hrel.2.1, OfStream.contents]⟩ (by simp)
  | unopened sender response hc =>
    simp only [hc] at hrel
    exact readClientFollows_stay ⟨htarget, hrel.2.1⟩ (by simp)
  | answered sender response hc hresponse hopen =>
    simp only [hc] at hrel
    obtain ⟨raw, hw, hraw, hop, hbn⟩ := handleServerResponse_ok hresponse
    obtain ⟨hsender, j, hj, hbytes⟩ := h.client_hears ha hw
    subst hbytes
    rw [receivePacket_dataBytes] at hraw
    rw [hraw] at hbn
    have hnum : j % 65536 = 1 := by
      simpa [dataBytes, UInt16.toNat_ofNat'] using congrArg UInt16.toNat hbn
    -- the response tells the port of the connection, which is the peer from here on
    have hserver : (⟨x.client.2.server.address, sender.port⟩ : Endpoint) = k.connection := by
      simp [hsender, hrel.1, Sockets.connection]
    rw [htarget] at hopen
    refine readClientFollows_stay ⟨htarget, hserver, hrel.2.1, openOut_contents _ _ _, ?_,
      j, hj, hnum, hraw⟩ (by simp)
    rw [htarget]
    exact openOut_good hrel.2.2 hopen
  | started stream response hc =>
    simp only [hc] at hrel
    -- the loop starts with the block of the handshake: a step of the abstract receiver
    obtain ⟨hserver, hrec, hcont, hgood, j, hj, hnum, rfl⟩ := hrel
    obtain ⟨hstep, hrel'⟩ := clientReceiveStart_simulates hrec hcont hgood hj hnum
    exact ⟨_, .single hstep, ⟨htarget, hserver, hrel', by simp⟩, rfl, rfl, fun _ hb => hb, by simp⟩
  | failed loop error hc =>
    simp only [hc] at hrel
    exact readClientFollows_stay ⟨htarget, hrel.2.1.contents⟩ (by simp)
  | succeeded loop hc =>
    simp only [hc] at hrel
    exact readClientFollows_stay ⟨htarget, by simp [hrel.2.1.contents]⟩ (by simp)
  | looped loop loop' out hc hloop =>
    simp only [hc] at hrel
    obtain ⟨hserver, hrecv, hlen⟩ := hrel
    rw [hserver] at hloop
    obtain ⟨a', hreach, hrel', hnext, hoff, hconf, hlen', hout⟩ := receiver_simulates h.inv hrecv
      hlen (fun _ _ hw => ⟨(h.client_hears ha hw).1, fun _ => (h.client_hears ha hw).2⟩) hloop
    exact ⟨a', hreach, ⟨htarget, hserver, hrel', hlen'⟩, hnext, hoff, hconf,
      fun q hq => Or.inr (hout q hq)⟩

/-- The abstract run that follows a step of `read_connection`. -/
structure ReadConnectionFollows (k : Sockets) (file target : List UInt8)
    (a : StopAndWaitState (List UInt8)) (c : ReadConnection) (out : Outgoing)
    (a' : StopAndWaitState (List UInt8)) : Prop where
  reach : ReflTransGen (StopAndWaitStep (transfer file 1)) a a'
  related : ReadConnectionRelated k file target c a'
  received : a'.received = a.received
  confirmed : a'.confirmed = a.confirmed
  offered : ∀ j ∈ a.offered, j ∈ a'.offered
  out : ∀ q ∈ out, q.1 = k.client ∧ ∃ j ∈ a'.offered, q.2 = dataBytes file j

theorem readConnectionFollows_stay {k : Sockets} {file target : List UInt8}
    {a : StopAndWaitState (List UInt8)} {c : ReadConnection}
    (hc : ReadConnectionRelated k file target c a) :
    ∃ a', ReadConnectionFollows k file target a c [] a' :=
  ⟨a, .refl, hc, rfl, rfl, fun _ hj => hj, by simp⟩

theorem readConnection_simulates {k : Sockets} {file target : List UInt8} {x : ReadExchange}
    {a : StopAndWaitState (List UInt8)} {disk : Disk} {wake : Wake} {r c : ReadConnection}
    {out : Outgoing} (h : ReadRelated k file target x a)
    (hr : ReadConnectionRelated k file target r a) (hd : UnbrokenWithin file disk.readFault)
    (ha : Arrives x.sent k.connection wake)
    (hs : readConnectionResume disk x.server.1 r wake = some (c, out)) :
    ∃ a', ReadConnectionFollows k file target a c out a' := by
  obtain ⟨hclient, hpath, hrel⟩ := hr
  have hinput : x.server.1.input disk r.path = ⟨file, disk.readFault⟩ := by
    simp [Directory.input, hpath, h.found]
  cases readConnectionResume_step hs with
  | missing hc _ hnone =>
    rw [hpath, h.found] at hnone
    cases hnone
  | found hc =>
    simp only [hc] at hrel
    exact readConnectionFollows_stay ⟨hclient, hpath, hrel⟩
  | refused hc => simp only [hc] at hrel
  | unsent error hc => simp only [hc] at hrel
  | started hc =>
    simp only [hc] at hrel
    refine readConnectionFollows_stay ⟨hclient, hpath, ?_⟩
    rw [hinput]
    exact @senderStands_start ⟨file, disk.readFault⟩ a hrel
  | returned loop error hc he =>
    simp only [hc] at hrel
    refine readConnectionFollows_stay ⟨hclient, hpath, ?_⟩
    cases error with
    | none => exact (hrel.running (by simp [he])).at_next.succeeded he
    | some => trivial
  | looped loop loop' out hc hloop =>
    simp only [hc] at hrel
    rw [hclient, hinput] at hloop
    obtain ⟨a', hreach, hrel', hrec, hconf, hoff, hout⟩ := sender_simulates
      (hrel.running (sendLoop_runs hloop _)) rfl hd
      (fun _ _ hw => ⟨(h.connection_hears ha hw).1, fun _ => (h.connection_hears ha hw).2⟩) hloop
    exact ⟨a', hreach, ⟨hclient, hpath, Or.inl hrel'⟩, hrec, hconf, hoff, hout⟩

/-- Every step of a read transfer is followed by the abstract protocol. -/
theorem read_simulates {k : Sockets} {file target : List UInt8} {x y : ReadExchange}
    {a : StopAndWaitState (List UInt8)} (h : ReadRelated k file target x a)
    (hs : UnbrokenReadStep k file x y) :
    ∃ b, ReflTransGen (StopAndWaitStep (transfer file 1)) a b ∧ ReadRelated k file target y b := by
  cases hs with
  | @client disk wake c out hd ha hs =>
    obtain ⟨⟨dir, c, o⟩, hclient, hs⟩ := Option.map_eq_some_iff.mp hs
    cases hs
    obtain ⟨b, hf⟩ := readClient_simulates h ha hclient
    refine ⟨b, hf.reach, stopAndWait_run_inv h.inv hf.reach, h.found, hf.related, ?_, ?_, ?_⟩
    · rw [hf.next]; exact h.unserved
    · intro c hc
      obtain ⟨r, hr, hrel⟩ := h.server c hc
      exact ⟨r, hr, hrel.of_next hf.next⟩
    · intro q hq
      rcases List.mem_append.mp hq with hq | hq
      · exact (h.packets q hq).mono (by rw [hf.offered]; exact fun _ hj => hj) hf.confirmed
      · obtain ⟨hsend, hout⟩ := mem_outgoing.mp hq
        rcases hf.out _ hout with ⟨hr, hop⟩ | ⟨hr, hj⟩
        · exact Or.inl ⟨hsend, hr, hop⟩
        · exact Or.inr (Or.inr ⟨hsend, hr, hj⟩)
  | @server disk wake t out hd ha hs =>
    rcases serverParty_step ha hs with ⟨sender, bytes, c, hc, hrequest, hspawn, rfl, rfl⟩ |
      ⟨c, dir, c', hc, ha, hresume, rfl⟩
    · refine ⟨a, .refl, h.inv, h.found, h.client, by simp, ?_, by simpa [outgoing] using h.packets⟩
      intro c' hc'
      cases hc'
      rcases h.packets _ hrequest with ⟨hsender, _, hbytes⟩ | ⟨_, hr, _⟩ | ⟨_, hr, _⟩
      · simp only at hsender hbytes
        simp only [spawnConnection, hbytes, getOpcode_rrq, Option.some.injEq] at hspawn
        exact ⟨_, hspawn.symm, hsender, rfl, h.unserved hc⟩
      · exact absurd hr.symm k.client_ne_listener
      · exact absurd hr k.listener_ne_connection
    · obtain ⟨r, rfl, hr⟩ := h.server c hc
      obtain ⟨⟨c, _⟩, hconn, he⟩ := Option.map_eq_some_iff.mp hresume
      cases he
      obtain ⟨b, hf⟩ := readConnection_simulates h hr hd ha hconn
      refine ⟨b, hf.reach, stopAndWait_run_inv h.inv hf.reach, h.found, ?_, by simp, ?_, ?_⟩
      · exact h.client.mono hf.received hf.offered
      · intro c' hc'
        cases hc'
        exact ⟨c, rfl, hf.related⟩
      · intro q hq
        rcases List.mem_append.mp hq with hq | hq
        · exact (h.packets q hq).mono hf.offered (by rw [hf.confirmed]; exact fun _ hb => hb)
        · obtain ⟨hsend, hout⟩ := mem_outgoing.mp hq
          obtain ⟨hr, hj⟩ := hf.out _ hout
          exact Or.inr (Or.inl ⟨hsend, hr, hj⟩)

theorem read_reaches_unbroken {k : Sockets} {file target : List UInt8} {dir serverDir : Directory}
    {x : ReadExchange} (absent : dir.status target = none)
    (found : serverDir.status (requestedPath target) = some (.file file))
    (h : ReflTransGen (UnbrokenReadStep k file) (readExchange k target dir serverDir) x) :
    ∃ a, ReadRelated k file target x a := by
  have start : ReadRelated k file target (readExchange k target dir serverDir) .init :=
    ⟨stopAndWait_init_inv (by simp [transfer]), found, ⟨rfl, rfl, rfl, absent⟩, fun _ => rfl,
      by simp [readExchange], by simp [readExchange]⟩
  obtain ⟨a, _, hr⟩ := reaches_simulation h start fun _ _ _ hr hs => read_simulates hr hs
  exact ⟨a, hr⟩

theorem read_unbroken {k : Sockets} {file : List UInt8} {x y : ReadExchange}
    (h : ReadExchangeStep k x y) : UnbrokenReadStep k file x y :=
  h.mono fun _ hd => unbroken_of_none hd.reads

theorem read_reaches_related {k : Sockets} {file target : List UInt8} {dir serverDir : Directory}
    {x : ReadExchange} (absent : dir.status target = none)
    (found : serverDir.status (requestedPath target) = some (.file file))
    (h : ReflTransGen (ReadExchangeStep k) (readExchange k target dir serverDir) x) :
    ∃ a, ReadRelated k file target x a :=
  read_reaches_unbroken absent found (ReflTransGen.mono (fun _ _ => read_unbroken) _ _ h)

end Protocols
