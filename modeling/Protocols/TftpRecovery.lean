import Protocols.TftpAgreement

namespace Protocols

open Relation

/-- The loop runs, and its time has not run out. -/
structure SendLoop.Alive (s : SendLoop) : Prop where
  running : ∀ e, s.control ≠ .finished e
  patient : s.watchdogExpired = false

structure ReceiveLoop.Alive {μ : Type} (l : ReceiveLoop μ) : Prop where
  running : ∀ e, l.control ≠ .finished e
  patient : l.watchdogExpired = false

/-- A receive loop that has its file open and knows whether the last block has come. -/
structure ReceiverKnows {μ : Type} (mem : ReceiveMemory μ) (file : List UInt8) (l : ReceiveLoop μ) :
    Prop where
  opened : l.fileStream.isOpen = true
  complete : mem.complete l.memory =
    decide (l.currentBlock.toNat = chunkCount dataChunkSize file)

section

variable {μ : Type} {mem : ReceiveMemory μ} {file : List UInt8} {l t : ReceiveLoop μ}
  {a : StopAndWaitState (List UInt8)} {k i : Nat} {s : SendLoop}

theorem receiverKnows_resume {peer : Endpoint} {disk : Disk} {wake : Wake} {out : Outgoing}
    (hm : mem.Counts) (inv : StopAndWaitInv (transfer file k) a) (hr : ReceiverRelated l a)
    (h : ReceiverKnows mem file l)
    (heard : ∀ bytes, wake = .datagram peer bytes → getOpcode (receivePacket bytes) = .data →
      ∃ j ∈ a.offered, bytes = dataBytes file j)
    (hs : receiveLoopResume mem peer disk l wake = some (t, out)) : ReceiverKnows mem file t := by
  refine ⟨(receiveLoop_resume_isOpen hs).trans h.opened, ?_⟩
  rcases receiveLoop_resume_cases hs with ⟨hb, _, hmem, _⟩ | ⟨_, _, bytes, hw, hop, hbn, rfl⟩
  · rw [hb, hmem]
    exact h.complete
  · -- the accepted block is the next one, and it is short only if it is the last one
    obtain ⟨j, hj, rfl⟩ := heard bytes hw hop
    have hnum : j % 65536 = a.received.length + 1 := by
      rw [receivePacket_dataBytes] at hbn
      rw [← hr.count, ← hbn]
      simp [dataBytes, UInt16.toNat_ofNat']
    obtain ⟨rfl, _, hlt⟩ := stopAndWait_accepted_eq inv hj hnum
    obtain ⟨hpos, _, hle⟩ := inv.offered_le _ hj
    simp only [transfer] at hlt hle
    have hincomplete : mem.complete l.memory = false := by
      rw [h.complete, hr.count, decide_eq_false_iff_not]
      omega
    have hcount : (l.currentBlock + 1).toNat = a.received.length + 1 := by
      rw [UInt16.toNat_add, hr.count]
      exact Nat.mod_eq_of_lt hlt
    have hdata : getData (receivePacket (dataBytes file (a.received.length + 1))) =
        chunk dataChunkSize file (a.received.length + 1) := by
      rw [receivePacket_dataBytes]
      simp [dataBytes]
    rw [receiveLoop_accept_currentBlock, hcount, ReceiveLoop.accept, receiveLoop_head_memory,
      hm _ _ hincomplete, hdata]
    exact decide_eq_decide.mpr (chunk_length_lt_iff hpos hle)

theorem ReceiverRelated.ready (hr : ReceiverRelated l a) (h : ReceiverKnows mem file l)
    (hl : l.Alive) (inv : StopAndWaitInv (transfer file k) a) :
    ReceiverReady mem file a.received.length l.control l where
  count := by rw [← hr.count, UInt16.ofNat_toNat]
  count_lt := inv.count_lt
  count_le := inv.count_le
  contents := hr.contents.trans (received_flatten inv)
  opened := h.opened
  good := hr.running hl.running
  complete := by rw [h.complete, hr.count]
  patient := hl.patient
  control_eq := rfl

theorem ReceiverReady.knows {c : Nat} {q : LoopControl} (h : ReceiverReady mem file c q l) :
    ReceiverKnows mem file l where
  opened := h.opened
  complete := by rw [h.complete, h.count, UInt16.toNat_ofNat_of_lt' h.count_lt]

/-- A loop that runs and answers no stranger sends or waits. -/
theorem loopControl_cases {q : LoopControl} (hrun : ∀ e, q ≠ .finished e)
    (hpolite : ∀ stranger, q ≠ .rejecting stranger) : q = .sending ∨ q = .receiving := by
  cases q with
  | sending => exact Or.inl rfl
  | receiving => exact Or.inr rfl
  | rejecting stranger => exact absurd rfl (hpolite stranger)
  | finished e => exact absurd rfl (hrun e)

/-- While the sender's numbers have not wrapped, its block is the receiver's last one or the one
after it. -/
theorem SenderRelated.level (hs : SenderRelated file s a) (hrun : ∀ e, s.control ≠ .finished e)
    (inv : StopAndWaitInv (transfer file k) a) (hn : chunkCount dataChunkSize file < 65536) :
    a.next = a.received.length ∨ a.next = a.received.length + 1 := by
  have hle := (hs.at_next.running hrun).1
  have hlevel := inv.level (show a.next ≤ 65536 by omega)
  omega

end

section

variable {α β μ : Type} {p : Party α} {q : Party β}

/-- The same exchange with its two ends named the other way round. -/
def Exchange.swap (x : Exchange α β) : Exchange β α := ⟨x.server, x.client, x.sent⟩

theorem exchange_swap {x y : Exchange α β} (run : ReflTransGen (ExchangeStep p q) x y) :
    ReflTransGen (ExchangeStep q p) x.swap y.swap := by
  induction run with
  | refl => exact .refl
  | tail _ h ih =>
    cases h with
    | client hd ha hr => exact ih.tail (.server hd ha hr)
    | server hd ha hr => exact ih.tail (.client hd ha hr)

/-- Where all runs on a perfect network end well, some run on a lossy one does. -/
theorem EndsIn.lossy {P : PerfectExchange α β → Prop} {x : PerfectExchange α β}
    (h : EndsIn (PerfectStep p q) P x) {sent : List Packet} (hs : x.inFlight ⊆ sent) :
    ∃ y sent', ReflTransGen (ExchangeStep p q) ⟨x.sender, x.receiver, sent⟩
      ⟨y.sender, y.receiver, sent'⟩ ∧ P y := by
  induction h generalizing sent with
  | @done x hp _ => exact ⟨x, sent, .refl, hp⟩
  | next hstep _ ih =>
    obtain ⟨y, hy⟩ := hstep
    obtain ⟨sent', hlossy, hs', _⟩ := perfectStep_lossy hy hs
    obtain ⟨z, sent'', hrun, hp⟩ := ih y hy hs'
    exact ⟨z, sent'', .head hlossy hrun, hp⟩

variable {msg : String} {file : List UInt8} {mem : ReceiveMemory μ} {holds : β → Option Entry}
  {sending : SendLoop → α} {sent : α} {receiving received : ReceiveLoop μ → β} {i c : Nat}
  {s : SendLoop} {l : ReceiveLoop μ} {qs qr : LoopControl}

/-- Without an answer the sender sends its block again. -/
theorem transfer_resends (hp : SendHost p msg q.endpoint file sending sent)
    (hs : SenderReady file i qs s) (hqs : qs = .sending ∨ qs = .receiving) (r : β)
    (packets : List Packet) : ∃ t packets', SenderReady file i .sending t ∧
      ReflTransGen (ExchangeStep p q) ⟨sending s, r, packets⟩ ⟨sending t, r, packets'⟩ := by
  rcases hqs with rfl | rfl
  · exact ⟨s, packets, hs, .refl⟩
  · have silence : sendLoopResume msg q.endpoint ⟨file, fun _ => false⟩ s .timeout =
        some (s.loopHead, []) := by
      simp [sendLoopResume, hs.control_eq]
    refine ⟨s.loopHead, packets ++ outgoing p.endpoint [], hs.ignored, .single
      (.client disk_works (show Arrives packets _ .timeout by simp [Arrives]) ?_)⟩
    rw [hp.resume disk_works (by simp [hs.control_eq]), silence]
    rfl

/-- The receiver acknowledges what it has. -/
theorem transfer_reconfirms (hq : ReceiveHost q mem p.endpoint holds receiving received)
    (hl : ReceiverReady mem file c qr l) (hqr : qr = .sending ∨ qr = .receiving) (r : α)
    (packets : List Packet) : ∃ t packets', ReceiverReady mem file c .receiving t ∧
      ReflTransGen (ExchangeStep p q) ⟨r, receiving l, packets⟩ ⟨r, receiving t, packets'⟩ := by
  rcases hqr with rfl | rfl
  · refine ⟨{ l with control := .receiving }, packets ++ outgoing q.endpoint [(p.endpoint, ackBytes c)],
      hl.confirmed, .single
        (.server disk_works (show Arrives packets _ (.sent none) by simp [Arrives]) ?_)⟩
    rw [hq.resume disk_works hl.opened (by simp [hl.control_eq]), hl.confirm]
    rfl
  · exact ⟨l, packets, hl, .refl⟩

section

variable (hp : SendHost p msg q.endpoint file sending sent)
  (hq : ReceiveHost q mem p.endpoint holds receiving received) (hpq : p.endpoint ≠ q.endpoint)

include hp hq hpq

/-- When the receiver has the sender's block already, the block's acknowledgement is repeated. -/
theorem transfer_level_ends (hm : mem.Counts) (hn : chunkCount dataChunkSize file < 65536)
    {x : PerfectExchange α β}
    (hx : TransferStage mem file sending receiving c c .sending .receiving [] x) :
    EndsIn (PerfectStep p q) (Delivered p q holds file) x := by
  have hcount : c < 65536 := by
    obtain ⟨_, _, _, _, hl⟩ := hx
    exact hl.count_lt
  have hle : c ≤ chunkCount dataChunkSize file := by
    obtain ⟨_, _, _, _, hl⟩ := hx
    exact hl.count_le
  refine ((transfer_send hp hq c c).endsIn_iff (fun y hy => ?_) x hx).mpr hn
  refine (transfer_hear hp hq hpq c c fun _ hl => ⟨_, hl.again (by
    rw [Nat.mod_eq_of_lt hcount]; omega), hl.loopHead⟩).endsIn_iff (fun y hy => ?_) y hy
  by_cases hlast : c = chunkCount dataChunkSize file
  · subst hlast
    exact transfer_last hp hq hpq hn hy
  · refine (transfer_confirm hp hq _ _).endsIn_iff (fun y hy => ?_) y hy
    exact (transfer_next hp hq hpq (by omega)).endsIn_iff (fun y hy => transfer_ends_iff hp hq hpq hm
      (chunkCount dataChunkSize file - (c + 1)) (by omega) hy) y hy

/-- However much has been lost and repeated, the two loops can still bring the transfer to its
end. -/
theorem transfer_drains (hm : mem.Counts) (hn : chunkCount dataChunkSize file < 65536)
    (hs : SenderReady file i qs s) (hqs : qs = .sending ∨ qs = .receiving)
    (hl : ReceiverReady mem file c qr l) (hqr : qr = .sending ∨ qr = .receiving)
    (hi : i = c ∨ i = c + 1) (packets : List Packet) :
    ∃ y, ReflTransGen (ExchangeStep p q) ⟨sending s, receiving l, packets⟩ y ∧
      p.result y.client = some none ∧ q.result y.server = some none ∧
      holds y.server = some (.file file) := by
  obtain ⟨s', packets', hs', hrun⟩ := transfer_resends hp hs hqs (receiving l) packets
  obtain ⟨l', packets'', hl', hrun'⟩ := transfer_reconfirms hq hl hqr (sending s') packets'
  have hends : EndsIn (PerfectStep p q) (Delivered p q holds file) ⟨sending s', receiving l', []⟩ := by
    rcases hi with rfl | rfl
    · exact transfer_level_ends hp hq hpq hm hn ⟨s', l', rfl, hs', hl'⟩
    · have hle := (hs'.at_next.running (by simp [hs'.control_eq])).1
      exact (transfer_ends_iff hp hq hpq hm (chunkCount dataChunkSize file - (c + 1)) (by omega)
        ⟨s', l', rfl, hs', hl'⟩).mpr hn
  obtain ⟨y, packets''', hrun'', hdone⟩ := hends.lossy (List.nil_subset packets'')
  exact ⟨_, (hrun.trans hrun').trans hrun'', hdone⟩

end

end

/-- Where a `write_connection` of the transfer stands, with the server's directory. -/
def UploadAt (file name : List UInt8) (dir store : Directory) (w : WriteConnection) : Prop :=
  w.path = uploadPath name ∧
  match w.control with
  | .spawned | .refusing => store = dir
  | .opened stream => store = dir.store (uploadPath name) stream ∧ stream = {}
  | .looping l => store = dir.store (uploadPath name) l.fileStream ∧
      ReceiverKnows serverMemory file l
  | .returned _ _ => True

/-- What a write transfer keeps true of the client's file name and its source, of its request, and of
the server's directory while the upload goes on. -/
structure UploadSound (k : Sockets) (file name : List UInt8) (dir : Directory) (x : WriteExchange) :
    Prop where
  filename : x.client.filename = name
  unfailed : ∀ s, x.client.control = .looping s → s.fileStream.bad = false
  requests : ∀ d ∈ x.sent, getOpcode d.bytes = .wrq →
    d.bytes = WrqPacket.toBuffer { filename := name }
  unserved : x.server.2 = none → x.server.1 = dir
  server : ∀ w, x.server.2 = some (.write w) → UploadAt file name dir x.server.1 w

section

variable {k : Sockets} {file name target : List UInt8} {dir serverDir : Directory}

theorem getOpcode_ackBytes (b : Nat) : getOpcode (ackBytes b) = .ack := by simp [ackBytes]

/-- A datagram of the connection is no request. -/
theorem writePacket_connection {a : StopAndWaitState (List UInt8)} {d : Packet}
    (h : WritePacket k file a d) (hd : d.sender = k.connection) : getOpcode d.bytes ≠ .wrq := by
  have hne : k.client ≠ k.connection := k.client_ne_connection
  rcases h with ⟨hs, _⟩ | ⟨hs, _⟩ | ⟨_, _, b, _, hb⟩ | ⟨_, _, hop⟩
  · exact absurd (hs.symm.trans hd) hne
  · exact absurd (hs.symm.trans hd) hne
  · rw [hb, getOpcode_ackBytes]
    decide
  · rw [hop]
    decide

theorem writeClient_requests {x : WriteExchange} {a : StopAndWaitState (List UInt8)} {disk : Disk}
    {wake : Wake} {c : WriteClient} {out : Outgoing} (h : WriteRelated k file x a)
    (hd : disk.Works) (hs : writeClientResume disk x.client wake = some (c, out)) :
    c.filename = x.client.filename ∧ ∀ q ∈ out, getOpcode q.2 = .wrq →
      q.2 = WrqPacket.toBuffer { filename := x.client.filename } := by
  have hrel := h.client
  unfold WriteClientRelated at hrel
  cases writeClientResume_step hs with
  | requested => exact ⟨rfl, by simp⟩
  | unsent => exact ⟨rfl, by simp⟩
  | refused => exact ⟨rfl, by simp⟩
  | answered => exact ⟨rfl, by simp⟩
  | started => exact ⟨rfl, by simp⟩
  | returned => exact ⟨rfl, by simp⟩
  | looped loop loop' out hc hloop =>
    simp only [hc] at hrel
    refine ⟨rfl, fun q hq hop => ?_⟩
    have hat := (hrel.2.running (sendLoop_runs hloop _)).at_next
    rcases sendLoop_resume_cases hat h.source (unbroken_of_none hd.reads) hloop with
      ⟨_, rfl⟩ | ⟨_, _, rfl⟩ | ⟨_, stranger, _, rfl⟩ | ⟨_, _, rfl, _⟩
    · cases hq
    · rw [List.mem_singleton.mp hq] at hop
      simp at hop
    · rw [List.mem_singleton.mp hq] at hop
      simp [unknownTransfer] at hop
    · cases hq

theorem writeClient_unfailed {c c' : WriteClient} {disk : Disk} {wake : Wake} {out : Outgoing}
    (hd : disk.Works) (hs : writeClientResume disk c wake = some (c', out))
    (h : ∀ s, c.control = .looping s → s.fileStream.bad = false) (s : SendLoop)
    (hc' : c'.control = .looping s) : s.fileStream.bad = false := by
  cases writeClientResume_step hs with
  | requested | unsent | refused | answered | returned => cases hc'
  | started =>
    cases hc'
    exact sendLoop_start_bad (hd.reads 0)
  | looped loop loop' out hc hloop =>
    cases hc'
    exact (sendLoop_resume_bad hd.reads hloop).trans (h loop hc)

theorem readConnection_unfailed {store : Directory} {c c' : ReadConnection} {disk : Disk}
    {file : List UInt8} {wake : Wake} {out : Outgoing} (hd : disk.Works)
    (found : store.status c.path = some (.file file))
    (hs : readConnectionResume disk store c wake = some (c', out))
    (h : ∀ s, c.control = .looping s → s.fileStream.bad = false) (s : SendLoop)
    (hc' : c'.control = .looping s) : s.fileStream.bad = false := by
  have hinput : store.input disk c.path = ⟨file, disk.readFault⟩ := by simp [Directory.input, found]
  cases readConnectionResume_step hs with
  | missing | found | refused | unsent | returned => cases hc'
  | started =>
    cases hc'
    rw [hinput]
    exact sendLoop_start_bad (hd.reads 0)
  | looped loop loop' out hc hloop =>
    cases hc'
    rw [hinput] at hloop
    exact (sendLoop_resume_bad hd.reads hloop).trans (h loop hc)

theorem writeConnection_sound {x : WriteExchange} {a : StopAndWaitState (List UInt8)}
    {w w' : WriteConnection} {disk : Disk} {wake : Wake} {dir' : Directory} {out : Outgoing}
    (hn : dir.Nameable (uploadPath name)) (hne : file ≠ []) (h : WriteRelated k file x a)
    (hs : UploadSound k file name dir x) (hw : x.server.2 = some (.write w)) (hd : disk.Works)
    (ha : Arrives x.sent k.connection wake)
    (hr : writeConnectionResume disk x.server.1 w wake = some (dir', w', out)) :
    UploadAt file name dir dir' w' := by
  obtain ⟨hpath, hat⟩ := hs.server w hw
  obtain ⟨w₀, heq, hclient, hrel⟩ := h.server _ hw
  cases heq
  cases writeConnectionResume_step hr with
  | present hc =>
    simp only [hc] at hat
    exact ⟨hpath, hat⟩
  | created hc =>
    simp only [hc] at hat
    refine ⟨hpath, ?_⟩
    rw [hat, hpath, openOut_nameable hd hn]
    exact ⟨rfl, rfl⟩
  | refused => exact ⟨hpath, trivial⟩
  | unsent => exact ⟨hpath, trivial⟩
  | started stream hc =>
    simp only [hc] at hat
    obtain ⟨hdir, rfl⟩ := hat
    have hready : ReceiverReady serverMemory file 0 .sending (serverReceiveStart {}) :=
      receiverReady_serverStart hne rfl rfl rfl
    exact ⟨hpath, by simpa [serverReceiveStart] using hdir, hready.knows⟩
  | returned => exact ⟨hpath, trivial⟩
  | looped loop loop' out hc hloop =>
    simp only [hc] at hat hrel
    obtain ⟨hdir, hknows⟩ := hat
    rw [hclient] at hloop
    have hknows' := receiverKnows_resume serverMemory_counts h.inv hrel hknows
      (fun _ hw => (h.connection_hears ha hw).2) hloop
    refine ⟨hpath, ?_, hknows'⟩
    rw [hdir, hpath, store_store hknows'.opened]

theorem upload_step_sound {x y : WriteExchange} {a : StopAndWaitState (List UInt8)}
    (hn : dir.Nameable (uploadPath name)) (hne : file ≠ []) (h : WriteRelated k file x a)
    (hs : UploadSound k file name dir x) (hstep : WriteExchangeStep k x y) :
    UploadSound k file name dir y := by
  obtain ⟨b, _, hy⟩ := write_simulates h (write_unbroken hstep)
  cases hstep with
  | @client disk wake c out hd ha hr =>
    obtain ⟨hname, hout⟩ := writeClient_requests h hd hr
    refine ⟨hname.trans hs.filename, writeClient_unfailed hd hr hs.unfailed, fun d hd hop => ?_,
      hs.unserved, hs.server⟩
    rcases List.mem_append.mp hd with hd | hd
    · exact hs.requests d hd hop
    · rw [← hs.filename]
      exact hout _ (mem_outgoing.mp hd).2 hop
  | @server disk wake t out hd ha hr =>
    have requests : ∀ d ∈ x.sent ++ outgoing (serverParty k).endpoint out,
        getOpcode d.bytes = .wrq → d.bytes = WrqPacket.toBuffer { filename := name } := by
      intro d hd hop
      rcases List.mem_append.mp hd with hold | hnew
      · exact hs.requests d hold hop
      · exact absurd hop (writePacket_connection (hy.packets d hd) (mem_outgoing.mp hnew).1)
    rcases serverParty_step ha hr with ⟨sender, bytes, c, hc, hrequest, hspawn, rfl, rfl⟩ |
      ⟨c, dir', c', hc, ha, hresume, rfl⟩
    · refine ⟨hs.filename, hs.unfailed, requests, by simp, fun w hw => ?_⟩
      cases hw
      have hop : getOpcode bytes = .wrq := by
        rcases h.packets _ hrequest with ⟨_, _, hop⟩ | ⟨_, hr, _⟩ | ⟨_, hr, _⟩ | ⟨_, hr, _⟩
        · exact hop
        · exact absurd hr k.listener_ne_connection
        · exact absurd hr.symm k.client_ne_listener
        · exact absurd hr.symm k.client_ne_listener
      obtain rfl : bytes = _ := hs.requests _ hrequest hop
      simp only [spawnConnection, getOpcode_wrq, Option.some.injEq, Connection.write.injEq] at hspawn
      subst hspawn
      exact ⟨rfl, hs.unserved hc⟩
    · obtain ⟨w, rfl, _⟩ := h.server c hc
      obtain ⟨⟨dir'', w', out'⟩, hw, he⟩ := Option.map_eq_some_iff.mp hresume
      cases he
      refine ⟨hs.filename, hs.unfailed, requests, by simp, fun w'' hw'' => ?_⟩
      cases hw''
      exact writeConnection_sound hn hne h hs hc hd ha hw

theorem upload_reaches_sound {x : WriteExchange} (hn : dir.Nameable (uploadPath name))
    (hne : file ≠ []) (run : ReflTransGen (WriteExchangeStep k) (writeExchange k file name dir) x) :
    UploadSound k file name dir x := by
  induction run with
  | refl =>
    exact ⟨rfl, by simp [writeExchange], by simp [writeExchange], fun _ => rfl,
      by simp [writeExchange]⟩
  | tail run hstep ih =>
    obtain ⟨a, hrel⟩ := write_reaches_related run
    exact upload_step_sound hn hne hrel ih hstep

/-- An upload whose two loops run can still be brought to its end. -/
theorem upload_recovers {x : WriteExchange} {s : SendLoop} {w : WriteConnection}
    {l : ReceiveLoop Bool} (hn : dir.Nameable (uploadPath name)) (hne : file ≠ [])
    (hlen : chunkCount dataChunkSize file < 65536)
    (run : ReflTransGen (WriteExchangeStep k) (writeExchange k file name dir) x)
    (hs : x.client.control = .looping s) (hsa : s.Alive) (hw : x.server.2 = some (.write w))
    (hl : w.control = .looping l) (hla : l.Alive) :
    ∃ y, ReflTransGen (WriteExchangeStep k) x y ∧ y.client.control = .returned none ∧
      (serverParty k).result y.server = some none ∧
      y.server.1.status (uploadPath name) = some (.file file) := by
  obtain ⟨a, hrel⟩ := write_reaches_related run
  have hsound := upload_reaches_sound hn hne run
  have hclient := hrel.client
  simp only [WriteClientRelated, hs] at hclient
  obtain ⟨hserver, hsend⟩ := hclient
  obtain ⟨w', heq, hpeer, hreceive⟩ := hrel.server _ hw
  cases heq
  simp only [hl] at hreceive
  obtain ⟨hpath, hat⟩ := hsound.server w hw
  simp only [hl] at hat
  obtain ⟨hdir, hknows⟩ := hat
  have hx : x = ⟨writeClientWith k file name (.looping s), writeConnectionWith k name dir l,
      x.sent⟩ := by
    obtain ⟨⟨server, filename, source, control⟩, ⟨store, connection⟩, packets⟩ := x
    obtain ⟨peer, path, control'⟩ := w
    have hsource := hrel.source
    have hname := hsound.filename
    simp only at hs hw hserver hpeer hpath hl hdir hsource hname
    subst hs hw hserver hpeer hpath hl hdir hsource hname
    rfl
  have hsend := hsend.running (hsa.running _)
  have hsr : SenderReady file a.next s.control s :=
    ⟨hsend.at_next, hsa.patient, hsound.unfailed s hs, rfl⟩
  obtain ⟨y, hrun, hy, hy', hheld⟩ := transfer_drains (p := writeClientParty k)
    (q := serverParty k) writeClient_hosts (writeConnection_hosts hn)
    k.client_ne_connection serverMemory_counts hlen hsr
    (loopControl_cases hsa.running hsend.polite) (hreceive.ready hknows hla hrel.inv)
    (loopControl_cases hla.running hreceive.polite) (hsend.level hsa.running hrel.inv hlen) x.sent
  rw [hx]
  refine ⟨y, hrun, ?_, hy', hheld⟩
  simp only [writeClientParty] at hy
  split at hy
  next e hc =>
    cases hy
    exact hc
  next => cases hy

/-- Where a `read_client` of the transfer stands, with the client's directory. -/
def DownloadAt (file target : List UInt8) (dir store : Directory) (c : ReadClient) : Prop :=
  match c.control with
  | .requesting | .responding => store = dir
  | .opened stream _ => store = dir.store target stream ∧ stream = {}
  | .looping l => store = dir.store target l.fileStream ∧ ReceiverKnows clientMemory file l
  | .returned _ _ | .threw => True

theorem readClient_sound {x : ReadExchange} {a : StopAndWaitState (List UInt8)} {disk : Disk}
    {wake : Wake} {dir' : Directory} {c : ReadClient} {out : Outgoing} (hn : dir.Nameable target)
    (hne : file ≠ []) (h : ReadRelated k file target x a)
    (hs : DownloadAt file target dir x.client.1 x.client.2) (hd : disk.Works)
    (ha : Arrives x.sent k.client wake)
    (hr : readClientResume disk x.client.1 x.client.2 wake = some (dir', c, out)) :
    DownloadAt file target dir dir' c := by
  obtain ⟨htarget, hrel⟩ := h.client
  unfold DownloadAt at hs
  cases readClientResume_step hr with
  | requested hc =>
    simp only [hc] at hs
    exact hs
  | unsent => trivial
  | refused => trivial
  | unopened => trivial
  | answered sender response hc =>
    simp only [hc] at hs
    rw [hs, htarget, openOut_nameable hd hn]
    exact ⟨rfl, rfl⟩
  | started stream response hc =>
    simp only [hc] at hs hrel
    obtain ⟨hdir, rfl⟩ := hs
    obtain ⟨_, hrec, _, _, j, hj, hnum, rfl⟩ := hrel
    -- the response has brought the first block
    obtain ⟨hj1, _⟩ := stopAndWait_accepted_eq h.inv hj (by simp [hrec, transfer, hnum])
    rw [hrec, List.length_nil, Nat.zero_add] at hj1
    subst hj1
    have hready : ReceiverReady clientMemory file 1 .sending
        (clientReceiveStart disk {} (dataBytes file 1)) :=
      receiverReady_clientStart hne hd rfl rfl rfl
    refine ⟨?_, hready.knows⟩
    rw [hdir, htarget, store_store hready.opened]
  | failed => trivial
  | succeeded => trivial
  | looped loop loop' out hc hloop =>
    simp only [hc] at hs hrel
    obtain ⟨hdir, hknows⟩ := hs
    rw [hrel.1] at hloop
    have hknows' := receiverKnows_resume clientMemory_counts h.inv hrel.2.1 hknows
      (fun _ hw _ => (h.client_hears ha hw).2) hloop
    refine ⟨?_, hknows'⟩
    rw [hdir, htarget, store_store hknows'.opened]

/-- A connection that has just been spawned reads nothing yet. -/
theorem spawnConnection_spawned {sender : Endpoint} {request : List UInt8} {r : ReadConnection}
    (h : spawnConnection sender request = some (.read r)) : r.control = .spawned := by
  unfold spawnConnection at h
  dsimp only at h
  split at h
  next => cases h; rfl
  next => cases h
  next => cases h

theorem download_reaches_sound {x : ReadExchange} (hn : dir.Nameable target) (hne : file ≠ [])
    (found : serverDir.status (requestedPath target) = some (.file file))
    (run : ReflTransGen (ReadExchangeStep k) (readExchange k target dir serverDir) x) :
    x.server.1 = serverDir ∧ DownloadAt file target dir x.client.1 x.client.2 ∧
      ∀ r s, x.server.2 = some (.read r) → r.control = .looping s → s.fileStream.bad = false := by
  induction run with
  | refl => exact ⟨rfl, rfl, by simp [readExchange]⟩
  | tail run hstep ih =>
    obtain ⟨a, hrel⟩ := read_reaches_related hn.2 found run
    cases hstep with
    | client hd ha hr =>
      obtain ⟨⟨dir', c, o⟩, hclient, he⟩ := Option.map_eq_some_iff.mp hr
      cases he
      exact ⟨ih.1, readClient_sound hn hne hrel ih.2.1 hd ha hclient, ih.2.2⟩
    | server hd ha hr =>
      rcases serverParty_step ha hr with ⟨_, _, c, _, _, hspawn, rfl, _⟩ |
        ⟨c, dir', c', hc, _, hresume, rfl⟩
      · refine ⟨ih.1, ih.2.1, fun r s hr hs => ?_⟩
        cases hr
        have hstart := spawnConnection_spawned hspawn
        rw [hs] at hstart
        cases hstart
      · obtain ⟨r, rfl, _, hpath, _⟩ := hrel.server c hc
        obtain ⟨⟨r', o⟩, hread, he⟩ := Option.map_eq_some_iff.mp hresume
        cases he
        refine ⟨ih.1, ih.2.1, fun r'' s hr'' hs => ?_⟩
        cases hr''
        exact readConnection_unfailed hd (by rw [hpath]; exact hrel.found) hread
          (fun s => ih.2.2 r s hc) s hs

/-- A download whose two loops run can still be brought to its end. -/
theorem download_recovers {x : ReadExchange} {s : SendLoop} {r : ReadConnection}
    {l : ReceiveLoop Nat} (hn : dir.Nameable target) (hne : file ≠ [])
    (hlen : chunkCount dataChunkSize file < 65536)
    (found : serverDir.status (requestedPath target) = some (.file file))
    (run : ReflTransGen (ReadExchangeStep k) (readExchange k target dir serverDir) x)
    (hl : x.client.2.control = .looping l) (hla : l.Alive) (hr : x.server.2 = some (.read r))
    (hs : r.control = .looping s) (hsa : s.Alive) :
    ∃ y, ReflTransGen (ReadExchangeStep k) x y ∧
      (readClientParty k).result y.client = some none ∧
      (serverParty k).result y.server = some none ∧ y.client.1.status target = some (.file file) := by
  obtain ⟨a, hrel⟩ := read_reaches_related hn.2 found run
  obtain ⟨hstore, hat, hunfailed⟩ := download_reaches_sound hn hne found run
  simp only [DownloadAt, hl] at hat
  obtain ⟨hdir, hknows⟩ := hat
  obtain ⟨htarget, hreceive⟩ := hrel.client
  simp only [hl] at hreceive
  obtain ⟨hserver, hreceive, _⟩ := hreceive
  obtain ⟨r', heq, hpeer, hpath, hsend⟩ := hrel.server _ hr
  cases heq
  simp only [hs] at hsend
  have hx : x = ⟨readClientWith k target dir l, readConnectionWith k target serverDir (.looping s),
      x.sent⟩ := by
    obtain ⟨⟨dir', server, target', control⟩, ⟨store, connection⟩, packets⟩ := x
    obtain ⟨peer, path, control'⟩ := r
    simp only at hl hr hs hstore hdir htarget hserver hpeer hpath
    subst hl hr hs hstore hdir htarget hserver hpeer hpath
    rfl
  have hsend := hsend.running (hsa.running _)
  have hsr : SenderReady file a.next s.control s :=
    ⟨hsend.at_next, hsa.patient, hunfailed r s hr hs, rfl⟩
  obtain ⟨y, hrun, hy, hy', hheld⟩ := transfer_drains (p := serverParty k) (q := readClientParty k)
    (readConnection_hosts found) (readClient_hosts hn) k.client_ne_connection.symm
    clientMemory_counts hlen hsr (loopControl_cases hsa.running hsend.polite)
    (hreceive.ready hknows hla hrel.inv) (loopControl_cases hla.running hreceive.polite)
    (hsend.level hsa.running hrel.inv hlen) x.sent
  rw [hx]
  exact ⟨y.swap, exchange_swap hrun, hy', hy, hheld⟩

end

/-- However many datagrams of a transfer have been lost, delayed, repeated and reordered: as long as
both loops run and neither has run out of time, the transfer can still come to its good end. -/
theorem transfers_recover {file : List UInt8} (hne : file ≠ [])
    (hlen : file.length < 65535 * dataChunkSize) :
    (∀ k name dir x s w l, dir.Nameable (uploadPath name) →
      ReflTransGen (WriteExchangeStep k) (writeExchange k file name dir) x →
      x.client.control = .looping s → s.Alive → x.server.2 = some (.write w) →
      w.control = .looping l → l.Alive →
      ∃ y, ReflTransGen (WriteExchangeStep k) x y ∧ y.client.control = .returned none ∧
        (serverParty k).result y.server = some none ∧
        y.server.1.status (uploadPath name) = some (.file file)) ∧
    (∀ k target dir serverDir x s r l, dir.Nameable target →
      serverDir.status (requestedPath target) = some (.file file) →
      ReflTransGen (ReadExchangeStep k) (readExchange k target dir serverDir) x →
      x.client.2.control = .looping l → l.Alive → x.server.2 = some (.read r) →
      r.control = .looping s → s.Alive →
      ∃ y, ReflTransGen (ReadExchangeStep k) x y ∧
        (readClientParty k).result y.client = some none ∧
        (serverParty k).result y.server = some none ∧
        y.client.1.status target = some (.file file)) := by
  rw [← chunkCount_lt_iff hne] at hlen
  constructor
  · intro k name dir x s w l hn run hs hsa hw hl hla
    exact upload_recovers hn hne hlen run hs hsa hw hl hla
  · intro k target dir serverDir x s r l hn found run hl hla hr hs hsa
    exact download_recovers hn hne hlen found run hl hla hr hs hsa

/-- An upload of one byte whose first block and its acknowledgement are lost for the time being. -/
def stalledUpload : Option WriteExchange :=
  (writeExchange twoHosts [7] (literal "f") fun _ => none).replay {}
    (writeClientParty twoHosts) (serverParty twoHosts)
    [.inl (.sent none),
      .inr (.datagram twoHosts.client (WrqPacket.toBuffer { filename := literal "f" })),
      .inr .scheduled, .inr .scheduled, .inr (.sent none),
      .inl (.datagram twoHosts.connection (ackBytes 0)), .inl .scheduled, .inl (.sent none),
      .inr .timeout, .inl .timeout]

theorem stalledUpload_isSome : stalledUpload.isSome = true := by decide +kernel

set_option maxRecDepth 4000 in
theorem transfers_recover_stalled :
    ∃ y, ReflTransGen (WriteExchangeStep twoHosts) (stalledUpload.get stalledUpload_isSome) y ∧
      y.client.control = .returned none ∧
      (serverParty twoHosts).result y.server = some none ∧
      y.server.1.status (uploadPath (literal "f")) = some (.file [7]) :=
  (transfers_recover (by decide) (by decide)).1 twoHosts (literal "f") (fun _ => none)
    _ _ _ _ uploadPath_f_nameable
    (replay_reaches disk_works (Option.some_get stalledUpload_isSome).symm) rfl
    ⟨nofun, rfl⟩ rfl rfl ⟨nofun, rfl⟩

end Protocols
