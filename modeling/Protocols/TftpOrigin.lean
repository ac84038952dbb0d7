import Protocols.TftpFailure

namespace Protocols

/-- Whom the coroutine has been resumed with a datagram of. -/
def Wake.sender : Wake → Option Endpoint
  | .datagram sender _ => some sender
  | _ => none

/-- `write_client` and the senders of the acknowledgements it has counted, in order. -/
structure WriteHistory where
  client : WriteClient
  counted : List Endpoint

/-- An acknowledgement is counted when the handshake ends or the block number goes on. -/
def WriteClient.counts (c c' : WriteClient) : Bool :=
  match c.control, c'.control with
  | .responding, .opened => true
  | .looping s, .looping t => t.dataPacket.block != s.dataPacket.block
  | _, _ => false

def WriteHistory.next (h : WriteHistory) (event : Disk × Wake) : Option WriteHistory :=
  (writeClientResume event.1 h.client event.2).map fun (client, _) =>
    ⟨client, if h.client.counts client then h.counted ++ event.2.sender.toList else h.counted⟩

/-- `read_client` in its directory, the sender of the response its handshake has accepted, and
the bytes written to the target, each with the sender of the datagram heard last. -/
structure ReadHistory where
  dir : Directory
  client : ReadClient
  heard : Option Endpoint
  response : Option Endpoint
  written : List (Option Endpoint × UInt8)

/-- What the client has written so far. -/
def ReadClient.contents (c : ReadClient) : List UInt8 :=
  match c.control with
  | .opened stream _ => stream.contents
  | .looping loop => loop.fileStream.contents
  | .returned _ stream => stream.contents
  | .requesting | .responding | .threw => []

def ReadClient.accepts (c c' : ReadClient) : Bool :=
  match c.control, c'.control with
  | .responding, .opened _ _ => true
  | _, _ => false

def ReadHistory.next (h : ReadHistory) (event : Disk × Wake) : Option ReadHistory :=
  (readClientResume event.1 h.dir h.client event.2).map fun (dir, client, _) =>
    let heard := event.2.sender.or h.heard
    { dir, client, heard
      response := if h.client.accepts client then heard else h.response
      written := h.written ++
        (client.contents.drop h.client.contents.length).map fun byte => (heard, byte) }

/-- The handshake takes the datagram for the response it has been waiting for. -/
def Answers (expected : Opcode) (block : UInt16) (bytes : List UInt8) : Prop :=
  (getError (receivePacket bytes)).1 ≠ .error ∧ getOpcode (receivePacket bytes) = expected ∧
    getBlockNumber (receivePacket bytes) = block

theorem handleServerResponse_datagram {expected : Opcode} {block : UInt16} {sender : Endpoint}
    {bytes : List UInt8} (h : Answers expected block bytes) :
    handleServerResponse expected block (.datagram sender bytes) =
      some (.ok (sender, receivePacket bytes)) := by
  simp [handleServerResponse, h.1, h.2.1, h.2.2]

theorem handleServerResponse_answers {expected : Opcode} {block : UInt16} {wake : Wake}
    {sender : Endpoint} {response : List UInt8}
    (h : handleServerResponse expected block wake = some (.ok (sender, response))) :
    ∃ bytes, wake = .datagram sender bytes ∧ response = receivePacket bytes ∧
      Answers expected block bytes := by
  obtain ⟨bytes, rfl, rfl, hop, hblock⟩ := handleServerResponse_ok h
  refine ⟨bytes, rfl, rfl, fun herr => ?_, hop, hblock⟩
  simp [handleServerResponse, herr] at h

@[simp] theorem sendLoop_head_block (s : SendLoop) :
    s.loopHead.dataPacket.block = s.dataPacket.block := by
  unfold SendLoop.loopHead
  split
  next => split <;> rfl
  next => split <;> rfl

theorem uint16_succ_ne (n : UInt16) : n + 1 ≠ n := by
  intro h
  have := congrArg UInt16.toNat h
  rw [UInt16.toNat_add] at this
  have hlt := n.toNat_lt
  simp only [UInt16.reduceToNat] at this
  omega

/-- Only a datagram of the peer makes a send loop go on to the next block. -/
theorem sendLoop_resume_block {msg : String} {peer : Endpoint} {f : InputFile} {s t : SendLoop}
    {wake : Wake} {out : Outgoing} (hs : sendLoopResume msg peer f s wake = some (t, out)) :
    t.dataPacket.block = s.dataPacket.block ∨
      ∃ bytes, wake = .datagram peer bytes ∧ t = s.acknowledged f := by
  cases sendLoopResume_step hs with
  | expired => exact Or.inl rfl
  | sent => exact Or.inl rfl
  | unsent => exact Or.inl rfl
  | unheard => exact Or.inl (sendLoop_head_block s)
  | stranger => exact Or.inl rfl
  | ignored => exact Or.inl (sendLoop_head_block s)
  | acknowledged bytes _ hw => exact Or.inr ⟨bytes, hw, rfl⟩
  | answered => exact Or.inl (sendLoop_head_block s)
  | unanswered => exact Or.inl (sendLoop_head_block s)

/-- Once the handshake has fixed the port, only the server's address and that port count. -/
structure WriteFixed (peer first : Endpoint) (h : WriteHistory) : Prop where
  server : h.client.server = peer
  past : h.client.control ≠ .requesting ∧ h.client.control ≠ .responding
  counted : ∃ later, h.counted = first :: later ∧ ∀ e ∈ later, e = peer

theorem write_next_fixed {peer first : Endpoint} {h h' : WriteHistory} {event : Disk × Wake}
    (inv : WriteFixed peer first h) (hs : h.next event = some h') : WriteFixed peer first h' := by
  obtain ⟨⟨c', out⟩, hr, rfl⟩ := Option.map_eq_some_iff.mp hs
  obtain ⟨rfl, ⟨hreq, hresp⟩, later, hcounted, hlater⟩ := inv
  cases writeClientResume_step hr with
  | requested hc => exact absurd hc hreq
  | unsent error hc => exact absurd hc hreq
  | refused error hc => exact absurd hc hresp
  | answered sender response hc => exact absurd hc hresp
  | started hc => exact ⟨rfl, by simp, later, by simp [WriteClient.counts, hc, hcounted], hlater⟩
  | returned loop error hc =>
    exact ⟨rfl, by simp, later, by simp [WriteClient.counts, hc, hcounted], hlater⟩
  | looped loop loop' out hc hloop =>
    refine ⟨rfl, by simp, ?_⟩
    rcases sendLoop_resume_block hloop with hb | ⟨bytes, hw, _⟩
    · exact ⟨later, by simp [WriteClient.counts, hc, hb, hcounted], hlater⟩
    · simp only [hw, Wake.sender, Option.toList_some, hcounted]
      split
      next =>
        refine ⟨later ++ [h.client.server], by simp, fun e he => ?_⟩
        rcases List.mem_append.mp he with he | he
        · exact hlater e he
        · exact List.mem_singleton.mp he
      next => exact ⟨later, rfl, hlater⟩

def WriteHistory.start (server : Endpoint) (name source : List UInt8) : WriteHistory :=
  ⟨⟨server, name, source, .requesting⟩, []⟩

/-- The third event and the rest are what the client hears once it has taken the second one, if
it is the response it has been waiting for. -/
def Handshake (expected : Opcode) (block : UInt16) (sender : Endpoint) (bytes : List UInt8)
    (events : List (Disk × Wake)) : Prop :=
  (∃ d d' rest, events = (d, .sent none) :: (d', .datagram sender bytes) :: rest) ∧
    Answers expected block bytes

theorem not_handshake_of_short {expected : Opcode} {block : UInt16} {events : List (Disk × Wake)}
    (h : events.length < 2) (sender : Endpoint) (bytes : List UInt8) :
    ¬ Handshake expected block sender bytes events := by
  intro hand
  obtain ⟨⟨d, d', rest, rfl⟩, _⟩ := hand
  simp only [List.length_cons] at h
  omega

theorem write_returned_stops {h : WriteHistory} {error : Option ErrorCode}
    (hc : h.client.control = .returned error) (event : Disk × Wake) : h.next event = none := by
  simp [WriteHistory.next, writeClientResume, hc]

theorem write_events_returned {h h' : WriteHistory} {error : Option ErrorCode}
    {events : List (Disk × Wake)} (hc : h.client.control = .returned error)
    (run : events.foldlM WriteHistory.next h = some h') : events = [] ∧ h' = h := by
  cases events with
  | nil => exact ⟨rfl, (Option.some.inj run).symm⟩
  | cons event events =>
    rw [List.foldlM_cons, write_returned_stops hc] at run
    cases run

/-- A run in which the handshake has not ended well, or one that its response has fixed. -/
theorem write_events_cases {server : Endpoint} {name source : List UInt8}
    {events : List (Disk × Wake)} {h : WriteHistory}
    (run : events.foldlM WriteHistory.next (.start server name source) = some h) :
    (h.counted = [] ∧ ∀ sender bytes, ¬ Handshake .ack 0 sender bytes events) ∨
    ∃ sender bytes, Handshake .ack 0 sender bytes events ∧
      WriteFixed ⟨server.address, sender.port⟩ sender h := by
  match events with
  | [] =>
    cases Option.some.inj run
    exact Or.inl ⟨rfl, not_handshake_of_short (by simp)⟩
  | (d, wake) :: events =>
    rw [List.foldlM_cons] at run
    obtain ⟨h₁, hs, run⟩ := Option.bind_eq_some_iff.mp run
    obtain ⟨⟨c, out⟩, hr, rfl⟩ := Option.map_eq_some_iff.mp hs
    match wake with
    | .scheduled => cases hr
    | .timeout => cases hr
    | .datagram _ _ => cases hr
    | .watchdog => cases hr
    | .sent (some error) =>
      cases hr
      obtain ⟨rfl, rfl⟩ := write_events_returned rfl run
      exact Or.inl ⟨rfl, not_handshake_of_short (by simp)⟩
    | .sent none =>
      cases hr
      match events with
      | [] =>
        cases Option.some.inj run
        exact Or.inl ⟨rfl, not_handshake_of_short (by simp)⟩
      | (d', wake) :: events =>
        rw [List.foldlM_cons] at run
        obtain ⟨h₂, hs, run⟩ := Option.bind_eq_some_iff.mp run
        obtain ⟨⟨c, out⟩, hr, rfl⟩ := Option.map_eq_some_iff.mp hs
        obtain ⟨response, hresponse, hr⟩ := Option.map_eq_some_iff.mp hr
        match response with
        | .error e =>
          cases hr
          obtain ⟨rfl, rfl⟩ := write_events_returned rfl run
          refine Or.inl ⟨rfl, ?_⟩
          rintro sender bytes ⟨⟨_, _, _, he⟩, hanswers⟩
          cases he
          rw [handleServerResponse_datagram hanswers] at hresponse
          cases hresponse
        | .ok (sender, response) =>
          cases hr
          obtain ⟨bytes, rfl, rfl, hanswers⟩ := handleServerResponse_answers hresponse
          refine Or.inr ⟨sender, bytes, ⟨⟨d, d', events, rfl⟩, hanswers⟩, ?_⟩
          exact foldlM_invariant run ⟨rfl, by simp, [], rfl, by simp⟩ fun _ _ _ => write_next_fixed

/-- Every acknowledgement counted has come from the server, from the port of the first one. -/
def WriteHistory.FromServer (server : Endpoint) (h : WriteHistory) : Prop :=
  ∀ e ∈ h.counted, e.address = server.address ∧
    ∃ first, h.counted.head? = some first ∧ e.port = first.port

/-- The handshake is ended by somebody else. -/
def CountsForeignAck (server : Endpoint) (events : List (Disk × Wake)) : Prop :=
  ∃ sender bytes, Handshake .ack 0 sender bytes events ∧ sender.address ≠ server.address

theorem write_fromServer_iff {server : Endpoint} {name source : List UInt8}
    {events : List (Disk × Wake)} {h : WriteHistory}
    (run : events.foldlM WriteHistory.next (.start server name source) = some h) :
    h.FromServer server ↔ ¬ CountsForeignAck server events := by
  rcases write_events_cases run with ⟨hnone, hno⟩ | ⟨sender, bytes, hand, inv⟩
  · refine iff_of_true (by simp [WriteHistory.FromServer, hnone]) ?_
    rintro ⟨sender, bytes, hand, _⟩
    exact hno sender bytes hand
  · obtain ⟨later, hcounted, hlater⟩ := inv.counted
    constructor
    · rintro hfrom ⟨sender', bytes', hand', hne⟩
      obtain ⟨⟨_, _, _, he⟩, _⟩ := hand
      obtain ⟨⟨_, _, _, he'⟩, _⟩ := hand'
      rw [he] at he'
      cases he'
      exact hne (hfrom sender (by simp [hcounted])).1
    · intro hno e he
      have haddress : sender.address = server.address := by
        by_contra hne
        exact hno ⟨sender, bytes, hand, hne⟩
      refine ⟨?_, sender, by simp [hcounted], ?_⟩
      all_goals
        rw [hcounted] at he
        rcases List.mem_cons.mp he with rfl | he
      · exact haddress
      · rw [hlater e he]
      · rfl
      · rw [hlater e he]

/-- Once the loop of `read_client` has written the response, only the server's address and the
port of the response count. -/
structure ReadFixed (peer first : Endpoint) (initial : List UInt8) (h : ReadHistory) : Prop where
  server : h.client.server = peer
  past : h.client.control ≠ .requesting ∧ h.client.control ≠ .responding ∧
    ∀ stream response, h.client.control ≠ .opened stream response
  response : h.response = some first
  written : ∃ later, h.written = initial.map (fun byte => (some first, byte)) ++ later ∧
    ∀ x ∈ later, x.1 = some peer

theorem ReadFixed.stays {peer first : Endpoint} {initial : List UInt8} {h h' : ReadHistory}
    (inv : ReadFixed peer first initial h) (hserver : h'.client.server = h.client.server)
    (hresponse : h'.response = h.response) (hwritten : h'.written = h.written)
    (past : h'.client.control ≠ .requesting ∧ h'.client.control ≠ .responding ∧
      ∀ stream response, h'.client.control ≠ .opened stream response) :
    ReadFixed peer first initial h' :=
  ⟨hserver.trans inv.server, past, hresponse.trans inv.response, by rw [hwritten]; exact inv.written⟩

theorem read_next_fixed {peer first : Endpoint} {initial : List UInt8} {h h' : ReadHistory}
    {event : Disk × Wake} (inv : ReadFixed peer first initial h) (hs : h.next event = some h') :
    ReadFixed peer first initial h' := by
  obtain ⟨⟨dir', c', out⟩, hr, rfl⟩ := Option.map_eq_some_iff.mp hs
  obtain ⟨hreq, hresp, hopened⟩ := inv.past
  cases readClientResume_step hr with
  | requested hc => exact absurd hc hreq
  | unsent error hc => exact absurd hc hreq
  | refused error hc => exact absurd hc hresp
  | unopened sender response hc => exact absurd hc hresp
  | answered sender response hc => exact absurd hc hresp
  | started stream response hc => exact absurd hc (hopened stream response)
  | failed loop error hc =>
    exact inv.stays rfl (by simp [ReadClient.accepts, hc]) (by simp [ReadClient.contents, hc])
      (by simp)
  | succeeded loop hc =>
    exact inv.stays rfl (by simp [ReadClient.accepts, hc]) (by simp [ReadClient.contents, hc])
      (by simp)
  | looped loop loop' out hc hloop =>
    rcases receiveLoop_resume_cases hloop with ⟨_, hfs, _⟩ | ⟨_, _, bytes, hw, _, _, ht⟩
    · exact inv.stays rfl (by simp [ReadClient.accepts, hc])
        (by simp [ReadClient.contents, hc, hfs]) (by simp)
    · obtain ⟨later, hwritten, hlater⟩ := inv.written
      refine ⟨inv.server, by simp, by simpa [ReadClient.accepts, hc] using inv.response, ?_⟩
      dsimp only
      rw [hwritten, List.append_assoc]
      refine ⟨_, rfl, fun x hx => ?_⟩
      rcases List.mem_append.mp hx with hx | hx
      · exact hlater x hx
      · obtain ⟨byte, _, rfl⟩ := List.mem_map.mp hx
        simp [hw, Wake.sender, inv.server]

def ReadHistory.start (dir : Directory) (server : Endpoint) (target : List UInt8) : ReadHistory :=
  ⟨dir, ⟨server, target, .requesting⟩, none, none, []⟩

/-- The datagram ends the handshake, the target can be opened, and the loop is started. -/
def WritesResponse (dir : Directory) (target : List UInt8) (sender : Endpoint) (bytes : List UInt8)
    (events : List (Disk × Wake)) : Prop :=
  Answers .data 1 bytes ∧ ∃ d d' d'' rest,
    events = (d, .sent none) :: (d', .datagram sender bytes) :: (d'', .scheduled) :: rest ∧
      (dir.openOut d' target).2.good = true

theorem not_writesResponse_of_short {dir : Directory} {target : List UInt8}
    {events : List (Disk × Wake)} (h : events.length < 3) (sender : Endpoint)
    (bytes : List UInt8) : ¬ WritesResponse dir target sender bytes events := by
  intro hw
  obtain ⟨_, d, d', d'', rest, rfl, _⟩ := hw
  simp only [List.length_cons] at h
  omega

theorem read_ended_stops {h h' : ReadHistory} {events : List (Disk × Wake)}
    (hc : (∃ error stream, h.client.control = .returned error stream) ∨ h.client.control = .threw)
    (run : events.foldlM ReadHistory.next h = some h') : events = [] ∧ h' = h := by
  cases events with
  | nil => exact ⟨rfl, (Option.some.inj run).symm⟩
  | cons event events =>
    have hnone : h.next event = none := by
      rcases hc with ⟨error, stream, hc⟩ | hc <;> simp [ReadHistory.next, readClientResume, hc]
    rw [List.foldlM_cons, hnone] at run
    cases run

/-- A run that has written nothing, or one in which the loop has written the response first. -/
def ReadEventsCases (dir : Directory) (server : Endpoint) (target : List UInt8)
    (events : List (Disk × Wake)) (h : ReadHistory) : Prop :=
  (h.written = [] ∧ ∀ sender bytes, ¬ WritesResponse dir target sender bytes events) ∨
  ∃ sender bytes d d' d'' rest,
    events = (d, .sent none) :: (d', .datagram sender bytes) :: (d'', .scheduled) :: rest ∧
    Answers .data 1 bytes ∧ ReadFixed ⟨server.address, sender.port⟩ sender
      (if (dir.openOut d' target).2.good then getData (receivePacket bytes) else []) h

theorem read_opened_cases {dir : Directory} {server sender : Endpoint} {target bytes : List UInt8}
    {d d' : Disk} {events : List (Disk × Wake)} {h₂ h : ReadHistory}
    (hanswers : Answers .data 1 bytes) (hserver : h₂.client.server = ⟨server.address, sender.port⟩)
    (hc : h₂.client.control = .opened (dir.openOut d' target).2 (receivePacket bytes))
    (hheard : h₂.heard = some sender) (hresponse : h₂.response = some sender)
    (hwritten : h₂.written = []) (run : events.foldlM ReadHistory.next h₂ = some h) :
    ReadEventsCases dir server target ((d, .sent none) :: (d', .datagram sender bytes) :: events)
      h := by
  match events with
  | [] =>
    cases Option.some.inj run
    exact Or.inl ⟨hwritten, not_writesResponse_of_short (by simp)⟩
  | (d'', wake) :: events =>
    rw [List.foldlM_cons] at run
    obtain ⟨h₃, hs, run⟩ := Option.bind_eq_some_iff.mp run
    obtain ⟨⟨dir₃, c, out⟩, hr, rfl⟩ := Option.map_eq_some_iff.mp hs
    match wake with
    | .timeout => simp [readClientResume, hc] at hr
    | .datagram _ _ => simp [readClientResume, hc] at hr
    | .watchdog => simp [readClientResume, hc] at hr
    | .sent _ => simp [readClientResume, hc] at hr
    | .scheduled =>
      simp only [readClientResume, hc, Option.some.injEq, Prod.mk.injEq] at hr
      obtain ⟨rfl, rfl, rfl⟩ := hr
      refine Or.inr ⟨sender, bytes, d, d', d'', events, rfl, hanswers, ?_⟩
      refine foldlM_invariant run ⟨hserver, by simp, ?_, [], ?_, by simp⟩
        fun _ _ _ => read_next_fixed
      · simpa only [ReadClient.accepts, hc, Bool.false_eq_true, if_false] using hresponse
      · simp only [hwritten, ReadClient.contents, hc, openOut_contents, hheard, Wake.sender,
          clientReceiveStart, receiveLoop_head_fileStream, List.length_nil, List.drop_zero,
          Option.none_or, List.nil_append, List.append_nil]
        split
        next hgood => rw [write_contents hgood, openOut_contents, List.nil_append]
        next hbad => simp [OfStream.write, hbad, openOut_contents]

theorem read_events_cases {dir : Directory} {server : Endpoint} {target : List UInt8}
    {events : List (Disk × Wake)} {h : ReadHistory}
    (run : events.foldlM ReadHistory.next (.start dir server target) = some h) :
    ReadEventsCases dir server target events h := by
  match events with
  | [] =>
    cases Option.some.inj run
    exact Or.inl ⟨rfl, not_writesResponse_of_short (by simp)⟩
  | (d, wake) :: events =>
    rw [List.foldlM_cons] at run
    obtain ⟨h₁, hs, run⟩ := Option.bind_eq_some_iff.mp run
    obtain ⟨⟨dir₁, c, out⟩, hr, rfl⟩ := Option.map_eq_some_iff.mp hs
    match wake with
    | .scheduled => cases hr
    | .timeout => cases hr
    | .datagram _ _ => cases hr
    | .watchdog => cases hr
    | .sent (some error) =>
      cases hr
      obtain ⟨rfl, rfl⟩ := read_ended_stops (Or.inl ⟨_, _, rfl⟩) run
      exact Or.inl ⟨rfl, not_writesResponse_of_short (by simp)⟩
    | .sent none =>
      cases hr
      match events with
      | [] =>
        cases Option.some.inj run
        exact Or.inl ⟨rfl, not_writesResponse_of_short (by simp)⟩
      | (d', wake) :: events =>
        rw [List.foldlM_cons] at run
        obtain ⟨h₂, hs, run⟩ := Option.bind_eq_some_iff.mp run
        obtain ⟨⟨dir₂, c, out⟩, hr, rfl⟩ := Option.map_eq_some_iff.mp hs
        obtain ⟨response, hresponse, hr⟩ := Option.map_eq_some_iff.mp hr
        match response with
        | .error e =>
          cases hr
          obtain ⟨rfl, rfl⟩ := read_ended_stops (Or.inl ⟨_, _, rfl⟩) run
          exact Or.inl ⟨rfl, not_writesResponse_of_short (by simp)⟩
        | .ok (sender, response) =>
          obtain ⟨bytes, rfl, rfl, hanswers⟩ := handleServerResponse_answers hresponse
          dsimp only at hr
          split at hr
          next =>
            cases hr
            obtain ⟨rfl, rfl⟩ := read_ended_stops (Or.inr rfl) run
            exact Or.inl ⟨rfl, not_writesResponse_of_short (by simp)⟩
          next =>
            cases hr
            refine read_opened_cases hanswers rfl rfl rfl rfl ?_ run
            simp [ReadHistory.start, ReadClient.contents, openOut_contents]

/-- Every byte written has come from the server, from the port of the response. -/
def ReadHistory.FromServer (server : Endpoint) (h : ReadHistory) : Prop :=
  ∀ x ∈ h.written, ∃ sender first, x.1 = some sender ∧ h.response = some first ∧
    sender.address = server.address ∧ sender.port = first.port

/-- The handshake is ended by somebody else, whose data are the first to be written. -/
def WritesForeignData (dir : Directory) (server : Endpoint) (target : List UInt8)
    (events : List (Disk × Wake)) : Prop :=
  ∃ sender bytes, WritesResponse dir target sender bytes events ∧
    getData (receivePacket bytes) ≠ [] ∧ sender.address ≠ server.address

theorem read_fromServer_iff {dir : Directory} {server : Endpoint} {target : List UInt8}
    {events : List (Disk × Wake)} {h : ReadHistory}
    (run : events.foldlM ReadHistory.next (.start dir server target) = some h) :
    h.FromServer server ↔ ¬ WritesForeignData dir server target events := by
  rcases read_events_cases run with ⟨hnone, hno⟩ | ⟨sender, bytes, d, d', d'', rest, rfl, ha, inv⟩
  · refine iff_of_true (by simp [ReadHistory.FromServer, hnone]) ?_
    rintro ⟨sender, bytes, hw, _⟩
    exact hno sender bytes hw
  · obtain ⟨later, hwritten, hlater⟩ := inv.written
    constructor
    · rintro hfrom ⟨sender', bytes', ⟨_, _, _, _, _, he, hgood⟩, hdata, hne⟩
      cases he
      rw [if_pos hgood] at hwritten
      obtain ⟨byte, data, hcons⟩ := List.exists_cons_of_ne_nil hdata
      obtain ⟨_, _, hs, _, haddress, _⟩ := hfrom (some sender, byte) (by simp [hwritten, hcons])
      cases hs
      exact hne haddress
    · intro hno x hx
      rw [hwritten] at hx
      rcases List.mem_append.mp hx with hx | hx
      · obtain ⟨byte, hbyte, rfl⟩ := List.mem_map.mp hx
        refine ⟨sender, sender, rfl, inv.response, ?_, rfl⟩
        by_contra hne
        split at hbyte
        next hgood =>
          exact hno ⟨sender, bytes, ⟨ha, d, d', d'', rest, rfl, hgood⟩, List.ne_nil_of_mem hbyte, hne⟩
        next => simp at hbyte
      · exact ⟨_, sender, hlater x hx, inv.response, rfl, rfl⟩

theorem read_resume_contents {disk : Disk} {dir dir' : Directory} {c c' : ReadClient} {wake : Wake}
    {out : Outgoing} (hr : readClientResume disk dir c wake = some (dir', c', out)) :
    c.contents <+: c'.contents := by
  cases readClientResume_step hr with
  | requested hc => simp [ReadClient.contents, hc]
  | unsent error hc => simp [ReadClient.contents, hc]
  | refused error hc => simp [ReadClient.contents, hc]
  | unopened sender response hc => simp [ReadClient.contents, hc]
  | answered sender response hc => simp [ReadClient.contents, hc]
  | started stream response hc =>
    simp only [ReadClient.contents, hc, clientReceiveStart, receiveLoop_head_fileStream]
    exact write_contents_grows _ _ _
  | failed loop error hc => simp [ReadClient.contents, hc]
  | succeeded loop hc => simp [ReadClient.contents, hc]
  | looped loop loop' out hc hloop =>
    simp only [ReadClient.contents, hc]
    exact (receiveLoop_resume_appends hloop).2

/-- The bytes of the history are those of the target's stream. -/
theorem read_written_contents {dir : Directory} {server : Endpoint} {target : List UInt8}
    {events : List (Disk × Wake)} {h : ReadHistory}
    (run : events.foldlM ReadHistory.next (.start dir server target) = some h) :
    h.written.map Prod.snd = h.client.contents := by
  refine foldlM_invariant (P := fun h => h.written.map Prod.snd = h.client.contents) run rfl ?_
  intro h event h' hh hs
  obtain ⟨⟨dir', c', out⟩, hr, rfl⟩ := Option.map_eq_some_iff.mp hs
  obtain ⟨new, hnew⟩ := read_resume_contents hr
  simp only [List.map_append, hh, List.map_map, Function.comp_def, List.map_id', ← hnew,
    List.drop_left]

/-- What the clients take has come from the server they asked, unless the first response has not:
the handshakes look at its port, and not at its address. -/
theorem clients_heed_server_iff (server : Endpoint) (name source : List UInt8) (dir : Directory)
    (events : List (Disk × Wake)) :
    (∀ h, events.foldlM WriteHistory.next (.start server name source) = some h →
      (h.FromServer server ↔ ¬ CountsForeignAck server events)) ∧
    ∀ h, events.foldlM ReadHistory.next (.start dir server name) = some h →
      h.written.map Prod.snd = h.client.contents ∧
        (h.FromServer server ↔ ¬ WritesForeignData dir server name events) :=
  ⟨fun _ run => write_fromServer_iff run,
    fun _ run => ⟨read_written_contents run, read_fromServer_iff run⟩⟩

def askedServer : Endpoint := ⟨2, 69⟩

def noFiles : Directory := fun _ => none

/-- The first block of a file of one byte, from the endpoint. -/
def answeredRead (sender : Endpoint) : List (Disk × Wake) :=
  [({}, .sent none), ({}, .datagram sender (dataBytes [7] 1)), ({}, .scheduled)]

def answeredWrite (sender : Endpoint) : List (Disk × Wake) :=
  [({}, .sent none), ({}, .datagram sender (ackBytes 0))]

theorem clients_heed_server_genuine :
    (∀ h, (answeredWrite ⟨2, 50001⟩).foldlM WriteHistory.next
      (.start askedServer (literal "f") [7]) = some h → h.FromServer askedServer) ∧
    ∀ h, (answeredRead ⟨2, 50001⟩).foldlM ReadHistory.next
      (.start noFiles askedServer (literal "f")) = some h → h.FromServer askedServer := by
  constructor
  · intro h run
    refine ((clients_heed_server_iff askedServer (literal "f") [7] noFiles _).1 h run).mpr ?_
    rintro ⟨_, _, ⟨⟨_, _, _, he⟩, _⟩, hne⟩
    cases he
    exact hne rfl
  · intro h run
    refine ((clients_heed_server_iff askedServer (literal "f") [7] noFiles _).2 h run).2.mpr ?_
    rintro ⟨_, _, ⟨_, _, _, _, _, he, _⟩, _, hne⟩
    cases he
    exact hne rfl

/-- A host that nobody has asked ends both handshakes; its byte is written to the target. -/
theorem clients_heed_stranger :
    (∃ h, (answeredWrite ⟨9, 50001⟩).foldlM WriteHistory.next
      (.start askedServer (literal "f") [7]) = some h ∧ ¬ h.FromServer askedServer) ∧
    ∃ h, (answeredRead ⟨9, 50001⟩).foldlM ReadHistory.next
      (.start noFiles askedServer (literal "f")) = some h ∧ h.client.contents = [7] ∧
      ¬ h.FromServer askedServer := by
  refine ⟨⟨_, rfl, fun hfrom => ?_⟩, _, rfl, rfl, fun hfrom => ?_⟩
  · have haddress := (hfrom ⟨9, 50001⟩ (by decide +kernel)).1
    simp [askedServer] at haddress
  · obtain ⟨_, _, hs, _, haddress, _⟩ := hfrom (some ⟨9, 50001⟩, 7) (by decide +kernel)
    cases hs
    simp [askedServer] at haddress

end Protocols
