import Protocols.TftpAgreement
import Protocols.TftpService

namespace Protocols

open Relation

/-- What one end of a link sends to the other; anyone else gets errors at most. -/
def Link.Carries (l : Link) (sender : Bool) (bytes : List UInt8) : Prop :=
  if sender then l.Offers bytes else l.Confirms bytes

theorem Link.Carries.mono {l l' : Link} {sender : Bool} {bytes : List UInt8} (inv : LinkInv l)
    (h : l.Grows l') (hs : l.Carries sender bytes) : l'.Carries sender bytes := by
  unfold Link.Carries at hs ⊢
  split at hs
  next hb =>
    rw [if_pos hb]
    exact Link.Offers.mono inv h hs
  next hb =>
    rw [if_neg hb]
    exact Link.Confirms.mono h hs

/-- One end of the link has moved on. -/
def Link.Moves (l l' : Link) (sender : Bool) : Prop :=
  if sender then l.SenderMoves l' else l.ReceiverMoves l'

theorem Link.Moves.grows {l l' : Link} {sender : Bool} (h : l.Moves l' sender) : l.Grows l' := by
  unfold Link.Moves at h
  split at h
  next => exact h.toGrows
  next => exact h.toGrows

theorem Link.Moves.inv {l l' : Link} {sender : Bool} (h : l.Moves l' sender) : LinkInv l' := by
  unfold Link.Moves at h
  split at h
  next => exact h.inv
  next => exact h.inv

def Talks (peer : Endpoint) (ok : List UInt8 → Prop) (out : Outgoing) : Prop :=
  ∀ q ∈ out, (q.1 = peer ∧ ok q.2) ∨ getOpcode q.2 = .error

theorem Talks.append {peer : Endpoint} {ok ok' : List UInt8 → Prop} {sent out : Outgoing}
    (h : Talks peer ok sent) (hmono : ∀ bytes, ok bytes → ok' bytes) (hout : Talks peer ok' out) :
    Talks peer ok' (sent ++ out) := by
  intro q hq
  rcases List.mem_append.mp hq with hq | hq
  · exact (h q hq).imp_left fun ⟨hp, hs⟩ => ⟨hp, hmono _ hs⟩
  · exact hout q hq

/-- Where a connection stands on its link, and what it has sent. A connection that reads a file
which is still as it was has read all of it when it comes to a block that is not full. -/
def ConnectionOn (allowed : Disk → Prop) (still : List UInt8 → Prop) (dir : Directory) (g : Link)
    (l : Connection) (sent : Outgoing) : Prop :=
  match l with
  | .read r => Talks r.clientEndpoint (g.Carries true) sent ∧
      (∃ stream, ReadBlocks (dir.contents r.path) g.blocks stream) ∧
      (still r.path → Short g.blocks → g.blocks.flatten = dir.contents r.path) ∧
      match r.control with
      | .spawned | .refusing | .opened => g.blocks = []
      | .looping s => SenderOn (dir.contents r.path) g s
      | .returned _ => True
  | .write w => Talks w.clientEndpoint (g.Carries false) sent ∧
      match w.control with
      | .spawned | .refusing => g.state.received = [] ∧ g.state.confirmed = []
      | .opened stream => g.state.received = [] ∧ g.state.confirmed = [] ∧ stream.contents = [] ∧
          (stream.isOpen = false → stream.good = false)
      | .looping s => ReceiverOn serverMemory g s ∧
          (s.fileStream.isOpen = false → g.state.confirmed = [] ∧ ∃ e, s.control = .finished e)
      | .returned _ stream => stream.contents = g.state.received.flatten ∧
          (stream.isOpen = false → g.state.confirmed = []) ∧
          ((∀ disk, allowed disk → disk.Works) → stream.buffered = [])

theorem talks_nil (peer : Endpoint) (ok : List UInt8 → Prop) : Talks peer ok [] := by
  simp [Talks]

theorem talks_error (peer : Endpoint) (ok : List UInt8 → Prop) {receiver : Endpoint}
    {bytes : List UInt8} (h : getOpcode bytes = .error) : Talks peer ok [(receiver, bytes)] := by
  intro q hq
  rw [List.mem_singleton.mp hq]
  exact Or.inr h

/-- What a stream on the name would read is all of it where reading does not fail, and nothing
where the name is no file. -/
theorem input_reads_whole {disk : Disk} {dir : Directory} {path : List UInt8}
    {blocks blocks' : List (List UInt8)} (hd : disk.Works)
    (h : Short blocks → blocks.flatten = dir.contents path)
    (hnext : ReadsWhole (dir.input disk path) blocks → ReadsWhole (dir.input disk path) blocks')
    (hread : blocks'.flatten <+: dir.contents path) (hs : Short blocks') :
    blocks'.flatten = dir.contents path := by
  by_cases hfile : ∃ bytes, dir.status path = some (.file bytes)
  · have hfault : ∀ p, (dir.input disk path).readFault p = false := by
      obtain ⟨bytes, hb⟩ := hfile
      simpa [Directory.input, hb] using hd.reads
    rw [← input_bytes disk] at h ⊢
    exact (hnext ⟨hfault, h⟩).2 hs
  · have hnil : dir.contents path = [] := by
      unfold Directory.contents
      split
      next bytes hb => exact absurd ⟨bytes, hb⟩ hfile
      next => rfl
    rw [hnil] at hread ⊢
    exact List.prefix_nil.mp hread

section

variable {allowed : Disk → Prop} {still : List UInt8 → Prop}

theorem readConnection_resume_on {disk : Disk} {dir : Directory} {r r' : ReadConnection}
    {wake : Wake} {out sent : Outgoing} {g : Link} (inv : LinkInv g) (hd : still r.path → disk.Works)
    (h : ConnectionOn allowed still dir g (.read r) sent)
    (heard : ∀ bytes, wake = .datagram r.clientEndpoint bytes → getOpcode bytes = .ack →
      g.Confirms bytes)
    (hs : readConnectionResume disk dir r wake = some (r', out)) :
    ∃ g', g.SenderMoves g' ∧ ConnectionOn allowed still dir g' (.read r') (sent ++ out) := by
  obtain ⟨htalks, hread, hwhole, h⟩ := h
  have stay : g.SenderMoves g := ⟨Link.Grows.refl g, inv, rfl, rfl⟩
  have silent := htalks.append (fun _ h => h) (talks_nil r.clientEndpoint (g.Carries true))
  cases readConnectionResume_step hs with
  | missing hc =>
    simp only [hc] at h
    exact ⟨g, stay, silent, hread, hwhole, h⟩
  | found hc =>
    simp only [hc] at h
    exact ⟨g, stay, silent, hread, hwhole, h⟩
  | refused =>
    exact ⟨g, stay, htalks.append (fun _ h => h) (talks_error _ _ (by simp [fileNotFound])), hread,
      hwhole, trivial⟩
  | unsent => exact ⟨g, stay, silent, hread, hwhole, trivial⟩
  | started hc =>
    simp only [hc] at h
    obtain ⟨g', hmoves, hon, _, hnext⟩ := link_starts inv (dir.input disk r.path) h
    rw [input_bytes] at hon
    exact ⟨g', hmoves, htalks.append (fun _ => Link.Carries.mono inv hmoves.toGrows) (talks_nil _ _),
      ⟨_, hon.sends.read⟩,
      fun hp => input_reads_whole (hd hp) (hwhole hp) hnext hon.sends.read.begins, hon⟩
  | returned => exact ⟨g, stay, silent, hread, hwhole, trivial⟩
  | looped loop loop' out hc hloop =>
    simp only [hc] at h
    rw [← input_bytes disk] at h
    obtain ⟨g', hmoves, hon, _, hnext, hout⟩ := link_sends inv h heard hloop
    rw [input_bytes] at hon
    exact ⟨g', hmoves, htalks.append (fun _ => Link.Carries.mono inv hmoves.toGrows) hout,
      ⟨_, hon.sends.read⟩,
      fun hp => input_reads_whole (hd hp) (hwhole hp) hnext hon.sends.read.begins, hon⟩

theorem writeConnection_resume_on {disk : Disk} {dir dir' : Directory} {w w' : WriteConnection}
    {wake : Wake} {out sent : Outgoing} {g : Link} (inv : LinkInv g) (hd : allowed disk)
    (h : ConnectionOn allowed still dir g (.write w) sent)
    (heard : ∀ bytes, wake = .datagram w.clientEndpoint bytes → getOpcode bytes = .data →
      g.Offers bytes)
    (hs : writeConnectionResume disk dir w wake = some (dir', w', out)) :
    ∃ g', g.ReceiverMoves g' ∧ ConnectionOn allowed still dir' g' (.write w') (sent ++ out) := by
  obtain ⟨htalks, h⟩ := h
  have stay : g.ReceiverMoves g := ⟨Link.Grows.refl g, inv, rfl, rfl⟩
  have silent := htalks.append (fun _ h => h) (talks_nil w.clientEndpoint (g.Carries false))
  cases writeConnectionResume_step hs with
  | present hc =>
    simp only [hc] at h
    exact ⟨g, stay, silent, h⟩
  | created hc =>
    simp only [hc] at h
    refine ⟨g, stay, silent, h.1, h.2, ?_⟩
    unfold Directory.openOut
    split <;> simp [OfStream.contents]
  | refused hc =>
    simp only [hc] at h
    exact ⟨g, stay, htalks.append (fun _ h => h) (talks_error _ _ (by simp [fileExists])),
      by simp [OfStream.contents, h.1], fun _ => h.2, fun _ => rfl⟩
  | unsent error hc =>
    simp only [hc] at h
    exact ⟨g, stay, silent, by simp [OfStream.contents, h.1], fun _ => h.2, fun _ => rfl⟩
  | started stream hc =>
    simp only [hc] at h
    refine ⟨g, stay, silent, receiverOn_serverStart h.1 h.2.2.1, fun ho => ⟨h.2.1, loopHead_bad ?_⟩⟩
    exact h.2.2.2 (by simpa [serverReceiveStart] using ho)
  | returned loop error hc =>
    simp only [hc] at h
    refine ⟨g, stay, silent, (close_contents _ _).trans h.1.contents, fun ho => ?_, fun hw => ?_⟩
    · exact (h.2 (by rwa [close_isOpen] at ho)).1
    · simp [OfStream.close, (hw disk hd).closes]
  | looped loop loop' out hc hloop =>
    simp only [hc] at h
    obtain ⟨g', hmoves, hat, hout⟩ := link_receives serverMemory_recalls inv h.1 heard hloop
    refine ⟨g', hmoves, htalks.append (fun _ => Link.Carries.mono inv hmoves.toGrows) hout, hat,
      fun ho => ?_⟩
    rw [receiveLoop_resume_isOpen hloop] at ho
    obtain ⟨_, error, he⟩ := h.2 ho
    simp [serverReceiveLoop, receiveLoopResume, he] at hloop

end

/-- What the connections are there for: the role of each, as its request has asked for it. -/
abbrev Roles := Nat → Option (Bool × Endpoint × List UInt8)

/-- Where a client program stands: after its handshake, on the link of one connection. A program
that has returned without an error has sent, or received, all there is. -/
def ClientOn (a : Addresses) (k : Nat) (roles : Roles) (still : Nat → List UInt8 → Prop)
    (dir : Directory) (g : Nat → Link) (c : ClientProgram) : Prop :=
  match c with
  | .write c => match c.control with
    | .requesting | .responding => c.server = a.listener
    | .opened => ∃ n, c.server = a.connection n ∧
        roles n = some (true, a.client k, uploadPath c.filename) ∧ (g n).state.confirmed ≠ []
    | .looping s => ∃ n, c.server = a.connection n ∧
        roles n = some (true, a.client k, uploadPath c.filename) ∧ (g n).state.confirmed ≠ [] ∧
        SenderOn c.source (g n) s ∧
        (s.fileStream.eof = true → s.fileStream.position = c.source.length)
    | .returned none => ∃ n, roles n = some (true, a.client k, uploadPath c.filename) ∧
        (g n).state.confirmed ≠ [] ∧ (g n).blocks.flatten = c.source ∧
        (g n).blocks.getLast? = some [] ∧ (g n).state.next = (g n).blocks.length ∧
        ∃ stream, ReadBlocks c.source (g n).blocks stream
    | .returned (some _) => True
  | .read own c => match c.control with
    | .requesting | .responding => c.server = a.listener ∧ own.status c.target = none
    | .opened stream response => ∃ n, c.server = a.connection n ∧
        roles n = some (false, a.client k, requestedPath c.target) ∧ stream.contents = [] ∧
        stream.good = true ∧ getBlockNumber response = 1 ∧
        ∃ bytes, response = receivePacket bytes ∧ (g n).Offers bytes
    | .looping s => ∃ n, c.server = a.connection n ∧
        roles n = some (false, a.client k, requestedPath c.target) ∧ ReceiverOn clientMemory (g n) s
    | .returned error stream => stream.contents <+: dir.contents (requestedPath c.target) ∧
        (error = none → ∃ n, roles n = some (false, a.client k, requestedPath c.target) ∧
          (still n (requestedPath c.target) →
            stream.contents = dir.contents (requestedPath c.target)))
    | .threw => True

/-- What a client program has sent: its request, its part in one link, and errors. -/
def ClientTalks (a : Addresses) (k : Nat) (roles : Roles) (g : Nat → Link) (c : ClientProgram)
    (sent : Outgoing) : Prop :=
  ∀ q ∈ sent, (q.1 = a.listener ∧ q.2 = c.request) ∨
    (∃ n, q.1 = a.connection n ∧ roles n = some (c.role (a.client k)) ∧
      (g n).Carries (c.role (a.client k)).1 q.2) ∨
    getOpcode q.2 = .error

/-- The client has begun its part in the link of the connection. -/
def ClientProgram.Entered (e : Endpoint) : ClientProgram → Prop
  | .write c => c.server = e ∧ c.control ≠ .requesting ∧ c.control ≠ .responding ∧
      c.control ≠ .opened
  | .read _ c => c.server = e ∧ c.control ≠ .requesting ∧ c.control ≠ .responding ∧
      ∀ stream response, c.control ≠ .opened stream response

/-- The end of the link that belongs to the client is as it was at the beginning. -/
def Link.Untouched (l : Link) (clientSends : Bool) : Prop :=
  if clientSends then l.blocks = [] else l.state.received = []

/-- What comes of a client's step: at most one link moves, at the client's end, and it is the link
the client has entered. -/
structure ClientMoves (a : Addresses) (k : Nat) (roles : Roles) (still : Nat → List UInt8 → Prop)
    (dir : Directory) (g : Nat → Link) (c : ClientProgram) (out : Outgoing) (n : Nat) (l : Link) :
    Prop where
  moves : (g n).Moves l (c.role (a.client k)).1
  on : ClientOn a k roles still dir (Function.update g n l) c
  talks : ClientTalks a k roles (Function.update g n l) c out
  entered : l = g n ∨ (roles n = some (c.role (a.client k)) ∧ c.Entered (a.connection n) ∧
    ∀ w, c = .write w → l.blocks.flatten <+: w.source)

section

variable {a : Addresses} {k : Nat} {roles : Roles} {still : Nat → List UInt8 → Prop}
  {dir : Directory} {g : Nat → Link}

theorem Link.Moves.refl {l : Link} (inv : LinkInv l) (sender : Bool) : l.Moves l sender := by
  unfold Link.Moves
  split
  next => exact ⟨Link.Grows.refl l, inv, rfl, rfl⟩
  next => exact ⟨Link.Grows.refl l, inv, rfl, rfl⟩

theorem clientMoves_nowhere {c : ClientProgram} {out : Outgoing} (links : ∀ n, LinkInv (g n))
    (hon : ClientOn a k roles still dir g c) (hout : ClientTalks a k roles g c out) :
    ∃ n l, ClientMoves a k roles still dir g c out n l := by
  refine ⟨0, g 0, Link.Moves.refl (links 0) _, ?_, ?_, Or.inl rfl⟩
  · rw [Function.update_eq_self]
    exact hon
  · rw [Function.update_eq_self]
    exact hout

theorem clientTalks_nil (c : ClientProgram) : ClientTalks a k roles g c [] := by
  simp [ClientTalks]

theorem clientTalks_request {c : ClientProgram} :
    ClientTalks a k roles g c [(a.listener, c.request)] := by
  intro q hq
  rw [List.mem_singleton.mp hq]
  exact Or.inl ⟨rfl, rfl⟩

theorem comesToEnd_length {f : InputFile} {before after : IfStream}
    (h : ComesToEnd f before after) (hb : before.eof = true → before.position = f.bytes.length)
    (he : after.eof = true) : after.position = f.bytes.length := by
  rcases h he with ⟨heof, hpos⟩ | ⟨hpos, _⟩
  · rw [hpos, hb heof]
  · exact hpos

theorem confirms_some {l : Link} {bytes : List UInt8} (h : l.Confirms bytes) :
    l.state.confirmed ≠ [] := by
  obtain ⟨b, hb, _⟩ := h
  exact List.ne_nil_of_mem hb

theorem Link.Grows.confirmed_some {l l' : Link} (h : l.Grows l') (hc : l.state.confirmed ≠ []) :
    l'.state.confirmed ≠ [] := by
  obtain ⟨b, hb⟩ := List.exists_mem_of_ne_nil _ hc
  exact List.ne_nil_of_mem (h.confirmed b hb)

theorem writeClient_resume_on {c c' : WriteClient} {disk : Disk} {wake : Wake} {out : Outgoing}
    (links : ∀ n, LinkInv (g n))
    (ports : ∀ m n, roles m ≠ none → roles n ≠ none → a.connection m = a.connection n → m = n)
    (h : ClientOn a k roles still dir g (.write c))
    (fresh : ∀ n, roles n = some (true, a.client k, uploadPath c.filename) →
      ¬ ClientProgram.Entered (a.connection n) (.write c) → (g n).blocks = [])
    (heard : ∀ sender bytes, wake = .datagram sender bytes → getOpcode bytes ≠ .error →
      ∃ n, sender = a.connection n ∧
        roles n = some (true, a.client k, uploadPath c.filename) ∧ (g n).Confirms bytes)
    (hs : writeClientResume disk c wake = some (c', out)) :
    ∃ n l, ClientMoves a k roles still dir g (.write c') out n l := by
  cases writeClientResume_step hs with
  | requested hc =>
    simp only [ClientOn, hc] at h
    refine clientMoves_nowhere links h ?_
    rw [h]
    exact clientTalks_request
  | unsent => exact clientMoves_nowhere links trivial (clientTalks_nil _)
  | refused => exact clientMoves_nowhere links trivial (clientTalks_nil _)
  | answered sender response hc hresponse =>
    simp only [ClientOn, hc] at h
    obtain ⟨bytes, hw, rfl, hop, _⟩ := handleServerResponse_ok hresponse
    rw [getOpcode_receivePacket] at hop
    obtain ⟨n, rfl, hrole, hconf⟩ := heard _ _ hw (by rw [hop]; simp)
    exact clientMoves_nowhere links
      ⟨n, by simp [h, Addresses.connection], hrole, confirms_some hconf⟩ (clientTalks_nil _)
  | started hc =>
    simp only [ClientOn, hc] at h
    obtain ⟨n, hserver, hrole, hsome⟩ := h
    obtain ⟨l, hmoves, hon, hend, _⟩ := link_starts (links n) ⟨c.source, disk.readFault⟩
      (fresh n hrole (by simp [ClientProgram.Entered, hc]))
    refine ⟨n, l, hmoves, ⟨n, hserver, hrole, ?_, by simpa using hon,
      comesToEnd_length hend (by simp)⟩, clientTalks_nil _, Or.inr ⟨hrole, ⟨hserver, by simp⟩, ?_⟩⟩
    · simpa using hmoves.toGrows.confirmed_some hsome
    · rintro w ⟨⟩
      exact hon.sends.read.begins
  | returned loop error hc hended =>
    simp only [ClientOn, hc] at h
    obtain ⟨n, hserver, hrole, hsome, hon, hend⟩ := h
    refine clientMoves_nowhere links ?_ (clientTalks_nil _)
    cases error with
    | some => trivial
    | none =>
      obtain ⟨heof, hlast⟩ := hon.sends.ended hended
      refine ⟨n, hrole, hsome, ?_, hlast, hon.next, _, hon.sends.read⟩
      rw [hon.sends.read.flatten, hend heof, List.take_length]
  | looped loop loop' out hc hloop =>
    simp only [ClientOn, hc] at h
    obtain ⟨n, hserver, hrole, hsome, hon, hend⟩ := h
    have hears : ∀ bytes, wake = .datagram c.server bytes → getOpcode bytes = .ack →
        (g n).Confirms bytes := by
      intro bytes hw hop
      obtain ⟨m, hm, hrolem, hconf⟩ := heard _ _ hw (by rw [hop]; simp)
      rw [ports n m (by simp [hrole]) (by simp [hrolem]) (hserver.symm.trans hm)]
      exact hconf
    obtain ⟨l, hmoves, hon', hend', _, hout⟩ := link_sends (links n) hon hears hloop
    refine ⟨n, l, hmoves, ⟨n, hserver, hrole, ?_, by simpa using hon',
      comesToEnd_length hend' hend⟩, fun q hq => ?_, Or.inr ⟨hrole, ⟨hserver, by simp⟩, ?_⟩⟩
    · simpa using hmoves.toGrows.confirmed_some hsome
    · rcases hout q hq with ⟨hp, ho⟩ | herr
      · refine Or.inr (Or.inl ⟨n, hp.trans hserver, hrole, ?_⟩)
        simpa [Link.Carries, ClientProgram.role] using ho
      · exact Or.inr (Or.inr herr)
    · rintro w ⟨⟩
      exact hon'.sends.read.begins

theorem readClient_resume_on {own own' : Directory} {c c' : ReadClient} {disk : Disk} {wake : Wake}
    {out : Outgoing} (links : ∀ n, LinkInv (g n))
    (ports : ∀ m n, roles m ≠ none → roles n ≠ none → a.connection m = a.connection n → m = n)
    (h : ClientOn a k roles still dir g (.read own c))
    (fresh : ∀ n, roles n = some (false, a.client k, requestedPath c.target) →
      ¬ ClientProgram.Entered (a.connection n) (.read own c) → (g n).state.received = [])
    (served : ∀ n, roles n = some (false, a.client k, requestedPath c.target) →
      (∃ stream, ReadBlocks (dir.contents (requestedPath c.target)) (g n).blocks stream) ∧
      (still n (requestedPath c.target) → Short (g n).blocks →
        (g n).blocks.flatten = dir.contents (requestedPath c.target)))
    (heard : ∀ sender bytes, wake = .datagram sender bytes → getOpcode bytes ≠ .error →
      ∃ n, sender = a.connection n ∧
        roles n = some (false, a.client k, requestedPath c.target) ∧ (g n).Offers bytes)
    (hs : readClientResume disk own c wake = some (own', c', out)) :
    ∃ n l, ClientMoves a k roles still dir g (.read own' c') out n l := by
  -- what the loop has received is a beginning of what the connection has read
  have held : ∀ {n : Nat} {s : ReceiveLoop Nat},
      roles n = some (false, a.client k, requestedPath c.target) → ReceiverOn clientMemory (g n) s →
      s.fileStream.contents <+: dir.contents (requestedPath c.target) := by
    intro n s hrole hat
    obtain ⟨stream, hread⟩ := (served n hrole).1
    rw [hat.contents]
    exact (linkInv_flatten (links n)).trans hread.begins
  cases readClientResume_step hs with
  | requested hc =>
    simp only [ClientOn, hc] at h
    refine clientMoves_nowhere links h ?_
    rw [h.1]
    exact clientTalks_request
  | unsent =>
    exact clientMoves_nowhere links (by simp [ClientOn, OfStream.contents]) (clientTalks_nil _)
  | refused =>
    exact clientMoves_nowhere links (by simp [ClientOn, OfStream.contents]) (clientTalks_nil _)
  | unopened => exact clientMoves_nowhere links trivial (clientTalks_nil _)
  | answered sender response hc hresponse hopen =>
    simp only [ClientOn, hc] at h
    obtain ⟨bytes, hw, rfl, hop, hblock⟩ := handleServerResponse_ok hresponse
    rw [getOpcode_receivePacket] at hop
    obtain ⟨n, rfl, hrole, hoffers⟩ := heard _ _ hw (by rw [hop]; simp)
    have hstream : (own.openOut disk c.target).2 = {} := by
      have ho := openOut_isOpen h.2 hopen
      unfold Directory.openOut at ho ⊢
      split at ho
      next hcond => rw [if_pos hcond]
      next => cases ho
    refine clientMoves_nowhere links ⟨n, by simp [h.1, Addresses.connection], hrole, ?_⟩
      (clientTalks_nil _)
    rw [hstream]
    exact ⟨rfl, rfl, hblock, bytes, rfl, hoffers⟩
  | started stream response hc =>
    simp only [ClientOn, hc] at h
    obtain ⟨n, hserver, hrole, hempty, hgood, hblock, bytes, rfl, hoffers⟩ := h
    obtain ⟨l, hmoves, hat⟩ := link_clientStart disk (links n)
      (fresh n hrole (by simp [ClientProgram.Entered, hc])) hempty hgood hoffers hblock
    exact ⟨n, l, hmoves, ⟨n, hserver, hrole, by simpa using hat⟩, clientTalks_nil _,
      Or.inr ⟨hrole, ⟨hserver, by simp⟩, by simp⟩⟩
  | failed loop error hc =>
    simp only [ClientOn, hc] at h
    obtain ⟨n, _, hrole, hat⟩ := h
    exact clientMoves_nowhere links ⟨held hrole hat, by simp⟩ (clientTalks_nil _)
  | succeeded loop hc hended =>
    simp only [ClientOn, hc] at h
    obtain ⟨n, _, hrole, hat⟩ := h
    obtain ⟨⟨stream, hread⟩, hwhole⟩ := served n hrole
    have hshort := hat.complete (hat.ended hended)
    have hblocks : Short (g n).blocks := by
      obtain ⟨block, hb, hlt⟩ := hshort
      exact ⟨block, (links n).received_begins.subset hb, hlt⟩
    refine clientMoves_nowhere links ?_ (clientTalks_nil _)
    simp only [ClientOn, close_contents]
    refine ⟨held hrole hat, fun _ => ⟨n, hrole, fun hstill => ?_⟩⟩
    rw [hat.contents, short_received (links n) hread hshort]
    exact hwhole hstill hblocks
  | looped loop loop' out hc hloop =>
    simp only [ClientOn, hc] at h
    obtain ⟨n, hserver, hrole, hat⟩ := h
    have hears : ∀ bytes, wake = .datagram c.server bytes → getOpcode bytes = .data →
        (g n).Offers bytes := by
      intro bytes hw hop
      obtain ⟨m, hm, hrolem, hoffers⟩ := heard _ _ hw (by rw [hop]; simp)
      rw [ports n m (by simp [hrole]) (by simp [hrolem]) (hserver.symm.trans hm)]
      exact hoffers
    obtain ⟨l, hmoves, hat', hout⟩ := link_receives clientMemory_recalls (links n) hat hears hloop
    refine ⟨n, l, hmoves, ⟨n, hserver, hrole, by simpa using hat'⟩, fun q hq => ?_,
      Or.inr ⟨hrole, ⟨hserver, by simp⟩, by simp⟩⟩
    rcases hout q hq with ⟨hp, ho⟩ | herr
    · refine Or.inr (Or.inl ⟨n, hp.trans hserver, hrole, ?_⟩)
      simpa [Link.Carries, ClientProgram.role] using ho
    · exact Or.inr (Or.inr herr)

/-- The other end of a client's link, and whatever else there is, may move on. -/
theorem ClientOn.stable {roles' : Roles} {dir' : Directory} {g' : Nat → Link} {c : ClientProgram}
    (links : ∀ n, LinkInv (g n)) (h : ClientOn a k roles still dir g c)
    (hroles : ∀ n r, roles n = some r → roles' n = some r)
    (hdir : ∀ name, dir.contents name <+: dir'.contents name)
    (hstill : ∀ n name, roles n ≠ none → still n name → dir'.contents name = dir.contents name)
    (hg : ∀ n, roles n = some (c.role (a.client k)) →
      (g n).Moves (g' n) (!(c.role (a.client k)).1)) :
    ClientOn a k roles' still dir' g' c := by
  cases c with
  | write c =>
    unfold ClientOn at h ⊢
    dsimp only at h ⊢
    split at h
    next => exact h
    next => exact h
    next =>
      obtain ⟨n, hserver, hrole, hsome⟩ := h
      have hmoves : (g n).ReceiverMoves (g' n) := hg n hrole
      exact ⟨n, hserver, hroles n _ hrole, hmoves.toGrows.confirmed_some hsome⟩
    next =>
      obtain ⟨n, hserver, hrole, hsome, hon, hend⟩ := h
      have hmoves : (g n).ReceiverMoves (g' n) := hg n hrole
      refine ⟨n, hserver, hroles n _ hrole, hmoves.toGrows.confirmed_some hsome, ⟨?_, ?_⟩, hend⟩
      · rw [hmoves.unread]
        exact hon.sends
      · rw [hmoves.unread, hmoves.next]
        exact hon.next
    next =>
      obtain ⟨n, hrole, hsome, h⟩ := h
      have hmoves : (g n).ReceiverMoves (g' n) := hg n hrole
      refine ⟨n, hroles n _ hrole, hmoves.toGrows.confirmed_some hsome, ?_⟩
      rw [hmoves.unread, hmoves.next]
      exact h
    next => trivial
  | read own c =>
    unfold ClientOn at h ⊢
    dsimp only at h ⊢
    split at h
    next => exact h
    next => exact h
    next =>
      obtain ⟨n, hserver, hrole, hempty, hgood, hblock, bytes, hresponse, hoffers⟩ := h
      have hmoves : (g n).SenderMoves (g' n) := hg n hrole
      exact ⟨n, hserver, hroles n _ hrole, hempty, hgood, hblock, bytes, hresponse,
        Link.Offers.mono (links n) hmoves.toGrows hoffers⟩
    next =>
      obtain ⟨n, hserver, hrole, hat⟩ := h
      have hmoves : (g n).SenderMoves (g' n) := hg n hrole
      exact ⟨n, hserver, hroles n _ hrole, ⟨by rw [hmoves.received]; exact hat.count,
        by rw [hmoves.received]; exact hat.contents, hat.running⟩,
        by rw [hmoves.received]; exact hat.complete, hat.ended⟩
    next =>
      refine ⟨h.1.trans (hdir _), fun he => ?_⟩
      obtain ⟨n, hrole, hsame⟩ := h.2 he
      refine ⟨n, hroles n _ hrole, fun hn => ?_⟩
      rw [hstill n _ (by simp [hrole]) hn]
      exact hsame hn
    next => trivial

theorem ClientTalks.stable {roles' : Roles} {g' : Nat → Link} {c : ClientProgram} {sent : Outgoing}
    (links : ∀ n, LinkInv (g n)) (h : ClientTalks a k roles g c sent)
    (hroles : ∀ n r, roles n = some r → roles' n = some r)
    (hg : ∀ n, roles n ≠ none → (g n).Grows (g' n)) : ClientTalks a k roles' g' c sent := by
  intro q hq
  rcases h q hq with hreq | ⟨n, hn, hrole, hcarries⟩ | herr
  · exact Or.inl hreq
  · exact Or.inr (Or.inl ⟨n, hn, hroles n _ hrole,
      Link.Carries.mono (links n) (hg n (by simp [hrole])) hcarries⟩)
  · exact Or.inr (Or.inr herr)

theorem ConnectionOn.stable {allowed : Disk → Prop} {same : List UInt8 → Prop} {dir' : Directory}
    {l : Connection} {link link' : Link} {sent : Outgoing} (inv : LinkInv link)
    (h : ConnectionOn allowed same dir link l sent)
    (hdir : ∀ name, dir.contents name <+: dir'.contents name)
    (hsame : ∀ name, same name → dir'.contents name = dir.contents name)
    (hm : link.Moves link' l.role.1) : ConnectionOn allowed same dir' link' l sent := by
  cases l with
  | read r =>
    obtain ⟨htalks, ⟨stream, hread⟩, hwhole, h⟩ := h
    have hmoves : link.ReceiverMoves link' := hm
    refine ⟨?_, ⟨stream, by rw [hmoves.unread]; exact hread.grow (hdir _)⟩, fun hp => ?_, ?_⟩
    · exact fun q hq => (htalks q hq).imp_left fun ⟨hp, hc⟩ =>
        ⟨hp, Link.Carries.mono inv hmoves.toGrows hc⟩
    · rw [hmoves.unread, hsame _ hp]
      exact hwhole hp
    · split at h
      next => rw [hmoves.unread]; exact h
      next => rw [hmoves.unread]; exact h
      next => rw [hmoves.unread]; exact h
      next =>
        refine ⟨?_, by rw [hmoves.unread, hmoves.next]; exact h.next⟩
        rw [hmoves.unread]
        exact h.sends.grow (hdir _)
      next => trivial
  | write w =>
    obtain ⟨htalks, h⟩ := h
    have hmoves : link.SenderMoves link' := hm
    refine ⟨fun q hq => (htalks q hq).imp_left fun ⟨hp, hc⟩ =>
      ⟨hp, Link.Carries.mono inv hmoves.toGrows hc⟩, ?_⟩
    split at h
    next => rw [hmoves.received, hmoves.confirmed_same]; exact h
    next => rw [hmoves.received, hmoves.confirmed_same]; exact h
    next => rw [hmoves.received, hmoves.confirmed_same]; exact h
    next =>
      refine ⟨⟨⟨by rw [hmoves.received]; exact h.1.count, by rw [hmoves.received]; exact h.1.contents,
        h.1.running⟩, by rw [hmoves.received]; exact h.1.complete, h.1.ended⟩, ?_⟩
      rw [hmoves.confirmed_same]
      exact h.2
    next => rw [hmoves.received, hmoves.confirmed_same]; exact h

end

end Protocols
