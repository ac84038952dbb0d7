import Protocols.StepRelation
import Protocols.TftpConnection
import Protocols.TftpClient

namespace Protocols

open Relation

/-- A datagram handed to the network. -/
structure Packet where
  sender : Endpoint
  receiver : Endpoint
  bytes : List UInt8
  deriving DecidableEq, Repr

/-- The sockets of one transfer: the client's, the server's listening one and the one the
connection opens. The connection answers from the address the request was sent to. -/
structure Sockets where
  client : Endpoint
  listener : Endpoint
  connectionPort : UInt16
  client_ne_listener : client ≠ listener
  client_ne_connection : client ≠ ⟨listener.address, connectionPort⟩
  listener_ne_connection : listener ≠ ⟨listener.address, connectionPort⟩

def Sockets.connection (k : Sockets) : Endpoint := ⟨k.listener.address, k.connectionPort⟩

/-- A program at one end of a transfer: its resumptions, the endpoint it receives at and the one
it sends from, and, once it has returned, its error. -/
structure Party (σ : Type) where
  resume : Disk → σ → Wake → Option (σ × Outgoing)
  listens : σ → Endpoint
  endpoint : Endpoint
  result : σ → Option (Option ErrorCode)

def writeClientParty (k : Sockets) : Party WriteClient where
  resume := writeClientResume
  listens _ := k.client
  endpoint := k.client
  result c := match c.control with
    | .returned error => some error
    | _ => none

/-- The client's directory and `read_client`. -/
def readClientParty (k : Sockets) : Party (Directory × ReadClient) where
  resume disk c wake :=
    (readClientResume disk c.1 c.2 wake).map fun (dir, c, out) => ((dir, c), out)
  listens _ := k.client
  endpoint := k.client
  result c := match c.2.control with
    | .returned error _ => some error
    | _ => none

def Connection.result : Connection → Option (Option ErrorCode)
  | .read c => match c.control with
    | .returned error => some error
    | _ => none
  | .write c => match c.control with
    | .returned error _ => some error
    | _ => none

/-- The server's directory and the one connection that serves the request: the first request
that arrives spawns it. -/
def serverParty (k : Sockets) : Party (Directory × Option Connection) where
  resume disk s wake :=
    match s.2, wake with
    | none, .datagram sender bytes =>
      (spawnConnection sender bytes).map fun c => ((s.1, some c), [])
    | none, _ => none
    | some c, wake =>
      (connectionResume disk s.1 c wake).map fun (dir, c, out) => ((dir, some c), out)
  listens s := match s.2 with
    | none => k.listener
    | some _ => k.connection
  endpoint := k.connection
  result s := s.2.bind Connection.result

def outgoing (sender : Endpoint) (out : Outgoing) : List Packet :=
  out.map fun (receiver, bytes) => ⟨sender, receiver, bytes⟩

/-- The two ends of a transfer and every datagram they have sent so far. -/
structure Exchange (α β : Type) where
  client : α
  server : β
  sent : List Packet

/-- A network that loses, duplicates, delays and reorders, but does not forge: what was sent to
an endpoint once may arrive there at any later time, any number of times, or never. -/
def Arrives (sent : List Packet) (receiver : Endpoint) (wake : Wake) : Prop :=
  ∀ sender bytes, wake = .datagram sender bytes → ⟨sender, receiver, bytes⟩ ∈ sent

section

variable {α β : Type}

/-- The two ends take their steps in any order, on file systems that answer as allowed. -/
inductive ExchangeStepOn (disks : Disk → Prop) (client : Party α) (server : Party β) :
    Exchange α β → Exchange α β → Prop
  | client {x disk wake c out} : disks disk → Arrives x.sent (client.listens x.client) wake →
      client.resume disk x.client wake = some (c, out) →
      ExchangeStepOn disks client server x
        { x with client := c, sent := x.sent ++ outgoing client.endpoint out }
  | server {x disk wake s out} : disks disk → Arrives x.sent (server.listens x.server) wake →
      server.resume disk x.server wake = some (s, out) →
      ExchangeStepOn disks client server x
        { x with server := s, sent := x.sent ++ outgoing server.endpoint out }

/-- On file systems that do not fail. -/
abbrev ExchangeStep (client : Party α) (server : Party β) : Exchange α β → Exchange α β → Prop :=
  ExchangeStepOn Disk.Works client server

theorem ExchangeStepOn.mono {disks disks' : Disk → Prop} {client : Party α} {server : Party β}
    {x y : Exchange α β} (hd : ∀ disk, disks disk → disks' disk)
    (h : ExchangeStepOn disks client server x y) : ExchangeStepOn disks' client server x y := by
  cases h with
  | client hdisk ha hr => exact .client (hd _ hdisk) ha hr
  | server hdisk ha hr => exact .server (hd _ hdisk) ha hr

end

/-- The run on one disk whose events are given, the client's on the left and the server's on the
right; `none` where an event is not possible. -/
def Exchange.replay {α β : Type} (disk : Disk) (client : Party α) (server : Party β) :
    List (Wake ⊕ Wake) → Exchange α β → Option (Exchange α β)
  | [], x => some x
  | .inl wake :: events, x =>
    if heard x.sent (client.listens x.client) wake then
      (client.resume disk x.client wake).bind fun (c, out) =>
        replay disk client server events
          { x with client := c, sent := x.sent ++ outgoing client.endpoint out }
    else none
  | .inr wake :: events, x =>
    if heard x.sent (server.listens x.server) wake then
      (server.resume disk x.server wake).bind fun (s, out) =>
        replay disk client server events
          { x with server := s, sent := x.sent ++ outgoing server.endpoint out }
    else none
where
  heard (sent : List Packet) (receiver : Endpoint) : Wake → Bool
    | .datagram sender bytes => decide (⟨sender, receiver, bytes⟩ ∈ sent)
    | _ => true

theorem disk_works : ({} : Disk).Works := ⟨rfl, rfl, rfl, fun _ => rfl⟩

theorem heard_arrives {sent : List Packet} {receiver : Endpoint} {wake : Wake}
    (h : Exchange.replay.heard sent receiver wake = true) : Arrives sent receiver wake := by
  rintro sender bytes rfl
  simpa [Exchange.replay.heard] using h

theorem replay_reaches {α β : Type} {disks : Disk → Prop} {disk : Disk} {client : Party α}
    {server : Party β} {events : List (Wake ⊕ Wake)} {x y : Exchange α β} (hd : disks disk)
    (h : x.replay disk client server events = some y) :
    ReflTransGen (ExchangeStepOn disks client server) x y := by
  induction events generalizing x with
  | nil =>
    cases Option.some.inj h
    exact .refl
  | cons event events ih =>
    cases event with
    | inl wake =>
      unfold Exchange.replay at h
      split at h
      next hh =>
        obtain ⟨⟨c, out⟩, hr, h⟩ := Option.bind_eq_some_iff.mp h
        exact .head (.client hd (heard_arrives hh) hr) (ih h)
      next => cases h
    | inr wake =>
      unfold Exchange.replay at h
      split at h
      next hh =>
        obtain ⟨⟨t, out⟩, hr, h⟩ := Option.bind_eq_some_iff.mp h
        exact .head (.server hd (heard_arrives hh) hr) (ih h)
      next => cases h

/-- A `write_client` about to send its request, with the file's bytes as its source. -/
def writeExchange (k : Sockets) (file filename : List UInt8) (dir : Directory) :
    Exchange WriteClient (Directory × Option Connection) :=
  ⟨⟨k.listener, filename, file, .requesting⟩, (dir, none), []⟩

/-- A `read_client` about to send its request. -/
def readExchange (k : Sockets) (target : List UInt8) (clientDir serverDir : Directory) :
    Exchange (Directory × ReadClient) (Directory × Option Connection) :=
  ⟨(clientDir, ⟨k.listener, target, .requesting⟩), (serverDir, none), []⟩

/-- The server spawns its connection for a request that has been sent, or the connection goes on. -/
theorem serverParty_step {k : Sockets} {disk : Disk} {s t : Directory × Option Connection}
    {wake : Wake} {out : Outgoing} {sent : List Packet}
    (ha : Arrives sent ((serverParty k).listens s) wake)
    (hs : (serverParty k).resume disk s wake = some (t, out)) :
    (∃ sender bytes c, s.2 = none ∧ ⟨sender, k.listener, bytes⟩ ∈ sent ∧
      spawnConnection sender bytes = some c ∧ t = (s.1, some c) ∧ out = []) ∨
    ∃ c dir c', s.2 = some c ∧ Arrives sent k.connection wake ∧
      connectionResume disk s.1 c wake = some (dir, c', out) ∧ t = (dir, some c') := by
  unfold serverParty at ha hs
  cases hc : s.2 with
  | none =>
    simp only [hc] at ha hs
    split at hs
    next sender bytes _ =>
      obtain ⟨c, hspawn, he⟩ := Option.map_eq_some_iff.mp hs
      cases he
      exact Or.inl ⟨sender, bytes, c, rfl, ha _ _ rfl, hspawn, rfl, rfl⟩
    next => cases hs
    next heq => cases heq
  | some c =>
    simp only [hc] at ha hs
    obtain ⟨⟨dir, c', out'⟩, hresume, he⟩ := Option.map_eq_some_iff.mp hs
    cases he
    exact Or.inr ⟨c, dir, c', rfl, ha, hresume, rfl⟩

@[simp] theorem mem_outgoing {sender : Endpoint} {out : Outgoing} {p : Packet} :
    p ∈ outgoing sender out ↔ p.sender = sender ∧ (p.receiver, p.bytes) ∈ out := by
  cases p
  simp only [outgoing, List.mem_map, Prod.exists, Packet.mk.injEq]
  constructor
  · rintro ⟨r, b, h, rfl, rfl, rfl⟩
    exact ⟨rfl, h⟩
  · rintro ⟨rfl, h⟩
    exact ⟨_, _, h, rfl, rfl, rfl⟩

end Protocols
