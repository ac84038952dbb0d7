import Protocols.TftpDuplicates
import Protocols.TftpRead
import Protocols.TftpRelay

namespace Protocols

open Relation

/-- A client program; the directory is the one `read_client` writes to. -/
inductive ClientProgram
  | write (c : WriteClient)
  | read (dir : Directory) (c : ReadClient)

def clientResume (disk : Disk) (c : ClientProgram) (wake : Wake) :
    Option (ClientProgram × Outgoing) :=
  match c with
  | .write c => (writeClientResume disk c wake).map fun (c, out) => (.write c, out)
  | .read dir c => (readClientResume disk dir c wake).map fun (dir, c, out) => (.read dir c, out)

/-- The program is about to send its request; `main` has seen that a target is not there yet. -/
def ClientProgram.Begins (listener : Endpoint) : ClientProgram → Prop
  | .write c => c.control = .requesting ∧ c.server = listener
  | .read dir c => c.control = .requesting ∧ c.server = listener ∧ dir.status c.target = none

/-- Any number of client programs, each with a file or a directory of its own. -/
def tftpClients (listener : Endpoint) : Machine Unit ClientProgram (Disk × Wake)
    (Endpoint × List UInt8) where
  starts c := c.Begins listener
  resume _ c i := (clientResume i.1 c i.2).map fun (c, out) => ((), c, out)

theorem clients_resumed {listener : Endpoint} {k : Nat} {disk : Disk} {wake : Wake}
    {x y : Config Unit ClientProgram (Endpoint × List UInt8)}
    (h : x.resumed (tftpClients listener) k (disk, wake) = some y) :
    ∃ c c' out, x.threads k = some c ∧ clientResume disk c wake = some (c', out) ∧
      y = ⟨(), Function.update x.threads k (some c'), x.log ++ out.map fun e => (k, e)⟩ := by
  obtain ⟨c, hc, h⟩ := Option.bind_eq_some_iff.mp h
  obtain ⟨⟨u, c', out⟩, hr, rfl⟩ := Option.map_eq_some_iff.mp h
  obtain ⟨⟨d, o⟩, hr, he⟩ := Option.map_eq_some_iff.mp hr
  cases he
  exact ⟨c, c', out, hc, hr, rfl⟩

/-- The server's listening socket, the sockets of the clients and the ports of its connections. -/
structure Addresses where
  listener : Endpoint
  client : Nat → Endpoint
  port : Nat → UInt16
  client_injective : Function.Injective client
  client_ne_listener : ∀ k, client k ≠ listener
  client_ne_connection : ∀ k n, client k ≠ ⟨listener.address, port n⟩
  connection_ne_listener : ∀ n, (⟨listener.address, port n⟩ : Endpoint) ≠ listener

def Addresses.connection (a : Addresses) (n : Nat) : Endpoint := ⟨a.listener.address, a.port n⟩

/-- The server with all its connections, and the clients that use it. -/
structure Service where
  clients : Config Unit ClientProgram (Endpoint × List UInt8)
  server : ServerConfig

def Service.init (before : Directory) : Service := ⟨Config.init (), Config.init before⟩

def Service.start (x : Service) (k : Nat) (c : ClientProgram) : Service :=
  { x with clients := { x.clients with threads := Function.update x.clients.threads k (some c) } }

def Service.accept (x : Service) (n : Nat) (l : Connection) : Service :=
  { x with server := { x.server with threads := Function.update x.server.threads n (some l) } }

/-- One of the programs has sent the datagram: it may arrive at any later time, any number of
times, or never. -/
def Service.Sent (a : Addresses) (x : Service) (sender receiver : Endpoint) (bytes : List UInt8) :
    Prop :=
  (∃ k, a.client k = sender ∧ (receiver, bytes) ∈ x.clients.logOf k) ∨
    ∃ n, a.connection n = sender ∧ (receiver, bytes) ∈ x.server.logOf n

/-- The clients and the server's connections take their steps in any order, on file systems that
do what is allowed, and over a network that loses, duplicates, delays and reorders. No two
connections get the same port. -/
inductive ServiceStep (allowed : Disk → Prop) (a : Addresses) : Service → Service → Prop
  | start {x k c} : x.clients.threads k = none → c.Begins a.listener →
      ServiceStep allowed a x (x.start k c)
  | client {x k disk wake clients} : allowed disk →
      (∀ sender bytes, wake = .datagram sender bytes → x.Sent a sender (a.client k) bytes) →
      x.clients.resumed (tftpClients a.listener) k (disk, wake) = some clients →
      ServiceStep allowed a x { x with clients }
  | accept {x n sender request l} : x.server.threads n = none →
      (∀ m, x.server.threads m ≠ none → a.port m ≠ a.port n) →
      x.Sent a sender a.listener request → spawnConnection sender request = some l →
      ServiceStep allowed a x (x.accept n l)
  | connection {x n disk wake server} : allowed disk →
      (∀ sender bytes, wake = .datagram sender bytes → x.Sent a sender (a.connection n) bytes) →
      x.server.resumed tftpServer n (disk, wake) = some server →
      ServiceStep allowed a x { x with server }

/-- Seen from the server, a step is one of the server's own, or none. -/
theorem service_step_server {allowed : Disk → Prop} {a : Addresses} {x y : Service}
    (h : ServiceStep allowed a x y) : y.server = x.server ∨ ServerStep x.server y.server := by
  cases h with
  | start => exact Or.inl rfl
  | client => exact Or.inl rfl
  | accept hn _ _ hl => exact Or.inr (.spawn hn ⟨_, _, hl⟩ (tftpServer_free _ _))
  | connection _ _ hr => exact Or.inr (resumed_step hr (tftpServer_free _ _))

/-- Whether the program writes to the server, who runs it, and the name it asks for. -/
def ClientProgram.role (e : Endpoint) : ClientProgram → Bool × Endpoint × List UInt8
  | .write c => (true, e, uploadPath c.filename)
  | .read _ c => (false, e, requestedPath c.target)

@[simp] theorem role_endpoint (e : Endpoint) (c : ClientProgram) : (c.role e).2.1 = e := by
  cases c <;> rfl

def Connection.role : Connection → Bool × Endpoint × List UInt8
  | .read c => (false, c.clientEndpoint, c.path)
  | .write c => (true, c.clientEndpoint, c.path)

def ClientProgram.request : ClientProgram → List UInt8
  | .write c => WrqPacket.toBuffer { filename := c.filename }
  | .read _ c => RrqPacket.toBuffer { filename := c.target }

/-- A request asks for the role its sender has in mind. -/
theorem spawn_role {sender : Endpoint} {c : ClientProgram} {l : Connection}
    (h : spawnConnection sender c.request = some l) : l.role = c.role sender := by
  cases c with
  | write c =>
    simp only [ClientProgram.request, spawnConnection, getOpcode_wrq, Option.some.injEq] at h
    subst h
    rfl
  | read dir c =>
    simp only [ClientProgram.request, spawnConnection, getOpcode_rrq, Option.some.injEq] at h
    subst h
    rfl

theorem spawn_error {sender : Endpoint} {bytes : List UInt8} (h : getOpcode bytes = .error) :
    spawnConnection sender bytes = none := by
  simp [spawnConnection, h]

theorem connection_resume_role {disk : Disk} {dir dir' : Directory} {l l' : Connection}
    {wake : Wake} {out : Outgoing} (hs : connectionResume disk dir l wake = some (dir', l', out)) :
    l'.role = l.role := by
  cases l with
  | read r =>
    obtain ⟨⟨r', o⟩, hr, hs⟩ := Option.map_eq_some_iff.mp hs
    cases hs
    cases readConnectionResume_step hr <;> rfl
  | write w =>
    obtain ⟨⟨d, w', o⟩, hw, hs⟩ := Option.map_eq_some_iff.mp hs
    cases hs
    cases writeConnectionResume_step hw <;> rfl

def Service.roles (x : Service) : Nat → Option (Bool × Endpoint × List UInt8) :=
  fun n => (x.server.threads n).map Connection.role

/-- No connection changes its role. -/
theorem service_step_roles {allowed : Disk → Prop} {a : Addresses} {x y : Service}
    (h : ServiceStep allowed a x y) {n : Nat} {role : Bool × Endpoint × List UInt8}
    (hr : x.roles n = some role) : y.roles n = some role := by
  obtain ⟨l, hl, rfl⟩ := Option.map_eq_some_iff.mp hr
  rcases service_step_server h with he | hs
  · exact Option.map_eq_some_iff.mpr ⟨l, by rw [he]; exact hl, rfl⟩
  · rcases machineStep_running_cases hs hl with ⟨i, l', out, hr', hl', _⟩ | ⟨hl', _⟩
    · exact Option.map_eq_some_iff.mpr ⟨l', hl', connection_resume_role hr'⟩
    · exact Option.map_eq_some_iff.mpr ⟨l, hl', rfl⟩

/-- One of the programs runs on: on its own, or as a datagram of another one arrives. -/
inductive ServiceEvent
  | client (k : Nat) (wake : Wake)
  | clientHears (k n : Nat) (bytes : List UInt8)
  | connection (n : Nat) (wake : Wake)
  | connectionHears (n k : Nat) (bytes : List UInt8)

/-- A wake-up that brings no datagram. -/
def Wake.silent : Wake → Bool
  | .datagram _ _ => false
  | _ => true

def Service.next (a : Addresses) (x : Service) : ServiceEvent → Option Service
  | .client k wake =>
    if wake.silent then
      (x.clients.resumed (tftpClients a.listener) k ({}, wake)).map
        fun clients => { x with clients }
    else none
  | .clientHears k n bytes =>
    if (x.server.logOf n).contains (a.client k, bytes) then
      (x.clients.resumed (tftpClients a.listener) k ({}, .datagram (a.connection n) bytes)).map
        fun clients => { x with clients }
    else none
  | .connection n wake =>
    if wake.silent then
      (x.server.resumed tftpServer n ({}, wake)).map fun server => { x with server }
    else none
  | .connectionHears n k bytes =>
    if (x.clients.logOf k).contains (a.connection n, bytes) then
      (x.server.resumed tftpServer n ({}, .datagram (a.client k) bytes)).map
        fun server => { x with server }
    else none

theorem service_next_step {allowed : Disk → Prop} {a : Addresses} {x y : Service}
    {e : ServiceEvent} (hd : allowed {}) (h : x.next a e = some y) : ServiceStep allowed a x y := by
  cases e with
  | client k wake =>
    obtain ⟨hw, h⟩ := Option.ite_none_right_eq_some.mp h
    obtain ⟨clients, hr, rfl⟩ := Option.map_eq_some_iff.mp h
    exact .client hd (by rintro _ _ rfl; cases hw) hr
  | clientHears k n bytes =>
    obtain ⟨hsent, h⟩ := Option.ite_none_right_eq_some.mp h
    obtain ⟨clients, hr, rfl⟩ := Option.map_eq_some_iff.mp h
    exact .client hd (by rintro _ _ ⟨⟩; exact Or.inr ⟨n, rfl, List.contains_iff_mem.mp hsent⟩) hr
  | connection n wake =>
    obtain ⟨hw, h⟩ := Option.ite_none_right_eq_some.mp h
    obtain ⟨server, hr, rfl⟩ := Option.map_eq_some_iff.mp h
    exact .connection hd (by rintro _ _ rfl; cases hw) hr
  | connectionHears n k bytes =>
    obtain ⟨hsent, h⟩ := Option.ite_none_right_eq_some.mp h
    obtain ⟨server, hr, rfl⟩ := Option.map_eq_some_iff.mp h
    exact .connection hd (by rintro _ _ ⟨⟩; exact Or.inl ⟨k, rfl, List.contains_iff_mem.mp hsent⟩) hr

theorem service_events_reach {allowed : Disk → Prop} {a : Addresses} {events : List ServiceEvent}
    {x y : Service} (hd : allowed {}) (h : events.foldlM (Service.next a) x = some y) :
    ReflTransGen (ServiceStep allowed a) x y := by
  induction events generalizing x with
  | nil =>
    cases Option.some.inj h
    exact .refl
  | cons e events ih =>
    obtain ⟨z, hz, h⟩ := Option.bind_eq_some_iff.mp h
    exact .head (service_next_step hd hz) (ih h)

end Protocols
