import Mathlib.Logic.Function.Basic

namespace Protocols

/-- `asio::error_code` as the programs use it; `system` is whatever a socket call reports. -/
inductive ErrorCode
  | timedOut
  | fault
  | connectionRefused
  | connectionAborted
  | system (value : Nat)
  deriving DecidableEq, Repr

/-- What the file system answers while one resumption of a coroutine runs. -/
structure Disk where
  /-- whether a file can be opened for writing -/
  opens : Bool := true
  /-- whether the bytes a `write` has to pass on can be stored -/
  stores : Bool := true
  /-- how many of the bytes held back so far a `write` passes on to the file -/
  flushed : Nat := 0
  /-- whether the flush of a stream's destructor can store what is left -/
  closes : Bool := true
  /-- the positions at which a read that starts there fails -/
  readFault : Nat → Bool := fun _ => false

/-- Every file operation succeeds. -/
structure Disk.Works (d : Disk) : Prop where
  opens : d.opens = true
  stores : d.stores = true
  closes : d.closes = true
  reads : ∀ position, d.readFault position = false

/-- A file as `std::ifstream` meets it. -/
structure InputFile where
  bytes : List UInt8
  readFault : Nat → Bool

structure IfStream where
  position : Nat := 0
  eof : Bool := false
  fail : Bool := false
  bad : Bool := false
  deriving DecidableEq, Repr

def IfStream.good (s : IfStream) : Bool := !s.eof && !s.fail && !s.bad

/-- `read`, with the bytes that `gcount` counts. A read that fails counts none, whatever it has been
given before; a stream that is not good only fails. -/
def IfStream.read (file : InputFile) (s : IfStream) (n : Nat) : List UInt8 × IfStream :=
  if s.good then
    if file.readFault s.position then ([], { s with bad := true })
    else
      let delivered := (file.bytes.drop s.position).take n
      let short := decide (delivered.length < n)
      (delivered, { s with position := s.position + delivered.length, eof := short, fail := short })
  else ([], { s with fail := true })

/-- An output stream between its buffer and its file. -/
structure OfStream where
  isOpen : Bool := true
  stored : List UInt8 := []
  buffered : List UInt8 := []
  good : Bool := true
  deriving DecidableEq, Repr

/-- Everything written to the stream, whether it has reached the file or not. -/
def OfStream.contents (s : OfStream) : List UInt8 := s.stored ++ s.buffered

def OfStream.write (disk : Disk) (s : OfStream) (data : List UInt8) : OfStream :=
  if s.good then
    let pending := s.buffered ++ data
    { s with
      stored := s.stored ++ pending.take disk.flushed
      buffered := pending.drop disk.flushed
      good := disk.stores }
  else s

/-- The destructor flushes what is buffered; nobody learns of a failure. -/
def OfStream.close (disk : Disk) (s : OfStream) : OfStream :=
  if disk.closes then { s with stored := s.contents, buffered := [] } else s

inductive Entry
  | file (bytes : List UInt8)
  | folder
  deriving DecidableEq, Repr

/-- The working directory: what each name other than `.` and `..` stands for. -/
abbrev Directory := List UInt8 → Option Entry

def Directory.status (dir : Directory) (name : List UInt8) : Option Entry :=
  if name = [] then none else if name = [46] ∨ name = [46, 46] then some .folder else dir name

/-- Opening for writing creates or truncates the file, except where the name cannot be a file. -/
def Directory.openOut (disk : Disk) (dir : Directory) (name : List UInt8) : Directory × OfStream :=
  if disk.opens ∧ name ≠ [] ∧ dir.status name ≠ some .folder then
    (Function.update dir name (some (.file [])), {})
  else (dir, { isOpen := false, good := false })

/-- What a stream opened for reading on the name reads: a folder gives only errors. -/
def Directory.input (disk : Disk) (dir : Directory) (name : List UInt8) : InputFile :=
  match dir.status name with
  | some (.file bytes) => ⟨bytes, disk.readFault⟩
  | _ => ⟨[], fun _ => true⟩

/-- The file of an open stream shows what the stream has stored. -/
def Directory.store (dir : Directory) (name : List UInt8) (s : OfStream) : Directory :=
  if s.isOpen then Function.update dir name (some (.file s.stored)) else dir

/-- `std::filesystem::remove`. -/
def Directory.remove (dir : Directory) (name : List UInt8) : Directory :=
  Function.update dir name none

theorem write_contents {disk : Disk} {s : OfStream} (hs : s.good = true) (data : List UInt8) :
    (s.write disk data).contents = s.contents ++ data := by
  simp [OfStream.write, OfStream.contents, hs, List.append_assoc]

theorem write_good {disk : Disk} {s : OfStream} (hd : disk.Works) (hs : s.good = true)
    (data : List UInt8) : (s.write disk data).good = true := by
  simp [OfStream.write, hs, hd.stores]

@[simp] theorem close_contents (disk : Disk) (s : OfStream) :
    (s.close disk).contents = s.contents := by
  unfold OfStream.close
  split <;> simp [OfStream.contents]

theorem write_stored_grows (disk : Disk) (s : OfStream) (data : List UInt8) :
    s.stored <+: (s.write disk data).stored := by
  unfold OfStream.write
  split
  next => exact List.prefix_append _ _
  next => exact List.prefix_refl _

theorem write_contents_grows (disk : Disk) (s : OfStream) (data : List UInt8) :
    s.contents <+: (s.write disk data).contents := by
  by_cases hs : s.good = true
  · rw [write_contents hs]
    exact List.prefix_append _ _
  · simp [OfStream.write, hs]

theorem close_stored_grows (disk : Disk) (s : OfStream) : s.stored <+: (s.close disk).stored := by
  unfold OfStream.close
  split
  next => exact List.prefix_append _ _
  next => exact List.prefix_refl _

theorem read_good {file : InputFile} {s : IfStream} {n : Nat} (hs : s.good = true)
    (hf : file.readFault s.position = false) :
    s.read file n = ((file.bytes.drop s.position).take n,
      ⟨s.position + ((file.bytes.drop s.position).take n).length,
        decide (((file.bytes.drop s.position).take n).length < n),
        decide (((file.bytes.drop s.position).take n).length < n), s.bad⟩) := by
  simp [IfStream.read, hs, hf]

theorem read_fault {file : InputFile} {s : IfStream} {n : Nat} (hs : s.good = true)
    (hf : file.readFault s.position = true) : s.read file n = ([], { s with bad := true }) := by
  simp [IfStream.read, hs, hf]

theorem read_not_good {file : InputFile} {s : IfStream} {n : Nat} (hs : s.good = false) :
    s.read file n = ([], { s with fail := true }) := by
  simp [IfStream.read, hs]

end Protocols
