import Mathlib.Data.List.Basic

namespace Protocols

/-- `packet::opcode`, in the order of the enumerators' values 0 to 5. -/
inductive Opcode
  | unknown
  | rrq
  | wrq
  | data
  | ack
  | error
  deriving DecidableEq, Repr

def Opcode.value : Opcode → UInt16
  | unknown => 0
  | rrq => 1
  | wrq => 2
  | data => 3
  | ack => 4
  | error => 5

/-- The bytes of a literal of the source. -/
def literal (s : String) : List UInt8 := s.toList.map fun c => UInt8.ofNat c.toNat

structure RrqPacket where
  op : Opcode := .rrq
  filename : List UInt8 := []
  mode : List UInt8 := literal "octet"
  deriving DecidableEq, Repr

structure WrqPacket where
  op : Opcode := .wrq
  filename : List UInt8 := []
  mode : List UInt8 := literal "octet"
  deriving DecidableEq, Repr

structure DataPacket where
  op : Opcode := .data
  block : UInt16 := 1
  data : List UInt8 := []
  deriving DecidableEq, Repr

structure AckPacket where
  op : Opcode := .ack
  block : UInt16 := 1
  deriving DecidableEq, Repr

structure ErrorPacket where
  op : Opcode := .error
  errorCode : UInt16 := 0
  errorMsg : List UInt8 := []
  deriving DecidableEq, Repr

/-- `std::bit_cast` of a 16-bit value to its two bytes on a little-endian host. -/
def toLittleEndian (n : UInt16) : List UInt8 :=
  [UInt8.ofNat (n.toNat % 256), UInt8.ofNat (n.toNat / 256)]

def ofLittleEndian (low high : UInt8) : UInt16 := UInt16.ofNat (low.toNat + 256 * high.toNat)

/-- The three overloads of `copy`, as what each appends to the buffer. -/
def copyRange (range : List UInt8) : List UInt8 := range

def copyIntegral (integral : UInt16) : List UInt8 := (toLittleEndian integral).reverse

def copyString (string : List UInt8) : List UInt8 := string ++ [0]

def RrqPacket.toBuffer (p : RrqPacket) : List UInt8 :=
  copyIntegral p.op.value ++ copyString p.filename ++ copyString p.mode

def WrqPacket.toBuffer (p : WrqPacket) : List UInt8 :=
  copyIntegral p.op.value ++ copyString p.filename ++ copyString p.mode

def DataPacket.toBuffer (p : DataPacket) : List UInt8 :=
  copyIntegral p.op.value ++ copyIntegral p.block ++ copyRange p.data

def AckPacket.toBuffer (p : AckPacket) : List UInt8 :=
  copyIntegral p.op.value ++ copyIntegral p.block

def ErrorPacket.toBuffer (p : ErrorPacket) : List UInt8 :=
  copyIntegral p.op.value ++ copyIntegral p.errorCode ++ copyString p.errorMsg

/-- `static_cast<packet::opcode>` of a value the caller has checked to be at most 5. -/
def Opcode.ofValue (v : UInt16) : Opcode :=
  if v = 1 then .rrq else if v = 2 then .wrq else if v = 3 then .data
  else if v = 4 then .ack else if v = 5 then .error else .unknown

def getOpcode (buffer : List UInt8) : Opcode :=
  match buffer with
  | b0 :: b1 :: _ =>
    let opcode := ofLittleEndian b1 b0
    if opcode > Opcode.error.value then .unknown else Opcode.ofValue opcode
  | _ => .unknown

def getBlockNumber (buffer : List UInt8) : UInt16 :=
  match buffer with
  | _ :: _ :: b2 :: b3 :: _ => ofLittleEndian b3 b2
  | _ => 0

def getFilename (buffer : List UInt8) : List UInt8 :=
  if buffer.length < 3 then [] else (buffer.drop 2).takeWhile fun chr => chr != 0

def getData (buffer : List UInt8) : List UInt8 :=
  if buffer.length ≤ 4 then [] else buffer.drop 4

/-- The client's decoder of an error packet: opcode, error code and message. -/
def getError (buffer : List UInt8) : Opcode × UInt16 × List UInt8 :=
  if buffer.length ≤ 5 then (.unknown, 0, [])
  else if getOpcode buffer ≠ .error then (getOpcode buffer, 0, [])
  else (.error, getBlockNumber buffer, (buffer.drop 4).dropLast)

/-- Big-endian order on the wire undoes the host's order. -/
theorem ofLittleEndian_copyIntegral (n : UInt16) :
    ∃ high low, copyIntegral n = [high, low] ∧ ofLittleEndian low high = n := by
  refine ⟨UInt8.ofNat (n.toNat / 256), UInt8.ofNat (n.toNat % 256), rfl, ?_⟩
  have hn := n.toNat_lt
  apply UInt16.toNat_inj.mp
  simp only [ofLittleEndian, UInt16.toNat_ofNat', UInt8.toNat_ofNat']
  omega

theorem copyIntegral_length (n : UInt16) : (copyIntegral n).length = 2 := rfl

theorem getOpcode_copyIntegral (op : Opcode) (rest : List UInt8) :
    getOpcode (copyIntegral op.value ++ rest) = op := by
  cases op <;> rfl

theorem getBlockNumber_copyIntegral (op n : UInt16) (rest : List UInt8) :
    getBlockNumber (copyIntegral op ++ copyIntegral n ++ rest) = n := by
  obtain ⟨b0, b1, hop, _⟩ := ofLittleEndian_copyIntegral op
  obtain ⟨b2, b3, hn, hb⟩ := ofLittleEndian_copyIntegral n
  rw [hop, hn]
  exact hb

theorem getData_copyIntegral (op n : UInt16) (data : List UInt8) :
    getData (copyIntegral op ++ copyIntegral n ++ data) = data := by
  have hl : (copyIntegral op ++ copyIntegral n).length = 4 := rfl
  unfold getData
  split
  next h =>
    rw [List.length_append, hl] at h
    exact (List.length_eq_zero_iff.mp (by omega)).symm
  next => exact List.drop_left' hl

@[simp] theorem getOpcode_data (p : DataPacket) : getOpcode p.toBuffer = p.op := by
  rw [DataPacket.toBuffer, List.append_assoc, getOpcode_copyIntegral]

@[simp] theorem getBlockNumber_data (p : DataPacket) : getBlockNumber p.toBuffer = p.block :=
  getBlockNumber_copyIntegral _ _ _

@[simp] theorem getData_data (p : DataPacket) : getData p.toBuffer = p.data :=
  getData_copyIntegral _ _ _

theorem data_toBuffer_length (p : DataPacket) : p.toBuffer.length = p.data.length + 4 := by
  simp [DataPacket.toBuffer, copyIntegral_length, copyRange]
  omega

@[simp] theorem getOpcode_ack (p : AckPacket) : getOpcode p.toBuffer = p.op :=
  getOpcode_copyIntegral _ _

@[simp] theorem getBlockNumber_ack (p : AckPacket) : getBlockNumber p.toBuffer = p.block := by
  simpa [AckPacket.toBuffer] using getBlockNumber_copyIntegral p.op.value p.block []

theorem ack_toBuffer_length (p : AckPacket) : p.toBuffer.length = 4 := rfl

@[simp] theorem getOpcode_error (p : ErrorPacket) : getOpcode p.toBuffer = p.op := by
  rw [ErrorPacket.toBuffer, List.append_assoc, getOpcode_copyIntegral]

@[simp] theorem getOpcode_wrq (p : WrqPacket) : getOpcode p.toBuffer = p.op := by
  rw [WrqPacket.toBuffer, List.append_assoc, getOpcode_copyIntegral]

@[simp] theorem getOpcode_rrq (p : RrqPacket) : getOpcode p.toBuffer = p.op := by
  rw [RrqPacket.toBuffer, List.append_assoc, getOpcode_copyIntegral]

/-- An acknowledgement is too short for `get_error`, and data is of another kind. -/
theorem getError_ack (p : AckPacket) : (getError p.toBuffer).1 ≠ .error := by
  simp [getError, ack_toBuffer_length]

theorem getError_data (p : DataPacket) (h : p.op = .data) :
    (getError p.toBuffer).1 ≠ .error := by
  unfold getError
  split <;> simp [h]

end Protocols
