import Protocols.TftpDuplicates
import Mathlib.Tactic.SplitIfs

namespace Protocols

theorem copyIntegral_ofLittleEndian (low high : UInt8) :
    copyIntegral (ofLittleEndian low high) = [high, low] := by
  have hl := low.toNat_lt
  have hh := high.toNat_lt
  have hn : (ofLittleEndian low high).toNat = low.toNat + 256 * high.toNat := by
    rw [ofLittleEndian, UInt16.toNat_ofNat']
    omega
  have hmod : (low.toNat + 256 * high.toNat) % 256 = low.toNat := by omega
  have hdiv : (low.toNat + 256 * high.toNat) / 256 = high.toNat := by omega
  simp [copyIntegral, toLittleEndian, hn, hmod, hdiv]

theorem opcode_ofValue_eq {v : UInt16} {op : Opcode} (h : Opcode.ofValue v = op)
    (hop : op ≠ .unknown) : v = op.value := by
  unfold Opcode.ofValue at h
  split_ifs at h <;> subst h
  all_goals first | assumption | exact absurd rfl hop

/-- A known opcode is read off the two bytes that encode it. -/
theorem getOpcode_prefix {buffer : List UInt8} {op : Opcode} (h : getOpcode buffer = op)
    (hop : op ≠ .unknown) : ∃ rest, buffer = copyIntegral op.value ++ rest := by
  match buffer with
  | [] => exact absurd h.symm hop
  | [_] => exact absurd h.symm hop
  | b0 :: b1 :: rest =>
    simp only [getOpcode] at h
    split at h
    next => exact absurd h.symm hop
    next =>
      rw [← opcode_ofValue_eq h hop, copyIntegral_ofLittleEndian]
      exact ⟨rest, rfl⟩

theorem getFilename_copyString {filename : List UInt8} (h : 0 ∉ filename) (op : UInt16)
    (rest : List UInt8) : getFilename (copyIntegral op ++ copyString filename ++ rest) = filename := by
  have hlong : ¬ (copyIntegral op ++ copyString filename ++ rest).length < 3 := by
    simp only [List.length_append, copyIntegral_length, copyString, List.length_singleton]
    omega
  have hdrop : (copyIntegral op ++ copyString filename ++ rest).drop 2 = filename ++ 0 :: rest := by
    rw [List.append_assoc, List.drop_left' (copyIntegral_length op), copyString, List.append_assoc]
    rfl
  rw [getFilename, if_neg hlong, hdrop, List.takeWhile_append_of_pos]
  · simp
  · intro chr hchr
    simpa using fun he : chr = 0 => h (he ▸ hchr)

/-- A datagram with the opcode of data is the encoding of what is read off it. -/
theorem data_toBuffer_decoded {buffer : List UInt8} (hl : 4 ≤ buffer.length)
    (h : getOpcode buffer = .data) :
    DataPacket.toBuffer { block := getBlockNumber buffer, data := getData buffer } = buffer := by
  obtain ⟨rest, rfl⟩ := getOpcode_prefix h (by simp)
  match rest with
  | [] => simp [copyIntegral_length] at hl
  | [_] => simp [copyIntegral_length] at hl
  | b2 :: b3 :: data =>
    have hbytes : copyIntegral Opcode.data.value ++ b2 :: b3 :: data =
        copyIntegral Opcode.data.value ++ copyIntegral (ofLittleEndian b3 b2) ++ data := by
      rw [copyIntegral_ofLittleEndian]
      rfl
    rw [hbytes, getBlockNumber_copyIntegral, getData_copyIntegral]
    rfl

theorem data_toBuffer_injective {p q : DataPacket} (h : p.toBuffer = q.toBuffer) : p = q := by
  have hop := congrArg getOpcode h
  have hblock := congrArg getBlockNumber h
  have hdata := congrArg getData h
  simp only [getOpcode_data, getBlockNumber_data, getData_data] at hop hblock hdata
  cases p
  cases q
  simp_all

/-- What one side encodes the other one decodes, and a data packet has one encoding only. -/
theorem wire_round_trip :
    (∀ block data, getOpcode (DataPacket.toBuffer { block, data }) = .data ∧
      getBlockNumber (DataPacket.toBuffer { block, data }) = block ∧
      getData (DataPacket.toBuffer { block, data }) = data) ∧
    (∀ block, getOpcode (AckPacket.toBuffer { block }) = .ack ∧
      getBlockNumber (AckPacket.toBuffer { block }) = block) ∧
    (∀ filename mode, 0 ∉ filename →
      (getOpcode (RrqPacket.toBuffer { filename, mode }) = .rrq ∧
        getFilename (RrqPacket.toBuffer { filename, mode }) = filename) ∧
      getOpcode (WrqPacket.toBuffer { filename, mode }) = .wrq ∧
        getFilename (WrqPacket.toBuffer { filename, mode }) = filename) ∧
    (∀ buffer, 4 ≤ buffer.length → getOpcode buffer = .data →
      DataPacket.toBuffer { block := getBlockNumber buffer, data := getData buffer } = buffer) ∧
    ∀ p q : DataPacket, p.toBuffer = q.toBuffer → p = q := by
  refine ⟨fun block data => ?_, fun block => ?_, fun filename mode h => ?_,
    fun buffer hl h => data_toBuffer_decoded hl h, fun p q h => data_toBuffer_injective h⟩
  · rw [getOpcode_data, getBlockNumber_data, getData_data]
    exact ⟨rfl, rfl, rfl⟩
  · rw [getOpcode_ack, getBlockNumber_ack]
    exact ⟨rfl, rfl⟩
  · rw [getOpcode_rrq, getOpcode_wrq]
    exact ⟨⟨rfl, getFilename_copyString h _ _⟩, rfl, getFilename_copyString h _ _⟩

theorem wire_round_trip_request :
    getFilename (RrqPacket.toBuffer { filename := literal "f", mode := literal "octet" }) =
        literal "f" ∧
      DataPacket.toBuffer { block := getBlockNumber [0, 3, 0, 7], data := getData [0, 3, 0, 7] } =
        [0, 3, 0, 7] :=
  ⟨(wire_round_trip.2.2.1 (literal "f") (literal "octet") (by decide)).1.2,
    wire_round_trip.2.2.2.1 [0, 3, 0, 7] (by decide) (by decide)⟩

theorem error_toBuffer_length (p : ErrorPacket) :
    p.toBuffer.length = p.errorMsg.length + 5 := by
  simp only [ErrorPacket.toBuffer, copyString, List.length_append, copyIntegral_length,
    List.length_singleton]
  omega

theorem getError_error {p : ErrorPacket} (hop : p.op = .error) (h : p.errorMsg ≠ []) :
    getError p.toBuffer = (.error, p.errorCode, p.errorMsg) := by
  have hpos := List.length_pos_iff.mpr h
  have hlong : ¬ p.toBuffer.length ≤ 5 := by
    rw [error_toBuffer_length]
    omega
  have hblock : getBlockNumber p.toBuffer = p.errorCode := getBlockNumber_copyIntegral _ _ _
  have hdrop : p.toBuffer.drop 4 = p.errorMsg ++ [0] := List.drop_left' rfl
  rw [getError, if_neg hlong, getOpcode_error, hop, if_neg (by simp), hblock, hdrop,
    List.dropLast_concat]

/-- An error comes through exactly if it says something: the shortest one is too short for the
decoder. -/
theorem error_survives_iff (errorCode : UInt16) (errorMsg : List UInt8) :
    (getError (ErrorPacket.toBuffer { errorCode, errorMsg }) = (.error, errorCode, errorMsg) ∧
      ∀ sender expected block, handleServerResponse expected block
        (.datagram sender (ErrorPacket.toBuffer { errorCode, errorMsg })) =
          some (.error .connectionRefused)) ↔ errorMsg ≠ [] := by
  constructor
  · rintro ⟨hget, _⟩ rfl
    simp [getError, error_toBuffer_length] at hget
  · intro h
    refine ⟨getError_error rfl h, fun sender expected block => ?_⟩
    have hrefuses := @error_refuses { errorCode, errorMsg } rfl h
    rw [handleServerResponse]
    exact if_pos hrefuses

/-- An error without a text is taken for an unexpected response. -/
theorem empty_error_lost :
    getError (ErrorPacket.toBuffer { errorCode := 1, errorMsg := [] }) = (.unknown, 0, []) ∧
    handleServerResponse .ack 0 (.datagram ⟨2, 69⟩
      (ErrorPacket.toBuffer { errorCode := 1, errorMsg := [] })) =
        some (.error .connectionAborted) := by
  decide

end Protocols
