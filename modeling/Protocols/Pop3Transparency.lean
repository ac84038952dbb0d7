import Protocols.Pop3Responses

namespace Protocols

namespace Pop3Client

def StartsWithDot (line : Text) : Prop := ['.'] <+: line

instance (line : Text) : Decidable (StartsWithDot line) :=
  inferInstanceAs (Decidable (['.'] <+: line))

/-- A leading dot is doubled. -/
def stuffed (line : Text) : Text := if StartsWithDot line then '.' :: line else line

/-- Lines, each followed by a newline. -/
def newlined (lines : List Text) : Text := lines.flatMap fun line => line ++ ['\n']

/-- A mail as POP3 transmits it. -/
def transmission (text : Text) (headers body : List Text) : List Text :=
  (positive ++ text) :: (headers ++ [] :: body.map stuffed ++ [endList])

structure Transmittable (text : Text) (headers body : List Text) : Prop where
  status : CrlfFree (positive ++ text)
  headers : ∀ line ∈ headers, CrlfFree line ∧ line ≠ [] ∧ line ≠ endList
  body : ∀ line ∈ body, CrlfFree line

/-- However the transmission is cut, and whatever follows it, the mail has the body. -/
def Transparent (text : Text) (headers body : List Text) : Prop :=
  ∀ chunks : List Text, unlines (transmission text headers body) <+: chunks.flatten →
    ∃ message unread, readMultiline chunks = some (message, unread) ∧
      (parseMessage message).body = newlined body

section

variable {text : Text} {headers body : List Text}

theorem stuffed_free {line : Text} (h : CrlfFree line) : CrlfFree (stuffed line) := by
  unfold stuffed
  split
  next =>
    intro hin
    rcases List.infix_cons_iff.mp hin with ⟨rest, hrest⟩ | hin
    · exact absurd (List.cons.inj hrest).1 (by decide)
    · exact h hin
  next => exact h

theorem stuffed_ne_endList (line : Text) : stuffed line ≠ endList := by
  unfold stuffed
  split
  next h =>
    obtain ⟨rest, rfl⟩ := h
    simp [endList]
  next h =>
    rintro rfl
    exact h (List.prefix_refl _)

theorem transmission_is_answer (h : Transmittable text headers body) :
    IsAnswer (fun line => line == endList) (transmission text headers body) := by
  refine ok_is_answer h.status fun line hline => ?_
  rcases List.mem_append.mp hline with hl | hl
  · exact ⟨(h.headers line hl).1, (h.headers line hl).2.2⟩
  · rcases List.mem_cons.mp hl with rfl | hl
    · exact ⟨by decide, by decide⟩
    · obtain ⟨sent, hsent, rfl⟩ := List.mem_map.mp hl
      exact ⟨stuffed_free (h.body sent hsent), stuffed_ne_endList sent⟩

/-- The body starts after the first empty line, as far as a `uint32_t` can tell. -/
theorem bodyStart_eq (table : Table Text Text) (n : Nat) {front : List Text} (rest : List Text)
    (h : [] ∉ front) :
    (parseHeaders table n (front ++ [] :: rest)).2 = (n + front.length + 1) % 2 ^ 32 := by
  induction front generalizing table n with
  | nil => rfl
  | cons line front ih =>
    obtain ⟨hline, hfront⟩ := List.ne_and_not_mem_of_not_mem_cons h
    rw [List.cons_append, parseHeaders]
    simp only [if_neg (Ne.symm hline)]
    rw [ih _ _ hfront, List.length_cons]
    congr 1
    omega

theorem parseMessage_body (message : List Text) : (parseMessage message).body =
    newlined (message.dropLast.drop (parseHeaders ∅ 0 message).2) := rfl

/-- Of a transmission, the body as it was sent, after what is left over of what comes before it. -/
theorem transmission_body (h : Transmittable text headers body) :
    (parseMessage (transmission text headers body)).body =
      newlined ((((positive ++ text) :: headers) ++ [[]]).drop ((headers.length + 2) % 2 ^ 32)) ++
        newlined (body.map stuffed) := by
  have hfront : [] ∉ (positive ++ text) :: headers := by
    exact List.not_mem_cons_of_ne_of_not_mem (by simp [positive])
      fun hnil => (h.headers [] hnil).2.1 rfl
  have hsplit : transmission text headers body =
      ((positive ++ text) :: headers) ++ [] :: (body.map stuffed ++ [endList]) := by
    simp [transmission]
  have hstart : (parseHeaders ∅ 0 (transmission text headers body)).2 =
      (headers.length + 2) % 2 ^ 32 := by
    rw [hsplit, bodyStart_eq ∅ 0 _ hfront]
    congr 1
    rw [List.length_cons]
    omega
  have hlast : (transmission text headers body).dropLast =
      (((positive ++ text) :: headers) ++ [[]]) ++ body.map stuffed := by
    have hconcat : transmission text headers body =
        ((((positive ++ text) :: headers) ++ [[]]) ++ body.map stuffed) ++ [endList] := by
      simp [transmission]
    rw [hconcat, List.dropLast_concat]
  rw [parseMessage_body, hstart, hlast, List.drop_append_of_le_length, newlined, newlined, newlined,
    List.flatMap_append]
  simp only [List.length_append, List.length_cons, List.length_nil]
  have := Nat.mod_le (headers.length + 2) (2 ^ 32)
  omega

theorem length_newlined_stuffed (body : List Text) :
    (newlined (body.map stuffed)).length =
      (newlined body).length + body.countP fun line => StartsWithDot line := by
  induction body with
  | nil => rfl
  | cons line body ih =>
    simp only [newlined, List.map_cons, List.flatMap_cons, List.length_append] at ih ⊢
    rw [ih, List.countP_cons, stuffed]
    split
    next h =>
      simp only [h, decide_true, if_pos, List.length_cons]
      omega
    next h =>
      simp only [h, decide_false]
      simp
      omega

theorem length_newlined (lines : List Text) : lines.length ≤ (newlined lines).length := by
  induction lines with
  | nil => exact Nat.zero_le _
  | cons line lines ih =>
    simp only [newlined, List.flatMap_cons, List.length_append, List.length_cons,
      List.length_nil] at ih ⊢
    omega

theorem stuffed_eq_self (h : ∀ line ∈ body, ¬ StartsWithDot line) : body.map stuffed = body :=
  (List.map_congr_left fun line hl => if_neg (h line hl)).trans (List.map_id body)

theorem read_transmission (h : Transmittable text headers body) {chunks : List Text}
    (hc : unlines (transmission text headers body) <+: chunks.flatten) :
    ∃ unread, readMultiline chunks = some (transmission text headers body, unread) :=
  readThrough_answer (transmission_is_answer h) hc

theorem transparent_eq (h : Transmittable text headers body) : Transparent text headers body ↔
    (parseMessage (transmission text headers body)).body = newlined body := by
  constructor
  · intro ht
    have hwhole : unlines (transmission text headers body) <+:
        [unlines (transmission text headers body)].flatten := by
      rw [List.flatten_singleton]
    obtain ⟨message, unread, hread, hbody⟩ := ht _ hwhole
    obtain ⟨unread', hread'⟩ := read_transmission h hwhole
    rw [hread'] at hread
    cases hread
    exact hbody
  · intro hbody chunks hc
    obtain ⟨unread, hread⟩ := read_transmission h hc
    exact ⟨_, unread, hread, hbody⟩

/-- The body comes through as it is if and only if none of its lines starts with a dot, and there are
not too many header lines for the index of the body. -/
theorem transparent_iff (h : Transmittable text headers body) : Transparent text headers body ↔
    (∀ line ∈ body, ¬ StartsWithDot line) ∧ headers.length + 2 < 2 ^ 32 := by
  rw [transparent_eq h, transmission_body h]
  constructor
  · intro heq
    -- whatever is left over or doubled makes the body longer
    have hlen := congrArg List.length heq
    rw [List.length_append, length_newlined_stuffed] at hlen
    have hfront := length_newlined
      (((positive ++ text) :: headers ++ [[]]).drop ((headers.length + 2) % 2 ^ 32))
    rw [List.length_drop] at hfront
    simp only [List.length_append, List.length_cons, List.length_nil] at hfront
    have hcount : body.countP (fun line => StartsWithDot line) = 0 := by omega
    refine ⟨fun line hline => by simpa using List.countP_eq_zero.mp hcount line hline, ?_⟩
    have hmod := Nat.mod_lt (headers.length + 2) (show 0 < 2 ^ 32 by decide)
    omega
  · rintro ⟨hdots, hfew⟩
    rw [stuffed_eq_self hdots, Nat.mod_eq_of_lt hfew, List.drop_eq_nil_of_le]
    · rfl
    · simp

theorem transparent_plain : Transparent [] [] ["a.".toList] ↔
    (∀ line ∈ ["a.".toList], ¬ StartsWithDot line) ∧ ([] : List Text).length + 2 < 2 ^ 32 :=
  transparent_iff ⟨by decide, by simp, by decide⟩

theorem dot_doubled : Transmittable [] [] [".a".toList] ∧ ¬ Transparent [] [] [".a".toList] := by
  have h : Transmittable [] [] [".a".toList] := ⟨by decide, by simp, by decide⟩
  refine ⟨h, fun ht => ?_⟩
  exact ((transparent_iff h).mp ht).1 _ (List.mem_singleton_self _) (by decide)

end

end Pop3Client

end Protocols
