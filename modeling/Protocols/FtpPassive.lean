import Protocols.FtpTransfer
import Protocols.RegexSearch
import Mathlib.Data.Nat.Log
import Mathlib.Tactic.Ring

namespace Protocols

open Regex

namespace FtpClient

/-- A number as it is written. -/
structure Number where
  text : Text
  digits : text ≠ [] ∧ ∀ c ∈ text, c.isDigit = true

def Number.value (n : Number) : Nat := Nat.ofDigitChars 10 n.text 0

/-- The six numbers of a reply to PASV. -/
structure PasvAddress where
  h1 : Number
  h2 : Number
  h3 : Number
  h4 : Number
  p1 : Number
  p2 : Number

namespace PasvAddress

def numbers (a : PasvAddress) : List Number := [a.h1, a.h2, a.h3, a.h4, a.p1, a.p2]

def texts (a : PasvAddress) : List Text := a.numbers.map Number.text

/-- The numbers of the host are passed on as they are written, with zeros at their beginning. -/
def host (a : PasvAddress) : Text :=
  a.h1.text ++ '.' :: (a.h2.text ++ '.' :: (a.h3.text ++ '.' :: a.h4.text))

def port (a : PasvAddress) : Nat := 256 * a.p1.value + a.p2.value

/-- What the two numbers of the port give when they are written in hexadecimal one after the other,
each in two digits at least. -/
def dataPort (a : PasvAddress) : Nat :=
  a.p1.value * 16 ^ max 2 (Nat.log 16 a.p2.value + 1) + a.p2.value

end PasvAddress

/-- The numbers stand in parentheses after the given beginning of the reply. -/
def TellsAfter (front line : Text) (a : PasvAddress) : Prop :=
  ∃ back, NoBreak front ∧ NoBreak back ∧
    line = "227 ".toList ++ (front ++ (" (".toList ++ ([','].intercalate a.texts ++ ')' :: back)))

/-- The six numbers of the reply are the last ones that stand so. -/
def Tells (line : Text) (a : PasvAddress) : Prop :=
  ∃ front, TellsAfter front line a ∧
    ∀ front' a', TellsAfter front' line a' → front'.length ≤ front.length

/-- Of the reply that has come, an error is returned or the address that it tells, and an error if a
number is out of range. -/
structure DecodesAddress (control : List SocketEvent) : Prop where
  returns : ∀ error, (ftpPassiveMode control).1 = .error error → error ≠ .thrown
  decodes : ∀ host port, (ftpPassiveMode control).1 = .ok (host, port) →
    ∃ line a, LastLine (arrived control) line ∧ Tells line a ∧ (∀ n ∈ a.numbers, n.value ≤ 255) ∧
      host = a.host ∧ port = decimal a.port
  rejects : ∀ line a, LastLine (arrived control) line → Tells line a →
    (∃ n ∈ a.numbers, 255 < n.value) → ∃ error, (ftpPassiveMode control).1 = .error error

/-- The numbers of the reply that has come are in range. -/
def InRange (control : List SocketEvent) : Prop :=
  ∀ line a, LastLine (arrived control) line → Tells line a → ∀ n ∈ a.numbers, n.value ≤ 255

section

def hexDigit (c : Char) : Nat :=
  if c.isDigit then c.toNat - '0'.toNat else c.toNat - 'a'.toNat + 10

/-- What digits stand for to the base 16. -/
def hexValue (digits : Text) : Nat := digits.foldl (fun value c => 16 * value + hexDigit c) 0

theorem stoiHex_eq (digits : Text) :
    stoiHex digits = if hexValue digits < 2 ^ 31 then some (hexValue digits) else none := rfl

theorem hexValue_concat (front : Text) (c : Char) :
    hexValue (front ++ [c]) = 16 * hexValue front + hexDigit c := by
  rw [hexValue, List.foldl_append]
  rfl

theorem hexValue_append (front back : Text) :
    hexValue (front ++ back) = hexValue front * 16 ^ back.length + hexValue back := by
  induction back using List.reverseRecOn with
  | nil => simp [hexValue]
  | append_singleton back c ih =>
    rw [← List.append_assoc, hexValue_concat, hexValue_concat, ih, List.length_append,
      List.length_singleton, pow_succ]
    ring

theorem hexValue_digits (n : Nat) : hexValue (Nat.toDigits 16 n) = n := by
  induction n using Nat.strong_induction_on with
  | _ n ih =>
    have digit : ∀ d < 16, hexDigit d.digitChar = d := by decide
    by_cases hlt : n < 16
    · rw [Nat.toDigits_of_lt_base hlt, ← List.nil_append [n.digitChar], hexValue_concat, digit n hlt]
      exact Nat.zero_add n
    · have hdiv : n / 16 < n := by omega
      rw [Nat.toDigits_of_base_le (by decide) (Nat.le_of_not_lt hlt), hexValue_concat, ih _ hdiv,
        digit _ (Nat.mod_lt n (by decide))]
      exact Nat.div_add_mod n 16

theorem length_hexDigits (n : Nat) : (Nat.toDigits 16 n).length = Nat.log 16 n + 1 := by
  have hle : ∀ {k}, 0 < k → ((Nat.toDigits 16 n).length ≤ k ↔ n < 16 ^ k) :=
    Nat.length_toDigits_le_iff (by decide)
  apply le_antisymm
  · exact (hle (Nat.succ_pos _)).mpr (Nat.lt_pow_succ_log_self (by decide) n)
  · by_contra hshort
    have hlog : 0 < Nat.log 16 n := by
      have := @Nat.length_toDigits_pos 16 n
      omega
    have hne : n ≠ 0 := fun h => by simp [h] at hlog
    have hlt := (hle hlog).mp (by omega)
    exact absurd (Nat.pow_log_le_self 16 hne) (Nat.not_le.mpr hlt)

theorem hexValue_byte (n : Nat) : hexValue (hexByte n) = n := by
  have hzeros : ∀ k, hexValue (List.replicate k '0') = 0 := by
    intro k
    induction k with
    | zero => rfl
    | succ k ih => rw [List.replicate_succ', hexValue_concat, ih]; rfl
  rw [hexByte, hexValue_append, hzeros, hexValue_digits, Nat.zero_mul, Nat.zero_add]

theorem length_hexByte (n : Nat) : (hexByte n).length = max 2 (Nat.log 16 n + 1) := by
  rw [hexByte, List.length_append, List.length_replicate, length_hexDigits]
  omega

/-- The port of the data connection, unless it does not fit into an `int`. -/
theorem passivePort_eq (a : PasvAddress) : passivePort a.p1.text a.p2.text =
    if a.dataPort < 2 ^ 31 then some a.dataPort else none := by
  have hstoi : ∀ n : Number, stoi n.text = if n.value < 2 ^ 31 then some n.value else none :=
    fun _ => rfl
  have hhex : stoiHex (hexByte a.p1.value ++ hexByte a.p2.value) =
      if a.dataPort < 2 ^ 31 then some a.dataPort else none := by
    rw [stoiHex_eq, hexValue_append, hexValue_byte, hexValue_byte, length_hexByte]
    rfl
  have hhigh : a.p1.value ≤ a.dataPort :=
    Nat.le_add_right_of_le (Nat.le_mul_of_pos_right _ (Nat.pow_pos (by decide)))
  have hlow : a.p2.value ≤ a.dataPort := Nat.le_add_left _ _
  rw [passivePort, hstoi, hstoi]
  by_cases h : a.dataPort < 2 ^ 31
  · rw [if_pos (Nat.lt_of_le_of_lt hhigh h), if_pos (Nat.lt_of_le_of_lt hlow h)]
    exact hhex
  · rw [if_neg h]
    by_cases hp1 : a.p1.value < 2 ^ 31
    · rw [if_pos hp1]
      by_cases hp2 : a.p2.value < 2 ^ 31
      · rw [if_pos hp2]
        exact hhex.trans (if_neg h)
      · rw [if_neg hp2]
        rfl
    · rw [if_neg hp1]
      rfl

/-- Of two numbers in range, the port is what they stand for. -/
theorem dataPort_eq {a : PasvAddress} (h : a.p2.value ≤ 255) : a.dataPort = a.port := by
  have hlog : Nat.log 16 a.p2.value < 2 := by
    apply Nat.log_lt_of_lt_pow' (by decide)
    omega
  rw [PasvAddress.dataPort, max_eq_left hlog, PasvAddress.port]
  ring

end

section

variable {line front : Text} {submatch : List Text} {a : PasvAddress}

/-- The pattern after the blank and the parenthesis. -/
def addressParts : List Regex :=
  [group 1 digits, lit ",", group 2 digits, lit ",", group 3 digits, lit ",", group 4 digits,
    lit ",", group 5 digits, lit ",", group 6 digits, lit ")", star any]

theorem getPassivePort_eq : getPassivePort =
    seq bol (seq (lit "227 ") (seq (star any) (all ((lit " (" :: addressParts) ++ [eol])))) := rfl

theorem comma_words {w : Text} : w ∈ (lit ",").words ↔ w = [','] := mem_lit_plain_words (by decide)

theorem close_words {w : Text} : w ∈ (lit ")").words ↔ w = [')'] := mem_lit_plain_words (by decide)

theorem open_words {w : Text} : w ∈ (lit " (").words ↔ w = " (".toList :=
  mem_lit_plain_words (by decide)

theorem reply_words {w : Text} : w ∈ (lit "227 ").words ↔ w = "227 ".toList :=
  mem_lit_plain_words (by decide)

/-- The six numbers of a reply and what comes after them. -/
def told (a : PasvAddress) (back : Text) : Text :=
  a.h1.text ++ (',' :: (a.h2.text ++ (',' :: (a.h3.text ++ (',' :: (a.h4.text ++ (',' ::
    (a.p1.text ++ (',' :: (a.p2.text ++ (')' :: back)))))))))))

theorem told_eq (a : PasvAddress) (back : Text) :
    [','].intercalate a.texts ++ ')' :: back = told a back := by
  simp [PasvAddress.texts, PasvAddress.numbers, told, List.intercalate, List.intersperse]

theorem number_digits (n : Number) (k : Nat) : n.text ∈ (group k digits).words :=
  digits_words.mpr n.digits

theorem told_words (a : PasvAddress) {back : Text} (hback : NoBreak back) :
    told a back ∈ (all addressParts).words := by
  have comma : ∀ {rs : List Regex} (n : Number) {k : Nat} {rest : Text}, rest ∈ (all rs).words →
      n.text ++ (',' :: rest) ∈ (all (group k digits :: lit "," :: rs)).words := by
    intro rs n k rest hrest
    simp only [all_cons, mem_seq_words]
    exact ⟨n.text, number_digits n k, _, ⟨[','], comma_words.mpr rfl, rest, hrest, rfl⟩, rfl⟩
  refine comma a.h1 (comma a.h2 (comma a.h3 (comma a.h4 (comma a.p1 ?_))))
  simp only [all_cons, mem_seq_words]
  exact ⟨a.p2.text, number_digits a.p2 6, _, ⟨[')'], close_words.mpr rfl, _, ⟨back,
    star_any_words.mpr hback, [], (Language.mem_one _).mpr rfl, List.append_nil back⟩, rfl⟩, rfl⟩

theorem tellsAfter_iff {front : Text} : TellsAfter front line a ↔ ∃ back, NoBreak front ∧ NoBreak back ∧
    line = "227 ".toList ++ (front ++ (" (".toList ++ told a back)) := by
  simp only [TellsAfter, told_eq]

theorem captured_skip {r : Regex} (hr : r.groupNumbers = []) (rs : List Regex) (w : Text)
    (ws : List Text) : captured (r :: rs) (w :: ws) = captured rs ws := by
  rw [captured_cons, captured_nothing hr, List.append_nil]

theorem address_submatches (matched n₁ c₁ n₂ c₂ n₃ c₃ n₄ c₄ n₅ c₅ n₆ c₆ back : Text) :
    submatches getPassivePort matched (captured addressParts
      [n₁, c₁, n₂, c₂, n₃, c₃, n₄, c₄, n₅, c₅, n₆, c₆, back]) = [matched, n₁, n₂, n₃, n₄, n₅, n₆] := by
  have hcomma := lit_groupNumbers ","
  have hclose := lit_groupNumbers ")"
  have hgroups : getPassivePort.groups = 6 := by
    simp [getPassivePort, all, groups, lit_groups, digits, any, plus, range]
  rw [submatches, hgroups, addressParts]
  simp only [captured, captured_skip hcomma, captured_skip hclose, List.nil_append,
    List.cons_append]
  rfl

/-- What the pattern captures is the address that the line tells. -/
theorem getPassivePort_some (h : regexMatch getPassivePort line = some submatch) :
    ∃ a, Tells line a ∧ submatch = line :: a.texts := by
  rw [regexMatch_eq] at h
  obtain ⟨caps, hwhole, rfl⟩ := Option.map_eq_some_iff.mp h
  rw [getPassivePort_eq, whole_bol] at hwhole
  obtain ⟨lead, t, hline, hlead, ht⟩ := whole_lit_some hwhole
  obtain ⟨front, t, rfl, hfront, ht, hlongest⟩ := whole_star_some ht
  rw [List.cons_append, all_cons] at ht
  obtain ⟨opening, t, rfl, hopening, ht⟩ := whole_lit_some ht
  obtain ⟨ws, hws, rfl, rfl⟩ := @whole_parts _ _ addressParts (by decide) _ ht
  rw [reply_words.mp (mem_lit_words.mpr hlead)] at hline
  rw [open_words.mp (mem_lit_words.mpr hopening)] at hline hlongest
  have longest : ∀ front' a', TellsAfter front' line a' → front'.length ≤ front.length := by
    intro front' a' htells
    obtain ⟨back, hfront', hback, hline'⟩ := tellsAfter_iff.mp htells
    by_contra hlt
    refine hlongest front' _ (List.append_cancel_left (hline.symm.trans hline'))
      (noBreak_iff.mpr hfront') (Nat.lt_of_not_le hlt) ?_
    refine (matches_all_eol (lit " (" :: addressParts) (by decide)).mpr ?_
    rw [all_cons, mem_seq_words]
    exact ⟨_, open_words.mpr rfl, _, told_words a' hback, rfl⟩
  obtain _ | ⟨h₁, _ | ⟨c₁, _ | ⟨h₂, _ | ⟨c₂, _ | ⟨h₃, _ | ⟨c₃, _ | ⟨h₄, _ | ⟨c₄, _ | ⟨h₅, _ | ⟨c₅,
    _ | ⟨h₆, _ | ⟨c₆, _ | ⟨hback, ⟨⟩⟩⟩⟩⟩⟩⟩⟩⟩⟩⟩⟩⟩⟩ := hws
  rw [comma_words.mp c₁, comma_words.mp c₂, comma_words.mp c₃, comma_words.mp c₄, comma_words.mp c₅,
    close_words.mp c₆] at hline
  refine ⟨⟨⟨_, digits_words.mp h₁⟩, ⟨_, digits_words.mp h₂⟩, ⟨_, digits_words.mp h₃⟩,
    ⟨_, digits_words.mp h₄⟩, ⟨_, digits_words.mp h₅⟩, ⟨_, digits_words.mp h₆⟩⟩,
    ⟨front, tellsAfter_iff.mpr ⟨_, noBreak_iff.mp hfront, star_any_words.mp hback, ?_⟩, longest⟩,
    address_submatches _ _ _ _ _ _ _ _ _ _ _ _ _ _⟩
  rw [hline]
  simp [told]

theorem told_texts {a a' : PasvAddress} {back back' : Text} (h : told a back = told a' back') :
    a.texts = a'.texts := by
  have plain : ∀ {c : Char} (n : Number), c.isDigit = false → c ∉ n.text := by
    intro c n hc hin
    rw [n.digits.2 c hin] at hc
    cases hc
  have comma := fun n : Number => plain n (show ','.isDigit = false by decide)
  have close := fun n : Number => plain n (show ')'.isDigit = false by decide)
  obtain ⟨h₁, h⟩ := split_unique (comma a.h1) (comma a'.h1) h
  obtain ⟨h₂, h⟩ := split_unique (comma a.h2) (comma a'.h2) h
  obtain ⟨h₃, h⟩ := split_unique (comma a.h3) (comma a'.h3) h
  obtain ⟨h₄, h⟩ := split_unique (comma a.h4) (comma a'.h4) h
  obtain ⟨h₅, h⟩ := split_unique (comma a.p1) (comma a'.p1) h
  obtain ⟨h₆, _⟩ := split_unique (close a.p2) (close a'.p2) h
  simp only [PasvAddress.texts, PasvAddress.numbers, List.map_cons, List.map_nil, h₁, h₂, h₃, h₄, h₅,
    h₆]

/-- A line tells one address. -/
theorem tells_unique {a' : PasvAddress} (h : Tells line a) (h' : Tells line a') :
    a.texts = a'.texts := by
  obtain ⟨front, hafter, hlongest⟩ := h
  obtain ⟨front', hafter', hlongest'⟩ := h'
  have hlength : front.length = front'.length :=
    Nat.le_antisymm (hlongest' front a hafter) (hlongest front' a' hafter')
  obtain ⟨back, _, _, hline⟩ := tellsAfter_iff.mp hafter
  obtain ⟨back', _, _, hline'⟩ := tellsAfter_iff.mp hafter'
  have heq := List.append_cancel_left (hline.symm.trans hline')
  exact told_texts (List.append_cancel_left (List.append_inj heq hlength).2)

theorem getPassivePort_isSome (h : TellsAfter front line a) :
    (regexMatch getPassivePort line).isSome = true := by
  obtain ⟨back, hfront, hback, rfl⟩ := tellsAfter_iff.mp h
  refine (regexMatch_line_iff (lit "227 " :: star any :: lit " (" :: addressParts) (by decide)).mpr ?_
  simp only [all_cons, mem_seq_words]
  exact ⟨_, reply_words.mpr rfl, _, ⟨front, star_any_words.mpr hfront, _, ⟨_, open_words.mpr rfl, _,
    told_words a hback, rfl⟩, rfl⟩, rfl⟩

end

section

variable {control rest : List SocketEvent} {lines : List Text} {a : PasvAddress}

theorem host_format (a : PasvAddress) :
    format "{}.{}.{}.{}".toList [a.h1.text, a.h2.text, a.h3.text, a.h4.text] = a.host := by
  simp [format, PasvAddress.host]

/-- What comes of the last line of a reply that tells an address. -/
theorem passive_told (hlines : readMultipleLines control = (.ok lines, rest))
    (h : regexMatch getPassivePort (lines.getLastD []) = some (lines.getLastD [] :: a.texts)) :
    (ftpPassiveMode control).1 =
      if a.dataPort < 2 ^ 31 then .ok (a.host, decimal a.dataPort) else .error .thrown := by
  have hport : passivePort (str (lines.getLastD [] :: a.texts) 5)
      (str (lines.getLastD [] :: a.texts) 6) = if a.dataPort < 2 ^ 31 then some a.dataPort else none :=
    passivePort_eq a
  have hhost : format "{}.{}.{}.{}".toList
      [str (lines.getLastD [] :: a.texts) 1, str (lines.getLastD [] :: a.texts) 2,
        str (lines.getLastD [] :: a.texts) 3, str (lines.getLastD [] :: a.texts) 4] = a.host :=
    host_format a
  simp only [ftpPassiveMode, hlines, h, hport, hhost]
  split_ifs <;> rfl

theorem passive_silent {error : Error} (hlines : readMultipleLines control = (.error error, rest)) :
    (ftpPassiveMode control).1 = .error error := by
  simp only [ftpPassiveMode, hlines]

theorem passive_untold (hlines : readMultipleLines control = (.ok lines, rest))
    (h : regexMatch getPassivePort (lines.getLastD []) = none) :
    (ftpPassiveMode control).1 = .error .fault := by
  simp only [ftpPassiveMode, hlines, h]

/-- Either no address has come and an error is returned, or it is as the address says. -/
theorem passive_cases (control : List SocketEvent) :
    (∃ error, (ftpPassiveMode control).1 = .error error ∧ error ≠ .thrown ∧
      ∀ line a, LastLine (arrived control) line → ¬ Tells line a) ∨
    ∃ line a, LastLine (arrived control) line ∧ Tells line a ∧ (ftpPassiveMode control).1 =
      if a.dataPort < 2 ^ 31 then .ok (a.host, decimal a.dataPort) else .error .thrown := by
  rcases hlines : readMultipleLines control with ⟨error | lines, rest⟩
  · refine .inl ⟨error, passive_silent hlines, ?_, ?_⟩
    · rw [readMultipleLines_timedOut hlines]
      exact nofun
    · exact fun line a hline => absurd hline (readMultipleLines_error hlines)
  rcases hmatch : regexMatch getPassivePort (lines.getLastD []) with _ | submatch
  · refine .inl ⟨.fault, passive_untold hlines hmatch, nofun, ?_⟩
    rintro line a hline ⟨front, hafter, _⟩
    obtain rfl := lastLine_unique hline (readMultipleLines_ok hlines)
    have hsome := getPassivePort_isSome hafter
    rw [hmatch] at hsome
    cases hsome
  · obtain ⟨a, htells, rfl⟩ := getPassivePort_some hmatch
    exact .inr ⟨_, a, readMultipleLines_ok hlines, htells, passive_told hlines hmatch⟩

theorem Tells.address {line : Text} {a a' : PasvAddress} (h : Tells line a) (h' : Tells line a') :
    a.host = a'.host ∧ a.dataPort = a'.dataPort := by
  have htexts := tells_unique h h'
  simp only [PasvAddress.texts, PasvAddress.numbers, List.map_cons, List.map_nil,
    List.cons.injEq] at htexts
  simp only [PasvAddress.host, PasvAddress.dataPort, Number.value, htexts, and_self]

/-- Every reply is decoded exactly where its numbers are in range. -/
theorem decodes_iff : DecodesAddress control ↔ InRange control := by
  constructor
  · intro h line a hline htells n hn
    by_contra hlarge
    obtain ⟨error, herror⟩ := h.rejects line a hline htells ⟨n, hn, Nat.lt_of_not_le hlarge⟩
    obtain ⟨_, _, _, hno⟩ | ⟨line', a', _, _, htold⟩ := passive_cases control
    · exact hno line a hline htells
    · rw [herror] at htold
      split_ifs at htold
      cases htold
      exact h.returns .thrown herror rfl
  · intro h
    obtain ⟨error, herror, hne, hno⟩ | ⟨line, a, hline, htells, htold⟩ := passive_cases control
    · constructor
      · intro error' herror'
        rw [herror] at herror'
        cases herror'
        exact hne
      · intro host port hok
        rw [herror] at hok
        cases hok
      · exact fun line a hline htells => absurd htells (hno line a hline)
    · have hn := h line a hline htells
      have hp1 : a.p1.value ≤ 255 := hn _ (by simp [PasvAddress.numbers])
      have hp2 : a.p2.value ≤ 255 := hn _ (by simp [PasvAddress.numbers])
      have hsmall : a.dataPort < 2 ^ 31 := by
        rw [dataPort_eq hp2, PasvAddress.port]
        omega
      rw [if_pos hsmall, dataPort_eq hp2] at htold
      constructor
      · intro error herror
        rw [htold] at herror
        cases herror
      · intro host port hok
        rw [htold] at hok
        cases hok
        exact ⟨line, a, hline, htells, hn, rfl, rfl⟩
      · rintro line a hline htells ⟨n, hn, hlarge⟩
        exact absurd (h line a hline htells n hn) (Nat.not_le.mpr hlarge)

end

/-- A reply whose address is 300.0.0.1. -/
def passiveBeyond : List SocketEvent :=
  [.bytes "227 Entering Passive Mode (300,0,0,1,4,210).\r\n".toList]

/-- A number out of range is passed on as a part of the host. -/
theorem beyond_accepted : ¬ DecodesAddress passiveBeyond := by
  intro h
  have hresult : (ftpPassiveMode passiveBeyond).1 =
      .ok ("300.0.0.1".toList, "1234".toList) := by decide +kernel
  obtain ⟨line, a, _, _, hsmall, hhost, _⟩ := h.decodes _ _ hresult
  have hdot : '.' ∉ a.h1.text := fun hc => absurd (a.h1.digits.2 '.' hc) (by decide)
  have hsplit : "300".toList ++ '.' :: "0.0.1".toList = a.h1.text ++ '.' ::
      (a.h2.text ++ '.' :: (a.h3.text ++ '.' :: a.h4.text)) := hhost
  have htext : "300".toList = a.h1.text := (split_unique (by decide) hdot hsplit).1
  have hvalue : a.h1.value = 300 := by
    rw [Number.value, ← htext]
    decide
  have hle := hsmall a.h1 (by simp [PasvAddress.numbers])
  omega

end FtpClient

end Protocols
