import Protocols.Pop3Session
import Protocols.RegexLines
import Protocols.SmtpSession

namespace Protocols

open Regex Computability

/-- What stands before the first `@` of an address. -/
def localPart (address : Text) : Text := address.takeWhile (· != '@')

def domainPart (address : Text) : Text := (address.dropWhile (· != '@')).tail

/-- An address whose two parts are made of labels with dots between them. -/
structure IsAddress (userLabel hostLabel : Text → Prop) (address : Text) : Prop where
  separated : '@' ∈ address
  user : ∀ label ∈ (localPart address).splitOn '.', userLabel label
  host : ∀ label ∈ (domainPart address).splitOn '.', hostLabel label

/-- Letters and digits. -/
def IsUserLabel (label : Text) : Prop := label ≠ [] ∧ ∀ c ∈ label, c.isAlphanum = true

/-- A letter, then letters, digits and hyphens, and a letter or a digit in the end. -/
structure IsHostLabel (label : Text) : Prop where
  long : 2 ≤ label.length
  first : ∃ c rest, label = c :: rest ∧ c.isAlpha = true
  last : ∃ front c, label = front ++ [c] ∧ c.isAlphanum = true
  all : ∀ c ∈ label, c.isAlphanum = true ∨ c = '-'

/-- A letter, then letters and digits. -/
def IsPop3Label (label : Text) : Prop :=
  (∃ c rest, label = c :: rest ∧ c.isAlpha = true) ∧ ∀ c ∈ label, c.isAlphanum = true

abbrev IsSmtpAddress : Text → Prop := IsAddress IsUserLabel IsHostLabel

abbrev IsPop3Address : Text → Prop := IsAddress IsPop3Label IsPop3Label

theorem parts_of_at {user : Text} (host : Text) (hu : '@' ∉ user) :
    localPart (user ++ '@' :: host) = user ∧ domainPart (user ++ '@' :: host) = host := by
  have hall : ∀ c ∈ user, (c != '@') = true := by
    intro c hc
    have hne : c ≠ '@' := fun he => hu (he ▸ hc)
    simp [hne]
  constructor
  · rw [localPart, List.takeWhile_append_of_pos hall]
    simp
  · rw [domainPart, List.dropWhile_append_of_pos hall]
    simp

theorem at_of_parts {address : Text} (h : '@' ∈ address) :
    address = localPart address ++ '@' :: domainPart address ∧ '@' ∉ localPart address := by
  obtain ⟨user, host, rfl, hu⟩ := List.eq_append_cons_of_mem h
  obtain ⟨hlocal, hdomain⟩ := parts_of_at host hu
  rw [hlocal, hdomain]
  exact ⟨rfl, hu⟩

section

variable {w : Text}

theorem hyphened_words : w ∈ (alt alnum (lit "-")).words ↔
    ∃ c, (c.isAlphanum = true ∨ c = '-') ∧ w = [c] := by
  rw [mem_alt_words, alnum_words, mem_lit_char_words (d := '-') rfl (by decide)]
  simp only [or_and_right, exists_or, exists_eq_left]

theorem domainLabel_words : w ∈ domainLabel.words ↔ IsHostLabel w := by
  rw [domainLabel, all, List.foldr_cons, List.foldr_cons, List.foldr_cons, List.foldr_nil]
  simp only [mem_seq_words, letter_words, mem_star_set_words fun _ => hyphened_words,
    mem_plus_set_words fun _ => alnum_words]
  constructor
  · intro h
    obtain ⟨_, ⟨c, hc, rfl⟩, _, ⟨middle, hmiddle, _, ⟨ending, ⟨hne, hending⟩, _, rfl, rfl⟩, rfl⟩,
      rfl⟩ := h
    refine ⟨?_, ⟨c, _, rfl, hc⟩, ⟨c :: (middle ++ ending.dropLast), ending.getLast hne, ?_,
      hending _ (List.getLast_mem hne)⟩, ?_⟩
    · have := List.length_pos_iff.mpr hne
      simp only [List.append_nil, List.length_append, List.length_singleton]
      omega
    · rw [List.append_nil, List.cons_append, List.cons_append, List.append_assoc,
        List.dropLast_concat_getLast hne]
      rfl
    · intro x hx
      rw [List.append_nil, List.singleton_append] at hx
      rcases List.mem_cons.mp hx with rfl | hx
      · exact Or.inl ((isAlphanum_eq x).mpr (Or.inl hc))
      · rcases List.mem_append.mp hx with hx | hx
        · exact hmiddle x hx
        · exact Or.inl (hending x hx)
  · intro h
    obtain ⟨c, rest, rfl, hc⟩ := h.first
    obtain ⟨front, d, hfront, hd⟩ := h.last
    have hlong := h.long
    cases front with
    | nil =>
      rw [hfront] at hlong
      simp at hlong
    | cons c' middle =>
      obtain ⟨rfl, rfl⟩ := List.cons.inj hfront
      refine ⟨[c], ⟨c, hc, rfl⟩, _, ⟨middle, fun x hx => h.all x (by simp [hx]), _,
        ⟨[d], ⟨by simp, ?_⟩, [], rfl, rfl⟩, rfl⟩, by simp⟩
      intro x hx
      rwa [List.mem_singleton.mp hx]

theorem IsHostLabel.append {u v : Text} (hu : IsHostLabel u) (hv : IsHostLabel v) :
    IsHostLabel (u ++ v) := by
  obtain ⟨c, rest, rfl, hc⟩ := hu.first
  obtain ⟨front, d, rfl, hd⟩ := hv.last
  refine ⟨?_, ⟨c, _, rfl, hc⟩, ⟨(c :: rest) ++ front, d, by simp, hd⟩, ?_⟩
  · have := hu.long
    rw [List.length_append]
    omega
  · intro x hx
    rcases List.mem_append.mp hx with hx | hx
    · exact hu.all x hx
    · exact hv.all x hx

/-- One label or several in a row are a label. -/
theorem domainLabels_words : w ∈ (plus domainLabel).words ↔ IsHostLabel w := by
  rw [plus, mem_seq_words]
  constructor
  · intro h
    obtain ⟨first, hfirst, more, hmore, rfl⟩ := h
    have hlabel := domainLabel_words.mp hfirst
    obtain ⟨parts, rfl, hparts⟩ := mem_star_words.mp hmore
    clear hmore hfirst
    induction parts generalizing first with
    | nil => simpa using hlabel
    | cons p parts ih =>
      have hp := domainLabel_words.mp (hparts p List.mem_cons_self)
      have hmore := ih (first ++ p) (hlabel.append hp) fun q hq =>
        hparts q (List.mem_cons_of_mem _ hq)
      rwa [List.append_assoc] at hmore
  · intro h
    exact ⟨w, domainLabel_words.mpr h, [], nil_mem_star_words _, List.append_nil w⟩

theorem userLabel_words : w ∈ (plus alnum).words ↔ IsUserLabel w :=
  mem_plus_set_words fun _ => alnum_words

theorem userLabels_words : w ∈ (plus (plus alnum)).words ↔ IsUserLabel w := by
  rw [plus, mem_seq_words]
  constructor
  · intro h
    obtain ⟨first, hfirst, more, hmore, rfl⟩ := h
    obtain ⟨hne, hall⟩ := userLabel_words.mp hfirst
    obtain ⟨parts, rfl, hparts⟩ := mem_star_words.mp hmore
    refine ⟨by simp [hne], fun c hc => ?_⟩
    rcases List.mem_append.mp hc with hc | hc
    · exact hall c hc
    · obtain ⟨p, hp, hcp⟩ := List.mem_flatten.mp hc
      exact (userLabel_words.mp (hparts p hp)).2 c hcp
  · intro h
    exact ⟨w, userLabel_words.mpr h, [], nil_mem_star_words _, List.append_nil w⟩

theorem pop3Label_words : w ∈ pop3Label.words ↔ IsPop3Label w := by
  rw [pop3Label, all, List.foldr_cons, List.foldr_cons, List.foldr_nil]
  simp only [mem_seq_words, letter_words, mem_star_set_words fun _ => alnum_words]
  constructor
  · intro h
    obtain ⟨_, ⟨c, hc, rfl⟩, _, ⟨rest, hrest, _, rfl, rfl⟩, rfl⟩ := h
    refine ⟨⟨c, _, rfl, hc⟩, fun x hx => ?_⟩
    rw [List.append_nil, List.singleton_append] at hx
    rcases List.mem_cons.mp hx with rfl | hx
    · exact (isAlphanum_eq x).mpr (Or.inl hc)
    · exact hrest x hx
  · intro h
    obtain ⟨⟨c, rest, rfl, hc⟩, hall⟩ := h
    exact ⟨[c], ⟨c, hc, rfl⟩, _, ⟨rest, fun x hx => hall x (List.mem_cons_of_mem _ hx), [], rfl,
      rfl⟩, by simp⟩

end

/-- The words of the two parts and of the `@` between them. -/
theorem mem_address {user host : Language Char} (hu : ∀ u ∈ user, '@' ∉ u) {w : Text} :
    w ∈ user * ({['@']} * host) ↔ '@' ∈ w ∧ localPart w ∈ user ∧ domainPart w ∈ host := by
  constructor
  · intro h
    obtain ⟨u, huser, _, hrest, rfl⟩ := Language.mem_mul.mp h
    obtain ⟨_, hat, v, hhost, rfl⟩ := Language.mem_mul.mp hrest
    cases hat
    obtain ⟨hlocal, hdomain⟩ := parts_of_at v (hu u huser)
    rw [List.singleton_append, hlocal, hdomain]
    exact ⟨by simp, huser, hhost⟩
  · intro h
    obtain ⟨hat, huser, hhost⟩ := h
    rw [(at_of_parts hat).1]
    exact Language.append_mem_mul huser (Language.append_mem_mul (a := ['@']) rfl hhost)

/-- Labels with dots between them. -/
theorem dotted_words {front last : Regex} {label : Text → Prop} {w : Text}
    (hfront : ∀ u, u ∈ front.words ↔ label u) (hlast : ∀ u, u ∈ last.words ↔ label u)
    (hdot : ∀ u, label u → '.' ∉ u) :
    w ∈ (star (all [front, lit "."])).words * last.words ↔ ∀ l ∈ w.splitOn '.', label l := by
  have hsame : last.words = front.words := by
    ext u
    rw [hlast, hfront]
  have hsep : (lit ".").words = {['.']} := by
    ext u
    exact mem_lit_char_words rfl (by decide)
  have hwords : (star (all [front, lit "."])).words = (front.words * {['.']})∗ := by
    simp only [all, List.foldr_cons, List.foldr_nil, words, mul_one, hsep]
  rw [hwords, hsame, mem_separated fun u hu => hdot u ((hfront u).mp hu)]
  simp only [hfront]

theorem not_mem_of_alnum {label : Text} {c : Char} (h : ∀ x ∈ label, x.isAlphanum = true)
    (hc : c.isAlphanum = false) : c ∉ label := by
  intro hmem
  rw [h c hmem] at hc
  cases hc

theorem IsHostLabel.not_mem {label : Text} (h : IsHostLabel label) {c : Char}
    (hc : c.isAlphanum = false) (hne : c ≠ '-') : c ∉ label := by
  intro hmem
  rcases h.all c hmem with ha | hh
  · rw [ha] at hc
    cases hc
  · exact hne hh

theorem domain_words {w : Text} : w ∈ domain.words ↔ ∀ l ∈ w.splitOn '.', IsHostLabel l := by
  rw [domain, all, List.foldr_cons, List.foldr_cons, List.foldr_nil, words, words, words,
    mul_one, ← words]
  exact dotted_words (fun _ => domainLabel_words) (fun _ => domainLabels_words) fun l hl =>
    hl.not_mem (by decide) (by decide)

theorem smtpAddress_words {w : Text} : w ∈ smtpAddress.words ↔ IsSmtpAddress w := by
  have hat : (lit "@").words = {['@']} := by
    ext u
    exact mem_lit_char_words rfl (by decide)
  have huser : ∀ u, u ∈ (star (all [plus alnum, lit "."])).words * (plus (plus alnum)).words ↔
      ∀ l ∈ u.splitOn '.', IsUserLabel l := fun u =>
    dotted_words (fun _ => userLabel_words) (fun _ => userLabels_words) fun l hl =>
      not_mem_of_alnum hl.2 (by decide)
  have hparts : smtpAddress.words = ((star (all [plus alnum, lit "."])).words *
      (plus (plus alnum)).words) * ({['@']} * domain.words) := by
    rw [← hat, smtpAddress, mul_assoc]
    simp only [all, List.foldr_cons, List.foldr_nil, words, mul_one]
  rw [hparts, mem_address, huser, domain_words]
  · constructor
    · intro h
      exact ⟨h.1, h.2.1, h.2.2⟩
    · intro h
      exact ⟨h.separated, h.user, h.host⟩
  · intro u hu
    exact words_avoid (r := seq (star (all [plus alnum, lit "."])) (plus (plus alnum))) hu (by decide)
      (by decide)

theorem pop3Address_words {w : Text} : w ∈ pop3Address.words ↔ IsPop3Address w := by
  have hat : (lit "@").words = {['@']} := by
    ext u
    exact mem_lit_char_words rfl (by decide)
  have hpart : ∀ u, u ∈ (star (all [pop3Label, lit "."])).words * pop3Label.words ↔
      ∀ l ∈ u.splitOn '.', IsPop3Label l := fun u =>
    dotted_words (fun _ => pop3Label_words) (fun _ => pop3Label_words) fun l hl =>
      not_mem_of_alnum hl.2 (by decide)
  have hparts : pop3Address.words = ((star (all [pop3Label, lit "."])).words * pop3Label.words) *
      ({['@']} * ((star (all [pop3Label, lit "."])).words * pop3Label.words)) := by
    rw [← hat, pop3Address, mul_assoc]
    simp only [all, List.foldr_cons, List.foldr_nil, words, mul_one]
  rw [hparts, mem_address, hpart, hpart]
  · constructor
    · intro h
      exact ⟨h.1, h.2.1, h.2.2⟩
    · intro h
      exact ⟨h.separated, h.user, h.host⟩
  · intro u hu
    exact words_avoid (r := seq (star (all [pop3Label, lit "."])) pop3Label) hu (by decide)
      (by decide)

end Protocols
