import Protocols.Fields
import Protocols.RegexSearch

namespace Protocols

open Regex

namespace FtpClient

inductive Command
  | ls
  | cat
  | help
  | quit
  | unknown
  deriving DecidableEq

/-- `^\s*name\s*$` -/
def inputWord (name : String) : Regex := all [bol, star space, lit name, star space, eol]

def inputCat : Regex :=
  all [bol, star space, lit "cat", plus space, group 1 (plus nonSpace), star space, eol]

def inputToCommand : List (Regex × Command) :=
  [(inputWord "ls", .ls), (inputCat, .cat), (inputWord "help", .help), (inputWord "quit", .quit),
    (all [bol, star any, eol], .unknown)]

/-- The command of the first pattern that matches, and its submatches. -/
def parseInput (input : Text) : Command × List Text :=
  (inputToCommand.findSome? fun (regex, command) =>
    (regexMatch regex input).map fun submatch => (command, submatch)).getD (.unknown, [])

/-- What the words of a line stand for. -/
def commandOf : List Text → Command
  | [word] =>
    let name := word.map Char.toLower
    if name = "ls".toList then .ls
    else if name = "help".toList then .help
    else if name = "quit".toList then .quit
    else .unknown
  | [word, _] => if word.map Char.toLower = "cat".toList then .cat else .unknown
  | _ => .unknown

section

variable {line : Text} {name : String}

theorem spaceChar_iff (c : Char) :
    spaceChar c = true ↔ c.toNat = 32 ∨ (9 ≤ c.toNat ∧ c.toNat ≤ 13) := by
  simp only [spaceChar, Char.isWhitespace, Bool.or_eq_true, decide_eq_true_eq, beq_iff_eq,
    ← Char.toNat_inj, Char.reduceToNat]
  omega

theorem spaceChar_toLower (c : Char) : spaceChar c.toLower = spaceChar c := by
  rw [Bool.eq_iff_iff, spaceChar_iff, spaceChar_iff, toNat_toLower]
  split <;> omega

/-- A spelling of a word is one. -/
theorem isField_spelling {w : Text} (hfield : IsField spaceChar name.toList)
    (hw : w.map Char.toLower = name.toList) :
    IsField spaceChar w := by
  constructor
  · rintro rfl
    exact hfield.nonempty hw.symm
  · intro c hc
    rw [← spaceChar_toLower]
    exact hfield.plain _ (hw ▸ List.mem_map_of_mem hc)

theorem plus_space_words {w : Text} :
    w ∈ (plus space).words ↔ w ≠ [] ∧ ∀ c ∈ w, spaceChar c = true :=
  mem_plus_set_words fun _ => Iff.rfl

theorem field_words {w : Text} : w ∈ (plus nonSpace).words ↔ IsField spaceChar w := by
  rw [mem_plus_set_words fun _ => nonSpace_words]
  exact ⟨fun h => ⟨h.1, h.2⟩, fun h => ⟨h.nonempty, h.plain⟩⟩

theorem inputWord_iff (hname : name.toList.map Char.toLower = name.toList)
    (hfield : IsField spaceChar name.toList) :
    (regexMatch (inputWord name) line).isSome = true ↔
      ∃ w, fields spaceChar line = [w] ∧ w.map Char.toLower = name.toList := by
  have hplain : ∀ r ∈ [star space, lit name, star space], r.Unanchored = true := by
    simp [lit_unanchored, space, Unanchored]
  refine (regexMatch_line_iff [star space, lit name, star space] hplain).trans ?_
  simp only [all_cons, mem_seq_words, star_space_words, mem_lit_words, hname, fields_eq_one]
  constructor
  · rintro ⟨before, hbefore, _, ⟨w, hw, _, ⟨after, hafter, _, hnil, rfl⟩, rfl⟩, rfl⟩
    rw [(Language.mem_one _).mp hnil, List.append_nil]
    exact ⟨w, ⟨before, after, rfl, hbefore, isField_spelling hfield hw, hafter⟩, hw⟩
  · rintro ⟨w, ⟨before, after, rfl, hbefore, _, hafter⟩, hw⟩
    exact ⟨before, hbefore, _, ⟨w, hw, _, ⟨after, hafter, [], (Language.mem_one _).mpr rfl,
      List.append_nil after⟩, rfl⟩, rfl⟩

theorem cat_isField : IsField spaceChar "cat".toList := ⟨by decide, by simp [spaceChar]⟩

/-- What the pattern captures is the second word. -/
theorem inputCat_some {submatch : List Text} (h : regexMatch inputCat line = some submatch) :
    ∃ w file, fields spaceChar line = [w, file] ∧ w.map Char.toLower = "cat".toList ∧
      submatch = [line, file] := by
  obtain ⟨ws, hws, hline, hsubmatch⟩ := regexMatch_line_some
    [star space, lit "cat", plus space, group 1 (plus nonSpace), star space] (by decide) h
  obtain _ | ⟨hbefore, _ | ⟨hw, _ | ⟨hbetween, _ | ⟨hfile, _ | ⟨hafter, ⟨⟩⟩⟩⟩⟩⟩ := hws
  rename_i before w between file after
  rw [mem_lit_words] at hw
  obtain ⟨hne, hbetween⟩ := plus_space_words.mp hbetween
  refine ⟨w, file, fields_eq_two.mpr ⟨before, between, after, by simpa using hline,
    star_space_words.mp hbefore, isField_spelling cat_isField hw, hne, hbetween,
    field_words.mp hfile, star_space_words.mp hafter⟩, hw, ?_⟩
  rw [hsubmatch]
  rfl

theorem inputCat_isSome {w file : Text} (h : fields spaceChar line = [w, file])
    (hw : w.map Char.toLower = "cat".toList) : (regexMatch inputCat line).isSome = true := by
  obtain ⟨before, between, after, rfl, hbefore, _, hne, hbetween, hfile, hafter⟩ :=
    fields_eq_two.mp h
  refine (regexMatch_line_iff
    [star space, lit "cat", plus space, group 1 (plus nonSpace), star space] (by decide)).mpr ?_
  simp only [all_cons, mem_seq_words]
  exact ⟨before, star_space_words.mpr hbefore, _, ⟨w, mem_lit_words.mpr hw, _,
    ⟨between, plus_space_words.mpr ⟨hne, hbetween⟩, _, ⟨file, field_words.mpr hfile, _,
      ⟨after, star_space_words.mpr hafter, [], (Language.mem_one _).mpr rfl,
        List.append_nil after⟩, rfl⟩, rfl⟩, rfl⟩, rfl⟩

theorem name_isField : IsField spaceChar "ls".toList ∧ IsField spaceChar "help".toList ∧
    IsField spaceChar "quit".toList := by
  refine ⟨⟨?_, ?_⟩, ⟨?_, ?_⟩, ⟨?_, ?_⟩⟩ <;> simp [spaceChar]

theorem inputWord_none (hname : name.toList.map Char.toLower = name.toList)
    (hfield : IsField spaceChar name.toList) (h : regexMatch (inputWord name) line = none) {w : Text}
    (hw : fields spaceChar line = [w]) : w.map Char.toLower ≠ name.toList := by
  intro he
  have hsome := (inputWord_iff hname hfield).mpr ⟨w, hw, he⟩
  rw [h] at hsome
  cases hsome

/-- The patterns in their order tell the command that the words of the line stand for. -/
theorem parseInput_command (line : Text) :
    (parseInput line).1 = commandOf (fields spaceChar line) := by
  obtain ⟨lsField, helpField, quitField⟩ := name_isField
  rcases hls : regexMatch (inputWord "ls") line with _ | submatch
  · rcases hcat : regexMatch inputCat line with _ | submatch
    · rcases hhelp : regexMatch (inputWord "help") line with _ | submatch
      · rcases hquit : regexMatch (inputWord "quit") line with _ | submatch
        · have hunknown : (parseInput line).1 = .unknown := by
            rcases hany : regexMatch (all [bol, star any, eol]) line with _ | submatch <;>
              simp [parseInput, inputToCommand, hls, hcat, hhelp, hquit, hany]
          rw [hunknown]
          rcases hwords : fields spaceChar line with _ | ⟨w, _ | ⟨file, _ | ⟨v, ws⟩⟩⟩
          · rfl
          · have h₁ := inputWord_none (by decide) lsField hls hwords
            have h₂ := inputWord_none (by decide) helpField hhelp hwords
            have h₃ := inputWord_none (by decide) quitField hquit hwords
            simp only [commandOf, if_neg h₁, if_neg h₂, if_neg h₃]
          · have hw : w.map Char.toLower ≠ "cat".toList := by
              intro hw
              have hsome := inputCat_isSome hwords hw
              rw [hcat] at hsome
              cases hsome
            simp only [commandOf, if_neg hw]
          · rfl
        · obtain ⟨w, hwords, hw⟩ := (inputWord_iff (by decide) quitField).mp (by rw [hquit]; rfl)
          simp [parseInput, inputToCommand, hls, hcat, hhelp, hquit, hwords, hw, commandOf]
      · obtain ⟨w, hwords, hw⟩ := (inputWord_iff (by decide) helpField).mp (by rw [hhelp]; rfl)
        simp [parseInput, inputToCommand, hls, hcat, hhelp, hwords, hw, commandOf]
    · obtain ⟨w, file, hwords, hw, _⟩ := inputCat_some hcat
      simp [parseInput, inputToCommand, hls, hcat, hwords, hw, commandOf]
  · obtain ⟨w, hwords, hw⟩ := (inputWord_iff (by decide) lsField).mp (by rw [hls]; rfl)
    simp [parseInput, inputToCommand, hls, hwords, hw, commandOf]

theorem commandOf_cat {words : List Text} (h : commandOf words = .cat) :
    ∃ w file, words = [w, file] ∧ w.map Char.toLower = "cat".toList := by
  rcases words with _ | ⟨w, _ | ⟨file, _ | ⟨v, ws⟩⟩⟩
  · cases h
  · simp only [commandOf] at h
    split_ifs at h
  · refine ⟨w, file, rfl, ?_⟩
    simp only [commandOf] at h
    split_ifs at h with hw
    exact hw
  · cases h

/-- The submatch of a `cat` is its second word. -/
theorem parseInput_file (h : commandOf (fields spaceChar line) = .cat) :
    str (parseInput line).2 1 = (fields spaceChar line).getD 1 [] := by
  obtain ⟨w, file, hwords, hw⟩ := commandOf_cat h
  obtain ⟨submatch, hcat⟩ := Option.isSome_iff_exists.mp (inputCat_isSome hwords hw)
  have hls : regexMatch (inputWord "ls") line = none := by
    rw [← Option.not_isSome_iff_eq_none, inputWord_iff (by decide) name_isField.1]
    rintro ⟨w', hwords', _⟩
    rw [hwords] at hwords'
    cases hwords'
  obtain ⟨w', file', hwords', _, rfl⟩ := inputCat_some hcat
  rw [hwords] at hwords' ⊢
  cases hwords'
  simp [parseInput, inputToCommand, hls, hcat, str]

end

end FtpClient

end Protocols
