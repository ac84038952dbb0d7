import Protocols.MaildropAccess
import Protocols.Pop3List
import Mathlib.Algebra.GroupWithZero.Nat

namespace Protocols

open Relation Regex

/-- The sizes on the scan lines. -/
def scanSizes (mails : List Mail) : List Nat := mails.map fun mail => getMessageSize mail.message

/-- The +OK line of a LIST that announces so many messages, and so many octets. -/
def announcement (count total : Nat) : Text :=
  format "+OK {} messages ({} octets)".toList [decimal count, decimal total]

def listRequest (n : Nat) : Text := "list ".toList ++ decimal n

/-- A session in the transaction state, which waits for a request, and the mails of its user. -/
structure Lists (storage : MailStorage) (s : Pop3Session) (mails : List Mail) : Prop where
  reading : s.control = .reading
  transaction : s.state = .transaction
  mailbox : storage.mailbox s.user inboxName = some mails

/-- Where no mail comes while it is answered, LIST announces the sum of the sizes on its scan lines,
and LIST with a number tells of the size on the scan line of the number. -/
structure TotalsAddUp (mails : List Mail) : Prop where
  announced : ∀ n s line c d answer, ListAnswered n s line c d answer →
    c.store.mailbox s.user inboxName = some mails → d.store.inbox s.user = mails →
    answer = .listed s.user (announcement mails.length (scanSizes mails).sum) ::
      (scanLines s.user mails ++ [.sent listEnd])
  reported : ∀ storage s, Lists storage s mails → ∀ n mail, 1 ≤ n → mails[n - 1]? = some mail →
    ∃ storage' t, pop3Resume storage s (.line (listRequest n)) =
      some (storage', t, [.heard (listRequest n), .listed s.user (listOne n mail)])

theorem decimalInt_eq_decimal {i : Int} {n : Nat} (h : decimalInt i = decimal n) : i = n := by
  unfold decimalInt at h
  split at h
  next =>
    have hminus : '-'.isDigit = true := digit_decimal (n := n) (by rw [← h]; simp)
    cases hminus
  next hi =>
    have := decimal_injective h
    omega

/-- The sum of the sizes, as an `int` holds it. -/
theorem octets_eq (mails : List Mail) :
    octets mails = ((scanSizes mails).sum : Int).bmod (2 ^ 32) := by
  have hfold : ∀ (mails : List Mail) (acc : Int),
      mails.foldl (fun (acc : Int) mail => (acc + getMessageSize mail.message).bmod (2 ^ 32))
        (acc.bmod (2 ^ 32)) = (acc + (scanSizes mails).sum).bmod (2 ^ 32) := by
    intro mails
    induction mails with
    | nil =>
      intro acc
      simp [scanSizes]
    | cons mail mails ih =>
      intro acc
      rw [List.foldl_cons, Int.bmod_add_bmod, ih]
      congr 1
      simp only [scanSizes, List.map_cons, List.sum_cons]
      push_cast
      omega
  have hstart := hfold mails 0
  rw [Int.zero_add] at hstart
  exact hstart

theorem octets_exact_iff (mails : List Mail) :
    octets mails = (scanSizes mails).sum ↔ (scanSizes mails).sum < 2 ^ 31 := by
  rw [octets_eq, Int.bmod_def]
  split
  next => omega
  next => omega

theorem listOk_eq (mails : List Mail) : listOk mails = "+OK ".toList ++ (decimal mails.length ++
    (" messages (".toList ++ (decimalInt (octets mails) ++ " octets)".toList))) := by
  rfl

theorem announcement_eq (count total : Nat) : announcement count total = "+OK ".toList ++
    (decimal count ++ (" messages (".toList ++ (decimal total ++ " octets)".toList))) := by
  rfl

/-- The right number of octets is announced if and only if it fits into an `int`. -/
theorem announced_iff (mails : List Mail) :
    listOk mails = announcement mails.length (scanSizes mails).sum ↔
      (scanSizes mails).sum < 2 ^ 31 := by
  rw [← octets_exact_iff, listOk_eq, announcement_eq]
  simp only [List.append_cancel_left_eq, List.append_cancel_right_eq]
  constructor
  · intro h
    exact decimalInt_eq_decimal h
  · intro h
    rw [h]
    rfl

/-- The optional number of LIST. -/
def listNumber : Regex := opt (all [lit " ", group 1 (plus (range '0' '9'))])

theorem listNumber_run {length : Nat} {number : Text} {caps : Captures}
    (h : ([], caps) ∈ listNumber.run length (' ' :: number)) : caps = [(1, number)] := by
  rcases List.mem_append.mp h with h | h
  · obtain ⟨p, hp, q, hq, he⟩ := mem_run_seq h
    obtain ⟨p', hp', q', hq', rfl⟩ := mem_run_seq hq
    cases List.mem_singleton.mp hq'
    obtain ⟨blank, hblank, hs⟩ := matches_words (run_matches hp) (lit_unanchored " ")
    obtain ⟨w, _, hs', hcaps⟩ := mem_run_group (by decide) rfl hp'
    have hnothing := run_captures_nothing (lit_groupNumbers " ") hp
    rw [(mem_lit_char_words (d := ' ') rfl (by decide)).mp hblank] at hs
    obtain ⟨hend, hcaptured⟩ := Prod.mk.inj he
    have hnumber : number = w := by
      rw [hs', ← hend, List.append_nil] at hs
      exact (List.cons.inj hs).2
    rw [hcaptured, hnothing, hcaps, hnumber]
    rfl
  · cases List.mem_singleton.mp h

theorem list_parsed_number (n : Nat) :
    pop3ParseRequest (listRequest n) = (.list, [listRequest n, decimal n]) := by
  have hmatches : Matches (listRequest n).length listNumber (' ' :: decimal n) [] := by
    have hnumber : Matches (listRequest n).length (plus (range '0' '9')) (decimal n) [] :=
      words_matches_whole (number_words n) (by decide)
    exact .left (.seq (words_matches (w := [' ']) (mem_lit_words.mpr rfl) (lit_unanchored _) _)
      (.seq (.group hnumber) .empty))
  obtain ⟨caps, hfind⟩ := find_isSome hmatches
  have hcaps := listNumber_run (List.mem_of_find?_eq_some hfind)
  have hline : ((all [bol, lit "list", listNumber, eol]).run (listRequest n).length
      (listRequest n)).find? (fun p => p.1.isEmpty) = some ([], caps) :=
    (find_line_append listNumber (show "list".toList.map Char.toLower = _ from rfl)).trans hfind
  have hmatch : regexMatch (all [bol, lit "list", listNumber, eol]) (listRequest n) =
      some [listRequest n, decimal n] := by
    rw [regexMatch, hline, hcaps]
    rfl
  have hsplit : pop3CommandParser =
      pop3CommandParser.take 2 ++ (_, .list) :: pop3CommandParser.drop 3 := rfl
  rw [pop3ParseRequest, hsplit]
  refine firstMatch_first (fun p hp => ?_) hmatch
  have hword : (listRequest n).take 5 = "list ".toList := rfl
  rcases List.mem_pair.mp hp with rfl | rfl
  · exact regexMatch_line_none (by rw [show "user ".toList.length = 5 from rfl, hword]; decide)
  · exact regexMatch_line_none (by rw [show "pass ".toList.length = 5 from rfl, hword]; decide)

section

variable {storage : MailStorage} {s : Pop3Session} {mails : List Mail}

theorem index_mailbox (h : Lists storage s mails) :
    (storage.index s.user).mailbox s.user inboxName = some mails := by
  have hkeeps : KeepsMails storage (storage.index s.user) := keepsMails_modify fun _ => rfl
  rw [hkeeps s.user inboxName]
  exact h.mailbox

theorem list_number (h : Lists storage s mails) {n : Nat} (hn : n < 2 ^ 31) {mail : Mail}
    (hpos : 1 ≤ n) (hmail : mails[n - 1]? = some mail) (hlen : mails.length < 2 ^ 31) :
    s.list storage [listRequest n, decimal n] = s.tell (storage.index s.user) (listOne n mail)
      (.next .transaction) := by
  have hargument : str [listRequest n, decimal n] 1 = decimal n := rfl
  have hne := decimal_ne_nil n
  have hle := (List.getElem?_eq_some_iff.mp hmail).1
  have hrange : ¬ (n < 1 ∨ mails.length % 2 ^ 32 < n) := by omega
  simp only [Pop3Session.list, index_mailbox h, hargument, ne_eq, hne, not_false_eq_true, if_true,
    stoi_decimal, if_pos hn, if_neg hrange, hmail, Option.getD_some]

/-- A number that does not fit into an `int` ends the session. -/
theorem list_number_out_of_range (h : Lists storage s mails) {n : Nat} (hn : ¬ n < 2 ^ 31) :
    s.list storage [listRequest n, decimal n] = s.finish (storage.index s.user) := by
  have hargument : str [listRequest n, decimal n] 1 = decimal n := rfl
  have hne := decimal_ne_nil n
  simp only [Pop3Session.list, index_mailbox h, hargument, ne_eq, hne, not_false_eq_true, if_true,
    stoi_decimal, if_neg hn]

theorem list_heard (h : Lists storage s mails) (n : Nat) :
    pop3Resume storage s (.line (listRequest n)) =
      some ((s.list storage [listRequest n, decimal n]).1,
        (s.list storage [listRequest n, decimal n]).2.1,
        .heard (listRequest n) :: (s.list storage [listRequest n, decimal n]).2.2) := by
  simp only [pop3Resume, h.reading, Pop3Session.request, list_parsed_number, h.transaction,
    Pop3Session.transaction]

theorem scanLines_drop {user : Text} {i : Nat} {mail : Mail} (hm : mails[i]? = some mail) :
    (scanLines user mails).drop i =
      .listed user (listEntry i mail) :: (scanLines user mails).drop (i + 1) := by
  obtain ⟨hi, hget⟩ := List.getElem?_eq_some_iff.mp hm
  have hlen : i < (scanLines user mails).length := by simpa [scanLines] using hi
  rw [List.drop_eq_getElem_cons hlen]
  congr 1
  simp [scanLines, hget]

/-- Where nothing else happens, all of the mailbox is told of. -/
theorem scan_completes {n i : Nat} {c : MailConfig} (hf : c.Free mailServer n)
    (hn : c.threads n = some (.pop3 s)) (hc : s.control = .writing (.scan i))
    (hm : c.store.mailbox s.user inboxName = some mails)
    (hi : i ≤ mails.length) : ∃ c' d, ReflTransGen MailStep c c' ∧ MailStep c' d ∧
      c'.logOf n ≠ d.logOf n ∧ d.store = c.store ∧
      d.logOf n = c.logOf n ++ ((scanLines s.user mails).drop i ++ [.sent listEnd]) := by
  obtain ⟨k, hk⟩ : ∃ k, mails.length - i = k := ⟨_, rfl⟩
  induction k generalizing i c s with
  | zero =>
    have hnone : mails[i]? = none := List.getElem?_eq_none (by omega)
    have hr : mailServer.resume c.store (.pop3 s) .written = some (c.store,
        .pop3 { s with control := .writing (.next .transaction) }, [.sent listEnd]) := by
      simp [mailServer, mailResume, pop3Resume, hc, Pop3Session.replied, Pop3Session.scan, hm,
        hnone, Pop3Session.reply]
    obtain ⟨d, hd, _, hstore, hlog⟩ := resumed_some hn hr
    have hdrop : (scanLines s.user mails).drop i = [] := by
      apply List.drop_eq_nil_of_le
      simp [scanLines]
      omega
    refine ⟨c, d, .refl, resumed_step hd hf, ?_, hstore, ?_⟩
    · rw [hlog]
      simp
    · rw [hlog, hdrop]
      rfl
  | succ k ih =>
    have hlt : i < mails.length := by omega
    have hmail : mails[i]? = some mails[i] := List.getElem?_eq_getElem hlt
    have hr : mailServer.resume c.store (.pop3 s) .written = some (c.store,
        .pop3 { s with control := .writing (.scan (i + 1)) },
        [.listed s.user (listEntry i mails[i])]) := by
      simp [mailServer, mailResume, pop3Resume, hc, Pop3Session.replied, Pop3Session.scan, hm,
        hmail, Pop3Session.tell]
    obtain ⟨c₁, hc₁, hn₁, hstore, hlog⟩ := resumed_some hn hr
    have hf₁ : c₁.Free mailServer n := resumed_free hc₁ hf (by simp [Config.lets])
    obtain ⟨c', d, run, hlast, hnew, hd, hdlog⟩ :=
      ih hf₁ hn₁ rfl (by rw [hstore]; exact hm) hlt (by omega)
    refine ⟨c', d, .head (resumed_step hc₁ hf) run, hlast, hnew, hd.trans hstore, ?_⟩
    rw [hdlog, hlog, scanLines_drop hmail]
    simp

end

/-- A maildrop of one user, with the given mails in its inbox. -/
def holding (mails : List Mail) : MailStorage :=
  ⟨(∅ : Table Text Maildrop).insert liia { mails := (∅ : Table Text (List Mail)).insert inboxName mails }⟩

theorem holding_lists (mails : List Mail) : Lists (holding mails) loggedIn mails := by
  refine ⟨rfl, rfl, ?_⟩
  simp only [MailStorage.mailbox, holding, loggedIn, AList.lookup_insert, Option.bind_some]

/-- Whatever the mails are, there is a run in which LIST is answered with no mail coming. -/
theorem quiet_list (mails : List Mail) : ∃ c d,
    ListAnswered 0 loggedIn "list".toList c d (listAnswer loggedIn.user mails) ∧
    c.store.mailbox loggedIn.user inboxName = some mails ∧ d.store.inbox loggedIn.user = mails := by
  have h := holding_lists mails
  have hr : mailServer.resume (holding mails) (.pop3 loggedIn) (.line "list".toList) =
      some ((holding mails).index loggedIn.user,
        .pop3 { loggedIn with control := .writing (.scan 0) },
        [.heard "list".toList, .listed loggedIn.user (listOk mails)]) := by
    have hlist : loggedIn.list (holding mails) ["list".toList, []] =
        loggedIn.tell ((holding mails).index loggedIn.user) (listOk mails) (.scan 0) := by
      simp only [Pop3Session.list, index_mailbox h]
      rfl
    simp only [mailServer, mailResume, pop3Resume, h.reading, Pop3Session.request, list_parsed,
      h.transaction, Pop3Session.transaction, hlist]
    rfl
  obtain ⟨c, hf, hn, hc⟩ : ∃ c : MailConfig, c.Free mailServer 0 ∧
      c.threads 0 = some (.pop3 loggedIn) ∧ c.store = holding mails := by
    refine ⟨⟨holding mails, fun _ => some (.pop3 loggedIn), []⟩, fun k l _ hk => ?_, rfl, rfl⟩
    cases Option.some.inj hk
    rfl
  rw [← hc] at hr h
  obtain ⟨c₁, hc₁, hn₁, hstore, hlog⟩ := resumed_some hn hr
  have hmailbox : c₁.store.mailbox loggedIn.user inboxName = some mails := by
    rw [hstore]
    exact index_mailbox h
  have hf₁ : c₁.Free mailServer 0 := resumed_free hc₁ hf (by simp [Config.lets])
  obtain ⟨c₂, d, run, hlast, hnew, hd, hdlog⟩ := scan_completes hf₁ hn₁ rfl hmailbox (Nat.zero_le _)
  have hlines : .sent listEnd ∉ scanLines loggedIn.user mails := by
    simp [scanLines]
  refine ⟨c, d, ⟨hn, rfl, rfl, ⟨_, list_parsed, rfl⟩,
    ⟨c₁, c₂, _, resumed_step hc₁ hf, hlog, run, hlast, hnew⟩, ?_, ?_, ?_⟩, h.mailbox, ?_⟩
  · rw [hdlog, hlog]
    simp [listAnswer]
  · simp [listAnswer, List.getLast?_cons, List.getLast?_append]
  · rw [listAnswer, ← List.cons_append, List.dropLast_concat]
    simp [hlines]
  · rw [MailStorage.inbox, hd, hmailbox]
    rfl

/-- The totals add up if and only if their number of octets and their number fit into an `int`. -/
theorem totals_add_up_iff (mails : List Mail) :
    TotalsAddUp mails ↔ (scanSizes mails).sum < 2 ^ 31 ∧ mails.length < 2 ^ 31 := by
  constructor
  · intro h
    constructor
    · obtain ⟨c, d, hanswered, hc, hd⟩ := quiet_list mails
      have hanswer := h.announced _ _ _ _ _ _ hanswered hc hd
      rw [listAnswer, List.cons.injEq, SessionEvent.listed.injEq] at hanswer
      exact (announced_iff mails).mp hanswer.1.2
    · by_contra hlen
      have hmail : mails[mails.length - 1]? = some mails[mails.length - 1] :=
        List.getElem?_eq_getElem _
      obtain ⟨storage', t, hresume⟩ := h.reported (holding mails) loggedIn (holding_lists mails)
        mails.length _ (by omega) hmail
      rw [list_heard (holding_lists mails), list_number_out_of_range (holding_lists mails) hlen,
        Option.some.injEq, Prod.mk.injEq, Prod.mk.injEq, List.cons.injEq] at hresume
      cases hresume.2.2.2
  · intro h
    obtain ⟨hsum, hlen⟩ := h
    constructor
    · intro n s line c d answer hanswered hc hd
      obtain ⟨hanswer, _⟩ := list_answer hanswered
      have hinbox : c.store.inbox s.user = mails := by rw [MailStorage.inbox, hc, Option.getD_some]
      rw [hanswer, hinbox, hd, (announced_iff mails).mpr hsum]
    · intro storage s hs n mail hpos hmail
      have hn := (List.getElem?_eq_some_iff.mp hmail).1
      rw [list_heard hs, list_number hs (by omega) hpos hmail hlen]
      exact ⟨_, _, rfl⟩

theorem totals_wrap {line : Text} (h : line.length = 2 ^ 31) :
    ¬ TotalsAddUp [{ message := [line] }] := by
  intro hadd
  have hsizes : scanSizes [{ message := [line] }] = [2 ^ 31] := by
    simp [scanSizes, getMessageSize, h]
  obtain ⟨c, d, hanswered, hc, hd⟩ := quiet_list [{ message := [line] }]
  have hanswer := hadd.announced _ _ _ _ _ _ hanswered hc hd
  rw [listAnswer, List.cons.injEq, SessionEvent.listed.injEq] at hanswer
  have hfits := (announced_iff _).mp hanswer.1.2
  rw [hsizes] at hfits
  simp at hfits

/-- One mail of 2 GiB. -/
theorem totals_do_not_add_up : ¬ TotalsAddUp [{ message := [List.replicate (2 ^ 31) 'a'] }] :=
  totals_wrap List.length_replicate

end Protocols
