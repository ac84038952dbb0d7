import Protocols.Tables
import Protocols.Texts

namespace Protocols

def hostName : String := "localhost"

/-- `unordered_set<recipient>`: every recipient once. -/
structure Recipients where
  toList : List Text
  nodup : toList.Nodup
  deriving DecidableEq

def Recipients.empty : Recipients := ⟨[], List.nodup_nil⟩

def Recipients.insert (s : Recipients) (r : Text) : Recipients :=
  if h : r ∈ s.toList then s
  else ⟨s.toList ++ [r], List.nodup_append.mpr ⟨s.nodup, List.nodup_singleton r,
    fun _ ha _ hb he => h (List.mem_singleton.mp hb ▸ he ▸ ha)⟩⟩

/-- `sender` is the field `from`. -/
structure Mail where
  sender : Text := []
  recipients : Recipients := .empty
  message : List Text := []
  deriving DecidableEq

/-- The mails of a user by mailbox, and whether the mutex `transaction` is held. -/
structure Maildrop where
  mails : Table Text (List Mail) := ∅
  transaction : Bool := false
  deriving DecidableEq

structure MailStorage where
  maildrops : Table Text Maildrop := ∅
  deriving DecidableEq

def inboxName : Text := "INBOX".toList

def MailStorage.mailbox (storage : MailStorage) (user box : Text) : Option (List Mail) :=
  (storage.maildrops.lookup user).bind fun drop => drop.mails.lookup box

/-- The keys of the user's map of mailboxes, in the order of an iteration. -/
def MailStorage.mailboxNames (storage : MailStorage) (user : Text) : List Text :=
  ((storage.maildrops.lookup user).map fun drop => drop.mails.keys).getD []

/-- A missing `INBOX` has no mails. -/
def MailStorage.inbox (storage : MailStorage) (user : Text) : List Mail :=
  (storage.mailbox user inboxName).getD []

/-- Whether the mutex of the maildrop is held. -/
def MailStorage.locked (storage : MailStorage) (user : Text) : Bool :=
  ((storage.maildrops.lookup user).map Maildrop.transaction).getD false

def Maildrop.push (drop : Maildrop) (box : Text) (mail : Mail) : Maildrop :=
  { drop with mails := drop.mails.modify box [] (· ++ [mail]) }

/-- `maildrops[user].mails[box].push_back(mail)` -/
def MailStorage.push (storage : MailStorage) (user box : Text) (mail : Mail) : MailStorage :=
  ⟨storage.maildrops.modify user {} fun drop => drop.push box mail⟩

/-- The mails that `main` puts into the storage. -/
def mockData : MailStorage :=
  ((({} : MailStorage).push "liia@localhost".toList inboxName
    ⟨"test@localhost".toList, Recipients.insert .empty "test@localhost".toList,
      ["Date: today", "To: liia@localhost", "From: test@localhost", "Subject: Greetings", "",
        "Hello, from SMTP", "."].map String.toList⟩).push "liia@localhost".toList "Sent".toList {}).push
    "test@localhost".toList inboxName {}

end Protocols
