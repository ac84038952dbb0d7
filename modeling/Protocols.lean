import Protocols.TftpAgreement
import Protocols.TftpCompletion
import Protocols.TftpFailure
import Protocols.TftpServer
import Protocols.TftpDallying
import Protocols.TftpDuplicates
import Protocols.TftpSingleWriter
import Protocols.TftpRetransmission
import Protocols.SmtpDelivery
import Protocols.Pop3Lock
import Protocols.Pop3List
import Protocols.LineFraming
import Protocols.ImapList
import Protocols.ImapCompletion
import Protocols.Pop3Replies
import Protocols.SmtpReplies
import Protocols.SmtpEnvelope
import Protocols.MaildropAccess
import Protocols.MailboxSpelling
import Protocols.LocalDelivery
import Protocols.Pop3Totals
import Protocols.MultilineBodies
import Protocols.Pop3Responses
import Protocols.Pop3Transparency
import Protocols.ImapAnswers
import Protocols.FtpTransfer
import Protocols.Pop3Messages
import Protocols.Pop3Headers
import Protocols.Pop3Logins
import Protocols.ImapLogins
import Protocols.ImapSummary
import Protocols.MailboxNames
import Protocols.FtpPassive
import Protocols.ServerNumbers
import Protocols.FtpDialogue
import Protocols.FtpEnding
import Protocols.Repetitions
import Protocols.TftpWire
import Protocols.TftpPaths
import Protocols.TftpShortDatagrams
import Protocols.TftpSegmentation
import Protocols.TftpReadFailure
import Protocols.TftpTruncation
import Protocols.TftpStorage
import Protocols.TftpWellFormed
import Protocols.TftpLoopAgreement
import Protocols.WatchedLoop
import Protocols.TftpTermination
import Protocols.TftpRelay
import Protocols.TftpService
import Protocols.TftpForwarding
import Protocols.TftpServiceInvariant
import Protocols.TftpRoundTrip
import Protocols.TftpRecovery
import Protocols.Unwinding
import Protocols.MailSecrecy
import Protocols.MailFlow
import Protocols.MailPairing
import Protocols.Pop3Dialogue
import Protocols.Pop3Pairing
import Protocols.ImapCommands
import Protocols.ImapDialogue
import Protocols.ImapPairing
import Protocols.WatchedSends
import Protocols.TftpRestraint
