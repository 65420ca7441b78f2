import LogServer.Ipv4

/-!
# Shared types of the parser
-/

namespace LogServer

/-! ## Reason codes -/

def NO_MATCH : Text := "no_match".toList
def NO_NAT : Text := "no_nat".toList
def DECODE : Text := "decode".toList

/-- One normalised NAT or firewall event. -/
structure ParsedLog where
  privateIp : Text
  privatePort : Nat
  publicIp : Text
  publicPort : Nat
  destIp : Text
  destPort : Nat
  protocol : Text
  subscriberId : Text
deriving DecidableEq, Repr

inductive Cell where
  | int (n : Nat)
  | str (t : Text)
  | none
deriving DecidableEq, Repr

/-- The row of an event: arrival second, source address and the fields, by position. -/
def ParsedLog.asRow (log : ParsedLog) (ts : Nat) (routerIp : Text) : List Cell :=
  [.int ts, .str routerIp, .str log.subscriberId, .str log.privateIp, .int log.privatePort,
    .str log.publicIp, .int log.publicPort, .str log.destIp, .int log.destPort,
    .str log.protocol, .none]

end LogServer
