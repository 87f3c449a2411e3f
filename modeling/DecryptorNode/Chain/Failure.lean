import DecryptorNode.Chain.Address

/-! What can go wrong between the node and the chain. -/
namespace DecryptorNode.Chain

/-- The parts of a log's position. -/
inductive LogField where
  | blockNumber : LogField
  | logIndex : LogField
  deriving DecidableEq, Repr

def LogField.label : LogField → String
  | .blockNumber => "block number"
  | .logIndex => "log index"

inductive ChainError where
  | contractCall : ChainError
  | connectionFailed : Nat → ChainError
  | getLogs : String → ChainError
  | getBlockNumber : String → ChainError
  | decodeEvent : Address → Nat → ChainError
  | incompleteLog : Address → LogField → ChainError
  | timeout : String → Nat → ChainError
  | channelClosed : ChainError
  | cancelled : ChainError
  deriving DecidableEq

def thousandths (n : Nat) : String :=
  let digits := [n / 100 % 10, n / 10 % 10, n % 10]
  let kept := (digits.reverse.dropWhile (· = 0)).reverse
  String.join (kept.map toString)

/-- A time of so many milliseconds: whole or broken seconds from one second on, else
milliseconds; no time at all is written in the smallest unit. -/
def durationText (milliseconds : Nat) : String :=
  if milliseconds = 0 then "0ns"
  else if milliseconds < 1000 then toString milliseconds ++ "ms"
  else if milliseconds % 1000 = 0 then toString (milliseconds / 1000) ++ "s"
  else toString (milliseconds / 1000) ++ "." ++ thousandths (milliseconds % 1000) ++ "s"

namespace ChainError

def message : ChainError → String
  | .contractCall => "Contract call AddrsSeq::getAddrs failed"
  | .connectionFailed attempts =>
    "RPC connection failed after trying " ++ toString attempts ++ " endpoint(s)"
  | .getLogs reason => "Failed to get logs: " ++ reason
  | .getBlockNumber reason => "Failed to get block number: " ++ reason
  | .decodeEvent contract block =>
    "Failed to decode event from " ++ contract.text ++ " in block " ++ toString block
  | .incompleteLog contract field =>
    "Log from " ++ contract.text ++ " is missing " ++ field.label
  | .timeout operation milliseconds =>
    operation ++ " timed out after " ++ durationText milliseconds
  | .channelClosed => "Event channel closed"
  | .cancelled => "Cancelled"

end ChainError
end DecryptorNode.Chain
