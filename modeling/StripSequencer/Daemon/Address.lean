/-!
# `StripSequencer.Daemon.Address` — addresses to listen at

An address is a host and the number of an endpoint, with a colon between them. A host that has colons
itself stands in brackets.

## Contents
- `splitAddress`: the host and the endpoint.
- `checkAddress`: whether one can listen at an address, with `AddressError`.
-/

namespace StripSequencer.Daemon

/-- What is wrong with an address. -/
inductive AddressError where
  | missingEndpoint (address : String)
  | tooManyColons (address : String)
  | unclosed (address : String)
  | unexpectedOpen (address : String)
  | unexpectedClose (address : String)
  | endpointOutOfRange (endpoint : String)
  | unknownEndpoint (endpoint : String)
deriving DecidableEq, Repr

/-- The words for what is wrong with an address. -/
def AddressError.message : AddressError → String
  | .missingEndpoint a => "listen tcp: address " ++ a ++ ": missing port in address"
  | .tooManyColons a => "listen tcp: address " ++ a ++ ": too many colons in address"
  | .unclosed a => "listen tcp: address " ++ a ++ ": missing ']' in address"
  | .unexpectedOpen a => "listen tcp: address " ++ a ++ ": unexpected '[' in address"
  | .unexpectedClose a => "listen tcp: address " ++ a ++ ": unexpected ']' in address"
  | .endpointOutOfRange endpoint => "listen tcp: address " ++ endpoint ++ ": invalid port"
  | .unknownEndpoint endpoint => "listen tcp: lookup tcp/" ++ endpoint ++ ": unknown port"

/-- Splits what follows a bracketed host. -/
def splitBracketed (address : String) (body : List Char) : Except AddressError (String × String) :=
  match body.dropWhile (· ≠ ']') with
  | [] => .error (.unclosed address)
  | _ :: ':' :: endpoint =>
    if endpoint.contains ':' then .error (.tooManyColons address)
    else if body.contains '[' then .error (.unexpectedOpen address)
    else if endpoint.contains ']' then .error (.unexpectedClose address)
    else .ok (String.ofList (body.takeWhile (· ≠ ']')), String.ofList endpoint)
  | _ => .error (.missingEndpoint address)

/-- The host and the endpoint of an address. -/
def splitAddress (address : String) : Except AddressError (String × String) :=
  let cs := address.toList
  if !cs.contains ':' then .error (.missingEndpoint address)
  else
    match cs with
    | '[' :: body => splitBracketed address body
    | _ =>
      match cs.dropWhile (· ≠ ':') with
      | [] => .error (.missingEndpoint address)
      | _ :: endpoint =>
        if endpoint.contains ':' then .error (.tooManyColons address)
        else if cs.contains '[' then .error (.unexpectedOpen address)
        else if cs.contains ']' then .error (.unexpectedClose address)
        else .ok (String.ofList (cs.takeWhile (· ≠ ':')), String.ofList endpoint)

/-- Accepts an endpoint: a number of at most 16 bits. An empty one means any. -/
def checkEndpoint (endpoint : String) : Except AddressError Unit :=
  let (negative, digits) := match endpoint.toList with
    | '-' :: digits => (true, digits)
    | '+' :: digits => (false, digits)
    | digits => (false, digits)
  if !digits.all Char.isDigit then .error (.unknownEndpoint endpoint)
  else
    let value := digits.foldl (fun n c => n * 10 + (c.toNat - '0'.toNat)) 0
    if 65535 < value ∨ (negative ∧ 0 < value) then .error (.endpointOutOfRange endpoint) else .ok ()

/-- Accepts an address that one can listen at. -/
def checkAddress (address : String) : Except AddressError Unit := do
  checkEndpoint (← splitAddress address).2

end StripSequencer.Daemon
