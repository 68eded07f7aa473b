import StripSequencer.Control.Options
import StripSequencer.Service

/-!
# `StripSequencer.Control.Link` — how the control tool reaches a sequencer

A link leads to a service, or nowhere. Failures are told in the words of the transport: the Connect protocol
or gRPC.
-/

namespace StripSequencer.Control

/-- A way to a sequencer. -/
inductive Link where
  | connected (service : Service)
  | unreachable

/-- Why a request is not answered. -/
inductive LinkError where
  | unreachable (address : String)
  | timedOut
  | refused (error : Service.Error)
deriving DecidableEq, Repr

/-- The address without a scheme in front of it and a path behind it. -/
def hostOf (address : String) : String :=
  let host :=
    match address.splitOn "://" with
    | _ :: rest :: _ => rest
    | _ => address
  (host.splitOn "/").headD ""

/-- The words for a connection that cannot be made. -/
def dialText (address : String) : String :=
  "dial tcp " ++ hostOf address ++ ": connect: network is unreachable"

/-- The words of the Connect protocol. -/
def LinkError.connectMessage : LinkError → String
  | .unreachable address => "unavailable: " ++ dialText address
  | .timedOut => "deadline_exceeded: context deadline exceeded"
  | .refused e =>
    let code := match e.code with
      | .invalidArgument => "invalid_argument"
      | .internal => "internal"
    code ++ ": " ++ e.failure.message

/-- The words of gRPC. -/
def LinkError.grpcMessage (e : LinkError) : String :=
  let (code, text) := match e with
    | .unreachable address =>
      ("Unavailable", "connection error: desc = \"transport: Error while dialing: " ++ dialText address ++ "\"")
    | .timedOut => ("DeadlineExceeded", "context deadline exceeded")
    | .refused e =>
      ((match e.code with
        | .invalidArgument => "InvalidArgument"
        | .internal => "Internal"), e.failure.message)
  "rpc error: code = " ++ code ++ " desc = " ++ text

/-- The words for a failed request, as the options choose the transport. -/
def LinkError.message (o : Options) (e : LinkError) : String :=
  if o.grpc then e.grpcMessage else e.connectMessage

end StripSequencer.Control
