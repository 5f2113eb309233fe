import Hmux.Protocol.Types

namespace Hmux.Protocol

/-!
# Actions and their answers

A response carries no operation, so the Gateway remembers with every request what kind of
answer it may get (`ResponseContext`) and checks each response against it
(`responseMatches`).

The context is what makes an answer of the wrong type an error and not a surprise: a request for a
list of profiles is never resolved by a conversation, whatever Home sends under its id.
-/

/-- Which transport a connection negotiated. -/
inductive Negotiated
  | jsonV1
  | protobufV2
  deriving DecidableEq, Repr

/-- What an answer belongs to. -/
inductive ResponseContext
  | operation (op : Pb.Operation)
  | terminalOpen
  | empty
  | upload
  deriving DecidableEq

/-- The result type fits the context, for an answer without an error. -/
def resultMatches : ResponseContext → Option Pb.ResponseResult → Bool
  | .operation .profiles, some (.profiles _) => true
  | .operation .create, some (.created _) => true
  | .operation .«alias», some (.ok _) => true
  | .operation .hidden, some (.ok _) => true
  | .operation .conversation, some (.conversation _) => true
  | .operation .workspace, some (.workspace _) => true
  | .operation .providers, some (.providers _) => true
  | .operation .providerKey, some (.providers _) => true
  | .operation .providerJobStart, some (.providers _) => true
  | .operation .providerJob, some (.providers _) => true
  | .operation .providerJobInput, some (.providers _) => true
  | .operation .providerJobCancel, some (.providers _) => true
  | .terminalOpen, some (.ok _) => true
  | .empty, none => true
  | .upload, some (.staged _) => true
  | _, _ => false

/-- `response_matches`: an error comes without a result, a success with the result of its
    context. -/
def responseMatches (v : Pb.Response) (context : ResponseContext) : Bool :=
  if v.error ≠ "" then v.result.isNone else resultMatches context v.result

end Hmux.Protocol
