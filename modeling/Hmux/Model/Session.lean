import Hmux.Lib.Text

namespace Hmux

/-!
# Session identities

The identity of a tmux session as every crate of the repository carries it: the tmux id
(`$` and decimal digits) together with the creation time, since tmux reuses ids after a
restart.

An identity is therefore that of one life of a session: the same tmux id with another creation time
is another session, and every map of the repository that is keyed by sessions is keyed by both.
-/

/-- A tmux session id and the creation time of the session that held it. -/
structure SessionIdentity where
  id : String
  createdAt : Int64
  deriving DecidableEq, Repr, Inhabited

/-- `validate_session_id(id).is_ok()`: a dollar sign and one to twelve digits. -/
def validateSessionId (id : String) : Bool :=
  2 ≤ (bytes id).length && (bytes id).length ≤ 13 && (bytes id).head? == some 36 &&
    (bytes id).tail.all isAsciiDigit

end Hmux
