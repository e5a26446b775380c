namespace IbverbsRs.Ibverbs

/-- Failures of the ibverbs calls, classified from `errno`. -/
inductive IbvError
  | InvalidInput (msg : String)
  | Resource (msg : String)
  | Permission (msg : String)
  | NotFound (msg : String)
  | Driver (errno : Nat)
  deriving DecidableEq, Repr

/-- `libc::E*` on Linux, as far as `from_errno_with_msg` names them. -/
def EPERM : Nat := 1
def ENOENT : Nat := 2
def EAGAIN : Nat := 11
def ENOMEM : Nat := 12
def EACCES : Nat := 13
def EINVAL : Nat := 22
def EMFILE : Nat := 24

def IbvError.from_errno_with_msg (errno : Nat) (msg : String) : IbvError :=
  if errno = EINVAL then .InvalidInput (msg ++ " (driver rejected params)")
  else if errno = ENOMEM then .Resource (msg ++ " (out of memory)")
  else if errno = EMFILE then .Resource (msg ++ " (too many open files/objects)")
  else if errno = EAGAIN then .Resource (msg ++ " (temporary resource shortage)")
  else if errno = EACCES ∨ errno = EPERM then .Permission msg
  else if errno = ENOENT then .NotFound msg
  else .Driver errno

/-- A completion with a status other than `IBV_WC_SUCCESS`. -/
structure WorkError where
  raw_status : UInt32
  vendor_code : UInt32
  deriving DecidableEq, Repr

structure WorkSuccess where
  imm_data : Option UInt32
  scattered_bytes : Nat
  deriving DecidableEq, Repr

abbrev WorkResult := Except WorkError WorkSuccess

/-- What the NIC writes into the completion queue for one finished request. -/
structure WorkCompletion where
  wr_id : UInt64
  result : WorkResult

end IbverbsRs.Ibverbs

namespace IbverbsRs

open Ibverbs

inductive TransportError
  | IbvError (error : IbvError)
  | WorkError (error : WorkError)
  deriving DecidableEq, Repr

abbrev TransportResult := Except TransportError WorkSuccess

/-- `res.map_err(Into::into)`: a work result seen as a transport result. -/
def intoTransport : WorkResult → TransportResult
  | .ok success => .ok success
  | .error e => .error (.WorkError e)

end IbverbsRs
