/-! # Error codes

`boost::system::error_code`: `none` is the code of success. -/
namespace CxxUtil.Asio
set_option autoImplicit false

inductive Error
  | operationAborted
  | alreadyOpen
  | messageSize
  | networkDown
  | other (code : Nat)
  deriving DecidableEq, Repr

abbrev ErrorCode := Option Error

end CxxUtil.Asio
