/-! # What the two Istanbul engines share

The errors of `istanbul/common` that the modelled code returns. -/

namespace Xdchain.Istanbul.Common

/-- The errors of `istanbul/common/errors.go` that the modelled functions
return, under their Go names without the `Err` prefix. -/
inductive Error where
  | invalidMessage
  | failedDecodePreprepare
  | failedDecodeCommit
  | failedDecodeRoundChange
deriving DecidableEq, Repr

end Xdchain.Istanbul.Common
