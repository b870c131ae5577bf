import Ame.Domain.Text

/-!
# File evidence

What identifies a file on disk, as the domain records it.
-/

namespace Ame

/-- `FileIdentityEvidence`: a file's identity under a named scheme. -/
structure FileIdentityEvidence where
  scheme : String
  value : String
  deriving DecidableEq, Repr

end Ame
