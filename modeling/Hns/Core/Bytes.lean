import Mathlib.Tactic

/-!
# Parsing

The errors of the parsers of `hns-core`.
-/

namespace Hns

inductive ParseError
  | unexpectedEof
  | trailingBytes
  | lengthLimit
  | invalidDnsLabel
  | invalidDnsPointer
  | invalidSvcb
  deriving DecidableEq

instance : ToString ParseError where
  toString
    | .unexpectedEof => "unexpected end of input"
    | .trailingBytes => "trailing bytes after parse"
    | .lengthLimit => "length exceeds configured parser limit"
    | .invalidDnsLabel => "invalid DNS label"
    | .invalidDnsPointer => "invalid DNS compression pointer"
    | .invalidSvcb => "invalid SVCB/HTTPS resource record data"

end Hns
