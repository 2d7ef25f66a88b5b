import Mathlib.Data.List.Basic

/-!
# EXI: the codings and the errors

What the rest of the development needs to say about EXI without reading a bit of it: the two ways
to write a string value that has been written before, and the reasons an encoder or a decoder
gives up.
-/

namespace Iso15118.Exi

/-- How an encoder writes a string value that it has already written once. -/
inductive ValueCoding where
  /-- Every value is written out in full. The default. -/
  | literal
  /-- A repeated value is written as a reference wherever EXI allows one. -/
  | referenced
  deriving DecidableEq, Repr

inductive ExiError where
  | outputFull
  | unexpectedEnd
  | nonZeroPadding
  | integerOverflow
  | valueTooLong
  | valueTooShort
  | invalidCodePoint
  | invalidFloat
  | invalidDateTime
  | badHeader
  | unknownEventCode
  | badStringTableIndex
  | unknownEnumValue
  | valueOutOfRange
  | trailingData
  | missingElement
  | unsupportedOption
  | depthLimitExceeded
  deriving DecidableEq, Repr

end Iso15118.Exi
