/-!
# Error codes

Everything that can go wrong has a number that never changes, a short name, and
a template for its message. The hundreds of the number say which class an error
is of, and the class says whether a running program can catch it.

* `ErrorCode.number`, `ErrorCode.ofNumber?`: between codes and numbers;
* `ErrorCode.template`: the wording, in which `%1`, `%2`, … stand for arguments;
* `ErrorClass.isFatal`: which errors end the run.
-/

namespace StoryMachine

/-- What an error is about. -/
inductive ErrorClass where
  /-- An image that is malformed or does not fit this machine. -/
  | image
  /-- Memory, object numbers or pages that cannot be had. -/
  | resource
  /-- An ordinary error of the running program. -/
  | program
  /-- A saved state that cannot be written or read. -/
  | saveRestore
  /-- A broken promise of the machine itself. -/
  | internal
deriving DecidableEq, Repr

/-- Whether an error of the class ends the run, rather than being raised as an
    exception. -/
def ErrorClass.isFatal : ErrorClass → Bool
  | image | resource | internal => true
  | program | saveRestore => false

/-- An error code. -/
inductive ErrorCode where
  | badSignature | unsupportedVersion | imageTruncated | unknownMandatoryBlock | duplicateBlock
  | blockOrder | dataAfterEof | noMetaclassTable | noFunctionSetTable | noEntrypoint | noCodePool
  | noPoolPages | noObjects | badMetaclassIndex | unknownMetaclass | unknownFunctionSet
  | versionTooOld | badPoolPage | badObjectData | duplicateObject | badSuperclass
  | maskedImageNotSupported | badBlockData | badBytecode | poolOutOfRange | outOfMemory | pageIo
  | stackOverflow | wrongArgCount | undefinedProperty | badType | divideByZero | numericOverflow
  | indexOutOfRange | invalidComparison | functionNotAvailable | invalidObject | badArgument
  | unhandledException | noSuchFunction | interrupted | notSavedState | incompatibleSavedState
  | wrongSavedState | corruptSavedState | saveFileIo | stackUnderflow | internal
deriving DecidableEq, Repr

namespace ErrorCode

/-- Every error code, by ascending number. -/
def all : List ErrorCode :=
  [badSignature, unsupportedVersion, imageTruncated, unknownMandatoryBlock, duplicateBlock,
   blockOrder, dataAfterEof, noMetaclassTable, noFunctionSetTable, noEntrypoint, noCodePool,
   noPoolPages, noObjects, badMetaclassIndex, unknownMetaclass, unknownFunctionSet, versionTooOld,
   badPoolPage, badObjectData, duplicateObject, badSuperclass, maskedImageNotSupported,
   badBlockData, badBytecode, poolOutOfRange, outOfMemory, pageIo, stackOverflow, wrongArgCount,
   undefinedProperty, badType, divideByZero, numericOverflow, indexOutOfRange, invalidComparison,
   functionNotAvailable, invalidObject, badArgument, unhandledException, noSuchFunction,
   interrupted, notSavedState, incompatibleSavedState, wrongSavedState, corruptSavedState,
   saveFileIo, stackUnderflow, internal]

/-- The number of an error. -/
def number : ErrorCode → UInt16
  | badSignature => 101
  | unsupportedVersion => 102
  | imageTruncated => 103
  | unknownMandatoryBlock => 104
  | duplicateBlock => 105
  | blockOrder => 106
  | dataAfterEof => 107
  | noMetaclassTable => 108
  | noFunctionSetTable => 109
  | noEntrypoint => 110
  | noCodePool => 111
  | noPoolPages => 112
  | noObjects => 113
  | badMetaclassIndex => 114
  | unknownMetaclass => 115
  | unknownFunctionSet => 116
  | versionTooOld => 117
  | badPoolPage => 118
  | badObjectData => 119
  | duplicateObject => 120
  | badSuperclass => 121
  | maskedImageNotSupported => 122
  | badBlockData => 123
  | badBytecode => 124
  | poolOutOfRange => 125
  | outOfMemory => 201
  | pageIo => 202
  | stackOverflow => 1001
  | wrongArgCount => 1002
  | undefinedProperty => 1003
  | badType => 1004
  | divideByZero => 1005
  | numericOverflow => 1006
  | indexOutOfRange => 1007
  | invalidComparison => 1008
  | functionNotAvailable => 1009
  | invalidObject => 1010
  | badArgument => 1011
  | unhandledException => 1012
  | noSuchFunction => 1013
  | interrupted => 1014
  | notSavedState => 1101
  | incompatibleSavedState => 1102
  | wrongSavedState => 1103
  | corruptSavedState => 1104
  | saveFileIo => 1105
  | stackUnderflow => 9001
  | internal => 9002

/-- The code with the given number. -/
def ofNumber? (n : UInt16) : Option ErrorCode := all.find? (·.number == n)

/-- The short name of an error. -/
def name : ErrorCode → String
  | badSignature => "bad-signature"
  | unsupportedVersion => "unsupported-version"
  | imageTruncated => "image-truncated"
  | unknownMandatoryBlock => "unknown-block"
  | duplicateBlock => "duplicate-block"
  | blockOrder => "block-order"
  | dataAfterEof => "data-after-eof"
  | noMetaclassTable => "no-metaclass-table"
  | noFunctionSetTable => "no-function-set-table"
  | noEntrypoint => "no-entrypoint"
  | noCodePool => "no-code-pool"
  | noPoolPages => "no-pool-pages"
  | noObjects => "no-objects"
  | badMetaclassIndex => "bad-metaclass-index"
  | unknownMetaclass => "unknown-metaclass"
  | unknownFunctionSet => "unknown-function-set"
  | versionTooOld => "version-too-old"
  | badPoolPage => "bad-pool-page"
  | badObjectData => "bad-object-data"
  | duplicateObject => "duplicate-object"
  | badSuperclass => "bad-superclass"
  | maskedImageNotSupported => "masked-image"
  | badBlockData => "bad-block-data"
  | badBytecode => "bad-bytecode"
  | poolOutOfRange => "pool-out-of-range"
  | outOfMemory => "out-of-memory"
  | pageIo => "page-io"
  | stackOverflow => "stack-overflow"
  | wrongArgCount => "wrong-arg-count"
  | undefinedProperty => "undefined-property"
  | badType => "bad-type"
  | divideByZero => "divide-by-zero"
  | numericOverflow => "numeric-overflow"
  | indexOutOfRange => "index-out-of-range"
  | invalidComparison => "invalid-comparison"
  | functionNotAvailable => "function-not-available"
  | invalidObject => "invalid-object"
  | badArgument => "bad-argument"
  | unhandledException => "unhandled-exception"
  | noSuchFunction => "no-such-function"
  | interrupted => "interrupted"
  | notSavedState => "not-saved-state"
  | incompatibleSavedState => "incompatible-saved-state"
  | wrongSavedState => "wrong-saved-state"
  | corruptSavedState => "corrupt-saved-state"
  | saveFileIo => "save-file-io"
  | stackUnderflow => "stack-underflow"
  | internal => "internal"

/-- The wording of an error. -/
def template : ErrorCode → String
  | badSignature => "not an image file (bad signature)"
  | unsupportedVersion => "image format version %1 is not supported"
  | imageTruncated => "image file is truncated"
  | unknownMandatoryBlock => "unknown mandatory block \"%1\""
  | duplicateBlock => "block \"%1\" appears more than once"
  | blockOrder => "block \"%1\" is out of order: %2"
  | dataAfterEof => "data found after the EOF block"
  | noMetaclassTable => "image has no metaclass dependency table"
  | noFunctionSetTable => "image has no function set dependency table"
  | noEntrypoint => "image has no entrypoint"
  | noCodePool => "image has no code pool"
  | noPoolPages => "pool %1 has no pages"
  | noObjects => "image defines no objects"
  | badMetaclassIndex =>
    "object block refers to metaclass index %1, which is not in the dependency table"
  | unknownMetaclass => "metaclass \"%1\" is not available"
  | unknownFunctionSet => "function set \"%1\" is not available"
  | versionTooOld => "%1 version %2 required, but only %3 is available"
  | badPoolPage => "invalid page %2 for pool %1: %3"
  | badObjectData => "invalid data for object %1: %2"
  | duplicateObject => "object %1 is defined more than once"
  | badSuperclass => "object %1 names undefined superclass %2"
  | maskedImageNotSupported => "masked images cannot be loaded in paged mode"
  | badBlockData => "invalid \"%1\" block: %2"
  | badBytecode => "invalid bytecode: %1"
  | poolOutOfRange => "offset %2 is outside pool %1"
  | outOfMemory => "out of memory: %1"
  | pageIo => "error reading pool page: %1"
  | stackOverflow => "stack overflow"
  | wrongArgCount => "wrong number of arguments"
  | undefinedProperty => "property %1 is not defined"
  | badType => "%1 value required"
  | divideByZero => "division by zero"
  | numericOverflow => "numeric overflow"
  | indexOutOfRange => "index %1 out of range"
  | invalidComparison => "values cannot be compared"
  | functionNotAvailable => "function %2 of set \"%1\" is not available"
  | invalidObject => "invalid object reference %1"
  | badArgument => "invalid argument: %1"
  | unhandledException => "unhandled exception: %1"
  | noSuchFunction => "no exported function \"%1\""
  | interrupted => "execution interrupted by %1"
  | notSavedState => "not a saved state file"
  | incompatibleSavedState => "saved state is incompatible: %1"
  | wrongSavedState => "saved state belongs to a different image"
  | corruptSavedState => "saved state is corrupted: %1"
  | saveFileIo => "cannot access saved state file: %1"
  | stackUnderflow => "operand stack underflow"
  | internal => "internal error: %1"

/-- The class of an error, by the hundreds of its number. -/
def errorClass (code : ErrorCode) : ErrorClass :=
  match code.number.toNat / 100 with
  | 1 => .image
  | 2 => .resource
  | 10 => .program
  | 11 => .saveRestore
  | _ => .internal

/-- Whether the error ends the run. -/
def isFatal (code : ErrorCode) : Bool := code.errorClass.isFatal

end ErrorCode

end StoryMachine
