import AliasStubs.Metadata.CodedKind

/-!
# Failures of reading

Reading untrusted data can fail in a fixed number of ways. A failure is a cause, not a text: the
wording is given once, by `Defect.message` and `Failure.message`.

## Main definitions

* `Defect` : what makes data malformed, one constructor per check.
* `Failure` : why reading stopped.
* `Defect.message`, `Failure.message` : the wording of each cause.
-/

namespace AliasStubs

/-- What makes data malformed. -/
inductive Defect
  /-- The metadata does not start with the magic number but with `found`. -/
  | badMagic (found : Nat)
  /-- The stream directory announces no stream, or more than it may. -/
  | streamCount (count : Nat)
  /-- A stream reaches past the largest offset. -/
  | streamExtent (offset size : Nat)
  /-- A stream's name has no end within its field. -/
  | unterminatedStreamName
  /-- No stream has this name. -/
  | unknownStreamName (name : String)
  /-- The compressed table stream is missing. -/
  | missingTableStream
  /-- The identifier heap is missing. -/
  | missingStringHeap
  /-- The identifier heap does not start with a zero byte. -/
  | badStringHeap
  /-- No terminated UTF-8 text starts at this index. -/
  | badString (index : Nat)
  /-- The blob heap does not start with a zero byte. -/
  | badBlobHeap
  /-- A blob is asked for where no blob heap exists. -/
  | missingBlobHeap (index : Nat)
  /-- The table stream marks no table as present. -/
  | noTables
  /-- A coded index has a tag that selects no table. -/
  | badTag (tag : Nat) (kind : CodedKind)
  /-- No compressed integer starts with this byte. -/
  | badCompressedInteger (lead : Nat)
  /-- A compressed token selects no table of types. -/
  | badCompressedToken (value : Nat)
  /-- A generic instance is over something other than a class or value type. -/
  | badGenericBase (code : Nat)
  /-- No type starts with this element code. -/
  | badElementCode (code : Nat)
  /-- The token names no row of the type definitions. -/
  | badTypeDef (token : Token)
  /-- The token names no row of the type references. -/
  | badTypeRef (token : Token)
  /-- The token names no row of the type specifications. -/
  | badTypeSpec (token : Token)
  /-- The token's table holds no types. -/
  | notAType (token : Token)
  /-- An attribute's constructor does not exist. -/
  | badConstructor (token : Token)
  /-- A method has more parameters than can be numbered; `position` is the first one too many. -/
  | tooManyParameters (position : Nat)
  /-- The image has no optional header. -/
  | noOptionalHeader
  /-- The image names no runtime header. -/
  | noRuntimeHeader
  /-- The image's runtime header has no place or no size. -/
  | emptyRuntimeHeader
  /-- A relative address has more than 32 bits. -/
  | addressTooLarge (address : Nat)
  /-- A section reaches past the largest address. -/
  | sectionExtent (start size : Nat)
  /-- No section holds the relative address. -/
  | unmappedAddress (address : Nat)
  /-- The runtime header has the wrong size. -/
  | runtimeHeaderSize (found : Nat)
  /-- The runtime header places the metadata nowhere. -/
  | noMetadataAddress
  /-- The runtime header gives the metadata no size. -/
  | noMetadataSize
  /-- The runtime header gives the metadata more than the largest size. -/
  | metadataTooLarge (size : Nat)
  /-- A defect that a foreign source of types reports in its own words. -/
  | reported (message : String)
  deriving DecidableEq, Repr

/-- The wording of a defect. -/
def Defect.message : Defect → String
  | badMagic n => "CIL_HEADER_MAGIC does not match - " ++ toString n
  | streamCount n => "Invalid stream count - " ++ toString n
  | streamExtent o s =>
    "Stream offset and size cause integer overflow - " ++ toString o ++ " + " ++ toString s
  | unterminatedStreamName => "Stream header name is not terminated"
  | unknownStreamName s => "Invalid stream header name - " ++ s
  | missingTableStream => "Metadata has no #~ stream"
  | missingStringHeap => "Metadata has no #Strings stream"
  | badStringHeap => "Provided #String heap is empty"
  | badString i => "Invalid string at index - " ++ toString i
  | badBlobHeap => "Invalid memory for #Blob heap"
  | missingBlobHeap i => "Blob index " ++ toString i ++ " used without a #Blob stream"
  | noTables => "No valid rows in any of the tables"
  | badTag t k => "Invalid tag " ++ toString t ++ " for coded index " ++ k.name
  | badCompressedInteger b => "Invalid compressed uint - " ++ toString b
  | badCompressedToken v => "Invalid compressed token - " ++ toString v
  | badGenericBase b => "GENERICINST - Next byte is not TYPE_CLASS or TYPE_VALUE - " ++ toString b
  | badElementCode b => "Unsupported ELEMENT_TYPE - " ++ toString b
  | badTypeDef t => "Invalid TypeDef token - " ++ t.text
  | badTypeRef t => "Invalid TypeRef token - " ++ t.text
  | badTypeSpec t => "Invalid TypeSpec token - " ++ t.text
  | notAType t => "Token does not name a type - " ++ t.text
  | badConstructor t => "Invalid attribute constructor - " ++ t.text
  | tooManyParameters p => "Too many parameters - " ++ toString p
  | noOptionalHeader => "File does not have an OptionalHeader"
  | noRuntimeHeader => "File does not have a CLR runtime header directory"
  | emptyRuntimeHeader => "CLR runtime header directory is empty"
  | addressTooLarge a => "RVA too large to fit in u32: " ++ toString a
  | sectionExtent a s =>
    "Section malformed, causing integer overflow - " ++ toString a ++ " + " ++ toString s
  | unmappedAddress a => "RVA could not be converted to offset - " ++ toString a
  | runtimeHeaderSize n => "Invalid CLR header size: expected 72, got " ++ toString n
  | noMetadataAddress => "Metadata RVA cannot be zero"
  | noMetadataSize => "Metadata size cannot be zero"
  | metadataTooLarge n =>
    "Metadata size " ++ toString n ++ " exceeds reasonable limit (256MB)"
  | reported s => s

/-- Why reading stopped. -/
inductive Failure
  /-- The data break a rule of their format. -/
  | malformed (defect : Defect)
  /-- A read would have gone past the end of the data. -/
  | outOfBounds
  /-- The format is known but not read here. -/
  | notSupported
  /-- There are no data at all. -/
  | empty
  /-- Something nests deeper than `limit` levels. -/
  | recursionLimit (limit : Nat)
  /-- The data are no executable image. -/
  | notAnImage
  deriving DecidableEq, Repr

/-- The wording of a failure. -/
def Failure.message : Failure → String
  | malformed d => d.message
  | outOfBounds => "Out of Bound read would have occurred!"
  | notSupported => "This file type is not supported"
  | empty => "Provided input was empty"
  | recursionLimit n => "Reach the maximum recursion level allowed - " ++ toString n
  | notAnImage => "The data are not an executable image"

end AliasStubs
