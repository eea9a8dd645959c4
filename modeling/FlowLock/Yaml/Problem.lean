import FlowLock.Text.Quoted

/-!
# What can be wrong with a YAML document

Every cause for which a document is refused, with its wording in one place.  A
cause comes with the place where it was noticed; lines and columns count from
zero.
-/

namespace FlowLock.Yaml

open Text

/-- A place in a document, all counts from zero. -/
structure Mark where
  index : Nat
  line : Nat
  column : Nat
deriving Repr, DecidableEq, Inhabited

inductive Shape where
  | scalar
  | sequence
  | mapping
deriving Repr, DecidableEq

def Shape.name : Shape → String
  | .scalar => "scalar"
  | .sequence => "sequence"
  | .mapping => "mapping"

/-- A cause for refusing a document.  A character field is the character found in
place of the expected one, a token field the name of the token found. -/
inductive Problem where
  | cannotStartToken (found : Char)
  | missingColon
  | sequenceNotAllowed
  | keyNotAllowed
  | valueNotAllowed
  | expectedWordCharacter (found : Char)
  | expectedDigitOrPoint (found : Char)
  | expectedDigitOrSpace (found : Char)
  | expectedDigit (found : Char)
  | expectedSpace (found : Char)
  | expectedLineEnd (found : Char)
  | expectedBang (found : Char)
  | expectedAngle (found : Char)
  | expectedUri (found : Char)
  | expectedUriEscape (found : Char)
  | undecodableUri (reason : String)
  | zeroIndentation
  | expectedBlockIndicator (found : Char)
  | expectedEscapeDigits (count : Nat) (found : Char)
  | unknownEscape (found : Char)
  | unexpectedEnd
  | unexpectedSeparator
  | expectedDocumentStart (token : String)
  | repeatedVersion
  | incompatibleVersion
  | repeatedTagHandle (handle : String)
  | undefinedTagHandle (handle : String)
  | expectedContent (token : String)
  | expectedBlockEnd (token : String)
  | expectedFlowEnd (closing : String) (token : String)
  | undefinedAlias (name : String)
  | repeatedAnchor
  | anotherDocument
  | unknownTag (tag : String)
  | unhashableKey
  | expectedShape (expected found : Shape)
  | expectedMerge (found : Shape)
  | expectedMergeItem (found : Shape)
  | expectedOrdered (found : Shape)
  | expectedOrderedEntry (found : Shape)
  | orderedEntrySize (count : Nat)
  | binaryNotAscii (reason : String)
  | binaryUndecodable (reason : String)
deriving Repr, DecidableEq

def shown (c : Char) : String := quoted (String.singleton c)

def Problem.message : Problem → String
  | .cannotStartToken c => "found character " ++ shown c ++ " that cannot start any token"
  | .missingColon => "could not find expected ':'"
  | .sequenceNotAllowed => "sequence entries are not allowed here"
  | .keyNotAllowed => "mapping keys are not allowed here"
  | .valueNotAllowed => "mapping values are not allowed here"
  | .expectedWordCharacter c => "expected alphabetic or numeric character, but found " ++ shown c
  | .expectedDigitOrPoint c => "expected a digit or '.', but found " ++ shown c
  | .expectedDigitOrSpace c => "expected a digit or ' ', but found " ++ shown c
  | .expectedDigit c => "expected a digit, but found " ++ shown c
  | .expectedSpace c => "expected ' ', but found " ++ shown c
  | .expectedLineEnd c => "expected a comment or a line break, but found " ++ shown c
  | .expectedBang c => "expected '!', but found " ++ shown c
  | .expectedAngle c => "expected '>', but found " ++ shown c
  | .expectedUri c => "expected URI, but found " ++ shown c
  | .expectedUriEscape c =>
    "expected URI escape sequence of 2 hexadecimal numbers, but found " ++ shown c
  | .undecodableUri reason => reason
  | .zeroIndentation => "expected indentation indicator in the range 1-9, but found 0"
  | .expectedBlockIndicator c =>
    "expected chomping or indentation indicators, but found " ++ shown c
  | .expectedEscapeDigits n c =>
    "expected escape sequence of " ++ toString n ++ " hexadecimal numbers, but found " ++ shown c
  | .unknownEscape c => "found unknown escape character " ++ shown c
  | .unexpectedEnd => "found unexpected end of stream"
  | .unexpectedSeparator => "found unexpected document separator"
  | .expectedDocumentStart token =>
    "expected '<document start>', but found " ++ quoted token
  | .repeatedVersion => "found duplicate YAML directive"
  | .incompatibleVersion => "found incompatible YAML document (version 1.* is required)"
  | .repeatedTagHandle handle => "duplicate tag handle " ++ quoted handle
  | .undefinedTagHandle handle => "found undefined tag handle " ++ quoted handle
  | .expectedContent token => "expected the node content, but found " ++ quoted token
  | .expectedBlockEnd token => "expected <block end>, but found " ++ quoted token
  | .expectedFlowEnd closing token =>
    "expected ',' or '" ++ closing ++ "', but got " ++ quoted token
  | .undefinedAlias name => "found undefined alias " ++ quoted name
  | .repeatedAnchor => "second occurrence"
  | .anotherDocument => "but found another document"
  | .unknownTag tag => "could not determine a constructor for the tag " ++ quoted tag
  | .unhashableKey => "found unhashable key"
  | .expectedShape expected found =>
    "expected a " ++ expected.name ++ " node, but found " ++ found.name
  | .expectedMerge found =>
    "expected a mapping or list of mappings for merging, but found " ++ found.name
  | .expectedMergeItem found => "expected a mapping for merging, but found " ++ found.name
  | .expectedOrdered found => "expected a sequence, but found " ++ found.name
  | .expectedOrderedEntry found => "expected a mapping of length 1, but found " ++ found.name
  | .orderedEntrySize n =>
    "expected a single mapping item, but found " ++ toString n ++ " items"
  | .binaryNotAscii reason => "failed to convert base64 data into ascii: " ++ reason
  | .binaryUndecodable reason => "failed to decode base64 data: " ++ reason

inductive Failure where
  | problem (cause : Problem) (mark : Mark)
  | forbidden (found : Char) (position : Nat)
  /-- A scalar whose text contradicts its tag, or a node that holds itself: there
  is no value, and no diagnosis either. -/
  | fatal
deriving Repr, DecidableEq

def Failure.message : Failure → String
  | .problem cause _ => cause.message
  | .forbidden c position =>
    "unacceptable character #x" ++ hexPadded 4 c.toNat ++
      ": special characters are not allowed\n  in \"<unicode string>\", position " ++
      toString position
  | .fatal => ""

def Failure.mark? : Failure → Option Mark
  | .problem _ mark => some mark
  | _ => none

end FlowLock.Yaml
