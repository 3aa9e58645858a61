import ConfigVault.Yaml.Source

/-!
# Syntax errors

Why a text is no YAML.  A `SyntaxError` is either a fault of the octets or a `Problem` at a mark,
mostly with the construct that was being read (`Context`) and the mark where that construct began.
The wording stands in one function each; `SyntaxError.message` puts the parts together and leaves
out every mark that is not worth reporting.
-/

namespace ConfigVault.Yaml

namespace ReaderProblem

/-- The wording of a problem with the octets. -/
def text : ReaderProblem → String
  | .encoding .leading => "invalid leading UTF-8 octet"
  | .encoding .incomplete => "incomplete UTF-8 octet sequence"
  | .encoding (.trailing _) => "invalid trailing UTF-8 octet"
  | .encoding .overlong => "invalid length of a UTF-8 sequence"
  | .encoding .notScalar => "invalid Unicode character"
  | .controlCharacter => "control characters are not allowed"

end ReaderProblem

/-- What can be wrong at a place of a text. -/
inductive Problem where
  | expectedColon
  | blockEntryNotAllowed
  | keyNotAllowed
  | valueNotAllowed
  | cannotStartToken
  | unknownDirective
  | expectedDirectiveName
  | nonAlphabeticDirective
  | expectedCommentOrBreak
  | expectedDigitOrDot
  | longVersion
  | expectedVersion
  | expectedBlank
  | expectedBlankOrBreak
  | expectedAlphanumeric
  | expectedClosingAngle
  | expectedBang
  | expectedTagUri
  | expectedUriOctet
  | badLeadingUriOctet
  | badTrailingUriOctet
  | zeroIndentation
  | tabInIndentation
  | tabViolatesIndentation
  | unexpectedColon
  | unexpectedDocumentIndicator
  | unexpectedEnd
  | unknownEscape
  | expectedHexadecimal
  | badCharacterEscape
  | expectedDocumentStart
  | duplicateVersion
  | incompatibleVersion
  | duplicateTagDirective
  | undefinedTagHandle
  | expectedNodeContent
  | expectedBlockEntry
  | expectedKey
  | expectedSequenceSeparator
  | expectedMappingSeparator
  deriving DecidableEq, Repr

namespace Problem

/-- The wording of a problem. -/
def text : Problem → String
  | .expectedColon => "could not find expected ':'"
  | .blockEntryNotAllowed => "block sequence entries are not allowed in this context"
  | .keyNotAllowed => "mapping keys are not allowed in this context"
  | .valueNotAllowed => "mapping values are not allowed in this context"
  | .cannotStartToken => "found character that cannot start any token"
  | .unknownDirective => "found unknown directive name"
  | .expectedDirectiveName => "could not find expected directive name"
  | .nonAlphabeticDirective => "found unexpected non-alphabetical character"
  | .expectedCommentOrBreak => "did not find expected comment or line break"
  | .expectedDigitOrDot => "did not find expected digit or '.' character"
  | .longVersion => "found extremely long version number"
  | .expectedVersion => "did not find expected version number"
  | .expectedBlank => "did not find expected whitespace"
  | .expectedBlankOrBreak => "did not find expected whitespace or line break"
  | .expectedAlphanumeric => "did not find expected alphabetic or numeric character"
  | .expectedClosingAngle => "did not find the expected '>'"
  | .expectedBang => "did not find expected '!'"
  | .expectedTagUri => "did not find expected tag URI"
  | .expectedUriOctet => "did not find URI escaped octet"
  | .badLeadingUriOctet => "found an incorrect leading UTF-8 octet"
  | .badTrailingUriOctet => "found an incorrect trailing UTF-8 octet"
  | .zeroIndentation => "found an indentation indicator equal to 0"
  | .tabInIndentation => "found a tab character where an indentation space is expected"
  | .tabViolatesIndentation => "found a tab character that violates indentation"
  | .unexpectedColon => "found unexpected ':'"
  | .unexpectedDocumentIndicator => "found unexpected document indicator"
  | .unexpectedEnd => "found unexpected end of stream"
  | .unknownEscape => "found unknown escape character"
  | .expectedHexadecimal => "did not find expected hexadecimal number"
  | .badCharacterEscape => "found invalid Unicode character escape code"
  | .expectedDocumentStart => "did not find expected <document start>"
  | .duplicateVersion => "found duplicate %YAML directive"
  | .incompatibleVersion => "found incompatible YAML document"
  | .duplicateTagDirective => "found duplicate %TAG directive"
  | .undefinedTagHandle => "found undefined tag handle"
  | .expectedNodeContent => "did not find expected node content"
  | .expectedBlockEntry => "did not find expected '-' indicator"
  | .expectedKey => "did not find expected key"
  | .expectedSequenceSeparator => "did not find expected ',' or ']'"
  | .expectedMappingSeparator => "did not find expected ',' or '\x7d'"

end Problem

/-- The construct that was being read. -/
inductive Context where
  | simpleKey
  | nextToken
  | directive
  | versionDirective
  | tagDirective
  | tagDirectiveHandle
  | parsedTagDirective
  | parsedTagDirectiveHandle
  | anchor
  | alias
  | tag
  | parsedTag
  | blockScalar
  | quotedScalar
  | parsedQuotedScalar
  | plainScalar
  | node
  | blockNode
  | flowNode
  | blockCollection
  | blockMapping
  | flowSequence
  | flowMapping
  deriving DecidableEq, Repr

namespace Context

/-- The wording of a construct. -/
def text : Context → String
  | .simpleKey => "while scanning a simple key"
  | .nextToken => "while scanning for the next token"
  | .directive => "while scanning a directive"
  | .versionDirective => "while scanning a %YAML directive"
  | .tagDirective => "while scanning a %TAG directive"
  | .tagDirectiveHandle => "while scanning a tag directive"
  | .parsedTagDirective => "while parsing a %TAG directive"
  | .parsedTagDirectiveHandle => "while parsing a tag directive"
  | .anchor => "while scanning an anchor"
  | .alias => "while scanning an alias"
  | .tag => "while scanning a tag"
  | .parsedTag => "while parsing a tag"
  | .blockScalar => "while scanning a block scalar"
  | .quotedScalar => "while scanning a quoted scalar"
  | .parsedQuotedScalar => "while parsing a quoted scalar"
  | .plainScalar => "while scanning a plain scalar"
  | .node => "while parsing a node"
  | .blockNode => "while parsing a block node"
  | .flowNode => "while parsing a flow node"
  | .blockCollection => "while parsing a block collection"
  | .blockMapping => "while parsing a block mapping"
  | .flowSequence => "while parsing a flow sequence"
  | .flowMapping => "while parsing a flow mapping"

end Context

/-- Why a text is no YAML. -/
inductive SyntaxError where
  /-- The octets cannot be read. -/
  | unreadable (fault : ReaderFault)
  /-- There is a problem at a mark, found while reading a construct that began at another. -/
  | malformed (problem : Problem) (mark : Mark) (context : Option (Context × Mark))
  deriving DecidableEq, Repr

namespace SyntaxError

/-- The message of an error.  A construct's mark is left out where it repeats the problem's. -/
def message : SyntaxError → String
  | .unreadable fault =>
    fault.problem.text ++
      if fault.offset = 0 then "" else " at position " ++ toString fault.offset
  | .malformed problem mark none => problem.text ++ mark.suffix
  | .malformed problem mark (some (context, began)) =>
    problem.text ++ mark.suffix ++ ", " ++ context.text ++
      if began.line = mark.line ∧ began.column = mark.column then "" else began.suffix

end SyntaxError

end ConfigVault.Yaml
