import ConfigVault.Yaml.Node.OfTokens
import ConfigVault.Yaml.Token.Lexer

/-!
# Documents

A text holds a sequence of documents.  Each has a root node, and a fault if its text goes wrong;
then it is the last.  A text without any document still has one, with an empty root, so that an
empty text can be read.
-/

namespace ConfigVault.Yaml

/-- A document of a text. -/
structure Document where
  root : Node
  fault : Option DocumentFault
  deriving Repr

namespace Document

/-- The tag handles that need no directive. -/
def defaultHandles : List (String × List UInt8) :=
  [("!", [0x21]), ("!!", Text.Utf8.encodeString "tag:yaml.org,2002:")]

/-- The directives in front of a document. -/
structure Directives where
  version : Bool
  handles : List (String × List UInt8)

/-- The default handles are added unless a directive has changed them. -/
def Directives.allHandles (d : Directives) : List (String × List UInt8) :=
  d.handles ++ defaultHandles.filter fun h => !d.handles.any (·.1 == h.1)

/-- Reads directives; each version and each handle may be given only once. -/
def directives (stop : DocumentFault) (d : Directives) :
    List Token → Except DocumentFault (Directives × List Token)
  | [] => .error stop
  | t :: ts =>
    match t.kind with
    | .versionDirective major minor =>
      if d.version then .error (.malformed (.malformed .duplicateVersion t.mark none))
      else if major = 1 ∧ (minor = 1 ∨ minor = 2) then
        directives stop { d with version := true } ts
      else .error (.malformed (.malformed .incompatibleVersion t.mark none))
    | .tagDirective handle stem =>
      if d.handles.any (·.1 == handle) then
        .error (.malformed (.malformed .duplicateTagDirective t.mark none))
      else directives stop { d with handles := d.handles ++ [(handle, stem)] } ts
    | _ => .ok (d, t :: ts)

/-- A token that no bare document begins with. -/
def isExplicitStart (t : Token) : Bool :=
  match t.kind with
  | .versionDirective .. => true
  | .tagDirective .. => true
  | .documentStart => true
  | _ => false

/-- A token before which an explicit document is empty. -/
def endsContent (t : Token) : Bool :=
  isExplicitStart t || t.kind == .documentEnd || t.kind == .streamEnd

/-- Skips the markers of document ends. -/
def skipEnds : List Token → List Token
  | [] => []
  | t :: ts => if t.kind == .documentEnd then skipEnds ts else t :: ts

/-- A document that is cut off before it begins. -/
def cutOff (fault : DocumentFault) : Document :=
  ⟨.cut, some fault⟩

/-- The document with this content, and the tokens after it unless it went wrong. -/
def finish (stop : DocumentFault) (p : Parsed Node) : Document × Option (List Token) :=
  match p.rest with
  | .error e => (⟨p.value, some e⟩, none)
  | .ok [] => (⟨p.value, some stop⟩, none)
  | .ok (t :: ts) =>
    (⟨p.value, none⟩, some (if t.kind == .documentEnd then ts else t :: ts))

/-- The content of a document, which may be any block node. -/
def content (g : Grammar) (ts : List Token) : Parsed Node :=
  Node.ofTokens g (4 * ts.length + 4) true false [] ts

/-- The content of a document behind its start marker, which may be missing. -/
def explicitContent (g : Grammar) : List Token → Parsed Node
  | [] => Node.cutOff [] g.stop
  | t :: ts => if endsContent t then ⟨.empty t.mark, [], .ok (t :: ts)⟩ else content g (t :: ts)

/-- The document that begins with directives or a start marker. -/
def explicit (stop : DocumentFault) (ts : List Token) : Document × Option (List Token) :=
  match directives stop ⟨false, []⟩ ts with
  | .error e => (cutOff e, none)
  | .ok (_, []) => (cutOff stop, none)
  | .ok (d, t :: ts) =>
    if t.kind == .documentStart then finish stop (explicitContent ⟨d.allHandles, stop⟩ ts)
    else (cutOff (.malformed (.malformed .expectedDocumentStart t.mark none)), none)

/-- The documents that the tokens hold.  Only the first may begin without a marker. -/
def ofTokens (stop : DocumentFault) : (fuel : Nat) → (first : Bool) → List Token → List Document
  | 0, _, _ => []
  | fuel + 1, first, ts =>
    match if first then ts else skipEnds ts with
    | [] => [cutOff stop]
    | t :: ts =>
      if t.kind == .streamEnd then
        if first then [⟨.empty t.mark, none⟩] else []
      else
        let (d, rest) :=
          if first && !isExplicitStart t then
            finish stop (content ⟨defaultHandles, stop⟩ (t :: ts))
          else explicit stop (t :: ts)
        d :: match rest with
          | none => []
          | some ts => ofTokens stop fuel false ts

/-- The documents of a text. -/
def allOf (bytes : List UInt8) : List Document :=
  let stream := TokenStream.ofSource (Source.ofBytes bytes)
  let stop := stream.fault.elim .endOfStream .malformed
  match stream.tokens with
  | [] => [cutOff stop]
  | _ :: ts => ofTokens stop (ts.length + 1) true ts

end Document

end ConfigVault.Yaml
