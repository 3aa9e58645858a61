/-!
# Addresses

The address of a server or of a proxy (`Uri`): a scheme and an authority, which may both be
missing, a path and a query.  A fragment is dropped.

Reading checks which characters stand where, and that brackets, colons and percent signs of the
authority make sense (`Authority`); it changes nothing about the text, except that the two common
schemes are written in small letters.
-/

namespace ConfigVault

/-- The address of a server. -/
structure Uri where
  scheme : Option String
  /-- What names the server; empty if nothing does. -/
  authority : String
  path : String
  query : Option String
  deriving DecidableEq, Repr

namespace Uri

/-- Why a text is no address. -/
inductive Fault where
  | empty
  | invalidCharacter
  | invalidAuthority
  | invalidFormat
  | tooLong
  | schemeTooLong
  deriving DecidableEq, Repr

/-- The message of a fault. -/
def Fault.message : Fault → String
  | .empty => "empty string"
  | .invalidCharacter => "invalid uri character"
  | .invalidAuthority => "invalid authority"
  | .invalidFormat => "invalid format"
  | .tooLong => "uri too long"
  | .schemeTooLong => "scheme too long"

/-! ## Characters -/

/-- A letter or a digit. -/
def isPlain (c : Char) : Bool := c.isAlphanum

/-- The character may stand in a scheme. -/
def isSchemeChar (c : Char) : Bool :=
  isPlain c || c == '+' || c == '-' || c == '.' || c == '~'

/-- The character may stand in an authority as it is. -/
def isAuthorityChar (c : Char) : Bool :=
  isPlain c || "!$&'()*+,-.:;=@[]_~".toList.contains c

/-- The character ends an authority. -/
def endsAuthority (c : Char) : Bool := c == '/' || c == '?' || c == '#'

/-- The character may stand in a path. -/
def isPathChar (c : Char) : Bool :=
  isPlain c || "!$%&'()*+,-./:;=@[\\]^_|~\"\x7b\x7d".toList.contains c || '\x7f' ≤ c

/-- The character may stand in a query. -/
def isQueryChar (c : Char) : Bool :=
  c == '!' || ('$' ≤ c && c != '<' && c != '>')

/-! ## Authorities -/

namespace Authority

/-- What was seen of an authority so far. -/
structure Seen where
  /-- Colons that could come before a port. -/
  colons : Nat
  opened : Bool
  closed : Bool
  /-- There was a percent sign where no name of a server may have one. -/
  percent : Bool

/-- Takes one more character into account.  What comes before an at sign is no part of the name of
the server, and what is in brackets is a number of its own form. -/
def look (s : Seen) (c : Char) : Except Fault Seen :=
  if c = ':' then
    if 8 ≤ s.colons then .error .invalidAuthority else .ok { s with colons := s.colons + 1 }
  else if c = '[' then
    if s.percent || s.opened then .error .invalidAuthority else .ok { s with opened := true }
  else if c = ']' then
    if !s.opened || s.closed then .error .invalidAuthority
    else .ok { s with closed := true, colons := 0, percent := false }
  else if c = '@' then .ok { s with colons := 0, percent := false }
  else if c = '%' then .ok { s with percent := true }
  else if isAuthorityChar c then .ok s
  else .error .invalidCharacter

/-- Whether the characters make an authority. -/
def check (cs : List Char) : Except Fault Unit := do
  let s ← cs.foldlM look ⟨0, false, false, false⟩
  if s.opened != s.closed || 1 < s.colons || cs.getLast? == some '@' || s.percent then
    throw .invalidAuthority

/-- Takes an authority off the front. -/
def take (cs : List Char) : Except Fault (List Char × List Char) := do
  if cs.isEmpty then throw .empty
  let authority := cs.takeWhile fun c => !endsAuthority c
  check authority
  pure (authority, cs.drop authority.length)

end Authority

/-! ## Reading -/

/-- The greatest length of an address, in octets. -/
def maxLength : Nat := 65534

/-- The greatest length of a scheme. -/
def maxSchemeLength : Nat := 64

/-- The mark between a scheme and an authority. -/
def schemeMark : List Char := [':', '/', '/']

/-- Takes a scheme and its mark off the front, if there is one. -/
def takeScheme (cs : List Char) : Except Fault (Option (List Char × List Char)) :=
  let scheme := cs.takeWhile isSchemeChar
  let rest := cs.drop scheme.length
  if schemeMark.isPrefixOf rest && 3 < cs.length then
    let small := scheme.map Char.toLower
    let rest := rest.drop 3
    if small == ['h', 't', 't', 'p'] || small == ['h', 't', 't', 'p', 's'] then
      .ok (some (small, rest))
    else if maxSchemeLength < scheme.length then .error .schemeTooLong
    else .ok (some (scheme, rest))
  else .ok none

/-- The address with this path and query. -/
def withPath (scheme : Option (List Char)) (authority cs : List Char) : Except Fault Uri :=
  let path := cs.takeWhile fun c => c != '?' && c != '#'
  let rest := cs.drop path.length
  let make (query : Option (List Char)) : Uri :=
    ⟨scheme.map String.ofList, String.ofList authority, String.ofList path,
      query.map String.ofList⟩
  if !path.all isPathChar then .error .invalidCharacter
  else
    match rest with
    | '?' :: rest =>
      let query := rest.takeWhile fun c => c != '#'
      if query.all isQueryChar then .ok (make (some query)) else .error .invalidCharacter
    | _ => .ok (make none)

/-- The address that has no path of its own. -/
def ofAuthority (authority : List Char) : Uri :=
  ⟨none, String.ofList authority, "", none⟩

/-- The address that characters stand for. -/
def ofChars (cs : List Char) : Except Fault Uri :=
  match cs with
  | [] => .error .empty
  | ['*'] => .ok ⟨none, "", "*", none⟩
  | '/' :: _ => withPath none [] cs
  | [c] => do
    if endsAuthority c then throw .invalidCharacter
    let (authority, _) ← Authority.take [c]
    pure (ofAuthority authority)
  | cs => do
    match ← takeScheme cs with
    | none =>
      let (authority, rest) ← Authority.take cs
      if rest.isEmpty then pure (ofAuthority authority) else throw .invalidFormat
    | some (scheme, rest) =>
      let (authority, rest) ← Authority.take rest
      if authority.isEmpty then throw .invalidFormat
      withPath (some scheme) authority rest

/-- The address that a text stands for. -/
def ofText (s : String) : Except Fault Uri :=
  if maxLength < s.utf8ByteSize then .error .tooLong else ofChars s.toList

/-! ## Writing -/

/-- The path as it is written: at least a slash, where there could be any. -/
def pathText (u : Uri) : String :=
  if u.path.isEmpty then (if u.scheme.isSome || u.query.isSome then "/" else "") else u.path

/-- The text of an address. -/
def text (u : Uri) : String :=
  u.scheme.elim "" (· ++ "://") ++ u.authority ++ u.pathText ++ u.query.elim "" ("?" ++ ·)

/-! ## Parts of the authority -/

/-- The authority, if there is one. -/
def authority? (u : Uri) : Option (List Char) :=
  if u.authority.isEmpty then none else some u.authority.toList

/-- What comes behind the last of these characters, if there is one. -/
def behindLast? (sep : Char) (cs : List Char) : Option (List Char) :=
  if cs.contains sep then some (cs.reverse.takeWhile (· != sep)).reverse else none

/-- The name of the server in an authority. -/
def hostOf (authority : List Char) : List Char :=
  let cs := (behindLast? '@' authority).getD authority
  match cs with
  | '[' :: _ => (cs.takeWhile (· != ']')) ++ [']']
  | _ => cs.takeWhile (· != ':')

/-- The name of the server. -/
def host? (u : Uri) : Option String :=
  u.authority?.map fun a => String.ofList (hostOf a)

/-- The number of a port. -/
def portOf? (cs : List Char) : Option Nat :=
  let digits := if cs.head? == some '+' then cs.drop 1 else cs
  if digits.isEmpty || !digits.all Char.isDigit then none
  else
    let n := digits.foldl (fun n c => 10 * n + (c.toNat - 0x30)) 0
    if n < 65536 then some n else none

/-- The port, if the authority ends in one. -/
def port? (u : Uri) : Option Nat :=
  u.authority?.bind fun a => (behindLast? ':' a).bind portOf?

end Uri

end ConfigVault
