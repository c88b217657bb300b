/-!
# Media types

A media type is a type and a subtype of token characters, perhaps followed by parameters. Which
media types announce a JSON body is decided by the type `application` together with the subtype
`json` or the suffix `+json`, in any case.
-/

namespace PostfixRules.MediaType

/-- The characters that names and plain parameter values consist of. -/
def isTokenChar (c : Char) : Bool :=
  c.isAlphanum || ['!', '#', '$', '%', '&', '\'', '+', '-', '.', '^', '_', '|', '~'].contains c ||
    c.toNat == 0x60

/-- What may come next in parameters. -/
inductive ParameterState where
  /-- The beginning of a parameter, or the end. -/
  | start
  | name
  /-- After the equals sign. -/
  | valueStart
  | value
  /-- After the opening quote. -/
  | quoteStart
  | quoted
  | afterQuote
  deriving DecidableEq, Repr

namespace ParameterState

/-- The state after a character, if the character may come. -/
def next? : ParameterState → Char → Option ParameterState
  | .start, c => if c = ' ' then some .start else if isTokenChar c then some .name else none
  | .name, c => if isTokenChar c then some .name else if c = '=' then some .valueStart else none
  | .valueStart, c =>
    if c = '"' then some .quoteStart else if isTokenChar c then some .value else none
  | .value, c => if isTokenChar c then some .value else if c = ';' then some .start else none
  | .quoteStart, c => if c.toNat < 0x20 then none else some .quoted
  | .quoted, c =>
    if c = '"' then some .afterQuote else if c.toNat < 0x20 then none else some .quoted
  | .afterQuote, c =>
    if c = ';' then some .start else if c = ' ' then some .afterQuote else none

/-- Whether parameters may end here. -/
def isComplete : ParameterState → Bool
  | .start | .valueStart | .value | .afterQuote => true
  | .name | .quoteStart | .quoted => false

end ParameterState

/-- Whether characters after a semicolon are parameters. -/
def areParameters (chars : List Char) : Bool :=
  match chars.foldlM ParameterState.next? .start with
  | some state => state.isComplete
  | none => false

/-- Whether a subtype is `json` or has the suffix `+json`. The last plus sign that is not the first
character begins the suffix. -/
def namesJson (subtype : List Char) : Bool :=
  let lower := subtype.map Char.toLower
  let tail := (lower.reverse.takeWhile fun c => c != '+').reverse
  let before := lower.take (lower.length - tail.length - 1)
  let hasSuffix := tail.length < lower.length && !before.isEmpty
  let json := ['j', 's', 'o', 'n']
  if hasSuffix then before == json || tail == json else lower == json

/-- Whether a character may stand in a header that is read as text. -/
def isHeaderChar (c : Char) : Bool :=
  (0x20 ≤ c.toNat && c.toNat < 0x7F) || c == '\t'

/-- Whether a header announces a JSON body. -/
def announcesJson (header : String) : Bool :=
  let chars := header.toList
  let (type, rest) := (chars.takeWhile isTokenChar, chars.dropWhile isTokenChar)
  chars.all isHeaderChar &&
    type.map Char.toLower == ['a', 'p', 'p', 'l', 'i', 'c', 'a', 't', 'i', 'o', 'n'] &&
    match rest with
    | '/' :: rest =>
      namesJson (rest.takeWhile isTokenChar) &&
        match rest.dropWhile isTokenChar with
        | [] => true
        | ';' :: parameters => areParameters parameters
        | _ => false
    | _ => false

end PostfixRules.MediaType
