import OpenApi.Text.Pieces
/-! # Base URLs

A URL is put behind its base with one slash between them, unless it names a host itself. A URL
can be requested if it has a scheme and a host.
-/
namespace OpenApi.Url

def namesHost (url : String) : Bool :=
  Text.startsWith url "http://" || Text.startsWith url "https://"

def dropSlashes (cs : List Char) : List Char := cs.dropWhile (· == '/')

/-- A base and a URL, where no base is like an empty one. -/
def join (base : Option String) (url : String) : String :=
  match base.filter (!·.isEmpty) with
  | none => url
  | some base =>
    if namesHost url then url
    else if url.isEmpty then base
    else
      let front := (dropSlashes base.toList.reverse).reverse
      String.ofList (front ++ '/' :: dropSlashes url.toList)

def isSchemeChar (c : Char) : Bool := c.isAlphanum || c == '+' || c == '.' || c == '-'

def afterScheme? (cs : List Char) : Option (List Char) :=
  match cs with
  | [] => none
  | c :: _ =>
    if c.isAlpha then
      match cs.dropWhile isSchemeChar with
      | ':' :: rest => some rest
      | _ => none
    else none

/-- The host of an authority: what stands behind the user and before a colon. -/
def hostOf (authority : List Char) : List Char :=
  let afterUser :=
    if authority.contains '@' then (authority.reverse.takeWhile (· != '@')).reverse else authority
  match afterUser with
  | '[' :: rest => rest.takeWhile (· != ']')
  | cs => cs.takeWhile (· != ':')

def isAbsolute (url : String) : Bool :=
  match afterScheme? url.toList with
  | some ('/' :: '/' :: rest) =>
    !(hostOf (rest.takeWhile fun c => c != '/' && c != '?' && c != '#')).isEmpty
  | _ => false

/-- A URL holds no control characters of ASCII. -/
def isReadable (url : String) : Bool := url.toList.all fun c => 32 ≤ c.toNat && c.toNat != 127

end OpenApi.Url
