import Requisite.Url.Host

/-!
# Reading URLs

* `Url.parse` — the URL that a text denotes;
* `Url.withLogin` — a URL with another user and password;
* `Url.redact` — a text in which the password of a URL is masked.

A text is cut from the left: the scheme up to the first `:`, the authority up to the path, and the
path, the query and the fragment.  The schemes of the web are common ones.  They always have a
host, take `\` for `/`, and any number of slashes may lead to the host.
-/

namespace Requisite.Url

open Text

/-! ### Schemes -/

/-- The kinds of schemes, which are read differently. -/
inductive Kind
  | file
  /-- A scheme of the web with its default port. -/
  | common (port : Nat)
  | other
  deriving DecidableEq, Repr

/-- The default ports of the common schemes. -/
def defaultPorts : List (String × Nat) :=
  [("http", 80), ("ws", 80), ("https", 443), ("wss", 443), ("ftp", 21)]

/-- The kind of a scheme in lower case. -/
def kindOf (scheme : List Char) : Kind :=
  if scheme = "file".toList then .file
  else
    match defaultPorts.find? fun (name, _) => name.toList == scheme with
    | some (_, port) => .common port
    | none => .other

/-- A common scheme or `file`, where `\` stands for `/`. -/
def Kind.isSpecial : Kind → Bool
  | .other => false
  | _ => true

/-- A character of a scheme after its first one. -/
def isSchemeChar (c : Char) : Bool :=
  c.isAlphanum || c == '+' || c == '-' || c == '.'

/-- The scheme in lower case, and the text after its `:`. -/
def scheme? (cs : List Char) : Option (List Char × List Char) :=
  match cut ':' cs with
  | some (c :: name, rest) =>
    if c.isAlpha && name.all isSchemeChar then some (lower (c :: name), rest) else none
  | _ => none

/-! ### The sets of encoded characters -/

/-- The characters that are encoded in a fragment. -/
def inFragment (c : Char) : Bool :=
  " \"<>`".toList.contains c

/-- The characters that are encoded in a path. -/
def inPath (c : Char) : Bool :=
  inFragment c || "#?\x7b\x7d".toList.contains c

/-- The characters that are encoded in a login. -/
def inLogin (c : Char) : Bool :=
  inPath c || "/:;=@[\\]^|".toList.contains c

/-- The characters that are encoded in a query. -/
def inQuery (kind : Kind) (c : Char) : Bool :=
  " \"#<>".toList.contains c || (kind.isSpecial && c == '\'')

/-! ### The authority -/

/-- A character at which the authority ends. -/
def endsAuthority (kind : Kind) (c : Char) : Bool :=
  c == '/' || c == '?' || c == '#' || (kind.isSpecial && c == '\\')

/-- The text up to the last `@` and the text after it. -/
def cutLast (cs : List Char) : Option (List Char × List Char) :=
  (cut '@' cs.reverse).map fun (after, before) => (before.reverse, after.reverse)

/-- The user and the password of a login, encoded. -/
def login (cs : List Char) : List Char × List Char :=
  match cut ':' cs with
  | none => (percentEncode inLogin cs, [])
  | some (user, password) => (percentEncode inLogin user, percentEncode inLogin password)

/-- The text up to the first `:` outside brackets, and the rest from there.  `inside` tells whether
a bracket is open. -/
def cutPort (inside : Bool) : List Char → List Char × List Char
  | [] => ([], [])
  | c :: cs =>
    if c = ':' && !inside then ([], c :: cs)
    else
      let (host, rest) := cutPort (if c = '[' then true else if c = ']' then false else inside) cs
      (c :: host, rest)

/-- The port after a host, none if it is empty or the default one. -/
def portOf (kind : Kind) (digits : List Char) : Except UrlFault (Option Nat) :=
  if digits.isEmpty then .ok none
  else
    match readNat? digits with
    | none => .error .invalidPort
    | some n =>
      if n > 0xffff then .error .invalidPort
      else if kind = .common n then .ok none
      else .ok (some n)

/-- The host of a site; that of another scheme may be empty, which is no host. -/
def hostOf (kind : Kind) (cs : List Char) : Except UrlFault Host :=
  if kind.isSpecial then if cs.isEmpty then .error .emptyHost else Host.parse cs
  else Host.parseOpaque cs

/-! ### The path, the query and the fragment -/

/-- The letter of a drive, out of which no path leads. -/
def isDrive : List Char → Bool
  | [c, d] => c.isAlpha && (d == ':' || d == '|')
  | _ => false

/-- A segment with its encoded dots as dots. -/
def dotted : List Char → List Char
  | '%' :: '2' :: c :: cs =>
    if c = 'e' || c = 'E' then '.' :: dotted cs else '%' :: '2' :: dotted (c :: cs)
  | c :: cs => c :: dotted cs
  | [] => []

/-- The segments without the last one; the list is in reverse order. -/
def climb : List (List Char) → List (List Char)
  | [] => []
  | s :: above => if isDrive s then s :: above else above

/-- The segments of a path after those in `above`, which are in reverse order, with `.` and `..`
followed.  A path that ends in either ends in an empty segment. -/
def resolve (above : List (List Char)) : List (List Char) → List (List Char)
  | [] => above.reverse
  | s :: rest =>
    let above :=
      if dotted s = ['.', '.'] then climb above
      else if dotted s = ['.'] then above
      else percentEncode inPath s :: above
    if rest.isEmpty && (dotted s = ['.', '.'] || dotted s = ['.']) then (([] :: above).reverse)
    else resolve above rest

/-- The segments of a path, which may start with a slash. -/
def segments (kind : Kind) (cs : List Char) : List (List Char) :=
  let cs := if kind.isSpecial then cs.map fun c => if c = '\\' then '/' else c else cs
  match cs with
  | [] => if kind.isSpecial then [[]] else []
  | '/' :: cs => resolve [] (cs.splitOn '/')
  | cs => resolve [] (cs.splitOn '/')

/-- The text up to a character, and the text after it if there is one. -/
def cutAt (sep : Char) (cs : List Char) : List Char × Option (List Char) :=
  match cut sep cs with
  | none => (cs, none)
  | some (a, b) => (a, some b)

/-! ### Sites -/

/-- The site behind the slashes of a URL; a URL of another scheme may turn out to have none. -/
def siteOf (scheme : List Char) (kind : Kind) (cs : List Char) : Except UrlFault Url := do
  let authority := cs.takeWhile fun c => !endsAuthority kind c
  let resource := cs.dropWhile fun c => !endsAuthority kind c
  let (user, password, target) ←
    match cutLast authority with
    | none => .ok ([], [], authority)
    | some ([], target) =>
      if target.isEmpty && !resource.isEmpty then .error UrlFault.emptyHost
      else .ok ([], [], target)
    | some (name, target) =>
      let (user, password) := login name
      .ok (user, password, target)
  let (hostText, portText) := cutPort false target
  let host ← hostOf kind hostText
  if host = .name [] && !portText.isEmpty then .error .emptyHost
  -- outside the common schemes a port ends at a `\` as well, which starts the path
  let digits := (portText.drop 1).takeWhile (· != '\\')
  let resource := (portText.drop 1).dropWhile (· != '\\') ++ resource
  let port ← portOf kind digits
  if host = .name [] && !(user.isEmpty && password.isEmpty) then .error .emptyHost
  if host = .name [] then return .siteless
  let (beforeFragment, fragment) := cutAt '#' resource
  let (path, query) := cutAt '?' beforeFragment
  return .site {
    scheme, user, password, host, port
    path := segments kind path
    query := query.map (percentEncode (inQuery kind))
    fragment := fragment.map (percentEncode inFragment) }

/-- A file URL, whose host has to be one of a common scheme. -/
def fileOf (cs : List Char) : Except UrlFault Url :=
  match cs with
  | a :: b :: rest =>
    if (a = '/' || a = '\\') && (b = '/' || b = '\\') then
      let host := rest.takeWhile fun c => !endsAuthority .file c
      if host.isEmpty || isDrive host then .ok .siteless
      else (Host.parse host).map fun _ => .siteless
    else .ok .siteless
  | _ => .ok .siteless

/-! ### Whole texts -/

/-- A character that is dropped at the ends of a URL. -/
def isOuter (c : Char) : Bool :=
  c.toNat ≤ 0x20

/-- A character that is dropped anywhere in a URL. -/
def isLineBreak (c : Char) : Bool :=
  c == '\t' || c == '\n' || c == '\r'

/-- The text of a URL without what is dropped. -/
def clean (cs : List Char) : List Char :=
  ((cs.dropWhile isOuter).reverse.dropWhile isOuter).reverse.filter fun c => !isLineBreak c

/-- The URL that a text denotes. -/
def parse (cs : List Char) : Except UrlFault Url :=
  match scheme? (clean cs) with
  | none => .error .noScheme
  | some (scheme, rest) =>
    match kindOf scheme with
    | .file => fileOf rest
    | .common port =>
      siteOf scheme (.common port) (rest.dropWhile fun c => c == '/' || c == '\\')
    | .other =>
      match after? "//" rest with
      | some rest => siteOf scheme .other rest
      | none => .ok .siteless

/-! ### Logins -/

/-- The URL of a site with another user and password, none of any other URL. -/
def withLogin (user password : List Char) : Url → Option Site
  | .siteless => none
  | .site s =>
    some { s with user := percentEncode inLogin user, password := percentEncode inLogin password }

/-- What stands for a password. -/
def mask : List Char := ['*', '*', '*']

/-- The text with the password of its URL masked; any other text stays as it is. -/
def redact (cs : List Char) : List Char :=
  match parse cs with
  | .ok (.site s) => if s.password.isEmpty then cs else { s with password := mask }.chars
  | _ => cs

end Requisite.Url
