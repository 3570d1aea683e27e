import Requisite.Text.Basic
import Requisite.Text.Cut

/-!
# URLs

A URL is kept in its normal form: percent-encoded, with the scheme and the host in lower case,
without a default port and without dot segments.  Only the URL of a site, which has a host, has a
place for a user and a password.

* `Site` — the parts of a URL with a host;
* `Site.chars` — the text of a URL, in which the password follows the user after a `:` and an
  empty login is left out;
* `Url` — a site, or a URL that has no place for a login and is not looked into.
-/

namespace Requisite

/-- A host: a name, or an address of the older or the newer Internet protocol. -/
inductive Host
  | name (text : List Char)
  | ipv4 (address : Nat)
  /-- Eight pieces of sixteen bits. -/
  | ipv6 (pieces : List Nat)
  deriving DecidableEq, Repr

/-- A URL with a host.  All texts are percent-encoded; an empty password is none. -/
structure Site where
  scheme : List Char
  user : List Char
  password : List Char
  host : Host
  /-- The port, if it is not the default one of the scheme. -/
  port : Option Nat
  /-- The segments of the path. -/
  path : List (List Char)
  query : Option (List Char)
  fragment : Option (List Char)
  deriving DecidableEq, Repr

/-- A URL as far as its login goes. -/
inductive Url
  | site (s : Site)
  /-- A file, or a URL without a host. -/
  | siteless
  deriving DecidableEq, Repr

/-- Why a text is no URL. -/
inductive UrlFault
  | noScheme
  | emptyHost
  | invalidPort
  | invalidName
  | invalidCharacter
  | invalidIpv4
  | invalidIpv6
  deriving DecidableEq, Repr

/-- The wording of a fault. -/
def UrlFault.message : UrlFault → String
  | .noScheme => "relative URL without a base"
  | .emptyHost => "empty host"
  | .invalidPort => "invalid port number"
  | .invalidName => "invalid international domain name"
  | .invalidCharacter => "invalid domain character"
  | .invalidIpv4 => "invalid IPv4 address"
  | .invalidIpv6 => "invalid IPv6 address"

/-! ### The text of a host -/

namespace Host

/-- The length of the run of zeros that a list starts with. -/
def zeros : List Nat → Nat
  | 0 :: ps => zeros ps + 1
  | _ => 0

/-- The length of the longest run of zeros. -/
def longestZeros : List Nat → Nat
  | [] => 0
  | p :: ps => max (zeros (p :: ps)) (longestZeros ps)

/-- A piece in hexadecimal digits. -/
def pieceChars (n : Nat) : List Char :=
  Nat.toDigits 16 n

/-- Pieces with `:` between them. -/
def joined (ps : List Nat) : List Char :=
  [':'].intercalate (ps.map pieceChars)

/-- The pieces of an address, the first run of `run` zeros written as `::`. -/
def compressed (run : Nat) : List Nat → List Nat → List Char
  | before, [] => joined before
  | before, p :: ps =>
    if zeros (p :: ps) = run then
      joined before ++ ':' :: ':' :: joined ((p :: ps).drop run)
    else compressed run (before ++ [p]) ps

/-- The pieces of an address; the longest run of zeros, if it has two of them or more, is left
out. -/
def addressChars (ps : List Nat) : List Char :=
  if longestZeros ps < 2 then joined ps else compressed (longestZeros ps) [] ps

/-- The four bytes of an address. -/
def bytes (n : Nat) : List Nat :=
  [n / 0x1000000 % 0x100, n / 0x10000 % 0x100, n / 0x100 % 0x100, n % 0x100]

/-- The text of a host. -/
def chars : Host → List Char
  | .name text => text
  | .ipv4 n => ['.'].intercalate ((bytes n).map Text.decimal)
  | .ipv6 ps => '[' :: addressChars ps ++ [']']

end Host

/-! ### The text of a URL -/

namespace Site

/-- The user and the password, nothing if both are empty. -/
def loginChars (s : Site) : List Char :=
  let password := if s.password.isEmpty then [] else ':' :: s.password
  if s.user.isEmpty && s.password.isEmpty then [] else s.user ++ password ++ ['@']

/-- The port after a `:`. -/
def portChars (s : Site) : List Char :=
  match s.port with
  | none => []
  | some n => ':' :: Text.decimal n

/-- The path, the query and the fragment. -/
def resourceChars (s : Site) : List Char :=
  s.path.flatMap ('/' :: ·)
    ++ (match s.query with
      | none => []
      | some q => '?' :: q)
    ++ (match s.fragment with
      | none => []
      | some f => '#' :: f)

/-- The text of a URL. -/
def chars (s : Site) : List Char :=
  s.scheme ++ "://".toList ++ s.loginChars ++ s.host.chars ++ s.portChars ++ s.resourceChars

end Site

end Requisite
