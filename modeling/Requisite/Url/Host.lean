import Requisite.Text.Basic
import Requisite.Text.Percent
import Requisite.Url.Basic

/-!
# Reading hosts

The host of a common scheme is a name of ASCII letters and other characters without a meaning of
their own in a URL, an address in up to four numbers, or one in brackets.  Any other scheme has an
address in brackets, or a name that is not looked into.

* `Host.parse` — the host of a common scheme;
* `Host.parseOpaque` — the host of another scheme.

A name whose last part is a number is an address of the older protocol.  Names in other scripts
have to be given in their ASCII form.
-/

namespace Requisite.Host

open Text

/-! ### Addresses in numbers -/

/-- Digits of a base, none of which is a number of its own. -/
def digits? (base : Nat) (isDigit : Char → Bool) (cs : List Char) : Option Nat :=
  if cs.all isDigit then some (cs.foldl (fun n c => base * n + (hexValue? c).getD 0) 0) else none

/-- A number of an address: hexadecimal after `0x`, octal after another leading zero, decimal
otherwise. -/
def number? : List Char → Option Nat
  | [] => none
  | '0' :: 'x' :: cs | '0' :: 'X' :: cs => digits? 16 isHexDigit cs
  | '0' :: c :: cs => digits? 8 (fun d => '0' ≤ d && d ≤ '7') (c :: cs)
  | cs => digits? 10 Char.isDigit cs

/-- The parts of a name between its dots, without an empty last one. -/
def labels (cs : List Char) : List (List Char) :=
  let parts := cs.splitOn '.'
  if parts.length > 1 && parts.getLast? == some [] then parts.dropLast else parts

/-- The last part of a name is a number, or has only digits. -/
def endsInNumber (cs : List Char) : Bool :=
  match (labels cs).getLast? with
  | none => false
  | some last => (!last.isEmpty && last.all Char.isDigit) || (number? last).isSome

/-- The address of some numbers, each of which but the last is a byte.  The last one fills the
bytes that are left, of which there are `room`. -/
def ipv4From? : (room : Nat) → List Nat → Option Nat
  | 0, _ => none
  | _, [] => none
  | room, [n] => if n < Nat.pow 256 room then some n else none
  | room + 1, n :: ns =>
    if 255 < n then none else (ipv4From? room ns).map (n * Nat.pow 256 room + ·)

/-- The address that a name with a number at its end denotes. -/
def readNumbers (cs : List Char) : Except UrlFault Host :=
  match ((labels cs).mapM number?).bind (ipv4From? 4) with
  | none => .error .invalidIpv4
  | some n => .ok (.ipv4 n)

/-! ### Addresses in brackets -/

/-- A piece of one to four hexadecimal digits. -/
def piece? (cs : List Char) : Option Nat :=
  if !cs.isEmpty && cs.length ≤ 4 && cs.all isHexDigit then some (hexNumber cs) else none

/-- A byte in decimal digits without a leading zero. -/
def byte? (cs : List Char) : Option Nat :=
  match readNat? cs with
  | none => none
  | some n => if n ≤ 255 && (cs.length == 1 || cs.head? != some '0') then some n else none

/-- The two pieces of an address in four bytes. -/
def bytePieces? (cs : List Char) : Option (List Nat) :=
  match (cs.splitOn '.').mapM byte? with
  | some [a, b, c, d] => some [256 * a + b, 256 * c + d]
  | _ => none

/-- Pieces, of which the last one may be an address in four bytes. -/
def pieces? : List (List Char) → Option (List Nat)
  | [] => some []
  | [last] => if last.contains '.' then bytePieces? last else (piece? last).map ([·])
  | cs :: rest => do
    let n ← piece? cs
    let ns ← pieces? rest
    some (n :: ns)

/-- The pieces of a text with `:` between them, none for an empty one. -/
def run? (cs : List Char) : Option (List Nat) :=
  if cs.isEmpty then some [] else pieces? (cs.splitOn ':')

/-- The text before the first `::` and the text after it. -/
def cutGap : List Char → Option (List Char × List Char)
  | ':' :: ':' :: cs => some ([], cs)
  | c :: cs => (cutGap cs).map fun (a, b) => (c :: a, b)
  | [] => none

/-- Eight pieces, or fewer with `::` for those left out. -/
def ipv6? (cs : List Char) : Option (List Nat) :=
  match cutGap cs with
  | none => do
    let ps ← run? cs
    if ps.length = 8 then some ps else none
  | some (a, b) => do
    let lead ← if a.contains '.' then none else run? a
    let rest ← run? b
    let known := lead.length + rest.length
    if known < 8 then some (lead ++ List.replicate (8 - known) 0 ++ rest) else none

/-- The address in brackets, of which the first one has been read. -/
def readBracketed (cs : List Char) : Except UrlFault Host :=
  match (before? "]" cs).bind ipv6? with
  | none => .error .invalidIpv6
  | some ps => .ok (.ipv6 ps)

/-! ### Names -/

/-- A character that no name may have. -/
def isForbidden (c : Char) : Bool :=
  c.toNat ≤ 0x20 || 0x7f ≤ c.toNat || "%#/:<>?@[\\]^|".toList.contains c

/-- The name that an encoded text stands for, in lower case. -/
def readName? (cs : List Char) : Option (List Char) :=
  let decoded := (percentDecode cs).map Char.ofNat
  if decoded.any isForbidden then none else some (lower decoded)

/-- The host of a common scheme. -/
def parse (cs : List Char) : Except UrlFault Host :=
  match cs with
  | '[' :: rest => readBracketed rest
  | _ =>
    match readName? cs with
    | none => .error .invalidName
    | some [] => .error .emptyHost
    | some text => if endsInNumber text then readNumbers text else .ok (.name text)

/-- A character that no name of another scheme may have. -/
def isForbiddenOpaque (c : Char) : Bool :=
  "\x00\t\n\r #/:<>?@[\\]^|".toList.contains c

/-- The host of another scheme, which may be empty. -/
def parseOpaque (cs : List Char) : Except UrlFault Host :=
  match cs with
  | '[' :: rest => readBracketed rest
  | _ =>
    if cs.any isForbiddenOpaque then .error .invalidCharacter
    else .ok (.name (percentEncode (fun _ => false) cs))

end Requisite.Host
