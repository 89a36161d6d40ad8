import Udplb.Foundation.Bytes
import Udplb.Foundation.Result

/-!
# Textual network addresses

The parsers of Go's `net` package that the configuration goes through.  An IP
address is kept in its 16-byte form, an IPv4 address being mapped below
`::ffff:0:0`.  A hardware address has 6, 8 or 20 bytes.
-/

namespace Udplb.Net

open Udplb.Foundation

def digit? (c : Char) : Option Nat :=
  if '0' ≤ c ∧ c ≤ '9' then some (c.toNat - '0'.toNat) else none

def hexDigit? (c : Char) : Option Nat :=
  if '0' ≤ c ∧ c ≤ '9' then some (c.toNat - '0'.toNat)
  else if 'a' ≤ c ∧ c ≤ 'f' then some (c.toNat - 'a'.toNat + 10)
  else if 'A' ≤ c ∧ c ≤ 'F' then some (c.toNat - 'A'.toNat + 10)
  else none

def digits? (digit? : Char → Option Nat) (base : Nat) (text : List Char) :
    Option Nat :=
  text.foldlM (fun acc c => (digit? c).map (base * acc + ·)) 0

/-! ## IP addresses -/

/-- A decimal field of a dotted address: no leading zero, at most 255. -/
def ipv4Field? (text : List Char) : Option UInt8 :=
  match text with
  | [] => none
  | '0' :: _ :: _ => none
  | _ => do
      let value ← digits? digit? 10 text
      if value ≤ 255 then some (UInt8.ofNat value) else none

def parseIPv4 (text : List Char) : Option Bytes := do
  let fields ← (text.splitOn '.').mapM ipv4Field?
  if fields.length = 4 then some fields else none

/-- The bytes parsed so far, the position of the ellipsis and the text left. -/
structure Ipv6Progress where
  ip : Bytes
  ellipsis : Option Nat
  rest : List Char

/-- At most `groups` more hexadecimal groups, the last one possibly dotted. -/
def ipv6Groups : Nat → List Char → Bytes → Option Nat → Option Ipv6Progress
  | 0, text, ip, ellipsis => some ⟨ip, ellipsis, text⟩
  | groups + 1, text, ip, ellipsis =>
      let digits := text.takeWhile fun c => (hexDigit? c).isSome
      if digits.length = 0 ∨ 4 < digits.length then none
      else do
        let value ← digits? hexDigit? 16 digits
        let grown := ip ++ [UInt8.ofNat (value / 256), UInt8.ofNat value]
        match text.dropWhile fun c => (hexDigit? c).isSome with
        | [] => some ⟨grown, ellipsis, []⟩
        | '.' :: _ =>
            if (ellipsis = none ∧ ip.length ≠ 12) ∨ 16 < ip.length + 4 then none
            else do
              let ipv4 ← parseIPv4 text
              some ⟨ip ++ ipv4, ellipsis, []⟩
        | ':' :: ':' :: rest =>
            if ellipsis.isSome then none
            else if rest = [] then some ⟨grown, some grown.length, []⟩
            else ipv6Groups groups rest grown (some grown.length)
        | ':' :: next :: rest => ipv6Groups groups (next :: rest) grown ellipsis
        | _ => none

/-- The ellipsis stands for at least one group of zeros. -/
def expandEllipsis (p : Ipv6Progress) : Option Bytes :=
  if p.rest ≠ [] then none
  else if p.ip.length < 16 then
    p.ellipsis.map fun position =>
      p.ip.take position ++ List.replicate (16 - p.ip.length) 0 ++
        p.ip.drop position
  else if p.ellipsis.isSome then none
  else some p.ip

def parseIPv6 (text : List Char) : Option Bytes :=
  match text with
  | [':', ':'] => some (List.replicate 16 0)
  | ':' :: ':' :: rest => (ipv6Groups 8 rest [] (some 0)).bind expandEllipsis
  | _ => (ipv6Groups 8 text [] none).bind expandEllipsis

def ipv4Mapped (ipv4 : Bytes) : Bytes :=
  List.replicate 10 0 ++ [0xff, 0xff] ++ ipv4

/-- An address with a zone is not an IP. -/
def parseIP (s : String) : Option Bytes :=
  if '%' ∈ s.toList then none
  else
    match s.toList.find? fun c => c = '.' ∨ c = ':' with
    | some '.' => (parseIPv4 s.toList).map ipv4Mapped
    | some _ => parseIPv6 s.toList
    | none => none

def to4 (ip : Bytes) : Option Bytes :=
  if ip.length = 4 then some ip
  else if ip.length = 16 ∧ ip.take 12 = ipv4Mapped [] then some (ip.drop 12)
  else none

/-- `binary.NativeEndian.Uint32` of the 4-byte form; a short slice panics. -/
def netIPv4ToUint32 (ip : Bytes) : Except RuntimeError UInt32 :=
  match to4 ip with
  | some ipv4 => .ok (UInt32.ofNat (leNat ipv4))
  | none => .error .indexOutOfRange

/-! ## Hardware addresses -/

def xtoi2 (high low : Char) : Option UInt8 :=
  (digits? hexDigit? 16 [high, low]).map UInt8.ofNat

def macOctets (separator : Char) : List Char → Option Bytes
  | [high, low] => (xtoi2 high low).map ([·])
  | high :: low :: c :: rest => do
      let byte ← xtoi2 high low
      if c ≠ separator then none
      else
        let bytes ← macOctets separator rest
        some (byte :: bytes)
  | _ => none

def macWords : List Char → Option Bytes
  | [a, b, c, d] => do
      let first ← xtoi2 a b
      let second ← xtoi2 c d
      some [first, second]
  | a :: b :: c :: d :: dot :: rest => do
      let first ← xtoi2 a b
      let second ← xtoi2 c d
      if dot ≠ '.' then none
      else
        let bytes ← macWords rest
        some (first :: second :: bytes)
  | _ => none

def parseMAC (s : String) : Option Bytes :=
  let text := s.toList
  let sized := fun bytes : Bytes =>
    if bytes.length = 6 ∨ bytes.length = 8 ∨ bytes.length = 20 then some bytes
    else none
  match text[2]?, text[4]? with
  | some ':', _ => (macOctets ':' text).bind sized
  | some '-', _ => (macOctets '-' text).bind sized
  | _, some '.' => (macWords text).bind sized
  | _, _ => none

example : parseIP "10.0.0.1" =
    some [0, 0, 0, 0, 0, 0, 0, 0, 0, 0, 0xff, 0xff, 10, 0, 0, 1] := by
  decide

example : parseIP "fe80::1:2" =
    some [0xfe, 0x80, 0, 0, 0, 0, 0, 0, 0, 0, 0, 0, 0, 1, 0, 2] := by
  decide

example : parseMAC "aa:bb:cc:dd:ee:ff" =
    some [0xaa, 0xbb, 0xcc, 0xdd, 0xee, 0xff] := by
  decide

end Udplb.Net
