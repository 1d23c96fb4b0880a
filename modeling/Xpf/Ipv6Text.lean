/-
`Ipv6Text.lean` -- the text form of an IPv6 address, as the standard library's
`Ipv6Addr::from_str` reads it.

The reader is the usual recursive one: up to eight groups of at most four hex
digits, one `::` standing for at least one zero group, and a dotted IPv4 tail in
place of the last two groups. Readers take the remaining characters and give back
the value together with what is left, `none` when they do not apply (the library's
`read_atomically`: a failed reader consumes nothing).
-/
import Mathlib.Data.List.Basic
import Mathlib.Tactic.NormNum.Basic
import Mathlib.Tactic.Common

set_option autoImplicit false

namespace Xpf.Ipv6Text

/-- A reader: the value read and the rest of the text. -/
abbrev Reader (α : Type) := List Char → Option (α × List Char)

/-- `char::to_digit`. -/
def toDigit (radix : ℕ) (c : Char) : Option ℕ :=
  let d :=
    if '0' ≤ c ∧ c ≤ '9' then some (c.toNat - '0'.toNat)
    else if 'a' ≤ c ∧ c ≤ 'z' then some (c.toNat - 'a'.toNat + 10)
    else if 'A' ≤ c ∧ c ≤ 'Z' then some (c.toNat - 'A'.toNat + 10)
    else none
  d.filter (· < radix)

/-- The maximal run of digits, its value and its length. -/
def readDigits (radix : ℕ) : List Char → ℕ → ℕ → (ℕ × ℕ × List Char)
  | [], value, count => (value, count, [])
  | c :: cs, value, count =>
    match toDigit radix c with
    | some d => readDigits radix cs (value * radix + d) (count + 1)
    | none => (value, count, c :: cs)

/-- `read_number`: one to `maxDigits` digits, without a leading zero unless
`allowZero`, below `bound`. -/
def readNumber (radix maxDigits : ℕ) (allowZero : Bool) (bound : ℕ) : Reader ℕ := fun cs =>
  let (value, count, rest) := readDigits radix cs 0 0
  if count = 0 ∨ maxDigits < count then none
  else if !allowZero && cs.head? == some '0' && 1 < count then none
  else if bound ≤ value then none
  else some (value, rest)

/-- `read_given_char`. -/
def readGivenChar (c : Char) : Reader Unit
  | [] => none
  | d :: cs => if d = c then some ((), cs) else none

/-- `read_separator`: the separator in front of every element but the first. -/
def readSeparator {α : Type} (sep : Char) (index : ℕ) (inner : Reader α) : Reader α := fun cs =>
  if index = 0 then inner cs
  else (readGivenChar sep cs).bind fun r => inner r.2

/-- `read_ipv4_addr`: four decimal octets. -/
def readIpv4Addr : Reader (ℕ × ℕ × ℕ × ℕ) := fun cs => do
  let octet := readNumber 10 3 false 256
  let (a, cs) ← readSeparator '.' 0 octet cs
  let (b, cs) ← readSeparator '.' 1 octet cs
  let (c, cs) ← readSeparator '.' 2 octet cs
  let (d, cs) ← readSeparator '.' 3 octet cs
  pure ((a, b, c, d), cs)

/-- `read_groups`: at most `limit` groups, with the dotted tail tried first while two
slots are left. Returns the groups, whether a dotted tail ended them, and the rest. -/
def readGroups (limit : ℕ) : ℕ → ℕ → List ℕ → List Char → (List ℕ × Bool × List Char)
  | 0, _, acc, cs => (acc, false, cs)
  | slots + 1, i, acc, cs =>
    let dotted := if i + 1 < limit then readSeparator ':' i readIpv4Addr cs else none
    match dotted with
    | some ((a, b, c, d), rest) => (acc ++ [a * 256 + b, c * 256 + d], true, rest)
    | none =>
      match readSeparator ':' i (readNumber 16 4 true 65536) cs with
      | some (g, rest) => readGroups limit slots (i + 1) (acc ++ [g]) rest
      | none => (acc, false, cs)

/-- `read_ipv6_addr`: the eight groups of the address. -/
def readIpv6Addr : Reader (List ℕ) := fun cs =>
  let (head, headIpv4, rest) := readGroups 8 8 0 [] cs
  if head.length = 8 then some (head, rest)
  else if headIpv4 then none
  else do
    let (_, rest) ← readGivenChar ':' rest
    let (_, rest) ← readGivenChar ':' rest
    let limit := 8 - (head.length + 1)
    let (tail, _, rest) := readGroups limit limit 0 [] rest
    pure (head ++ List.replicate (8 - head.length - tail.length) 0 ++ tail, rest)

/-- `Ipv6Addr::from_str`: the reader has to use the whole text. -/
def parseIpv6Addr (cs : List Char) : Option (List ℕ) :=
  match readIpv6Addr cs with
  | some (groups, []) => some groups
  | _ => none

example : parseIpv6Addr "2001:db8:1::".toList
    = some [0x2001, 0xdb8, 1, 0, 0, 0, 0, 0] := by decide

end Xpf.Ipv6Text
