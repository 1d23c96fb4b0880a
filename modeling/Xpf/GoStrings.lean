/-
`GoStrings.lean` -- byte strings, as the Go half of the source handles text.

A Go `string` is a sequence of bytes, valid UTF-8 or not, and the configuration
code indexes it byte by byte. So text is a `List UInt8` throughout, and the two
library functions the configuration code calls on it (`strings.Fields`,
`strings.Join`) are given here by what they do to bytes.

`strings.Fields` splits around Unicode white space. It decodes runes, but no byte
inside an encoded rune can start the encoding of a white-space rune, so looking for
the encodings at every byte position is the same thing.
-/
import Mathlib.Data.List.Basic
import Mathlib.Tactic.Common

set_option autoImplicit false

namespace Xpf.GoStrings

/-- A Go `string`. -/
abbrev Bytes := List UInt8

/-- The bytes of a string literal of the source. -/
def bytes (s : String) : Bytes := s.toUTF8.data.toList

/-- `strings.Join`. -/
def join (sep : Bytes) : List Bytes → Bytes
  | [] => []
  | [w] => w
  | w :: v :: ws => w ++ sep ++ join sep (v :: ws)

/-- The length of the white-space rune a text starts with, `0` when there is none:
the six of ASCII, and the encodings of the others `unicode.IsSpace` knows. -/
def spaceLen : Bytes → ℕ
  | [] => 0
  | c :: s =>
    if (9 ≤ c ∧ c ≤ 13) ∨ c = 32 then 1
    else
      match s with
      | [] => 0
      | c' :: s' =>
        if c = 0xC2 ∧ (c' = 0x85 ∨ c' = 0xA0) then 2
        else
          match s' with
          | [] => 0
          | c'' :: _ =>
            if c = 0xE1 ∧ c' = 0x9A ∧ c'' = 0x80 then 3
            else if c = 0xE2 ∧ c' = 0x80
                ∧ ((0x80 ≤ c'' ∧ c'' ≤ 0x8A) ∨ c'' = 0xA8 ∨ c'' = 0xA9 ∨ c'' = 0xAF) then 3
            else if c = 0xE2 ∧ c' = 0x81 ∧ c'' = 0x9F then 3
            else if c = 0xE3 ∧ c' = 0x80 ∧ c'' = 0x80 then 3
            else 0

/-- A field, unless it is empty. -/
def flush (word : Bytes) : List Bytes := if word = [] then [] else [word]

/-- The fields of a text behind `skip` bytes of white space, `word` being the field
read so far. -/
def fieldsFrom : ℕ → Bytes → Bytes → List Bytes
  | _, word, [] => flush word
  | skip + 1, word, _ :: s => fieldsFrom skip word s
  | 0, word, c :: s =>
    match spaceLen (c :: s) with
    | 0 => fieldsFrom 0 (word ++ [c]) s
    | n + 1 => flush word ++ fieldsFrom n [] s

/-- `strings.Fields`. -/
def fields (s : Bytes) : List Bytes := fieldsFrom 0 [] s

example : join (bytes " ") (fields (bytes " a\n\tbc  ")) = bytes "a bc" := by decide

end Xpf.GoStrings
