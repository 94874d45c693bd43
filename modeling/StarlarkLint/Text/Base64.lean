/-!
# Bytes in base 64

Four characters spell three bytes, six bits each.  Characters outside the alphabet do not count.  An
equals sign ends the text once the group it stands in is full, the equals signs in a row counted in;
without it a text that stops inside a group spells nothing.

## Main definitions

* `sextet?` — the bits of a character.
* `decodeBase64?` — the bytes of a text.
-/

namespace StarlarkLint.Text

/-- The six bits that a character spells. -/
def sextet? (c : Char) : Option Nat :=
  if 'A' ≤ c ∧ c ≤ 'Z' then some (c.toNat - 'A'.toNat)
  else if 'a' ≤ c ∧ c ≤ 'z' then some (c.toNat - 'a'.toNat + 26)
  else if '0' ≤ c ∧ c ≤ '9' then some (c.toNat - '0'.toNat + 52)
  else if c = '+' then some 62
  else if c = '/' then some 63
  else none

/-- The whole bytes that the characters of a group spell. -/
def groupBytes : List Nat → List UInt8
  | [a, b] => [UInt8.ofNat (a * 4 + b / 16)]
  | [a, b, c] => [UInt8.ofNat (a * 4 + b / 16), UInt8.ofNat (b % 16 * 16 + c / 4)]
  | [a, b, c, d] =>
    [UInt8.ofNat (a * 4 + b / 16), UInt8.ofNat (b % 16 * 16 + c / 4), UInt8.ofNat (c % 4 * 64 + d)]
  | _ => []

/-- The bytes from a place inside a group on, with `pads` equals signs directly before it. -/
def decodeGroups (group : List Nat) (pads : Nat) : List Char → Option (List UInt8)
  | [] => if group = [] then some [] else none
  | c :: cs =>
    if c = '=' then
      if 2 ≤ group.length then
        if 4 ≤ group.length + pads + 1 then some (groupBytes group)
        else decodeGroups group (pads + 1) cs
      else decodeGroups group pads cs
    else match sextet? c with
      | none => decodeGroups group pads cs
      | some bits =>
        if group.length = 3 then
          (decodeGroups [] 0 cs).map (groupBytes (group ++ [bits]) ++ ·)
        else decodeGroups (group ++ [bits]) 0 cs

/-- The bytes that a text spells, if it spells any. -/
def decodeBase64? (text : List Char) : Option (List UInt8) := decodeGroups [] 0 text

end StarlarkLint.Text
