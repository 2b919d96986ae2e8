import Mathlib.Data.List.Basic

/-! The standard base64 encoding of RFC 4648 with padding, as Go's
`base64.StdEncoding` reads and writes it. -/
namespace Configurator.Base64

def alphabet : List Char :=
  "ABCDEFGHIJKLMNOPQRSTUVWXYZabcdefghijklmnopqrstuvwxyz0123456789+/".toList

def pad : Char := '='

/-- The digit for a six-bit value. -/
def digit (value : Nat) : Char :=
  alphabet.getD value pad

/-- `EncodeToString`: three bytes make four digits, a shorter rest is padded. -/
def encode : List UInt8 → List Char
  | [] => []
  | [first] =>
    let word := first.toNat * 16
    [digit (word / 64), digit (word % 64), pad, pad]
  | [first, second] =>
    let word := (first.toNat * 256 + second.toNat) * 4
    [digit (word / 4096), digit (word / 64 % 64), digit (word % 64), pad]
  | first :: second :: third :: rest =>
    let word := (first.toNat * 256 + second.toNat) * 256 + third.toNat
    digit (word / 262144) :: digit (word / 4096 % 64) :: digit (word / 64 % 64) ::
      digit (word % 64) :: encode rest

/-- Quanta of four digits, the last of them padded at most. -/
def quanta : List Char → Bool
  | [] => true
  | [first, second, third, fourth] =>
    alphabet.contains first && alphabet.contains second &&
      ((alphabet.contains third && (alphabet.contains fourth || fourth == pad)) ||
        (third == pad && fourth == pad))
  | first :: second :: third :: fourth :: rest =>
    alphabet.contains first && alphabet.contains second && alphabet.contains third &&
      alphabet.contains fourth && quanta rest
  | _ => false

/-- `DecodeString` returns no error. Line breaks are skipped. -/
def decodes (text : List Char) : Bool :=
  quanta (text.filter fun letter => letter != '\r' && letter != '\n')

end Configurator.Base64
