import Arcxa.Lib.Codec

/-!
# Base64

The standard alphabet with padding. Three bytes stand as four characters; what is left over at the
end is filled up with zero bits and `=`. The reader takes nothing but what the writer writes.
-/

namespace Arcxa.Base64

def alphabet : List Char :=
  "ABCDEFGHIJKLMNOPQRSTUVWXYZabcdefghijklmnopqrstuvwxyz0123456789+/".toList

def digitChar (n : Nat) : Char := alphabet.getD n '='

def digitValue (c : Char) : Option Nat :=
  if alphabet.idxOf c < 64 then some (alphabet.idxOf c) else none

def encodeChars : Bytes → List Char
  | [] => []
  | [a] =>
    let n := a.toNat * 16
    [digitChar (n / 64), digitChar (n % 64), '=', '=']
  | [a, b] =>
    let n := (a.toNat * 256 + b.toNat) * 4
    [digitChar (n / 4096), digitChar (n / 64 % 64), digitChar (n % 64), '=']
  | a :: b :: c :: rest =>
    let n := (a.toNat * 256 + b.toNat) * 256 + c.toNat
    digitChar (n / 262144) :: digitChar (n / 4096 % 64) :: digitChar (n / 64 % 64) ::
      digitChar (n % 64) :: encodeChars rest

def decodeChars : List Char → Option Bytes
  | [] => some []
  | [w, x, '=', '='] => do
    let n := (← digitValue w) * 64 + (← digitValue x)
    if n % 16 = 0 then some [UInt8.ofNat (n / 16)] else none
  | [w, x, y, '='] => do
    let n := ((← digitValue w) * 64 + (← digitValue x)) * 64 + (← digitValue y)
    if n % 4 = 0 then some [UInt8.ofNat (n / 1024), UInt8.ofNat (n / 4)] else none
  | w :: x :: y :: z :: rest => do
    let n := (((← digitValue w) * 64 + (← digitValue x)) * 64 + (← digitValue y)) * 64 +
      (← digitValue z)
    let tail ← decodeChars rest
    some (UInt8.ofNat (n / 65536) :: UInt8.ofNat (n / 256) :: UInt8.ofNat n :: tail)
  | _ => none

def encode (bytes : Bytes) : String := String.ofList (encodeChars bytes)

def decode (text : String) : Option Bytes := decodeChars text.toList

theorem digitValue_digitChar {n : Nat} (hn : n < 64) : digitValue (digitChar n) = some n := by
  have hall : ∀ n : Fin 64, digitValue (digitChar n) = some n.val := by decide +kernel
  exact hall ⟨n, hn⟩

theorem digitChar_ne {n : Nat} (hn : n < 64) : digitChar n ≠ '=' := by
  have hall : ∀ n : Fin 64, digitChar n ≠ '=' := by decide +kernel
  exact hall ⟨n, hn⟩

theorem decodeChars_encodeChars (bytes : Bytes) : decodeChars (encodeChars bytes) = some bytes := by
  induction bytes using encodeChars.induct with
  | case1 => rfl
  | case2 a =>
    have ha := a.toNat_lt
    simp only [encodeChars, decodeChars]
    rw [digitValue_digitChar (by omega), digitValue_digitChar (by omega)]
    have hvalue : a.toNat * 16 / 64 * 64 + a.toNat * 16 % 64 = a.toNat * 16 := by omega
    simp [hvalue]
  | case3 a b =>
    have ha := a.toNat_lt
    have hb := b.toNat_lt
    have hn : (a.toNat * 256 + b.toNat) * 4 < 262144 := by omega
    have hmul : (a.toNat * 256 + b.toNat) * 4 % 4 = 0 := Nat.mul_mod_left _ _
    have hfirst : (a.toNat * 256 + b.toNat) * 4 / 1024 = a.toNat := by omega
    have hsecond : UInt8.ofNat ((a.toNat * 256 + b.toNat) * 4 / 4) = b := by
      rw [Nat.mul_div_cancel _ (by decide)]
      exact UInt8.toNat_inj.mp (by simp)
    simp only [encodeChars]
    generalize (a.toNat * 256 + b.toNat) * 4 = n at *
    have hvalue : (n / 4096 * 64 + n / 64 % 64) * 64 + n % 64 = n := by omega
    -- with this the text is not taken for that of one byte
    have hthird : digitChar (n % 64) ≠ '=' := digitChar_ne (by omega)
    simp only [decodeChars, digitValue_digitChar (show n / 4096 < 64 by omega),
      digitValue_digitChar (show n / 64 % 64 < 64 by omega),
      digitValue_digitChar (show n % 64 < 64 by omega), Option.bind_eq_bind, Option.bind_some, hvalue,
      hmul, if_true, hfirst, hsecond, UInt8.ofNat_toNat]
  | case4 a b c rest ih =>
    have ha := a.toNat_lt
    have hb := b.toNat_lt
    have hc := c.toNat_lt
    have hn : (a.toNat * 256 + b.toNat) * 256 + c.toNat < 16777216 := by omega
    have hfirst : ((a.toNat * 256 + b.toNat) * 256 + c.toNat) / 65536 = a.toNat := by omega
    have hsecond : UInt8.ofNat (((a.toNat * 256 + b.toNat) * 256 + c.toNat) / 256) = b :=
      UInt8.toNat_inj.mp (by rw [UInt8.toNat_ofNat']; omega)
    have hthird : UInt8.ofNat ((a.toNat * 256 + b.toNat) * 256 + c.toNat) = c :=
      UInt8.toNat_inj.mp (by rw [UInt8.toNat_ofNat']; omega)
    simp only [encodeChars]
    generalize (a.toNat * 256 + b.toNat) * 256 + c.toNat = n at *
    have hvalue : ((n / 262144 * 64 + n / 4096 % 64) * 64 + n / 64 % 64) * 64 + n % 64 = n := by
      omega
    have hlast : digitChar (n % 64) ≠ '=' := digitChar_ne (by omega)
    rw [decodeChars]
    · simp only [digitValue_digitChar (show n / 262144 < 64 by omega),
        digitValue_digitChar (show n / 4096 % 64 < 64 by omega),
        digitValue_digitChar (show n / 64 % 64 < 64 by omega),
        digitValue_digitChar (show n % 64 < 64 by omega), Option.bind_eq_bind, Option.bind_some,
        hvalue, ih, hfirst, hsecond, hthird, UInt8.ofNat_toNat]
    all_goals grind

theorem decode_encode (bytes : Bytes) : decode (encode bytes) = some bytes := by
  rw [decode, encode, String.toList_ofList, decodeChars_encodeChars]

end Arcxa.Base64
