import Mathlib.Tactic.Common

/-! Base64 with the standard alphabet and padding: three bytes make four digits of six bits each. -/
namespace Noxara.Base64

def digit (n : Nat) : Char :=
  Char.ofNat (if n < 26 then n + 65 else if n < 52 then n + 71 else if n < 62 then n - 4
    else if n = 62 then 43 else 47)

def value (c : Char) : Option Nat :=
  let n := c.toNat
  if 65 ≤ n ∧ n ≤ 90 then some (n - 65)
  else if 97 ≤ n ∧ n ≤ 122 then some (n - 71)
  else if 48 ≤ n ∧ n ≤ 57 then some (n + 4)
  else if n = 43 then some 62
  else if n = 47 then some 63
  else none

theorem value_digit {n : Nat} (h : n < 64) : value (digit n) = some n := by
  have hall : ∀ n : Fin 64, value (digit n) = some n.val := by decide
  exact hall ⟨n, h⟩

theorem digit_ne_pad {n : Nat} (h : n < 64) : digit n ≠ '=' := by
  have hall : ∀ n : Fin 64, digit n ≠ '=' := by decide
  exact hall ⟨n, h⟩

def encode : List UInt8 → List Char
  | a :: b :: c :: rest =>
    digit (a.toNat / 4) :: digit (a.toNat % 4 * 16 + b.toNat / 16) ::
      digit (b.toNat % 16 * 4 + c.toNat / 64) :: digit (c.toNat % 64) :: encode rest
  | [a, b] =>
    [digit (a.toNat / 4), digit (a.toNat % 4 * 16 + b.toNat / 16), digit (b.toNat % 16 * 4), '=']
  | [a] => [digit (a.toNat / 4), digit (a.toNat % 4 * 16), '=', '=']
  | [] => []

/-- What the digits carry; the bits that the last one has too many are zero. -/
def decode : List Char → Option (List UInt8)
  | [] => some []
  | x :: y :: z :: w :: rest => do
    let p ← value x
    let q ← value y
    if z = '=' then
      if w = '=' ∧ rest = [] ∧ q % 16 = 0 then some [.ofNat (p * 4 + q / 16)] else none
    else
      let r ← value z
      if w = '=' then
        if rest = [] ∧ r % 4 = 0 then some [.ofNat (p * 4 + q / 16), .ofNat (q % 16 * 16 + r / 4)] else none
      else
        let s ← value w
        let bytes ← decode rest
        some (.ofNat (p * 4 + q / 16) :: .ofNat (q % 16 * 16 + r / 4) :: .ofNat (r % 4 * 64 + s) :: bytes)
  | _ => none

theorem decode_encode (bytes : List UInt8) : decode (encode bytes) = some bytes := by
  have hbyte : ∀ (a : UInt8) (n : Nat), n = a.toNat → UInt8.ofNat n = a := by
    rintro a n rfl
    simp
  fun_induction encode bytes with
  | case1 a b c rest ih =>
    have ha := a.toNat_lt
    have hb := b.toNat_lt
    have hc := c.toNat_lt
    have hthird : b.toNat % 16 * 4 + c.toNat / 64 < 64 := by omega
    have hfourth : c.toNat % 64 < 64 := by omega
    simp only [decode, value_digit (show a.toNat / 4 < 64 by omega),
      value_digit (show a.toNat % 4 * 16 + b.toNat / 16 < 64 by omega), value_digit hthird, value_digit hfourth,
      digit_ne_pad hthird, digit_ne_pad hfourth, ih, if_false, Option.bind_eq_bind, Option.bind_some,
      Option.some.injEq, List.cons.injEq, and_true]
    exact ⟨hbyte a _ (by omega), hbyte b _ (by omega), hbyte c _ (by omega)⟩
  | case2 a b =>
    have ha := a.toNat_lt
    have hb := b.toNat_lt
    have hthird : b.toNat % 16 * 4 < 64 := by omega
    have hzero : b.toNat % 16 * 4 % 4 = 0 := by omega
    simp only [decode, value_digit (show a.toNat / 4 < 64 by omega),
      value_digit (show a.toNat % 4 * 16 + b.toNat / 16 < 64 by omega), value_digit hthird,
      digit_ne_pad hthird, hzero, if_false, if_true, Option.bind_eq_bind, Option.bind_some, and_self,
      Option.some.injEq, List.cons.injEq, and_true]
    exact ⟨hbyte a _ (by omega), hbyte b _ (by omega)⟩
  | case3 a =>
    have ha := a.toNat_lt
    have hzero : a.toNat % 4 * 16 % 16 = 0 := by omega
    simp only [decode, value_digit (show a.toNat / 4 < 64 by omega),
      value_digit (show a.toNat % 4 * 16 < 64 by omega), hzero, if_true, Option.bind_eq_bind, Option.bind_some,
      and_self, Option.some.injEq, List.cons.injEq, and_true]
    exact hbyte a _ (by omega)
  | case4 => rfl

end Noxara.Base64
