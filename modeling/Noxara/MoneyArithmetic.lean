import Mathlib.Data.Int.Lemmas
import Mathlib.Tactic.Common
import Noxara.MachineWords

/-! Money in integer minor units and the arithmetic of invoice lines. Amounts are 64-bit
integers: every `checked_*` operation of the code fails outside their range, so amounts are
integers here with the range checked where the code checks it. -/
namespace Noxara.Finance

def i32Max : Int := 2147483647

def i64Min : Int := -9223372036854775808

def i64Max : Int := 9223372036854775807

def InI64 (x : Int) : Prop := Words.i64.Has x

instance (x : Int) : Decidable (InI64 x) := inferInstanceAs (Decidable (Words.i64.Has x))

theorem inI64_iff {x : Int} : InI64 x ↔ i64Min ≤ x ∧ x ≤ i64Max := Words.has_i64

theorem inI64_of_nonneg {x : Int} (h0 : 0 ≤ x) (h : x ≤ i64Max) : InI64 x :=
  inI64_iff.mpr ⟨(show i64Min ≤ 0 by decide).trans h0, h⟩

def i64Modulus : Nat := 18446744073709551616

/-- 64-bit arithmetic where nothing checks it: the sum of the code, reduced to a signed word. -/
def wrapI64 (x : Int) : Int := Words.i64.wrap x

/-- How often a total has left the signed words. -/
def overflows (x : Int) : Int := x.bdiv i64Modulus

theorem wrapI64_eq_bmod (x : Int) : wrapI64 x = x.bmod i64Modulus := by
  have hwrap : wrapI64 x = (x + 9223372036854775808) % 18446744073709551616 - 9223372036854775808 := by
    norm_num [wrapI64, Words.Word.wrap, Words.Word.low, Words.i64, sub_eq_add_neg]
  rw [hwrap, Int.bmod_def, i64Modulus]
  split_ifs <;> omega

theorem wrapI64_eq (x : Int) : wrapI64 x = x - i64Modulus * overflows x := by
  rw [wrapI64_eq_bmod]
  exact Int.bmod_eq_self_sub_mul_bdiv x i64Modulus

theorem wrapI64_add_left (x y : Int) : wrapI64 (wrapI64 x + y) = wrapI64 (x + y) :=
  Words.Word.wrap_add_left _ x y

theorem wrapI64_of_inI64 {x : Int} (h : InI64 x) : wrapI64 x = x := Words.Word.wrap_of_has h

/-- 64-bit arithmetic that stops at the least and the largest word. -/
def saturateI64 (x : Int) : Int := max i64Min (min i64Max x)

theorem saturateI64_of_inI64 {x : Int} (h : InI64 x) : saturateI64 x = x := by
  obtain ⟨hlow, hhigh⟩ := inI64_iff.mp h
  unfold saturateI64
  omega

theorem saturateI64_of_nonneg {x : Int} (h : 0 ≤ x) : saturateI64 x = min i64Max x := by
  unfold saturateI64
  have hmax : 0 ≤ i64Max := by decide
  have hmin : i64Min ≤ 0 := by decide
  omega

/-- Check the characters of a string one by one, not all there are. -/
instance (priority := 2000) decidableForallChars (l : List Char) (p : Char → Prop)
    [DecidablePred p] : Decidable (∀ c ∈ l, p c) := List.decidableBAll p l

/-- ISO 4217 code: three upper-case ASCII letters. -/
structure Currency where
  code : String
  valid : code.toList.length = 3 ∧ ∀ c ∈ code.toList, c.isUpper
  deriving DecidableEq

inductive MoneyError
  | currencyMismatch (left right : Currency)
  | overflow
  | invalidCurrency (code : String)
  | invalidAllocationWeights
  deriving DecidableEq

def MoneyError.display : MoneyError → String
  | currencyMismatch left right => s!"currency mismatch: {left.code} vs {right.code}"
  | overflow => "overflow in money arithmetic"
  | invalidCurrency code => s!"invalid currency code: {code}"
  | invalidAllocationWeights => "allocation weights must be non-negative and sum > 0"

def Currency.new (code : String) : Except MoneyError Currency :=
  if h : code.toList.length = 3 ∧ ∀ c ∈ code.toList, c.isUpper then .ok ⟨code, h⟩
  else .error (.invalidCurrency code)

def Currency.USD : Currency := ⟨"USD", by decide⟩

theorem Currency.new_ok {code : String} {c : Currency} (h : Currency.new code = .ok c) :
    c.code = code := by
  unfold Currency.new at h
  split_ifs at h
  cases h
  rfl

/-- The result of a `checked_*` operation. -/
def checked (x : Int) : Except MoneyError Int := if InI64 x then .ok x else .error .overflow

@[simp] theorem checked_ok {x y : Int} : checked x = .ok y ↔ InI64 x ∧ x = y := by
  unfold checked
  split_ifs with h <;> simp [h]

structure Money where
  amountMinor : Int
  currency : Currency
  deriving DecidableEq

def Money.checkedAdd (a b : Money) : Except MoneyError Money :=
  if a.currency ≠ b.currency then .error (.currencyMismatch a.currency b.currency)
  else do .ok ⟨← checked (a.amountMinor + b.amountMinor), a.currency⟩

def Money.checkedSub (a b : Money) : Except MoneyError Money :=
  if a.currency ≠ b.currency then .error (.currencyMismatch a.currency b.currency)
  else do .ok ⟨← checked (a.amountMinor - b.amountMinor), a.currency⟩

/-- Half-up rounding of a fraction, away from zero on one half. The 128-bit numerator of the
callers is a product of two 64-bit integers, so only the last conversion can fail. -/
def Money.roundHalfUp (numerator denominator : Int) : Except MoneyError Int :=
  if denominator = 0 then .error .overflow
  else
    let q := numerator.natAbs / denominator.natAbs
    let r := numerator.natAbs % denominator.natAbs
    let rounded : Int := if r * 2 ≥ denominator.natAbs then q + 1 else q
    checked (if xor (numerator < 0) (denominator < 0) then -rounded else rounded)

def Money.scaleHalfUp (m : Money) (factorNum factorDen : Int) : Except MoneyError Money :=
  if factorDen = 0 then .error .overflow
  else do .ok ⟨← Money.roundHalfUp (m.amountMinor * factorNum) factorDen, m.currency⟩

structure LineInput where
  quantity : Int
  unitPriceMinor : Int
  discountMinor : Int
  taxRateBps : Int
  deriving DecidableEq, Repr

structure LineTotals where
  grossMinor : Int
  discountMinor : Int
  taxMinor : Int
  lineTotalMinor : Int
  deriving DecidableEq, Repr

structure DocumentTotals where
  subtotalMinor : Int
  discountMinor : Int
  taxMinor : Int
  totalMinor : Int
  deriving DecidableEq, Repr

def computeLine (line : LineInput) (currency : Currency) : Except MoneyError LineTotals := do
  let gross : Money := ⟨← checked (line.quantity * line.unitPriceMinor), currency⟩
  let discount : Money := ⟨line.discountMinor, currency⟩
  let taxableBase ← gross.checkedSub discount
  let tax ← taxableBase.scaleHalfUp line.taxRateBps 10000
  let lineTotal ← taxableBase.checkedAdd tax
  .ok ⟨gross.amountMinor, discount.amountMinor, tax.amountMinor, lineTotal.amountMinor⟩

def DocumentTotals.add (d : DocumentTotals) (l : LineTotals) : Except MoneyError DocumentTotals := do
  .ok ⟨← checked (d.subtotalMinor + l.grossMinor), ← checked (d.discountMinor + l.discountMinor),
    ← checked (d.taxMinor + l.taxMinor), ← checked (d.totalMinor + l.lineTotalMinor)⟩

def sumDocument (lines : List LineTotals) : Except MoneyError DocumentTotals :=
  lines.foldlM DocumentTotals.add ⟨0, 0, 0, 0⟩

def computeDocumentTotals (lines : List LineInput) (currency : Currency) :
    Except MoneyError (List LineTotals × DocumentTotals) := do
  let computed ← lines.mapM (computeLine · currency)
  let doc ← sumDocument computed
  .ok (computed, doc)

/-- Convert a document total to base currency, with half-up rounding at the total. -/
def convertToBase (amountMinor fxRateNum fxRateDen : Int) (baseCurrency : Currency) :
    Except MoneyError Int :=
  if fxRateDen ≤ 0 ∨ fxRateNum ≤ 0 then .error .overflow
  else do .ok (← Money.scaleHalfUp ⟨amountMinor, baseCurrency⟩ fxRateNum fxRateDen).amountMinor

theorem bind_ok {ε α β : Type} {x : Except ε α} {f : α → Except ε β} {b : β} :
    (x >>= f) = .ok b ↔ ∃ a, x = .ok a ∧ f a = .ok b := by
  cases x with
  | error e => simp [bind, Except.bind]
  | ok a => simp [bind, Except.bind]

theorem mapM_length {α β ε : Type} {f : α → Except ε β} {l : List α} {r : List β}
    (h : l.mapM f = .ok r) : r.length = l.length := by
  induction l generalizing r with
  | nil =>
    cases h
    rfl
  | cons a as ih =>
    simp only [List.mapM_cons, bind_ok] at h
    obtain ⟨b, _, bs, hbs, h⟩ := h
    cases h
    simp [ih hbs]

theorem computeLine_currency (line : LineInput) (c d : Currency) :
    computeLine line c = computeLine line d := by
  simp only [computeLine, Money.checkedSub, Money.checkedAdd, Money.scaleHalfUp, ne_eq, not_true, if_false,
    OfNat.ofNat_ne_zero, bind, Except.bind]
  cases checked (line.quantity * line.unitPriceMinor) with
  | error e => rfl
  | ok gross =>
    dsimp only
    cases checked (gross - line.discountMinor) with
    | error e => rfl
    | ok base =>
      dsimp only
      cases Money.roundHalfUp (base * line.taxRateBps) 10000 with
      | error e => rfl
      | ok tax =>
        simp only [not_true, if_false]
        cases checked (base + tax) with
        | error e => rfl
        | ok total => rfl

theorem computeDocumentTotals_currency (lines : List LineInput) (c d : Currency) :
    computeDocumentTotals lines c = computeDocumentTotals lines d := by
  simp only [computeDocumentTotals, computeLine_currency _ c d]

theorem computeDocumentTotals_ok {lines : List LineInput} {currency : Currency}
    {computed : List LineTotals} {doc : DocumentTotals} :
    computeDocumentTotals lines currency = .ok (computed, doc) ↔
      lines.mapM (computeLine · currency) = .ok computed ∧ sumDocument computed = .ok doc := by
  simp only [computeDocumentTotals, bind_ok, Except.ok.injEq, Prod.mk.injEq]
  constructor
  · rintro ⟨_, hc, _, hd, rfl, rfl⟩
    exact ⟨hc, hd⟩
  · exact fun ⟨hc, hd⟩ => ⟨computed, hc, doc, hd, rfl, rfl⟩

example : computeLine ⟨1, 101, 0, 550⟩ .USD = .ok ⟨101, 0, 6, 107⟩ := by decide

end Noxara.Finance
