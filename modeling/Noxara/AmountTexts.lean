import Noxara.ApprovalRouting

/-! Amounts of imported statements and card transactions: a text in major units, read as minor units. -/
namespace Noxara.Amounts

open Finance (AppError InI64 decimalValue trim validation)
open Approvals (parseI64)
open Words (Build)

/-- How the reader fails: with an answer, or with a panic of checked arithmetic. -/
inductive Fault
  | answer (e : AppError)
  | panic
  deriving DecidableEq

/-- The word of a sum or product. -/
def word (build : Build) (x : Int) : Except Fault Int :=
  match build.arith Words.i64 x with
  | some v => .ok v
  | none => .error .panic

/-- Trimmed, and without commas. -/
def amountText (raw : String) : List Char := (trim raw).toList.filter (· ≠ ',')

/-- What stands before the first point. -/
def wholeOf (s : List Char) : List Char := s.takeWhile (· ≠ '.')

/-- What stands after the first point. -/
def fracOf (s : List Char) : List Char := (s.dropWhile (· ≠ '.')).drop 1

/-- `str::len` counts bytes. -/
def byteLen (s : List Char) : ℕ := (s.map Char.utf8Size).sum

/-- `{:0<2}`. -/
def padded (frac : List Char) : List Char := frac ++ List.replicate (2 - frac.length) '0'

def signOf (s : List Char) (whole : Int) : Int := if whole < 0 ∨ s.head? = some '-' then -1 else 1

/-- `sign * (abs(whole) * 100 + frac)`. -/
def amountOf (build : Build) (sign whole frac : Int) : Except Fault Int := do
  let abs ← word build |whole|
  let hundreds ← word build (abs * 100)
  let magnitude ← word build (hundreds + frac)
  word build (sign * magnitude)

def invalidAmount (raw : String) : Fault := .answer (validation s!"invalid amount: {raw}")

def parseAmountToMinor (build : Build) (raw : String) : Except Fault Int :=
  let s := amountText raw
  if s.isEmpty then .error (.answer (validation "amount required"))
  else if '.' ∈ s then
    if 2 < byteLen (fracOf s) then
      .error (.answer (validation "amount supports at most 2 decimal places"))
    else
      match parseI64 (String.ofList (wholeOf s)) with
      | none => .error (invalidAmount raw)
      | some whole =>
        match parseI64 (String.ofList (padded (fracOf s))) with
        | none => .error (invalidAmount raw)
        | some frac => amountOf build (signOf s whole) whole frac
  else
    match parseI64 (String.ofList s) with
    | none => .error (invalidAmount raw)
    | some v => .ok v

theorem digit_ne {c d : Char} (hc : c.isDigit = true) (hd : d.isDigit = false) : c ≠ d := by
  rintro rfl
  rw [hc] at hd
  cases hd

theorem decimalValue_all {ds : List Char} {n : ℕ} (h : decimalValue ds = some n) :
    ∀ c ∈ ds, c.isDigit = true := by
  unfold decimalValue at h
  split_ifs at h with hall
  exact List.all_eq_true.mp hall

theorem decimalValue_cons_digit {c : Char} {ds : List Char} {n : ℕ} (h : decimalValue (c :: ds) = some n) :
    c.isDigit = true := decimalValue_all h c (List.mem_cons_self ..)

/-- Padding a fraction to two places is multiplying by what the missing places are worth. -/
theorem decimalValue_padded {frac : List Char} {f : ℕ} (h : decimalValue frac = some f)
    (hlen : frac.length ≤ 2) : decimalValue (padded frac) = some (f * 10 ^ (2 - frac.length)) := by
  have hall := decimalValue_all h
  unfold decimalValue at h ⊢
  rw [if_pos (List.all_eq_true.mpr hall)] at h
  have hzeros : ∀ k, (List.replicate k '0').all Char.isDigit = true := by
    intro k
    rw [List.all_eq_true]
    intro c hc
    rw [List.eq_of_mem_replicate hc]
    decide
  rw [padded, List.all_append, List.all_eq_true.mpr hall, hzeros, Bool.and_self, if_pos rfl, ← Option.some.inj h,
    List.foldl_append]
  congr 1
  rcases frac with _ | ⟨c, _ | ⟨d, _ | ⟨e, rest⟩⟩⟩
  · rfl
  · simp
    omega
  · simp
  · simp only [List.length_cons] at hlen
    omega

theorem byteLen_digits {frac : List Char} (h : ∀ c ∈ frac, c.isDigit = true) : byteLen frac = frac.length := by
  induction frac with
  | nil => rfl
  | cons c cs ih =>
    have hc := h c (List.mem_cons_self ..)
    have hrest := ih fun d hd => h d (List.mem_cons_of_mem _ hd)
    have hsize : c.utf8Size = 1 := by
      simp only [Char.isDigit, Bool.and_eq_true, decide_eq_true_eq] at hc
      have h2 := UInt32.le_iff_toNat_le.mp hc.2
      unfold Char.utf8Size
      rw [if_pos]
      rw [UInt32.le_iff_toNat_le]
      exact h2.trans (by decide)
    simp only [byteLen, List.map_cons, List.sum_cons, List.length_cons, hsize] at hrest ⊢
    omega

theorem parseI64_minus {ds : List Char} {n : ℕ} (hne : ds ≠ []) (h : decimalValue ds = some n) :
    parseI64 (String.ofList ('-' :: ds)) = if InI64 (-n) then some (-(n : Int)) else none := by
  simp only [parseI64, String.toList_ofList, List.isEmpty_iff, hne, if_false, h, Option.bind_some, neg_one_mul]

theorem parseI64_plain {ds : List Char} {n : ℕ} (hne : ds ≠ []) (h : decimalValue ds = some n) :
    parseI64 (String.ofList ds) = if InI64 n then some (n : Int) else none := by
  cases ds with
  | nil => exact absurd rfl hne
  | cons c cs =>
    have hc := decimalValue_cons_digit h
    have hminus : c ≠ '-' := digit_ne hc (by decide)
    have hplus : c ≠ '+' := digit_ne hc (by decide)
    unfold parseI64
    rw [String.toList_ofList]
    split
    · next cs' heq => exact absurd (List.cons.inj heq).1 hminus
    · next cs' heq => exact absurd (List.cons.inj heq).1 hplus
    · next =>
      simp only [List.isEmpty_cons, Bool.false_eq_true, if_false, h, Option.bind_some, one_mul]

private theorem signed_some {k v : Int} {ds : List Char}
    (h : (if ds.isEmpty = true then none
      else (decimalValue ds).bind fun n => if InI64 (k * n) then some (k * n) else none) =
        some v) :
    ∃ n : ℕ, ds ≠ [] ∧ decimalValue ds = some n ∧ InI64 v ∧ v = k * n := by
  split_ifs at h with hne
  obtain ⟨n, hn, hv⟩ := Option.bind_eq_some_iff.mp h
  split_ifs at hv with hrange
  cases hv
  exact ⟨n, by simpa using hne, hn, hrange, rfl⟩

/-- What the parser accepts: digits, also behind a sign of their own. -/
theorem parseI64_some {cs : List Char} {v : Int} (h : parseI64 (String.ofList cs) = some v) :
    ∃ (ds : List Char) (n : ℕ), ds ≠ [] ∧ decimalValue ds = some n ∧ InI64 v ∧
      ((cs = '-' :: ds ∧ v = -n) ∨ (cs = '+' :: ds ∧ v = n) ∨ (cs = ds ∧ v = n)) := by
  unfold parseI64 at h
  rw [String.toList_ofList] at h
  dsimp only at h
  split at h
  · obtain ⟨n, hne, hn, hrange, hv⟩ := signed_some h
    exact ⟨_, n, hne, hn, hrange, .inl ⟨rfl, by simpa using hv⟩⟩
  · obtain ⟨n, hne, hn, hrange, hv⟩ := signed_some h
    exact ⟨_, n, hne, hn, hrange, .inr (.inl ⟨rfl, by simpa using hv⟩)⟩
  · obtain ⟨n, hne, hn, hrange, hv⟩ := signed_some h
    exact ⟨_, n, hne, hn, hrange, .inr (.inr ⟨rfl, by simpa using hv⟩)⟩

end Noxara.Amounts
