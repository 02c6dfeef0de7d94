import Noxara.AmountTexts

/-! Which texts with a point the amount reader accepts, beside those that are amounts. -/
namespace Noxara.Amounts

open Finance (InI64 i64Max i64Min decimalValue)
open Approvals (parseI64)
open Words (Build)

/-- The text is an optional `-`, digits, a point and at most two digits; `v` is its value in hundredths. -/
def Denotes (s : List Char) (v : Int) : Prop :=
  ∃ (sign whole frac : List Char) (w f : ℕ), (sign = [] ∨ sign = ['-']) ∧ s = (sign ++ whole) ++ '.' :: frac ∧
    whole ≠ [] ∧ decimalValue whole = some w ∧ frac.length ≤ 2 ∧ decimalValue frac = some f ∧
    v = (if sign = [] then 1 else -1) * (w * 100 + f * 10 ^ (2 - frac.length) : ℕ)

/-- The reader does not overflow, and of the texts with a point it reads those that denote an amount of 64 bits. -/
def Meets (raw : String) : Prop :=
  ∀ build, parseAmountToMinor build raw ≠ .error .panic ∧
    ('.' ∈ amountText raw →
      ∀ v, parseAmountToMinor build raw = .ok v ↔ Denotes (amountText raw) v ∧ InI64 v)

/-- Where the text splits into two integers, neither has a `+` and the fraction no sign, and the magnitude is a
word. -/
def Plain (raw : String) : Prop :=
  '.' ∈ amountText raw → byteLen (fracOf (amountText raw)) ≤ 2 →
    ∀ w f, parseI64 (String.ofList (wholeOf (amountText raw))) = some w →
      parseI64 (String.ofList (padded (fracOf (amountText raw)))) = some f →
      (amountText raw).head? ≠ some '+' ∧
        (∀ c, (fracOf (amountText raw)).head? = some c → c ≠ '+' ∧ c ≠ '-') ∧ |w| * 100 + f ≤ i64Max

theorem word_of_inI64 {x : Int} (h : InI64 x) (build : Build) : word build x = .ok x := by
  rw [word, Build.arith_of_has h]

theorem word_debug (x : Int) : word .debug x = if InI64 x then .ok x else .error .panic := by
  by_cases h : InI64 x
  · rw [if_pos h, word_of_inI64 h]
  · have hnone : Build.debug.arith Words.i64 x = none := if_neg h
    rw [if_neg h, word, hnone]

theorem amountOf_of_le {sign whole frac : Int} (hsign : sign = 1 ∨ sign = -1) (hfrac : 0 ≤ frac)
    (hle : |whole| * 100 + frac ≤ i64Max) (build : Build) :
    amountOf build sign whole frac = .ok (sign * (|whole| * 100 + frac)) := by
  have habs := abs_nonneg whole
  have h1 : InI64 |whole| := Finance.inI64_of_nonneg habs (by omega)
  have h2 : InI64 (|whole| * 100) := Finance.inI64_of_nonneg (by omega) (by omega)
  have h3 : InI64 (|whole| * 100 + frac) := Finance.inI64_of_nonneg (by omega) hle
  have h4 : InI64 (sign * (|whole| * 100 + frac)) := by
    unfold i64Max at hle
    rw [Finance.inI64_iff, i64Min, i64Max]
    rcases hsign with rfl | rfl <;> omega
  simp only [amountOf, word_of_inI64 h1, word_of_inI64 h2, word_of_inI64 h3, word_of_inI64 h4,
    Except.bind, bind]

/-- Checked arithmetic that returns has stayed within the words. -/
theorem amountOf_debug (sign whole frac : Int) :
    amountOf .debug sign whole frac = .error .panic ∨
      ∃ v, amountOf .debug sign whole frac = .ok v ∧ |whole| * 100 + frac ≤ i64Max := by
  unfold amountOf
  simp only [word_debug]
  by_cases h1 : InI64 |whole|
  · by_cases h2 : InI64 (|whole| * 100)
    · by_cases h3 : InI64 (|whole| * 100 + frac)
      · by_cases h4 : InI64 (sign * (|whole| * 100 + frac))
        · refine .inr ⟨sign * (|whole| * 100 + frac), ?_, (Finance.inI64_iff.mp h3).2⟩
          simp only [h1, h2, h3, h4, if_true, bind, Except.bind]
        · exact .inl (by simp only [h1, h2, h3, h4, if_true, if_false, bind, Except.bind])
      · exact .inl (by simp only [h1, h2, h3, if_true, if_false, bind, Except.bind])
    · exact .inl (by simp only [h1, h2, if_true, if_false, bind, Except.bind])
  · exact .inl (by simp only [h1, if_false, bind, Except.bind])

theorem split_at_point {whole : List Char} (h : '.' ∉ whole) (frac : List Char) :
    wholeOf (whole ++ '.' :: frac) = whole ∧ fracOf (whole ++ '.' :: frac) = frac := by
  have hall : ∀ c ∈ whole, decide (c ≠ '.') = true := by
    intro c hc
    simp only [decide_eq_true_eq]
    rintro rfl
    exact h hc
  constructor
  · rw [wholeOf, List.takeWhile_append_of_pos hall]
    simp
  · rw [fracOf, List.dropWhile_append_of_pos hall]
    simp

theorem join_at_point {s : List Char} (h : '.' ∈ s) : s = wholeOf s ++ '.' :: fracOf s := by
  induction s with
  | nil => cases h
  | cons c cs ih =>
    by_cases hc : c = '.'
    · subst hc
      simp [wholeOf, fracOf]
    · have hrest := ih ((List.mem_cons.mp h).resolve_left fun he => hc he.symm)
      simp only [wholeOf, fracOf, ne_eq, hc, not_false_eq_true, decide_true, List.takeWhile_cons_of_pos,
        List.dropWhile_cons_of_pos, List.cons_append] at hrest ⊢
      exact congrArg (c :: ·) hrest

theorem not_mem_of_digits {ds : List Char} {n : ℕ} (h : decimalValue ds = some n) {c : Char}
    (hc : c.isDigit = false) : c ∉ ds := by
  intro hmem
  have := decimalValue_all h c hmem
  rw [hc] at this
  cases this

/-- A fraction is less than one. -/
theorem hundredths_le {frac : List Char} {f : ℕ} (h : decimalValue frac = some f) (hlen : frac.length ≤ 2) :
    f * 10 ^ (2 - frac.length) ≤ 99 := by
  have hdigit : ∀ c ∈ frac, c.toNat - 48 ≤ 9 := by
    intro c hc
    have hd := decimalValue_all h c hc
    simp only [Char.isDigit, Bool.and_eq_true, decide_eq_true_eq] at hd
    have hle : c.toNat ≤ 57 := UInt32.le_iff_toNat_le.mp hd.2
    omega
  unfold decimalValue at h
  split_ifs at h
  have hf := Option.some.inj h
  rcases frac with _ | ⟨c, _ | ⟨d, _ | ⟨e, rest⟩⟩⟩
  · simp only [List.foldl_nil] at hf
    subst hf
    simp
  · have hc := hdigit c (by simp)
    simp only [List.foldl_cons, List.foldl_nil, List.length_cons, List.length_nil] at hf ⊢
    omega
  · have hc := hdigit c (by simp)
    have hd := hdigit d (by simp)
    simp only [List.foldl_cons, List.foldl_nil, List.length_cons, List.length_nil] at hf ⊢
    omega
  · simp only [List.length_cons] at hlen
    omega

theorem signOf_eq (s : List Char) (whole : Int) : signOf s whole = 1 ∨ signOf s whole = -1 := by
  unfold signOf
  split_ifs
  · exact .inr rfl
  · exact .inl rfl

theorem parse_of_parts {raw : String} {w f : Int} (hpoint : '.' ∈ amountText raw)
    (hlen : byteLen (fracOf (amountText raw)) ≤ 2)
    (hw : parseI64 (String.ofList (wholeOf (amountText raw))) = some w)
    (hf : parseI64 (String.ofList (padded (fracOf (amountText raw)))) = some f) (build : Build) :
    parseAmountToMinor build raw = amountOf build (signOf (amountText raw) w) w f := by
  have hne : (amountText raw).isEmpty = false := by
    rw [List.isEmpty_eq_false_iff]
    rintro he
    simp [he] at hpoint
  have hlong : ¬2 < byteLen (fracOf (amountText raw)) := by omega
  simp only [parseAmountToMinor, hne, Bool.false_eq_true, if_false, hpoint, if_true, hlong, hw, hf]

/-- A text that denotes an amount splits into two integers without any other sign. -/
theorem Denotes.parts {s : List Char} {v : Int} (h : Denotes s v) :
    '.' ∈ s ∧ byteLen (fracOf s) ≤ 2 ∧ s.head? ≠ some '+' ∧
      (∀ c, (fracOf s).head? = some c → c ≠ '+' ∧ c ≠ '-') ∧
      (InI64 v → ∃ w f, parseI64 (String.ofList (wholeOf s)) = some w ∧
        parseI64 (String.ofList (padded (fracOf s))) = some f ∧ 0 ≤ f ∧ v = signOf s w * (|w| * 100 + f)) := by
  obtain ⟨sign, whole, frac, w, f, hsign, rfl, hne, hw, hlen, hf, hv⟩ := h
  have hpoint : '.' ∉ sign ++ whole := by
    rw [List.mem_append, not_or]
    refine ⟨?_, not_mem_of_digits hw (by decide)⟩
    rcases hsign with rfl | rfl <;> decide
  obtain ⟨hwhole, hfrac⟩ := split_at_point hpoint frac
  obtain ⟨c, cs, rfl⟩ := List.exists_cons_of_ne_nil hne
  have hc := decimalValue_cons_digit hw
  have hplus : c ≠ '+' := digit_ne hc (by decide)
  have hminus : c ≠ '-' := digit_ne hc (by decide)
  have hpadded := decimalValue_padded hf hlen
  have hsmall := hundredths_le hf hlen
  rw [hwhole, hfrac]
  refine ⟨by simp, ?_, ?_, ?_, ?_⟩
  · rw [byteLen_digits (decimalValue_all hf)]
    exact hlen
  · rcases hsign with rfl | rfl
    · simpa using hplus
    · simp
  · intro d hd
    have hdigit := decimalValue_all hf d (List.mem_of_mem_head? hd)
    exact ⟨digit_ne hdigit (by decide), digit_ne hdigit (by decide)⟩
  · intro hrange
    have hfword : InI64 ((f * 10 ^ (2 - frac.length) : ℕ) : Int) :=
      Finance.inI64_of_nonneg (by omega) (by unfold i64Max; omega)
    have hpaddedNe : padded frac ≠ [] := by
      intro he
      have := congrArg List.length he
      simp only [padded, List.length_append, List.length_replicate, List.length_nil] at this
      omega
    have hfparse := parseI64_plain hpaddedNe hpadded
    rw [if_pos hfword] at hfparse
    rw [Finance.inI64_iff, i64Min, i64Max] at hrange
    rcases hsign with rfl | rfl
    · simp only [if_true, one_mul] at hv
      have hword : InI64 (w : Int) := by
        rw [Finance.inI64_iff, i64Min, i64Max]
        omega
      have hwparse := parseI64_plain hne hw
      rw [if_pos hword] at hwparse
      refine ⟨w, _, hwparse, hfparse, by omega, ?_⟩
      have hs : signOf ([] ++ c :: cs ++ '.' :: frac) w = 1 := by
        unfold signOf
        rw [if_neg]
        simp [hminus]
      rw [hs, hv, abs_of_nonneg (by omega)]
      omega
    · simp only [List.cons_ne_nil, if_false] at hv
      have hword : InI64 (-(w : Int)) := by
        rw [Finance.inI64_iff, i64Min, i64Max]
        omega
      have hwparse := parseI64_minus hne hw
      rw [if_pos hword] at hwparse
      refine ⟨-w, _, hwparse, hfparse, by omega, ?_⟩
      have hs : signOf (['-'] ++ c :: cs ++ '.' :: frac) (-w) = -1 := by
        unfold signOf
        rw [if_pos]
        simp
      rw [hs, hv, abs_neg, abs_of_nonneg (by omega)]
      omega

/-- Two integers without any other sign are the parts of a text that denotes an amount. -/
theorem denotes_of_parts {s : List Char} {w f : Int} (hpoint : '.' ∈ s) (hlen : byteLen (fracOf s) ≤ 2)
    (hw : parseI64 (String.ofList (wholeOf s)) = some w)
    (hf : parseI64 (String.ofList (padded (fracOf s))) = some f) (hplus : s.head? ≠ some '+')
    (hsign : ∀ c, (fracOf s).head? = some c → c ≠ '+' ∧ c ≠ '-') :
    0 ≤ f ∧ Denotes s (signOf s w * (|w| * 100 + f)) := by
  have hjoin := join_at_point hpoint
  obtain ⟨ds, n, hne, hds, _, hcases⟩ := parseI64_some hw
  obtain ⟨fs, k, _, hfs, _, hfcases⟩ := parseI64_some hf
  have hchars : (fracOf s).length ≤ 2 := by
    have hle : ∀ l : List Char, l.length ≤ byteLen l := by
      intro l
      induction l with
      | nil => exact le_rfl
      | cons c cs ih =>
        have hpos := c.utf8Size_pos
        simp only [byteLen, List.length_cons, List.map_cons, List.sum_cons] at ih ⊢
        omega
    exact (hle _).trans hlen
  have hhead : ∀ c cs, padded (fracOf s) = c :: cs → c ≠ '+' ∧ c ≠ '-' := by
    intro c cs hc
    cases hfrac : fracOf s with
    | nil =>
      rw [hfrac] at hc
      cases hc
      decide
    | cons d rest =>
      rw [hfrac, padded, List.cons_append] at hc
      cases hc
      exact hsign _ (by rw [hfrac]; rfl)
  obtain ⟨hpadded, hfk⟩ : padded (fracOf s) = fs ∧ f = k := by
    rcases hfcases with ⟨hp, _⟩ | ⟨hp, _⟩ | hp
    · exact absurd rfl (hhead _ _ hp).2
    · exact absurd rfl (hhead _ _ hp).1
    · exact hp
  obtain ⟨g, hg⟩ : ∃ g, decimalValue (fracOf s) = some g := by
    unfold decimalValue
    rw [if_pos]
    · exact ⟨_, rfl⟩
    · rw [List.all_eq_true]
      intro c hc
      refine decimalValue_all hfs c ?_
      rw [← hpadded]
      exact List.mem_append_left _ hc
  have hvalue : (k : Int) = (g * 10 ^ (2 - (fracOf s).length) : ℕ) := by
    have := decimalValue_padded hg hchars
    rw [hpadded, hfs] at this
    rw [Option.some.inj this]
  have hnonneg : 0 ≤ f := by omega
  refine ⟨hnonneg, ?_⟩
  obtain ⟨c, cs, rfl⟩ := List.exists_cons_of_ne_nil hne
  have hminus : c ≠ '-' := digit_ne (decimalValue_cons_digit hds) (by decide)
  rcases hcases with ⟨hwhole, rfl⟩ | ⟨hwhole, _⟩ | ⟨hwhole, rfl⟩
  · have hs : s = (['-'] ++ c :: cs) ++ '.' :: fracOf s := by
      rw [hwhole] at hjoin
      exact hjoin
    refine ⟨['-'], c :: cs, fracOf s, n, g, .inr rfl, hs, hne, hds, hchars, hg, ?_⟩
    have hone : signOf s (-(n : Int)) = -1 := by
      unfold signOf
      rw [if_pos]
      right
      rw [hs]
      rfl
    rw [hone, abs_neg, abs_of_nonneg (by omega)]
    simp only [List.cons_ne_nil, if_false]
    omega
  · rw [hjoin, hwhole] at hplus
    exact absurd rfl hplus
  · have hs : s = ([] ++ c :: cs) ++ '.' :: fracOf s := by
      rw [hwhole] at hjoin
      exact hjoin
    refine ⟨[], c :: cs, fracOf s, n, g, .inl rfl, hs, hne, hds, hchars, hg, ?_⟩
    have hone : signOf s (n : Int) = 1 := by
      unfold signOf
      rw [if_neg]
      rintro (hneg | hdash)
      · omega
      · rw [hs] at hdash
        exact hminus (Option.some.inj hdash)
    rw [hone, abs_of_nonneg (by omega)]
    simp only [if_true]
    omega

/-- Where the text with a point does not split into two integers, the answer is an error. -/
theorem parse_error_of_parts {raw : String} (hpoint : '.' ∈ amountText raw)
    (hparts : ¬∃ w f, byteLen (fracOf (amountText raw)) ≤ 2 ∧
      parseI64 (String.ofList (wholeOf (amountText raw))) = some w ∧
      parseI64 (String.ofList (padded (fracOf (amountText raw)))) = some f) (build : Build) :
    ∃ e, parseAmountToMinor build raw = .error (.answer e) := by
  have hne : (amountText raw).isEmpty = false := by
    rw [List.isEmpty_eq_false_iff]
    rintro he
    simp [he] at hpoint
  simp only [parseAmountToMinor, hne, Bool.false_eq_true, if_false, hpoint, if_true]
  by_cases hlong : 2 < byteLen (fracOf (amountText raw))
  · exact ⟨_, if_pos hlong⟩
  · rw [if_neg hlong]
    cases hw : parseI64 (String.ofList (wholeOf (amountText raw))) with
    | none => exact ⟨_, rfl⟩
    | some w =>
      cases hf : parseI64 (String.ofList (padded (fracOf (amountText raw)))) with
      | none => exact ⟨_, rfl⟩
      | some f => exact absurd ⟨w, f, by omega, hw, hf⟩ hparts

/-- The arithmetic is reached only by a text with a point. -/
theorem parse_ne_panic {raw : String} (hpoint : '.' ∉ amountText raw) (build : Build) :
    parseAmountToMinor build raw ≠ .error .panic := by
  intro h
  unfold parseAmountToMinor invalidAmount at h
  dsimp only at h
  split_ifs at h
  · cases h
  · split at h <;> cases h

theorem Plain.meets {raw : String} (hplain : Plain raw) : Meets raw := by
  intro build
  by_cases hpoint : '.' ∈ amountText raw
  · by_cases hparts : ∃ w f, byteLen (fracOf (amountText raw)) ≤ 2 ∧
        parseI64 (String.ofList (wholeOf (amountText raw))) = some w ∧
        parseI64 (String.ofList (padded (fracOf (amountText raw)))) = some f
    · obtain ⟨w, f, hlen, hw, hf⟩ := hparts
      obtain ⟨hplus, hsign, hle⟩ := hplain hpoint hlen w f hw hf
      obtain ⟨hnonneg, hdenotes⟩ := denotes_of_parts hpoint hlen hw hf hplus hsign
      have hok := amountOf_of_le (signOf_eq (amountText raw) w) hnonneg hle build
      rw [parse_of_parts hpoint hlen hw hf build, hok]
      refine ⟨by simp, fun _ v => ?_⟩
      constructor
      · intro hv
        cases hv
        refine ⟨hdenotes, ?_⟩
        have habs := abs_nonneg w
        unfold i64Max at hle
        rw [Finance.inI64_iff, i64Min, i64Max]
        rcases signOf_eq (amountText raw) w with hs | hs <;> rw [hs] <;> omega
      · rintro ⟨hd, hrange⟩
        obtain ⟨w', f', hw', hf', _, hv⟩ := hd.parts.2.2.2.2 hrange
        obtain rfl : w = w' := Option.some.inj (hw.symm.trans hw')
        obtain rfl : f = f' := Option.some.inj (hf.symm.trans hf')
        rw [hv]
    · obtain ⟨e, he⟩ := parse_error_of_parts hpoint hparts build
      rw [he]
      refine ⟨by simp, fun _ v => ⟨(fun hv => by cases hv), ?_⟩⟩
      rintro ⟨hd, hrange⟩
      obtain ⟨_, hlen, _, _, hwords⟩ := hd.parts
      obtain ⟨w, f, hw, hf, _⟩ := hwords hrange
      exact absurd ⟨w, f, hlen, hw, hf⟩ hparts
  · exact ⟨parse_ne_panic hpoint build, fun h => absurd h hpoint⟩

theorem Meets.plain {raw : String} (hmeets : Meets raw) : Plain raw := by
  intro hpoint hlen w f hw hf
  obtain ⟨hpanic, hread⟩ := hmeets .debug
  rw [parse_of_parts hpoint hlen hw hf] at hpanic hread
  rcases amountOf_debug (signOf (amountText raw) w) w f with herror | ⟨v, hok, hle⟩
  · exact absurd herror hpanic
  · obtain ⟨hd, _⟩ := (hread hpoint v).mp hok
    obtain ⟨_, _, hplus, hsign, _⟩ := hd.parts
    exact ⟨hplus, hsign, hle⟩

/-- The reader reads exactly the amounts if and only if the text does not split into two integers with a `+`, a sign
in the fraction or a magnitude that is no word. -/
theorem amount_reader_iff (raw : String) : Meets raw ↔ Plain raw := ⟨Meets.plain, Plain.meets⟩

/-- Signs inside the fraction are read as signs of the fraction, a `+` is read, and large amounts overflow: where
arithmetic wraps, the least word is read as zero. -/
theorem amount_reader_signs :
    parseAmountToMinor .release "1.-5" = .ok 95 ∧ parseAmountToMinor .release "+1.5" = .ok 150 ∧
      parseAmountToMinor .release "-9223372036854775808.00" = .ok 0 ∧
      parseAmountToMinor .debug "92233720368547758.08" = .error .panic ∧ ¬Meets "1.-5" := by
  refine ⟨by decide +kernel, by decide +kernel, by decide +kernel, by decide +kernel, fun h => ?_⟩
  have hread : parseAmountToMinor .release "1.-5" = .ok 95 := by decide +kernel
  have hpoint : '.' ∈ amountText "1.-5" := by decide +kernel
  obtain ⟨hd, _⟩ := ((h .release).2 hpoint 95).mp hread
  have hfrac : (fracOf (amountText "1.-5")).head? = some '-' := by decide +kernel
  exact (hd.parts.2.2.2.1 '-' hfrac).2 rfl

end Noxara.Amounts
