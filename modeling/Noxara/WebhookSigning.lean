import Noxara.AmountTexts
import Noxara.MachineWords
import Noxara.WebhookDispatch

/-! The signature header of a webhook, as its receiver checks it: a text of parts in any order, a time that has to
be near the clock, and a code over the time and the body. -/
namespace Noxara.WebhookSigning

open Finance (InI64 i64Max trim stripPrefix stripPrefix_some stripPrefix_append decimalValue hexDigit
  isWhiteSpace)
open Approvals (parseI64)
open Words (Build i64)

/-- HMAC-SHA256, any function to 32 bytes. -/
class Mac where
  hmacSha256 : (secret payload : List UInt8) → Vector UInt8 32

/-- Signatures whose timestamp is older or newer are rejected. -/
def MAX_SKEW_SECS : Int := 5 * 60

inductive SignError
  | invalidHeader | mismatch | stale | hmac
  deriving DecidableEq

def bytesOf (s : String) : List UInt8 := s.toUTF8.data.toList

/-- `hex::encode`. -/
def hexEncode (bytes : List UInt8) : String :=
  String.ofList (bytes.flatMap fun b => [hexDigit (b.toNat / 16), hexDigit (b.toNat % 16)])

section
variable [Mac]

/-- The code of `t.body`. -/
def codeOf (secret body : List UInt8) (timestamp : Int) : String :=
  hexEncode (Mac.hmacSha256 secret (bytesOf (toString timestamp ++ ".") ++ body)).toList

/-- A key of any length is taken. -/
def signV1 (secret body : List UInt8) (timestamp : Int) : Except SignError String :=
  .ok (codeOf secret body timestamp)

def sign (secret body : List UInt8) (timestamp : Int) : Except SignError String := do
  let sig ← signV1 secret body timestamp
  return "t=" ++ toString timestamp ++ ",v1=" ++ sig

end

def isAsciiHexdigit (c : Char) : Bool :=
  c.isDigit || ('a' ≤ c && c ≤ 'f') || ('A' ≤ c && c ≤ 'F')

def partsOf (header : String) : List String := (Json.splitChar ',' header).map trim

/-- A part names a time or a code, and a later one replaces an earlier one. -/
def parsePart (found : Option Int × Option String) (part : String) :
    Except SignError (Option Int × Option String) :=
  match stripPrefix part "t=" with
  | some rest =>
    match parseI64 rest with
    | some t => .ok (some t, found.2)
    | none => .error .invalidHeader
  | none =>
    match stripPrefix part "v1=" with
    | some rest =>
      if rest.isEmpty ∨ ¬rest.toList.all isAsciiHexdigit then .error .invalidHeader
      else .ok (found.1, some rest.toLower)
    | none => .ok found

def parseHeader (header : String) : Except SignError (Int × String) := do
  let found ← (partsOf header).foldlM parsePart (none, none)
  match found with
  | (some t, some v1) => .ok (t, v1)
  | _ => .error .invalidHeader

def constantTimeEq (a b : List UInt8) : Bool :=
  if a.length ≠ b.length then false
  else ((a.zip b).foldl (fun diff p => diff ||| (p.1 ^^^ p.2)) 0) = 0

/-- `(now - t).abs()`, nothing where the build panics. -/
def skew (b : Build) (now t : Int) : Option Int := do
  let diff ← b.arith i64 (now - t)
  b.arith i64 |diff|

/-- Verify a header against the body, nothing where the build panics. -/
def verify [Mac] (b : Build) (secret body : List UInt8) (header : String) (now : Int) :
    Option (Except SignError Unit) :=
  match parseHeader header with
  | .error e => some (.error e)
  | .ok (t, v1) =>
    (skew b now t).map fun s => do
      if MAX_SKEW_SECS < s then throw .stale
      let expected ← signV1 secret body t
      if ¬constantTimeEq (bytesOf expected) (bytesOf v1) then throw .mismatch

/-- What stands behind a prefix in the parts that have it. -/
def fields (pre : String) (parts : List String) : List String := parts.filterMap fun p => stripPrefix p pre

def IsHex (s : String) : Prop := s ≠ "" ∧ ∀ c ∈ s.toList, isAsciiHexdigit c = true

/-- Every time in the header is a word of 64 bits and every code is in hex, the last time is `t` and the last
code `v1`. -/
structure Says (header : String) (t : Int) (v1 : String) : Prop where
  times : ∀ s ∈ fields "t=" (partsOf header), (parseI64 s).isSome
  codes : ∀ s ∈ fields "v1=" (partsOf header), IsHex s
  time : ((fields "t=" (partsOf header)).getLast?).bind parseI64 = some t
  code : (fields "v1=" (partsOf header)).getLast? = some v1

/-- The header is good for the body at the clock: a time within the tolerance, and the code of both in any case. -/
def Good [Mac] (secret body : List UInt8) (header : String) (now : Int) : Prop :=
  ∃ t v1, Says header t v1 ∧ |now - t| ≤ MAX_SKEW_SECS ∧ v1.toLower = codeOf secret body t

theorem fields_cons (pre : String) (part : String) (parts : List String) :
    fields pre (part :: parts) = (stripPrefix part pre).toList ++ fields pre parts := by
  unfold fields
  cases h : stripPrefix part pre <;> simp [h]

theorem not_code_of_time {part rest : String} (h : stripPrefix part "t=" = some rest) :
    stripPrefix part "v1=" = none := by
  cases hcode : stripPrefix part "v1=" with
  | none => rfl
  | some rest' =>
    have htime := stripPrefix_some h
    rw [stripPrefix_some hcode] at htime
    exact absurd (List.cons.inj htime).1 (by decide)

/-- What the last text is read as, where every later text is read. -/
theorem last_append {α : Type} {f : String → Option α} {l : List String} (hall : ∀ s ∈ l, (f s).isSome)
    (first : Option String) (found : Option α) :
    (((first.toList ++ l).getLast?).bind f).or found = ((l.getLast?).bind f).or ((first.bind f).or found) := by
  rw [List.getLast?_append]
  cases hlast : l.getLast? with
  | none => cases first <;> rfl
  | some s =>
    obtain ⟨x, hx⟩ := Option.isSome_iff_exists.mp (hall s (List.mem_of_getLast? hlast))
    simp [hx]

/-- A part that is taken: what it names can be read, and takes the place of what was found before. -/
theorem parsePart_eq_ok {part : String} {found r : Option Int × Option String} :
    parsePart found part = .ok r ↔
      (∀ s ∈ (stripPrefix part "t=").toList, (parseI64 s).isSome) ∧
      (∀ s ∈ (stripPrefix part "v1=").toList, IsHex s) ∧
      r.1 = ((stripPrefix part "t=").bind parseI64).or found.1 ∧
      r.2 = ((stripPrefix part "v1=").bind fun s => some s.toLower).or found.2 := by
  have hpair : ∀ x, (Except.ok x : Except SignError _) = .ok r ↔ r.1 = x.1 ∧ r.2 = x.2 := fun x => by
    rw [Except.ok.injEq, Prod.ext_iff, eq_comm, @eq_comm _ x.2]
  cases htime : stripPrefix part "t=" with
  | some rest =>
    rw [not_code_of_time htime]
    cases hread : parseI64 rest with
    | none =>
      have herr : parsePart found part = .error .invalidHeader := by simp only [parsePart, htime, hread]
      rw [herr]
      exact iff_of_false (fun h => nomatch h) (by simp [hread])
    | some t =>
      have hok : parsePart found part = .ok (some t, found.2) := by simp only [parsePart, htime, hread]
      rw [hok, hpair]
      simp [hread]
  | none =>
    cases hcode : stripPrefix part "v1=" with
    | none =>
      have hok : parsePart found part = .ok found := by simp only [parsePart, htime, hcode]
      rw [hok, hpair]
      simp
    | some rest =>
      have hhex : IsHex rest ↔ ¬(rest.isEmpty = true ∨ ¬rest.toList.all isAsciiHexdigit = true) := by simp [IsHex]
      by_cases hbad : rest.isEmpty = true ∨ ¬rest.toList.all isAsciiHexdigit = true
      · have herr : parsePart found part = .error .invalidHeader := by
          simp only [parsePart, htime, hcode, if_pos hbad]
        rw [herr]
        exact iff_of_false (fun h => nomatch h) fun h => hhex.mp (h.2.1 rest (List.mem_singleton_self rest)) hbad
      · have hok : parsePart found part = .ok (found.1, some rest.toLower) := by
          simp only [parsePart, htime, hcode, if_neg hbad]
        rw [hok, hpair]
        simp [hhex.mpr hbad]

theorem foldlM_parsePart {parts : List String} {found r : Option Int × Option String} :
    parts.foldlM parsePart found = .ok r ↔
      (∀ s ∈ fields "t=" parts, (parseI64 s).isSome) ∧ (∀ s ∈ fields "v1=" parts, IsHex s) ∧
      r.1 = (((fields "t=" parts).getLast?).bind parseI64).or found.1 ∧
      r.2 = (((fields "v1=" parts).getLast?).bind fun s => some s.toLower).or found.2 := by
  induction parts generalizing found with
  | nil =>
    rw [List.foldlM_nil]
    constructor
    · intro h
      cases h
      exact ⟨fun s hs => absurd hs List.not_mem_nil, fun s hs => absurd hs List.not_mem_nil, rfl, rfl⟩
    · rintro ⟨-, -, ht, hc⟩
      exact congrArg Except.ok (Prod.ext ht.symm hc.symm)
  | cons part parts ih =>
    rw [List.foldlM_cons, Finance.bind_ok, fields_cons, fields_cons, List.forall_mem_append, List.forall_mem_append]
    constructor
    · rintro ⟨next, hpart, hparts⟩
      obtain ⟨htime, hcode, ht, hc⟩ := parsePart_eq_ok.mp hpart
      obtain ⟨htimes, hcodes, ht', hc'⟩ := ih.mp hparts
      refine ⟨⟨htime, htimes⟩, ⟨hcode, hcodes⟩, ?_, ?_⟩
      · rw [last_append htimes, ← ht, ht']
      · rw [last_append fun _ _ => rfl, ← hc, hc']
    · rintro ⟨⟨htime, htimes⟩, ⟨hcode, hcodes⟩, ht, hc⟩
      rw [last_append htimes] at ht
      rw [last_append fun _ _ => rfl] at hc
      exact ⟨(_, _), parsePart_eq_ok.mpr ⟨htime, hcode, rfl, rfl⟩, ih.mpr ⟨htimes, hcodes, ht, hc⟩⟩

theorem parseHeader_eq_ok {header : String} {t : Int} {c : String} :
    parseHeader header = .ok (t, c) ↔ ∃ v1, Says header t v1 ∧ c = v1.toLower := by
  have hboth : parseHeader header = .ok (t, c) ↔
      (partsOf header).foldlM parsePart (none, none) = .ok (some t, some c) := by
    unfold parseHeader
    cases (partsOf header).foldlM parsePart (none, none) with
    | error e => simp [bind, Except.bind]
    | ok found =>
      obtain ⟨t', c'⟩ := found
      cases t' <;> cases c' <;> simp [bind, Except.bind]
  rw [hboth, foldlM_parsePart]
  simp only [Option.or_none]
  constructor
  · rintro ⟨htimes, hcodes, ht, hc⟩
    obtain ⟨v1, hv1, hlower⟩ := Option.bind_eq_some_iff.mp hc.symm
    exact ⟨v1, ⟨htimes, hcodes, ht.symm, hv1⟩, (Option.some.inj hlower).symm⟩
  · rintro ⟨v1, ⟨htimes, hcodes, ht, hv1⟩, rfl⟩
    exact ⟨htimes, hcodes, ht.symm, by rw [hv1]; rfl⟩

theorem constantTimeEq_iff (a b : List UInt8) : constantTimeEq a b = true ↔ a = b := by
  have hfold : ∀ (a b : List UInt8) (diff : UInt8), a.length = b.length →
      ((a.zip b).foldl (fun diff p => diff ||| (p.1 ^^^ p.2)) diff = 0 ↔ diff = 0 ∧ a = b) := by
    intro a
    induction a with
    | nil =>
      intro b diff hlen
      cases b with
      | nil => simp
      | cons y b => cases hlen
    | cons x a ih =>
      intro b diff hlen
      cases b with
      | nil => cases hlen
      | cons y b =>
        rw [List.zip_cons_cons, List.foldl_cons, ih b _ (Nat.succ.inj hlen), UInt8.or_eq_zero_iff,
          UInt8.xor_eq_zero_iff, List.cons.injEq, and_assoc]
  unfold constantTimeEq
  by_cases hlen : a.length = b.length
  · rw [if_neg (not_not.mpr hlen), decide_eq_true_iff, hfold a b 0 hlen]
    simp
  · rw [if_pos hlen]
    exact iff_of_false Bool.false_ne_true fun heq => hlen (congrArg List.length heq)

theorem bytesOf_inj {s s' : String} (h : bytesOf s = bytesOf s') : s = s' := by
  have hbytes : s.toUTF8 = s'.toUTF8 := ByteArray.ext (Array.toList_inj.mp h)
  exact String.toByteArray_inj.mp hbytes

theorem skew_of_le {now t : Int} (h : |now - t| ≤ i64Max) (b : Build) : skew b now t = some |now - t| := by
  have hnonneg := abs_nonneg (now - t)
  obtain ⟨hlow, hhigh⟩ := abs_le.mp h
  unfold i64Max at *
  rw [skew, Build.arith_of_has (Words.has_i64.mpr ⟨by omega, hhigh⟩)]
  exact Build.arith_of_has (Words.has_i64.mpr ⟨by omega, h⟩)

/-- The difference, or its magnitude, is no word. -/
theorem skew_debug_none {now t : Int} (h : i64Max < |now - t|) : skew .debug now t = none := by
  have hkeep {x : Int} : Build.debug.arith i64 x = if i64.Has x then some x else none := rfl
  have habs : ¬i64.Has |now - t| := fun hhas => absurd (Words.has_i64.mp hhas).2 (not_le.mpr h)
  rw [skew, hkeep]
  by_cases hdiff : i64.Has (now - t)
  · rw [if_pos hdiff]
    exact if_neg habs
  · rw [if_neg hdiff]
    rfl

theorem Says.unique {header : String} {t t' : Int} {v1 v1' : String} (h : Says header t v1)
    (h' : Says header t' v1') : t = t' ∧ v1 = v1' :=
  ⟨Option.some.inj (h.time.symm.trans h'.time), Option.some.inj (h.code.symm.trans h'.code)⟩

section
variable [Mac] {secret body : List UInt8} {header : String} {now : Int}

/-- Where the time lies within 64 bits of the clock, the build does not matter, and what is accepted is good. -/
theorem verify_of_near (hnear : ∀ t v1, Says header t v1 → |now - t| ≤ i64Max) (b : Build) :
    ∃ r, verify b secret body header now = some r ∧ (r = .ok () ↔ Good secret body header now) := by
  unfold verify
  cases hparse : parseHeader header with
  | error e =>
    refine ⟨_, rfl, iff_of_false (fun h => nomatch h) ?_⟩
    rintro ⟨t, v1, hsaid, -⟩
    rw [parseHeader_eq_ok.mpr ⟨v1, hsaid, rfl⟩] at hparse
    cases hparse
  | ok found =>
    obtain ⟨t, c⟩ := found
    obtain ⟨v1, hsaid, rfl⟩ := parseHeader_eq_ok.mp hparse
    have hgood : Good secret body header now ↔ |now - t| ≤ MAX_SKEW_SECS ∧ v1.toLower = codeOf secret body t := by
      constructor
      · rintro ⟨t', v1', hsaid', hrest⟩
        obtain ⟨rfl, rfl⟩ := hsaid.unique hsaid'
        exact hrest
      · exact fun hrest => ⟨t, v1, hsaid, hrest⟩
    dsimp only
    rw [skew_of_le (hnear t v1 hsaid), Option.map_some, hgood]
    refine ⟨_, rfl, ?_⟩
    have hcode : constantTimeEq (bytesOf (codeOf secret body t)) (bytesOf v1.toLower) = true ↔
        v1.toLower = codeOf secret body t := by
      rw [constantTimeEq_iff]
      exact ⟨fun h => (bytesOf_inj h).symm, fun h => by rw [h]⟩
    by_cases hstale : MAX_SKEW_SECS < |now - t|
    · rw [if_pos hstale]
      exact iff_of_false (fun h => nomatch h) fun h => absurd h.1 (not_le.mpr hstale)
    · rw [if_neg hstale, ← hcode]
      show (if ¬constantTimeEq (bytesOf (codeOf secret body t)) (bytesOf v1.toLower) = true then
        (.error .mismatch : Except SignError Unit) else .ok ()) = .ok () ↔ _
      by_cases hsame : constantTimeEq (bytesOf (codeOf secret body t)) (bytesOf v1.toLower) = true
      · rw [if_neg (not_not.mpr hsame)]
        exact iff_of_true rfl ⟨not_lt.mp hstale, hsame⟩
      · rw [if_pos hsame]
        exact iff_of_false (fun h => nomatch h) fun h => hsame h.2

/-- A checked build panics on a time further away. -/
theorem verify_debug_none {t : Int} {v1 : String} (hsaid : Says header t v1) (hfar : i64Max < |now - t|) :
    verify .debug secret body header now = none := by
  simp only [verify, parseHeader_eq_ok.mpr ⟨v1, hsaid, rfl⟩, skew_debug_none hfar, Option.map_none]

end

theorem decimalValue_toDigits (n : ℕ) : decimalValue (Nat.toDigits 10 n) = some n := by
  unfold decimalValue
  rw [if_pos (List.all_eq_true.mpr fun c hc => Nat.isDigit_of_mem_toDigits (by decide) (by decide) hc)]
  exact congrArg some Nat.ofDigitChars_ten_toDigits

/-- The text of a number is digits, behind a minus where it is negative. -/
theorem toList_toString (t : Int) :
    (0 ≤ t ∧ (toString t).toList = Nat.toDigits 10 t.toNat) ∨
      (t < 0 ∧ (toString t).toList = '-' :: Nat.toDigits 10 (-t).toNat) := by
  cases t with
  | ofNat n => exact .inl ⟨Int.natCast_nonneg n, Nat.toList_repr⟩
  | negSucc n =>
    refine .inr ⟨Int.negSucc_lt_zero n, ?_⟩
    show ("-" ++ (n + 1).repr).toList = _
    rw [String.toList_append, Nat.toList_repr]
    rfl

theorem parseI64_toString {t : Int} (h : InI64 t) : parseI64 (toString t) = some t := by
  rw [← String.ofList_toList (s := toString t)]
  rcases toList_toString t with ⟨ht, htext⟩ | ⟨ht, htext⟩
  · rw [htext, Amounts.parseI64_plain Nat.toDigits_ne_nil (decimalValue_toDigits _), Int.toNat_of_nonneg ht]
    exact if_pos h
  · have hneg : -((-t).toNat : Int) = t := by
      rw [Int.toNat_of_nonneg (by omega), neg_neg]
    rw [htext, Amounts.parseI64_minus Nat.toDigits_ne_nil (decimalValue_toDigits _), hneg]
    exact if_pos h

theorem digit_not_space {c : Char} (h : c.isDigit = true) : isWhiteSpace c = false := by
  simp only [Char.isDigit, Bool.and_eq_true, decide_eq_true_eq] at h
  have hlow : 48 ≤ c.toNat := UInt32.le_iff_toNat_le.mp h.1
  have hhigh : c.toNat ≤ 57 := UInt32.le_iff_toNat_le.mp h.2
  simp [isWhiteSpace]
  omega

theorem mem_toString {t : Int} {c : Char} (hc : c ∈ (toString t).toList) : c = '-' ∨ c.isDigit = true := by
  have hdigit {n : ℕ} (h : c ∈ Nat.toDigits 10 n) : c.isDigit = true :=
    Nat.isDigit_of_mem_toDigits (by decide) (by decide) h
  rcases toList_toString t with ⟨-, htext⟩ | ⟨-, htext⟩ <;> rw [htext] at hc
  · exact .inr (hdigit hc)
  · exact (List.mem_cons.mp hc).imp_right hdigit

theorem mem_hexEncode {bytes : List UInt8} {c : Char} (hc : c ∈ (hexEncode bytes).toList) :
    ∃ n < 16, c = hexDigit n := by
  rw [hexEncode, String.toList_ofList, List.mem_flatMap] at hc
  obtain ⟨b, -, hc⟩ := hc
  simp only [List.mem_cons, List.not_mem_nil, or_false] at hc
  rcases hc with rfl | rfl
  · exact ⟨b.toNat / 16, by have := b.toNat_lt; omega, rfl⟩
  · exact ⟨b.toNat % 16, by omega, rfl⟩

theorem hexDigit_lower : ∀ n < 16, isAsciiHexdigit (hexDigit n) = true ∧ isWhiteSpace (hexDigit n) = false ∧
    hexDigit n ≠ ',' ∧ (hexDigit n).toLower = hexDigit n := by decide

theorem toLower_hexEncode (bytes : List UInt8) : (hexEncode bytes).toLower = hexEncode bytes := by
  rw [← String.toList_inj]
  change (String.map Char.toLower (hexEncode bytes)).toList = (hexEncode bytes).toList
  rw [String.toList_map]
  refine List.map_congr_left (g := id) (fun c hc => ?_) |>.trans (List.map_id _)
  obtain ⟨n, hn, rfl⟩ := mem_hexEncode hc
  exact (hexDigit_lower n hn).2.2.2

theorem not_time_of_code {part rest : String} (h : stripPrefix part "v1=" = some rest) :
    stripPrefix part "t=" = none := by
  cases htime : stripPrefix part "t=" with
  | none => rfl
  | some rest' =>
    rw [not_code_of_time htime] at h
    cases h

theorem partsOf_sign (t : Int) (bytes : List UInt8) :
    partsOf ("t=" ++ toString t ++ ",v1=" ++ hexEncode bytes) = ["t=" ++ toString t, "v1=" ++ hexEncode bytes] := by
  have hdigit {c : Char} (hc : c ∈ (toString t).toList) : isWhiteSpace c = false ∧ c ≠ ',' := by
    rcases mem_toString hc with rfl | hd
    · decide
    · exact ⟨digit_not_space hd, Amounts.digit_ne hd rfl⟩
  have hhex {c : Char} (hc : c ∈ (hexEncode bytes).toList) : isWhiteSpace c = false ∧ c ≠ ',' := by
    obtain ⟨n, hn, rfl⟩ := mem_hexEncode hc
    exact ⟨(hexDigit_lower n hn).2.1, (hexDigit_lower n hn).2.2.1⟩
  have hplain (pre : String) {s : String} (hpre : ∀ c ∈ pre.toList, isWhiteSpace c = false ∧ c ≠ ',')
      (hs : ∀ c ∈ s.toList, isWhiteSpace c = false ∧ c ≠ ',') :
      ∀ c ∈ (pre ++ s).toList, isWhiteSpace c = false ∧ c ≠ ',' := by
    intro c hc
    rw [String.toList_append, List.mem_append] at hc
    exact hc.elim (hpre c) (hs c)
  have htime := hplain "t=" (by decide) fun c hc => hdigit hc
  have hcode := hplain "v1=" (by decide) fun c hc => hhex hc
  have htext : ("t=" ++ toString t ++ ",v1=" ++ hexEncode bytes).toList =
      ("t=" ++ toString t).toList ++ ',' :: ("v1=" ++ hexEncode bytes).toList := by
    simp [String.toList_append]
  rw [partsOf, Json.splitChar, htext, List.splitOn_append_cons_self_of_not_mem fun hc => (htime _ hc).2 rfl,
    List.splitOn_eq_singleton fun hc => (hcode _ hc).2 rfl]
  simp only [List.map_cons, List.map_nil, String.ofList_toList]
  rw [Finance.trim_eq_self fun c hc => (htime c hc).1, Finance.trim_eq_self fun c hc => (hcode c hc).1]

theorem says_sign {t : Int} (h : InI64 t) (bytes : List UInt8) (hne : bytes ≠ []) :
    Says ("t=" ++ toString t ++ ",v1=" ++ hexEncode bytes) t (hexEncode bytes) := by
  have htimes : fields "t=" (partsOf ("t=" ++ toString t ++ ",v1=" ++ hexEncode bytes)) = [toString t] := by
    rw [partsOf_sign, fields_cons, fields_cons, stripPrefix_append, not_time_of_code (stripPrefix_append ..)]
    rfl
  have hcodes : fields "v1=" (partsOf ("t=" ++ toString t ++ ",v1=" ++ hexEncode bytes)) = [hexEncode bytes] := by
    rw [partsOf_sign, fields_cons, fields_cons, stripPrefix_append, not_code_of_time (stripPrefix_append ..)]
    rfl
  have hhex : IsHex (hexEncode bytes) := by
    refine ⟨fun hempty => ?_, fun c hc => ?_⟩
    · rw [← String.toList_inj, hexEncode, String.toList_ofList] at hempty
      cases bytes with
      | nil => exact hne rfl
      | cons b bytes => cases hempty
    · obtain ⟨n, hn, rfl⟩ := mem_hexEncode hc
      exact (hexDigit_lower n hn).1
  constructor
  · intro s hs
    rw [htimes] at hs
    rw [List.mem_singleton.mp hs, parseI64_toString h]
    rfl
  · rw [hcodes]
    simpa using hhex
  · rw [htimes]
    exact parseI64_toString h
  · rw [hcodes]
    rfl

/-- What was signed within the tolerance of the clock is accepted. -/
theorem verify_sign [Mac] (secret body : List UInt8) {now t : Int} (ht : InI64 t) (hnow : |now - t| ≤ MAX_SKEW_SECS)
    (b : Build) : ∃ header, sign secret body t = .ok header ∧ verify b secret body header now = some (.ok ()) := by
  have hne : (Mac.hmacSha256 secret (bytesOf (toString t ++ ".") ++ body)).toList ≠ [] := by
    intro hnil
    have := congrArg List.length hnil
    simp at this
  have hsaid := says_sign ht _ hne
  have hnear : ∀ t' v1, Says ("t=" ++ toString t ++ ",v1=" ++ codeOf secret body t) t' v1 → |now - t'| ≤
      i64Max := by
    intro t' v1 hsaid'
    rw [← (hsaid.unique hsaid').1]
    exact hnow.trans (by decide)
  obtain ⟨r, hr, hiff⟩ : ∃ r, verify b secret body _ now = some r ∧ (r = .ok () ↔ Good secret body _ now) :=
    verify_of_near hnear b
  refine ⟨_, rfl, hr.trans (congrArg some (hiff.mpr ?_))⟩
  exact ⟨t, _, hsaid, hnow, toLower_hexEncode _⟩

/-- No build overflows, and just the good headers are accepted, if and only if the time in the header, where it has
one, lies within 64 bits of the clock; and what was signed within the tolerance is accepted. -/
theorem verify_exact_iff [Mac] (secret body : List UInt8) (now : Int) :
    (∀ header, (∀ b, ∃ r, verify b secret body header now = some r ∧
      (r = .ok () ↔ Good secret body header now)) ↔
      ∀ t v1, Says header t v1 → |now - t| ≤ i64Max) ∧
    ∀ t, InI64 t → |now - t| ≤ MAX_SKEW_SECS → ∀ b, ∃ header, sign secret body t = .ok header ∧
      verify b secret body header now = some (.ok ()) := by
  refine ⟨fun header => ⟨fun h t v1 hsaid => ?_, verify_of_near⟩,
    fun t ht hnow => verify_sign secret body ht hnow⟩
  by_contra hfar
  obtain ⟨r, hr, -⟩ := h .debug
  rw [verify_debug_none hsaid (not_le.mp hfar)] at hr
  cases hr

theorem verify_exact_iff_signed :
    letI : Mac := ⟨fun _ _ => Vector.replicate 32 0⟩
    ∃ header, sign [1] [2] 1700000000 = .ok header ∧
      verify .release [1] [2] header 1700000300 = some (.ok ()) := by
  let : Mac := ⟨fun _ _ => Vector.replicate 32 0⟩
  exact (verify_exact_iff [1] [2] 1700000300).2 1700000000 (by decide) (by decide) .release

/-- The least time makes a checked build panic; and 2^63 seconds before the clock the difference wraps to a word
whose magnitude wraps to itself, so that a build without checks takes a time out of all tolerance. -/
theorem verify_far_time :
    letI : Mac := ⟨fun _ _ => Vector.replicate 32 0⟩
    verify .debug [1] [2] "t=-9223372036854775808,v1=00" 1700000000 = none ∧
      ∃ header, sign [1] [2] (1700000000 - 2 ^ 63) = .ok header ∧
        verify .release [1] [2] header 1700000000 = some (.ok ()) ∧ ¬Good [1] [2] header 1700000000 := by
  let : Mac := ⟨fun _ _ => Vector.replicate 32 0⟩
  have ht : InI64 (1700000000 - 2 ^ 63) := by decide
  refine ⟨by decide +kernel, _, rfl, by decide +kernel, ?_⟩
  rintro ⟨t, v1, hsaid, hnear, -⟩
  have hsigned := says_sign ht
    (Mac.hmacSha256 [1] (bytesOf (toString (1700000000 - 2 ^ 63 : Int) ++ ".") ++ [2])).toList
    (by decide)
  rw [← (hsigned.unique hsaid).1] at hnear
  revert hnear
  decide

end Noxara.WebhookSigning
