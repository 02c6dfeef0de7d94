import Noxara.AmountTexts
import Noxara.JsonValues
import Noxara.MachineWords
import Noxara.SortedMaps

/-! Formula fields: infix expressions over the values of the same record, computed while they are read. -/
namespace Noxara.Custom

open Finance (isWhiteSpace i64Max)
open Approvals (parseI64)
open Words (Build i64)

/-- The values of a record, by the name of the field. -/
abbrev Values := SortedMap String Json

inductive FormulaError
  | parse (detail : String)
  | runtime (detail : String)
  | escape
  deriving DecidableEq

/-- More calls inside each other than a run of the parser had: none of its own errors has this text. -/
def unfinished : FormulaError := .parse ""

/-- What the tables of the standard library say of a character: is it printed as it is? -/
class CharTables where
  isPrintable : Char → Bool

/-- A result or an error, or else a panic. -/
abbrev Run (α : Type) := ExceptT FormulaError Option α

namespace Run
variable {α β : Type}

def panics : Run α := ExceptT.mk none

def of (x : Except FormulaError α) : Run α := ExceptT.mk (some x)

@[simp] theorem panics_bind (f : α → Run β) : (panics >>= f) = panics := rfl

@[simp] theorem of_error_bind (e : FormulaError) (f : α → Run β) : (of (.error e) >>= f) = of (.error e) := rfl

@[simp] theorem of_ok_bind (a : α) (f : α → Run β) : (of (.ok a) >>= f) = f a := rfl

theorem of_inj {x y : Except FormulaError α} : of x = of y ↔ x = y :=
  ⟨fun h => Option.some.inj h, fun h => by rw [h]⟩

theorem of_ne_panics (x : Except FormulaError α) : of x ≠ panics := fun h => by cases h

theorem cases (x : Run α) : x = panics ∨ ∃ y, x = of y := by
  cases h : x.run with
  | none => exact .inl h
  | some y => exact .inr ⟨y, h⟩

theorem bind_eq_ok {x : Run α} {f : α → Run β} {b : β} :
    (x >>= f) = of (.ok b) ↔ ∃ a, x = of (.ok a) ∧ f a = of (.ok b) := by
  rcases cases x with rfl | ⟨_ | a, rfl⟩
  · refine ⟨fun h => (by cases h), ?_⟩
    rintro ⟨_, h, -⟩
    cases h
  · refine ⟨fun h => (by cases h), ?_⟩
    rintro ⟨_, h, -⟩
    cases h
  · rw [of_ok_bind]
    refine ⟨fun h => ⟨a, rfl, h⟩, ?_⟩
    rintro ⟨_, h, hf⟩
    cases h
    exact hf

theorem bind_ne_error {x : Run α} {f : α → Run β} {e : FormulaError} (hx : x ≠ of (.error e))
    (hf : ∀ a, x = of (.ok a) → f a ≠ of (.error e)) : (x >>= f) ≠ of (.error e) := by
  rcases cases x with rfl | ⟨_ | a, rfl⟩
  · intro h
    cases h
  · intro h
    cases h
    exact hx rfl
  · rw [of_ok_bind]
    exact hf a rfl

theorem bind_congr {x y : Run α} {f g : α → Run β} (hx : x = y) (hf : ∀ a, x = of (.ok a) → f a = g a) :
    (x >>= f) = (y >>= g) := by
  subst hx
  rcases cases x with rfl | ⟨_ | a, rfl⟩
  · rfl
  · rfl
  · exact hf a rfl

end Run

def asI64 : Json → Except FormulaError Int
  | .number (.posInt n) => if (n : Int) ≤ i64Max then .ok n else .error (.runtime "non-integer number")
  | .number (.negInt n) => .ok n
  | .number (.float _) => .error (.runtime "non-integer number")
  | .null => .ok 0
  | _ => .error (.runtime "expected integer")

def ofI64 (n : Int) : Json := .number (if n < 0 then .negInt n else .posInt n.toNat)

/-- The operators of the language are the machine's own. -/
def numOp (b : Build) (left right : Json) (f : Int → Int → Int) : Run Json := do
  let ai ← Run.of (asI64 left)
  let bi ← Run.of (asI64 right)
  match b.arith i64 (f ai bi) with
  | some n => pure (ofI64 n)
  | none => Run.panics

/-- What `str::parse::<i64>` says of a text that it refuses. -/
def parseIntError (s : String) : String :=
  match s.toList with
  | ['-'] => "invalid digit found in string"
  | '-' :: _ => "number too small to fit in target type"
  | _ => "number too large to fit in target type"

/-- `char::escape_debug`, inside the quotes of a character. -/
def escapeDebug [CharTables] (c : Char) : String :=
  match c with
  | '\x00' => "\\0"
  | '\t' => "\\t"
  | '\r' => "\\r"
  | '\n' => "\\n"
  | '\'' => "\\'"
  | '\\' => "\\\\"
  | c =>
    if CharTables.isPrintable c then String.singleton c
    else "\\u\x7b" ++ String.ofList (Nat.toDigits 16 c.toNat) ++ "\x7d"

def debugPeek [CharTables] : Option Char → String
  | none => "None"
  | some c => "Some('" ++ escapeDebug c ++ "')"

def skipWs (cs : List Char) : List Char := cs.dropWhile isWhiteSpace

def isFieldChar (c : Char) : Bool := c.isAlphanum || c = '_'

/-- The number that a text begins with, and what is left. -/
def readNumber (cs : List Char) : Except FormulaError (Int × List Char) :=
  let sign := (cs.take 1).filter fun c => c = '-'
  let digits := (cs.drop sign.length).takeWhile Char.isDigit
  let rest := (cs.drop sign.length).dropWhile Char.isDigit
  let s := String.ofList (sign ++ digits)
  if rest.head? = some '.' then .error (.parse "floats forbidden — use integer minor units for money")
  else
    match parseI64 s with
    | some n => .ok (n, rest)
    | none => .error (.parse s!"bad number: {parseIntError s}")

/-- The name that a text begins with, and what is left. -/
def readName (cs : List Char) : String × List Char :=
  (String.ofList (cs.takeWhile isFieldChar), cs.dropWhile isFieldChar)

def fieldValue (values : Values) (name : String) : Json :=
  match values.get name with
  | some v => (v.get "amount_minor").getD v
  | none => .null

/-- A function of the parser, or the loop in it over the operators that follow. -/
inductive Part (α : Type)
  | expr
  | sums (left : α)
  | term
  | products (left : α)
  | factor

def parseNumber (cs : List Char) : Run (Json × List Char) :=
  Run.of ((readNumber cs).map fun x => (ofI64 x.1, x.2))

def parseField (values : Values) (cs : List Char) : Run (Json × List Char) :=
  let name := readName cs
  pure (fieldValue values name.1, name.2)

section
variable [CharTables]

/-- The first number bounds the calls inside each other; `parse_eq` and `parse_finishes` say that it does not matter. -/
def parse (b : Build) (values : Values) : Nat → Part Json → List Char → Run (Json × List Char)
  | 0, _, _ => throw unfinished
  | n + 1, .expr, cs => do
    let left ← parse b values n .term cs
    parse b values n (.sums left.1) left.2
  | n + 1, .sums left, cs =>
    match skipWs cs with
    | '+' :: cs => do
      let right ← parse b values n .term cs
      let left ← numOp b left right.1 (· + ·)
      parse b values n (.sums left) right.2
    | '-' :: cs => do
      let right ← parse b values n .term cs
      let left ← numOp b left right.1 (· - ·)
      parse b values n (.sums left) right.2
    | cs => pure (left, cs)
  | n + 1, .term, cs => do
    let left ← parse b values n .factor cs
    parse b values n (.products left.1) left.2
  | n + 1, .products left, cs =>
    match skipWs cs with
    | '*' :: cs => do
      let right ← parse b values n .factor cs
      let left ← numOp b left right.1 (· * ·)
      parse b values n (.products left) right.2
    | cs => pure (left, cs)
  | n + 1, .factor, cs =>
    match skipWs cs with
    | '(' :: cs => do
      let v ← parse b values n .expr cs
      if (skipWs v.2).head? = some ')' then pure (v.1, (skipWs v.2).tail) else throw (.parse "expected ')'")
    | c :: cs =>
      if c.isDigit || c = '-' then parseNumber (c :: cs)
      else if c.isAlpha || c = '_' then parseField values (c :: cs)
      else throw (.parse s!"unexpected {debugPeek (some c)}")
    | [] => throw (.parse s!"unexpected {debugPeek none}")

attribute [local simp] parse

section
variable (b : Build) (values : Values) (n : Nat) (left : Json) {cs after : List Char}

theorem parse_plus (h : skipWs cs = '+' :: after) : parse b values (n + 1) (.sums left) cs =
    (parse b values n .term after >>= fun right => numOp b left right.1 (· + ·) >>= fun left =>
      parse b values n (.sums left) right.2) := by
  simp only [parse, h]

theorem parse_minus (h : skipWs cs = '-' :: after) : parse b values (n + 1) (.sums left) cs =
    (parse b values n .term after >>= fun right => numOp b left right.1 (· - ·) >>= fun left =>
      parse b values n (.sums left) right.2) := by
  simp only [parse, h]

theorem parse_sums_end (hplus : (skipWs cs).head? ≠ some '+') (hminus : (skipWs cs).head? ≠ some '-') :
    parse b values (n + 1) (.sums left) cs = pure (left, skipWs cs) := by
  simp only [parse]
  split
  · next h => exact absurd (congrArg List.head? h) hplus
  · next h => exact absurd (congrArg List.head? h) hminus
  · rfl

theorem parse_star (h : skipWs cs = '*' :: after) : parse b values (n + 1) (.products left) cs =
    (parse b values n .factor after >>= fun right => numOp b left right.1 (· * ·) >>= fun left =>
      parse b values n (.products left) right.2) := by
  simp only [parse, h]

theorem parse_parens (h : skipWs cs = '(' :: after) : parse b values (n + 1) .factor cs =
    (parse b values n .expr after >>= fun v =>
      if (skipWs v.2).head? = some ')' then pure (v.1, (skipWs v.2).tail) else throw (.parse "expected ')'")) := by
  simp only [parse, h]

theorem parse_factor {c : Char} (h : skipWs cs = c :: after) (hc : c ≠ '(') : parse b values (n + 1) .factor cs =
    if c.isDigit || c = '-' then parseNumber (c :: after)
    else if c.isAlpha || c = '_' then parseField values (c :: after)
    else throw (.parse s!"unexpected {debugPeek (some c)}") := by
  simp only [parse, h]

theorem parse_factor_nil (h : skipWs cs = []) :
    parse b values (n + 1) .factor cs = throw (.parse s!"unexpected {debugPeek none}") := by
  simp only [parse, h]

theorem parse_products_end (hstar : (skipWs cs).head? ≠ some '*') :
    parse b values (n + 1) (.products left) cs = pure (left, skipWs cs) := by
  simp only [parse]
  split
  · next h => exact absurd (congrArg List.head? h) hstar
  · rfl

end

/-- How many calls inside each other reading a text of this length takes. -/
def Part.depth {α : Type} (k : Nat) : Part α → Nat
  | .expr => 3 * k + 3
  | .term => 3 * k + 2
  | _ => 3 * k + 1

def parseExpr (b : Build) (values : Values) (cs : List Char) : Run (Json × List Char) :=
  parse b values ((Part.expr : Part Json).depth cs.length) .expr cs

def bannedWords : List String := ["http", "fetch", "fs::", "env::", "sql", "require", "import"]

def escapes (expr : String) : Bool := bannedWords.any fun banned => banned.toList <:+: expr.toLower.toList

def evalFormula (b : Build) (expr : String) (values : Values) : Run Json :=
  if escapes expr then throw .escape
  else do
    let v ← parseExpr b values expr.toList
    if skipWs v.2 = [] then pure v.1 else throw (.parse "trailing input")

end

theorem skipWs_suffix (cs : List Char) : skipWs cs <:+ cs := List.dropWhile_suffix _

theorem length_skipWs {c : Char} {cs rest : List Char} (h : skipWs cs = c :: rest) : rest.length < cs.length := by
  have hlength := (skipWs_suffix cs).length_le
  rw [h, List.length_cons] at hlength
  omega

/-- Does the part of the parser consume something? -/
def Part.Consumes {α : Type} : Part α → Prop
  | .expr | .term | .factor => True
  | _ => False

/-- What is left of a text that a part of the parser has read. -/
structure Leaves {α : Type} (part : Part α) (cs rest : List Char) : Prop where
  length_le : rest.length ≤ cs.length
  shorter : part.Consumes → rest.length < cs.length

theorem dropWhile_shorter {p : Char → Bool} {c : Char} {cs : List Char} (h : p c = true) :
    ((c :: cs).dropWhile p).length < (c :: cs).length := by
  have hle := (List.dropWhile_suffix p (l := cs)).length_le
  simp only [List.dropWhile_cons, h, if_true, List.length_cons]
  omega

theorem readNumber_rest {cs rest : List Char} {n : Int} (h : readNumber cs = .ok (n, rest)) :
    rest = (cs.drop ((cs.take 1).filter fun c => c = '-').length).dropWhile Char.isDigit := by
  simp only [readNumber] at h
  split_ifs at h
  split at h
  · cases h
    rfl
  · cases h

theorem readNumber_shorter {c : Char} {cs rest : List Char} {n : Int} (hc : (c.isDigit || c = '-') = true)
    (h : readNumber (c :: cs) = .ok (n, rest)) : rest.length < (c :: cs).length := by
  rw [readNumber_rest h]
  by_cases hminus : c = '-'
  · subst hminus
    have hle := (List.dropWhile_suffix Char.isDigit (l := cs)).length_le
    simp only [List.take_succ_cons, List.take_zero, decide_true, List.filter_cons_of_pos, List.filter_nil,
      List.length_cons, List.length_nil, List.drop_succ_cons, List.drop_zero]
    omega
  · have hdigit : c.isDigit = true := by simpa [hminus] using hc
    have hsign : ((c :: cs).take 1).filter (fun c => c = '-') = [] := by simp [hminus]
    rw [hsign]
    exact dropWhile_shorter hdigit

theorem isFieldChar_of_first {c : Char} (h : (c.isAlpha || c = '_') = true) : isFieldChar c = true := by
  simp only [isFieldChar, Char.isAlphanum, Bool.or_eq_true] at h ⊢
  exact h.imp_left Or.inl

theorem readName_shorter {c : Char} {cs : List Char} (hc : (c.isAlpha || c = '_') = true) :
    (readName (c :: cs)).2.length < (c :: cs).length := dropWhile_shorter (isFieldChar_of_first hc)

theorem append_ne_empty {s : String} (hs : s.toList ≠ []) (t : String) : s ++ t ≠ "" := by
  intro h
  have hnil : s.toList ++ t.toList = [] := by
    rw [← String.toList_append, h]
    rfl
  exact hs (List.append_eq_nil_iff.mp hnil).1

theorem parse_ne_unfinished {detail : String} (h : detail ≠ "") {α : Type} :
    (throw (.parse detail) : Run α) ≠ Run.of (.error unfinished) := by
  intro hthrow
  cases hthrow
  exact h rfl

theorem numOp_ne_unfinished {b : Build} (left right : Json) (f : Int → Int → Int) :
    numOp b left right f ≠ Run.of (.error unfinished) := by
  have hasI64 : ∀ v, asI64 v ≠ .error unfinished := by
    intro v h
    unfold asI64 at h
    split at h <;> (try split_ifs at h) <;> cases h
  refine Run.bind_ne_error (fun h => hasI64 _ (Run.of_inj.mp h)) fun ai _ => ?_
  refine Run.bind_ne_error (fun h => hasI64 _ (Run.of_inj.mp h)) fun bi _ => ?_
  split
  · intro h
    cases h
  · intro h
    cases h

theorem parseNumber_ne_unfinished (cs : List Char) : parseNumber cs ≠ Run.of (.error unfinished) := by
  intro h
  have hread : readNumber cs = .error unfinished := by
    cases hread : readNumber cs with
    | error e =>
      rw [parseNumber, hread] at h
      cases h
      rfl
    | ok x =>
      rw [parseNumber, hread] at h
      cases h
  simp only [readNumber] at hread
  split_ifs at hread
  · simp [unfinished] at hread
  · split at hread
    · cases hread
    · simp [unfinished, toString] at hread

section
variable [CharTables] {b : Build} {values : Values}

theorem parse_leaves {n : Nat} {part : Part Json} {cs rest : List Char} {v : Json}
    (h : parse b values n part cs = Run.of (.ok (v, rest))) : Leaves part cs rest := by
  induction n generalizing part cs rest v with
  | zero => cases h
  | succ n ih =>
    -- after an operand comes the loop over the operators
    have hloop : ∀ (left : Part Json) (loop : Json → Part Json) {cs rest : List Char} {v : Json}, left.Consumes →
        (parse b values n left cs >>= fun l => parse b values n (loop l.1) l.2) = Run.of (.ok (v, rest)) →
        rest.length < cs.length := by
      intro left loop cs rest v hleft hrun
      obtain ⟨l, hl, hrun⟩ := Run.bind_eq_ok.mp hrun
      exact lt_of_le_of_lt (ih hrun).length_le ((ih hl).shorter hleft)
    have hoperator : ∀ {c : Char} {operand : Part Json} {loop : Json → Part Json} {f : Int → Int → Int}
      {left : Json}
        {cs after rest : List Char} {v : Json}, skipWs cs = c :: after →
        (parse b values n operand after >>= fun r => numOp b left r.1 f >>= fun l => parse b values n (loop l) r.2) =
          Run.of (.ok (v, rest)) → rest.length ≤ cs.length := by
      intro c operand loop f left cs after rest v hskip hrun
      obtain ⟨r, hr, hrun⟩ := Run.bind_eq_ok.mp hrun
      obtain ⟨l, _, hrun⟩ := Run.bind_eq_ok.mp hrun
      exact ((ih hrun).length_le.trans (ih hr).length_le).trans (length_skipWs hskip).le
    cases part with
    | expr =>
      have hshorter := hloop .term .sums trivial h
      exact ⟨hshorter.le, fun _ => hshorter⟩
    | term =>
      have hshorter := hloop .factor .products trivial h
      exact ⟨hshorter.le, fun _ => hshorter⟩
    | sums left =>
      refine ⟨?_, False.elim⟩
      simp only [parse] at h
      split at h
      · exact hoperator ‹_› h
      · exact hoperator ‹_› h
      · cases h
        exact (skipWs_suffix cs).length_le
    | products left =>
      refine ⟨?_, False.elim⟩
      simp only [parse] at h
      split at h
      · exact hoperator ‹_› h
      · cases h
        exact (skipWs_suffix cs).length_le
    | factor =>
      have hshorter : rest.length < cs.length := by
        simp only [parse] at h
        split at h
        · rename_i after hskip
          obtain ⟨inner, hinner, h⟩ := Run.bind_eq_ok.mp h
          split_ifs at h with hclose
          · cases h
            have htail := (List.tail_suffix (skipWs inner.2)).length_le.trans (skipWs_suffix inner.2).length_le
            exact (htail.trans (ih hinner).length_le).trans_lt (length_skipWs hskip)
          · cases h
        · rename_i c after _ hskip
          have hlength := (skipWs_suffix cs).length_le
          rw [hskip] at hlength
          refine lt_of_lt_of_le ?_ hlength
          split_ifs at h with hnumber hfield
          · cases hread : readNumber (c :: after) with
            | error e =>
              rw [parseNumber, hread] at h
              cases h
            | ok x =>
              rw [parseNumber, hread] at h
              cases h
              exact readNumber_shorter hnumber hread
          · cases h
            exact readName_shorter hfield
          · cases h
        · cases h
      exact ⟨hshorter.le, fun _ => hshorter⟩

/-- A depth that suffices is enough. -/
theorem parse_eq {m n : Nat} {part : Part Json} {cs : List Char} (hn : part.depth cs.length ≤ n)
    (hm : part.depth cs.length ≤ m) : parse b values n part cs = parse b values m part cs := by
  induction n generalizing m part cs with
  | zero => cases part <;> simp [Part.depth] at hn
  | succ n ih =>
    obtain ⟨m, rfl⟩ : ∃ k, m = k + 1 :=
      Nat.exists_eq_succ_of_ne_zero (by cases part <;> simp [Part.depth] at hm <;> omega)
    have hoperator : ∀ {c : Char} {operand : Part Json} {loop : Json → Part Json} {f : Int → Int → Int}
      {left : Json}
        {after : List Char}, skipWs cs = c :: after → 3 * cs.length ≤ n → 3 * cs.length ≤ m →
        operand.depth after.length ≤ 3 * after.length + 2 → (∀ l k, (loop l).depth k = 3 * k + 1) →
        (parse b values n operand after >>= fun r => numOp b left r.1 f >>= fun l => parse b values n (loop l) r.2) =
          (parse b values m operand after >>= fun r => numOp b left r.1 f >>= fun l =>
            parse b values m (loop l) r.2) := by
      intro c operand loop f left after hskip hn hm hoperand hloop
      have hshorter := length_skipWs hskip
      refine Run.bind_congr (ih (by omega) (by omega)) fun r hr => ?_
      have hlength := (parse_leaves hr).length_le
      refine Run.bind_congr rfl fun l _ => ?_
      refine ih ?_ ?_ <;> rw [hloop] <;> omega
    have hloop : ∀ (left : Part Json) (loop : Json → Part Json), left.Consumes → left.depth cs.length ≤ n →
        left.depth cs.length ≤ m → 3 * cs.length ≤ n + 2 → 3 * cs.length ≤ m + 2 →
        (∀ l k, (loop l).depth k = 3 * k + 1) →
        (parse b values n left cs >>= fun l => parse b values n (loop l.1) l.2) =
          (parse b values m left cs >>= fun l => parse b values m (loop l.1) l.2) := by
      intro left loop hleft hn hm hn' hm' hloop
      refine Run.bind_congr (ih hn hm) fun l hl => ?_
      have hshorter := (parse_leaves hl).shorter hleft
      refine ih ?_ ?_ <;> rw [hloop] <;> omega
    cases part with
    | expr =>
      simp only [Part.depth] at hn hm
      exact hloop .term .sums trivial (by simp only [Part.depth]; omega)
        (by simp only [Part.depth]; omega) (by omega) (by omega) fun _ _ => rfl
    | term =>
      simp only [Part.depth] at hn hm
      exact hloop .factor .products trivial (by simp only [Part.depth]; omega)
        (by simp only [Part.depth]; omega) (by omega) (by omega) fun _ _ => rfl
    | sums left =>
      simp only [Part.depth] at hn hm
      simp only [parse]
      split
      · exact hoperator ‹_› (by omega) (by omega) le_rfl fun _ _ => rfl
      · exact hoperator ‹_› (by omega) (by omega) le_rfl fun _ _ => rfl
      · rfl
    | products left =>
      simp only [Part.depth] at hn hm
      simp only [parse]
      split
      · exact hoperator ‹_› (by omega) (by omega) (by simp only [Part.depth]; omega) fun _ _ => rfl
      · rfl
    | factor =>
      simp only [Part.depth] at hn hm
      simp only [parse]
      split
      · rename_i after hskip
        have hshorter := length_skipWs hskip
        exact Run.bind_congr (ih (by simp only [Part.depth]; omega) (by simp only [Part.depth]; omega))
          fun _ _ => rfl
      · rfl
      · rfl

/-- The calls inside each other that a text of this length takes are enough. -/
theorem parse_finishes {n : Nat} {part : Part Json} {cs : List Char} (hn : part.depth cs.length ≤ n) :
    parse b values n part cs ≠ Run.of (.error unfinished) := by
  induction n generalizing part cs with
  | zero => cases part <;> simp [Part.depth] at hn
  | succ n ih =>
    have hoperator : ∀ {c : Char} (operand : Part Json) (loop : Json → Part Json) {f : Int → Int → Int}
      {left : Json}
        {after : List Char}, skipWs cs = c :: after → operand.depth after.length ≤ n →
        (∀ l k, k ≤ after.length → (loop l).depth k ≤ n) →
        (parse b values n operand after >>= fun r => numOp b left r.1 f >>= fun l =>
          parse b values n (loop l) r.2) ≠ Run.of (.error unfinished) := by
      intro c operand loop f left after hskip hoperand hloop
      refine Run.bind_ne_error (ih hoperand) fun r hr => ?_
      exact Run.bind_ne_error (numOp_ne_unfinished _ _ _) fun l _ => ih (hloop _ _ (parse_leaves hr).length_le)
    cases part with
    | expr =>
      simp only [Part.depth] at hn
      refine Run.bind_ne_error (ih (by simp only [Part.depth]; omega)) fun l hl => ?_
      have hshorter := (parse_leaves hl).shorter trivial
      exact ih (by simp only [Part.depth]; omega)
    | term =>
      simp only [Part.depth] at hn
      refine Run.bind_ne_error (ih (by simp only [Part.depth]; omega)) fun l hl => ?_
      have hshorter := (parse_leaves hl).shorter trivial
      exact ih (by simp only [Part.depth]; omega)
    | sums left =>
      simp only [Part.depth] at hn
      simp only [parse]
      split
      · next hskip =>
        have hshorter := length_skipWs hskip
        exact hoperator .term .sums hskip (by simp only [Part.depth]; omega) fun l k hk => by
          simp only [Part.depth]; omega
      · next hskip =>
        have hshorter := length_skipWs hskip
        exact hoperator .term .sums hskip (by simp only [Part.depth]; omega) fun l k hk => by
          simp only [Part.depth]; omega
      · intro h
        cases h
    | products left =>
      simp only [Part.depth] at hn
      simp only [parse]
      split
      · next hskip =>
        have hshorter := length_skipWs hskip
        exact hoperator .factor .products hskip (by simp only [Part.depth]; omega) fun l k hk => by
          simp only [Part.depth]; omega
      · intro h
        cases h
    | factor =>
      simp only [Part.depth] at hn
      simp only [parse]
      split
      · next hskip =>
        have hshorter := length_skipWs hskip
        refine Run.bind_ne_error (ih (by simp only [Part.depth]; omega)) fun v _ => ?_
        split_ifs
        · intro h
          cases h
        · exact parse_ne_unfinished (by decide)
      · split_ifs
        · exact parseNumber_ne_unfinished _
        · intro h
          cases h
        · exact parse_ne_unfinished (append_ne_empty (by decide) _)
      · exact parse_ne_unfinished (append_ne_empty (by decide) _)

end

end Noxara.Custom
