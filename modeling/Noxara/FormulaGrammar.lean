import Noxara.FormulaFields

/-! What a formula means: its grammar, the exact value of a sentence, and when the parser, which computes with machine
integers while it reads, returns it. -/
namespace Noxara.Custom

open Finance (isWhiteSpace i64Min i64Max InI64 decimalValue)

open Words (Build i64 has_i64)

inductive Op
  | add | sub | mul
  deriving DecidableEq

def Op.apply : Op → Int → Int → Int
  | add => (· + ·)
  | sub => (· - ·)
  | mul => (· * ·)

inductive Operand
  | number (n : Int)
  | field (name : String)
  deriving DecidableEq

inductive Formula
  | operand (o : Operand)
  | binary (op : Op) (left right : Formula)
  deriving DecidableEq

/-- The integer that a value stands for in a calculation. -/
def integer : Json → Option Int
  | .null => some 0
  | .number (.posInt n) => if (n : Int) ≤ i64Max then some n else none
  | .number (.negInt n) => some n
  | _ => none

def Operand.value (values : Values) : Operand → Json
  | number n => ofI64 n
  | field name => fieldValue values name

/-- The value of a formula, where every operand is an integer and every intermediate result one of 64 bits. -/
def Formula.exact (values : Values) : Formula → Option Int
  | operand o => integer (o.value values)
  | binary op left right => do
    let x ← left.exact values
    let y ← right.exact values
    if InI64 (op.apply x y) then some (op.apply x y) else none

structure Operation where
  op : Op
  left : Formula
  right : Formula

def Operation.formula (o : Operation) : Formula := .binary o.op o.left o.right

/-- The operations of a formula in the order of their computation. -/
def Formula.operations : Formula → List Operation
  | operand _ => []
  | binary op left right => left.operations ++ right.operations ++ [⟨op, left, right⟩]

/-- How a run of operations ends: at its end, at an operand that is no integer, or at a result that does not fit. -/
inductive Ending
  | done | refused | overflowed
  deriving DecidableEq

def ending (values : Values) : List Operation → Ending
  | [] => .done
  | o :: os =>
    match o.left.exact values, o.right.exact values with
    | some x, some y => if InI64 (o.op.apply x y) then ending values os else .overflowed
    | _, _ => .refused

theorem ending_append (values : Values) (os ps : List Operation) :
    ending values (os ++ ps) = match ending values os with
      | .done => ending values ps
      | e => e := by
  induction os with
  | nil => rfl
  | cons o os ih =>
    simp only [List.cons_append, ending]
    split
    · split_ifs
      · exact ih
      · rfl
    · rfl

theorem exact_binary {values : Values} {op : Op} {left right : Formula} {n : Int} :
    (Formula.binary op left right).exact values = some n ↔ ∃ x y, left.exact values = some x ∧
      right.exact values = some y ∧ InI64 (op.apply x y) ∧ op.apply x y = n := by
  simp only [Formula.exact, Option.bind_eq_bind, Option.bind_eq_some_iff, Option.ite_none_right_eq_some,
    Option.some.injEq]
  constructor
  · rintro ⟨x, hx, y, hy, hn⟩
    exact ⟨x, y, hx, hy, hn⟩
  · rintro ⟨x, y, hx, hy, hn⟩
    exact ⟨x, hx, y, hy, hn⟩

theorem ending_of_exact {values : Values} {f : Formula} {n : Int} (h : f.exact values = some n) :
    ending values f.operations = .done := by
  induction f generalizing n with
  | operand o => rfl
  | binary op left right ihl ihr =>
    obtain ⟨x, y, hx, hy, hrange, -⟩ := exact_binary.mp h
    simp only [Formula.operations, ending_append, ihl hx, ihr hy]
    simp only [ending, hx, hy, if_pos hrange]

/-- The operations that are read, and what they are read for. -/
abbrev Traced (α : Type) := List Operation × Except FormulaError α

namespace Traced
variable {α β : Type}

def of (x : Except FormulaError α) : Traced α := ([], x)

def fails (e : FormulaError) : Traced α := ([], .error e)

def returns (a : α) : Traced α := ([], .ok a)

def andThen (x : Traced α) (f : α → Traced β) : Traced β :=
  match x.2 with
  | .error e => (x.1, .error e)
  | .ok a => (x.1 ++ (f a).1, (f a).2)

end Traced

/-- An operation that has both of its operands. -/
def complete (op : Op) (left right : Formula) : Traced Formula := ([⟨op, left, right⟩], .ok (.binary op left right))

section
variable [CharTables]

/-- What the parser reads; it computes each operation when it is complete. -/
def read : Nat → Part Formula → List Char → Traced (Formula × List Char)
  | 0, _, _ => .fails unfinished
  | n + 1, .expr, cs => (read n .term cs).andThen fun left => read n (.sums left.1) left.2
  | n + 1, .sums left, cs =>
    match skipWs cs with
    | '+' :: cs => (read n .term cs).andThen fun right =>
        (complete .add left right.1).andThen fun left => read n (.sums left) right.2
    | '-' :: cs => (read n .term cs).andThen fun right =>
        (complete .sub left right.1).andThen fun left => read n (.sums left) right.2
    | cs => .returns (left, cs)
  | n + 1, .term, cs => (read n .factor cs).andThen fun left => read n (.products left.1) left.2
  | n + 1, .products left, cs =>
    match skipWs cs with
    | '*' :: cs => (read n .factor cs).andThen fun right =>
        (complete .mul left right.1).andThen fun left => read n (.products left) right.2
    | cs => .returns (left, cs)
  | n + 1, .factor, cs =>
    match skipWs cs with
    | '(' :: cs => (read n .expr cs).andThen fun f =>
        if (skipWs f.2).head? = some ')' then .returns (f.1, (skipWs f.2).tail) else .fails (.parse "expected ')'")
    | c :: cs =>
      if c.isDigit || c = '-' then .of ((readNumber (c :: cs)).map fun x => (.operand (.number x.1), x.2))
      else if c.isAlpha || c = '_' then
        .returns (.operand (.field (readName (c :: cs)).1), (readName (c :: cs)).2)
      else .fails (.parse s!"unexpected {debugPeek (some c)}")
    | [] => .fails (.parse s!"unexpected {debugPeek none}")

attribute [local simp] read

variable (n : Nat) (left : Formula) {cs after : List Char}

theorem read_plus (h : skipWs cs = '+' :: after) : read (n + 1) (.sums left) cs =
    (read n .term after).andThen fun right =>
      (complete .add left right.1).andThen fun left => read n (.sums left) right.2 := by
  simp only [read, h]

theorem read_minus (h : skipWs cs = '-' :: after) : read (n + 1) (.sums left) cs =
    (read n .term after).andThen fun right =>
      (complete .sub left right.1).andThen fun left => read n (.sums left) right.2 := by
  simp only [read, h]

theorem read_sums_end (hplus : (skipWs cs).head? ≠ some '+') (hminus : (skipWs cs).head? ≠ some '-') :
    read (n + 1) (.sums left) cs = .returns (left, skipWs cs) := by
  simp only [read]
  split
  · next h => exact absurd (congrArg List.head? h) hplus
  · next h => exact absurd (congrArg List.head? h) hminus
  · rfl

theorem read_star (h : skipWs cs = '*' :: after) : read (n + 1) (.products left) cs =
    (read n .factor after).andThen fun right =>
      (complete .mul left right.1).andThen fun left => read n (.products left) right.2 := by
  simp only [read, h]

theorem read_products_end (hstar : (skipWs cs).head? ≠ some '*') :
    read (n + 1) (.products left) cs = .returns (left, skipWs cs) := by
  simp only [read]
  split
  · next h => exact absurd (congrArg List.head? h) hstar
  · rfl

theorem read_parens (h : skipWs cs = '(' :: after) : read (n + 1) .factor cs =
    (read n .expr after).andThen fun f =>
      if (skipWs f.2).head? = some ')' then .returns (f.1, (skipWs f.2).tail)
      else .fails (.parse "expected ')'") := by
  simp only [read, h]

theorem read_factor {c : Char} (h : skipWs cs = c :: after) (hc : c ≠ '(') : read (n + 1) .factor cs =
    if c.isDigit || c = '-' then
      Traced.of ((readNumber (c :: after)).map fun x => (.operand (.number x.1), x.2))
    else if c.isAlpha || c = '_' then
      Traced.returns (.operand (.field (readName (c :: after)).1), (readName (c :: after)).2)
    else Traced.fails (.parse s!"unexpected {debugPeek (some c)}") := by
  simp only [read, h]

theorem read_factor_nil (h : skipWs cs = []) :
    read (n + 1) .factor cs = .fails (.parse s!"unexpected {debugPeek none}") := by
  simp only [read, h]

end

/-- What the parser holds for a formula: an operand as it is found, a result as a number. -/
def Holds (values : Values) (f : Formula) (v : Json) : Prop :=
  match f with
  | .operand o => v = o.value values
  | .binary .. => ∃ n, f.exact values = some n ∧ v = ofI64 n

/-- The outcome of the parser for what is read; only a build that checks its arithmetic stops at an overflow. -/
def Computes (b : Build) (values : Values) (x : Traced (Formula × List Char)) (r : Run (Json × List Char)) : Prop :=
  match ending values x.1 with
  | .overflowed => b.arithmetic = .panics → r = Run.panics
  | .refused => ∃ detail, r = Run.of (.error (.runtime detail))
  | .done =>
    match x.2 with
    | .error e => r = Run.of (.error e)
    | .ok (f, rest) => ∃ v, Holds values f v ∧ r = Run.of (.ok (v, rest))

theorem asI64_of_integer {v : Json} {n : Int} (h : integer v = some n) : asI64 v = .ok n := by
  unfold integer at h
  unfold asI64
  split at h
  · cases h
    rfl
  · next m =>
    dsimp only
    split_ifs at h ⊢ with hm
    cases h
    rfl
  · cases h
    rfl
  · cases h

theorem asI64_of_none {v : Json} (h : integer v = none) : ∃ detail, asI64 v = .error (.runtime detail) := by
  unfold integer at h
  unfold asI64
  split at h
  · cases h
  · next m =>
    dsimp only
    split_ifs at h ⊢ with hm
    exact ⟨_, rfl⟩
  · cases h
  · next h0 h1 h2 =>
    split
    · next m => exact absurd rfl (h1 m)
    · next m => exact absurd rfl (h2 m)
    · exact ⟨_, rfl⟩
    · exact absurd rfl h0
    · exact ⟨_, rfl⟩

/-- Two integers are calculated with as the machine does. -/
theorem numOp_of_kept {b : Build} {left right : Json} {x y n : Int} {f : Int → Int → Int}
    (hx : integer left = some x)
    (hy : integer right = some y) (h : b.arith i64 (f x y) = some n) : numOp b left right f = pure (ofI64 n) := by
  unfold numOp
  rw [asI64_of_integer hx, asI64_of_integer hy, Run.of_ok_bind, Run.of_ok_bind, h]

theorem numOp_of_lost {b : Build} {left right : Json} {x y : Int} {f : Int → Int → Int} (hx : integer left = some x)
    (hy : integer right = some y) (h : b.arith i64 (f x y) = none) : numOp b left right f = Run.panics := by
  unfold numOp
  rw [asI64_of_integer hx, asI64_of_integer hy, Run.of_ok_bind, Run.of_ok_bind, h]

theorem integer_ofI64 {n : Int} (h : InI64 n) : integer (ofI64 n) = some n := by
  unfold ofI64
  split_ifs with hneg
  · rfl
  · have hle : ((n.toNat : Nat) : Int) ≤ i64Max := by
      have hhigh := (Finance.inI64_iff.mp h).2
      omega
    rw [integer, if_pos hle, Int.toNat_of_nonneg (by omega)]

section
variable {b : Build} {values : Values}

theorem Holds.integer_eq {f : Formula} {v : Json} (h : Holds values f v) : integer v = f.exact values := by
  cases f with
  | operand o =>
    subst h
    rfl
  | binary op left right =>
    obtain ⟨n, hn, rfl⟩ := h
    obtain ⟨x, y, -, -, hrange, rfl⟩ := exact_binary.mp hn
    rw [hn, integer_ofI64 hrange]

theorem Computes.andThen {x : Traced (Formula × List Char)} {r : Run (Json × List Char)} (h : Computes b values x r)
    {g : Formula × List Char → Traced (Formula × List Char)} {k : Json × List Char → Run (Json × List Char)}
    (hk : ∀ f v rest, Holds values f v → Computes b values (g (f, rest)) (k (v, rest))) :
    Computes b values (x.andThen g) (r >>= k) := by
  obtain ⟨os, out⟩ := x
  unfold Computes at h
  cases out with
  | error e =>
    unfold Computes Traced.andThen
    dsimp only at h ⊢
    cases hending : ending values os with
    | overflowed =>
      rw [hending] at h
      intro hb
      rw [h hb, Run.panics_bind]
    | refused =>
      rw [hending] at h
      obtain ⟨detail, rfl⟩ := h
      exact ⟨detail, rfl⟩
    | done =>
      rw [hending] at h
      rw [h, Run.of_error_bind]
  | ok y =>
    obtain ⟨f, rest⟩ := y
    unfold Computes Traced.andThen
    dsimp only at h ⊢
    rw [ending_append]
    cases hending : ending values os with
    | overflowed =>
      rw [hending] at h
      intro hb
      rw [h hb, Run.panics_bind]
    | refused =>
      rw [hending] at h
      obtain ⟨detail, rfl⟩ := h
      exact ⟨detail, rfl⟩
    | done =>
      rw [hending] at h
      obtain ⟨v, hv, rfl⟩ := h
      exact hk f v rest hv

theorem Computes.operation (op : Op) {left right : Formula} {lv rv : Json} (hl : Holds values left lv)
    (hr : Holds values right rv) {g : Formula → Traced (Formula × List Char)} {k : Json → Run (Json × List Char)}
    (hk : ∀ v, Holds values (.binary op left right) v → Computes b values (g (.binary op left right)) (k v)) :
    Computes b values ((complete op left right).andThen g) (numOp b lv rv op.apply >>= k) := by
  have hending : ending values ((complete op left right).andThen g).1 =
      match left.exact values, right.exact values with
      | some x, some y =>
        if InI64 (op.apply x y) then ending values (g (.binary op left right)).1 else .overflowed
      | _, _ => .refused := rfl
  have hlv := hl.integer_eq
  have hrv := hr.integer_eq
  unfold Computes
  rw [hending]
  cases hx : left.exact values with
  | none =>
    obtain ⟨detail, hdetail⟩ := asI64_of_none (hlv.trans hx)
    refine ⟨detail, ?_⟩
    rw [numOp, hdetail, Run.of_error_bind, Run.of_error_bind]
  | some x =>
    cases hy : right.exact values with
    | none =>
      obtain ⟨detail, hdetail⟩ := asI64_of_none (hrv.trans hy)
      refine ⟨detail, ?_⟩
      rw [numOp, asI64_of_integer (hlv.trans hx), hdetail, Run.of_ok_bind, Run.of_error_bind, Run.of_error_bind]
    | some y =>
      dsimp only
      split_ifs with hrange
      · have hkept : b.arith i64 (op.apply x y) = some (op.apply x y) := Build.arith_of_has hrange
        rw [numOp_of_kept (hlv.trans hx) (hrv.trans hy) hkept]
        exact hk _ ⟨_, exact_binary.mpr ⟨x, y, hx, hy, hrange, rfl⟩, rfl⟩
      · intro hb
        have hlost : b.arith i64 (op.apply x y) = none := by
          unfold Build.arith Words.Overflow.keep
          rw [if_neg (show ¬i64.Has (op.apply x y) from hrange), hb]
        rw [numOp_of_lost (hlv.trans hx) (hrv.trans hy) hlost, Run.panics_bind]

variable [CharTables]

/-- The two parts of the parser stand at the same place, the one with what the other has for its left operand. -/
inductive SamePart (values : Values) : Part Formula → Part Json → Prop
  | expr : SamePart values .expr .expr
  | sums {f : Formula} {v : Json} (h : Holds values f v) : SamePart values (.sums f) (.sums v)
  | term : SamePart values .term .term
  | products {f : Formula} {v : Json} (h : Holds values f v) : SamePart values (.products f) (.products v)
  | factor : SamePart values .factor .factor

omit [CharTables] in
theorem computes_returns {f : Formula} {v : Json} {rest : List Char} (h : Holds values f v) :
    Computes b values (.returns (f, rest)) (pure (v, rest)) := ⟨v, h, rfl⟩

theorem parse_computes (n : Nat) {part : Part Formula} {part' : Part Json} (hpart : SamePart values part part')
    (cs : List Char) : Computes b values (read n part cs) (parse b values n part' cs) := by
  induction n generalizing part part' cs with
  | zero => exact rfl
  | succ n ih =>
    have hoperator : ∀ (op : Op) {operand : Part Formula} {operand' : Part Json} {loop : Formula → Part Formula}
        {loop' : Json → Part Json} {left : Formula} {lv : Json} {after : List Char},
          SamePart values operand operand' →
        (∀ f v, Holds values f v → SamePart values (loop f) (loop' v)) → Holds values left lv →
        Computes b values
          ((read n operand after).andThen fun right =>
            (complete op left right.1).andThen fun left => read n (loop left) right.2)
          (parse b values n operand' after >>= fun r => numOp b lv r.1 op.apply >>= fun l =>
            parse b values n (loop' l) r.2) := by
      intro op operand operand' loop loop' left lv after hoperand hloop hleft
      refine (ih hoperand after).andThen fun f v rest hv => ?_
      refine Computes.operation op hleft hv fun w hw => ?_
      exact ih (hloop _ _ hw) rest
    cases hpart with
    | expr => exact (ih .term cs).andThen fun f v rest hv => ih (.sums hv) rest
    | term => exact (ih .factor cs).andThen fun f v rest hv => ih (.products hv) rest
    | sums h =>
      by_cases hplus : (skipWs cs).head? = some '+'
      · obtain ⟨after, hafter⟩ := List.head?_eq_some_iff.mp hplus
        rw [read_plus _ _ hafter, parse_plus _ _ _ _ hafter]
        exact hoperator .add .term (fun _ _ => .sums) h
      · by_cases hminus : (skipWs cs).head? = some '-'
        · obtain ⟨after, hafter⟩ := List.head?_eq_some_iff.mp hminus
          rw [read_minus _ _ hafter, parse_minus _ _ _ _ hafter]
          exact hoperator .sub .term (fun _ _ => .sums) h
        · rw [read_sums_end _ _ hplus hminus, parse_sums_end _ _ _ _ hplus hminus]
          exact computes_returns h
    | products h =>
      by_cases hstar : (skipWs cs).head? = some '*'
      · obtain ⟨after, hafter⟩ := List.head?_eq_some_iff.mp hstar
        rw [read_star _ _ hafter, parse_star _ _ _ _ hafter]
        exact hoperator .mul .factor (fun _ _ => .products) h
      · rw [read_products_end _ _ hstar, parse_products_end _ _ _ _ hstar]
        exact computes_returns h
    | factor =>
      cases hskip : skipWs cs with
      | nil =>
        rw [read_factor_nil _ hskip, parse_factor_nil _ _ _ hskip]
        exact rfl
      | cons c after =>
        by_cases hparens : c = '('
        · subst hparens
          rw [read_parens _ hskip, parse_parens _ _ _ hskip]
          refine (ih .expr _).andThen fun f v rest hv => ?_
          dsimp only
          split_ifs
          · exact computes_returns hv
          · exact rfl
        · rw [read_factor _ hskip hparens, parse_factor _ _ _ hskip hparens]
          split_ifs
          · unfold parseNumber
            cases readNumber (c :: after) with
            | error e => exact rfl
            | ok x => exact ⟨_, rfl, rfl⟩
          · exact ⟨_, rfl, rfl⟩
          · exact rfl

end

def IsSpace (ws : List Char) : Prop := ∀ c ∈ ws, isWhiteSpace c = true

/-- Products bind closer than sums, and both group to the left; white space stands before a token. -/
inductive Derives : Part Formula → List Char → Formula → Prop
  | expr {cs ds : List Char} {a f : Formula} (first : Derives .term cs a) (more : Derives (.sums a) ds f) :
      Derives .expr (cs ++ ds) f
  | noSum {a : Formula} : Derives (.sums a) [] a
  | sum {ws cs ds : List Char} {a t f : Formula} (space : IsSpace ws) (operand : Derives .term cs t)
      (more : Derives (.sums (.binary .add a t)) ds f) : Derives (.sums a) (ws ++ '+' :: (cs ++ ds)) f
  | difference {ws cs ds : List Char} {a t f : Formula} (space : IsSpace ws) (operand : Derives .term cs t)
      (more : Derives (.sums (.binary .sub a t)) ds f) : Derives (.sums a) (ws ++ '-' :: (cs ++ ds)) f
  | term {cs ds : List Char} {a f : Formula} (first : Derives .factor cs a) (more : Derives (.products a) ds f) :
      Derives .term (cs ++ ds) f
  | noProduct {a : Formula} : Derives (.products a) [] a
  | product {ws cs ds : List Char} {a t f : Formula} (space : IsSpace ws) (operand : Derives .factor cs t)
      (more : Derives (.products (.binary .mul a t)) ds f) : Derives (.products a) (ws ++ '*' :: (cs ++ ds)) f
  | number {ws ds : List Char} {n : ℕ} (space : IsSpace ws) (nonempty : ds ≠ []) (digits : decimalValue ds = some n)
      (fits : InI64 n) : Derives .factor (ws ++ ds) (.operand (.number n))
  | negative {ws ds : List Char} {n : ℕ} (space : IsSpace ws) (nonempty : ds ≠ [])
    (digits : decimalValue ds = some n)
      (fits : InI64 (-n)) : Derives .factor (ws ++ '-' :: ds) (.operand (.number (-n)))
  | field {ws name : List Char} {c : Char} (space : IsSpace ws) (first : (c.isAlpha || c = '_') = true)
      (rest : ∀ d ∈ name, isFieldChar d = true) :
      Derives .factor (ws ++ c :: name) (.operand (.field (String.ofList (c :: name))))
  | parens {ws cs ws' : List Char} {f : Formula} (space : IsSpace ws) (inner : Derives .expr cs f)
      (space' : IsSpace ws') : Derives .factor (ws ++ '(' :: (cs ++ (ws' ++ [')']))) f

def Sentence (expr : String) (f : Formula) : Prop :=
  ∃ cs ws, expr.toList = cs ++ ws ∧ Derives .expr cs f ∧ IsSpace ws

theorem IsSpace.append {ws ws' : List Char} (h : IsSpace ws) (h' : IsSpace ws') : IsSpace (ws ++ ws') := by
  intro c hc
  rcases List.mem_append.mp hc with hc | hc
  · exact h c hc
  · exact h' c hc

theorem isSpace_takeWhile (cs : List Char) : IsSpace (cs.takeWhile isWhiteSpace) :=
  List.all_eq_true.mp List.all_takeWhile

theorem takeWhile_append_skipWs (cs : List Char) : cs.takeWhile isWhiteSpace ++ skipWs cs = cs :=
  List.takeWhile_append_dropWhile

theorem skipWs_append {ws : List Char} (h : IsSpace ws) (cs : List Char) : skipWs (ws ++ cs) = skipWs cs :=
  List.dropWhile_append_of_pos h

theorem skipWs_cons {c : Char} (h : isWhiteSpace c = false) (cs : List Char) : skipWs (c :: cs) = c :: cs := by
  rw [skipWs, List.dropWhile_cons, h]
  rfl

theorem skipWs_skipWs (cs : List Char) : skipWs (skipWs cs) = skipWs cs := by
  have hidem := skipWs_append (isSpace_takeWhile cs) (skipWs cs)
  rwa [takeWhile_append_skipWs, eq_comm] at hidem

theorem skipWs_token {ws : List Char} (hws : IsSpace ws) {c : Char} (hc : isWhiteSpace c = false)
    (cs rest : List Char) :
    skipWs (ws ++ c :: cs ++ rest) = c :: (cs ++ rest) := by
  rw [List.append_assoc, skipWs_append hws, List.cons_append, skipWs_cons hc]

theorem takeWhile_word {p : Char → Bool} {word rest : List Char} (hword : ∀ c ∈ word, p c = true)
    (hrest : ∀ c, rest.head? = some c → p c = false) :
    (word ++ rest).takeWhile p = word ∧ (word ++ rest).dropWhile p = rest := by
  rw [List.takeWhile_append_of_pos hword, List.dropWhile_append_of_pos hword]
  cases rest with
  | nil => simp
  | cons c cs =>
    have hc := hrest c rfl
    simp [hc]

theorem exists_decimalValue {ds : List Char} (h : ∀ c ∈ ds, c.isDigit = true) : ∃ n, decimalValue ds = some n :=
  ⟨_, if_pos (List.all_eq_true.mpr h)⟩

theorem readNumber_digits {ds rest : List Char} {n : ℕ} (hne : ds ≠ []) (h : decimalValue ds = some n)
    (hn : InI64 n)
    (hdigit : ∀ c, rest.head? = some c → c.isDigit = false) (hpoint : rest.head? ≠ some '.') :
    readNumber (ds ++ rest) = .ok ((n : Int), rest) := by
  obtain ⟨c, ds, rfl⟩ := List.exists_cons_of_ne_nil hne
  obtain ⟨htake, hdrop⟩ := takeWhile_word (Amounts.decimalValue_all h) hdigit
  have hminus : c ≠ '-' := Amounts.digit_ne (Amounts.decimalValue_all h c List.mem_cons_self) rfl
  have hsign : (((c :: ds) ++ rest).take 1).filter (fun c => c = '-') = [] := by simp [hminus]
  simp only [readNumber, hsign, List.length_nil, List.drop_zero, List.nil_append, htake, hdrop, if_neg hpoint,
    Amounts.parseI64_plain hne h, if_pos hn]

theorem readNumber_minus {ds rest : List Char} {n : ℕ} (hne : ds ≠ []) (h : decimalValue ds = some n)
    (hn : InI64 (-n))
    (hdigit : ∀ c, rest.head? = some c → c.isDigit = false) (hpoint : rest.head? ≠ some '.') :
    readNumber ('-' :: (ds ++ rest)) = .ok (-(n : Int), rest) := by
  obtain ⟨htake, hdrop⟩ := takeWhile_word (Amounts.decimalValue_all h) hdigit
  have hsign : (('-' :: (ds ++ rest)).take 1).filter (fun c => c = '-') = ['-'] := rfl
  simp only [readNumber, hsign, List.length_singleton, List.drop_succ_cons, List.drop_zero, List.singleton_append,
    htake,
    hdrop, if_neg hpoint, Amounts.parseI64_minus hne h, if_pos hn]

theorem readNumber_eq_ok {c : Char} {cs rest : List Char} {n : Int} (h : readNumber (c :: cs) = .ok (n, rest)) :
    ∃ (ds : List Char) (m : ℕ), ds ≠ [] ∧ decimalValue ds = some m ∧
      (c :: cs = ds ++ rest ∧ n = m ∧ InI64 m ∨ c :: cs = '-' :: (ds ++ rest) ∧ n = -m ∧ InI64 (-m)) := by
  have hrest := readNumber_rest h
  by_cases hminus : c = '-'
  · subst hminus
    have hsign : (('-' :: cs).take 1).filter (fun c => c = '-') = ['-'] := rfl
    simp only [readNumber, hsign, List.length_singleton, List.drop_succ_cons, List.drop_zero,
      List.singleton_append] at h hrest
    obtain ⟨m, hm⟩ := exists_decimalValue (List.all_eq_true.mp (List.all_takeWhile (l := cs) (p := Char.isDigit)))
    have hcs : cs = cs.takeWhile Char.isDigit ++ rest := by rw [hrest, List.takeWhile_append_dropWhile]
    have hne : cs.takeWhile Char.isDigit ≠ [] := by
      intro hnil
      rw [hnil] at h
      split_ifs at h
      cases h
    refine ⟨_, m, hne, hm, .inr ⟨by rw [← hcs], ?_⟩⟩
    rw [Amounts.parseI64_minus hne hm] at h
    split_ifs at h with hpoint hrange
    cases h
    exact ⟨rfl, hrange⟩
  · have hsign : ((c :: cs).take 1).filter (fun c => c = '-') = [] := by simp [hminus]
    simp only [readNumber, hsign, List.length_nil, List.drop_zero, List.nil_append] at h hrest
    obtain ⟨m, hm⟩ := exists_decimalValue
      (List.all_eq_true.mp (List.all_takeWhile (l := c :: cs) (p := Char.isDigit)))
    have hcs : c :: cs = (c :: cs).takeWhile Char.isDigit ++ rest := by rw [hrest, List.takeWhile_append_dropWhile]
    have hne : (c :: cs).takeWhile Char.isDigit ≠ [] := by
      intro hnil
      rw [hnil] at h
      split_ifs at h
      cases h
    refine ⟨_, m, hne, hm, .inl ⟨hcs, ?_⟩⟩
    rw [Amounts.parseI64_plain hne hm] at h
    split_ifs at h with hpoint hrange
    cases h
    exact ⟨rfl, hrange⟩

/-- Part of a text is derived, and white space may follow it. -/
def Reads (part : Part Formula) (cs : List Char) (f : Formula) (rest : List Char) : Prop :=
  ∃ used ws, cs = used ++ (ws ++ rest) ∧ IsSpace ws ∧ Derives part used f

/-- White space before the operators that follow belongs to the first of them. -/
theorem Derives.space {part : Part Formula} {used ws : List Char} {f : Formula} (h : Derives part used f)
    (hloop : ¬part.Consumes) (hws : IsSpace ws) : used = [] ∨ Derives part (ws ++ used) f := by
  cases h with
  | noSum => exact .inl rfl
  | noProduct => exact .inl rfl
  | sum hspace ht hs =>
    rw [← List.append_assoc]
    exact .inr (.sum (hws.append hspace) ht hs)
  | difference hspace ht hs =>
    rw [← List.append_assoc]
    exact .inr (.difference (hws.append hspace) ht hs)
  | product hspace ht hs =>
    rw [← List.append_assoc]
    exact .inr (.product (hws.append hspace) ht hs)
  | expr | term | number | negative | field | parens => exact absurd trivial hloop

theorem Reads.space {part : Part Formula} {cs rest ws : List Char} {f : Formula} (h : Reads part cs f rest)
    (hloop : ¬part.Consumes) (hws : IsSpace ws) : Reads part (ws ++ cs) f rest := by
  obtain ⟨used, ws', rfl, hws', hderives⟩ := h
  rcases hderives.space hloop hws with rfl | hspaced
  · exact ⟨[], ws ++ ws', by simp, hws.append hws', hderives⟩
  · exact ⟨ws ++ used, ws', by simp, hws', hspaced⟩

/-- After an operand comes the loop over the operators. -/
theorem Reads.andThen {part loop whole : Part Formula} {cs rest rest' : List Char} {a f : Formula}
    (h : Reads part cs a rest) (hmore : Reads loop rest f rest') (hloop : ¬loop.Consumes)
    (hwhole : ∀ used used', Derives part used a → Derives loop used' f → Derives whole (used ++ used') f) :
    Reads whole cs f rest' := by
  obtain ⟨used, ws, rfl, hws, hderives⟩ := h
  obtain ⟨used', ws', hrest, hws', hderives'⟩ := hmore.space hloop hws
  refine ⟨used ++ used', ws', ?_, hws', hwhole used used' hderives hderives'⟩
  rw [hrest, List.append_assoc]

def Part.before : Part Formula → List Operation
  | .sums left | .products left => left.operations
  | _ => []

theorem Traced.andThen_eq_ok {α β : Type} {x : Traced α} {g : α → Traced β} {os : List Operation} {b : β} :
    x.andThen g = (os, .ok b) ↔
      ∃ os₁ a os₂, x = (os₁, .ok a) ∧ g a = (os₂, .ok b) ∧ os = os₁ ++ os₂ := by
  obtain ⟨os₁, out⟩ := x
  cases out with
  | error e => simp [Traced.andThen]
  | ok a =>
    simp only [Traced.andThen, Prod.mk.injEq, Except.ok.injEq]
    constructor
    · rintro ⟨rfl, hb⟩
      exact ⟨os₁, a, (g a).1, ⟨rfl, rfl⟩, by rw [← hb], rfl⟩
    · rintro ⟨_, _, os₂, ⟨rfl, rfl⟩, hg, rfl⟩
      rw [hg]
      exact ⟨rfl, rfl⟩

section
variable [CharTables]

theorem reads_of_read {n : Nat} {part : Part Formula} {cs rest : List Char} {os : List Operation} {f : Formula}
    (h : read n part cs = (os, .ok (f, rest))) : Reads part cs f rest ∧ part.before ++ os = f.operations := by
  induction n generalizing part cs rest os f with
  | zero => cases h
  | succ n ih =>
    have hoperator : ∀ {op : Op} {operand : Part Formula} (loop : Formula → Part Formula) {left : Formula}
      {c : Char}
        {after : List Char}, skipWs cs = c :: after → operand.before = [] →
          (∀ g, (loop g).before = g.operations) →
        (∀ g, ¬(loop g).Consumes) →
        (∀ {ws used used' : List Char} {t : Formula}, IsSpace ws → Derives operand used t →
          Derives (loop (.binary op left t)) used' f → Derives (loop left) (ws ++ c :: (used ++ used')) f) →
        ((read n operand after).andThen fun right =>
          (complete op left right.1).andThen fun left => read n (loop left) right.2) = (os, .ok (f, rest)) →
        Reads (loop left) cs f rest ∧ left.operations ++ os = f.operations := by
      intro op operand loop left c after hskip hbefore hloopBefore hloop hwhole hread
      obtain ⟨os₁, ⟨t, rest₁⟩, os₂, hoperand, hafter, rfl⟩ := Traced.andThen_eq_ok.mp hread
      obtain ⟨os₃, _, os₄, hcomplete, hmore, rfl⟩ := Traced.andThen_eq_ok.mp hafter
      cases hcomplete
      obtain ⟨hreads, hos₁⟩ := ih hoperand
      obtain ⟨hmore, hos₄⟩ := ih hmore
      rw [hbefore, List.nil_append] at hos₁
      rw [hloopBefore] at hos₄
      constructor
      · obtain ⟨used, ws, hafter, hws, hderives⟩ := hreads
        obtain ⟨used', ws', hrest, hws', hderives'⟩ := hmore.space (hloop _) hws
        refine ⟨cs.takeWhile isWhiteSpace ++ c :: (used ++ used'), ws', ?_, hws',
          hwhole (isSpace_takeWhile cs) hderives hderives'⟩
        have hrest₁ : ws ++ rest₁ = used' ++ (ws' ++ rest) := hrest
        calc cs = cs.takeWhile isWhiteSpace ++ skipWs cs := (takeWhile_append_skipWs cs).symm
          _ = cs.takeWhile isWhiteSpace ++ c :: (used ++ used') ++ (ws' ++ rest) := by
            rw [hskip, hafter, hrest₁]
            simp
      · rw [← hos₄, Formula.operations, hos₁]
        simp
    have hoperand : ∀ {operand whole : Part Formula} (loop : Formula → Part Formula), operand.before = [] →
        (∀ g, (loop g).before = g.operations) → (∀ g, ¬(loop g).Consumes) →
        (∀ {used used' : List Char} {a : Formula}, Derives operand used a → Derives (loop a) used' f →
          Derives whole (used ++ used') f) →
        ((read n operand cs).andThen fun left => read n (loop left.1) left.2) = (os, .ok (f, rest)) →
        Reads whole cs f rest ∧ os = f.operations := by
      intro operand whole loop hbefore hloopBefore hloop hwhole hread
      obtain ⟨os₁, ⟨a, rest₁⟩, os₂, hfirst, hmore, rfl⟩ := Traced.andThen_eq_ok.mp hread
      obtain ⟨hreads, hos₁⟩ := ih hfirst
      obtain ⟨hreads', hos₂⟩ := ih hmore
      rw [hbefore, List.nil_append] at hos₁
      rw [hloopBefore] at hos₂
      refine ⟨hreads.andThen hreads' (hloop a) fun _ _ => hwhole, ?_⟩
      rw [hos₁]
      exact hos₂
    cases part with
    | expr => exact hoperand .sums rfl (fun _ => rfl) (fun _ => id) .expr h
    | term => exact hoperand .products rfl (fun _ => rfl) (fun _ => id) .term h
    | sums left =>
      by_cases hplus : (skipWs cs).head? = some '+'
      · obtain ⟨after, hafter⟩ := List.head?_eq_some_iff.mp hplus
        rw [read_plus _ _ hafter] at h
        exact hoperator .sums hafter rfl (fun _ => rfl) (fun _ => id) .sum h
      · by_cases hminus : (skipWs cs).head? = some '-'
        · obtain ⟨after, hafter⟩ := List.head?_eq_some_iff.mp hminus
          rw [read_minus _ _ hafter] at h
          exact hoperator .sums hafter rfl (fun _ => rfl) (fun _ => id) .difference h
        · rw [read_sums_end _ _ hplus hminus] at h
          cases h
          exact ⟨⟨[], _, (takeWhile_append_skipWs cs).symm, isSpace_takeWhile cs, .noSum⟩, List.append_nil _⟩
    | products left =>
      by_cases hstar : (skipWs cs).head? = some '*'
      · obtain ⟨after, hafter⟩ := List.head?_eq_some_iff.mp hstar
        rw [read_star _ _ hafter] at h
        exact hoperator .products hafter rfl (fun _ => rfl) (fun _ => id) .product h
      · rw [read_products_end _ _ hstar] at h
        cases h
        exact ⟨⟨[], _, (takeWhile_append_skipWs cs).symm, isSpace_takeWhile cs, .noProduct⟩, List.append_nil _⟩
    | factor =>
      have hcs := takeWhile_append_skipWs cs
      have hspace := isSpace_takeWhile cs
      generalize cs.takeWhile isWhiteSpace = ws at hcs hspace
      cases hskip : skipWs cs with
      | nil =>
        rw [read_factor_nil _ hskip] at h
        cases h
      | cons c after =>
        rw [hskip] at hcs
        by_cases hparens : c = '('
        · subst hparens
          rw [read_parens _ hskip] at h
          obtain ⟨os₁, ⟨g, rest₁⟩, os₂, hinner, hclose, rfl⟩ := Traced.andThen_eq_ok.mp h
          obtain ⟨⟨used, ws', hafter, hws', hderives⟩, hos₁⟩ := ih hinner
          split_ifs at hclose with hhead
          · cases hclose
            obtain ⟨rest', hrest'⟩ := List.head?_eq_some_iff.mp hhead
            have hrest₁ : rest₁ = rest₁.takeWhile isWhiteSpace ++ ')' :: rest' := by
              rw [← hrest']
              exact (takeWhile_append_skipWs rest₁).symm
            have hparens := Derives.parens hspace hderives (hws'.append (isSpace_takeWhile rest₁))
            refine ⟨⟨_, [], ?_, fun c hc => (by cases hc), hparens⟩, ?_⟩
            · rw [← hcs, hafter, hrest']
              conv_lhs => rw [hrest₁]
              simp
            · rw [List.append_nil]
              exact hos₁
          · cases hclose
        · rw [read_factor _ hskip hparens] at h
          split_ifs at h with hnumber hfield
          · cases hread : readNumber (c :: after) with
            | error e =>
              rw [hread] at h
              cases h
            | ok x =>
              rw [hread] at h
              cases h
              obtain ⟨ds, m, hne, hm, ⟨htext, hn, hrange⟩ | ⟨htext, hn, hrange⟩⟩ := readNumber_eq_ok hread
              · refine ⟨⟨ws ++ ds, [], ?_, fun c hc => (by cases hc), ?_⟩, rfl⟩
                · rw [← hcs, htext]
                  simp
                · rw [hn]
                  exact .number hspace hne hm hrange
              · refine ⟨⟨ws ++ '-' :: ds, [], ?_, fun c hc => (by cases hc), ?_⟩, rfl⟩
                · rw [← hcs, htext]
                  simp
                · rw [hn]
                  exact .negative hspace hne hm hrange
          · cases h
            have hname : (c :: after).takeWhile isFieldChar = c :: after.takeWhile isFieldChar := by
              rw [List.takeWhile_cons, if_pos (isFieldChar_of_first hfield)]
            have hwords : (c :: after).takeWhile isFieldChar ++ (c :: after).dropWhile isFieldChar = c :: after :=
              List.takeWhile_append_dropWhile
            have hderives := Derives.field hspace hfield
              (List.all_eq_true.mp (List.all_takeWhile (l := after) (p := isFieldChar)))
            rw [← hname] at hderives
            refine ⟨⟨_, [], ?_, fun c hc => (by cases hc), hderives⟩, rfl⟩
            rw [← hcs, ← hwords]
            simp [readName]
          · cases h

end

/-- No operand goes on here. -/
def Boundary (rest : List Char) : Prop :=
  ∀ c, rest.head? = some c → isWhiteSpace c = true ∨ c ∈ ['*', '+', '-', ')']

/-- A part of the parser stops before this text. -/
def Part.Stops : Part Formula → List Char → Prop
  | .expr, rest | .sums _, rest => Boundary rest ∧ ∀ c ∈ ['*', '+', '-'], (skipWs rest).head? ≠ some c
  | .term, rest | .products _, rest => Boundary rest ∧ (skipWs rest).head? ≠ some '*'
  | .factor, rest => Boundary rest

def Part.after : Part Formula → List Char → List Char
  | .factor, rest => rest
  | _, rest => skipWs rest

theorem fieldChar_not_space {c : Char} (h : isFieldChar c = true) : isWhiteSpace c = false := by
  simp only [isFieldChar, Char.isAlphanum, Char.isAlpha, Char.isUpper, Char.isLower, Char.isDigit, Bool.or_eq_true,
    Bool.and_eq_true, decide_eq_true_eq, ge_iff_le, UInt32.le_iff_toNat_le] at h
  change ((((65 ≤ c.toNat ∧ c.toNat ≤ 90) ∨ (97 ≤ c.toNat ∧ c.toNat ≤ 122)) ∨
    (48 ≤ c.toNat ∧ c.toNat ≤ 57)) ∨
    c = '_') at h
  rcases h with h | rfl
  · simp [isWhiteSpace]
    omega
  · rfl

theorem fieldChar_of_digit {c : Char} (h : c.isDigit = true) : isFieldChar c = true := by
  simp [isFieldChar, Char.isAlphanum, h]

theorem not_number_of_first {c : Char} (h : (c.isAlpha || c = '_') = true) : ¬(c.isDigit || c = '-') = true := by
  simp only [Char.isAlpha, Char.isUpper, Char.isLower, Char.isDigit, Bool.or_eq_true, Bool.and_eq_true,
    decide_eq_true_eq, ge_iff_le, UInt32.le_iff_toNat_le] at h ⊢
  change ((65 ≤ c.toNat ∧ c.toNat ≤ 90) ∨ (97 ≤ c.toNat ∧ c.toNat ≤ 122)) ∨ c = '_' at h
  change ¬((48 ≤ c.toNat ∧ c.toNat ≤ 57) ∨ c = '-')
  rintro (hdigit | rfl)
  · rcases h with h | rfl
    · omega
    · exact absurd hdigit (by decide)
  · rcases h with h | h
    · exact absurd h (by decide)
    · cases h

theorem not_operand_of_space {c : Char} (h : isWhiteSpace c = true) :
    c.isDigit = false ∧ isFieldChar c = false ∧ c ≠ '.' := by
  have hfield : isFieldChar c = false := by
    rw [Bool.eq_false_iff]
    intro hc
    rw [fieldChar_not_space hc] at h
    cases h
  refine ⟨Bool.eq_false_iff.mpr fun hc => ?_, hfield, ?_⟩
  · rw [fieldChar_of_digit hc] at hfield
    cases hfield
  · rintro rfl
    cases h

theorem Boundary.ends {rest : List Char} (h : Boundary rest) :
    (∀ c, rest.head? = some c → c.isDigit = false) ∧ (∀ c, rest.head? = some c → isFieldChar c = false) ∧
      rest.head? ≠ some '.' := by
  have hchar : ∀ c, rest.head? = some c → c.isDigit = false ∧ isFieldChar c = false ∧ c ≠ '.' := by
    intro c hc
    rcases h c hc with hspace | hsign
    · exact not_operand_of_space hspace
    · have hall : ∀ d ∈ ['*', '+', '-', ')'], d.isDigit = false ∧ isFieldChar d = false ∧ d ≠ '.' := by
        decide
      exact hall c hsign
  exact ⟨fun c hc => (hchar c hc).1, fun c hc => (hchar c hc).2.1, fun hc => (hchar _ hc).2.2 rfl⟩

theorem Boundary.of_space {ws : List Char} {c : Char} {cs : List Char} (hws : IsSpace ws)
    (hc : c ∈ ['*', '+', '-', ')']) : Boundary (ws ++ c :: cs) := by
  intro d hd
  cases ws with
  | nil =>
    cases hd
    exact .inr hc
  | cons w ws =>
    cases hd
    exact .inl (hws _ List.mem_cons_self)

/-- The operators of a loop end the operand before them. -/
theorem Derives.stops {part : Part Formula} {used rest : List Char} {f : Formula} (h : Derives part used f)
    (hrest : part.Stops rest) : match part with
      | .sums _ => (Part.term : Part Formula).Stops (used ++ rest)
      | .products _ => (Part.factor : Part Formula).Stops (used ++ rest)
      | _ => True := by
  cases h with
  | noSum => exact ⟨hrest.1, hrest.2 '*' (by decide)⟩
  | noProduct => exact hrest.1
  | sum hws =>
    rw [List.append_assoc]
    refine ⟨.of_space hws (by decide), ?_⟩
    rw [skipWs_append hws, List.cons_append, skipWs_cons (by decide)]
    simp
  | difference hws =>
    rw [List.append_assoc]
    refine ⟨.of_space hws (by decide), ?_⟩
    rw [skipWs_append hws, List.cons_append, skipWs_cons (by decide)]
    simp
  | product hws =>
    rw [List.append_assoc]
    exact .of_space hws (by decide)
  | expr | term | number | negative | field | parens => trivial

section
variable [CharTables]

theorem read_skipWs (n : Nat) {part : Part Formula} (cs : List Char) (hloop : ¬part.Consumes) :
    read n part (skipWs cs) = read n part cs := by
  cases n with
  | zero => rfl
  | succ n =>
    cases part with
    | expr | term | factor => exact absurd trivial hloop
    | sums left => simp only [read, skipWs_skipWs]
    | products left => simp only [read, skipWs_skipWs]

theorem read_operator {n : Nat} {op : Op} {operand : Part Formula} {loop : Formula → Part Formula} {left t : Formula}
    {cs rest : List Char} {os₁ os₂ : List Operation} {x : Formula × List Char}
    (hoperand : read n operand cs = (os₁, .ok (t, rest)))
    (hmore : read n (loop (.binary op left t)) rest = (os₂, .ok x)) :
    ((read n operand cs).andThen fun right =>
      (complete op left right.1).andThen fun left => read n (loop left) right.2) =
        (os₁ ++ ([⟨op, left, t⟩] ++ os₂), .ok x) :=
  Traced.andThen_eq_ok.mpr ⟨os₁, _, _, hoperand, Traced.andThen_eq_ok.mpr ⟨_, _, os₂, rfl, hmore, rfl⟩, rfl⟩

/-- A text that is derived is read whole, where the part of the parser stops after it. -/
theorem read_of_derives {part : Part Formula} {used : List Char} {f : Formula} (h : Derives part used f)
    {rest : List Char} {n : Nat} (hstops : part.Stops rest) (hn : part.depth (used ++ rest).length ≤ n) :
    ∃ os, read n part (used ++ rest) = (os, .ok (f, part.after rest)) := by
  induction h generalizing rest n with
  | @expr cs ds a f hfirst hmore ihfirst ihmore =>
    obtain ⟨n, rfl⟩ : ∃ k, n = k + 1 := ⟨n - 1, by simp only [Part.depth] at hn; omega⟩
    simp only [Part.depth, List.length_append] at hn
    obtain ⟨os₁, hos₁⟩ := @ihfirst (ds ++ rest) n (hmore.stops hstops)
      (by simp only [Part.depth, List.length_append]; omega)
    obtain ⟨os₂, hos₂⟩ := @ihmore rest n hstops (by simp only [Part.depth, List.length_append]; omega)
    refine ⟨os₁ ++ os₂, ?_⟩
    rw [List.append_assoc]
    refine Traced.andThen_eq_ok.mpr ⟨os₁, _, os₂, hos₁, ?_, rfl⟩
    exact (read_skipWs n _ id).trans hos₂
  | @term cs ds a f hfirst hmore ihfirst ihmore =>
    obtain ⟨n, rfl⟩ : ∃ k, n = k + 1 := ⟨n - 1, by simp only [Part.depth] at hn; omega⟩
    simp only [Part.depth, List.length_append] at hn
    obtain ⟨os₁, hos₁⟩ := @ihfirst (ds ++ rest) n (hmore.stops hstops)
      (by simp only [Part.depth, List.length_append]; omega)
    obtain ⟨os₂, hos₂⟩ := @ihmore rest n hstops (by simp only [Part.depth, List.length_append]; omega)
    refine ⟨os₁ ++ os₂, ?_⟩
    rw [List.append_assoc]
    exact Traced.andThen_eq_ok.mpr ⟨os₁, _, os₂, hos₁, hos₂, rfl⟩
  | noSum =>
    obtain ⟨n, rfl⟩ : ∃ k, n = k + 1 := ⟨n - 1, by simp only [Part.depth] at hn; omega⟩
    exact ⟨[], read_sums_end n _ (hstops.2 '+' (by decide)) (hstops.2 '-' (by decide))⟩
  | noProduct =>
    obtain ⟨n, rfl⟩ : ∃ k, n = k + 1 := ⟨n - 1, by simp only [Part.depth] at hn; omega⟩
    exact ⟨[], read_products_end n _ hstops.2⟩
  | @sum ws cs ds a t f hws hoperand hmore ihoperand ihmore =>
    obtain ⟨n, rfl⟩ : ∃ k, n = k + 1 := ⟨n - 1, by simp only [Part.depth] at hn; omega⟩
    simp only [Part.depth, List.length_append, List.length_cons] at hn
    obtain ⟨os₁, hos₁⟩ := @ihoperand (ds ++ rest) n (hmore.stops hstops)
      (by simp only [Part.depth, List.length_append]; omega)
    obtain ⟨os₂, hos₂⟩ := @ihmore rest n hstops (by simp only [Part.depth, List.length_append]; omega)
    have hskip : skipWs (ws ++ '+' :: (cs ++ ds) ++ rest) = '+' :: (cs ++ (ds ++ rest)) := by
      rw [skipWs_token hws (by decide), List.append_assoc]
    rw [read_plus n a hskip]
    exact ⟨_, read_operator hos₁ ((read_skipWs n _ id).trans hos₂)⟩
  | @difference ws cs ds a t f hws hoperand hmore ihoperand ihmore =>
    obtain ⟨n, rfl⟩ : ∃ k, n = k + 1 := ⟨n - 1, by simp only [Part.depth] at hn; omega⟩
    simp only [Part.depth, List.length_append, List.length_cons] at hn
    obtain ⟨os₁, hos₁⟩ := @ihoperand (ds ++ rest) n (hmore.stops hstops)
      (by simp only [Part.depth, List.length_append]; omega)
    obtain ⟨os₂, hos₂⟩ := @ihmore rest n hstops (by simp only [Part.depth, List.length_append]; omega)
    have hskip : skipWs (ws ++ '-' :: (cs ++ ds) ++ rest) = '-' :: (cs ++ (ds ++ rest)) := by
      rw [skipWs_token hws (by decide), List.append_assoc]
    rw [read_minus n a hskip]
    exact ⟨_, read_operator hos₁ ((read_skipWs n _ id).trans hos₂)⟩
  | @product ws cs ds a t f hws hoperand hmore ihoperand ihmore =>
    obtain ⟨n, rfl⟩ : ∃ k, n = k + 1 := ⟨n - 1, by simp only [Part.depth] at hn; omega⟩
    simp only [Part.depth, List.length_append, List.length_cons] at hn
    obtain ⟨os₁, hos₁⟩ := @ihoperand (ds ++ rest) n (hmore.stops hstops)
      (by simp only [Part.depth, List.length_append]; omega)
    obtain ⟨os₂, hos₂⟩ := @ihmore rest n hstops (by simp only [Part.depth, List.length_append]; omega)
    have hskip : skipWs (ws ++ '*' :: (cs ++ ds) ++ rest) = '*' :: (cs ++ (ds ++ rest)) := by
      rw [skipWs_token hws (by decide), List.append_assoc]
    rw [read_star n a hskip]
    exact ⟨_, read_operator hos₁ hos₂⟩
  | @number ws ds n' hws hne hdigits hrange =>
    obtain ⟨n, rfl⟩ : ∃ k, n = k + 1 := ⟨n - 1, by simp only [Part.depth] at hn; omega⟩
    obtain ⟨c, ds, rfl⟩ := List.exists_cons_of_ne_nil hne
    have hc : c.isDigit = true := Amounts.decimalValue_all hdigits c List.mem_cons_self
    have hskip := skipWs_token hws (fieldChar_not_space (fieldChar_of_digit hc)) ds rest
    have hread : readNumber (c :: (ds ++ rest)) = .ok ((n' : Int), rest) :=
      readNumber_digits hne hdigits hrange hstops.ends.1 hstops.ends.2.2
    refine ⟨[], ?_⟩
    rw [read_factor n hskip (Amounts.digit_ne hc rfl), if_pos (by simp [hc]), hread]
    rfl
  | @negative ws ds n' hws hne hdigits hrange =>
    obtain ⟨n, rfl⟩ : ∃ k, n = k + 1 := ⟨n - 1, by simp only [Part.depth] at hn; omega⟩
    have hskip : skipWs (ws ++ '-' :: ds ++ rest) = '-' :: (ds ++ rest) := skipWs_token hws (by decide) ds rest
    have hread := readNumber_minus hne hdigits hrange hstops.ends.1 hstops.ends.2.2
    refine ⟨[], ?_⟩
    rw [read_factor n hskip (by decide), if_pos (by decide), hread]
    rfl
  | @field ws name c hws hfirst hname =>
    obtain ⟨n, rfl⟩ : ∃ k, n = k + 1 := ⟨n - 1, by simp only [Part.depth] at hn; omega⟩
    have hc := isFieldChar_of_first hfirst
    have hskip := skipWs_token hws (fieldChar_not_space hc) name rest
    have hword : ∀ d ∈ c :: name, isFieldChar d = true := List.forall_mem_cons.mpr ⟨hc, hname⟩
    obtain ⟨htake, hdrop⟩ := takeWhile_word hword hstops.ends.2.1
    refine ⟨[], ?_⟩
    rw [read_factor n hskip (by rintro rfl; cases hfirst), if_neg, if_pos hfirst]
    · rw [List.cons_append] at htake hdrop
      simp only [readName, htake, hdrop]
      rfl
    · exact not_number_of_first hfirst
  | @parens ws cs ws' f hws hinner hws' ih =>
    obtain ⟨n, rfl⟩ : ∃ k, n = k + 1 := ⟨n - 1, by simp only [Part.depth] at hn; omega⟩
    simp only [Part.depth, List.length_append, List.length_cons] at hn
    have hclose : skipWs (ws' ++ ')' :: rest) = ')' :: rest := by
      rw [skipWs_append hws', skipWs_cons (by decide)]
    have hinnerStops : (Part.expr : Part Formula).Stops (ws' ++ ')' :: rest) := by
      refine ⟨.of_space hws' (by decide), ?_⟩
      rw [hclose]
      simp
    obtain ⟨os, hos⟩ := @ih (ws' ++ ')' :: rest) n hinnerStops
      (by simp only [Part.depth, List.length_append, List.length_cons]; omega)
    have hskip : skipWs (ws ++ '(' :: (cs ++ (ws' ++ [')'])) ++ rest) = '(' :: (cs ++ (ws' ++ ')' :: rest)) := by
      rw [skipWs_token hws (by decide)]
      simp
    rw [read_parens n hskip]
    refine ⟨os ++ [], Traced.andThen_eq_ok.mpr ⟨os, _, [], hos, ?_, rfl⟩⟩
    simp only [Part.after, hclose]
    rfl

/-- The operations that are read of an expression, whether or not it is a sentence. -/
def readExpr (expr : String) : Traced (Formula × List Char) :=
  read ((Part.expr : Part Formula).depth expr.toList.length) .expr expr.toList

theorem sentence_iff {expr : String} {f : Formula} :
    Sentence expr f ↔ ∃ rest, readExpr expr = (f.operations, .ok (f, rest)) ∧ skipWs rest = [] := by
  constructor
  · rintro ⟨cs, ws, hexpr, hderives, hws⟩
    have hend : skipWs ws = [] := by
      rw [← List.append_nil ws, skipWs_append hws]
      rfl
    have hstops : (Part.expr : Part Formula).Stops ws := by
      refine ⟨fun c hc => .inl (hws c (List.mem_of_mem_head? hc)), ?_⟩
      rw [hend]
      simp
    obtain ⟨os, hos⟩ := read_of_derives hderives hstops le_rfl
    obtain ⟨-, rfl⟩ := reads_of_read hos
    rw [← hexpr] at hos
    exact ⟨_, hos, (skipWs_skipWs ws).trans hend⟩
  · rintro ⟨rest, hread, hrest⟩
    obtain ⟨⟨used, ws, hexpr, hws, hderives⟩, -⟩ := reads_of_read hread
    refine ⟨used, ws ++ rest, hexpr, hderives, hws.append ?_⟩
    have hspace := isSpace_takeWhile rest
    have hwhole := takeWhile_append_skipWs rest
    rw [hrest, List.append_nil] at hwhole
    rwa [hwhole] at hspace

theorem Sentence.unique {expr : String} {f g : Formula} (hf : Sentence expr f) (hg : Sentence expr g) : f = g := by
  obtain ⟨_, hf, -⟩ := sentence_iff.mp hf
  obtain ⟨_, hg, -⟩ := sentence_iff.mp hg
  cases (Prod.mk.inj (hf.symm.trans hg)).2
  rfl

end

/-- One operand alone is returned as it is, and with an operator it is the exact value or an error. -/
def Computed (values : Values) (f : Formula) (r : Except FormulaError Json) : Prop :=
  match f with
  | .operand o => r = .ok (o.value values)
  | .binary .. =>
    match f.exact values with
    | some n => r = .ok (ofI64 n)
    | none => ∃ e, r = .error e

/-- A result is exact: only a sentence without the banned words has a value, and it is the one of its formula. -/
structure Exact (expr : String) (values : Values) (r : Except FormulaError Json) : Prop where
  returned : r ≠ .error unfinished
  accepted : ∀ v, r = .ok v → escapes expr = false ∧ ∃ f, Sentence expr f
  computed : ∀ f, Sentence expr f → escapes expr = false → Computed values f r

theorem Exact.of_error {expr : String} {values : Values} {e : FormulaError} (hreturned : e ≠ unfinished)
    (h : ∀ f, Sentence expr f → escapes expr = false → Computed values f (.error e)) :
    Exact expr values (.error e) where
  returned := fun he => hreturned (Except.error.inj he)
  accepted := fun v hv => (by cases hv)
  computed := h

section
variable [CharTables]

/-- No operation that is read, up to the first with an operand that is no integer, has a result beyond 64 bits. -/
def InRange (expr : String) (values : Values) : Prop :=
  escapes expr = false → ending values (readExpr expr).1 ≠ .overflowed

theorem evalFormula_computes (b : Build) (expr : String) (values : Values) :
    Computes b values (readExpr expr) (parseExpr b values expr.toList) := parse_computes _ .expr _

theorem computed_of_refused {expr : String} {values : Values} {f : Formula} (hf : Sentence expr f)
    (h : ending values (readExpr expr).1 = .refused) (e : FormulaError) : Computed values f (.error e) := by
  obtain ⟨rest, hread, -⟩ := sentence_iff.mp hf
  rw [hread] at h
  cases f with
  | operand o => cases h
  | binary op left right =>
    unfold Computed
    cases hexact : (Formula.binary op left right).exact values with
    | none => exact ⟨e, rfl⟩
    | some n => cases (ending_of_exact hexact).symm.trans h

/-- What is read and has a value is a sentence with that value, or has something after it. -/
theorem exact_of_read {expr : String} {values : Values} {f : Formula} {rest : List Char} {v : Json}
    (hescapes : escapes expr = false) (hread : (readExpr expr).2 = .ok (f, rest)) (hv : Holds values f v) :
    Exact expr values (if skipWs rest = [] then .ok v else .error (.parse "trailing input")) := by
  have hpair : readExpr expr = ((readExpr expr).1, .ok (f, rest)) := by rw [← hread]
  obtain ⟨-, hoperations⟩ := reads_of_read hpair
  have hwhole : readExpr expr = (f.operations, .ok (f, rest)) := hpair.trans (congrArg (fun os => (os, _)) hoperations)
  by_cases hrest : skipWs rest = []
  · have hsentence : Sentence expr f := sentence_iff.mpr ⟨rest, hwhole, hrest⟩
    rw [if_pos hrest]
    refine ⟨fun h => (by cases h), fun _ _ => ⟨hescapes, f, hsentence⟩, fun g hg _ => ?_⟩
    obtain rfl := hsentence.unique hg
    cases f with
    | operand o => exact congrArg Except.ok hv
    | binary op left right =>
      obtain ⟨n, hn, rfl⟩ := hv
      unfold Computed
      rw [hn]
  · rw [if_neg hrest]
    refine .of_error (by decide) fun g hg _ => ?_
    obtain ⟨rest', hread', hrest'⟩ := sentence_iff.mp hg
    cases (Prod.mk.inj (hwhole.symm.trans hread')).2
    exact absurd hrest' hrest

theorem exact_of_inRange (b : Build) {expr : String} {values : Values} (h : InRange expr values) :
    ∃ r, evalFormula b expr values = Run.of r ∧ Exact expr values r := by
  have hcomputes := evalFormula_computes b expr values
  unfold evalFormula
  cases hescapes : escapes expr with
  | true => exact ⟨_, rfl, .of_error (by decide) fun f _ hno => (by cases hescapes.symm.trans hno)⟩
  | false =>
    simp only [Bool.false_eq_true, if_false]
    unfold Computes at hcomputes
    cases hending : ending values (readExpr expr).1 with
    | overflowed => exact absurd hending (h hescapes)
    | refused =>
      rw [hending] at hcomputes
      obtain ⟨detail, hrun⟩ := hcomputes
      rw [hrun]
      exact ⟨_, rfl, .of_error (fun he => by cases he) fun f hf _ => computed_of_refused hf hending _⟩
    | done =>
      rw [hending] at hcomputes
      cases hout : (readExpr expr).2 with
      | error e =>
        rw [hout] at hcomputes
        have hfinishes : parseExpr b values expr.toList ≠ Run.of (.error unfinished) := parse_finishes le_rfl
        have he : e ≠ unfinished := fun he => hfinishes (by rw [hcomputes, he])
        rw [hcomputes]
        refine ⟨_, rfl, .of_error he fun f hf _ => ?_⟩
        obtain ⟨rest, hread, -⟩ := sentence_iff.mp hf
        rw [hread] at hout
        cases hout
      | ok x =>
        rw [hout] at hcomputes
        obtain ⟨v, hv, hrun⟩ := hcomputes
        refine ⟨_, ?_, exact_of_read hescapes hout hv⟩
        rw [hrun, Run.of_ok_bind]
        split_ifs
        · rfl
        · rfl

theorem panics_of_overflow {b : Build} (hb : b.arithmetic = .panics) {expr : String} {values : Values}
    (h : ¬InRange expr values) : evalFormula b expr values = Run.panics := by
  unfold InRange at h
  push Not at h
  obtain ⟨hescapes, hending⟩ := h
  have hcomputes := evalFormula_computes b expr values
  unfold Computes at hcomputes
  rw [hending] at hcomputes
  unfold evalFormula
  rw [hescapes, hcomputes hb]
  rfl

/-- Formulas are evaluated exactly in every build where, and only where, no result that is computed overflows. -/
theorem formula_exact_iff (expr : String) (values : Values) :
    (∀ b : Build, ∃ r, evalFormula b expr values = Run.of r ∧ Exact expr values r) ↔ InRange expr values := by
  constructor
  · intro h
    by_contra hrange
    obtain ⟨r, hr, -⟩ := h .debug
    rw [panics_of_overflow rfl hrange] at hr
    exact Run.of_ne_panics r hr.symm
  · intro h b
    exact exact_of_inRange b h

end

/-- What the tables say of the characters of ASCII, and nothing of the others. -/
@[reducible] def asciiTables : CharTables := ⟨fun c => 0x20 ≤ c.toNat && c.toNat ≤ 0x7e⟩

/-- One more than the greatest integer is a panic where arithmetic is checked, and the least integer where it is not. -/
theorem formula_wraps : letI := asciiTables
    let expr := "9223372036854775807 + 1"
    Sentence expr (.binary .add (.operand (.number i64Max)) (.operand (.number 1))) ∧
      evalFormula .debug expr .empty = Run.panics ∧
        evalFormula .release expr .empty = Run.of (.ok (.number (.negInt i64Min))) ∧
      ¬∀ b : Build, ∃ r, evalFormula b expr .empty = Run.of r ∧ Exact expr .empty r := by
  let := asciiTables
  intro expr
  have hescapes : escapes expr = false := by decide +kernel
  have hexpr : expr.toList = ['9', '2', '2', '3', '3', '7', '2', '0', '3', '6', '8', '5', '4', '7', '7', '5', '8', '0',
      '7', ' ', '+', ' ', '1'] := by decide +kernel
  have hdebug : evalFormula .debug expr .empty = Run.panics := by
    rw [evalFormula, hescapes, hexpr]
    rfl
  refine ⟨sentence_iff.mpr ⟨[], ?_, rfl⟩, hdebug, ?_, fun h => ?_⟩
  · rw [readExpr, hexpr]
    rfl
  · have hwrap : Build.release.arith i64 (i64Max + 1) = some i64Min := by decide
    have hsum : numOp .release (ofI64 i64Max) (ofI64 1) (· + ·) = pure (.number (.negInt i64Min)) :=
      numOp_of_kept (integer_ofI64 (by decide)) (integer_ofI64 (by decide)) hwrap
    rw [evalFormula, hescapes, hexpr]
    change (numOp .release (ofI64 i64Max) (ofI64 1) (· + ·) >>= fun v => pure v) = _
    rw [hsum]
    rfl
  · obtain ⟨r, hr, -⟩ := h .debug
    exact Run.of_ne_panics r (hr.symm.trans hdebug)

end Noxara.Custom
