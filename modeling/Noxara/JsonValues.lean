import Mathlib.Data.Rat.Defs

/-! JSON values and the ways into them: by key, by a path of keys and by a JSON pointer. An object
is the list of its members in the order of their keys. -/
namespace Noxara

/-- A number keeps how it was read: equal values of two sorts are different numbers. -/
inductive JsonNumber
  | posInt (n : Nat)
  | negInt (n : Int)
  | float (x : Rat)
  deriving DecidableEq

inductive Json
  | null
  | bool (b : Bool)
  | number (n : JsonNumber)
  | string (s : String)
  | array (items : List Json)
  | object (members : List (String × Json))

namespace Json

mutual

/-- Do the two values have the same tree? -/
def beq : Json → Json → Bool
  | null, null => true
  | bool a, bool b => a == b
  | number a, number b => decide (a = b)
  | string a, string b => decide (a = b)
  | array a, array b => beqItems a b
  | object a, object b => beqMembers a b
  | _, _ => false

def beqItems : List Json → List Json → Bool
  | [], [] => true
  | a :: as, b :: bs => beq a b && beqItems as bs
  | _, _ => false

def beqMembers : List (String × Json) → List (String × Json) → Bool
  | [], [] => true
  | (j, a) :: as, (k, b) :: bs => decide (j = k) && beq a b && beqMembers as bs
  | _, _ => false

end

mutual

theorem beq_iff : (a b : Json) → (beq a b = true ↔ a = b)
  | null, b => by cases b <;> simp [beq]
  | bool _, b => by cases b <;> simp [beq]
  | number _, b => by cases b <;> simp [beq]
  | string _, b => by cases b <;> simp [beq]
  | array as, b => by
    cases b with
    | array bs => simpa [beq] using beqItems_iff as bs
    | _ => simp [beq]
  | object as, b => by
    cases b with
    | object bs => simpa [beq] using beqMembers_iff as bs
    | _ => simp [beq]

theorem beqItems_iff : (as bs : List Json) → (beqItems as bs = true ↔ as = bs)
  | [], bs => by cases bs <;> simp [beqItems]
  | a :: as, bs => by
    cases bs with
    | nil => simp [beqItems]
    | cons b bs => simp [beqItems, beq_iff a b, beqItems_iff as bs]

theorem beqMembers_iff : (as bs : List (String × Json)) → (beqMembers as bs = true ↔ as = bs)
  | [], bs => by cases bs <;> simp [beqMembers]
  | (j, a) :: as, bs => by
    cases bs with
    | nil => simp [beqMembers]
    | cons b bs => simp [beqMembers, beq_iff a b.2, beqMembers_iff as bs, Prod.ext_iff]

end

instance : DecidableEq Json := fun a b => decidable_of_iff _ (beq_iff a b)

/-- Put a member in its place; a later member with the same key wins. -/
def insertMember (k : String) (v : Json) : List (String × Json) → List (String × Json)
  | [] => [(k, v)]
  | (j, w) :: ms =>
    if k = j then (k, v) :: ms else if k < j then (k, v) :: (j, w) :: ms else (j, w) :: insertMember k v ms

def ofFields (fields : List (String × Json)) : Json :=
  object (fields.foldl (fun ms f => insertMember f.1 f.2 ms) [])

/-- The member `k` of an object. -/
def get (k : String) : Json → Option Json
  | object ms => (ms.find? fun m => m.1 = k).map Prod.snd
  | _ => none

def asStr : Json → Option String
  | string s => some s
  | _ => none

/-- `Value::as_i64`. -/
def asI64 : Json → Option Int
  | number (.posInt n) => if n < 9223372036854775808 then some n else none
  | number (.negInt n) => some n
  | _ => none

def asBool : Json → Option Bool
  | bool b => some b
  | _ => none

def splitChar (c : Char) (s : String) : List String := (s.toList.splitOn c).map String.ofList

/-- The value at the end of a path of keys. -/
def along (keys : List String) (v : Json) : Option Json := keys.foldlM (fun cur k => cur.get k) v

/-- Replace each `a` followed by `b`, from left to right. -/
def replacePair (a b c : Char) : List Char → List Char
  | x :: y :: l => if x = a ∧ y = b then c :: replacePair a b c l else x :: replacePair a b c (y :: l)
  | l => l

/-- What a reference token of a pointer stands for. -/
def unescape (token : String) : String :=
  String.ofList (replacePair '~' '0' '~' (replacePair '~' '1' '/' token.toList))

/-- An array index in a pointer has no sign and no leading zero. -/
def parseIndex (token : String) : Option Nat :=
  match token.toList with
  | [] => none
  | ['0'] => some 0
  | c :: cs =>
    if c ≠ '0' ∧ (c :: cs).all Char.isDigit then
      some ((c :: cs).foldl (fun n d => 10 * n + (d.toNat - 48)) 0)
    else none

def step (v : Json) (token : String) : Option Json :=
  match v with
  | object _ => v.get token
  | array items => (parseIndex token).bind fun i => items[i]?
  | _ => none

/-- The value a JSON pointer names. -/
def pointer (v : Json) (p : String) : Option Json :=
  match p.toList with
  | [] => some v
  | '/' :: rest => ((rest.splitOn '/').map fun t => unescape (String.ofList t)).foldlM step v
  | _ => none

example : (ofFields [("b", .null), ("a", .array [.bool true])]).pointer "/a/0" = some (.bool true) := by
  decide +kernel

end Json

end Noxara
