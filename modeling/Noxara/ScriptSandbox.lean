import Noxara.FormulaFields

/-! The scripts of an entity: a tree of statements, run under limits on operations, memory and time. Only the values
of the record can be read and set. -/
namespace Noxara.Custom.Sandbox

/-- The nearest integer, and the even one of two. -/
def roundHalfEven (x : Rat) : Int :=
  let low := x.floor
  let part := x - low
  if part < 1 / 2 then low else if 1 / 2 < part then low + 1 else if low % 2 = 0 then low else low + 1

/-- The exponent of the greatest power of two up to a positive number. -/
def binaryExponent (x : Rat) : Int :=
  let e : Int := (Nat.log 2 x.num.natAbs : Int) - Nat.log 2 x.den
  if (2 : Rat) ^ e ≤ x then e else e - 1

/-- The nearest double, when there is one: beyond the greatest the result is infinite. -/
def nearestDouble (x : Rat) : Option Rat :=
  if x = 0 then some 0
  else
    let ulp : Rat := 2 ^ max (binaryExponent |x| - 52) (-1074)
    let rounded := roundHalfEven (|x| / ulp) * ulp
    if 2 ^ 1024 ≤ rounded then none else some (if x < 0 then -rounded else rounded)

/-- A 64-bit integer as a double. -/
def doubleOfInt (n : Int) : Rat := (nearestDouble n).getD 0

example : nearestDouble (1 / 10) = some (3602879701896397 / 36028797018963968) := by decide +kernel

def u64Max : Nat := 2 ^ 64 - 1

def isizeMax : Nat := 2 ^ 63 - 1

/-- Times are in nanoseconds. -/
structure Limits where
  maxOps : Nat
  maxBytes : Nat
  maxWall : Nat

def Limits.default : Limits where
  maxOps := 10000
  maxBytes := 256 * 1024
  maxWall := 50000000

inductive SandboxError
  | cpuLimit (ops : Nat)
  | memoryLimit (bytes : Nat)
  | timeLimit
  | deniedHost (name : String)
  | runtime (detail : String)
  deriving DecidableEq

inductive Expr
  | lit (value : Json)
  | field (name : String)
  | add (left right : Expr)
  | sub (left right : Expr)
  | mul (left right : Expr)
  | eq (left right : Expr)
  | gt (left right : Expr)
  | not (expr : Expr)
  | true

inductive Stmt
  | set (field : String) (expr : Expr)
  | ite (cond : Expr) (then_ else_ : List Stmt)
  | loop (times : Nat) (body : List Stmt)
  | sleepMs (ms : Nat)
  | alloc (field : String) (size : Nat)
  | call (name : String) (args : List Expr)

mutual

/-- A size is a number of bytes in memory, so that no sum of sizes overflows. -/
def approxBytes : Json → Nat
  | .null => 4
  | .bool _ => 1
  | .number _ => 16
  | .string s => s.utf8ByteSize
  | .array items => approxItems items + 8
  | .object members => approxMembers members + 8

def approxItems : List Json → Nat
  | [] => 0
  | v :: vs => approxBytes v + approxItems vs

def approxMembers : List (String × Json) → Nat
  | [] => 0
  | (k, v) :: ms => k.utf8ByteSize + approxBytes v + approxMembers ms

end

structure RecordHost where
  values : Values
  bytesUsed : Nat
  maxBytes : Nat

namespace RecordHost

def new (values : Values) (maxBytes : Nat) : RecordHost where
  values := values
  bytesUsed := approxBytes (.object values.entries)
  maxBytes := maxBytes

def getField (host : RecordHost) (name : String) : Json := (host.values.get name).getD .null

/-- What the values take when a field is set, as far as the host knows. -/
def next (host : RecordHost) (name : String) (value : Json) : Nat :=
  host.bytesUsed - ((host.values.get name).map approxBytes).getD 0 + approxBytes value

def setField (host : RecordHost) (name : String) (value : Json) : Except SandboxError RecordHost :=
  if host.maxBytes < host.next name value then .error (.memoryLimit host.maxBytes)
  else .ok ⟨host.values.insert name value, host.next name value, host.maxBytes⟩

end RecordHost

/-- The readings of the wall clock in a run, and the last instant that the type of instants can hold. -/
structure Clock where
  reading : Nat → Nat
  mono : Monotone reading
  latest : Nat

/-- `statements`, `expressions` and `iterations` count those that were evaluated, and `longest` is the length of the
longest string that was built for an `Alloc`: they are not the program's own. -/
structure State where
  host : RecordHost
  ops : Nat
  readings : Nat
  statements : Nat
  expressions : Nat
  iterations : Nat
  longest : Nat

inductive Action
  | tick
  | statement
  | expression
  | iteration
  | build (size : Nat)
  | set (name : String) (value : Json)
  | instant (t : Nat)

/-- `steps` keeps, the last first, what was begun and the state that it was begun in. -/
structure Machine where
  state : State
  steps : List (Action × State)

inductive Stop
  | error (e : SandboxError)
  | panics
  | unfinished

/-- What a part of a program does: it may stop, and the state that it stops in stays. -/
abbrev Script := ExceptT Stop (StateM Machine)

/-- Do something, and keep that it was begun. -/
def act {α : Type} (a : Action) (f : State → Except Stop α × State) : Script α := fun m =>
  ((f m.state).1, ⟨(f m.state).2, (a, m.state) :: m.steps⟩)

def fails {α : Type} (e : SandboxError) : Script α := throw (.error e)

def ofExcept {α : Type} : Except SandboxError α → Script α
  | .ok a => pure a
  | .error e => fails e

def getField (name : String) : Script Json := fun m => (.ok (m.state.host.getField name), m)

def setField (name : String) (value : Json) : Script Unit :=
  act (.set name value) fun s =>
    match s.host.setField name value with
    | .ok host => (.ok (), { s with host := host })
    | .error e => (.error (.error e), s)

def statement : Script Unit := act .statement fun s => (.ok (), { s with statements := s.statements + 1 })

def expression : Script Unit := act .expression fun s => (.ok (), { s with expressions := s.expressions + 1 })

def iteration : Script Unit := act .iteration fun s => (.ok (), { s with iterations := s.iterations + 1 })

/-- `"x".repeat(size)` panics where no string can have the size. -/
def build (size : Nat) : Script String :=
  act (.build size) fun s =>
    if isizeMax < size then (.error .panics, s)
    else (.ok (String.ofList (List.replicate size 'x')), { s with longest := max s.longest size })

def truthy : Json → Bool
  | .null => false
  | .bool b => b
  | .number (.posInt n) => n ≠ 0
  | .number (.negInt n) => n ≠ 0
  | .number (.float x) => x ≠ 0
  | .string s => s ≠ ""
  | .array items => !items.isEmpty
  | .object members => !members.isEmpty

def asF64 : Json → Except SandboxError Rat
  | .number (.posInt n) => .ok (doubleOfInt n)
  | .number (.negInt n) => .ok (doubleOfInt n)
  | .number (.float x) => .ok x
  | .bool b => .ok (if b then 1 else 0)
  | _ => .error (.runtime "expected number")

def jsonNumber (x : Option Rat) : Json := (x.map fun x => Json.number (.float x)).getD .null

/-- Of a text `get` or `set`, and of the names of what a host could offer, none is a function of this host. -/
def callError (name : String) : SandboxError :=
  if name = "get" ∨ name = "set" then .runtime "use set/field AST nodes instead of call get/set" else .deniedHost name

section
variable (limits : Limits) (clock : Clock)

def started : Nat := clock.reading 0

def now : Script Nat := fun m =>
  (.ok (clock.reading m.state.readings), ⟨{ m.state with readings := m.state.readings + 1 }, m.steps⟩)

/-- An instant that is computed must be one that can be held. -/
def instant (t : Nat) : Script Nat :=
  act (.instant t) fun s => if clock.latest < t then (.error .panics, s) else (.ok t, s)

/-- The counter stays at the greatest number of its type. -/
def saturatingSucc (n : Nat) : Nat := min (n + 1) u64Max

def tick : Script Unit :=
  act .tick fun s =>
    let ops := saturatingSucc s.ops
    if limits.maxOps < ops then (.error (.error (.cpuLimit limits.maxOps)), { s with ops := ops })
    else
      let s' : State := { s with
        ops := ops
        readings := s.readings + 1 }
      if limits.maxWall < clock.reading s.readings - started clock then (.error (.error .timeLimit), s')
        else (.ok (), s')

/-- A statement is evaluated once the meter has counted it. -/
def enterStmt : Script Unit := do
  tick limits clock
  statement

def enterExpr : Script Unit := do
  tick limits clock
  expression

def evalExpr : Expr → Script Json
  | .lit value => do
    enterExpr limits clock
    pure value
  | .field name => do
    enterExpr limits clock
    getField name
  | .true => do
    enterExpr limits clock
    pure (.bool true)
  | .not expr => do
    enterExpr limits clock
    let v ← evalExpr expr
    pure (.bool !truthy v)
  | .eq left right => do
    enterExpr limits clock
    let l ← evalExpr left
    let r ← evalExpr right
    pure (.bool (decide (l = r)))
  | .gt left right => do
    enterExpr limits clock
    let l ← evalExpr left
    let l ← ofExcept (asF64 l)
    let r ← evalExpr right
    let r ← ofExcept (asF64 r)
    pure (.bool (decide (r < l)))
  | .add left right => do
    enterExpr limits clock
    let l ← evalExpr left
    let l ← ofExcept (asF64 l)
    let r ← evalExpr right
    let r ← ofExcept (asF64 r)
    pure (jsonNumber (nearestDouble (l + r)))
  | .sub left right => do
    enterExpr limits clock
    let l ← evalExpr left
    let l ← ofExcept (asF64 l)
    let r ← evalExpr right
    let r ← ofExcept (asF64 r)
    pure (jsonNumber (nearestDouble (l - r)))
  | .mul left right => do
    enterExpr limits clock
    let l ← evalExpr left
    let l ← ofExcept (asF64 l)
    let r ← evalExpr right
    let r ← ofExcept (asF64 r)
    pure (jsonNumber (nearestDouble (l * r)))

/-- The rounds of the busy wait; a run that takes more of them than the counter can count is not followed further. -/
def wait (deadline target : Nat) : Nat → Script Unit
  | 0 => throw .unfinished
  | n + 1 => do
    let t ← now clock
    if t < target then
      tick limits clock
      let t ← now clock
      if deadline ≤ t then fails .timeLimit else wait deadline target n
    else pure ()

def repeatTimes (body : Script Unit) : Nat → Script Unit
  | 0 => pure ()
  | n + 1 => do
    iteration
    body
    repeatTimes body n

mutual

def evalStmt : Stmt → Script Unit
  | .set field expr => do
    enterStmt limits clock
    let v ← evalExpr limits clock expr
    setField field v
  | .ite cond then_ else_ => do
    enterStmt limits clock
    let c ← evalExpr limits clock cond
    if truthy c then evalBlock then_ else evalBlock else_
  | .loop times body => do
    enterStmt limits clock
    repeatTimes (evalBlock body) (min times (saturatingSucc limits.maxOps))
  | .sleepMs ms => do
    enterStmt limits clock
    let deadline ← instant clock (started clock + limits.maxWall)
    let t ← now clock
    let target ← instant clock (t + ms * 1000000)
    wait limits clock deadline target (u64Max + 1)
  | .alloc field size => do
    enterStmt limits clock
    tick limits clock
    let s ← build size
    setField field (.string s)
  | .call name _ => do
    enterStmt limits clock
    fails (callError name)

def evalBlock : List Stmt → Script Unit
  | [] => pure ()
  | stmt :: stmts => do
    evalStmt stmt
    evalBlock stmts

end

/-- The run of a program: its outcome, and the machine that it leaves. -/
def execute (program : List Stmt) (host : RecordHost) : Except Stop Unit × Machine :=
  evalBlock limits clock program ⟨⟨host, 0, 1, 0, 0, 0, 0⟩, []⟩

end

end Noxara.Custom.Sandbox
