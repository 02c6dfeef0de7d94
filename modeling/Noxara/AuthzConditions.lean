import Noxara.PublicIds

/-! Attribute conditions of policy statements. They fail closed: a condition that the context
cannot answer is not met. -/
namespace Noxara.Authz

open Finance (Timestamp)

/-- A time of day; `frac` counts nanoseconds and passes a second where the clock shows `:60`. -/
structure NaiveTime where
  secs : Nat
  frac : Nat
  deriving DecidableEq

def NaiveTime.le (a b : NaiveTime) : Bool := a.secs < b.secs || (a.secs = b.secs && a.frac ≤ b.frac)

/-- Reading a time of day in a `strftime` format. -/
class TimeFormats where
  naiveTimeParseFromStr : (s fmt : String) → Option NaiveTime

/-- Times of day written with two digits each: `HH:MM:SS`, or `HH:MM`. -/
@[reducible] def canonicalTimeFormats : TimeFormats where
  naiveTimeParseFromStr s fmt :=
    let pair (a b : Char) : Option Nat :=
      if a.isDigit ∧ b.isDigit then some (10 * (a.toNat - 48) + (b.toNat - 48)) else none
    match fmt, s.toList with
    | "%H:%M:%S", [h, h', ':', m, m', ':', x, x'] => do
      let h ← pair h h'
      let m ← pair m m'
      let x ← pair x x'
      if h < 24 ∧ m < 60 ∧ x < 60 then some ⟨3600 * h + 60 * m + x, 0⟩ else none
    | "%H:%M", [h, h', ':', m, m'] => do
      let h ← pair h h'
      let m ← pair m m'
      if h < 24 ∧ m < 60 then some ⟨3600 * h + 60 * m, 0⟩ else none
    | _, _ => none

/-- What the caller is known by when conditions are evaluated. -/
structure EvaluationContext where
  now : Option Timestamp
  location : Option String
  delegationId : Option String
  recordState : Option String

def EvaluationContext.default : EvaluationContext := ⟨none, none, none, none⟩

inductive AbacCondition
  | timeWindow (start stop : String) (weekdays : List Nat)
  | location (allow : List String)
  | delegation (required : Bool) (allowedIds : List String)
  | recordState (allow deny : List String)
  deriving DecidableEq

/-- 1 = Monday to 7 = Sunday; day 0 of the epoch was a Thursday. -/
def weekdayNum (now : Timestamp) : Nat := ((now / 86400 + 3) % 7).toNat + 1

def timeOfDay (now : Timestamp) : NaiveTime := ⟨(now % 86400).toNat, 0⟩

section Matching
variable [TimeFormats]

def parseHms (s : String) : Option NaiveTime :=
  TimeFormats.naiveTimeParseFromStr s "%H:%M:%S" <|> TimeFormats.naiveTimeParseFromStr s "%H:%M"

def matchTimeWindow (now : Option Timestamp) (start stop : String) (weekdays : List Nat) : Bool :=
  match now, parseHms start, parseHms stop with
  | some now, some startT, some endT =>
    if weekdays ≠ [] ∧ weekdayNum now ∉ weekdays then false
    else
      let t := timeOfDay now
      if startT.le endT then startT.le t && !endT.le t
      else startT.le t || !endT.le t
  | _, _, _ => false

def matchLocation (location : Option String) (allow : List String) : Bool :=
  if allow = [] then true
  else match location with
    | none => false
    | some loc => allow.any fun a => loc = a || a.toList.isPrefixOf loc.toList

def matchDelegation (delegationId : Option String) (required : Bool) (allowedIds : List String) :
    Bool :=
  match delegationId with
  | none => !required && allowedIds.isEmpty
  | some id => if allowedIds.isEmpty then true else allowedIds.any (· = id)

def matchRecordState (state : Option String) (allow deny : List String) : Bool :=
  match state with
  | none => false
  | some state =>
    if deny.any (· = state) then false
    else if allow.isEmpty then true
    else allow.any (· = state)

def AbacCondition.matchesCtx (c : AbacCondition) (ctx : EvaluationContext) : Bool :=
  match c with
  | timeWindow start stop weekdays => matchTimeWindow ctx.now start stop weekdays
  | location allow => matchLocation ctx.location allow
  | delegation required allowedIds => matchDelegation ctx.delegationId required allowedIds
  | recordState allow deny => matchRecordState ctx.recordState allow deny

def conditionsMatch (conditions : List AbacCondition) (ctx : EvaluationContext) : Bool :=
  conditions.all (·.matchesCtx ctx)

@[simp] theorem conditionsMatch_nil (ctx : EvaluationContext) : conditionsMatch [] ctx = true := rfl

/-- A condition that an empty context meets asks for nothing. -/
theorem AbacCondition.matchesCtx_of_default (c : AbacCondition) (h : c.matchesCtx .default = true)
    (ctx : EvaluationContext) : c.matchesCtx ctx = true := by
  cases c with
  | timeWindow start stop weekdays => simp [matchesCtx, matchTimeWindow, EvaluationContext.default] at h
  | location allow =>
    have hallow : allow = [] := by
      by_contra hne
      simp [matchesCtx, matchLocation, EvaluationContext.default, hne] at h
    simp [matchesCtx, matchLocation, hallow]
  | delegation required allowedIds =>
    obtain ⟨hreq, hids⟩ : required = false ∧ allowedIds = [] := by
      simpa [matchesCtx, matchDelegation, EvaluationContext.default] using h
    cases hid : ctx.delegationId <;> simp [matchesCtx, matchDelegation, hreq, hids, hid]
  | recordState allow deny => simp [matchesCtx, matchRecordState, EvaluationContext.default] at h

theorem conditionsMatch_of_default {cs : List AbacCondition}
    (h : conditionsMatch cs .default = true) (ctx : EvaluationContext) :
    conditionsMatch cs ctx = true := by
  unfold conditionsMatch at *
  rw [List.all_eq_true] at *
  exact fun c hc => c.matchesCtx_of_default (h c hc) ctx

end Matching

end Noxara.Authz
