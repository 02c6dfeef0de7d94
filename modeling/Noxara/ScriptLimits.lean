import Noxara.ScriptSandbox

/-! Which limits a run of a script keeps: the actions that the meter and the host do not charge for, and what holds in
every state of a run without them. -/
namespace Noxara.Custom.Sandbox

variable {α β : Type}

theorem bind_ok {p : Script α} {f : α → Script β} {m m' : Machine} {a : α} (h : p m = (.ok a, m')) :
    (p >>= f) m = f a m' := by
  change ExceptT.bindCont f (p m).1 (p m).2 = _
  rw [h]
  rfl

theorem bind_error {p : Script α} {f : α → Script β} {m m' : Machine} {e : Stop} (h : p m = (.error e, m')) :
    (p >>= f) m = (.error e, m') := by
  change ExceptT.bindCont f (p m).1 (p m).2 = _
  rw [h]
  rfl

theorem bind_cases (p : Script α) (f : α → Script β) (m : Machine) :
    (∃ a m', p m = (.ok a, m') ∧ (p >>= f) m = f a m') ∨
      ∃ e m', p m = (.error e, m') ∧ (p >>= f) m = (.error e, m') := by
  cases h : p m with
  | mk r m' =>
    cases r with
    | ok a => exact .inl ⟨a, m', rfl, bind_ok h⟩
    | error e => exact .inr ⟨e, m', rfl, bind_error h⟩

/-- What every action has, and a sequence of parts that have it, all programs have. -/
structure Rule (limits : Limits) (clock : Clock) (P : {α : Type} → Script α → Prop) : Prop where
  pure : ∀ {α : Type} (a : α), P (Pure.pure a : Script α)
  bind : ∀ {α β : Type} {p : Script α} {f : α → Script β}, P p → (∀ a, P (f a)) → P (p >>= f)
  fails : ∀ {α : Type} (e : SandboxError), P (fails e : Script α)
  getField : ∀ name, P (getField name)
  setField : ∀ name value, P (setField name value)
  iteration : P iteration
  build : ∀ size, P (build size)
  now : P (now clock)
  instant : ∀ t, P (instant clock t)
  tick : P (tick limits clock)
  enterStmt : P (enterStmt limits clock)
  enterExpr : P (enterExpr limits clock)
  wait : ∀ deadline target, P (wait limits clock deadline target (u64Max + 1))

namespace Rule
variable {limits : Limits} {clock : Clock} {P : {α : Type} → Script α → Prop} (rule : Rule limits clock P)
include rule

theorem ofExcept (x : Except SandboxError α) : P (ofExcept x) := by
  cases x with
  | error e => exact rule.fails e
  | ok a => exact rule.pure a

theorem evalExpr (e : Expr) : P (evalExpr limits clock e) := by
  have henter := rule.enterExpr
  induction e with
  | lit value => exact rule.bind henter fun _ => rule.pure _
  | field name => exact rule.bind henter fun _ => rule.getField name
  | true => exact rule.bind henter fun _ => rule.pure _
  | not expr ih => exact rule.bind henter fun _ => rule.bind ih fun _ => rule.pure _
  | eq left right hl hr =>
    exact rule.bind henter fun _ => rule.bind hl fun _ => rule.bind hr fun _ => rule.pure _
  | gt left right hl hr | add left right hl hr | sub left right hl hr | mul left right hl hr =>
    exact rule.bind henter fun _ => rule.bind hl fun _ => rule.bind (rule.ofExcept _) fun _ =>
      rule.bind hr fun _ => rule.bind (rule.ofExcept _) fun _ => rule.pure _

theorem repeatTimes {body : Script Unit} (h : P body) (n : Nat) : P (repeatTimes body n) := by
  induction n with
  | zero => exact rule.pure ()
  | succ n ih => exact rule.bind rule.iteration fun _ => rule.bind h fun _ => ih

mutual

theorem evalStmt : (stmt : Stmt) → P (evalStmt limits clock stmt)
  | .set field expr => rule.bind rule.enterStmt fun _ => rule.bind (rule.evalExpr expr) fun v => rule.setField field v
  | .ite cond then_ else_ => by
    have hthen := evalBlock then_
    have helse := evalBlock else_
    refine rule.bind rule.enterStmt fun _ => rule.bind (rule.evalExpr cond) fun c => ?_
    split_ifs
    · exact hthen
    · exact helse
  | .loop times body => rule.bind rule.enterStmt fun _ => rule.repeatTimes (evalBlock body) _
  | .sleepMs ms =>
    rule.bind rule.enterStmt fun _ => rule.bind (rule.instant _) fun deadline => rule.bind rule.now fun _ =>
      rule.bind (rule.instant _) fun target => rule.wait deadline target
  | .alloc field size =>
    rule.bind rule.enterStmt fun _ => rule.bind rule.tick fun _ => rule.bind (rule.build size) fun s =>
      rule.setField field (.string s)
  | .call name _ => rule.bind rule.enterStmt fun _ => rule.fails _

theorem evalBlock : (stmts : List Stmt) → P (evalBlock limits clock stmts)
  | [] => rule.pure ()
  | stmt :: stmts => rule.bind (evalStmt stmt) fun _ => evalBlock stmts

end

end Rule

def State.evaluated (s : State) : Nat := s.statements + s.expressions + s.iterations

def Expr.cost : Expr → Nat
  | .lit _ | .field _ | .true => 1
  | .not expr => 1 + expr.cost
  | .add left right | .sub left right | .mul left right | .eq left right | .gt left right =>
    1 + (left.cost + right.cost)

section
variable (limits : Limits)

mutual

/-- What a statement can evaluate at most, iterations included. -/
def Stmt.cost : Stmt → Nat
  | .set _ expr => 1 + expr.cost
  | .ite cond then_ else_ => 1 + (cond.cost + max (blockCost then_) (blockCost else_))
  | .loop times body => 1 + min times (saturatingSucc limits.maxOps) * (1 + blockCost body)
  | .sleepMs _ | .alloc .. | .call .. => 1

def blockCost : List Stmt → Nat
  | [] => 0
  | stmt :: stmts => stmt.cost + blockCost stmts

end

end

/-- A part of a program that evaluates at most `k`. -/
def Adds (k : Nat) (p : Script α) : Prop := ∀ m, (p m).2.state.evaluated ≤ m.state.evaluated + k

namespace Adds

theorem mono {j k : Nat} {p : Script α} (h : Adds j p) (hjk : j ≤ k) : Adds k p :=
  fun m => (h m).trans (Nat.add_le_add_left hjk _)

theorem bind {j k : Nat} {p : Script α} {f : α → Script β} (hp : Adds j p) (hf : ∀ a, Adds k (f a)) :
    Adds (j + k) (p >>= f) := by
  intro m
  have hfirst := hp m
  rcases bind_cases p f m with ⟨a, m', h, hbind⟩ | ⟨e, m', h, hbind⟩
  · rw [h] at hfirst
    rw [hbind, ← Nat.add_assoc]
    exact (hf a m').trans (Nat.add_le_add_right hfirst k)
  · rw [h] at hfirst
    rw [hbind]
    exact hfirst.trans (Nat.add_le_add_left (Nat.le_add_right j k) _)

/-- What comes after an action that evaluates nothing. -/
theorem after {k : Nat} {p : Script α} {f : α → Script β} (hp : Adds 0 p) (hf : ∀ a, Adds k (f a)) :
    Adds k (p >>= f) :=
  (hp.bind hf).mono (by omega)

theorem pure (a : α) : Adds 0 (Pure.pure a : Script α) := fun _ => le_rfl

theorem fails (e : SandboxError) : Adds 0 (fails e : Script α) := fun _ => le_rfl

theorem act {k : Nat} {a : Action} {f : State → Except Stop α × State}
    (h : ∀ s, (f s).2.evaluated ≤ s.evaluated + k) : Adds k (act a f) := fun m => h m.state

theorem ofExcept (x : Except SandboxError α) : Adds 0 (ofExcept x) := by
  cases x with
  | error e => exact fails e
  | ok a => exact pure a

theorem getField (name : String) : Adds 0 (getField name) := fun _ => le_rfl

theorem setField (name : String) (value : Json) : Adds 0 (setField name value) := by
  refine act fun s => ?_
  split
  · exact le_rfl
  · exact le_rfl

theorem build (size : Nat) : Adds 0 (build size) := by
  refine act fun s => ?_
  split_ifs
  · exact le_rfl
  · exact le_rfl

variable (limits : Limits) (clock : Clock)

theorem instant (t : Nat) : Adds 0 (instant clock t) := by
  refine act fun s => ?_
  split_ifs
  · exact le_rfl
  · exact le_rfl

theorem tick : Adds 0 (tick limits clock) := by
  refine act fun s => ?_
  dsimp only
  split_ifs
  · exact le_rfl
  · exact le_rfl
  · exact le_rfl

theorem statement : Adds 1 statement := act fun s => by
  simp only [State.evaluated]
  omega

theorem expression : Adds 1 expression := act fun s => by
  simp only [State.evaluated]
  omega

theorem iteration : Adds 1 iteration := act fun s => by
  simp only [State.evaluated]
  omega

theorem now : Adds 0 (now clock) := fun _ => le_rfl

theorem enterStmt : Adds 1 (enterStmt limits clock) := (tick limits clock).after fun _ => statement

theorem enterExpr : Adds 1 (enterExpr limits clock) := (tick limits clock).after fun _ => expression

theorem evalExpr (e : Expr) : Adds e.cost (evalExpr limits clock e) := by
  have henter := enterExpr limits clock
  induction e with
  | lit value => exact henter.bind fun _ => pure _
  | field name => exact henter.bind fun _ => getField name
  | true => exact henter.bind fun _ => pure _
  | not expr ih => exact henter.bind fun _ => (ih.bind fun _ => pure _)
  | eq left right hl hr => exact henter.bind fun _ => hl.bind fun _ => (hr.bind fun _ => pure _)
  | gt left right hl hr | add left right hl hr | sub left right hl hr | mul left right hl hr =>
    exact henter.bind fun _ => hl.bind fun _ => (ofExcept _).after fun _ => (hr.bind fun _ =>
      (ofExcept _).after fun _ => pure _)

theorem wait (deadline target n : Nat) : Adds 0 (wait limits clock deadline target n) := by
  induction n with
  | zero => exact fun _ => le_rfl
  | succ n ih =>
    refine (now clock).after fun t => ?_
    split_ifs
    · refine (tick limits clock).after fun _ => (now clock).after fun t => ?_
      split_ifs
      · exact fails _
      · exact ih
    · exact pure ()

theorem repeatTimes {k : Nat} {body : Script Unit} (h : Adds k body) (n : Nat) :
    Adds (n * (1 + k)) (repeatTimes body n) := by
  induction n with
  | zero => exact (pure ()).mono (Nat.zero_le _)
  | succ n ih =>
    rw [Nat.succ_mul, Nat.add_comm, Nat.add_assoc]
    exact iteration.bind fun _ => h.bind fun _ => ih

mutual

theorem evalStmt : (stmt : Stmt) → Adds (stmt.cost limits) (evalStmt limits clock stmt)
  | .set field expr => (enterStmt limits clock).bind fun _ => (evalExpr limits clock expr).bind fun v =>
    setField field v
  | .ite cond then_ else_ => by
    have hthen := evalBlock then_
    have helse := evalBlock else_
    refine (enterStmt limits clock).bind fun _ => (evalExpr limits clock cond).bind fun c => ?_
    split_ifs
    · exact hthen.mono (le_max_left _ _)
    · exact helse.mono (le_max_right _ _)
  | .loop times body => (enterStmt limits clock).bind fun _ => repeatTimes (evalBlock body) _
  | .sleepMs ms =>
    (enterStmt limits clock).bind fun _ => (instant clock _).after fun _ => (now clock).after fun _ =>
      (instant clock _).after fun _ => wait limits clock _ _ _
  | .alloc field size =>
    (enterStmt limits clock).bind fun _ => (tick limits clock).after fun _ => (build size).after fun _ =>
      setField field _
  | .call name _ => (enterStmt limits clock).bind fun _ => fails _

theorem evalBlock : (stmts : List Stmt) → Adds (blockCost limits stmts) (evalBlock limits clock stmts)
  | [] => pure ()
  | stmt :: stmts => (evalStmt stmt).bind fun _ => evalBlock stmts

end

end Adds

section
variable (limits : Limits) (clock : Clock)

/-- The error that an action ends with, where it would exceed a limit. -/
def Action.exceeds (s : State) : Action → Option SandboxError
  | .tick =>
    if limits.maxOps < saturatingSucc s.ops then some (.cpuLimit limits.maxOps)
    else if limits.maxWall < clock.reading s.readings - started clock then some .timeLimit
    else none
  | .set name value =>
    if s.host.maxBytes < s.host.next name value then some (.memoryLimit s.host.maxBytes) else none
  | _ => none

/-- What the meter and the host charge for is enough for the action: the counter is not full, all that the program can
evaluate fits where it iterates, a string that is built fits, a field that is set was there, or is not set, and an
instant that is computed can be held. -/
def Action.Covered (cost : Nat) (s : State) : Action → Prop
  | .tick => s.ops < u64Max
  | .iteration => cost ≤ limits.maxOps
  | .build size => size ≤ s.host.maxBytes ∧ size ≤ isizeMax
  | .set name value => name = "" ∨ (s.host.values.get name).isSome ∨ s.host.maxBytes < s.host.next name value
  | .instant t => t ≤ clock.latest
  | .statement | .expression => True

instance (cost : Nat) (s : State) : (a : Action) → Decidable (a.Covered limits clock cost s)
  | .tick => inferInstanceAs (Decidable (_ < _))
  | .iteration => inferInstanceAs (Decidable (_ ≤ _))
  | .build _ => inferInstanceAs (Decidable (_ ∧ _))
  | .set .. => inferInstanceAs (Decidable (_ ∨ _))
  | .instant _ => inferInstanceAs (Decidable (_ ≤ _))
  | .statement | .expression => .isTrue trivial

/-- What is begun is kept, and where it exceeds a limit, the part of the program ends with the error. -/
def Extends (p : Script α) : Prop :=
  ∀ m, ∃ new, (p m).2.steps = new ++ m.steps ∧
    ∀ x ∈ new, ∀ e, x.1.exceeds limits clock x.2 = some e → (p m).1 = .error (.error e)

end

variable {limits : Limits} {clock : Clock}

namespace Extends

theorem silent {p : Script α} (h : ∀ m, (p m).2.steps = m.steps) : Extends limits clock p :=
  fun m => ⟨[], h m, fun _ hx => absurd hx List.not_mem_nil⟩

theorem act {a : Action} {f : State → Except Stop α × State}
    (h : ∀ s e, a.exceeds limits clock s = some e → (f s).1 = .error (.error e)) :
      Extends limits clock (act a f) := by
  refine fun m => ⟨[(a, m.state)], rfl, fun x hx e he => ?_⟩
  obtain rfl := List.mem_singleton.mp hx
  exact h _ e he

theorem bind {p : Script α} {f : α → Script β} (hp : Extends limits clock p)
    (hf : ∀ a, Extends limits clock (f a)) :
    Extends limits clock (p >>= f) := by
  intro m
  obtain ⟨new, hnew, hexceeds⟩ := hp m
  rcases bind_cases p f m with ⟨a, m', h, hbind⟩ | ⟨e, m', h, hbind⟩
  · rw [h] at hnew hexceeds
    dsimp only at hnew hexceeds
    rw [hbind]
    obtain ⟨new', hnew', hexceeds'⟩ := hf a m'
    refine ⟨new' ++ new, by rw [hnew', hnew, List.append_assoc], fun x hx e he => ?_⟩
    rcases List.mem_append.mp hx with hx | hx
    · exact hexceeds' x hx e he
    · cases hexceeds x hx e he
  · rw [h] at hnew hexceeds
    rw [hbind]
    refine ⟨new, hnew, fun x hx e' he => ?_⟩
    cases hexceeds x hx e' he
    rfl

theorem mem_steps {p : Script α} (h : Extends limits clock p) {m : Machine} {x : Action × State}
    (hx : x ∈ m.steps) :
    x ∈ (p m).2.steps := by
  obtain ⟨new, hnew, -⟩ := h m
  rw [hnew]
  exact List.mem_append_right _ hx

theorem tick : Extends limits clock (tick limits clock) := by
  refine act fun s e he => ?_
  simp only [Action.exceeds] at he
  dsimp only
  split_ifs at he ⊢
  · cases he
    rfl
  · cases he
    rfl

theorem wait (deadline target n : Nat) : Extends limits clock (wait limits clock deadline target n) := by
  have hnow : Extends limits clock (now clock) := silent fun _ => rfl
  induction n with
  | zero => exact silent fun _ => rfl
  | succ n ih =>
    refine hnow.bind fun t => ?_
    split_ifs
    · refine tick.bind fun _ => hnow.bind fun t => ?_
      split_ifs
      · exact silent fun _ => rfl
      · exact ih
    · exact silent fun _ => rfl

theorem rule : Rule limits clock (Extends limits clock) where
  pure _ := silent fun _ => rfl
  bind := bind
  fails _ := silent fun _ => rfl
  getField _ := silent fun _ => rfl
  setField name value := by
    refine act fun s e he => ?_
    simp only [Action.exceeds] at he
    split_ifs at he with hover
    cases he
    simp only [RecordHost.setField, if_pos hover]
  iteration := act fun _ _ he => by cases he
  build _ := act fun _ _ he => by cases he
  now := silent fun _ => rfl
  instant _ := act fun _ _ he => by cases he
  tick := tick
  enterStmt := tick.bind fun _ => act fun _ _ he => by cases he
  enterExpr := tick.bind fun _ => act fun _ _ he => by cases he
  wait deadline target := wait deadline target _

end Extends

def State.ticked (s : State) (readings : Nat) : State := { s with
  ops := saturatingSucc s.ops
  readings := readings }

/-- A tick counts one operation, and goes on only where that is within the limit. -/
theorem tick_cases (limits : Limits) (clock : Clock) (m : Machine) : ∃ readings,
    (tick limits clock m = (.ok (), ⟨m.state.ticked readings, (.tick, m.state) :: m.steps⟩) ∧
      saturatingSucc m.state.ops ≤ limits.maxOps) ∨
    ∃ e, tick limits clock m = (.error (.error e), ⟨m.state.ticked readings, (.tick, m.state) :: m.steps⟩) := by
  by_cases hops : limits.maxOps < saturatingSucc m.state.ops
  · refine ⟨m.state.readings, .inr ⟨.cpuLimit limits.maxOps, ?_⟩⟩
    simp only [tick, act, if_pos hops]
    rfl
  · by_cases htime : limits.maxWall < clock.reading m.state.readings - started clock
    · refine ⟨m.state.readings + 1, .inr ⟨.timeLimit, ?_⟩⟩
      simp only [tick, act, if_neg hops, if_pos htime]
      rfl
    · refine ⟨m.state.readings + 1, .inl ⟨?_, not_lt.mp hops⟩⟩
      simp only [tick, act, if_neg hops, if_neg htime]
      rfl

/-- All that was begun is covered. -/
def Covers (limits : Limits) (clock : Clock) (cost : Nat) (m : Machine) : Prop :=
  ∀ x ∈ m.steps, x.1.Covered limits clock cost x.2

instance (limits : Limits) (clock : Clock) (cost : Nat) (m : Machine) : Decidable (Covers limits clock cost m) :=
  inferInstanceAs (Decidable (∀ x ∈ m.steps, x.1.Covered limits clock cost x.2))

variable {cost : Nat}

/-- Where all is covered, a part of a program neither panics nor goes on for ever. -/
structure Returns (limits : Limits) (clock : Clock) (cost : Nat) (p : Script α) : Prop where
  keeps : Extends limits clock p
  outcome : ∀ m, Covers limits clock cost (p m).2 → (p m).1 ≠ .error .panics ∧ (p m).1 ≠ .error .unfinished

namespace Returns

theorem of_ok {p : Script α} (hp : Extends limits clock p) {f : Machine → α} (h : ∀ m, (p m).1 = .ok (f m)) :
    Returns limits clock cost p := by
  refine ⟨hp, fun m _ => ?_⟩
  rw [h m]
  exact ⟨nofun, nofun⟩

theorem bind {p : Script α} {f : α → Script β} (hp : Returns limits clock cost p)
    (hf : ∀ a, Returns limits clock cost (f a)) : Returns limits clock cost (p >>= f) := by
  refine ⟨hp.keeps.bind fun a => (hf a).keeps, fun m hcovers => ?_⟩
  have hfirst := hp.outcome m
  rcases bind_cases p f m with ⟨a, m', h, hbind⟩ | ⟨e, m', h, hbind⟩
  · rw [hbind] at hcovers ⊢
    exact (hf a).outcome m' hcovers
  · rw [h] at hfirst
    rw [hbind] at hcovers ⊢
    obtain ⟨hpanics, hunfinished⟩ := hfirst hcovers
    exact ⟨fun he => hpanics (by cases he; rfl), fun he => hunfinished (by cases he; rfl)⟩

theorem tick : Returns limits clock cost (tick limits clock) := by
  refine ⟨.tick, fun m _ => ?_⟩
  obtain ⟨readings, ⟨h, -⟩ | ⟨e, h⟩⟩ := tick_cases limits clock m
  · rw [h]
    exact ⟨nofun, nofun⟩
  · rw [h]
    exact ⟨nofun, nofun⟩

/-- Every round of the wait counts an operation, so that one that is not over has used up the counter. -/
theorem wait_outcome (deadline target n : Nat) (m : Machine)
    (hcovers : Covers limits clock cost (wait limits clock deadline target n m).2) :
    (wait limits clock deadline target n m).1 ≠ .error .panics ∧
      ((wait limits clock deadline target n m).1 = .error .unfinished → n ≠ 0 → m.state.ops + n ≤ u64Max) := by
  induction n generalizing m with
  | zero => exact ⟨nofun, fun _ h => absurd rfl h⟩
  | succ n ih =>
    have hnow : ∀ m, now clock m =
        (.ok (clock.reading m.state.readings), ⟨{ m.state with readings := m.state.readings + 1 }, m.steps⟩) :=
      fun _ => rfl
    rw [wait, bind_ok (hnow m)] at hcovers ⊢
    split_ifs at hcovers ⊢ with htarget
    · obtain ⟨readings, ⟨htick, -⟩ | ⟨e, htick⟩⟩ :=
        tick_cases limits clock ⟨{ m.state with readings := m.state.readings + 1 }, m.steps⟩
      · rw [bind_ok htick, bind_ok (hnow _)] at hcovers ⊢
        split_ifs at hcovers ⊢ with hdeadline
        · exact ⟨nofun, nofun⟩
        · obtain ⟨hpanics, hunfinished⟩ := ih _ hcovers
          refine ⟨hpanics, fun h _ => ?_⟩
          have htick : m.state.ops < u64Max :=
            hcovers _ ((Extends.wait deadline target n).mem_steps List.mem_cons_self)
          have hsucc : saturatingSucc m.state.ops = m.state.ops + 1 := min_eq_left htick
          by_cases hn : n = 0
          · omega
          · have hrest : saturatingSucc m.state.ops + n ≤ u64Max := hunfinished h hn
            omega
      · rw [bind_error htick]
        exact ⟨nofun, nofun⟩
    · exact ⟨nofun, nofun⟩

theorem wait (deadline target : Nat) : Returns limits clock cost (wait limits clock deadline target (u64Max + 1)) := by
  refine ⟨.wait deadline target _, fun m hcovers => ?_⟩
  obtain ⟨hpanics, hunfinished⟩ := wait_outcome deadline target (u64Max + 1) m hcovers
  refine ⟨hpanics, fun h => ?_⟩
  have hops := hunfinished h (Nat.succ_ne_zero _)
  omega

theorem rule : Rule limits clock (Returns limits clock cost) where
  pure a := of_ok (Extends.rule.pure a) fun _ => rfl
  bind := bind
  fails e := ⟨Extends.rule.fails e, fun _ _ => ⟨nofun, nofun⟩⟩
  getField name := of_ok (Extends.rule.getField name) fun _ => rfl
  setField name value := by
    refine ⟨Extends.rule.setField name value, fun m _ => ?_⟩
    simp only [setField, act]
    cases m.state.host.setField name value with
    | ok host => exact ⟨nofun, nofun⟩
    | error e => exact ⟨nofun, nofun⟩
  iteration := of_ok Extends.rule.iteration fun _ => rfl
  build size := by
    refine ⟨Extends.rule.build size, fun m hcovers => ?_⟩
    have hsize : size ≤ m.state.host.maxBytes ∧ size ≤ isizeMax := hcovers _ List.mem_cons_self
    simp only [build, act, if_neg (not_lt.mpr hsize.2)]
    exact ⟨nofun, nofun⟩
  now := of_ok Extends.rule.now fun _ => rfl
  instant t := by
    refine ⟨Extends.rule.instant t, fun m hcovers => ?_⟩
    have ht : t ≤ clock.latest := hcovers _ List.mem_cons_self
    simp only [instant, act, if_neg (not_lt.mpr ht)]
    exact ⟨nofun, nofun⟩
  tick := tick
  enterStmt := tick.bind fun _ => of_ok (Extends.act fun _ _ he => by cases he) fun _ => rfl
  enterExpr := tick.bind fun _ => of_ok (Extends.act fun _ _ he => by cases he) fun _ => rfl
  wait := wait

end Returns

theorem approxBytes_le {e : String × Json} {es : List (String × Json)} (h : e ∈ es) :
    approxBytes e.2 ≤ approxMembers es := by
  induction es with
  | nil => cases h
  | cons x es ih =>
    simp only [approxMembers]
    rcases List.mem_cons.mp h with rfl | h
    · omega
    · exact (ih h).trans (Nat.le_add_left _ _)

theorem find?_none_of_lt {k : String} {es : List (String × Json)} (h : ∀ e ∈ es, k < e.1) :
    (es.find? fun e => e.1 = k) = none := by
  refine List.find?_eq_none.mpr fun e he hk => ?_
  exact absurd (of_decide_eq_true hk) (h e he).ne'

/-- What a record takes after a field is set: the name counts where it is new. -/
theorem approxMembers_place {es : List (String × Json)} (hs : es.Pairwise fun a b => a.1 < b.1) (k : String)
    (v : Json) :
    match es.find? fun e => e.1 = k with
    | some e => approxMembers (SortedMap.place k v es) + approxBytes e.2 = approxMembers es + approxBytes v
    | none => approxMembers (SortedMap.place k v es) = approxMembers es + k.utf8ByteSize + approxBytes v := by
  induction hs with
  | nil => simp [SortedMap.place, approxMembers]
  | @cons x xs hx hxs ih =>
    obtain ⟨j, w⟩ := x
    by_cases hlt : k < j
    · have hnone : (((j, w) :: xs).find? fun e => e.1 = k) = none :=
        find?_none_of_lt (List.forall_mem_cons.mpr ⟨hlt, fun e he => lt_trans hlt (hx e he)⟩)
      rw [SortedMap.place, if_pos hlt, hnone]
      simp only [approxMembers]
      omega
    · by_cases heq : k = j
      · subst heq
        rw [SortedMap.place, if_neg hlt, if_pos rfl, List.find?_cons_of_pos (by simp)]
        simp only [approxMembers]
        omega
      · rw [SortedMap.place, if_neg hlt, if_neg heq, List.find?_cons_of_neg (by simpa using Ne.symm heq)]
        cases hfind : xs.find? fun e => e.1 = k with
        | none =>
          rw [hfind] at ih
          simp only [approxMembers] at ih ⊢
          omega
        | some e =>
          rw [hfind] at ih
          simp only [approxMembers] at ih ⊢
          omega

/-- A host that knows what its record takes. -/
def RecordHost.Accurate (host : RecordHost) : Prop := host.bytesUsed = approxBytes (.object host.values.entries)

namespace RecordHost
variable {host host' : RecordHost} {name : String} {value : Json}

theorem setField_eq_ok : host.setField name value = .ok host' ↔
    host.next name value ≤ host.maxBytes ∧
      host' = ⟨host.values.insert name value, host.next name value, host.maxBytes⟩ := by
  unfold setField
  split_ifs with hover
  · refine ⟨fun h => (by cases h), fun h => ?_⟩
    exact absurd h.1 (not_le.mpr hover)
  · rw [Except.ok.injEq]
    exact ⟨fun h => ⟨not_lt.mp hover, h.symm⟩, fun h => h.2.symm⟩

theorem accurate_setField_iff (h : host.Accurate) (hset : host.setField name value = .ok host') :
    host'.Accurate ↔ name = "" ∨ (host.values.get name).isSome := by
  obtain ⟨-, rfl⟩ := setField_eq_ok.mp hset
  have hplace := approxMembers_place host.values.sorted name value
  unfold Accurate at h ⊢
  simp only [next, SortedMap.get, SortedMap.insert, approxBytes] at h ⊢
  rw [h]
  cases hfind : host.values.entries.find? fun e => e.1 = name with
  | some e =>
    have hold := approxBytes_le (List.mem_of_find?_eq_some hfind)
    rw [hfind] at hplace
    simp only [Option.map_some, Option.getD_some, Option.isSome_some, or_true, iff_true]
    dsimp only at hplace
    omega
  | none =>
    rw [hfind] at hplace
    dsimp only at hplace
    simp only [Option.map_none, Option.getD_none, Option.isSome_none, Bool.false_eq_true, or_false]
    rw [← String.utf8ByteSize_eq_zero_iff]
    omega

end RecordHost

/-- What holds in the states of a run that began with the host `start`, as long as all is covered. -/
structure Good (limits : Limits) (cost : Nat) (start : RecordHost) (s : State) : Prop where
  ticked : s.statements + s.expressions ≤ s.ops
  counted : s.statements + s.expressions ≤ limits.maxOps
  iterated : s.iterations = 0 ∨ cost ≤ limits.maxOps
  capped : s.host.maxBytes = start.maxBytes
  built : s.longest ≤ start.maxBytes
  accurate : s.host.Accurate
  bounded : s.host.bytesUsed ≤ max start.maxBytes start.bytesUsed

structure Tracks (limits : Limits) (clock : Clock) (cost : Nat) (start : RecordHost) (m : Machine) : Prop where
  grows : ∀ x ∈ m.steps, x.2.evaluated ≤ m.state.evaluated
  good : Covers limits clock cost m → (∀ x ∈ m.steps, Good limits cost start x.2) ∧
    Good limits cost start m.state

/-- What is kept by a part of a program. -/
def Keeps (I : Machine → Prop) (p : Script α) : Prop := ∀ m, I m → I (p m).2

theorem Keeps.bind {I : Machine → Prop} {p : Script α} {f : α → Script β} (hp : Keeps I p)
    (hf : ∀ a, Keeps I (f a)) :
    Keeps I (p >>= f) := by
  intro m hm
  have hfirst := hp m hm
  rcases bind_cases p f m with ⟨a, m', h, hbind⟩ | ⟨e, m', h, hbind⟩
  · rw [h] at hfirst
    rw [hbind]
    exact hf a m' hfirst
  · rw [h] at hfirst
    rw [hbind]
    exact hfirst

namespace Tracks
variable {start : RecordHost}

/-- One action, that leaves the state `s`. -/
theorem step {m : Machine} (h : Tracks limits clock cost start m) {a : Action} {s : State}
    (hgrows : m.state.evaluated ≤ s.evaluated)
    (hgood : a.Covered limits clock cost m.state → Good limits cost start m.state → Good limits cost start s) :
    Tracks limits clock cost start ⟨s, (a, m.state) :: m.steps⟩ := by
  constructor
  · intro x hx
    rcases List.mem_cons.mp hx with rfl | hx
    · exact hgrows
    · exact (h.grows x hx).trans hgrows
  · intro hcovers
    obtain ⟨hpast, hlast⟩ := h.good fun x hx => hcovers x (List.mem_cons_of_mem _ hx)
    exact ⟨List.forall_mem_cons.mpr ⟨hlast, hpast⟩, hgood (hcovers _ List.mem_cons_self) hlast⟩

theorem act {a : Action} {f : State → Except Stop α × State} (hgrows : ∀ s, s.evaluated ≤ (f s).2.evaluated)
    (hgood : ∀ s, a.Covered limits clock cost s → Good limits cost start s → Good limits cost start (f s).2) :
    Keeps (Tracks limits clock cost start) (act a f) :=
  fun m hm => hm.step (hgrows m.state) (hgood m.state)

theorem now : Keeps (Tracks limits clock cost start) (now clock) := by
  refine fun m hm => ⟨hm.grows, fun hcovers => ?_⟩
  obtain ⟨hpast, hlast⟩ := hm.good hcovers
  exact ⟨hpast, ⟨hlast.ticked, hlast.counted, hlast.iterated, hlast.capped, hlast.built, hlast.accurate,
    hlast.bounded⟩⟩

theorem ticked {m : Machine} (h : Tracks limits clock cost start m) (readings : Nat) :
    Tracks limits clock cost start ⟨m.state.ticked readings, (.tick, m.state) :: m.steps⟩ := by
  refine h.step le_rfl fun hfull hgood => ?_
  have hsucc : saturatingSucc m.state.ops = m.state.ops + 1 := min_eq_left hfull
  refine ⟨?_, hgood.counted, hgood.iterated, hgood.capped, hgood.built, hgood.accurate, hgood.bounded⟩
  have hops : (m.state.ticked readings).ops = m.state.ops + 1 := hsucc
  rw [hops]
  exact hgood.ticked.trans (Nat.le_succ _)

theorem tick : Keeps (Tracks limits clock cost start) (tick limits clock) := by
  intro m hm
  obtain ⟨readings, ⟨h, -⟩ | ⟨e, h⟩⟩ := tick_cases limits clock m
  · rw [h]
    exact hm.ticked readings
  · rw [h]
    exact hm.ticked readings

/-- What is evaluated after a tick is paid for. -/
theorem enter {a : Action} {f : State → State}
    (hcount : ∀ s, (f s).statements + (f s).expressions = s.statements + s.expressions + 1)
    (hiterations : ∀ s, (f s).iterations = s.iterations)
    (hsame : ∀ s, (f s).ops = s.ops ∧ (f s).host = s.host ∧ (f s).longest = s.longest) :
    Keeps (Tracks limits clock cost start)
      (Sandbox.tick limits clock >>= fun _ => Sandbox.act a fun s => (.ok (), f s)) := by
  intro m hm
  obtain ⟨readings, ⟨h, hops⟩ | ⟨e, h⟩⟩ := tick_cases limits clock m
  · rw [bind_ok h]
    have htracks := hm.ticked readings
    refine ⟨?_, fun hcovers => ?_⟩
    · have hgrows : ∀ s, s.evaluated ≤ (f s).evaluated := by
        intro s
        simp only [State.evaluated, hcount, hiterations]
        omega
      intro x hx
      rcases List.mem_cons.mp hx with rfl | hx
      · exact hgrows _
      · exact (htracks.grows x hx).trans (hgrows _)
    · obtain ⟨hpast, hlast⟩ := htracks.good fun x hx => hcovers x (List.mem_cons_of_mem _ hx)
      refine ⟨List.forall_mem_cons.mpr ⟨hlast, hpast⟩, ?_⟩
      -- the tick made room for one more
      have hbefore := (hpast (.tick, m.state) List.mem_cons_self).ticked
      have hfull : m.state.ops < u64Max := hcovers (.tick, m.state) (List.mem_cons_of_mem _ List.mem_cons_self)
      have hsucc : saturatingSucc m.state.ops = m.state.ops + 1 := min_eq_left hfull
      obtain ⟨hops', hhost, hlongest⟩ := hsame (m.state.ticked readings)
      change Good limits cost start (f (m.state.ticked readings))
      refine ⟨?_, ?_, ?_, ?_, ?_, ?_, ?_⟩
      · rw [hcount, hops']
        exact (Nat.succ_le_succ hbefore).trans hsucc.ge
      · rw [hcount]
        exact (Nat.succ_le_succ hbefore).trans (hsucc.ge.trans hops)
      · rw [hiterations]
        exact hlast.iterated
      · rw [hhost]
        exact hlast.capped
      · rw [hlongest]
        exact hlast.built
      · rw [hhost]
        exact hlast.accurate
      · rw [hhost]
        exact hlast.bounded
  · rw [bind_error h]
    exact hm.ticked readings

theorem wait (deadline target n : Nat) :
    Keeps (Tracks limits clock cost start) (wait limits clock deadline target n) := by
  induction n with
  | zero => exact fun _ hm => hm
  | succ n ih =>
    refine now.bind fun t => ?_
    split_ifs
    · refine tick.bind fun _ => now.bind fun t => ?_
      split_ifs
      · exact fun _ hm => hm
      · exact ih
    · exact fun _ hm => hm

theorem rule : Rule limits clock (Keeps (Tracks limits clock cost start)) where
  pure _ := fun _ hm => hm
  bind := Keeps.bind
  fails _ := fun _ hm => hm
  getField _ := fun _ hm => hm
  setField name value := by
    refine act (fun s => ?_) fun s hcovered hgood => ?_
    · split
      · exact le_rfl
      · exact le_rfl
    · split
      · next host hset =>
        obtain ⟨hfits, rfl⟩ := RecordHost.setField_eq_ok.mp hset
        have hname : name = "" ∨ (s.host.values.get name).isSome := by
          rcases hcovered with hname | hname | hover
          · exact .inl hname
          · exact .inr hname
          · exact absurd hfits (not_le.mpr hover)
        refine ⟨hgood.ticked, hgood.counted, hgood.iterated, hgood.capped, hgood.built,
          (RecordHost.accurate_setField_iff hgood.accurate hset).mpr hname, ?_⟩
        rw [hgood.capped] at hfits
        exact le_max_of_le_left hfits
      · exact hgood
  iteration := by
    refine act (fun s => ?_) fun s hcost hgood => ?_
    · simp only [State.evaluated]
      omega
    · exact ⟨hgood.ticked, hgood.counted, .inr hcost, hgood.capped, hgood.built, hgood.accurate, hgood.bounded⟩
  build size := by
    refine act (fun s => ?_) fun s hsize hgood => ?_
    · split_ifs
      · exact le_rfl
      · exact le_rfl
    · split_ifs
      · exact hgood
      · have hfits : size ≤ start.maxBytes := hgood.capped ▸ hsize.1
        exact ⟨hgood.ticked, hgood.counted, hgood.iterated, hgood.capped, max_le hgood.built hfits, hgood.accurate,
          hgood.bounded⟩
  now := now
  instant t := by
    refine act (fun s => ?_) fun s _ hgood => ?_
    · split_ifs
      · exact le_rfl
      · exact le_rfl
    · split_ifs
      · exact hgood
      · exact hgood
  tick := tick
  enterStmt := enter (fun _ => Nat.succ_add _ _) (fun _ => rfl) fun _ => ⟨rfl, rfl, rfl⟩
  enterExpr := enter (fun _ => rfl) (fun _ => rfl) fun _ => ⟨rfl, rfl, rfl⟩
  wait deadline target := wait deadline target _

end Tracks

def Machine.Reached (m : Machine) (s : State) : Prop := s = m.state ∨ ∃ a, (a, s) ∈ m.steps

structure Within (limits : Limits) (start : RecordHost) (s : State) : Prop where
  counted : s.evaluated ≤ limits.maxOps
  built : s.longest ≤ start.maxBytes
  accurate : s.host.Accurate
  bounded : s.host.bytesUsed ≤ max start.maxBytes start.bytesUsed

/-- A run that keeps the limits: it returns, every state is within them, and where it would exceed one it ends with the
error of that limit. -/
structure Enforced (limits : Limits) (clock : Clock) (start : RecordHost) (r : Except Stop Unit × Machine) : Prop where
  returns : r.1 ≠ .error .panics ∧ r.1 ≠ .error .unfinished
  within : ∀ s, r.2.Reached s → Within limits start s
  exceeded : ∀ a s e, (a, s) ∈ r.2.steps → a.exceeds limits clock s = some e → r.1 = .error (.error e)

section
variable {limits : Limits} {clock : Clock}

theorem tracks_execute (program : List Stmt) (values : Values) (maxBytes : Nat) :
    Tracks limits clock (blockCost limits program) (.new values maxBytes)
      (execute limits clock program (.new values maxBytes)).2 := by
  refine Tracks.rule.evalBlock program _ ⟨fun x hx => absurd hx List.not_mem_nil, fun _ => ?_⟩
  refine ⟨fun x hx => absurd hx List.not_mem_nil, ?_⟩
  exact ⟨le_rfl, Nat.zero_le _, .inl rfl, rfl, Nat.zero_le _, rfl, le_max_right _ _⟩

/-- No state of a run has counted more than the static cost of its program. -/
theorem evaluated_le_cost {program : List Stmt} {values : Values} {maxBytes : Nat} {s : State}
    (hs : (execute limits clock program (.new values maxBytes)).2.Reached s) :
    s.evaluated ≤ blockCost limits program := by
  have hadds := Adds.evalBlock limits clock program ⟨⟨.new values maxBytes, 0, 1, 0, 0, 0, 0⟩, []⟩
  have hcost := hadds.trans_eq (Nat.zero_add (blockCost limits program))
  rcases hs with rfl | ⟨a, ha⟩
  · exact hcost
  · exact ((tracks_execute program values maxBytes).grows _ ha).trans hcost

/-- A program whose static cost is within the budget never evaluates more than the budget, whatever else it
does: that can be seen before it is run. -/
theorem evaluated_le_maxOps {program : List Stmt} (hcost : blockCost limits program ≤ limits.maxOps)
    {values : Values} {maxBytes : Nat} {s : State}
    (hs : (execute limits clock program (.new values maxBytes)).2.Reached s) : s.evaluated ≤ limits.maxOps :=
  (evaluated_le_cost hs).trans hcost

end

/-- Every run of a script keeps its limits where all that it does is covered. -/
theorem script_limits_enforced (program : List Stmt) (values : Values) (maxBytes : Nat) (limits : Limits)
    (clock : Clock) (h : Covers limits clock (blockCost limits program)
      (execute limits clock program (.new values maxBytes)).2) :
    Enforced limits clock (.new values maxBytes) (execute limits clock program (.new values maxBytes)) := by
  have hreturns : Returns limits clock (blockCost limits program) (evalBlock limits clock program) :=
    Returns.rule.evalBlock program
  obtain ⟨hpast, hlast⟩ := (tracks_execute program values maxBytes).good h
  constructor
  · exact hreturns.outcome _ h
  · intro s hs
    have hgood : Good limits (blockCost limits program) (.new values maxBytes) s := by
      rcases hs with rfl | ⟨a, ha⟩
      · exact hlast
      · exact hpast _ ha
    refine ⟨?_, hgood.built, hgood.accurate, hgood.bounded⟩
    rcases hgood.iterated with hnone | hfits
    · rw [State.evaluated, hnone]
      exact hgood.counted
    · exact evaluated_le_maxOps hfits hs
  · intro a s e hstep he
    obtain ⟨new, hnew, hexceeds⟩ := hreturns.keeps ⟨⟨.new values maxBytes, 0, 1, 0, 0, 0, 0⟩, []⟩
    rw [List.append_nil] at hnew
    exact hexceeds (a, s) (hnew ▸ hstep) e he

/-- A clock that stands still. -/
def stopped : Clock := ⟨fun _ => 0, monotone_const, 2 ^ 63 * 1000000000⟩

theorem status_limits_enforced :
    Enforced .default stopped (.new (SortedMap.empty.insert "status" (.string "new")) 8192)
      (execute .default stopped [.loop 3 [.set "status" (.lit (.string "ok"))]]
        (.new (SortedMap.empty.insert "status" (.string "new")) 8192)) :=
  script_limits_enforced [.loop 3 [.set "status" (.lit (.string "ok"))]]
    (SortedMap.empty.insert "status" (.string "new")) 8192 .default stopped (by decide +kernel)

/-- Iterations are not counted, a new name is not charged for, and a string is built before it is refused, or before
it is known that none can have the size. -/
theorem script_limits_exceeded :
    let limits : Limits := ⟨2, 64, 1000000⟩
    let start := RecordHost.new .empty 64
    let loops := execute limits stopped [.loop 1000 []] start
    let names := execute limits stopped [.set "status" (.lit .null)] start
    let builds := execute limits stopped [.alloc "blob" 100] start
    let huge := execute limits stopped [.alloc "blob" (2 ^ 63)] start
    loops.1 = .ok () ∧ loops.2.state.evaluated = 4 ∧ ¬Enforced limits stopped start loops ∧
      names.1 = .ok () ∧ names.2.state.host.bytesUsed = 12 ∧
      approxBytes (.object names.2.state.host.values.entries) = 18 ∧ ¬Enforced limits stopped start names ∧
      builds.1 = .error (.error (.memoryLimit 64)) ∧ builds.2.state.longest = 100 ∧
      ¬Enforced limits stopped start builds ∧ huge.1 = .error .panics := by
  intro limits start loops names builds huge
  refine ⟨rfl, rfl, fun h => ?_, rfl, rfl, by decide +kernel, fun h => ?_, rfl, rfl, fun h => ?_, rfl⟩
  · exact absurd (h.within _ (.inl rfl)).counted (by decide +kernel)
  · exact absurd (h.within _ (.inl rfl)).accurate (by unfold RecordHost.Accurate; decide +kernel)
  · exact absurd (h.within _ (.inl rfl)).built (by decide +kernel)

end Noxara.Custom.Sandbox
