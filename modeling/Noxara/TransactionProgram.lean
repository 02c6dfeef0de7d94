import Mathlib.Tactic.Common
import Noxara.TableRows

/-! Transaction bodies as trees of statements. A body runs one statement after another
against a store `σ`: a statement names the rows `κ` it has to lock, writes, and hands what
it saw to the rest of the body. A body ends with an answer `α`, and then commits, or with
an exit `ε`, and then everything it wrote is rolled back. -/
namespace Noxara.Transaction

/-- `write v` is the effect of the statement when it saw the store `v`; it is applied to
the transaction's own view at once and to the committed store at commit. -/
inductive Prog (σ κ ε α : Type) : Type
  | pure (a : α)
  | fail (e : ε)
  | stmt (locks : σ → List κ) (write : σ → σ → σ) (next : σ → Prog σ κ ε α)

namespace Prog
variable {σ κ ε α β : Type}

def bind : Prog σ κ ε α → (α → Prog σ κ ε β) → Prog σ κ ε β
  | pure a, f => f a
  | fail e, _ => fail e
  | stmt l w n, f => stmt l w fun v => (n v).bind f

instance : Monad (Prog σ κ ε) where
  pure := pure
  bind := bind

@[simp] theorem fail_bind (e : ε) (f : α → Prog σ κ ε β) : (fail e >>= f) = fail e := rfl

@[simp] theorem stmt_bind (l : σ → List κ) (w : σ → σ → σ) (n : σ → Prog σ κ ε α)
    (f : α → Prog σ κ ε β) : (stmt l w n >>= f) = stmt l w fun v => n v >>= f := rfl

theorem bind_pure_self (p : Prog σ κ ε α) : p.bind .pure = p := by
  induction p with
  | pure a => rfl
  | fail e => rfl
  | stmt l w n ih => exact congrArg (stmt l w) (funext ih)

theorem bind_bind {γ : Type} (p : Prog σ κ ε α) (f : α → Prog σ κ ε β) (g : β → Prog σ κ ε γ) :
    (p.bind f).bind g = p.bind fun a => (f a).bind g := by
  induction p with
  | pure a => rfl
  | fail e => rfl
  | stmt l w n ih => exact congrArg (stmt l w) (funext ih)

instance : LawfulMonad (Prog σ κ ε) :=
  LawfulMonad.mk' _ bind_pure_self (fun _ _ => rfl) bind_bind

/-- The body alone on the store: every statement sees what the previous ones wrote. -/
def run : Prog σ κ ε α → σ → Except ε (α × σ)
  | pure a, s => .ok (a, s)
  | fail e, _ => .error e
  | stmt _ w n, s => (n s).run (w s s)

@[simp] theorem run_pure (a : α) (s : σ) : (Pure.pure a : Prog σ κ ε α).run s = .ok (a, s) := rfl

@[simp] theorem run_fail (e : ε) (s : σ) : (fail e : Prog σ κ ε α).run s = .error e := rfl

@[simp] theorem run_stmt (l : σ → List κ) (w : σ → σ → σ) (n : σ → Prog σ κ ε α) (s : σ) :
    (stmt l w n).run s = (n s).run (w s s) := rfl

theorem run_bind (p : Prog σ κ ε α) (f : α → Prog σ κ ε β) (s : σ) :
    (p >>= f).run s = (p.run s).bind fun r => (f r.1).run r.2 := by
  induction p generalizing s with
  | pure a => rfl
  | fail e => rfl
  | stmt l w n ih => exact ih s (w s s)

/-- Peel one step off a body that returned. -/
theorem run_bind_ok {p : Prog σ κ ε α} {f : α → Prog σ κ ε β} {s : σ} {r : β × σ} :
    (p >>= f).run s = .ok r ↔ ∃ a t, p.run s = .ok (a, t) ∧ (f a).run t = .ok r := by
  rw [run_bind]
  cases p.run s with
  | error e => simp [Except.bind]
  | ok x => exact ⟨fun h => ⟨x.1, x.2, rfl, h⟩, fun ⟨a, t, hx, h⟩ => by cases hx; exact h⟩

/-- A body that returns, by computing. -/
theorem run_of_check {p : Prog σ κ ε α} {s : σ} {P : α → σ → Bool}
    (h : ((p.run s).toOption.any fun r => P r.1 r.2) = true) :
    ∃ a t, p.run s = .ok (a, t) ∧ P a t = true := by
  cases hr : p.run s with
  | error e => simp [hr, Except.toOption] at h
  | ok r => exact ⟨r.1, r.2, rfl, by simpa [hr, Except.toOption] using h⟩

/-- The same body with other exits. -/
def mapError {ε' : Type} (f : ε → ε') : Prog σ κ ε α → Prog σ κ ε' α
  | pure a => pure a
  | fail e => fail (f e)
  | stmt l w n => stmt l w fun v => (n v).mapError f

@[simp] theorem run_mapError {ε' : Type} (f : ε → ε') (p : Prog σ κ ε α) (s : σ) :
    (p.mapError f).run s = (p.run s).mapError f := by
  induction p generalizing s with
  | pure a => rfl
  | fail e => rfl
  | stmt l w n ih => exact ih s (w s s)

/-- The same body on a part of a larger store. -/
def zoom {τ κ' : Type} (get : τ → σ) (put : (σ → σ) → τ → τ) (lock : κ → κ') :
    Prog σ κ ε α → Prog τ κ' ε α
  | pure a => pure a
  | fail e => fail e
  | stmt l w n => stmt (fun v => (l (get v)).map lock) (fun v => put (w (get v)))
      fun v => (n (get v)).zoom get put lock

/-- Alone, the body does to its part what it does by itself, where `put` changes the part that `get`
reads and nothing else. -/
theorem run_zoom {τ κ' : Type} {get : τ → σ} {put : (σ → σ) → τ → τ} {lock : κ → κ'}
    (hget : ∀ f t, get (put f t) = f (get t)) (hself : ∀ t, put (fun _ => get t) t = t)
    (hput : ∀ f s t, put (fun _ => s) (put f t) = put (fun _ => s) t) (p : Prog σ κ ε α) (t : τ) :
    (p.zoom get put lock).run t = (p.run (get t)).map fun r => (r.1, put (fun _ => r.2) t) := by
  induction p generalizing t with
  | pure a =>
    change Except.ok (a, t) = .ok (a, put (fun _ => get t) t)
    rw [hself]
  | fail e => rfl
  | stmt l w n ih =>
    rw [zoom, run_stmt, ih, hget, run_stmt]
    simp only [hput]

/-- A plain `SELECT`: no lock, no write. -/
def query (f : σ → α) : Prog σ κ ε α := stmt (fun _ => []) (fun _ s => s) fun v => .pure (f v)

/-- `SELECT .. FOR UPDATE`. -/
def queryForUpdate (locks : σ → List κ) (f : σ → α) : Prog σ κ ε α :=
  stmt locks (fun _ s => s) fun v => .pure (f v)

/-- An `INSERT`, `UPDATE` or `DELETE` that a constraint or a trigger may refuse. -/
def execute (locks : σ → List κ) (check : σ → Except ε Unit) (write : σ → σ → σ) :
    Prog σ κ ε Unit :=
  stmt locks (fun v s => match check v with | .ok _ => write v s | .error _ => s) fun v =>
    match check v with | .ok _ => .pure () | .error e => fail e

/-- A write that returns a value, such as `UPDATE .. RETURNING`. -/
def executeReturning (locks : σ → List κ) (check : σ → Except ε α) (write : σ → σ → σ) :
    Prog σ κ ε α :=
  stmt locks (fun v s => match check v with | .ok _ => write v s | .error _ => s) fun v =>
    match check v with | .ok a => .pure a | .error e => fail e

theorem execute_eq (locks : σ → List κ) (check : σ → Except ε Unit) (write : σ → σ → σ) :
    (execute locks check write : Prog σ κ ε Unit) = executeReturning locks check write := by
  unfold execute executeReturning
  congr 1
  · funext v s
    cases check v <;> rfl
  · funext v
    cases check v <;> rfl

/-- What is left of a body once its next statement has seen `v`. -/
def after (v : σ) : Prog σ κ ε α → Prog σ κ ε α
  | stmt _ _ n => n v
  | p => p

/-- The locks that the next statement asks for when it sees `v`. -/
def asks (v : σ) : Prog σ κ ε α → List κ
  | stmt l _ _ => l v
  | _ => []

theorem after_query_bind (v : σ) (f : σ → α) (g : α → Prog σ κ ε β) :
    (query f >>= g).after v = g (f v) := rfl

/-- A write leaves the rest of the body, or its error. -/
theorem after_execute_bind (v : σ) (l : σ → List κ) (c : σ → Except ε Unit) (w : σ → σ → σ)
    (f : Unit → Prog σ κ ε α) :
    (execute l c w >>= f).after v = f () ∨ ∃ e, (execute l c w >>= f).after v = fail e := by
  unfold execute
  simp only [stmt_bind, after]
  cases c v with
  | ok u => exact .inl rfl
  | error e => exact .inr ⟨e, rfl⟩

def require (c : Prop) [Decidable c] (e : ε) : Prog σ κ ε Unit := if c then .pure () else fail e

def okOr (x : Option α) (e : ε) : Prog σ κ ε α :=
  match x with | some a => .pure a | none => fail e

def ofExcept (x : Except ε α) : Prog σ κ ε α :=
  match x with | .ok a => .pure a | .error e => fail e

theorem require_bind_of {c : Prop} [Decidable c] (h : c) (e : ε) (f : Unit → Prog σ κ ε β) :
    (require c e >>= f) = f () := by
  rw [require, if_pos h]
  rfl

theorem require_bind_ne_pure {c : Prop} [Decidable c] {e : ε} {f : Unit → Prog σ κ ε β} {b : β}
    (h : f () ≠ pure b) : (require c e >>= f) ≠ pure b := by
  unfold require
  split_ifs
  · exact h
  · exact nofun

@[simp] theorem run_query (f : σ → α) (s : σ) :
    (query f : Prog σ κ ε α).run s = .ok (f s, s) := rfl

@[simp] theorem run_query_bind (f : σ → α) (g : α → Prog σ κ ε β) (s : σ) :
    (query f >>= g).run s = (g (f s)).run s := rfl

@[simp] theorem run_queryForUpdate_bind (l : σ → List κ) (f : σ → α) (g : α → Prog σ κ ε β)
    (s : σ) : (queryForUpdate l f >>= g).run s = (g (f s)).run s := rfl

@[simp] theorem run_execute_ok {l : σ → List κ} {c : σ → Except ε Unit} {w : σ → σ → σ}
    {s : σ} {r : Unit × σ} :
    (execute l c w).run s = .ok r ↔ c s = .ok () ∧ r = ((), w s s) := by
  simp only [execute, run_stmt]
  cases c s with
  | error e => simp
  | ok u => simp [run, eq_comm]

theorem run_execute (l : σ → List κ) (c : σ → Except ε Unit) (w : σ → σ → σ) (s : σ) :
    (execute l c w).run s = (c s).map fun _ => ((), w s s) := by
  simp only [execute, run_stmt]
  cases c s <;> rfl

@[simp] theorem run_execute_bind_ok {l : σ → List κ} {c : σ → Except ε Unit} {w : σ → σ → σ}
    {g : Unit → Prog σ κ ε β} {s : σ} {r : β × σ} :
    (execute l c w >>= g).run s = .ok r ↔ c s = .ok () ∧ (g ()).run (w s s) = .ok r := by
  simp only [run_bind_ok, run_execute_ok, Prod.mk.injEq]
  constructor
  · rintro ⟨_, _, ⟨hc, -, rfl⟩, hr⟩
    exact ⟨hc, hr⟩
  · exact fun ⟨hc, hr⟩ => ⟨(), _, ⟨hc, trivial, rfl⟩, hr⟩

@[simp] theorem run_executeReturning_ok {l : σ → List κ} {c : σ → Except ε α} {w : σ → σ → σ}
    {s : σ} {r : α × σ} :
    (executeReturning l c w).run s = .ok r ↔ c s = .ok r.1 ∧ r.2 = w s s := by
  simp only [executeReturning, run_stmt]
  cases c s with
  | error e => simp
  | ok a =>
    obtain ⟨b, t⟩ := r
    simp [run, eq_comm]

@[simp] theorem run_require_ok {c : Prop} [Decidable c] {e : ε} {s : σ} {r : Unit × σ} :
    (require c e : Prog σ κ ε Unit).run s = .ok r ↔ c ∧ r = ((), s) := by
  unfold require
  split_ifs with h
  · simp [run, h, eq_comm]
  · simp [h]

@[simp] theorem run_require_bind_ok {c : Prop} [Decidable c] {e : ε} {g : Unit → Prog σ κ ε β}
    {s : σ} {r : β × σ} :
    (require c e >>= g).run s = .ok r ↔ c ∧ (g ()).run s = .ok r := by
  simp only [run_bind_ok, run_require_ok, Prod.mk.injEq]
  constructor
  · rintro ⟨_, _, ⟨hc, -, rfl⟩, hr⟩
    exact ⟨hc, hr⟩
  · exact fun ⟨hc, hr⟩ => ⟨(), _, ⟨hc, trivial, rfl⟩, hr⟩

@[simp] theorem run_okOr_ok {x : Option α} {e : ε} {s : σ} {r : α × σ} :
    (okOr x e : Prog σ κ ε α).run s = .ok r ↔ x = some r.1 ∧ r.2 = s := by
  cases x with
  | none => simp [okOr]
  | some a =>
    obtain ⟨b, t⟩ := r
    simp [okOr, run, eq_comm]

@[simp] theorem run_okOr_bind_ok {x : Option α} {e : ε} {g : α → Prog σ κ ε β} {s : σ}
    {r : β × σ} :
    (okOr x e >>= g).run s = .ok r ↔ ∃ a, x = some a ∧ (g a).run s = .ok r := by
  simp [run_bind_ok]

@[simp] theorem run_ofExcept_ok {x : Except ε α} {s : σ} {r : α × σ} :
    (ofExcept x : Prog σ κ ε α).run s = .ok r ↔ x = .ok r.1 ∧ r.2 = s := by
  cases x with
  | error e => simp [ofExcept]
  | ok a =>
    obtain ⟨b, t⟩ := r
    simp [ofExcept, run, eq_comm]

@[simp] theorem run_ofExcept_bind_ok {x : Except ε α} {g : α → Prog σ κ ε β} {s : σ}
    {r : β × σ} :
    (ofExcept x >>= g).run s = .ok r ↔ ∃ a, x = .ok a ∧ (g a).run s = .ok r := by
  simp [run_bind_ok]

section MapError
variable {ε' : Type} (h : ε → ε')

theorem mapError_bind (p : Prog σ κ ε α) (f : α → Prog σ κ ε β) :
    (p >>= f).mapError h = p.mapError h >>= fun a => (f a).mapError h := by
  induction p with
  | pure a => rfl
  | fail e => rfl
  | stmt l w n ih => exact congrArg (stmt l w) (funext ih)

@[simp] theorem mapError_pure (a : α) : (Pure.pure a : Prog σ κ ε α).mapError h = Pure.pure a := rfl

@[simp] theorem mapError_query (f : σ → α) : (query f : Prog σ κ ε α).mapError h = query f := rfl

@[simp] theorem mapError_require (c : Prop) [Decidable c] (e : ε) :
    (require c e : Prog σ κ ε Unit).mapError h = require c (h e) := by
  unfold require
  split_ifs <;> rfl

end MapError

/-- Every statement of the body, whatever it sees, writes within `W`. -/
def Writes (W : (σ → σ) → Prop) : Prog σ κ ε α → Prop
  | pure _ => True
  | fail _ => True
  | stmt _ w n => ∀ v, W (w v) ∧ (n v).Writes W

theorem Writes.bind {W : (σ → σ) → Prop} {p : Prog σ κ ε α} {f : α → Prog σ κ ε β}
    (hp : p.Writes W) (hf : ∀ a, (f a).Writes W) : (p >>= f).Writes W := by
  induction p with
  | pure a => exact hf a
  | fail e => trivial
  | stmt l w n ih => exact fun v => ⟨(hp v).1, ih v (hp v).2⟩

theorem Writes.mapError {ε' : Type} {W : (σ → σ) → Prop} {p : Prog σ κ ε α} (f : ε → ε')
    (hp : p.Writes W) : (p.mapError f).Writes W := by
  induction p with
  | pure a => trivial
  | fail e => trivial
  | stmt l w n ih => exact fun v => ⟨(hp v).1, ih v (hp v).2⟩

/-- On the larger store the body writes what its writes come to there. -/
theorem Writes.zoom {τ κ' : Type} {get : τ → σ} {put : (σ → σ) → τ → τ} {lock : κ → κ'}
    {W : (σ → σ) → Prop} {V : (τ → τ) → Prop} (hput : ∀ f, W f → V (put f)) {p : Prog σ κ ε α}
    (hp : p.Writes W) : (p.zoom get put lock).Writes V := by
  induction p with
  | pure a => trivial
  | fail e => trivial
  | stmt l w n ih => exact fun v => ⟨hput _ (hp (get v)).1, ih (get v) (hp (get v)).2⟩

theorem Writes.mono {W V : (σ → σ) → Prop} (h : ∀ f, W f → V f) {p : Prog σ κ ε α}
    (hp : p.Writes W) : p.Writes V := by
  induction p with
  | pure a => trivial
  | fail e => trivial
  | stmt l w n ih => exact fun v => ⟨h _ (hp v).1, ih v (hp v).2⟩

theorem writes_any (p : Prog σ κ ε α) : p.Writes fun _ => True := by
  induction p with
  | pure a => trivial
  | fail e => trivial
  | stmt l w n ih => exact fun v => ⟨trivial, ih v⟩

/-- What a body that returns did to the store is one write within `W`. -/
theorem Writes.run_ok {W : (σ → σ) → Prop} (hid : W id) (hcomp : ∀ f g, W f → W g → W (f ∘ g))
    {p : Prog σ κ ε α} (hp : p.Writes W) {s : σ} {r : α × σ} (h : p.run s = .ok r) :
    ∃ f, W f ∧ r.2 = f s := by
  induction p generalizing s with
  | pure a =>
    cases h
    exact ⟨id, hid, rfl⟩
  | fail e => cases h
  | stmt l w n ih =>
    obtain ⟨f, hf, hr⟩ := ih s (hp s).2 h
    exact ⟨f ∘ w s, hcomp f (w s) hf (hp s).1, hr⟩

theorem writes_query {W : (σ → σ) → Prop} (hid : W id) (f : σ → α) :
    (query f : Prog σ κ ε α).Writes W := fun _ => ⟨hid, trivial⟩

theorem writes_queryForUpdate {W : (σ → σ) → Prop} (hid : W id) (l : σ → List κ) (f : σ → α) :
    (queryForUpdate l f : Prog σ κ ε α).Writes W := fun _ => ⟨hid, trivial⟩

theorem writes_executeReturning {W : (σ → σ) → Prop} (hid : W id) {l : σ → List κ}
    {c : σ → Except ε α} {w : σ → σ → σ} (hw : ∀ v a, c v = .ok a → W (w v)) :
    (executeReturning l c w).Writes W := by
  intro v
  have hwv := hw v
  change W (fun s => match c v with | .ok _ => w v s | .error _ => s) ∧
    Writes W (match c v with | .ok a => .pure a | .error e => .fail e)
  cases hc : c v with
  | ok a => exact ⟨hwv a hc, trivial⟩
  | error e => exact ⟨hid, trivial⟩

theorem writes_execute {W : (σ → σ) → Prop} (hid : W id) {l : σ → List κ} {c : σ → Except ε Unit}
    {w : σ → σ → σ} (hw : ∀ v, c v = .ok () → W (w v)) : (execute l c w).Writes W := by
  rw [execute_eq]
  exact writes_executeReturning hid fun v _ hc => hw v hc

theorem writes_require {W : (σ → σ) → Prop} {c : Prop} [Decidable c] {e : ε} :
    (require c e : Prog σ κ ε Unit).Writes W := by
  unfold require
  split_ifs <;> trivial

theorem writes_ofExcept {W : (σ → σ) → Prop} (x : Except ε α) :
    (ofExcept x : Prog σ κ ε α).Writes W := by
  cases x <;> trivial

theorem writes_okOr {W : (σ → σ) → Prop} (x : Option α) (e : ε) : (okOr x e : Prog σ κ ε α).Writes W := by
  cases x <;> trivial

/-- Every exit of the body, whatever it sees, is one of `E`. -/
def Exits (E : ε → Prop) : Prog σ κ ε α → Prop
  | pure _ => True
  | fail e => E e
  | stmt _ _ n => ∀ v, (n v).Exits E

theorem Exits.bind {E : ε → Prop} {p : Prog σ κ ε α} {f : α → Prog σ κ ε β} (hp : p.Exits E)
    (hf : ∀ a, (f a).Exits E) : (p >>= f).Exits E := by
  induction p with
  | pure a => exact hf a
  | fail e => exact hp
  | stmt l w n ih => exact fun v => ih v (hp v)

theorem Exits.run_error {E : ε → Prop} {p : Prog σ κ ε α} (hp : p.Exits E) {s : σ} {e : ε}
    (h : p.run s = .error e) : E e := by
  induction p generalizing s with
  | pure a => cases h
  | fail e' =>
    cases h
    exact hp
  | stmt l w n ih => exact ih s (hp s) h

/-- An exit that the first step does not have comes from the rest. -/
theorem Exits.run_bind_error {E : ε → Prop} {p : Prog σ κ ε α} (hp : p.Exits E)
    {f : α → Prog σ κ ε β} {s : σ} {e : ε} (he : ¬E e) (h : (p >>= f).run s = .error e) :
    ∃ a t, p.run s = .ok (a, t) ∧ (f a).run t = .error e := by
  rw [run_bind] at h
  cases hr : p.run s with
  | error e' =>
    rw [hr] at h
    cases h
    exact absurd (hp.run_error hr) he
  | ok r => exact ⟨r.1, r.2, rfl, by rwa [hr] at h⟩

theorem exits_query {E : ε → Prop} (f : σ → α) : (query f : Prog σ κ ε α).Exits E := fun _ => trivial

theorem exits_execute {E : ε → Prop} {l : σ → List κ} {c : σ → Except ε Unit} {w : σ → σ → σ}
    (h : ∀ v e, c v = .error e → E e) : (execute l c w).Exits E := by
  intro v
  change Exits E (match c v with | .ok _ => .pure () | .error e => .fail e)
  split
  · trivial
  · next e hc => exact h v e hc

theorem exits_require {E : ε → Prop} {c : Prop} [Decidable c] {e : ε} (h : E e) :
    (require c e : Prog σ κ ε Unit).Exits E := by
  unfold require
  split_ifs
  · trivial
  · exact h

/-- The body takes the row lock `g` before anything else, or ends without a statement. -/
def Gated (g : κ) : Prog σ κ ε α → Prop
  | pure _ => True
  | fail _ => True
  | stmt l _ _ => ∀ v, g ∈ l v

theorem Gated.require_bind {g : κ} {c : Prop} [Decidable c] {e : ε}
    {f : Unit → Prog σ κ ε β} (hf : c → (f ()).Gated g) : (require c e >>= f).Gated g := by
  unfold require
  split_ifs with h
  · exact hf h
  · trivial

theorem Gated.ofExcept_bind {g : κ} {x : Except ε α} {f : α → Prog σ κ ε β}
    (hf : ∀ a, x = .ok a → (f a).Gated g) : (ofExcept x >>= f).Gated g := by
  cases x with
  | error e => trivial
  | ok a => exact hf a rfl

theorem Gated.okOr_bind {g : κ} {x : Option α} {e : ε} {f : α → Prog σ κ ε β}
    (hf : ∀ a, x = some a → (f a).Gated g) : (okOr x e >>= f).Gated g := by
  cases x with
  | none => trivial
  | some a => exact hf a rfl

end Prog

/-- Where a store keeps answers, under the scope of a request and its key, and what locks one of them. -/
structure AnswerTable (σ κ β : Type) where
  rows : σ → Table (String × String) β
  keep : σ → Table (String × String) β → σ
  lock : String → String → κ

namespace AnswerTable
variable {σ κ ε α β γ : Type} (t : AnswerTable σ κ β)

def get (scope key : String) : Prog σ κ ε (Option β) := .query fun s => (t.rows s).find? (scope, key)

/-- `ON CONFLICT DO NOTHING`. -/
def put (scope key : String) (answer : β) : Prog σ κ ε Unit :=
  .execute (fun v => if ((t.rows v).find? (scope, key)).isSome then [] else [t.lock scope key]) (fun _ => .ok ())
    fun _ s => t.keep s ((t.rows s).insert (scope, key) answer)

/-- Answer with what is stored under the key of the request, if it has one, else run the handler. -/
def replayOr (key : Option String) (scope : String) (replay : β → α) (handler : Prog σ κ ε α) :
    Prog σ κ ε α :=
  match key with
  | none => handler
  | some k => do
    match ← t.get scope k with
    | some stored => pure (replay stored)
    | none => handler

/-- Store the answer under the key of the request, if it has one. -/
def record (key : Option String) (scope : String) (answer : β) : Prog σ κ ε Unit :=
  match key with
  | none => pure ()
  | some k => t.put scope k answer

/-- What is stored for a request with this key. -/
def lookup (s : σ) (key : Option String) (scope : String) : Option β := key.bind fun k => (t.rows s).find? (scope, k)

def recorded (s : σ) (key : Option String) (scope : String) (answer : β) : Table (String × String) β :=
  match key with
  | none => t.rows s
  | some k => (t.rows s).insert (scope, k) answer

variable {t}

theorem replayOr_ok {key : Option String} {scope : String} {replay : β → α} {handler : Prog σ κ ε α} {s : σ}
    {r : α × σ} : (t.replayOr key scope replay handler).run s = .ok r ↔
      (∃ stored, t.lookup s key scope = some stored ∧ r = (replay stored, s)) ∨
        (t.lookup s key scope = none ∧ handler.run s = .ok r) := by
  cases key with
  | none => simp [replayOr, lookup]
  | some k =>
    simp only [replayOr, get, Prog.run_query_bind, lookup, Option.bind_some]
    cases (t.rows s).find? (scope, k) with
    | none => simp
    | some stored => simp [eq_comm]

theorem run_record_ok (hkeep : ∀ s, t.keep s (t.rows s) = s) {key : Option String} {scope : String} {answer : β}
    {s : σ} {r : Unit × σ} : (t.record key scope answer : Prog σ κ ε Unit).run s = .ok r ↔
      r = ((), t.keep s (t.recorded s key scope answer)) := by
  cases key with
  | none => simp [record, recorded, hkeep, eq_comm]
  | some k => simp [record, recorded, put]

theorem writes_put {W : (σ → σ) → Prop} (hid : W id)
    (hput : ∀ scope key answer, W fun s => t.keep s ((t.rows s).insert (scope, key) answer)) (scope key : String)
    (answer : β) : (t.put scope key answer : Prog σ κ ε Unit).Writes W :=
  Prog.writes_execute hid fun _ _ => hput scope key answer

theorem writes_record {W : (σ → σ) → Prop} (hid : W id)
    (hput : ∀ scope key answer, W fun s => t.keep s ((t.rows s).insert (scope, key) answer)) (key : Option String)
    (scope : String) (answer : β) : (t.record key scope answer : Prog σ κ ε Unit).Writes W := by
  cases key with
  | none => trivial
  | some k => exact writes_put hid hput scope k answer

theorem writes_replayOr {W : (σ → σ) → Prop} (hid : W id) {key : Option String} {scope : String}
    {replay : β → α}
    {handler : Prog σ κ ε α} (h : handler.Writes W) : (t.replayOr key scope replay handler).Writes W := by
  cases key with
  | none => exact h
  | some k =>
    refine (Prog.writes_query hid _).bind fun stored => ?_
    cases stored with
    | none => exact h
    | some answer => trivial

theorem exits_record (t : AnswerTable σ κ β) {E : ε → Prop} (key : Option String) (scope : String) (answer : β) :
    (t.record key scope answer : Prog σ κ ε Unit).Exits E := by
  cases key with
  | none => trivial
  | some k =>
    unfold record put
    refine Prog.exits_execute fun _ _ h => ?_
    cases h

end AnswerTable

/-- Bodies run one after another and accepted, with what each step started from. -/
inductive Runs {σ κ ε α ω : Type} (body : ω → Prog σ κ ε α) : σ → List (σ × ω) → σ → Prop
  | nil (s : σ) : Runs body s [] s
  | step {s t u steps o a} (prior : Runs body s steps t) (run : (body o).run t = .ok (a, u)) :
      Runs body s (steps ++ [(t, o)]) u

namespace Runs
variable {σ κ ε α ω : Type} {body : ω → Prog σ κ ε α}

/-- What every accepted step that meets `C` preserves holds at the end of a run of them. -/
theorem invariant {s t : σ} {steps : List (σ × ω)} (h : Runs body s steps t) {I : σ → Prop}
    {C : σ × ω → Prop} (h0 : I s) (hc : ∀ x ∈ steps, C x)
    (hs : ∀ t o a u, C (t, o) → I t → (body o).run t = .ok (a, u) → I u) : I t := by
  induction h with
  | nil => exact h0
  | step _ hr ih =>
    exact hs _ _ _ _ (hc _ (by simp)) (ih fun x hx => hc x (List.mem_append_left _ hx)) hr

/-- What every accepted step preserves holds before each step of a run. -/
theorem invariant_before {s t : σ} {steps : List (σ × ω)} (h : Runs body s steps t) {I : σ → Prop}
    (h0 : I s) (hs : ∀ t o a u, I t → (body o).run t = .ok (a, u) → I u) : ∀ x ∈ steps, I x.1 := by
  induction h with
  | nil => nofun
  | @step t u steps o a prior hr ih =>
    intro x hx
    rcases List.mem_append.mp hx with hx | hx
    · exact ih x hx
    · obtain rfl := List.mem_singleton.mp hx
      exact prior.invariant (C := fun _ => True) h0 (fun _ _ => trivial) fun v o a w _ => hs v o a w

/-- Run the bodies, as long as they are accepted. -/
def play (body : ω → Prog σ κ ε α) : List ω → σ → List (σ × ω) → Option (List (σ × ω) × σ)
  | [], s, done => some (done, s)
  | o :: os, s, done =>
    match (body o).run s with
    | .ok (_, t) => play body os t (done ++ [(s, o)])
    | .error _ => none

theorem play_runs {os : List ω} {s₀ s t : σ} {done steps : List (σ × ω)}
    (h0 : Runs body s₀ done s) (h : play body os s done = some (steps, t)) :
    Runs body s₀ steps t := by
  induction os generalizing s done with
  | nil =>
    cases h
    exact h0
  | cons o os ih =>
    simp only [play] at h
    split at h
    · next hr => exact ih (h0.step hr) h
    · cases h

/-- A run found by playing, with what can be computed about it. -/
theorem of_play (body : ω → Prog σ κ ε α) (os : List ω) (s : σ) (P : List (σ × ω) → σ → Bool)
    (h : (play body os s []).any (fun r => P r.1 r.2) = true) :
    ∃ steps t, Runs body s steps t ∧ P steps t = true := by
  obtain ⟨⟨steps, t⟩, hp, hP⟩ := (Option.any_eq_true _ _).mp h
  exact ⟨steps, t, play_runs (.nil s) hp, hP⟩

end Runs

end Noxara.Transaction
