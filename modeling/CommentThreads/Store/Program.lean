/-
CommentThreads.Store.Program — programs over a key-value store.

A program is done, or makes a call and goes on with the answer, or with
none if the key was refused, or asks for a fresh number or for the time.
What it does is fixed by the program; which store it runs on, and which
numbers and times are drawn, by `run`.
-/
import CommentThreads.Store.Call

namespace CommentThreads.Store

/-- A program that ends in a value. -/
inductive Program (α : Type) : Type
  | done (value : α)
  | call (c : Call) (next : Option c.Answer → Program α)
  | draw (next : String → Program α)
  | readClock (next : Int → Program α)

namespace Program

/-- One program after another. -/
def bind {α β : Type} (p : Program α) (f : α → Program β) : Program β :=
  match p with
  | .done a => f a
  | .call c next => .call c fun answer => (next answer).bind f
  | .draw next => .draw fun digits => (next digits).bind f
  | .readClock next => .readClock fun micros => (next micros).bind f

instance : Monad Program where
  pure := .done
  bind := Program.bind

/-- Make one call; there is no answer if the key is refused. -/
def perform (c : Call) : Program (Option c.Answer) := .call c .done

/-- Draw a random number of 32 hexadecimal digits. -/
def randomDigits : Program String := .draw .done

/-- Read the clock: microseconds since the start of 1970 in universal time. -/
def now : Program Int := .readClock .done

end Program

/-- The random numbers and the times still to be drawn. -/
structure Supply where
  digits : Nat → String
  clock : Nat → Int
  digitsDrawn : Nat
  clockRead : Nat

namespace Supply

/-- The next random number. -/
def nextDigits (s : Supply) : String × Supply :=
  (s.digits s.digitsDrawn, { s with digitsDrawn := s.digitsDrawn + 1 })

/-- The next time. -/
def nextTime (s : Supply) : Int × Supply :=
  (s.clock s.clockRead, { s with clockRead := s.clockRead + 1 })

end Supply

/-- A store in use, and what is drawn while it is. -/
structure Site (σ : Type) where
  store : σ
  supply : Supply

/-- Perform one call at a site. -/
def Site.perform {σ : Type} [KeyValue σ] (c : Call) (s : Site σ) : c.Answer × Site σ :=
  let (answer, store) := KeyValue.perform c s.store
  (answer, { s with store := store })

/-- Make one call at a site, whose store may refuse the key. -/
def Site.request {σ : Type} [KeyValue σ] (c : Call) (s : Site σ) : Option c.Answer × Site σ :=
  if KeyValue.takes c.key s.store then (some (s.perform c).1, (s.perform c).2) else (none, s)

/-- Run a program at a site. -/
def Program.run {σ α : Type} [KeyValue σ] : Program α → Site σ → α × Site σ
  | .done a, s => (a, s)
  | .call c next, s =>
    let (answer, s) := s.request c
    (next answer).run s
  | .draw next, s =>
    let (digits, supply) := s.supply.nextDigits
    (next digits).run { s with supply := supply }
  | .readClock next, s =>
    let (micros, supply) := s.supply.nextTime
    (next micros).run { s with supply := supply }

namespace Program

variable {σ α β : Type}

@[simp] theorem bind_done (a : α) (f : α → Program β) : (done a).bind f = f a := rfl

@[simp] theorem bind_done_right (p : Program α) : p.bind done = p := by
  induction p with
  | done a => rfl
  | call c next ih => simp [bind, ih]
  | draw next ih => simp [bind, ih]
  | readClock next ih => simp [bind, ih]

theorem bind_assoc {γ : Type} (p : Program α) (f : α → Program β) (g : β → Program γ) :
    (p.bind f).bind g = p.bind fun a => (f a).bind g := by
  induction p with
  | done a => rfl
  | call c next ih => simp [bind, ih]
  | draw next ih => simp [bind, ih]
  | readClock next ih => simp [bind, ih]

instance : LawfulMonad Program :=
  LawfulMonad.mk' Program bind_done_right bind_done bind_assoc

@[simp] theorem run_pure [KeyValue σ] (a : α) (s : Site σ) :
    (pure a : Program α).run s = (a, s) := rfl

/-- A program after another runs where the other one ended. -/
@[simp] theorem run_bind [KeyValue σ] (p : Program α) (f : α → Program β) (s : Site σ) :
    (p >>= f).run s = (f (p.run s).1).run (p.run s).2 := by
  change (p.bind f).run s = _
  induction p generalizing s with
  | done a => rfl
  | call c next ih => simp [bind, run, ih]
  | draw next ih => simp [bind, run, ih]
  | readClock next ih => simp [bind, run, ih]

@[simp] theorem run_perform [KeyValue σ] (c : Call) (s : Site σ) :
    (perform c).run s = s.request c := rfl

end Program

end CommentThreads.Store
