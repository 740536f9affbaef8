import Wara.External

/-!
# Service calls

A service function is a `Flow` over the database operations that ends with a
value or an `Abort`. Here are the idioms the services are written in: statements
through Toasty, transactions, `?` on a result, `ok_or`, an early `return Err`.
-/

namespace Wara

open Interleave

abbrev Service := Flow Res Abort

def mapToastyError (error : DbError) : ApiError :=
  .internal ("database operation failed: " ++ error)

namespace Service

variable {α : Type} {t : Table}

def throwApi (e : ApiError) : Service α := throw (.api e)

/-- `if c { return Err(e) }`. -/
def throwIf (c : Prop) [Decidable c] (e : ApiError) : Service Unit :=
  if c then throwApi e else pure ()

/-- `unwrap_or_else` with an effect. -/
def unwrapOrElse (other : Service α) : Option α → Service α
  | some a => pure a
  | none => other

/-- The `?` operator. -/
def orThrow : Except ApiError α → Service α
  | .ok a => pure a
  | .error e => throwApi e

/-- A result whose error is a panic. -/
def orPanic : Except String α → Service α
  | .ok a => pure a
  | .error message => throw (.panic message)

/-- `ok_or(error)?`. -/
def okOr (error : ApiError) : Option α → Service α
  | some a => pure a
  | none => throwApi error

/-- `map_err(f)?`. -/
def mapErr (f : String → ApiError) : Except String α → Service α
  | .ok a => pure a
  | .error e => throwApi (f e)

def query (t : Table) (f : Filter) : Service (List (Row t)) := do
  mapErr mapToastyError (← Flow.call (.select t f))

/-- `.first().exec(..)`. -/
def first (t : Table) (f : Filter) : Service (Option (Row t)) := do
  return (← query t f).head?

def update (t : Table) (f : Filter) (sets : List (Nat × Value)) : Service Unit := do
  mapErr mapToastyError (← Flow.call (.write (.update t f sets)))

/-- `&mut dyn Executor`: the handle itself or an open transaction. -/
inductive Executor where
  | handle
  | transaction
  deriving DecidableEq, Repr

def Executor.op (w : Write) : Executor → Op
  | .handle => .write w
  | .transaction => .txWrite w

def execute (w : Write) : Executor → Service Unit
  | .handle => do mapErr mapToastyError (← Flow.call (.write w))
  | .transaction => do mapErr mapToastyError (← Flow.call (.txWrite w))

/-- `toasty::create!`. -/
def create (e : Executor) (r : Row t) : Service (Row t) := do
  execute (.insert t r) e
  return r

def transaction : Service Unit := do
  mapErr mapToastyError (← Flow.call .begin)

/-- `tx.commit()` of the given statements. -/
def commit (ws : List Write) : Service Unit := do
  mapErr mapToastyError (← Flow.call (.commit ws))

/-- `Utc::now()`. -/
def now : Service DateTime := Flow.call Op.now

/-- `Uuid::now_v7()`. -/
def nowV7 : Service Uuid := Flow.call Op.newUuid

def randomBytes (n : Nat) : Service (Bytes n) := Flow.call (Op.randomBytes n)

/-- `jsonwebtoken::get_current_timestamp`. -/
def getCurrentTimestamp : Service UInt64 := do
  let t ← now
  if t.nanos < 0 then throw (.panic "Time went backwards")
  else return UInt64.ofInt t.timestamp

/-- An error becomes a value to look at; a panic goes on. -/
def attempted : Except Abort α → Prog Res (Except Abort (Except ApiError α))
  | .ok a => .ret (.ok (.ok a))
  | .error (.api e) => .ret (.ok (.error e))
  | .error (.panic m) => .ret (.error (.panic m))

/-- Run `x` and look at how it ended. -/
def attempt (x : Service α) : Service (Except ApiError α) :=
  ExceptT.mk (Prog.bind x attempted)

end Service

end Wara
