import Pensar.Computation.Machine
import Pensar.Model.IntegerText

/-!
# `StopWatch` (`cpp/src/stop_watch.hpp`)

How a number of nanoseconds is shown, with the padding of `cpp/src/s.hpp`, and the watch, whose
readings of the clock are numbers of nanoseconds.  Arithmetic on the type `long long` is undefined
where the result does not fit.

The template parameter `Resolution` is a unit of time, and the type of the numbers that count it.
Of a floating-point type all that is used is how it rounds.
-/

set_option autoImplicit false

namespace Pensar.Model

open Pensar.Computation

/-! ## Padding -/

/-- SOURCE: cpp/src/constant.hpp:82-83 -/
def PAD_RIGHT : Bool := true
def PAD_LEFT : Bool := false

/-- The assertion ends the program.
SOURCE: cpp/src/s.hpp:211-230 -/
def pad (s : S) (c : C) (n : UInt64) (where_ : Bool := PAD_RIGHT) : Outcome S :=
  if n = 0 then
    .value s
  else if n.toUInt32.toInt32 > 0 then
    let length := UInt64.ofNat s.length
    if where_ = PAD_RIGHT then
      .value (if n > length then s ++ List.replicate (n - length).toNat c else s)
    else
      .value (if n > length then List.replicate (n - length).toNat c ++ s else s)
  else
    .terminated

/-- SOURCE: cpp/src/s.hpp:242-250 -/
def padCopy (s : S) (c : C) (n : UInt32) (where_ : Bool := PAD_RIGHT) : Outcome S :=
  pad s c n.toUInt64 where_

/-- SOURCE: cpp/src/s.hpp:511-514 -/
def padLeft0 (number : IntType.int64.Number) (n : UInt32 := 4) : Outcome S :=
  padCopy (IntType.toString false number) (Wc '0') n PAD_LEFT

namespace StopWatch

/-- `long long`. -/
abbrev ElapsedType := IntType.int64.Number

/-- The result of an operation. -/
def elapsedType (n : ℤ) : Outcome ElapsedType :=
  if h : IntType.int64.min ≤ n ∧ n ≤ IntType.int64.max then .value ⟨n, h⟩ else .undefined

def H : ℤ := 3600000000000
def M : ℤ := 60000000000
def S : ℤ := 1000000000
def MS : ℤ := 1000000
def MICRO_SECOND : ℤ := 1000

/-- How often the unit goes into the time that is left, and what is left then: the two lines
`count = elapsed / unit; elapsed -= count * unit`. -/
def divideOff (elapsed : ElapsedType) (unit : ℤ) : Outcome (ElapsedType × ElapsedType) := do
  let count ← elapsedType (elapsed.val.tdiv unit)
  let product ← elapsedType (count.val * unit)
  let elapsed ← elapsedType (elapsed.val - product.val)
  pure (count, elapsed)

/-- The text, and what is written to `std::cerr`.
SOURCE: cpp/src/stop_watch.hpp:65-89 -/
def elapsedFormatted (elapsedNanoseconds : ElapsedType) : Outcome (Model.S × Log) := do
  let elapsed := elapsedNanoseconds
  let (hours, elapsed) ← divideOff elapsed H
  let (minutes, elapsed) ← divideOff elapsed M
  let (seconds, elapsed) ← divideOff elapsed S
  let (milliseconds, elapsed) ← divideOff elapsed MS
  let log := if milliseconds.val > 1000 then ["Warning: milliseconds > 1000"] else []
  let (microseconds, elapsed) ← divideOff elapsed MICRO_SECOND
  let result := (← padLeft0 hours 2) ++ W ":"
  let result := result ++ (← padLeft0 minutes 2) ++ W ":"
  let result := result ++ (← padLeft0 seconds 2) ++ W "."
  let result := result ++ (← padLeft0 milliseconds 3) ++ W "."
  let result := result ++ (← padLeft0 microseconds 3) ++ W "."
  let result := result ++ (← padLeft0 elapsed 3)
  pure (result, log)

end StopWatch

open StopWatch (ElapsedType elapsedType)

/-! ## `duration_cast` -/

namespace IntType

/-- The number of the type that is left modulo a power of two. -/
def wrapped (T : IntType) (n : ℤ) : ℤ :=
  if n % 2 ^ T.bits ≤ T.max then n % 2 ^ T.bits else n % 2 ^ T.bits - 2 ^ T.bits

theorem wrapped_range (T : IntType) (n : ℤ) : T.min ≤ T.wrapped n ∧ T.wrapped n ≤ T.max := by
  cases T <;> simp only [wrapped, min, max, bits, signed, if_true, Bool.false_eq_true, if_false] <;>
    norm_num <;> split <;> omega

/-- `static_cast<T> (n)` -/
def cast (T : IntType) (n : ℤ) : T.Number := ⟨T.wrapped n, T.wrapped_range n⟩

/-- The result of an operation: undefined if it does not fit, or modulo a power of two if the type
has no negative numbers. -/
def arithmetic (T : IntType) (n : ℤ) : Outcome T.Number :=
  if T.signed then
    if h : T.min ≤ n ∧ n ≤ T.max then .value ⟨n, h⟩ else .undefined
  else .value (T.cast n)

end IntType

/-- The type of the numbers that count a unit.  A floating-point type takes each number to one
that it has. -/
inductive Rep where
  | integer (T : IntType)
  | floating (round : ℚ → ℚ)

/-- `std::chrono::duration<Rep, Period>`, the period in seconds.  The factor of the conversion is
a `std::ratio` like the period: reduced, and of two numbers of type `std::intmax_t`, or the
program is not compiled. -/
structure Resolution where
  rep : Rep
  period : ℚ
  period_pos : 0 < period
  num_le : (1 / 10 ^ 9 / period).num ≤ IntType.int64.max
  den_le : (1 / 10 ^ 9 / period).den ≤ IntType.int64.max

/-- `std::ratio_divide<std::nano, Period>` -/
def Resolution.cf (r : Resolution) : ℚ := 1 / 10 ^ 9 / r.period

/-- What `duration_cast` uses of the type that it calculates in. -/
structure CommonType (α : Type) where
  cast : ℤ → α
  mul : α → α → Outcome α
  div : α → α → α

namespace CommonType

/-- `std::common_type_t<T, long long, std::intmax_t>` -/
def ofInteger (T : IntType) : IntType := if T = .uint64 then .uint64 else .int64

def integer (T : IntType) : CommonType T.Number where
  cast := T.cast
  mul a b := T.arithmetic (a.val * b.val)
  div a b := T.cast (a.val.tdiv b.val)

def floating (round : ℚ → ℚ) : CommonType ℚ where
  cast n := round n
  mul a b := .value (round (a * b))
  div a b := round (a / b)

/-- The four branches of `duration_cast`. -/
def scaled {α : Type} (CR : CommonType α) (cf : ℚ) (count : ℤ) : Outcome α :=
  if cf.den = 1 then
    if cf.num = 1 then pure (CR.cast count)
    else CR.mul (CR.cast count) (CR.cast cf.num)
  else if cf.num = 1 then pure (CR.div (CR.cast count) (CR.cast cf.den))
  else do
    let product ← CR.mul (CR.cast count) (CR.cast cf.num)
    pure (CR.div product (CR.cast cf.den))

end CommonType

/-- The conversion of a floating-point number to an integer, towards zero. -/
def truncated (count : ℚ) : ℤ := count.num.tdiv count.den

/-- `std::chrono::duration_cast<Resolution> (interval).count ()`, as the type that `elapsed`
returns. -/
def Resolution.durationCast (r : Resolution) (interval : ElapsedType) : Outcome ElapsedType :=
  match r.rep with
  | .integer T => do
    let count ← (CommonType.integer (CommonType.ofInteger T)).scaled r.cf interval.val
    pure (IntType.int64.cast (T.cast count.val).val)
  | .floating round => do
    let count ← (CommonType.floating round).scaled r.cf interval.val
    elapsedType (truncated count)

/-! ## The watch -/

/-- SOURCE: cpp/src/stop_watch.hpp:22-26 -/
structure StopWatch where
  mstart : ElapsedType
  mlast : ElapsedType
  mmark : ElapsedType
  mrunning : Bool

namespace StopWatch

/-- SOURCE: cpp/src/stop_watch.hpp:22 -/
def ZERO : ElapsedType := ⟨0, by decide⟩

/-- SOURCE: cpp/src/stop_watch.hpp:36-37 -/
def construct (startNow : Bool) (now : ElapsedType) : StopWatch where
  mstart := if startNow then now else ZERO
  mlast := ZERO
  mmark := ZERO
  mrunning := startNow

/-- SOURCE: cpp/src/stop_watch.hpp:40 -/
def start (w : StopWatch) (now : ElapsedType) : StopWatch :=
  { w with mstart := now, mrunning := true }

/-- SOURCE: cpp/src/stop_watch.hpp:43 -/
def reset (w : StopWatch) (now : ElapsedType) : StopWatch :=
  { w with mstart := now, mlast := ZERO, mrunning := true }

/-- SOURCE: cpp/src/stop_watch.hpp:45 -/
def stop (w : StopWatch) (now : ElapsedType) : StopWatch :=
  { w with mlast := now, mrunning := false }

/-- SOURCE: cpp/src/stop_watch.hpp:53 -/
def mark (w : StopWatch) (now : ElapsedType) : StopWatch := { w with mmark := now }

/-- A call that changes the watch. -/
inductive Call where
  | start | reset | stop | mark
  deriving DecidableEq, Repr

/-- One call after another, each with the reading that it takes. -/
def machine : Machine StopWatch (Call × ElapsedType) Unit where
  step w
    | (.start, now) => (w.start now, ())
    | (.reset, now) => (w.reset now, ())
    | (.stop, now) => (w.stop now, ())
    | (.mark, now) => (w.mark now, ())

/-- The reading up to which is measured. -/
def last (w : StopWatch) (now : ElapsedType) : ElapsedType := if w.mrunning then now else w.mlast

variable (r : Resolution) (w : StopWatch) (now : ElapsedType)

/-- SOURCE: cpp/src/stop_watch.hpp:48-51 -/
def elapsed : Outcome ElapsedType := do
  let interval ← elapsedType ((w.last now).val - w.mstart.val)
  r.durationCast interval

/-- SOURCE: cpp/src/stop_watch.hpp:55-58 -/
def elapsedSinceMark : Outcome ElapsedType := do
  let interval ← elapsedType ((w.last now).val - w.mmark.val)
  r.durationCast interval

/-- `elapsed_formatted` without an argument.
SOURCE: cpp/src/stop_watch.hpp:92-95 -/
def elapsedFormattedNow : Outcome (Model.S × Log) := do elapsedFormatted (← elapsed r w now)

/-- SOURCE: cpp/src/stop_watch.hpp:96-99 -/
def elapsedSinceMarkFormatted : Outcome (Model.S × Log) := do
  elapsedFormatted (← elapsedSinceMark r w now)

end StopWatch

end Pensar.Model
