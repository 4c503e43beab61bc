import SmartPrince.Lib.GapSort
import SmartPrince.Wiring.PinSettings

/-! # Servo pulses

`softServo.c` raises the pins of its servos together and lowers each after its
own width. A frame sorts the widths, with the pins beside them, and waits from
one to the next; the widths are what `softServoWrite` left, for the pin of that
number below 64. -/
namespace SmartPrince.Wiring.SoftServo
open SmartPrince.Lib.Loop SmartPrince.Lib.GapSort SmartPrince.Wiring.PinSettings

def maxServos : Nat := 8

structure Servos where
  pinMap : Nat → Int
  pulseWidth : Nat → Int

/-- What the program does to the pins in a frame -/
inductive Signal where
  | digitalWrite (pin : Int) (high : Bool)
  | delayMicroseconds (howLong : Int)
  deriving DecidableEq, Repr

/-! ## The functions of the file -/

/-- The value that is kept to -250 .. 1250. -/
def limited (value : Int) : Int := if value < -250 then -250 else if value > 1250 then 1250 else value

def softServoWrite (servoPin value : Int) (s : Servos) : Servos := { s with
  pulseWidth := fun servo =>
    if servo < maxServos ∧ s.pinMap servo = servoPin % 64 then limited value + 1000 else s.pulseWidth servo }

/-- The calls for each pin that is not -1, and what is left for the thread. -/
def softServoSetup (p : Nat → Int) : List Op × Servos :=
  ((List.range maxServos).flatMap fun servo =>
    if p servo ≠ -1 then [.pinMode (p servo) .output, .digitalWrite (p servo) 0] else [],
    ⟨p, fun _ => 1500⟩)

structure Turning where
  lastDelay : Int
  myDelays : Nat → Int
  out : List Signal

/-- All on -/
def turnOn (myPins : Nat → Int) (servo : Nat) (s : Turning) : Turning :=
  if myPins servo = -1 then s
  else
    let delay := s.myDelays servo - s.lastDelay
    { lastDelay := s.lastDelay + delay
      myDelays := Function.update s.myDelays servo delay
      out := s.out ++ [.digitalWrite (myPins servo) true] }

/-- Now loop, turning them all off as required -/
def turnOff (myPins : Nat → Int) (servo : Nat) (s : Turning) : Turning :=
  if myPins servo = -1 then s
  else { s with
    out := s.out ++ [.delayMicroseconds (s.myDelays servo), .digitalWrite (myPins servo) false] }

/-- The delays and the pins, shortest first -/
def sorted (s : Servos) : Nat → Int × Int :=
  gapSort Prod.fst maxServos (maxServos / 2) fun servo => (s.pulseWidth servo, s.pinMap servo)

/-- One turn of `softServoThread`, but for the wait at its end. -/
def softServoFrame (s : Servos) : List Signal :=
  let myDelays := fun servo => (sorted s servo).1
  let myPins := fun servo => (sorted s servo).2
  (loop maxServos (turnOff myPins) (loop maxServos (turnOn myPins) ⟨0, myDelays, []⟩)).out

/-! ## Time -/

/-- When what is written, by the delays before it. -/
def timed : Int → List Signal → List (Int × Int × Bool)
  | _, [] => []
  | t, .digitalWrite pin high :: l => (t, pin, high) :: timed t l
  | t, .delayMicroseconds howLong :: l => timed (t + howLong) l

def duration : List Signal → Int
  | [] => 0
  | .digitalWrite _ _ :: l => duration l
  | .delayMicroseconds howLong :: l => howLong + duration l

theorem timed_append (t : Int) (l m : List Signal) : timed t (l ++ m) = timed t l ++ timed (t + duration l) m := by
  induction l generalizing t with
  | nil => rw [duration, Int.add_zero]; rfl
  | cons x l ih =>
    cases x with
    | digitalWrite pin high => rw [List.cons_append, timed, timed, duration, ih]; rfl
    | delayMicroseconds howLong => rw [List.cons_append, timed, timed, duration, ih, Int.add_assoc]

theorem duration_append (l m : List Signal) : duration (l ++ m) = duration l + duration m := by
  induction l with
  | nil => rw [duration, Int.zero_add]; rfl
  | cons x l ih =>
    cases x with
    | digitalWrite pin high => rw [List.cons_append, duration, duration, ih]
    | delayMicroseconds howLong => rw [List.cons_append, duration, duration, ih, Int.add_assoc]

end SmartPrince.Wiring.SoftServo
