-- SUMMARY: Times of 64-bit seconds with nanoseconds: wrapping sums, and differences that saturate.
import Mathlib.Tactic.Common

/-!
# Instants

A time is a number of seconds in 64 bits and a number of nanoseconds below a second. A duration is
a number of nanoseconds in 64 bits. Sums of machine numbers wrap around; adding a duration to a
time stops at the ends of the range. The difference of two times is computed with sums that wrap,
and checked by adding it again. It comes out as the true difference, cut off at the ends of the
range of durations.
-/

namespace Clock

/-- The number that 64 bits keep of an integer. -/
def wrap (n : Int) : Int :=
  (n + 9223372036854775808) % 18446744073709551616 - 9223372036854775808

def minInt : Int := -9223372036854775808

def maxInt : Int := 9223372036854775807

/-- An integer of 64 bits. -/
def InRange (n : Int) : Prop := -9223372036854775808 ≤ n ∧ n < 9223372036854775808

theorem wrap_inRange (n : Int) : InRange (wrap n) := by
  simp only [InRange, wrap]
  omega

theorem wrap_of_inRange {n : Int} (h : InRange n) : wrap n = n := by
  simp only [InRange, wrap] at *
  omega

structure Instant where
  sec : Int
  nsec : Int
  sec_inRange : InRange sec
  nsec_nonneg : 0 ≤ nsec
  nsec_lt : nsec < 1000000000

namespace Instant

/-- The time in nanoseconds, with no bound. -/
def nanos (t : Instant) : Int := t.sec * 1000000000 + t.nsec

/-- Division that rounds toward zero. -/
def seconds (d : Int) : Int := if 0 ≤ d then d / 1000000000 else -(-d / 1000000000)

/-- Seconds added to seconds, up to the ends of the range. -/
def addSec (sec d : Int) : Int :=
  let sum := wrap (sec + d)
  if decide (sec < sum) = decide (0 < d) then sum
  else if 0 < d then maxInt
  else -maxInt

/-- The seconds and nanoseconds of a time plus a duration. -/
def add (t : Instant) (d : Int) : Int × Int :=
  let dsec := seconds d
  let nsec := t.nsec + (d - seconds d * 1000000000)
  if 1000000000 ≤ nsec then (addSec t.sec (dsec + 1), nsec - 1000000000)
  else if nsec < 0 then (addSec t.sec (dsec - 1), nsec + 1000000000)
  else (addSec t.sec dsec, nsec)

def before (t u : Instant) : Bool := t.sec < u.sec ∨ (t.sec = u.sec ∧ t.nsec < u.nsec)

/-- The duration from `u` to `t`. -/
def sub (t u : Instant) : Int :=
  let d := wrap (wrap (wrap (t.sec - u.sec) * 1000000000) + (t.nsec - u.nsec))
  if u.add d = (t.sec, t.nsec) then d
  else if t.before u then minInt
  else maxInt

/-- Seconds are added, or cut off at one of the ends. -/
theorem addSec_cases {sec d : Int} (hsec : InRange sec) (hd : InRange d) :
    (InRange (sec + d) ∧ addSec sec d = sec + d) ∨
      (0 < d ∧ 9223372036854775808 ≤ sec + d ∧ addSec sec d = maxInt) ∨
      (d < 0 ∧ sec + d < -9223372036854775808 ∧ addSec sec d = -maxInt) := by
  by_cases hpos : 0 < d
  · by_cases hlt : sec < wrap (sec + d)
    · have hadd : addSec sec d = wrap (sec + d) := by simp [addSec, hpos, hlt]
      simp only [InRange, wrap] at *
      omega
    · have hadd : addSec sec d = maxInt := by simp [addSec, hpos, hlt]
      simp only [InRange, wrap] at *
      omega
  · by_cases hlt : sec < wrap (sec + d)
    · have hadd : addSec sec d = -maxInt := by simp [addSec, hpos, hlt]
      simp only [InRange, wrap] at *
      omega
    · have hadd : addSec sec d = wrap (sec + d) := by simp [addSec, hpos, hlt]
      simp only [InRange, wrap] at *
      omega

/-- What is added to the seconds, and the nanoseconds that are left. -/
theorem add_eq (t : Instant) {d : Int} (hd : InRange d) :
    ∃ dsec nsec, t.add d = (addSec t.sec dsec, nsec) ∧ InRange dsec ∧
      0 ≤ nsec ∧ nsec < 1000000000 ∧ dsec * 1000000000 + nsec = d + t.nsec := by
  have hnonneg := t.nsec_nonneg
  have hlt := t.nsec_lt
  unfold add
  simp only [InRange] at *
  by_cases hpos : 0 ≤ d
  · have hseconds : seconds d = d / 1000000000 := if_pos hpos
    simp only [hseconds]
    split
    · exact ⟨_, _, rfl, by omega, by omega, by omega, by omega⟩
    split <;> exact ⟨_, _, rfl, by omega, by omega, by omega, by omega⟩
  · have hseconds : seconds d = -(-d / 1000000000) := if_neg hpos
    simp only [hseconds]
    split
    · exact ⟨_, _, rfl, by omega, by omega, by omega, by omega⟩
    split <;> exact ⟨_, _, rfl, by omega, by omega, by omega, by omega⟩

/-- The computed difference is the true one up to multiples of the range. -/
theorem wrap_sub (t u : Instant) :
    wrap (wrap (wrap (t.sec - u.sec) * 1000000000) + (t.nsec - u.nsec)) =
      wrap (t.nanos - u.nanos) := by
  simp only [wrap, nanos]
  omega

/-- The difference is the true one, cut off at the ends of the range. -/
theorem sub_eq (t u : Instant) : t.sub u = max minInt (min maxInt (t.nanos - u.nanos)) := by
  have htsec := t.sec_inRange
  have htnn := t.nsec_nonneg
  have htlt := t.nsec_lt
  have husec := u.sec_inRange
  have hunn := u.nsec_nonneg
  have hult := u.nsec_lt
  obtain ⟨dsec, nsec, hadd, hdsec, hnn, hlt, hsum⟩ := u.add_eq (wrap_inRange (t.nanos - u.nanos))
  rw [sub, wrap_sub, hadd]
  by_cases hrange : InRange (t.nanos - u.nanos)
  · -- The sum gives the time back, because the true sum is in the range.
    have hwrap := wrap_of_inRange hrange
    rw [hwrap] at hsum ⊢
    have heq : addSec u.sec dsec = t.sec ∧ nsec = t.nsec := by
      rcases addSec_cases husec hdsec with ⟨-, h⟩ | ⟨-, h, -⟩ | ⟨-, h, -⟩
      · simp only [nanos] at hsum
        omega
      · simp only [nanos, InRange] at *
        omega
      · simp only [nanos, InRange] at *
        omega
    rw [if_pos (by rw [heq.1, heq.2])]
    simp only [InRange, minInt, maxInt] at *
    omega
  · -- Otherwise no sum gives the time back, not even one that is cut off.
    have hne : (addSec u.sec dsec, nsec) ≠ (t.sec, t.nsec) := by
      intro heq
      obtain ⟨hsec, hnsec⟩ := Prod.mk.inj heq
      have hw := wrap_inRange (t.nanos - u.nanos)
      rcases addSec_cases husec hdsec with ⟨-, h⟩ | ⟨-, h, h'⟩ | ⟨-, h, h'⟩
      · simp only [nanos, InRange] at *
        omega
      · simp only [nanos, InRange, maxInt] at *
        omega
      · simp only [nanos, InRange, maxInt] at *
        omega
    rw [if_neg hne]
    have hbefore : t.before u = true ↔ t.nanos < u.nanos := by
      simp only [before, decide_eq_true_eq, nanos]
      omega
    by_cases hlt' : t.nanos < u.nanos
    · rw [if_pos (hbefore.mpr hlt')]
      simp only [InRange, minInt, maxInt] at *
      omega
    · rw [if_neg (fun h => hlt' (hbefore.mp h))]
      simp only [InRange, minInt, maxInt] at *
      omega

/-! ## Seconds of the epoch -/

/-- Seconds are counted from the year 1; those of the epoch begin in 1970. -/
def epoch : Int := 62135596800

/-- The time of a number of seconds of the epoch. -/
def ofUnix (n : Int) : Instant := ⟨wrap (n + epoch), 0, wrap_inRange _, by decide, by decide⟩

/-- The whole seconds of the epoch. -/
def unix (t : Instant) : Int := wrap (t.sec - epoch)

theorem unix_ofUnix {n : Int} (h : InRange n) : (ofUnix n).unix = n := by
  simp only [unix, ofUnix, wrap, epoch, InRange] at *
  omega

/-- The time in nanoseconds of the epoch, with no bound. -/
def unixNanos (t : Instant) : Int := t.nanos - epoch * 1000000000

end Instant

end Clock
