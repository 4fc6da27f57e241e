import InstanceHierarchy.Context
import InstanceHierarchy.Retry.Policy
import Mathlib.Algebra.Group.Nat.Defs
import Mathlib.Data.Nat.Find
import Mathlib.Order.Bounds.Basic

/-!
# Following a retry policy by the clock

A policy is followed with a clock and a deadline at hand.  Each attempt has its outcome and takes
its time, both fixed beforehand, so the loop is known in full: which attempts are made and when, how
long each pause is, and what the loop comes to.  The deadline is looked at before each attempt and
at no other time.  The attempts are counted, and the pauses are computed, in numbers without bounds;
at the end of this file the pauses are computed in machine words, which gives the same.
-/

namespace InstanceHierarchy

/-- What happens while a policy is followed. -/
inductive RetryEvent where
  /-- An attempt begins at some time. -/
  | attempt (number time : Nat)
  /-- A pause of some milliseconds is asked for. -/
  | pause (milliseconds : Nat)

/-- A clock with a deadline, and what has happened. -/
structure Vigil where
  deadline : Deadline
  now : Nat
  /-- Oldest first. -/
  events : List RetryEvent

namespace Vigil

instance : Patient (StateM Vigil) where
  expired := do
    let v ← get
    return v.deadline.isPast v.now
  pause ms := modify fun v => { v with now := v.now + ms, events := v.events ++ [.pause ms] }

/-- The vigil after an attempt that took some time. -/
def attempted (v : Vigil) (number spent : Nat) : Vigil :=
  { v with now := v.now + spent, events := v.events ++ [.attempt number v.now] }

/-- The vigil after a pause, which is not asked for when it has no length. -/
def paused (v : Vigil) (ms : Nat) : Vigil :=
  if ms = 0 then v else { v with now := v.now + ms, events := v.events ++ [.pause ms] }

/-- Make an attempt, whose outcome and length are known.  To the length of an attempt counts what
the pause after it lasts longer than was asked for. -/
def attempt (outcome : Nat → Except StoreError α) (spent : Nat → Nat) (number : Nat) :
    StateM Vigil (Except StoreError α) := do
  modify fun v => v.attempted number (spent number)
  return outcome number

theorem paused_eq (v : Vigil) (ms : Nat) : v.paused ms =
    ⟨v.deadline, v.now + ms, v.events ++ if ms = 0 then [] else [.pause ms]⟩ := by
  unfold paused
  split
  · rename_i h
    simp [h]
  · rfl

theorem run_bind {β γ : Type} (x : StateM Vigil β) (f : β → StateM Vigil γ) (v : Vigil) :
    (x >>= f).run v = (f (x.run v).1).run (x.run v).2 := rfl

theorem run_expired (v : Vigil) :
    (Patient.expired : StateM Vigil Bool).run v = (v.deadline.isPast v.now, v) := rfl

theorem run_attempt (outcome : Nat → Except StoreError α) (spent : Nat → Nat) (number : Nat)
    (v : Vigil) : (attempt outcome spent number).run v =
      (outcome number, v.attempted number (spent number)) := rfl

theorem run_pause {ms : Nat} (h : ms ≠ 0) (v : Vigil) :
    (Patient.pause ms : StateM Vigil Unit).run v = ((), v.paused ms) := by
  rw [paused, if_neg h]
  rfl

end Vigil

namespace RetryPolicy

variable {α : Type} {p : RetryPolicy} {text : String} {outcome : Nat → Except StoreError α}
  {spent : Nat → Nat}

/-- No attempt follows this one, if it is made: it succeeds, or its failure is not a passing one, or
it is the last one allowed. -/
def Closes (p : RetryPolicy) (outcome : Nat → Except StoreError α) (number : Nat) : Prop :=
  (∃ a, outcome number = .ok a) ∨ (∃ e, outcome number = .error e ∧ p.isPassing e = false) ∨
    number = p.maxAttempts

/-- When so many attempts have been made, and the pause after each of them. -/
def timeAfter (p : RetryPolicy) (spent : Nat → Nat) (start : Nat) : Nat → Nat
  | 0 => start
  | n + 1 => p.timeAfter spent start n + spent (n + 1) + p.delayAfter (n + 1)

/-- There is time for an attempt when those before it have been made. -/
def HasTime (p : RetryPolicy) (spent : Nat → Nat) (deadline : Deadline)
    (start number : Nat) : Bool :=
  !deadline.isPast (p.timeAfter spent start (number - 1))

/-- What happens at an attempt, and before the next one if one follows. -/
def round (p : RetryPolicy) (spent : Nat → Nat) (start last number : Nat) : List RetryEvent :=
  .attempt number (p.timeAfter spent start (number - 1)) ::
    if number < last ∧ p.delayAfter number ≠ 0 then [.pause (p.delayAfter number)] else []

/-- What happens after so many attempts, up to the last one: of the attempts that are left, those
are made for which there is time. -/
def rounds (p : RetryPolicy) (spent : Nat → Nat) (deadline : Deadline) (start last made : Nat) :
    List RetryEvent :=
  ((List.range' (made + 1) (last - made)).filter (p.HasTime spent deadline start)).flatMap
    (p.round spent start last)

theorem timeAfter_mono (p : RetryPolicy) (spent : Nat → Nat) (start : Nat) {m n : Nat}
    (h : m ≤ n) : p.timeAfter spent start m ≤ p.timeAfter spent start n := by
  induction n with
  | zero =>
      obtain rfl : m = 0 := by omega
      exact Nat.le_refl _
  | succ n ih =>
      rcases Nat.lt_or_eq_of_le h with hlt | rfl
      · have hstep : p.timeAfter spent start n ≤ p.timeAfter spent start (n + 1) := by
          simp only [timeAfter]
          omega
        exact (ih (by omega)).trans hstep
      · exact Nat.le_refl _

/-- One turn of the loop. -/
theorem runFrom_eq (p : RetryPolicy) (text : String) (outcome : Nat → Except StoreError α)
    (spent : Nat → Nat) (number : Nat) (v : Vigil) :
    (p.runFrom text (Vigil.attempt outcome spent) number).run v =
      if v.deadline.isPast v.now then (.error (.statement text .deadlineExceeded), v)
      else
        match outcome number with
        | .ok a => (.ok a, v.attempted number (spent number))
        | .error e =>
            if p.shouldRetry e number then
              (p.runFrom text (Vigil.attempt outcome spent) (number + 1)).run
                ((v.attempted number (spent number)).paused (p.delayAfter number))
            else (.error (e.withStatement text), v.attempted number (spent number)) := by
  rw [runFrom, Vigil.run_bind, Vigil.run_expired]
  cases v.deadline.isPast v.now with
  | true => rfl
  | false =>
      simp only [Bool.false_eq_true, if_false, Vigil.run_bind, Vigil.run_attempt]
      cases outcome number with
      | ok a => rfl
      | error e =>
          by_cases hagain : p.shouldRetry e number = true
          · simp only [hagain, dite_true, if_true]
            by_cases hdelay : p.delayAfter number = 0
            · simp only [hdelay, if_true, Vigil.paused]
            · simp only [hdelay, if_false, Vigil.run_bind, Vigil.run_pause hdelay]
          · simp only [hagain, dite_false, Bool.false_eq_true, if_false]
            rfl

/-- Once there is no time for an attempt, there is none for any later one. -/
theorem rounds_of_past {deadline : Deadline} {start made : Nat} (last : Nat)
    (h : deadline.isPast (p.timeAfter spent start made) = true) :
    p.rounds spent deadline start last made = [] := by
  have hlate : ∀ number ∈ List.range' (made + 1) (last - made),
      ¬ p.HasTime spent deadline start number = true := by
    intro number hnumber
    have hmade : made ≤ number - 1 := by
      rw [List.mem_range'_1] at hnumber
      omega
    have hpast := Deadline.isPast_mono (p.timeAfter_mono spent start hmade) h
    simp [HasTime, hpast]
  rw [rounds, List.filter_eq_nil_iff.2 hlate, List.flatMap_nil]

theorem rounds_of_time {deadline : Deadline} {start last made : Nat}
    (h : deadline.isPast (p.timeAfter spent start made) = false) (hmade : made < last) :
    p.rounds spent deadline start last made =
      p.round spent start last (made + 1) ++ p.rounds spent deadline start last (made + 1) := by
  obtain ⟨left, rfl⟩ := Nat.exists_eq_add_of_lt hmade
  have hleft : made + left + 1 - made = left + 1 := by omega
  have hleft' : made + left + 1 - (made + 1) = left := by omega
  have htime : p.HasTime spent deadline start (made + 1) = true := by
    simp [HasTime, h]
  rw [rounds, rounds, hleft, hleft', List.range'_succ, List.filter_cons_of_pos htime,
    List.flatMap_cons]

/-- An attempt that does not close the loop fails, and is followed by another one. -/
theorem shouldRetry_of_not_closes {number : Nat} (h : ¬ p.Closes outcome number)
    (hless : number < p.maxAttempts) :
    ∃ e, outcome number = .error e ∧ p.shouldRetry e number = true := by
  cases hresult : outcome number with
  | ok a => exact absurd (Or.inl ⟨a, hresult⟩) h
  | error e =>
      refine ⟨e, rfl, ?_⟩
      cases hpassing : p.isPassing e with
      | true => simp [shouldRetry, hless, hpassing]
      | false => exact absurd (Or.inr (Or.inl ⟨e, hresult, hpassing⟩)) h

/-- After a failure that closes the loop there is no other attempt. -/
theorem shouldRetry_of_closes {number : Nat} {e : StoreError} (h : p.Closes outcome number)
    (he : outcome number = .error e) : p.shouldRetry e number = false := by
  rcases h with ⟨a, ha⟩ | ⟨e', he', hpassing⟩ | rfl
  · rw [he] at ha
    cases ha
  · rw [he] at he'
    cases he'
    simp [shouldRetry, hpassing]
  · simp [shouldRetry]

/-- What the loop comes to when an attempt closes it: if there is time for the attempt its value, or
its failure with the statement, and otherwise that the time is over. -/
structure Concludes (p : RetryPolicy) (text : String) (outcome : Nat → Except StoreError α)
    (spent : Nat → Nat) (deadline : Deadline) (start last : Nat) (result : Except StoreError α) :
    Prop where
  value : p.HasTime spent deadline start last = true → ∀ a, outcome last = .ok a → result = .ok a
  failure : p.HasTime spent deadline start last = true → ∀ e, outcome last = .error e →
    ∃ reported, result = .error reported ∧ e.ReportedWith text reported
  late : p.HasTime spent deadline start last = false →
    result = .error (.statement text .deadlineExceeded)

theorem Concludes.of_past {deadline : Deadline} {start last : Nat}
    (h : deadline.isPast (p.timeAfter spent start (last - 1)) = true) :
    p.Concludes text outcome spent deadline start last
      (.error (.statement text .deadlineExceeded)) := by
  have hlate : p.HasTime spent deadline start last = false := by simp [HasTime, h]
  have hnot : p.HasTime spent deadline start last ≠ true := by simp [hlate]
  exact ⟨fun h => absurd h hnot, fun h => absurd h hnot, fun _ => rfl⟩

theorem Concludes.of_time {deadline : Deadline} {start last : Nat}
    (h : deadline.isPast (p.timeAfter spent start (last - 1)) = false) :
    p.Concludes text outcome spent deadline start last
      ((outcome last).mapError (·.withStatement text)) := by
  have htime : p.HasTime spent deadline start last = true := by simp [HasTime, h]
  refine ⟨fun _ a ha => by rw [ha]; rfl, fun _ e he => ?_, fun h => absurd htime (by simp [h])⟩
  rw [he]
  exact ⟨e.withStatement text, rfl, e.reportedWith_withStatement text⟩

/-- The loop after so many attempts. -/
theorem runFrom_rounds {deadline : Deadline} {start last : Nat}
    (hlast : p.Closes outcome last) (hbound : last ≤ p.maxAttempts) (left made : Nat)
    (hleft : made + left + 1 = last)
    (hopen : ∀ number, made < number → number < last → ¬ p.Closes outcome number)
    (events : List RetryEvent) :
    let r := (p.runFrom text (Vigil.attempt outcome spent) (made + 1)).run
      ⟨deadline, p.timeAfter spent start made, events⟩
    p.Concludes text outcome spent deadline start last r.1 ∧
      r.2.events = events ++ p.rounds spent deadline start last made := by
  -- by induction on the number of attempts between this one and the last one
  induction left generalizing made events with
  | zero =>
      obtain rfl : last = made + 1 := hleft.symm
      rw [runFrom_eq]
      cases hpast : deadline.isPast (p.timeAfter spent start made) with
      | true =>
          rw [rounds_of_past _ hpast, List.append_nil]
          exact ⟨.of_past hpast, rfl⟩
      | false =>
          have hround : p.round spent start (made + 1) (made + 1) =
              [.attempt (made + 1) (p.timeAfter spent start made)] := by simp [round]
          have hvalue : p.Concludes text outcome spent deadline start (made + 1) _ := .of_time hpast
          rw [rounds_of_time hpast (Nat.lt_succ_self made), rounds, Nat.sub_self, hround]
          cases hresult : outcome (made + 1) with
          | ok a =>
              rw [hresult] at hvalue
              exact ⟨hvalue, rfl⟩
          | error e =>
              rw [hresult] at hvalue
              simp only [shouldRetry_of_closes hlast hresult, Bool.false_eq_true, if_false]
              exact ⟨hvalue, rfl⟩
  | succ left ih =>
      rw [runFrom_eq]
      cases hpast : deadline.isPast (p.timeAfter spent start made) with
      | true =>
          have hmade : made ≤ last - 1 := by omega
          rw [rounds_of_past _ hpast, List.append_nil]
          exact ⟨.of_past (Deadline.isPast_mono (p.timeAfter_mono spent start hmade) hpast), rfl⟩
      | false =>
          obtain ⟨e, hresult, hagain⟩ := shouldRetry_of_not_closes
            (hopen (made + 1) (Nat.lt_succ_self made) (by omega)) (by omega)
          have hvigil : ((Vigil.mk deadline (p.timeAfter spent start made) events).attempted
              (made + 1) (spent (made + 1))).paused (p.delayAfter (made + 1)) =
                ⟨deadline, p.timeAfter spent start (made + 1),
                  events ++ p.round spent start last (made + 1)⟩ := by
            have hless : made + 1 < last := by omega
            rw [Vigil.paused_eq]
            simp [Vigil.attempted, round, hless, timeAfter]
          rw [rounds_of_time hpast (by omega), ← List.append_assoc, if_neg Bool.false_ne_true]
          simp only [hresult, hagain, if_true, hvigil]
          exact ih (made + 1) (by omega) (fun number hmade => hopen number (by omega)) _

/-- The attempt that closes the loop is the first one that does. -/
theorem exists_closing (p : RetryPolicy) (outcome : Nat → Except StoreError α) :
    ∃ last, IsLeast {number | 0 < number ∧ p.Closes outcome number} last ∧
      last ≤ p.maxAttempts := by
  classical
  have hclosing : ∃ number, 0 < number ∧ p.Closes outcome number :=
    ⟨p.maxAttempts, p.maxAttempts_pos, Or.inr (Or.inr rfl)⟩
  refine ⟨Nat.find hclosing, ⟨Nat.find_spec hclosing, fun number h => Nat.find_min' hclosing h⟩, ?_⟩
  exact Nat.find_min' hclosing ⟨p.maxAttempts_pos, Or.inr (Or.inr rfl)⟩

end RetryPolicy

/-! ## Pauses in machine words -/

/-- A span of time as a machine holds it, with its seconds in 64 bits. -/
structure Span where
  nanoseconds : Nat
  bounded : nanoseconds ≤ Limit.nat64Max * 1000000000 + 999999999

namespace Span

/-- The longest span. -/
def longest : Span := ⟨Limit.nat64Max * 1000000000 + 999999999, Nat.le_refl _⟩

theorem millis_bounded (ms : UInt64) :
    ms.toNat * 1000000 ≤ Limit.nat64Max * 1000000000 + 999999999 := by
  have hms := ms.toNat_lt
  simp only [Limit.nat64Max]
  omega

def ofMillis (ms : UInt64) : Span := ⟨ms.toNat * 1000000, millis_bounded ms⟩

/-- A multiple of a span, or the longest span where the multiple is longer. -/
def times (d : Span) (k : UInt32) : Span :=
  ⟨min (d.nanoseconds * k.toNat) longest.nanoseconds, Nat.min_le_right _ _⟩

end Span

/-- A word shifted to the left, if it has so many bits. -/
def shiftLeft? (x bits : UInt32) : Option UInt32 := if bits < 32 then some (x <<< bits) else none

/-- The pause after an attempt in machine words, if no shift is too far: the first pause doubled up
to sixteen times, and five seconds at most. -/
def pauseInWords? (backoff : UInt64) (attempt : UInt32) : Option Nat :=
  (shiftLeft? 1 (min (if attempt = 0 then 0 else attempt - 1) 16)).map fun factor =>
    min ((Span.ofMillis backoff).times factor).nanoseconds (Span.ofMillis 5000).nanoseconds

theorem toNat_pred (attempt : UInt32) :
    (if attempt = 0 then 0 else attempt - 1 : UInt32).toNat = attempt.toNat - 1 := by
  split
  · rename_i h
    simp [h]
  · rename_i h
    have hpos : 1 ≤ attempt.toNat := by
      rcases Nat.eq_zero_or_pos attempt.toNat with hzero | hpos
      · exact absurd (UInt32.toNat_inj.1 hzero) h
      · exact hpos
    exact UInt32.toNat_sub_of_le _ _ (UInt32.le_iff_toNat_le.2 hpos)

/-- A power of two up to the sixteenth is one shifted to the left. -/
theorem toNat_shiftLeft_one {bits : UInt32} (h : bits.toNat ≤ 16) :
    ((1 : UInt32) <<< bits).toNat = 2 ^ bits.toNat := by
  have hpower : 2 ^ bits.toNat ≤ 2 ^ 16 := Nat.pow_le_pow_right (by omega) h
  have hbits : bits.toNat % 32 = bits.toNat := Nat.mod_eq_of_lt (by omega)
  rw [UInt32.toNat_shiftLeft, hbits, UInt32.toNat_one, Nat.shiftLeft_eq, Nat.one_mul]
  exact Nat.mod_eq_of_lt (by omega)

/-- No shift is too far, and where a product is too long for a span it is longer than the longest
pause anyway. -/
theorem pauseInWords?_eq (p : RetryPolicy) {backoff : UInt64} (h : p.backoff = backoff.toNat)
    (attempt : UInt32) :
    pauseInWords? backoff attempt = some (p.delayAfter attempt.toNat * 1000000) := by
  generalize hbits : min (if attempt = 0 then 0 else attempt - 1 : UInt32) 16 = bits
  have hvalue : bits.toNat = min (attempt.toNat - 1) 16 := by
    rw [← hbits, UInt32.toNat_min, toNat_pred]
    rfl
  have hshift : shiftLeft? 1 bits = some (1 <<< bits) := by
    have hless : bits < 32 := UInt32.lt_iff_toNat_lt.2 (by
      show bits.toNat < 32
      omega)
    rw [shiftLeft?, if_pos hless]
  rw [pauseInWords?, hbits, hshift, Option.map_some, Option.some.injEq, RetryPolicy.delayAfter]
  show min (min (backoff.toNat * 1000000 * ((1 : UInt32) <<< bits).toNat) Span.longest.nanoseconds)
    (5000 * 1000000) = min (p.backoff * 2 ^ min (attempt.toNat - 1) 16) 5000 * 1000000
  have hlong : 5000 * 1000000 ≤ Span.longest.nanoseconds := by decide
  rw [toNat_shiftLeft_one (by omega), hvalue, h, Nat.min_assoc, Nat.min_eq_right hlong,
    Nat.mul_right_comm, Nat.mul_min_mul_right]

namespace RetryPolicy

/-- A policy is followed exactly: the attempts up to the first one that closes the loop are made as
long as there is time, with the pauses between them, and the loop comes to what that attempt comes
to. -/
structure Followed {α : Type} (p : RetryPolicy) (text : String)
    (outcome : Nat → Except StoreError α) (spent : Nat → Nat) (deadline : Deadline)
    (start last : Nat) (result : Except StoreError α) (events : List RetryEvent) : Prop where
  closing : IsLeast {number | 0 < number ∧ p.Closes outcome number} last
  bounded : last ≤ p.maxAttempts
  events_eq : events = p.rounds spent deadline start last 0
  begun : ∀ number time, .attempt number time ∈ events →
    number ≤ last ∧ deadline.isPast time = false
  concludes : p.Concludes text outcome spent deadline start last result

theorem begun_of_mem_rounds {p : RetryPolicy} {spent : Nat → Nat} {deadline : Deadline}
    {start last number time : Nat}
    (h : .attempt number time ∈ p.rounds spent deadline start last 0) :
    number ≤ last ∧ deadline.isPast time = false := by
  obtain ⟨n, hn, hround⟩ := List.mem_flatMap.1 h
  obtain ⟨hrange, htime⟩ := List.mem_filter.1 hn
  rw [List.mem_range'_1] at hrange
  -- the only attempt of a round is the one it is of
  have hattempt : number = n ∧ time = p.timeAfter spent start (n - 1) := by
    rw [round, List.mem_cons] at hround
    rcases hround with heq | hpause
    · exact RetryEvent.attempt.inj heq
    · split at hpause <;> simp at hpause
  obtain ⟨rfl, rfl⟩ := hattempt
  exact ⟨by omega, by simpa [HasTime] using htime⟩

/-- Every policy is followed exactly, whatever its limits and its classifier are, what the attempts
come to and how long they take, and whether and when a deadline passes.  Neither the numbers of the
attempts nor the pauses are too large for machine words. -/
theorem run_exact {α : Type} (maxAttempts : UInt32) (backoff : UInt64)
    (isPassing : StoreError → Bool) (text : String) (outcome : Nat → Except StoreError α)
    (spent : Nat → Nat) (deadline : Deadline) (start : Nat) :
    let p : RetryPolicy := { RetryPolicy.of maxAttempts.toNat backoff.toNat with isPassing }
    let r := (p.run text (Vigil.attempt outcome spent)).run ⟨deadline, start, []⟩
    (∃ last, p.Followed text outcome spent deadline start last r.1 r.2.events) ∧
      p.maxAttempts = max 1 maxAttempts.toNat ∧ p.maxAttempts ≤ Limit.nat32Max ∧
      ∀ attempt : UInt32, p.delayAfter attempt.toNat =
          min (backoff.toNat * 2 ^ min (attempt.toNat - 1) 16) 5000 ∧
        pauseInWords? backoff attempt = some (p.delayAfter attempt.toNat * 1000000) := by
  intro p r
  obtain ⟨last, hleast, hbound⟩ := p.exists_closing outcome
  have hpos : 0 < last := hleast.1.1
  have hopen : ∀ number, 0 < number → number < last → ¬ p.Closes outcome number := by
    intro number hnumber hless hcloses
    exact absurd (hleast.2 ⟨hnumber, hcloses⟩) (Nat.not_le.2 hless)
  obtain ⟨hresult, hevents⟩ : p.Concludes text outcome spent deadline start last r.1 ∧
      r.2.events = [] ++ p.rounds spent deadline start last 0 :=
    runFrom_rounds hleast.1.2 hbound (last - 1) 0 (by omega) hopen []
  rw [List.nil_append] at hevents
  have hwords : p.maxAttempts = max 1 maxAttempts.toNat := Nat.max_comm _ _
  have hlimit := maxAttempts.toNat_lt
  refine ⟨⟨last, hleast, hbound, hevents, fun number time h => ?_, hresult⟩, hwords, ?_,
    fun attempt => ⟨rfl, pauseInWords?_eq p rfl attempt⟩⟩
  · have hmem : .attempt number time ∈ p.rounds spent deadline start last 0 := hevents ▸ h
    exact begun_of_mem_rounds hmem
  · rw [hwords, Limit.nat32Max]
    omega

end RetryPolicy
end InstanceHierarchy
