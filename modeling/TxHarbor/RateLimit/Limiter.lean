import TxHarbor.Transition.Run

open Transition

namespace TxHarbor.RateLimit

/-! The token bucket of one class of `internal/ratelimit`, which every process shares. Times are in milliseconds. -/

/-- `ClassConfig`, as `NewLimiter` takes it. -/
structure ClassConfig where
  ratePerSecond : Nat
  burst : Nat
  rate_pos : 0 < ratePerSecond
  burst_pos : 0 < burst

/-- The limiter of one class. `bucketTTL` is in nanoseconds. -/
structure Limiter extends ClassConfig where
  bucketTTL : Nat
  ttl_pos : 0 < bucketTTL

/-- The hash at the class key, and when Redis deletes it. -/
structure Bucket where
  tokens : ℚ
  ts : ℤ
  expires : ℚ
  nonneg : 0 ≤ tokens

/-- One `Allow`: when its script runs, what the clock of its process shows, whether the process is `Recovering` or
`Unavailable`, and whether the result arrives. -/
structure Call where
  time : ℚ
  clock : ℚ
  reduced : Bool
  answered : Bool

structure Decision where
  allowed : Bool
  remaining : ℤ
  retryAfter : ℤ

/-- The tokens that the script finds. -/
def refilled (rate burst : Nat) (now : ℤ) (data : Option Bucket) : ℚ :=
  let delta : ℚ := max 0 (now - (data.map (·.ts)).getD now) / 1000
  min (burst : ℚ) ((data.map (·.tokens)).getD (burst : ℚ) + delta * rate)

theorem refilled_nonneg (rate burst : Nat) (now : ℤ) (data : Option Bucket) : 0 ≤ refilled rate burst now data := by
  refine le_min (Nat.cast_nonneg _) (add_nonneg ?_ (by positivity))
  cases data with
  | none => exact Nat.cast_nonneg _
  | some b => exact b.nonneg

/-- The tokens that it leaves; the cost is one. -/
def left (tokens : ℚ) : ℚ := if 1 ≤ tokens then tokens - 1 else tokens

theorem left_nonneg {tokens : ℚ} (h : 0 ≤ tokens) : 0 ≤ left tokens := by
  unfold left
  split
  next hone => exact sub_nonneg.mpr hone
  · exact h

def tokenBucketScript (rate burst : Nat) (now : ℤ) (ttl : Nat) (time : ℚ) (data : Option Bucket) : Decision × Bucket :=
  let tokens := refilled rate burst now data
  let retry := if 1 ≤ tokens then 0 else ⌈(1 - tokens) / rate * 1000⌉
  (⟨decide (1 ≤ tokens), ⌊left tokens⌋, retry⟩, ⟨left tokens, now, time + ttl, left_nonneg (refilled_nonneg ..)⟩)

namespace Call

/-- `UnixMilli`. -/
def now (c : Call) : ℤ := ⌊c.clock⌋

/-- The graded reopening after an outage. -/
def scaled (c : Call) (n : Nat) : Nat := if c.reduced then max 1 (n / 2) else n

/-- Redis deletes the key when its time runs out. -/
def data (c : Call) (stored : Option Bucket) : Option Bucket := stored.filter fun b => c.time < b.expires

theorem scaled_le (c : Call) {n : Nat} (h : 0 < n) : (c.scaled n : ℚ) ≤ n := by
  unfold scaled
  split
  · exact Nat.cast_le.mpr (max_le h (Nat.div_le_self n 2))
  · exact le_rfl

end Call

namespace Limiter

variable (l : Limiter) (stored : Option Bucket) (c : Call)

def ttl : Nat := l.bucketTTL / 1000000

def allow : Decision × Bucket :=
  tokenBucketScript (c.scaled l.ratePerSecond) (c.scaled l.burst) c.now l.ttl c.time (c.data stored)

def next : Option Bucket := some (l.allow stored c).2

/-- The call returns an allowed decision. -/
def Allows : Prop := (l.allow stored c).1.allowed = true ∧ c.answered = true

instance : Decidable (l.Allows stored c) := inferInstanceAs (Decidable (_ ∧ _))

/-- What the script of a call finds. -/
def available : ℚ := refilled (c.scaled l.ratePerSecond) (c.scaled l.burst) c.now (c.data stored)

/-- The tokens that come in between two readings. -/
def gain (x y : ℚ) : ℚ := l.ratePerSecond * (y - x) / 1000

/-- The second of two calls reads no earlier clock, and late enough for a full bucket if the key has run out. -/
def Ordered (c c' : Call) : Prop :=
  c.now ≤ c'.now ∧ (c.time + l.ttl ≤ c'.time → (l.burst : ℚ) ≤ l.gain c.now c'.now)

variable {l c} {c' : Call} {calls : List Call}

theorem gain_nonneg {x y : ℚ} (h : x ≤ y) : 0 ≤ l.gain x y := by
  have := sub_nonneg.mpr h
  unfold gain
  positivity

theorem available_le_burst : l.available stored c ≤ l.burst :=
  (min_le_left _ _).trans (c.scaled_le l.burst_pos)

/-- A call counts no more than the token it takes. -/
theorem counted_le : ((if l.Allows stored c then 1 else 0 : Nat) : ℚ) + (l.allow stored c).2.tokens ≤ l.available stored c := by
  change _ + left (l.available stored c) ≤ _
  by_cases h : 1 ≤ l.available stored c
  · rw [left, if_pos h]
    split <;> simp
  · rw [left, if_neg h, if_neg fun ha => h (of_decide_eq_true ha.1)]
    simp

/-- Between two calls no more comes in than the rate says. -/
theorem available_next_le (h : l.Ordered c c') :
    l.available (l.next stored c) c' ≤ (l.allow stored c).2.tokens + l.gain c.now c'.now := by
  by_cases hlive : c'.time < c.time + l.ttl
  · have hdata : c'.data (l.next stored c) = l.next stored c := Option.filter_eq_some_iff.mpr ⟨rfl, decide_eq_true hlive⟩
    have hgain := mul_le_mul_of_nonneg_right (c'.scaled_le l.rate_pos)
      (sub_nonneg.mpr (Int.cast_le (R := ℚ) |>.mpr h.1))
    rw [available, hdata]
    refine (min_le_right _ _).trans ?_
    change (l.allow stored c).2.tokens + (max 0 (c'.now - c.now) : ℤ) / 1000 * _ ≤ _ + l.ratePerSecond * (c'.now - c.now : ℚ) / 1000
    rw [max_eq_right (Int.sub_nonneg_of_le h.1), Int.cast_sub]
    linarith
  · exact (available_le_burst _).trans ((h.2 (not_lt.mp hlive)).trans (le_add_of_nonneg_left (l.allow stored c).2.nonneg))

/-- What the calls up to the reading `m` can still take from the bucket that a call leaves behind. -/
theorem tally_next_le {m : ℚ} (hordered : (c :: calls).Pairwise l.Ordered) (hm : ∀ c' ∈ c :: calls, (c'.now : ℚ) ≤ m) :
    (tally l.next l.Allows (l.next stored c) calls : ℚ) ≤ (l.allow stored c).2.tokens + l.gain c.now m := by
  induction calls generalizing stored c with
  | nil => exact Nat.cast_zero.trans_le (add_nonneg (l.allow stored c).2.nonneg (gain_nonneg (hm c (.head _))))
  | cons c' calls ih =>
    obtain ⟨hfirst, hrest⟩ := List.pairwise_cons.mp hordered
    have htail := ih (l.next stored c) hrest fun x hx => hm x (.tail _ hx)
    have hcount := l.counted_le (l.next stored c) (c := c')
    have hfound := available_next_le stored (hfirst c' (.head _))
    have hgain : l.gain c.now c'.now + l.gain c'.now m = l.gain c.now m := by unfold gain; ring
    rw [tally, Nat.cast_add]
    linarith

end Limiter

/-- Of the calls in a window of `W` seconds no more are allowed than the burst and what comes in meanwhile, if no later
script reads an earlier clock, the readings are off by at most `d` seconds, and the key outlives the time a bucket needs to
fill. -/
theorem allowed_le_bound (l : Limiter) (before calls : List Call) (d W since : ℚ) (hd : 0 ≤ d) (hW : 0 ≤ W)
    (hcalls : ∀ c ∈ calls, since ≤ c.time ∧ c.time ≤ since + 1000 * W)
    (hskew : ∀ c ∈ calls, |(c.now : ℚ) - c.time| ≤ 1000 * d) (hclocks : calls.Pairwise (·.now ≤ ·.now))
    (httl : 1000 * l.burst ≤ l.ratePerSecond * (l.ttl - 2000 * d)) :
    tally l.next l.Allows (run l.next none before) calls ≤ l.burst + l.ratePerSecond * (W + 2 * d) := by
  have hordered : calls.Pairwise l.Ordered := by
    refine hclocks.imp_of_mem fun {c c'} hc hc' h => ⟨h, fun hgone => ?_⟩
    have helapsed : (l.ttl : ℚ) - 2000 * d ≤ c'.now - c.now := by
      linarith [(abs_le.mp (hskew c hc)).2, (abs_le.mp (hskew c' hc')).1]
    have := mul_le_mul_of_nonneg_left helapsed (Nat.cast_nonneg (α := ℚ) l.ratePerSecond)
    unfold Limiter.gain
    linarith
  cases calls with
  | nil =>
    rw [tally, Nat.cast_zero]
    positivity
  | cons c calls =>
    have hm : ∀ x ∈ c :: calls, (x.now : ℚ) ≤ since + 1000 * (W + d) := fun x hx => by
      linarith [(abs_le.mp (hskew x hx)).2, (hcalls x hx).2]
    have hfirst : since - 1000 * d ≤ c.now := by
      linarith [(abs_le.mp (hskew c (.head _))).1, (hcalls c (.head _)).1]
    have htail := Limiter.tally_next_le (run l.next none before) hordered hm
    have hcount := l.counted_le (run l.next none before) (c := c)
    have hopen := l.available_le_burst (run l.next none before) (c := c)
    have hgain := l.gain_nonneg hfirst
    unfold Limiter.gain at htail hgain
    rw [tally, Nat.cast_add]
    linarith

/-- One token a second and a burst of three. -/
def Limiter.sample (seconds : Nat) : Limiter :=
  ⟨⟨1, 3, Nat.one_pos, Nat.zero_lt_succ 2⟩, (seconds + 1) * 1000000000, Nat.mul_pos seconds.succ_pos (Nat.zero_lt_succ _)⟩

def Call.sample (time : ℚ) : Call := ⟨time, time, false, true⟩

/-- With three seconds to live the key keeps the bound, and a full burst with one refill reaches it. -/
theorem allowed_le_bound_three :
    let l : Limiter := .sample 2
    let calls := [.sample 0, .sample 0, .sample 0, .sample 0, .sample 1000]
    tally l.next l.Allows none calls = 4 ∧
      (tally l.next l.Allows none calls : ℚ) ≤ l.burst + l.ratePerSecond * (1 + 2 * 0) := by
  intro l calls
  refine ⟨by decide +kernel, ?_⟩
  exact allowed_le_bound l [] calls 0 1 0 le_rfl zero_le_one (by decide +kernel) (by decide +kernel)
    (by decide +kernel) (by decide +kernel)

/-- With the default of two seconds a burst is forgotten before the bucket has filled again. -/
theorem forgotten_burst :
    let l : Limiter := .sample 1
    (l.burst + l.ratePerSecond * (2 + 2 * 0) : ℚ) <
      tally l.next l.Allows none ([0, 0, 0, 2000, 2000, 2000].map Call.sample) := by
  decide +kernel

end TxHarbor.RateLimit
