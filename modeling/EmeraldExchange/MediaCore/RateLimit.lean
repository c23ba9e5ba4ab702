import Mathlib.Algebra.Order.Group.Nat
import Mathlib.Algebra.Order.Ring.Nat
import EmeraldExchange.Lib.Table

/-!
# Token buckets

`RateLimiter` in `crates/media-core/src/rate_limit.rs`: a bucket for each key, with tokens that come
back at whole intervals. The refill is lazy. It counts the intervals that have passed in whole
milliseconds, forgets what is left of the last one, and keeps 32 bits of the count.

A key's calls see its own bucket only (`answersOf_runCalls`),
so what is proved about one bucket (`runBucket`) holds of the
limiter. From a bucket no more calls are accepted than it has tokens and the intervals to come will
bring (`accepted_le`), as long as the count is no more than the
intervals.

Times and durations are nanoseconds.
-/

namespace EmeraldExchange.MediaCore.RateLimit

/-! ### Integers of the machine -/

def milli : ℕ := 1000000

/-- `as_millis` -/
def asMillis (d : ℕ) : ℕ := d / milli

/-- `as u32` -/
def asU32 (n : ℕ) : ℕ := n % 2 ^ 32

/-- `as u64` -/
def asU64 (n : ℕ) : ℕ := n % 2 ^ 64

/-- `u32::MAX` -/
def maxU32 : ℕ := 2 ^ 32 - 1

/-- `saturating_add` -/
def saturatingAdd (a b : ℕ) : ℕ := min (a + b) maxU32

/-- `saturating_mul` -/
def saturatingMul (a b : ℕ) : ℕ := min (a * b) maxU32

/-! ### The limiter -/

/-- **A limiter**, without its buckets. -/
structure RateLimiter where
  capacity : ℕ
  refill : ℕ
  interval : ℕ
  capacity_le : capacity ≤ maxU32
  refill_le : refill ≤ maxU32

/-- The tokens of a key, and the time they were last refilled. -/
structure Bucket where
  tokens : ℕ
  last : ℕ
  deriving DecidableEq

variable (l : RateLimiter)

/-- The bucket of a key, which is full where there is none. -/
def bucketAt (b : Option Bucket) (now : ℕ) : Bucket := b.getD ⟨l.capacity, now⟩

def refills (elapsed : ℕ) : ℕ := asU32 (asMillis elapsed / max (asMillis l.interval) 1)

/-- The bucket after a refill, if it is time for one. -/
def refilled (b : Bucket) (now : ℕ) : Bucket :=
  if l.interval ≤ now - b.last then
    ⟨min l.capacity (saturatingAdd b.tokens (saturatingMul (refills l (now - b.last)) l.refill)),
      now⟩
  else b

def retryMs (b : Bucket) (now : ℕ) : ℕ := asU64 (asMillis (l.interval - (now - b.last)))

/-- A call on a bucket: the answer, and the bucket after it. -/
def takeFrom (b : Option Bucket) (now : ℕ) : Except ℕ Unit × Bucket :=
  let b := refilled l (bucketAt l b now) now
  if b.tokens = 0 then (.error (retryMs l b now), b) else (.ok (), { b with tokens := b.tokens - 1 })

/-- **`take`** -/
def take (key : String) (now : ℕ) (buckets : Table String Bucket) :
    Except ℕ Unit × Table String Bucket :=
  let (answer, b) := takeFrom l (buckets.lookup key) now
  (answer, buckets.insert key b)

/-! ### Calls one after another -/

/-- A call of `take`. -/
structure Call where
  key : String
  at' : ℕ
  deriving DecidableEq

def runCalls : Table String Bucket → List Call → List (Call × Except ℕ Unit)
  | _, [] => []
  | buckets, c :: calls =>
    let (answer, buckets) := take l c.key c.at' buckets
    (c, answer) :: runCalls buckets calls

/-- The times of the calls on a key, with the answers. -/
def answersOf (key : String) (answered : List (Call × Except ℕ Unit)) :
    List (ℕ × Except ℕ Unit) :=
  (answered.filter (·.1.key = key)).map fun r => (r.1.at', r.2)

/-- The calls on one bucket, with their answers. -/
def runBucket : Option Bucket → List ℕ → List (ℕ × Except ℕ Unit)
  | _, [] => []
  | b, now :: times =>
    let (answer, b) := takeFrom l b now
    (now, answer) :: runBucket (some b) times

def timesOf (key : String) (calls : List Call) : List ℕ :=
  (calls.filter (·.key = key)).map Call.at'

/-- **A key's calls see its own bucket only.** -/
theorem answersOf_runCalls (key : String) : ∀ (calls : List Call) (buckets : Table String Bucket),
    answersOf key (runCalls l buckets calls) =
      runBucket l (buckets.lookup key) (timesOf key calls)
  | [], _ => rfl
  | c :: calls, buckets => by
    have ih := answersOf_runCalls key calls (take l c.key c.at' buckets).2
    by_cases hkey : c.key = key
    · subst hkey
      have hlookup : (take l c.key c.at' buckets).2.lookup c.key =
          some (takeFrom l (buckets.lookup c.key) c.at').2 := AList.lookup_insert _
      rw [hlookup] at ih
      simpa [answersOf, timesOf, runCalls, runBucket, take] using ih
    · have hlookup : (take l c.key c.at' buckets).2.lookup key = buckets.lookup key :=
        AList.lookup_insert_ne (Ne.symm hkey)
      rw [hlookup] at ih
      simpa [answersOf, timesOf, runCalls, hkey] using ih

/-! ### What is expected of it -/

def accepted (first last : ℕ) (answered : List (ℕ × Except ℕ Unit)) : ℕ :=
  answered.countP fun r => r.2.isOk && first ≤ r.1 && r.1 ≤ last

/-- What a call has to be answered, given the one before it on the same key. -/
def Follows (x y : ℕ × Except ℕ Unit) : Prop :=
  (x.1 + l.interval ≤ y.1 → y.2 = .ok ()) ∧
    ∀ r, x.2 = .error r → y.1 = x.1 + (r + 1) * milli → y.2 = .ok ()

/-- **A limiter keeps to its rate** for a key: no window has more calls accepted than the capacity
and the refills of its intervals, a call after an interval is accepted, and so is one after the time
that a refusal tells. -/
structure KeepsRate (answered : List (ℕ × Except ℕ Unit)) : Prop where
  window : ∀ first t, accepted first (first + t) answered ≤
    l.capacity + l.refill * (t / l.interval + 1)
  follows : answered.IsChain (Follows l)

/-- A limiter that is one, and calls in the order of time. -/
structure Proper (calls : List Call) : Prop where
  capacity_pos : 1 ≤ l.capacity
  refill_pos : 1 ≤ l.refill
  interval_le : milli ≤ l.interval
  sorted : calls.Pairwise fun c d => c.at' ≤ d.at'

/-! ### Where it does -/

/-- **What goes well in a call**: where it is time for a refill, some interval is counted if the
bucket is empty, and no more are counted than have passed, unless these fill the bucket; else, if
the bucket is empty, the time that is left has 64 bits. -/
structure Counts (b : Bucket) (now : ℕ) : Prop where
  some_interval : l.interval ≤ now - b.last → b.tokens = 0 → refills l (now - b.last) ≠ 0
  no_more : l.interval ≤ now - b.last →
    refills l (now - b.last) ≤ (now - b.last) / l.interval ∨
      l.capacity ≤ b.tokens + (now - b.last) / l.interval * l.refill
  hint : now - b.last < l.interval → b.tokens = 0 →
    asMillis (l.interval - (now - b.last)) < 2 ^ 64

def AllCount : Option Bucket → List ℕ → Prop
  | _, [] => True
  | b, now :: times =>
    Counts l (bucketAt l b now) now ∧ AllCount (some (takeFrom l b now).2) times

section rate

variable {l : RateLimiter} {b : Bucket} {now first e : ℕ}

theorem last_refilled_le (h : b.last ≤ now) : (refilled l b now).last ≤ now := by
  unfold refilled
  split
  · exact le_rfl
  · exact h

theorem tokens_refilled_le (h : b.tokens ≤ l.capacity) :
    (refilled l b now).tokens ≤ l.capacity := by
  unfold refilled
  split
  · exact min_le_left _ _
  · exact h

theorem takeFrom_cases (l : RateLimiter) (o : Option Bucket) (now : ℕ) :
    ((refilled l (bucketAt l o now) now).tokens = 0 ∧ takeFrom l o now =
        (.error (retryMs l (refilled l (bucketAt l o now) now) now),
          refilled l (bucketAt l o now) now)) ∨
      (0 < (refilled l (bucketAt l o now) now).tokens ∧ takeFrom l o now =
        (.ok (), { refilled l (bucketAt l o now) now with
          tokens := (refilled l (bucketAt l o now) now).tokens - 1 })) := by
  rcases Nat.eq_zero_or_pos (refilled l (bucketAt l o now) now).tokens with h | h
  · exact Or.inl ⟨h, if_pos h⟩
  · exact Or.inr ⟨h, if_neg h.ne'⟩

theorem last_takeFrom (l : RateLimiter) (o : Option Bucket) (now : ℕ) :
    (takeFrom l o now).2.last = (refilled l (bucketAt l o now) now).last := by
  rcases takeFrom_cases l o now with ⟨-, h⟩ | ⟨-, h⟩ <;> rw [h]

theorem tokens_takeFrom_le (o : Option Bucket) :
    (takeFrom l o now).2.tokens ≤ (refilled l (bucketAt l o now) now).tokens := by
  rcases takeFrom_cases l o now with ⟨-, h⟩ | ⟨-, h⟩ <;> rw [h]
  exact Nat.sub_le _ _

/-- **A refill brings no more than its intervals do**, so what may be accepted until `e` does not
grow by it. -/
theorem refilled_pays (hcount : Counts l b now) (hlast : b.last ≤ now) (he : now ≤ e) :
    (refilled l b now).tokens + l.refill * ((e - (refilled l b now).last) / l.interval) ≤
      b.tokens + l.refill * ((e - b.last) / l.interval) := by
  by_cases hdue : l.interval ≤ now - b.last
  · have htokens : min l.capacity (saturatingAdd b.tokens
        (saturatingMul (refills l (now - b.last)) l.refill)) ≤
        b.tokens + l.refill * ((now - b.last) / l.interval) := by
      rcases hcount.no_more hdue with hle | hfull
      · have hmul : refills l (now - b.last) * l.refill ≤
            l.refill * ((now - b.last) / l.interval) := by
          rw [Nat.mul_comm]
          exact Nat.mul_le_mul_left _ hle
        exact (min_le_right _ _).trans ((min_le_left _ _).trans
          (Nat.add_le_add_left ((min_le_left _ _).trans hmul) _))
      · rw [Nat.mul_comm]
        exact (min_le_left _ _).trans hfull
    -- the intervals before `now` and those after it are intervals before `e`
    have hdiv : (now - b.last) / l.interval + (e - now) / l.interval ≤
        (e - b.last) / l.interval := by
      have hsum : e - b.last = (now - b.last) + (e - now) := by omega
      rw [hsum]
      exact Nat.div_add_div_le_add_div
    rw [refilled, if_pos hdue]
    calc _ ≤ b.tokens + l.refill * ((now - b.last) / l.interval) +
          l.refill * ((e - now) / l.interval) := Nat.add_le_add_right htokens _
      _ = b.tokens + l.refill * ((now - b.last) / l.interval + (e - now) / l.interval) := by
        rw [Nat.mul_add, Nat.add_assoc]
      _ ≤ _ := Nat.add_le_add_left (Nat.mul_le_mul_left _ hdiv) _
  · rw [refilled, if_neg hdue]

theorem accepted_eq_zero : ∀ {times : List ℕ} {o : Option Bucket}, (∀ t ∈ times, e < t) →
    accepted first e (runBucket l o times) = 0
  | [], _, _ => rfl
  | now :: times, o, h => by
    have hnow := h now List.mem_cons_self
    have ih := accepted_eq_zero (o := some (takeFrom l o now).2)
      fun t ht => h t (List.mem_cons_of_mem now ht)
    rw [accepted] at ih ⊢
    rw [runBucket, List.countP_cons, ih]
    simp [Nat.not_le.mpr hnow]

/-- **One call**: it takes its token from the bucket that the rest has. -/
theorem accepted_cons_le {times : List ℕ} {o : Option Bucket} {n : ℕ}
    (h : accepted first e (runBucket l (some (takeFrom l o now).2) times) ≤
      (takeFrom l o now).2.tokens + n) :
    accepted first e (runBucket l o (now :: times)) ≤
      (refilled l (bucketAt l o now) now).tokens + n := by
  rw [accepted] at h ⊢
  rw [runBucket, List.countP_cons]
  rcases takeFrom_cases l o now with ⟨-, htake⟩ | ⟨hpos, htake⟩
  · rw [htake] at h ⊢
    exact h
  · rw [htake] at h ⊢
    dsimp only at h ⊢
    split <;> omega

/-- **No more calls are accepted than there are tokens, and intervals to bring more.** -/
theorem accepted_le : ∀ {times : List ℕ} {b : Bucket}, AllCount l (some b) times →
    (∀ t ∈ times, b.last ≤ t) → times.Pairwise (· ≤ ·) →
    accepted first e (runBucket l (some b) times) ≤
      b.tokens + l.refill * ((e - b.last) / l.interval)
  | [], _, _, _, _ => Nat.zero_le _
  | now :: times, b, ⟨hcount, hrest⟩, hlast, hsorted => by
    have hnow := hlast now List.mem_cons_self
    obtain ⟨hlater, hsorted⟩ := List.pairwise_cons.mp hsorted
    rcases Nat.lt_or_ge e now with he | he
    · rw [accepted_eq_zero (List.forall_mem_cons.mpr
        ⟨he, fun t ht => lt_of_lt_of_le he (hlater t ht)⟩)]
      exact Nat.zero_le _
    · have hafter := last_takeFrom l (some b) now
      have ih := accepted_le hrest (fun t ht => by
        rw [hafter]
        exact (last_refilled_le hnow).trans (hlater t ht)) hsorted
      rw [hafter] at ih
      exact (accepted_cons_le ih).trans (refilled_pays hcount hnow he)

variable {t : ℕ}

/-- **A window**: its first call sees a bucket with at most the capacity, which may have been
refilled up to an interval before the window. -/
theorem accepted_window : ∀ {times : List ℕ} {o : Option Bucket}, AllCount l o times →
    (∀ b ∈ o, b.tokens ≤ l.capacity ∧ ∀ t ∈ times, b.last ≤ t) → times.Pairwise (· ≤ ·) →
    0 < l.interval → accepted first (first + t) (runBucket l o times) ≤
      l.capacity + l.refill * (t / l.interval + 1)
  | [], _, _, _, _, _ => Nat.zero_le _
  | now :: times, o, ⟨hcount, hrest⟩, ho, hsorted, hpos => by
    obtain ⟨hlater, hsorted⟩ := List.pairwise_cons.mp hsorted
    have hbucket : (bucketAt l o now).tokens ≤ l.capacity ∧ (bucketAt l o now).last ≤ now := by
      cases o with
      | none => exact ⟨le_rfl, le_rfl⟩
      | some b => exact ⟨(ho b rfl).1, (ho b rfl).2 now List.mem_cons_self⟩
    have hafter := last_takeFrom l o now
    have htokens : (refilled l (bucketAt l o now) now).tokens ≤ l.capacity :=
      tokens_refilled_le hbucket.1
    have hrefilled := last_refilled_le (l := l) hbucket.2
    have hlast : ∀ t ∈ times, (takeFrom l o now).2.last ≤ t := fun t ht => by
      rw [hafter]
      exact hrefilled.trans (hlater t ht)
    rcases Nat.lt_or_ge now first with hbefore | hin
    · -- a call before the window
      have ih := accepted_window hrest (fun b hb => by
        obtain rfl := Option.some.inj hb
        exact ⟨(tokens_takeFrom_le o).trans htokens, hlast⟩) hsorted hpos
      rw [accepted] at ih ⊢
      rw [runBucket, List.countP_cons_of_neg (by simp [Nat.not_le.mpr hbefore])]
      exact ih
    · refine (accepted_cons_le (accepted_le hrest hlast hsorted)).trans (Nat.add_le_add htokens (Nat.mul_le_mul_left _ ?_))
      rw [hafter]
      -- the refill before the window is less than an interval before it
      have hage : first + t - (refilled l (bucketAt l o now) now).last ≤ t + l.interval := by
        unfold refilled
        split
        · dsimp only
          omega
        · omega
      exact (Nat.div_le_div_right hage).trans (Nat.add_div_right t hpos).le

/-- **After an interval there are tokens.** -/
theorem takeFrom_of_interval (hcount : Counts l b now) (hcapacity : 1 ≤ l.capacity)
    (hrefill : 1 ≤ l.refill) (hdue : l.interval ≤ now - b.last) :
    (takeFrom l (some b) now).1 = .ok () := by
  have hpos : 0 < (refilled l b now).tokens := by
    rw [refilled, if_pos hdue]
    refine lt_min hcapacity (lt_min ?_ (by decide))
    rcases Nat.eq_zero_or_pos b.tokens with hzero | hpos
    · have hsome := Nat.pos_of_ne_zero (hcount.some_interval hdue hzero)
      exact Nat.add_pos_right _ (lt_min (Nat.mul_pos hsome hrefill) (by decide))
    · exact Nat.add_pos_left hpos _
  rcases takeFrom_cases l (some b) now with ⟨hzero, -⟩ | ⟨-, htake⟩
  · exact absurd hzero hpos.ne'
  · rw [htake]

/-- **A call and the next one.** -/
theorem follows_takeFrom {o : Option Bucket} {next : ℕ} (hcount : Counts l (bucketAt l o now) now)
    (hnext : Counts l (takeFrom l o now).2 next) (hcapacity : 1 ≤ l.capacity)
    (hrefill : 1 ≤ l.refill) (hlast : (bucketAt l o now).last ≤ now) :
    Follows l (now, (takeFrom l o now).1)
      (next, (takeFrom l (some (takeFrom l o now).2) next).1) := by
  have hafter := last_takeFrom l o now
  have hrefilled := last_refilled_le (l := l) hlast
  refine ⟨fun hdue => takeFrom_of_interval hnext hcapacity hrefill (by omega), ?_⟩
  rintro r hrefused rfl
  refine takeFrom_of_interval hnext hcapacity hrefill ?_
  rw [hafter]
  rcases takeFrom_cases l o now with ⟨hzero, htake⟩ | ⟨-, htake⟩
  · obtain rfl := Except.error.inj (hrefused.symm.trans (congrArg Prod.fst htake))
    -- nothing was refilled, so the bucket was empty and the time that is left has 64 bits
    have hnot : ¬ l.interval ≤ now - (bucketAt l o now).last := fun hdue => by
      have hok : (takeFrom l (some (bucketAt l o now)) now).1 = .ok () :=
        takeFrom_of_interval hcount hcapacity hrefill hdue
      rcases takeFrom_cases l (some (bucketAt l o now)) now with ⟨-, h⟩ | ⟨h, -⟩
      · rw [h] at hok
        cases hok
      · exact h.ne' hzero
    have hsame : refilled l (bucketAt l o now) now = bucketAt l o now := if_neg hnot
    rw [hsame] at hzero ⊢
    have hhint := hcount.hint (Nat.lt_of_not_le hnot) hzero
    have hleft : l.interval - (now - (bucketAt l o now).last) <
        (asMillis (l.interval - (now - (bucketAt l o now).last)) + 1) * milli := by
      rw [asMillis, Nat.mul_comm]
      exact Nat.lt_mul_div_succ _ (by decide)
    rw [retryMs, asU64, Nat.mod_eq_of_lt hhint]
    omega
  · rw [htake] at hrefused
    cases hrefused

theorem follows_runBucket (hcapacity : 1 ≤ l.capacity) (hrefill : 1 ≤ l.refill) :
    ∀ {times : List ℕ} {o : Option Bucket}, AllCount l o times →
      (∀ b ∈ o, ∀ t ∈ times, b.last ≤ t) → times.Pairwise (· ≤ ·) →
      (runBucket l o times).IsChain (Follows l)
  | [], _, _, _, _ => .nil
  | [_], _, _, _, _ => .singleton _
  | now :: next :: times, o, ⟨hcount, hrest⟩, ho, hsorted => by
    have hlast : (bucketAt l o now).last ≤ now := by
      cases o with
      | none => exact le_rfl
      | some b => exact ho b rfl now List.mem_cons_self
    obtain ⟨hlater, hsorted⟩ := List.pairwise_cons.mp hsorted
    have ih := follows_runBucket hcapacity hrefill hrest (fun b hb t ht => by
      obtain rfl := Option.some.inj hb
      rw [last_takeFrom]
      exact (last_refilled_le hlast).trans (hlater t ht)) hsorted
    exact .cons_cons (follows_takeFrom hcount hrest.1 hcapacity hrefill hlast) ih

end rate

theorem Proper.timesOf {l : RateLimiter} {calls : List Call} (h : Proper l calls) (key : String) :
    (timesOf key calls).Pairwise (· ≤ ·) :=
  List.pairwise_map.mpr (h.sorted.sublist List.filter_sublist)

/-- **A limiter keeps to its rate where every call goes well.** -/
theorem keepsRate {l : RateLimiter} {calls : List Call} (hproper : Proper l calls) {key : String}
    (hcount : AllCount l none (timesOf key calls)) :
    KeepsRate l (answersOf key (runCalls l ∅ calls)) := by
  have hsorted := hproper.timesOf key
  have hpos : 0 < l.interval := lt_of_lt_of_le (by decide) hproper.interval_le
  rw [answersOf_runCalls, AList.lookup_empty]
  constructor
  · exact fun first t => accepted_window hcount (by rintro b ⟨⟩) hsorted hpos
  · exact follows_runBucket hproper.capacity_pos hproper.refill_pos hcount (by rintro b ⟨⟩) hsorted

def oneASecond : RateLimiter := ⟨1, 1, 1000 * milli, by decide, by decide⟩

theorem keepsRate_oneASecond : KeepsRate oneASecond (answersOf "a" (runCalls oneASecond ∅
    [⟨"a", 0⟩, ⟨"a", 400 * milli⟩, ⟨"a", 1001 * milli⟩])) := by
  refine keepsRate ⟨by decide, by decide, by decide, by decide⟩ ⟨?_, ?_, ?_, trivial⟩
  all_goals constructor <;> decide

def oneAMilli : RateLimiter := ⟨1, 1, milli, by decide, by decide⟩

/-- **After 2^32 intervals none is counted.** -/
theorem not_keepsRate_idle : ¬ ∀ (l : RateLimiter) (calls : List Call) (key : String),
    Proper l calls → KeepsRate l (answersOf key (runCalls l ∅ calls)) := by
  intro h
  have hrate := h oneAMilli [⟨"a", 0⟩, ⟨"a", 2 ^ 32 * milli⟩] "a"
    ⟨by decide, by decide, by decide, by decide⟩
  have hchain : [((0 : ℕ), (Except.ok () : Except ℕ Unit)), (2 ^ 32 * milli, .error 1)].IsChain
      (Follows oneAMilli) := hrate.follows
  cases ((List.isChain_cons_cons.mp hchain).1.1 (by decide))

end EmeraldExchange.MediaCore.RateLimit
