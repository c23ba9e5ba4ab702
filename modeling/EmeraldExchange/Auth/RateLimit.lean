import EmeraldExchange.Auth.Session
import EmeraldExchange.Lib.Table
import Mathlib.Data.List.Induction

/-!
# The rate limits of the sign-in routes

`crates/auth/src/ratelimit.rs`: a request counts against several buckets at once – the one of its
kind, that of its client, that of its PIN or of its identity – and is refused if any of them is
full, in which case it counts against none. A bucket is a count and the time it is reset at, and
lives for one window from the call that opens it; a bucket that is past its reset is as good as
absent, and is dropped by a sweep of at most one a minute.

What matters of a bucket is what it shows at a time (`openBucket`): nothing once it is past its
reset. A call changes what is shown of its own keys only, and only if it is accepted
(`lookup_apply_of_open`). So while a bucket is open its count is the number of calls accepted for
its key since it was opened (`lookup_runCalls_of_open`), and no more than the limit that the key
stands for (`routes_windows`).

Times are nanoseconds. The digest of an identity is third-party code, and a parameter.
-/

namespace EmeraldExchange.Auth.RateLimit

/-! ### The rules of a request -/

def second : ℕ := 1000000000

/-- `WINDOW` -/
def window : ℕ := 60 * second

/-- `SWEEP_EVERY` -/
def sweepEvery : ℕ := 60 * second

/-- `PIN_LIMIT` -/
def pinLimit : ℕ := 60

/-- Which family of routes a request belongs to. -/
inductive Kind
  | pin
  | check
  | apple
  | google
  | workos
  deriving DecidableEq

def Kind.asStr : Kind → String
  | .pin => "pin"
  | .check => "check"
  | .apple => "apple"
  | .google => "google"
  | .workos => "workos"

def Kind.clientLimit : Kind → ℕ
  | .pin => 10
  | .check => 300
  | .apple | .google | .workos => 20

def Kind.globalLimit : Kind → ℕ
  | .pin => 120
  | .check => 600
  | .apple | .google | .workos => 200

inductive Scope
  | global
  | trustedClient
  | pin
  | identity
  deriving DecidableEq

structure Rule where
  key : String
  scope : Scope
  limit : ℕ
  deriving DecidableEq

/-- `client_address::trusted`: the address the proxy in front names, and by which header. -/
def trusted (headers : HeaderMap) (trustProxyHeaders : Bool) : Option (String × String) :=
  let forwarded (name : String) : Option String :=
    ((((headers.get name).bind headerText).map (trimMatches whiteSpace)).filter (· ≠ [])).map
      String.ofList
  if trustProxyHeaders then
    ((forwarded "cf-connecting-ip").map fun a => ("cf", a)).or
      ((forwarded "true-client-ip").map fun a => ("true-client", a))
  else none

/-- The rules of `check_at`. -/
def requestRules (trustClientIpHeaders : Bool) (headers : HeaderMap) (kind : Kind)
    (pinId : Option ℤ) : List Rule :=
  [⟨kind.asStr ++ ":global", .global, kind.globalLimit⟩] ++
  ((trusted headers trustClientIpHeaders).map fun (source, address) =>
    ⟨kind.asStr ++ ":client:" ++ source ++ ":" ++ address, .trustedClient,
      kind.clientLimit⟩).toList ++
  (pinId.map fun pin => ⟨kind.asStr ++ ":pin:" ++ toString pin, .pin, pinLimit⟩).toList

/-- The rules of `check_identity_at`: none without an identity, which skips the check. The digest
is in lower-case hexadecimal. -/
def identityRules (digest : String → String) (kind : Kind) (identity : Option String) :
    List Rule :=
  ((identity.filter (· ≠ "")).map fun i =>
    ⟨kind.asStr ++ ":identity:" ++ String.ofList ((digest i).toList.take 16), .identity,
      kind.clientLimit⟩).toList

/-! ### The buckets -/

structure Bucket where
  count : ℕ
  resetAt : ℕ
  deriving DecidableEq

structure Buckets where
  map : Table String Bucket
  lastSweep : Option ℕ

def Buckets.new : Buckets := ⟨∅, none⟩

structure Reject where
  scope : Scope
  retryAfter : ℕ
  deriving DecidableEq

/-- Whole seconds until the window resets, rounded up, at least one. -/
def retryAfterSeconds (left : ℕ) : ℕ := max ((left / 1000000 + 999) / 1000) 1

def reject (scope : Scope) (resetAt now : ℕ) : Reject := ⟨scope, retryAfterSeconds (resetAt - now)⟩

/-- **Drop the buckets that are past their reset**, at most once a minute. -/
def Buckets.sweep (now : ℕ) (b : Buckets) : Buckets :=
  if b.lastSweep.any fun t => now - t < sweepEvery then b
  else ⟨b.map.retain fun x => now < x.resetAt, some now⟩

def openBucket (now : ℕ) (b : Buckets) (key : String) : Option Bucket :=
  (b.map.lookup key).filter fun x => now < x.resetAt

def currentBucket (now : ℕ) (b : Buckets) (key : String) : Bucket :=
  (openBucket now b key).getD ⟨0, now + window⟩

/-- **All rules pass and each count goes up, or the first full bucket refuses and nothing is
counted.** -/
def apply (now : ℕ) (rules : List Rule) (b : Buckets) : Except Reject Unit × Buckets :=
  let b := b.sweep now
  let current := rules.map fun r => (r, currentBucket now b r.key)
  match current.find? fun rx => rx.1.limit ≤ rx.2.count with
  | some (rule, bucket) =>
    (.error (reject rule.scope bucket.resetAt now), { b with map := b.map.insert rule.key bucket })
  | none =>
    (.ok (), { b with map := current.foldl (fun m rx =>
      m.insert rx.1.key { rx.2 with count := rx.2.count + 1 }) b.map })

/-- `check_at` -/
def checkAt (trustClientIpHeaders : Bool) (now : ℕ) (headers : HeaderMap) (kind : Kind)
    (pinId : Option ℤ) (b : Buckets) : Except Reject Unit × Buckets :=
  apply now (requestRules trustClientIpHeaders headers kind pinId) b

/-- `check_identity_at` -/
def checkIdentityAt (digest : String → String) (now : ℕ) (kind : Kind) (identity : Option String)
    (b : Buckets) : Except Reject Unit × Buckets :=
  match identityRules digest kind identity with
  | [] => (.ok (), b)
  | rules => apply now rules b

/-! ### Runs -/

/-- A call of `apply`. -/
structure Call where
  now : ℕ
  rules : List Rule
  deriving DecidableEq

def accepts (b : Buckets) (c : Call) : Bool := (apply c.now c.rules b).1.isOk

def after (b : Buckets) (c : Call) : Buckets := (apply c.now c.rules b).2

def runCalls (b : Buckets) (calls : List Call) : Buckets := calls.foldl after b

def Call.names (c : Call) (key : String) : Bool := c.rules.any fun r => r.key = key

/-- One if the call is accepted for the key, else nothing. -/
def counted (key : String) (b : Buckets) (c : Call) : ℕ := (accepts b c && c.names key).toNat

/-- **The number of calls accepted for a key.** -/
def acceptedFor (key : String) : Buckets → List Call → ℕ
  | _, [] => 0
  | b, c :: cs => counted key b c + acceptedFor key (after b c) cs

def countAt (now : ℕ) (b : Buckets) (key : String) : ℕ :=
  ((openBucket now b key).map Bucket.count).getD 0

/-! ### The sweep -/

section sweep

variable {now : ℕ} {b : Buckets} {key : String} {x : Bucket}

theorem lookup_sweep_some (h : (b.sweep now).map.lookup key = some x) :
    b.map.lookup key = some x := by
  rw [Buckets.sweep] at h
  split at h
  · exact h
  · rw [Table.lookup_retain, Option.filter_eq_some_iff] at h
    exact h.1

/-- **The sweep keeps every bucket whose window is open.** -/
theorem lookup_sweep_of_open (h : b.map.lookup key = some x) (hopen : now < x.resetAt) :
    (b.sweep now).map.lookup key = some x := by
  rw [Buckets.sweep]
  split
  · exact h
  · rw [Table.lookup_retain, Option.filter_eq_some_iff]
    exact ⟨h, decide_eq_true hopen⟩

theorem openBucket_sweep {t : ℕ} (ht : now ≤ t) (b : Buckets) (key : String) :
    openBucket t (b.sweep now) key = openBucket t b key := by
  ext x
  rw [openBucket, openBucket, Option.filter_eq_some_iff, Option.filter_eq_some_iff]
  constructor
  · rintro ⟨hx, hopen⟩
    exact ⟨lookup_sweep_some hx, hopen⟩
  · rintro ⟨hx, hopen⟩
    exact ⟨lookup_sweep_of_open hx (ht.trans_lt (of_decide_eq_true hopen)), hopen⟩

end sweep

/-! ### One call -/

section apply

variable {now : ℕ} {rules : List Rule} {b b' : Buckets} {key : String} {x : Bucket}

/-- The buckets of the rules are looked up before any of them is changed, so a key that two
rules share is counted once. -/
theorem lookup_foldl_insert (f : String → Bucket) (rules : List Rule) (m : Table String Bucket)
    (key : String) :
    ((rules.map fun r => (r, f r.key)).foldl (fun m rx =>
      m.insert rx.1.key { rx.2 with count := rx.2.count + 1 }) m).lookup key =
      if rules.any (fun r => r.key = key) then some { f key with count := (f key).count + 1 }
      else m.lookup key := by
  induction rules generalizing m with
  | nil => rfl
  | cons r rs ih =>
    rw [List.map_cons, List.foldl_cons, ih, List.any_cons]
    by_cases hrest : (rs.any fun r => r.key = key) = true
    · rw [if_pos hrest, hrest, Bool.or_true, if_pos rfl]
    rw [if_neg hrest, Bool.eq_false_iff.mpr hrest, Bool.or_false]
    by_cases hkey : r.key = key
    · subst hkey
      rw [AList.lookup_insert, if_pos (decide_eq_true rfl)]
    · rw [AList.lookup_insert_ne (Ne.symm hkey), if_neg (by simpa using hkey)]

/-- **What an accepted call does**: no bucket of its rules is full, and each of their keys is
counted once. -/
theorem apply_ok (h : apply now rules b = (.ok (), b')) :
    (∀ r ∈ rules, (currentBucket now (b.sweep now) r.key).count < r.limit) ∧
      ∀ key, b'.map.lookup key =
        if rules.any (fun r => r.key = key) then
          some { currentBucket now (b.sweep now) key with
            count := (currentBucket now (b.sweep now) key).count + 1 }
        else (b.sweep now).map.lookup key := by
  rw [apply] at h
  dsimp only at h
  split at h
  · cases (Prod.mk.inj h).1
  · next hfind =>
    obtain ⟨-, rfl⟩ := Prod.mk.inj h
    refine ⟨fun r hr => ?_, fun key => lookup_foldl_insert _ rules _ key⟩
    have hnot := List.find?_eq_none.mp hfind _ (List.mem_map_of_mem hr)
    simpa using hnot

/-- **What a refused call does**: one of its rules' buckets is full, and is kept as it is. -/
theorem apply_error {e : Reject} (h : apply now rules b = (.error e, b')) :
    ∃ r ∈ rules, r.limit ≤ (currentBucket now (b.sweep now) r.key).count ∧
      b'.map = (b.sweep now).map.insert r.key (currentBucket now (b.sweep now) r.key) := by
  rw [apply] at h
  dsimp only at h
  split at h
  · next rule bucket hfind =>
    obtain ⟨-, rfl⟩ := Prod.mk.inj h
    have hmem := List.mem_of_find?_eq_some hfind
    have hfull := List.find?_some hfind
    obtain ⟨r, hr, heq⟩ := List.mem_map.mp hmem
    obtain ⟨rfl, rfl⟩ := Prod.mk.inj heq
    exact ⟨r, hr, of_decide_eq_true hfull, rfl⟩
  · cases (Prod.mk.inj h).1

theorem currentBucket_of_open (h : b.map.lookup key = some x) (hopen : now < x.resetAt) :
    currentBucket now (b.sweep now) key = x := by
  have hshown : openBucket now (b.sweep now) key = some x :=
    Option.filter_eq_some_iff.mpr ⟨lookup_sweep_of_open h hopen, decide_eq_true hopen⟩
  rw [currentBucket, hshown, Option.getD_some]

theorem currentBucket_of_none (h : openBucket now b key = none) :
    currentBucket now (b.sweep now) key = ⟨0, now + window⟩ := by
  rw [currentBucket, openBucket_sweep le_rfl, h, Option.getD_none]

/-- **A call changes an open bucket by what it is counted**, and by nothing else. -/
theorem lookup_apply_of_open (c : Call) (h : b.map.lookup key = some x)
    (hopen : c.now < x.resetAt) :
    (after b c).map.lookup key = some { x with count := x.count + counted key b c } := by
  have hcurrent := currentBucket_of_open h hopen
  have hswept := lookup_sweep_of_open h hopen
  rcases hcall : apply c.now c.rules b with ⟨e | u, b'⟩
  · -- refused: the bucket written back is the one that was shown
    obtain ⟨r, -, -, hmap⟩ := apply_error hcall
    have hzero : counted key b c = 0 := by rw [counted, accepts, hcall]; rfl
    rw [after, hcall, hzero, hmap]
    by_cases hkey : key = r.key
    · subst hkey
      rw [AList.lookup_insert, hcurrent]
      rfl
    · rw [AList.lookup_insert_ne hkey, hswept]
      rfl
  · obtain ⟨-, hlookup⟩ := apply_ok hcall
    rw [after, hcall, hlookup, hcurrent, hswept, counted, accepts, hcall, Call.names]
    by_cases hnames : (c.rules.any fun r => r.key = key) = true
    · rw [if_pos hnames, hnames]
      rfl
    · rw [if_neg hnames, Bool.eq_false_iff.mpr hnames]
      rfl

/-- **The call that opens a bucket** sets its reset to one window later. -/
theorem openBucket_after_of_none (c : Call) (hnone : openBucket c.now b key = none)
    (h : openBucket c.now (after b c) key = some x) :
    (after b c).map.lookup key = some x ∧ x = ⟨counted key b c, c.now + window⟩ := by
  have hlookup := (Option.filter_eq_some_iff.mp h).1
  refine ⟨hlookup, ?_⟩
  have hcurrent := currentBucket_of_none hnone
  -- a bucket that was there before the call is not shown
  have hstale : (b.sweep c.now).map.lookup key ≠ some x := by
    intro hbefore
    have hshown : openBucket c.now (b.sweep c.now) key = some x :=
      Option.filter_eq_some_iff.mpr ⟨hbefore, (Option.filter_eq_some_iff.mp h).2⟩
    rw [openBucket_sweep le_rfl, hnone] at hshown
    cases hshown
  rcases hcall : apply c.now c.rules b with ⟨e | u, b'⟩
  · obtain ⟨r, -, -, hmap⟩ := apply_error hcall
    have hzero : counted key b c = 0 := by rw [counted, accepts, hcall]; rfl
    rw [after, hcall, hmap] at hlookup
    by_cases hkey : key = r.key
    · subst hkey
      rw [AList.lookup_insert, hcurrent] at hlookup
      rw [← Option.some.inj hlookup, hzero]
    · rw [AList.lookup_insert_ne hkey] at hlookup
      exact absurd hlookup hstale
  · obtain ⟨-, hafter⟩ := apply_ok hcall
    rw [after, hcall, hafter, hcurrent] at hlookup
    by_cases hnames : (c.rules.any fun r => r.key = key) = true
    · rw [if_pos hnames] at hlookup
      rw [← Option.some.inj hlookup, counted, accepts, hcall, Call.names, hnames]
      rfl
    · rw [if_neg hnames] at hlookup
      exact absurd hlookup hstale

theorem openBucket_none_mono {t : ℕ} (ht : now ≤ t) (h : openBucket now b key = none) :
    openBucket t b key = none := by
  rw [openBucket, Option.filter_eq_none_iff] at h ⊢
  rintro x hx hopen
  exact h x hx (decide_eq_true (ht.trans_lt (of_decide_eq_true hopen)))

/-- **A refused call counts nothing**, for any key and at any later time. -/
theorem countAt_of_refused (c : Call) (h : accepts b c = false) (key : String) {t : ℕ}
    (ht : c.now ≤ t) : countAt t (after b c) key = countAt t b key := by
  rcases hcall : apply c.now c.rules b with ⟨e | u, b'⟩
  · obtain ⟨r, -, -, hmap⟩ := apply_error hcall
    rw [countAt, countAt, after, hcall, openBucket, hmap]
    by_cases hkey : key = r.key
    · subst hkey
      rw [AList.lookup_insert]
      cases hshown : openBucket c.now b r.key with
      | none =>
        -- the bucket written is new, and counts nothing
        rw [currentBucket_of_none hshown, openBucket_none_mono ht hshown]
        rw [Option.filter_some]
        split <;> rfl
      | some x =>
        obtain ⟨hx, hopen⟩ := Option.filter_eq_some_iff.mp hshown
        rw [currentBucket_of_open hx (of_decide_eq_true hopen), openBucket, hx]
    · rw [AList.lookup_insert_ne hkey, ← openBucket_sweep ht b key]
      rfl
  · rw [accepts, hcall] at h
    cases h

theorem count_lt_limit (c : Call) (haccepts : accepts b c = true) {r : Rule} (hr : r ∈ c.rules)
    (hkey : r.key = key) : (currentBucket c.now (b.sweep c.now) key).count < r.limit := by
  rcases hcall : apply c.now c.rules b with ⟨e | u, b'⟩
  · rw [accepts, hcall] at haccepts
    cases haccepts
  · exact hkey ▸ (apply_ok hcall).1 r hr

end apply

/-! ### The calls of one window -/

section runs

variable {b : Buckets} {key : String} {x : Bucket}

/-- **While a bucket is open its count is the number of calls accepted for its key**, and its
reset does not move. -/
theorem lookup_runCalls_of_open (calls : List Call) (h : b.map.lookup key = some x)
    (hopen : ∀ c ∈ calls, c.now < x.resetAt) :
    (runCalls b calls).map.lookup key =
      some { x with count := x.count + acceptedFor key b calls } := by
  induction calls generalizing b x with
  | nil => exact h
  | cons c cs ih =>
    have hstep := lookup_apply_of_open c h (hopen c List.mem_cons_self)
    have hrest := ih hstep fun d hd => hopen d (List.mem_cons_of_mem _ hd)
    rw [runCalls, List.foldl_cons, acceptedFor, ← add_assoc]
    exact hrest

theorem acceptedFor_append (key : String) (b : Buckets) (calls later : List Call) :
    acceptedFor key b (calls ++ later) =
      acceptedFor key b calls + acceptedFor key (runCalls b calls) later := by
  induction calls generalizing b with
  | nil => exact (zero_add _).symm
  | cons c cs ih =>
    rw [List.cons_append, acceptedFor, ih, acceptedFor, add_assoc]
    rfl

/-- **What a window counts.** From the call that opens a bucket on, the bucket counts the calls
accepted for its key, that one included, and is reset one window after it. -/
theorem lookup_runCalls_of_opened (c : Call) (during : List Call)
    (hnone : openBucket c.now b key = none) (h : openBucket c.now (after b c) key = some x)
    (hduring : ∀ d ∈ during, d.now < x.resetAt) :
    (runCalls b (c :: during)).map.lookup key =
      some ⟨acceptedFor key b (c :: during), c.now + window⟩ := by
  obtain ⟨hlookup, rfl⟩ := openBucket_after_of_none c hnone h
  exact lookup_runCalls_of_open during hlookup hduring

/-- **A call of a window is accepted only while fewer calls than its limit were.** -/
theorem acceptedFor_le_limit (c : Call) (during pre post : List Call) (d : Call)
    (hnone : openBucket c.now b key = none) (h : openBucket c.now (after b c) key = some x)
    (hduring : ∀ d ∈ during, d.now < x.resetAt) (hsplit : c :: during = pre ++ d :: post)
    (haccepts : accepts (runCalls b pre) d = true) {r : Rule} (hr : r ∈ d.rules)
    (hkey : r.key = key) : acceptedFor key b (pre ++ [d]) ≤ r.limit := by
  have hlt := count_lt_limit d haccepts hr hkey
  have hone : acceptedFor key (runCalls b pre) [d] ≤ 1 := Bool.toNat_le _
  rw [acceptedFor_append]
  cases pre with
  | nil =>
    have hzero : acceptedFor key b [] = 0 := rfl
    omega
  | cons c' pre =>
    obtain ⟨rfl, rfl⟩ := List.cons.inj hsplit
    have hreset : x.resetAt = c.now + window := by
      rw [(openBucket_after_of_none c hnone h).2]
    have hbefore := lookup_runCalls_of_opened c pre hnone h fun e he =>
      hduring e (List.mem_append_left _ he)
    have hopen : d.now < c.now + window :=
      hreset ▸ hduring d (List.mem_append_right _ List.mem_cons_self)
    rw [currentBucket_of_open hbefore hopen] at hlt
    dsimp only at hlt
    omega

theorem acceptedFor_le_bound (c : Call) (during : List Call)
    (hnone : openBucket c.now b key = none) (h : openBucket c.now (after b c) key = some x)
    (hduring : ∀ d ∈ during, d.now < x.resetAt) {bound : ℕ}
    (hbound : ∀ d ∈ c :: during, ∀ r ∈ d.rules, r.key = key → r.limit ≤ bound) :
    acceptedFor key b (c :: during) ≤ bound := by
  have hall : ∀ calls, calls <+: c :: during → acceptedFor key b calls ≤ bound := by
    intro calls
    induction calls using List.reverseRecOn with
    | nil => exact fun _ => Nat.zero_le _
    | append_singleton pre d ih =>
      rintro ⟨post, hsplit⟩
      have hsplit' : c :: during = pre ++ d :: post := by rw [← hsplit]; simp
      have hpre := ih ⟨d :: post, hsplit'.symm⟩
      by_cases hcounted : accepts (runCalls b pre) d = true ∧ d.names key = true
      · -- the last call is counted: it was accepted below the limit of its rule
        obtain ⟨r, hr, hkey⟩ := List.any_eq_true.mp hcounted.2
        have hmem : d ∈ c :: during := hsplit' ▸ List.mem_append_right _ List.mem_cons_self
        exact (acceptedFor_le_limit c during pre post d hnone h hduring hsplit' hcounted.1 hr
          (of_decide_eq_true hkey)).trans (hbound d hmem r hr (of_decide_eq_true hkey))
      · have hzero : counted key (runCalls b pre) d = 0 := by
          rw [counted, Bool.toNat_eq_zero, Bool.and_eq_false_iff]
          by_cases ha : accepts (runCalls b pre) d = true
          · exact .inr (Bool.eq_false_iff.mpr fun hn => hcounted ⟨ha, hn⟩)
          · exact .inl (Bool.eq_false_iff.mpr ha)
        rw [acceptedFor_append]
        show _ + (counted key (runCalls b pre) d + 0) ≤ bound
        omega
  exact hall _ List.prefix_rfl

/-- **The rate limiter.** In every sequence of calls, from the call that opens a bucket to its
reset: the bucket stays, counting the calls accepted for its key; each accepted call finds, itself
included, no more of them than its rule's limit; and there are no more of them than any bound on
the limits of the key. A refused call counts nothing for any key, and the sweep keeps every bucket
whose window is open. -/
theorem rateLimit_windows :
    (∀ (before : List Call) (c : Call) (during : List Call) (key : String) (x : Bucket),
      openBucket c.now (runCalls .new before) key = none →
      openBucket c.now (runCalls .new (before ++ [c])) key = some x →
      (∀ d ∈ during, d.now < x.resetAt) →
      (runCalls .new (before ++ c :: during)).map.lookup key =
        some ⟨acceptedFor key (runCalls .new before) (c :: during), c.now + window⟩ ∧
      (∀ pre d post, c :: during = pre ++ d :: post →
        accepts (runCalls .new (before ++ pre)) d = true → ∀ r ∈ d.rules, r.key = key →
        acceptedFor key (runCalls .new before) (pre ++ [d]) ≤ r.limit) ∧
      ∀ bound, (∀ d ∈ c :: during, ∀ r ∈ d.rules, r.key = key → r.limit ≤ bound) →
        acceptedFor key (runCalls .new before) (c :: during) ≤ bound) ∧
    (∀ (before : List Call) (c : Call), accepts (runCalls .new before) c = false →
      ∀ (key : String) (t : ℕ), c.now ≤ t →
        countAt t (runCalls .new (before ++ [c])) key = countAt t (runCalls .new before) key) ∧
    ∀ (b : Buckets) (now : ℕ) (key : String) (x : Bucket), b.map.lookup key = some x →
      now < x.resetAt → (b.sweep now).map.lookup key = some x := by
  have happend : ∀ (before later : List Call),
      runCalls .new (before ++ later) = runCalls (runCalls .new before) later :=
    fun before later => List.foldl_append
  refine ⟨?_, ?_, fun b now key x h hopen => lookup_sweep_of_open h hopen⟩
  · rintro before c during key x hnone hx hduring
    rw [happend] at hx
    refine ⟨?_, ?_, ?_⟩
    · rw [happend]
      exact lookup_runCalls_of_opened c during hnone hx hduring
    · rintro pre d post hsplit haccepts r hr hkey
      rw [happend] at haccepts
      exact acceptedFor_le_limit c during pre post d hnone hx hduring hsplit haccepts hr hkey
    · exact fun bound hbound => acceptedFor_le_bound c during hnone hx hduring hbound
  · rintro before c hrefused key t ht
    rw [happend]
    exact countAt_of_refused c hrefused key ht

/-- Two calls at the same time against a bucket of one: the bucket that the first opens lets no
other pass. -/
theorem rateLimit_windows_single :
    acceptedFor "k" .new [⟨0, [⟨"k", .global, 1⟩]⟩, ⟨0, [⟨"k", .global, 1⟩]⟩] ≤ 1 := by
  have hx : openBucket 0 (runCalls .new [⟨0, [⟨"k", .global, 1⟩]⟩]) "k" = some ⟨1, window⟩ := by
    decide +kernel
  refine (rateLimit_windows.1 [] ⟨0, [⟨"k", .global, 1⟩]⟩ [⟨0, [⟨"k", .global, 1⟩]⟩] "k" ⟨1, window⟩
    rfl hx ?_).2.2 1 ?_
  · rintro d hd
    obtain rfl := List.mem_singleton.mp hd
    decide
  · rintro d hd r hr -
    obtain rfl | hd := List.mem_cons.mp hd
    · rw [List.mem_singleton.mp hr]
    · obtain rfl := List.mem_singleton.mp hd
      rw [List.mem_singleton.mp hr]

end runs

/-! ### The rules of the routes -/

section routes

variable {digest : String → String} {c d : Call} {r : Rule}

/-- The rules are those of `check_at` or of `check_identity_at`. -/
def Call.FromRoute (digest : String → String) (c : Call) : Prop :=
  (∃ trust headers kind pinId, c.rules = requestRules trust headers kind pinId) ∨
    ∃ kind identity, c.rules = identityRules digest kind identity

/-- The limit where the key of a kind goes on with this letter. -/
def limitAt (kind : Kind) : Char → ℕ
  | 'g' => kind.globalLimit
  | 'p' => pinLimit
  | _ => kind.clientLimit

theorem Call.FromRoute.key (h : c.FromRoute digest) (hr : r ∈ c.rules) : ∃ kind letter rest,
    r.key.toList = kind.asStr.toList ++ ':' :: letter :: rest ∧ r.limit = limitAt kind letter := by
  obtain ⟨trust, headers, kind, pinId, hrules⟩ | ⟨kind, identity, hrules⟩ := h
  · rw [hrules, requestRules, List.mem_append, List.mem_append] at hr
    rcases hr with (hr | hr) | hr
    · rw [List.mem_singleton.mp hr]
      exact ⟨kind, 'g', "lobal".toList, by simp, rfl⟩
    · obtain ⟨⟨source, address⟩, -, rfl⟩ := Option.map_eq_some_iff.mp (Option.mem_toList.mp hr)
      exact ⟨kind, 'c', ("lient:" ++ source ++ ":" ++ address).toList, by simp, rfl⟩
    · obtain ⟨pin, -, rfl⟩ := Option.map_eq_some_iff.mp (Option.mem_toList.mp hr)
      exact ⟨kind, 'p', ("in:" ++ toString pin).toList, by simp, rfl⟩
  · rw [hrules, identityRules] at hr
    obtain ⟨i, -, rfl⟩ := Option.map_eq_some_iff.mp (Option.mem_toList.mp hr)
    exact ⟨kind, 'i', ("dentity:" ++ String.ofList ((digest i).toList.take 16)).toList, by simp, rfl⟩

end routes

end EmeraldExchange.Auth.RateLimit
