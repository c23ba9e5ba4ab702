import EmeraldExchange.Transcoder.Supervisor

/-!
# The arithmetic of a backfill

`backfill` of `crates/transcoder/src/session.rs`, for a session that nothing else happens to
meanwhile. The number of the segment comes from the client's URL and may be any of 64 bits, while
`Transcoder.offEncoderRange` and `Transcoder.backfillSecs` compute
with numbers of any size. Here each sum and each product is checked.

Two of them overflow: the frontier and the look-ahead, where a file of the session is numbered
close to the end, and the number of the segment times the length of one, where the number is more
than half of what there is. Where nothing overflows, a backfill that has begun begins at the
segment that was asked for or before it, unless the keyframes that it found are no longer there
when the restart looks for them: then the restart has no grid and goes on behind what is there
(`produces_iff`).
-/

namespace EmeraldExchange.Transcoder.Backfill

/-! ### Numbers of 64 bits -/

abbrev U64 := Fin (u64Max + 1)

def checkedAdd (a b : ℕ) : Option ℕ := if a + b ≤ u64Max then some (a + b) else none

def checkedMul (a b : ℕ) : Option ℕ := if a * b ≤ u64Max then some (a * b) else none

theorem checkedAdd_eq_none {a b : ℕ} : checkedAdd a b = none ↔ u64Max < a + b := by
  rw [checkedAdd]
  split_ifs with h
  · simp only [false_iff, not_lt, h]
  · simp only [not_le.mp h]

theorem checkedAdd_eq_some {a b : ℕ} (h : a + b ≤ u64Max) : checkedAdd a b = some (a + b) :=
  if_pos h

theorem checkedMul_eq_none {a b : ℕ} (h : u64Max < a * b) : checkedMul a b = none :=
  if_neg (not_le.mpr h)

theorem checkedMul_eq_some {a b : ℕ} (h : a * b ≤ u64Max) : checkedMul a b = some (a * b) :=
  if_pos h

/-! ### The backfill -/

/-- **A session**, as far as a backfill reads it: the title, whether its segments are numbered on
the grid, the number of the first segment of the child, and the numbers of the segment files. -/
structure State where
  title : Title
  onGrid : Bool
  startNumber : U64
  files : List U64

/-- What a backfill meets with: the outcomes of the two lookups of the keyframes, that of the
backfill and that of the restart, whether another backfill is under way, and whether the child of
the restart is spawned in time. -/
structure Luck where
  found : Bool
  foundAgain : Bool
  busy : Bool
  spawned : Bool

variable (s : State)

def State.numbers : List ℕ := s.files.map Fin.val

/-- The furthest that the encoder is known to be. -/
def State.frontier : ℕ := (s.numbers.max?.map (max s.startNumber.val)).getD s.startNumber.val

/-- Whether the running encoder will never write the segment. The sum is not computed where the
segment lies before the first one. -/
def State.offRange (index : U64) : Option Bool :=
  if s.startNumber ≤ index then
    (checkedAdd s.frontier backfillAheadSegments).map fun last => !(index.val ≤ last)
  else some true

def State.secs (found : Bool) (index : U64) : Option (Option ℕ) :=
  if s.title.plan.reencodesVideo then (checkedMul index hlsSegmentSecs).map some
  else some (backfillSecs s.title found index)

/-- The number of the first segment after a seek, which off the grid is one that no file has. -/
def State.seekNumber (foundAgain : Bool) (toSecs : ℕ) : ℕ :=
  match gridStart s.title foundAgain toSecs with
  | some (_, n) => n
  | none =>
    -- `saturating_add`
    (s.numbers.max?.map fun m => max (min (m + 1) u64Max) s.startNumber.val).getD
      s.startNumber.val

/-- **`backfill`**: whether one has begun, and the number of the session's first segment
afterwards; nothing if the arithmetic overflows. -/
def backfill (l : Luck) (index : U64) : Option (Bool × ℕ) :=
  if !s.onGrid then some (false, s.startNumber)
  else do
    let off ← s.offRange index
    if !off then some (false, s.startNumber)
    else
      match ← s.secs l.found index with
      | none => some (false, s.startNumber)
      | some toSecs =>
        if l.busy then some (false, s.startNumber)
        else some (l.spawned, s.seekNumber l.foundAgain toSecs)

/-! ### The unchecked functions -/

variable {s} {l : Luck} {index : U64}

def LimitOverflows (s : State) (index : U64) : Prop :=
  s.startNumber ≤ index ∧ u64Max < s.frontier + backfillAheadSegments

theorem offRange_eq (h : ¬LimitOverflows s index) :
    s.offRange index = some (offEncoderRange s.startNumber s.numbers index) := by
  rw [State.offRange, offEncoderRange]
  split_ifs with hle
  · rw [checkedAdd_eq_some (not_lt.mp fun hlt => h ⟨hle, hlt⟩), Option.map_some,
      decide_eq_true (Fin.le_def.mp hle), Bool.true_and]
    rfl
  · rw [decide_eq_false fun hlt => hle (Fin.le_def.mpr hlt), Bool.false_and]
    rfl

theorem offRange_eq_none (h : LimitOverflows s index) : s.offRange index = none := by
  rw [State.offRange, if_pos h.1, checkedAdd_eq_none.mpr h.2, Option.map_none]

theorem secs_eq {found : Bool}
    (h : s.title.plan.reencodesVideo = true → index.val * hlsSegmentSecs ≤ u64Max) :
    s.secs found index = some (backfillSecs s.title found index) := by
  rw [State.secs, backfillSecs]
  split_ifs with hre
  · rw [checkedMul_eq_some (h hre), Option.map_some]
  · rfl

/-! ### Where a seek begins -/

theorem resumeLoop_fst_le {start base opens : ℚ} {cuts : List ℚ} {m : ℕ}
    (hcuts : (base :: cuts).Pairwise (· < ·)) (hopens : (base :: cuts)[m]? = some opens)
    (hle : start ≤ opens) (n : ℕ) : (resumeLoop start n (n, base) cuts).1 ≤ n + m := by
  induction cuts generalizing n base m with
  | nil => exact Nat.le_add_right n m
  | cons c cs ih =>
    obtain ⟨hbase, hcs⟩ := List.pairwise_cons.mp hcuts
    rw [resumeLoop]
    split_ifs with hc
    · cases m with
      | zero =>
        obtain rfl := Option.some.inj hopens
        exact absurd (hc.trans hle) (not_le.mpr (hbase c List.mem_cons_self))
      | succ m =>
        have := ih hcs (List.getElem?_cons_succ ▸ hopens) (n + 1)
        omega
    · exact Nat.le_add_right n m

/-- **A seek to the whole second in which a segment opens begins at it or before it.** -/
theorem copyResumeBase_le {kf : List ℚ} (hkf : kf.Pairwise (· < ·)) {total opens : ℚ} {i : ℕ}
    (h : copySegmentStart kf total i = some opens) :
    (copyResumeBase kf total ⌊opens⌋₊).1 ≤ i := by
  rw [copySegmentStart_eq] at h
  have hcuts : (0 :: copyCutPoints kf 0 total hlsSegmentSecs).Pairwise (· < ·) :=
    List.pairwise_cons.mpr ⟨fun _ hc => base_lt_of_mem_copyCutLoop hc,
      hkf.sublist (copyCutLoop_sublist ..)⟩
  have hpos : 0 ≤ opens := by
    rcases List.mem_cons.mp (List.mem_of_getElem? h) with rfl | hc
    · exact le_rfl
    · exact (base_lt_of_mem_copyCutLoop hc).le
  exact (resumeLoop_fst_le hcuts h (Nat.floor_le hpos) 0).trans_eq (zero_add i)

theorem gridStart_le {t : Title} {found foundAgain : Bool} {i toSecs secs n : ℕ}
    (h : backfillSecs t found i = some toSecs)
    (hgrid : gridStart t foundAgain toSecs = some (secs, n)) : n ≤ i := by
  rw [gridStart] at hgrid
  rw [backfillSecs] at h
  split_ifs at hgrid with hzero hre
  · obtain ⟨_, rfl⟩ := Prod.mk.inj (Option.some.inj hgrid)
    exact Nat.zero_le i
  · rw [if_pos hre] at h
    obtain rfl := Option.some.inj h
    obtain ⟨_, rfl⟩ := Prod.mk.inj (Option.some.inj hgrid)
    exact (Nat.mul_div_cancel i (by decide)).le
  · rw [if_neg hre] at h
    rcases hd : t.durationSecs.filter (0 < ·) with _ | total
    · rw [hd] at h
      cases h
    rw [hd] at h hgrid
    rcases hkf : t.loadKeyframes found with _ | kf
    · rw [hkf] at h
      cases h
    rcases hkf' : t.loadKeyframes foundAgain with _ | kf'
    · rw [hkf'] at hgrid
      cases hgrid
    rw [hkf] at h
    rw [hkf'] at hgrid
    obtain rfl := t.eq_keyframes_of_loadKeyframes hkf
    obtain rfl := t.eq_keyframes_of_loadKeyframes hkf'
    obtain ⟨opens, hopens, rfl⟩ := Option.map_eq_some_iff.mp h
    obtain ⟨_, rfl⟩ := Prod.mk.inj (Option.some.inj hgrid)
    exact copyResumeBase_le t.ascending hopens

/-! ### The property -/

/-- **A backfill computes without overflow, and what it begins is at the segment asked for or
before it.** -/
def Produces (s : State) (l : Luck) (index : U64) : Prop :=
  ∃ begun first, backfill s l index = some (begun, first) ∧ (begun = true → first ≤ index)

/-- The product of the number of the segment overflows, and is looked at. -/
def SecsOverflow (s : State) (index : U64) : Prop :=
  s.title.plan.reencodesVideo = true ∧
    offEncoderRange s.startNumber s.numbers index = true ∧ u64Max < index * hlsSegmentSecs

/-- Segment `index` of a copy opens at `opens`, as the keyframes of the title have it. -/
def OpensAt (t : Title) (index : ℕ) (opens : ℚ) : Prop :=
  t.keyframes ≠ [] ∧ ∃ total, t.durationSecs = some total ∧ 0 < total ∧
    copySegmentStart t.keyframes total index = some opens

/-- **The keyframes are there for the backfill and gone for the restart**, and the segment opens
before the first one of the child, though not at the very beginning. -/
def KeyframesLost (s : State) (l : Luck) (index : U64) : Prop :=
  s.title.plan.reencodesVideo = false ∧ index < s.startNumber ∧ l.found = true ∧
    l.foundAgain = false ∧ l.busy = false ∧ l.spawned = true ∧
    ∃ opens, OpensAt s.title index opens ∧ 1 ≤ opens

theorem loadKeyframes_eq_some {t : Title} {hit : Bool} {kf : List ℚ} :
    t.loadKeyframes hit = some kf ↔ hit = true ∧ t.keyframes ≠ [] ∧ kf = t.keyframes := by
  rw [Title.loadKeyframes]
  split_ifs with h
  · simp only [Bool.and_eq_true, Bool.not_eq_true', List.isEmpty_eq_false_iff] at h
    simp only [h, Option.some.injEq, ne_eq, not_false_eq_true, true_and, eq_comm]
  · simp only [Bool.and_eq_true, Bool.not_eq_true', List.isEmpty_eq_false_iff] at h
    simp only [false_iff]
    exact fun hh => h ⟨hh.1, hh.2.1⟩

theorem backfillSecs_copy {t : Title} (hcopy : t.plan.reencodesVideo = false) {found : Bool}
    {i toSecs : ℕ} : backfillSecs t found i = some toSecs ↔
      found = true ∧ ∃ opens, OpensAt t i opens ∧ ⌊opens⌋₊ = toSecs := by
  rw [backfillSecs, if_neg (by rw [hcopy]; decide)]
  constructor
  · intro h
    split at h
    · next total kf hd hkf =>
      obtain ⟨hfound, hne, rfl⟩ := loadKeyframes_eq_some.mp hkf
      obtain ⟨hd, hpos⟩ := Option.filter_eq_some_iff.mp hd
      obtain ⟨opens, hopens, hsecs⟩ := Option.map_eq_some_iff.mp h
      exact ⟨hfound, opens, ⟨hne, total, hd, of_decide_eq_true hpos, hopens⟩, hsecs⟩
    · cases h
  · rintro ⟨hfound, opens, ⟨hne, total, hd, hpos, hopens⟩, rfl⟩
    have hfilter : t.durationSecs.filter (0 < ·) = some total := by simp [hd, hpos]
    rw [loadKeyframes_eq_some.mpr ⟨hfound, hne, rfl⟩, hfilter]
    exact congrArg (Option.map _) hopens

/-- A restart of a copy has no grid where the keyframes are gone, unless it is for the very
beginning. -/
theorem gridStart_copy_eq_none {t : Title} (hcopy : t.plan.reencodesVideo = false)
    {opens : ℚ} {i toSecs : ℕ} (h : OpensAt t i opens) {foundAgain : Bool} :
    gridStart t foundAgain toSecs = none ↔ foundAgain = false ∧ toSecs ≠ 0 := by
  obtain ⟨hne, total, hd, hpos, _⟩ := h
  have hfilter : t.durationSecs.filter (0 < ·) = some total := by simp [hd, hpos]
  rw [gridStart, hfilter, hcopy]
  by_cases hzero : toSecs = 0
  · simp [hzero]
  rcases foundAgain with _ | _
  · simp [hzero, Title.loadKeyframes]
  · simp [hzero, loadKeyframes_eq_some.mpr ⟨rfl, hne, rfl⟩]

theorem gridStart_reencode_ne_none {t : Title} (hre : t.plan.reencodesVideo = true)
    {foundAgain : Bool} {toSecs : ℕ} : gridStart t foundAgain toSecs ≠ none := by
  rw [gridStart, if_pos hre]
  split_ifs <;> exact Option.some_ne_none _

/-! ### The numbers of a session -/

theorem offEncoderRange_iff : offEncoderRange s.startNumber s.numbers index = true ↔
    index < s.startNumber ∨ s.frontier + backfillAheadSegments < index := by
  rw [offEncoderRange, Bool.not_eq_true', Bool.and_eq_false_iff, decide_eq_false_iff_not,
    decide_eq_false_iff_not, not_le, not_le]
  rfl

/-- Off the grid a restart is not numbered before the child that it replaces, nor far behind the
files. -/
theorem seekNumber_of_none {foundAgain : Bool} {toSecs : ℕ}
    (h : gridStart s.title foundAgain toSecs = none) :
    s.startNumber ≤ s.seekNumber foundAgain toSecs ∧
      s.seekNumber foundAgain toSecs ≤ s.frontier + 1 := by
  rw [State.seekNumber, State.frontier, h]
  rcases s.numbers.max? with _ | m
  · exact ⟨le_rfl, Nat.le_succ _⟩
  · simp only [Option.map_some, Option.getD_some]
    omega

theorem seekNumber_of_some {foundAgain : Bool} {toSecs secs n : ℕ}
    (h : gridStart s.title foundAgain toSecs = some (secs, n)) :
    s.seekNumber foundAgain toSecs = n := by
  rw [State.seekNumber, h]

theorem produces_false (first : ℕ) (h : backfill s l index = some (false, first)) :
    Produces s l index := ⟨false, first, h, by rintro ⟨⟩⟩

theorem backfill_off (hgrid : s.onGrid = true) (hlimit : ¬LimitOverflows s index)
    (hoff : offEncoderRange s.startNumber s.numbers index = true) :
    backfill s l index = (s.secs l.found index).map fun toSecs =>
      match toSecs with
      | none => (false, s.startNumber)
      | some toSecs =>
        if l.busy then (false, s.startNumber)
        else (l.spawned, s.seekNumber l.foundAgain toSecs) := by
  rw [backfill, hgrid, offRange_eq hlimit, hoff]
  rcases s.secs l.found index with _ | _ | toSecs
  · rfl
  · rfl
  · rcases l.busy with _ | _ <;> rfl

theorem produces_of_secs (hgrid : s.onGrid = true) (hlimit : ¬LimitOverflows s index)
    (hoff : offEncoderRange s.startNumber s.numbers index = true)
    (hsecs : s.secs l.found index = some (backfillSecs s.title l.found index)) :
    Produces s l index ↔ ∀ toSecs, backfillSecs s.title l.found index = some toSecs →
      l.busy = false → l.spawned = true → gridStart s.title l.foundAgain toSecs = none →
        s.startNumber ≤ index := by
  have hrun := backfill_off (l := l) hgrid hlimit hoff
  rw [hsecs, Option.map_some] at hrun
  rcases hto : backfillSecs s.title l.found index with _ | toSecs
  · rw [hto] at hrun
    exact ⟨fun _ => by rintro _ ⟨⟩, fun _ => produces_false _ hrun⟩
  rw [hto] at hrun
  rcases hbusy : l.busy with _ | _
  · simp only [hbusy, Bool.false_eq_true, if_false] at hrun
    have hlanding : (s.seekNumber l.foundAgain toSecs ≤ index) ↔
        (gridStart s.title l.foundAgain toSecs = none → s.startNumber ≤ index) := by
      rcases hg : gridStart s.title l.foundAgain toSecs with _ | ⟨secs, n⟩
      · obtain ⟨hlow, hhigh⟩ := seekNumber_of_none hg
        rw [offEncoderRange_iff, backfillAheadSegments, Fin.lt_def] at hoff
        rw [Fin.le_def]
        refine ⟨fun h _ => hlow.trans h, fun h => ?_⟩
        have := h rfl
        omega
      · rw [seekNumber_of_some hg]
        exact ⟨fun _ => by rintro ⟨⟩, fun _ => gridStart_le hto hg⟩
    constructor
    · rintro ⟨begun, first, h, hle⟩ _ ⟨⟩ _ hspawned hg
      rw [hrun] at h
      obtain ⟨rfl, rfl⟩ := Prod.mk.inj (Option.some.inj h)
      exact hlanding.mp (hle hspawned) hg
    · exact fun h => ⟨_, _, hrun, fun hspawned => hlanding.mpr (h _ rfl rfl hspawned)⟩
  · simp only [hbusy, if_true] at hrun
    exact ⟨fun _ _ _ => by rintro ⟨⟩, fun _ => produces_false _ hrun⟩

theorem produces_of_reencode (hgrid : s.onGrid = true) (hlimit : ¬LimitOverflows s index)
    (hoff : offEncoderRange s.startNumber s.numbers index = true)
    (hre : s.title.plan.reencodesVideo = true) :
    Produces s l index ↔ index * hlsSegmentSecs ≤ u64Max := by
  constructor
  · rintro ⟨begun, first, h, _⟩
    by_contra hlt
    rw [backfill_off hgrid hlimit hoff, State.secs, if_pos hre,
      checkedMul_eq_none (not_le.mp hlt)] at h
    cases h
  · intro hle
    rw [produces_of_secs hgrid hlimit hoff (secs_eq fun _ => hle)]
    exact fun _ _ _ _ hg => absurd hg (gridStart_reencode_ne_none hre)

theorem produces_of_copy (hgrid : s.onGrid = true) (hlimit : ¬LimitOverflows s index)
    (hoff : offEncoderRange s.startNumber s.numbers index = true)
    (hcopy : s.title.plan.reencodesVideo = false) :
    Produces s l index ↔ ¬KeyframesLost s l index := by
  rw [produces_of_secs hgrid hlimit hoff (secs_eq fun hre => absurd (hcopy.symm.trans hre)
    Bool.false_ne_true)]
  constructor
  · rintro h ⟨_, hlt, hfound, hagain, hbusy, hspawned, opens, hopens, hone⟩
    refine absurd (h ⌊opens⌋₊ ((backfillSecs_copy hcopy).mpr ⟨hfound, opens, hopens, rfl⟩) hbusy
      hspawned ?_) (Fin.not_le.mpr hlt)
    exact (gridStart_copy_eq_none hcopy hopens).mpr
      ⟨hagain, (Nat.floor_pos.mpr hone).ne'⟩
  · intro h toSecs hto hbusy hspawned hg
    obtain ⟨hfound, opens, hopens, rfl⟩ := (backfillSecs_copy hcopy).mp hto
    obtain ⟨hagain, hsecs⟩ := (gridStart_copy_eq_none hcopy hopens).mp hg
    exact Fin.not_lt.mp fun hlt => h ⟨hcopy, hlt, hfound, hagain, hbusy, hspawned, opens, hopens,
      Nat.floor_pos.mp (Nat.pos_of_ne_zero hsecs)⟩

/-- **When a backfill does what it is for**: the session is off the grid, and there is none; or no
arithmetic overflows and no keyframes are lost. -/
theorem produces_iff (s : State) (l : Luck) (index : U64) :
    Produces s l index ↔ (s.onGrid = true →
      ¬LimitOverflows s index ∧ ¬SecsOverflow s index ∧ ¬KeyframesLost s l index) := by
  rcases hgrid : s.onGrid with _ | _
  · refine ⟨fun _ => by rintro ⟨⟩, fun _ => produces_false s.startNumber ?_⟩
    rw [backfill, hgrid]
    rfl
  rw [eq_self_iff_true, true_imp_iff]
  by_cases hlimit : LimitOverflows s index
  · refine ⟨?_, fun h => absurd hlimit h.1⟩
    rintro ⟨begun, first, h, _⟩
    rw [backfill, hgrid, offRange_eq_none hlimit] at h
    cases h
  by_cases hoff : offEncoderRange s.startNumber s.numbers index = true
  · rcases hplan : s.title.plan.reencodesVideo with _ | _
    · -- a copy multiplies nothing
      rw [produces_of_copy hgrid hlimit hoff hplan]
      exact ⟨fun h => ⟨hlimit, fun ho => absurd (hplan.symm.trans ho.1) Bool.false_ne_true, h⟩,
        fun h => h.2.2⟩
    · -- an encode has no use for keyframes
      rw [produces_of_reencode hgrid hlimit hoff hplan]
      exact ⟨fun h => ⟨hlimit, fun ho => not_lt.mpr h ho.2.2,
        fun hk => absurd (hk.1.symm.trans hplan) Bool.false_ne_true⟩,
        fun h => not_lt.mp fun hlt => h.2.1 ⟨hplan, hoff, hlt⟩⟩
  · -- nothing is begun for a segment that the encoder will write
    refine ⟨fun _ => ⟨hlimit, fun ho => hoff ho.2.1,
      fun hk => hoff (offEncoderRange_iff.mpr (.inl hk.2.1))⟩,
      fun _ => produces_false s.startNumber ?_⟩
    rw [backfill, hgrid, offRange_eq hlimit, Bool.eq_false_iff.mpr hoff]
    rfl

/-- A film that is encoded anew and has just begun. -/
def film : State :=
  { title := { plan := .transcode .encodeH264, live := false, durationSecs := some 7200
               keyframes := [0], ascending := List.pairwise_singleton .. }
    onGrid := true, startNumber := 0, files := [] }

def ready : Luck := ⟨true, true, false, true⟩

/-- **The request for `seg_9223372036854775808.ts` overflows.** -/
theorem not_produces_film : ¬Produces film ready (Fin.ofNat _ 9223372036854775808) := by
  rintro ⟨begun, first, h, _⟩
  have hoverflow : backfill film ready (Fin.ofNat _ 9223372036854775808) = none := rfl
  exact absurd (hoverflow.symm.trans h) (Option.some_ne_none _).symm

end EmeraldExchange.Transcoder.Backfill
