import Mathlib.Data.Rat.Floor
import Mathlib.Tactic.Linarith
import EmeraldExchange.Lib.IndexMap
import EmeraldExchange.Lib.Runs
import EmeraldExchange.Gateway.Stores

/-!
# Watching together

Members of a group watch one item under one shared transport. The playhead is not stored: a group
keeps where it was (`positionSecs`) and when that was (`atMs`), and reads it off the clock while it
plays. A member who has not polled for a minute is dropped by whichever request comes next, to whatever
group, and with the last member goes the group.

Pollers tell by `version` whether anything they show has changed, so every change has to raise it:
two polls that return one version report one roster and one transport
(`rooms_coherent`). What a request does to a group is a function of
the group (`Group.join`, `Group.leave`, `Group.poll`, `Group.command`), and what has to be known of
it is `Group.Follows`: the state before and the state after.

Positions are exact rationals. A group is named by a random identifier, of which it is only used
that no two are the same.
-/

namespace EmeraldExchange.Gateway.Syncplay

def memberIdleMs : ℤ := 60000

structure Member where
  username : String
  lastSeenMs : ℤ

inductive MediaKind
  | movie | episode
  deriving DecidableEq

/-- **A group**, with its members in the order in which they joined. -/
structure Group where
  id : String
  hostSub : String
  mediaKind : MediaKind
  mediaId : ℕ
  paused : Bool
  /-- The playhead when `atMs` was stamped. -/
  positionSecs : ℚ
  atMs : ℤ
  version : ℕ
  members : IndexMap String Member

namespace Group

/-- **The playhead**: it stands while paused, and follows the clock while playing. -/
def position (g : Group) (nowMs : ℤ) : ℚ :=
  if g.paused then g.positionSecs else max (g.positionSecs + ((nowMs - g.atMs : ℤ) : ℚ) / 1000) 0

/-- Hand hosting over to the member who joined first. -/
def rehost (g : Group) : Group :=
  match g.members.firstKey with
  | some first => { g with hostSub := first }
  | none => g

/-- Take a member out, handing hosting over if it was theirs. -/
def remove (g : Group) (sub : String) : Group :=
  let g := { g with members := g.members.shiftRemove sub }
  if g.hostSub = sub then g.rehost else g

end Group

/-! ### What a member sees -/

structure MemberView where
  sub : String
  username : String
  deriving DecidableEq

structure Snapshot where
  id : String
  hostSub : String
  mediaKind : MediaKind
  mediaId : ℕ
  paused : Bool
  positionSecs : ℚ
  version : ℕ
  members : List MemberView
  memberCount : Option ℕ
  deriving DecidableEq

/-- `f64::round`: the nearest integer, a half away from zero. -/
def roundAway (x : ℚ) : ℤ := if 0 ≤ x then ⌊x + 1 / 2⌋ else ⌈x - 1 / 2⌉

/-- `Math.round(x * 1000) / 1000` -/
def jsRound3 (x : ℚ) : ℚ := roundAway (x * 1000) / 1000

def Group.roster (g : Group) : List MemberView :=
  g.members.entries.map fun e => ⟨e.1, e.2.username⟩

/-- **What is reported of a group.** -/
def Group.snapshot (g : Group) (nowMs : ℤ) (withCount : Bool) : Snapshot where
  id := g.id
  hostSub := g.hostSub
  mediaKind := g.mediaKind
  mediaId := g.mediaId
  paused := g.paused
  positionSecs := jsRound3 (g.position nowMs)
  version := g.version
  members := g.roster
  memberCount := if withCount then some g.members.entries.length else none

/-! ### The requests -/

structure Caller where
  sub : String
  username : String

/-- A reply, an error with its status and code. -/
inductive Reply
  | items (items : List Snapshot)
  | snapshot (s : Snapshot)
  | ok
  | err (status : ℕ) (code : String)
  deriving DecidableEq

def notFound : Reply := .err 404 "not_found"

def notMember : Reply := .err 403 "not_member"

abbrev Groups := IndexMap String Group

/-- The members who have been silent for too long. -/
def Group.idle (g : Group) (nowMs : ℤ) : List String :=
  (g.members.entries.filter fun e => nowMs - e.2.lastSeenMs > memberIdleMs).map Prod.fst

/-- **Drop the idle members of a group**, which is a change that pollers are to notice. -/
def Group.dropIdle (g : Group) (nowMs : ℤ) : Group :=
  let idle := g.idle nowMs
  let g := idle.foldl Group.remove g
  if idle ≠ [] ∧ g.members.isEmpty = false then { g with version := g.version + 1 } else g

/-- **Drop the idle members, then the groups left empty.** -/
def pruneIdle (groups : Groups) (nowMs : ℤ) : Groups :=
  groups.retainMut fun _ g =>
    let g := g.dropIdle nowMs
    if g.members.isEmpty then none else some g

/-- A group with its first member, paused at the start. -/
def Group.create (id : String) (p : Caller) (mediaKind : MediaKind) (mediaId : ℕ) (now : ℤ) :
    Group where
  id := id
  hostSub := p.sub
  mediaKind := mediaKind
  mediaId := mediaId
  paused := true
  positionSecs := 0
  atMs := now
  version := 1
  members := .single p.sub ⟨p.username, now⟩

def Group.see (g : Group) (sub username : String) (now : ℤ) : Group :=
  { g with members := g.members.insert sub ⟨username, now⟩ }

def Group.join (g : Group) (p : Caller) (now : ℤ) : Option Group × Reply :=
  let g := g.see p.sub p.username now
  let g := { g with version := g.version + 1 }
  (some g, .snapshot (g.snapshot now false))

def Group.leave (g : Group) (sub : String) : Option Group × Reply :=
  let left := { g with members := g.members.shiftRemove sub }
  if left.members.isEmpty then (none, .ok)
  else
    let left := if left.hostSub = sub then left.rehost else left
    (some { left with version := left.version + 1 }, .ok)

def Group.poll (g : Group) (sub : String) (now : ℤ) : Option Group × Reply :=
  match g.members.lookup sub with
  | none => (some g, notMember)
  | some m =>
    let g := g.see sub m.username now
    (some g, .snapshot (g.snapshot now false))

inductive CommandKind
  | play | pause | seek
  deriving DecidableEq

/-- **A command**: the playhead is taken anew, from the caller or from the clock. -/
def Group.command (g : Group) (sub : String) (kind : CommandKind) (position : Option ℚ) (now : ℤ) :
    Option Group × Reply :=
  match g.members.lookup sub with
  | none => (some g, notMember)
  | some m =>
    let g := g.see sub m.username now
    let g := { g with positionSecs := max (position.getD (g.position now)) 0, atMs := now }
    let g :=
      match kind with
      | .play => { g with paused := false }
      | .pause => { g with paused := true }
      | .seek => g
    let g := { g with version := g.version + 1 }
    (some g, .snapshot (g.snapshot now false))

/-- Resolve a group, do something to it, and remove it if nothing is left. -/
def withGroup (groups : Groups) (id : String) (f : Group → Option Group × Reply) :
    Groups × Reply :=
  match groups.lookup id with
  | none => (groups, notFound)
  | some g =>
    match f g with
    | (some g', reply) => (groups.insert id g', reply)
    | (none, reply) => (groups.shiftRemove id, reply)

def parseCreate (body : JsonTree) : Except Reply (MediaKind × ℕ) :=
  let kind : Option MediaKind :=
    match (body.get "media_kind").bind JsonTree.asStr with
    | some "movie" => some .movie
    | some "episode" => some .episode
    | _ => none
  match kind with
  | none => .error (.err 400 "invalid_media_kind")
  | some kind =>
    match (body.get "media_id").bind positiveInt with
    | none => .error (.err 400 "invalid_media_id")
    | some id => .ok (kind, id)

/-- The command of a body; a seek must carry a position. -/
def parseCommand (body : JsonTree) : Except Reply (CommandKind × Option ℚ) :=
  let kind : Option CommandKind :=
    match (body.get "type").bind JsonTree.asStr with
    | some "play" => some .play
    | some "pause" => some .pause
    | some "seek" => some .seek
    | _ => none
  match kind with
  | none => .error (.err 400 "invalid_type")
  | some kind =>
    match body.get "position_secs" with
    | some v =>
      match v.asNum with
      | some n => .ok (kind, some n)
      | none => .error (.err 400 "invalid_position")
    | none => if kind = .seek then .error (.err 400 "invalid_position") else .ok (kind, none)

inductive Request
  | list
  | create (p : Caller) (body : JsonTree)
  | join (p : Caller) (id : String)
  | leave (p : Caller) (id : String)
  | poll (p : Caller) (id : String)
  | command (p : Caller) (id : String) (body : JsonTree)

/-! ### The service -/

/-- The groups, the last reading of the clock, and how many identifiers were given out. -/
structure World where
  groups : Groups
  nowMs : ℤ
  issued : ℕ

section Service

variable (newId : ℕ → String)

/-- **What a request does**, and what it answers. A body is read before the groups are locked, and
what is wrong with it is answered without a look at them. -/
def World.handle (w : World) (now : ℤ) (r : Request) : World × Reply :=
  let groups := pruneIdle w.groups now
  match r with
  | .list =>
    ({ w with groups := groups, nowMs := now },
      .items (groups.values.map fun g => g.snapshot now true))
  | .create p body =>
    match parseCreate body with
    | .error e => ({ w with nowMs := now }, e)
    | .ok (kind, mediaId) =>
      let id := newId w.issued
      let g := Group.create id p kind mediaId now
      (⟨groups.insert id g, now, w.issued + 1⟩, .snapshot (g.snapshot now false))
  | .join p id =>
    let (groups, reply) := withGroup groups id fun g => g.join p now
    ({ w with groups := groups, nowMs := now }, reply)
  | .leave p id =>
    let (groups, reply) := withGroup groups id fun g => g.leave p.sub
    ({ w with groups := groups, nowMs := now }, reply)
  | .poll p id =>
    let (groups, reply) := withGroup groups id fun g => g.poll p.sub now
    ({ w with groups := groups, nowMs := now }, reply)
  | .command p id body =>
    match parseCommand body with
    | .error e => ({ w with nowMs := now }, e)
    | .ok (kind, position) =>
      let (groups, reply) := withGroup groups id fun g => g.command p.sub kind position now
      ({ w with groups := groups, nowMs := now }, reply)

/-- A request at a time that is not before the last one. -/
def step (w : World) (a : ℤ × Request) : Option World :=
  if a.1 < w.nowMs then none else some (w.handle newId a.1 a.2).1

/-- No group, and some reading of the clock. -/
def World.start (nowMs : ℤ) : World := ⟨.empty, nowMs, 0⟩

end Service

/-! ### What a change does to a group -/

/-- What pollers are to notice: the host, the roster, and the transport with its base. -/
def Group.view (g : Group) : String × List MemberView × Bool × ℚ × ℤ :=
  (g.hostSub, g.roster, g.paused, g.positionSecs, g.atMs)

/-- **A group and what became of it**: the version does not fall, and where it has not risen there
is nothing to notice. -/
structure Group.Follows (g g' : Group) : Prop where
  version_le : g.version ≤ g'.version
  view_eq : g.version = g'.version → g.view = g'.view

namespace Group

/-- **What holds of a stored group**: its host is a member, its playhead is not before the start,
and it was not stamped in the future. -/
structure Ok (g : Group) (nowMs : ℤ) : Prop where
  host_mem : g.hostSub ∈ g.members.keys
  position_nonneg : 0 ≤ g.positionSecs
  at_le : g.atMs ≤ nowMs

/-- What a request may make of a group that is stored. -/
structure Later (now : ℤ) (g g' : Group) : Prop where
  follows : g.Follows g'
  ok : g.Ok now → g'.Ok now

variable {g g' g'' : Group} {now now' : ℤ} {sub : String}

theorem Follows.refl (g : Group) : g.Follows g := ⟨le_rfl, fun _ => rfl⟩

theorem Follows.trans (h : g.Follows g') (h' : g'.Follows g'') : g.Follows g'' := by
  refine ⟨h.version_le.trans h'.version_le, fun heq => ?_⟩
  have hle := h.version_le
  have hle' := h'.version_le
  exact (h.view_eq (by omega)).trans (h'.view_eq (by omega))

theorem Follows.of_lt (h : g.version < g'.version) : g.Follows g' :=
  ⟨h.le, fun heq => absurd heq h.ne⟩

theorem Later.refl (now : ℤ) (g : Group) : g.Later now g := ⟨.refl g, fun h => h⟩

theorem Later.trans (h : g.Later now g') (h' : g'.Later now g'') : g.Later now g'' :=
  ⟨h.follows.trans h'.follows, h'.ok ∘ h.ok⟩

theorem Ok.mono (h : g.Ok now) (hle : now ≤ now') : g.Ok now' :=
  ⟨h.host_mem, h.position_nonneg, h.at_le.trans hle⟩

theorem Ok.not_isEmpty (h : g.Ok now) : g.members.isEmpty = false := by
  rcases hm : g.members.isEmpty with _ | _
  · rfl
  · exact absurd (IndexMap.isEmpty_iff.mp hm ▸ h.host_mem) List.not_mem_nil

/-! Dropping members. -/

def Hosted (g : Group) : Prop := g.members.isEmpty = false → g.hostSub ∈ g.members.keys

theorem hosted_rehost (g : Group) : g.rehost.Hosted := by
  intro hne
  have hmem : g.rehost.members = g.members := by
    rw [rehost]
    split <;> rfl
  rw [hmem] at hne ⊢
  obtain ⟨first, hfirst⟩ := IndexMap.exists_firstKey hne
  rw [rehost, hfirst]
  exact IndexMap.mem_keys_of_firstKey hfirst

theorem hosted_remove (h : g.Hosted) (sub : String) : (g.remove sub).Hosted := by
  simp only [remove]
  split
  · exact hosted_rehost _
  · next hne =>
    intro hleft
    -- someone is left, so there was someone before, and the host is not who went
    refine IndexMap.mem_keys_shiftRemove.mpr ⟨hne, h ?_⟩
    obtain ⟨k, hk⟩ := IndexMap.exists_firstKey hleft
    have hmem := (IndexMap.mem_keys_shiftRemove.mp (IndexMap.mem_keys_of_firstKey hk)).2
    rcases he : g.members.isEmpty with _ | _
    · rfl
    · exact absurd (IndexMap.isEmpty_iff.mp he ▸ hmem) List.not_mem_nil

def transport (g : Group) : Bool × ℚ × ℤ × ℕ := (g.paused, g.positionSecs, g.atMs, g.version)

@[simp] theorem transport_rehost (g : Group) : g.rehost.transport = g.transport := by
  rw [rehost]
  split <;> rfl

@[simp] theorem transport_remove (g : Group) (sub : String) :
    (g.remove sub).transport = g.transport := by
  simp only [remove]
  split
  · exact transport_rehost _
  · rfl

theorem hosted_foldl_remove (subs : List String) (h : g.Hosted) :
    (subs.foldl remove g).Hosted := by
  induction subs generalizing g with
  | nil => exact h
  | cons sub subs ih => exact ih (hosted_remove h sub)

theorem transport_foldl_remove (subs : List String) (g : Group) :
    (subs.foldl remove g).transport = g.transport := by
  induction subs generalizing g with
  | nil => rfl
  | cons sub subs ih => rw [List.foldl_cons, ih, transport_remove]

theorem dropIdle_of_idle_nil (h : g.idle now = []) : g.dropIdle now = g := by
  simp [dropIdle, h]

theorem dropIdle_position (g : Group) (now t : ℤ) :
    (g.dropIdle now).position t = g.position t := by
  have htransport := transport_foldl_remove (g.idle now) g
  simp only [transport, Prod.mk.injEq] at htransport
  obtain ⟨hpaused, hpos, hat, -⟩ := htransport
  simp only [dropIdle]
  split <;> simp [position, hpaused, hpos, hat]

/-- **Idle members are dropped with notice.** -/
theorem later_dropIdle (hleft : (g.dropIdle now).members.isEmpty = false) :
    g.Later now (g.dropIdle now) := by
  rcases eq_or_ne (g.idle now) [] with hnil | hidle
  · rw [dropIdle_of_idle_nil hnil]
    exact .refl now g
  · have htransport := transport_foldl_remove (g.idle now) g
    simp only [transport, Prod.mk.injEq] at htransport
    obtain ⟨-, hpos, hat, hversion⟩ := htransport
    -- someone was dropped, and someone is left: the version has risen
    have hsome : ((g.idle now).foldl remove g).members.isEmpty = false := by
      simp only [dropIdle] at hleft
      split at hleft
      · exact hleft
      · exact hleft
    have hdrop : g.dropIdle now = { (g.idle now).foldl remove g with
        version := ((g.idle now).foldl remove g).version + 1 } := by
      simp only [dropIdle]
      rw [if_pos ⟨hidle, hsome⟩]
    rw [hdrop]
    constructor
    · refine .of_lt ?_
      show g.version < ((g.idle now).foldl remove g).version + 1
      omega
    · rintro ⟨hhost, hnonneg, hle⟩
      refine ⟨?_, ?_, ?_⟩
      · exact hosted_foldl_remove (g.idle now) (fun _ => hhost) hsome
      · exact hpos ▸ hnonneg
      · exact hat ▸ hle

/-! What the requests do. -/

theorem Ok.see (h : g.Ok now) (sub username : String) (t : ℤ) : (g.see sub username t).Ok now :=
  ⟨IndexMap.mem_keys_insert.mpr (Or.inr h.host_mem), h.position_nonneg, h.at_le⟩

theorem roster_see {m : Member} (h : g.members.lookup sub = some m) (t : ℤ) :
    (g.see sub m.username t).roster = g.roster := by
  have hmem : sub ∈ g.members.keys := IndexMap.mem_keys.mpr ⟨m, h⟩
  simp only [roster, see, IndexMap.insert, if_pos hmem, List.map_map]
  refine List.map_congr_left fun e he => ?_
  rcases eq_or_ne e.1 sub with hsub | hsub
  · -- there is one row of this member
    have hm : g.members.lookup sub = some e.2 := IndexMap.lookup_eq_some.mpr (hsub ▸ he)
    obtain rfl := Option.some.inj (h.symm.trans hm)
    simp [hsub]
  · simp [hsub]

/-- **Joining is noticed**, also by who has joined before. -/
theorem later_join {p : Caller} (h : (g.join p now).1 = some g') : g.Later now g' := by
  obtain rfl := Option.some.inj h
  refine ⟨.of_lt (Nat.lt_succ_self _), fun hok => ?_⟩
  have hsee := hok.see p.sub p.username now
  exact ⟨hsee.host_mem, hsee.position_nonneg, hsee.at_le⟩

/-- **Leaving is noticed**, also where the caller was no member. -/
theorem later_leave (h : (g.leave sub).1 = some g') : g.Later now g' := by
  have hleave : g.leave sub =
      if (g.members.shiftRemove sub).isEmpty then (none, .ok)
      else (some { g.remove sub with version := (g.remove sub).version + 1 }, .ok) := rfl
  have htransport := transport_remove g sub
  simp only [transport, Prod.mk.injEq] at htransport
  obtain ⟨-, hpos, hat, hversion⟩ := htransport
  rw [hleave] at h
  split at h
  · cases h
  · next hleft =>
    obtain rfl := Option.some.inj h
    constructor
    · refine .of_lt ?_
      show g.version < (g.remove sub).version + 1
      omega
    · rintro ⟨hhost, hnonneg, hle⟩
      refine ⟨?_, hpos ▸ hnonneg, hat ▸ hle⟩
      refine hosted_remove (fun _ => hhost) sub ?_
      have hmem : (g.remove sub).members = g.members.shiftRemove sub := by
        simp only [remove]
        split
        · rw [rehost]
          split <;> rfl
        · rfl
      rw [hmem]
      exact Bool.eq_false_iff.mpr hleft

/-- **A poll shows nothing new**: it writes the time of its caller alone. -/
theorem later_poll (h : (g.poll sub now).1 = some g') : g.Later now g' := by
  rw [poll] at h
  split at h
  · obtain rfl := Option.some.inj h
    exact .refl now g
  · next m hm =>
    obtain rfl := Option.some.inj h
    refine ⟨⟨le_rfl, fun _ => ?_⟩, fun hok => hok.see sub m.username now⟩
    show (_, g.roster, _) = (_, (g.see sub m.username now).roster, _)
    rw [roster_see hm]
    rfl

/-- **A command is noticed**, and puts the playhead where it is not before the start. -/
theorem later_command {kind : CommandKind} {position : Option ℚ}
    (h : (g.command sub kind position now).1 = some g') : g.Later now g' := by
  rw [command] at h
  split at h
  · obtain rfl := Option.some.inj h
    exact .refl now g
  · next m hm =>
    obtain rfl := Option.some.inj h
    constructor
    · refine .of_lt ?_
      rcases kind with _ | _ | _ <;> exact Nat.lt_succ_self _
    · intro hok
      have hsee := hok.see sub m.username now
      rcases kind with _ | _ | _ <;> exact ⟨hsee.host_mem, le_max_right _ _, le_rfl⟩

theorem ok_create (id : String) (p : Caller) (kind : MediaKind) (mediaId : ℕ) (now : ℤ) :
    (Group.create id p kind mediaId now).Ok now :=
  ⟨List.mem_singleton.mpr rfl, le_rfl, le_rfl⟩

/-! The playhead. -/

theorem Ok.position_eq (h : g.Ok now) (hle : now ≤ now') :
    g.position now' =
      g.positionSecs + if g.paused then 0 else ((now' - g.atMs : ℤ) : ℚ) / 1000 := by
  rw [position]
  split
  · rw [add_zero]
  · have helapsed : (0 : ℚ) ≤ ((now' - g.atMs : ℤ) : ℚ) := by
      have hat := h.at_le
      exact_mod_cast (by omega : (0 : ℤ) ≤ now' - g.atMs)
    have hnonneg := h.position_nonneg
    exact max_eq_left (by positivity)

theorem Ok.position_nonneg' (h : g.Ok now) (hle : now ≤ now') : 0 ≤ g.position now' := by
  rw [h.position_eq hle]
  have hat := h.at_le
  have hnonneg := h.position_nonneg
  have helapsed : (0 : ℚ) ≤ ((now' - g.atMs : ℤ) : ℚ) := by
    exact_mod_cast (by omega : (0 : ℤ) ≤ now' - g.atMs)
  split <;> positivity

/-- **A command without a position leaves the playhead where it is.** -/
theorem position_command {kind : CommandKind} (hok : g.Ok now)
    (h : (g.command sub kind none now).1 = some g') : g'.position now = g.position now := by
  rw [command] at h
  split at h
  · obtain rfl := Option.some.inj h
    rfl
  · next m hm =>
    obtain rfl := Option.some.inj h
    -- whatever the transport becomes, the base is the old playhead, stamped now
    have hbase : ∀ b : Bool, (if b then max (g.position now) 0
        else max (max (g.position now) 0 + ((now - now : ℤ) : ℚ) / 1000) 0) = g.position now := by
      intro b
      have hnonneg := hok.position_nonneg' le_rfl
      rw [max_eq_left hnonneg, sub_self]
      split
      · rfl
      · simpa using hnonneg
    rcases kind with _ | _ | _
    · exact hbase false
    · exact hbase true
    · exact hbase g.paused

end Group

/-! ### The reported playhead -/

theorem jsRound3_add_ms {x : ℚ} (hx : 0 ≤ x) (ms : ℤ) (hsum : 0 ≤ x + (ms : ℚ) / 1000) :
    jsRound3 (x + (ms : ℚ) / 1000) = jsRound3 x + (ms : ℚ) / 1000 := by
  have hthousand : (x + (ms : ℚ) / 1000) * 1000 = x * 1000 + ms := by ring
  have hfloor : ⌊x * 1000 + (ms : ℚ) + 1 / 2⌋ = ⌊x * 1000 + 1 / 2⌋ + ms := by
    rw [show x * 1000 + (ms : ℚ) + 1 / 2 = x * 1000 + 1 / 2 + (ms : ℚ) by ring,
      Int.floor_add_intCast]
  rw [jsRound3, jsRound3, roundAway, roundAway, if_pos (by positivity), if_pos (by positivity),
    hthousand, hfloor, Int.cast_add]
  ring

/-- **Two playheads of one transport** are apart by the time that has passed while it plays. -/
theorem Group.reported_sub {g g' : Group} {now now' : ℤ} (hok : g.Ok now) (hok' : g'.Ok now')
    (hview : g.view = g'.view) :
    jsRound3 (g'.position now') - jsRound3 (g.position now) =
      if g.paused then 0 else ((now' - now : ℤ) : ℚ) / 1000 := by
  simp only [Group.view, Prod.mk.injEq] at hview
  obtain ⟨-, -, hpaused, hpos, hat⟩ := hview
  have hposition := hok.position_eq le_rfl
  have hposition' := hok'.position_eq le_rfl
  rw [← hpaused, ← hpos, ← hat] at hposition'
  split
  · next hp =>
    rw [if_pos hp] at hposition hposition'
    rw [hposition, hposition', sub_self]
  · next hp =>
    rw [if_neg hp] at hposition hposition'
    have hmove : g'.position now' = g.position now + ((now' - now : ℤ) : ℚ) / 1000 := by
      rw [hposition, hposition']
      push_cast
      ring
    have hnonneg := hok.position_nonneg' le_rfl
    have hnonneg' := hok'.position_nonneg' le_rfl
    rw [hmove] at hnonneg' ⊢
    rw [jsRound3_add_ms hnonneg _ hnonneg']
    ring

/-! ### What a request does to the stored groups -/

theorem lookup_withGroup (groups : Groups) (id : String) (f : Group → Option Group × Reply)
    (k : String) : (withGroup groups id f).1.lookup k =
      if k = id then (groups.lookup id).bind fun g => (f g).1 else groups.lookup k := by
  rw [withGroup]
  split
  · next h =>
    split
    · next hk => rw [hk, h, Option.bind_none]
    · rfl
  · next g hg =>
    rw [hg, Option.bind_some]
    split
    · next g' _ hf => rw [IndexMap.lookup_insert, hf]
    · next hf => rw [IndexMap.lookup_shiftRemove, hf]

/-- **What is left of a pruned group** came from it with notice. -/
theorem later_of_pruneIdle {groups : Groups} {now : ℤ} {id : String} {g' : Group}
    (h : (pruneIdle groups now).lookup id = some g') :
    ∃ g, groups.lookup id = some g ∧ g.Later now g' ∧ ∀ t, g'.position t = g.position t := by
  rw [pruneIdle, IndexMap.lookup_retainMut] at h
  obtain ⟨g, hg, hkeep⟩ := Option.bind_eq_some_iff.mp h
  dsimp only at hkeep
  split at hkeep
  · cases hkeep
  · next hleft =>
    obtain rfl := Option.some.inj hkeep
    exact ⟨g, hg, Group.later_dropIdle (Bool.eq_false_iff.mpr hleft),
      fun t => Group.dropIdle_position g now t⟩

theorem later_of_withGroup {groups : Groups} {now : ℤ} {id k : String} {g' : Group}
    {f : Group → Option Group × Reply} (hf : ∀ g g', (f g).1 = some g' → g.Later now g')
    (h : (withGroup (pruneIdle groups now) id f).1.lookup k = some g') :
    ∃ g, groups.lookup k = some g ∧ g.Later now g' := by
  rw [lookup_withGroup] at h
  split at h
  · next hk =>
    obtain ⟨g₀, hg₀, hdone⟩ := Option.bind_eq_some_iff.mp h
    obtain ⟨g, hg, hlater, -⟩ := later_of_pruneIdle hg₀
    exact ⟨g, hk ▸ hg, hlater.trans (hf g₀ g' hdone)⟩
  · obtain ⟨g, hg, hlater, -⟩ := later_of_pruneIdle h
    exact ⟨g, hg, hlater⟩

section Service

variable {newId : ℕ → String} {w w' : World}

/-- **What a request leaves in the store**: groups that were there, moved on, and one that it has
created under the next identifier. -/
theorem handle_cases {now : ℤ} {r : Request} {id : String} {g' : Group}
    (h : (w.handle newId now r).1.groups.lookup id = some g') :
    (∃ g, w.groups.lookup id = some g ∧ g.Later now g') ∨
      (id = newId w.issued ∧ (w.handle newId now r).1.issued = w.issued + 1 ∧ g'.Ok now) := by
  rcases r with _ | ⟨p, body⟩ | ⟨p, gid⟩ | ⟨p, gid⟩ | ⟨p, gid⟩ | ⟨p, gid, body⟩
  · obtain ⟨g, hg, hlater, -⟩ := later_of_pruneIdle h
    exact Or.inl ⟨g, hg, hlater⟩
  · simp only [World.handle] at h ⊢
    split at h
    · exact Or.inl ⟨g', h, .refl now g'⟩
    · next kind mediaId _ =>
      rw [IndexMap.lookup_insert] at h
      split at h
      · next hid =>
        obtain rfl := Option.some.inj h
        exact Or.inr ⟨hid, rfl, Group.ok_create _ p kind mediaId now⟩
      · obtain ⟨g, hg, hlater, -⟩ := later_of_pruneIdle h
        exact Or.inl ⟨g, hg, hlater⟩
  · exact Or.inl (later_of_withGroup (fun _ _ => Group.later_join) h)
  · exact Or.inl (later_of_withGroup (fun _ _ => Group.later_leave) h)
  · exact Or.inl (later_of_withGroup (fun _ _ => Group.later_poll) h)
  · simp only [World.handle] at h
    split at h
    · exact Or.inl ⟨g', h, .refl now g'⟩
    · exact Or.inl (later_of_withGroup (fun _ _ => Group.later_command) h)

theorem handle_clock (newId : ℕ → String) (w : World) (now : ℤ) (r : Request) :
    (w.handle newId now r).1.nowMs = now ∧ w.issued ≤ (w.handle newId now r).1.issued := by
  rcases r with _ | ⟨p, body⟩ | _ | _ | _ | ⟨p, id, body⟩
  · exact ⟨rfl, le_rfl⟩
  · simp only [World.handle]
    split
    · exact ⟨rfl, le_rfl⟩
    · exact ⟨rfl, Nat.le_succ _⟩
  · exact ⟨rfl, le_rfl⟩
  · exact ⟨rfl, le_rfl⟩
  · exact ⟨rfl, le_rfl⟩
  · simp only [World.handle]
    split <;> exact ⟨rfl, le_rfl⟩

theorem reply_withGroup {groups : Groups} {id : String} {f : Group → Option Group × Reply}
    {S : Snapshot} (h : (withGroup groups id f).2 = .snapshot S) :
    ∃ g, groups.lookup id = some g ∧ (f g).2 = .snapshot S := by
  rw [withGroup] at h
  split at h
  · cases h
  · next g hg =>
    refine ⟨g, hg, ?_⟩
    split at h <;> next hf => rw [hf]; exact h

/-- **A poll that is answered** answers with the group as it leaves it. -/
theorem reply_poll {now : ℤ} {p : Caller} {id : String} {S : Snapshot}
    (h : (w.handle newId now (.poll p id)).2 = .snapshot S) :
    ∃ g', (w.handle newId now (.poll p id)).1.groups.lookup id = some g' ∧
      S = g'.snapshot now false := by
  obtain ⟨g, hg, hreply⟩ := reply_withGroup h
  rw [Group.poll] at hreply
  split at hreply
  · cases hreply
  · next m hm =>
    refine ⟨g.see p.sub m.username now, ?_, (Reply.snapshot.inj hreply).symm⟩
    show (withGroup _ id _).1.lookup id = _
    rw [lookup_withGroup, if_pos rfl, hg, Option.bind_some, Group.poll, hm]

/-! ### What holds in every run -/

/-- **What holds of the store**: its groups are in order, and their identifiers were given out. -/
structure World.Inv (newId : ℕ → String) (w : World) : Prop where
  ok : ∀ id g, w.groups.lookup id = some g → g.Ok w.nowMs
  known : ∀ id g, w.groups.lookup id = some g → ∃ n < w.issued, newId n = id

theorem World.Inv.start (nowMs : ℤ) : (World.start nowMs).Inv newId := by
  constructor
  · rintro id g ⟨⟩
  · rintro id g ⟨⟩

theorem World.Inv.handle (h : w.Inv newId) {now : ℤ} (hle : w.nowMs ≤ now) (r : Request) :
    (w.handle newId now r).1.Inv newId := by
  obtain ⟨hclock, hissued⟩ := handle_clock newId w now r
  constructor
  · intro id g' hg'
    rw [hclock]
    rcases handle_cases hg' with ⟨g, hg, hlater⟩ | ⟨-, -, hok⟩
    · exact hlater.ok ((h.ok id g hg).mono hle)
    · exact hok
  · intro id g' hg'
    rcases handle_cases hg' with ⟨g, hg, -⟩ | ⟨hid, hnext, -⟩
    · obtain ⟨n, hn, hnid⟩ := h.known id g hg
      exact ⟨n, hn.trans_le hissued, hnid⟩
    · exact ⟨w.issued, by omega, hid.symm⟩

theorem step_eq_some {a : ℤ × Request} :
    step newId w a = some w' ↔ w.nowMs ≤ a.1 ∧ (w.handle newId a.1 a.2).1 = w' := by
  rw [step, Option.ite_none_left_eq_some, Option.some.injEq, not_lt]

theorem World.Inv.runs (h : w.Inv newId) (hruns : Runs (step newId) anyStep w w') :
    w'.Inv newId :=
  hruns.invariant h fun v a u hv _ hstep => by
    obtain ⟨hle, rfl⟩ := step_eq_some.mp hstep
    exact hv.handle hle a.2

/-- **A group in a run**: wherever it is still stored, it follows what it was. -/
theorem follows_of_guardedRuns (hfresh : newId.Injective) (h : w.Inv newId)
    (hruns : Runs (step newId) anyStep w w') {id : String} {g g' : Group}
    (hg : w.groups.lookup id = some g) (hg' : w'.groups.lookup id = some g') : g.Follows g' := by
  obtain ⟨n, hn, rfl⟩ := h.known id g hg
  -- the identifier is not given out again, so what is stored under it is what was
  have hinv : n < w'.issued ∧
      ∀ g', w'.groups.lookup (newId n) = some g' → g.Follows g' := by
    refine hruns.invariant (P := fun v => n < v.issued ∧
      ∀ g', v.groups.lookup (newId n) = some g' → g.Follows g') ⟨hn, fun g' h => ?_⟩ ?_
    · obtain rfl := Option.some.inj (hg.symm.trans h)
      exact .refl g
    · rintro v a u ⟨hnv, hv⟩ - hstep
      obtain ⟨-, rfl⟩ := step_eq_some.mp hstep
      refine ⟨hnv.trans_le (handle_clock newId v a.1 a.2).2, fun g' hg' => ?_⟩
      rcases handle_cases hg' with ⟨g₁, hg₁, hlater⟩ | ⟨hid, -, -⟩
      · exact (hv g₁ hg₁).trans hlater.follows
      · exact absurd (hfresh hid) hnv.ne
  exact hinv.2 g' hg'

/-- **Two polls that return one version** report one roster and one transport. -/
theorem polls_agree (hfresh : newId.Injective) (hw : w.Inv newId) {id : String} {p₁ p₂ : Caller}
    {now₁ now₂ : ℤ} {w₁ w₂ : World} {S₁ S₂ : Snapshot} (hnow₁ : w.nowMs ≤ now₁)
    (hpoll₁ : w.handle newId now₁ (.poll p₁ id) = (w₁, .snapshot S₁))
    (hruns : Runs (step newId) anyStep w₁ w₂) (hnow₂ : w₂.nowMs ≤ now₂)
    (hpoll₂ : (w₂.handle newId now₂ (.poll p₂ id)).2 = .snapshot S₂)
    (hversion : S₁.version = S₂.version) :
    S₁.members = S₂.members ∧ S₁.paused = S₂.paused ∧ S₂.positionSecs - S₁.positionSecs =
      if S₁.paused then 0 else ((now₂ - now₁ : ℤ) : ℚ) / 1000 := by
  obtain ⟨g₁, hg₁, rfl⟩ := reply_poll (congrArg Prod.snd hpoll₁)
  obtain ⟨g₂, hg₂, rfl⟩ := reply_poll hpoll₂
  have hinv₁ := hw.handle hnow₁ (.poll p₁ id)
  rw [hpoll₁] at hg₁ hinv₁
  -- the second poll is one more step of the run
  have hinv₂ := (hinv₁.runs hruns).handle hnow₂ (.poll p₂ id)
  have hstep : StepVia (step newId) anyStep w₂ (w₂.handle newId now₂ (.poll p₂ id)).1 :=
    ⟨(now₂, .poll p₂ id), trivial, step_eq_some.mpr ⟨hnow₂, rfl⟩⟩
  have hview := (follows_of_guardedRuns hfresh hinv₁ (hruns.tail hstep) hg₁ hg₂).view_eq hversion
  have hok₁ := hinv₁.ok id g₁ hg₁
  have hok₂ := hinv₂.ok id g₂ hg₂
  have hclock₁ : w₁.nowMs = now₁ := by
    rw [← (handle_clock newId w now₁ (.poll p₁ id)).1, hpoll₁]
  rw [hclock₁] at hok₁
  rw [(handle_clock newId w₂ now₂ _).1] at hok₂
  refine ⟨?_, ?_, Group.reported_sub hok₁ hok₂ hview⟩
  · exact congrArg (fun v => v.2.1) hview
  · exact congrArg (fun v => v.2.2.1) hview

/-- **A command without a position** leaves the playhead of its group where it is. -/
theorem command_keeps_position (hw : w.Inv newId) {id : String} {p : Caller} {now : ℤ}
    {body : JsonTree} {kind : CommandKind} {S : Snapshot} {g : Group} (hnow : w.nowMs ≤ now)
    (hbody : parseCommand body = .ok (kind, none)) (hg : w.groups.lookup id = some g)
    (hreply : w.handle newId now (.command p id body) = (w', .snapshot S)) :
    S.positionSecs = jsRound3 (g.position now) ∧
      ∃ g', w'.groups.lookup id = some g' ∧ g'.position now = g.position now := by
  have hhandle : w.handle newId now (.command p id body) =
      ({ w with
          groups := (withGroup (pruneIdle w.groups now) id fun g =>
            g.command p.sub kind none now).1
          nowMs := now },
        (withGroup (pruneIdle w.groups now) id fun g => g.command p.sub kind none now).2) := by
    simp only [World.handle, hbody]
  rw [hhandle] at hreply
  obtain ⟨rfl, hsnd⟩ := Prod.mk.inj hreply
  obtain ⟨g₀, hg₀, hdone⟩ := reply_withGroup hsnd
  obtain ⟨g₁, hg₁, hlater, hposition⟩ := later_of_pruneIdle hg₀
  obtain rfl := Option.some.inj (hg.symm.trans hg₁)
  have hok₀ := hlater.ok ((hw.ok id g hg).mono hnow)
  -- the reply is the group as it is stored
  obtain ⟨g', hg', rfl⟩ : ∃ g', (g₀.command p.sub kind none now).1 = some g' ∧
      S = g'.snapshot now false := by
    rw [Group.command] at hdone ⊢
    split at hdone
    · cases hdone
    · exact ⟨_, rfl, (Reply.snapshot.inj hdone).symm⟩
  have hkeeps := (Group.position_command hok₀ hg').trans (hposition now)
  refine ⟨congrArg jsRound3 hkeeps, g', ?_, hkeeps⟩
  show (withGroup _ id _).1.lookup id = _
  rw [lookup_withGroup, if_pos rfl, hg₀, Option.bind_some, hg']

/-- **Groups keep their host, and their version tells what has changed.** In every run in which
the clock does not go back and no identifier is given out twice:

* a stored group has members, and its host is one of them;
* its version never falls, and rises whenever there is something to notice;
* two polls that return one version report one roster and one transport, at playheads that are
  apart by the time that has passed while playing, and by nothing while paused;
* a play or a pause that names no position leaves the playhead where it is. -/
theorem rooms_coherent (newId : ℕ → String) (hfresh : newId.Injective) {startMs : ℤ} {w : World}
    (h : Runs (step newId) anyStep (.start startMs) w) :
    (∀ id g, w.groups.lookup id = some g →
      g.members.isEmpty = false ∧ g.hostSub ∈ g.members.keys) ∧
    (∀ w', Runs (step newId) anyStep w w' → ∀ id g g', w.groups.lookup id = some g →
      w'.groups.lookup id = some g' →
      g.version ≤ g'.version ∧ (g.view ≠ g'.view → g.version < g'.version)) ∧
    (∀ id p₁ now₁ w₁ S₁ w₂ p₂ now₂ S₂, w.nowMs ≤ now₁ →
      w.handle newId now₁ (.poll p₁ id) = (w₁, .snapshot S₁) →
      Runs (step newId) anyStep w₁ w₂ → w₂.nowMs ≤ now₂ →
      (w₂.handle newId now₂ (.poll p₂ id)).2 = .snapshot S₂ → S₁.version = S₂.version →
      S₁.members = S₂.members ∧ S₁.paused = S₂.paused ∧ S₂.positionSecs - S₁.positionSecs =
        if S₁.paused then 0 else ((now₂ - now₁ : ℤ) : ℚ) / 1000) ∧
    (∀ id p now body kind w' S g, w.nowMs ≤ now → parseCommand body = .ok (kind, none) →
      w.groups.lookup id = some g →
      w.handle newId now (.command p id body) = (w', .snapshot S) →
      S.positionSecs = jsRound3 (g.position now) ∧
        ∃ g', w'.groups.lookup id = some g' ∧ g'.position now = g.position now) := by
  have hw : w.Inv newId := (World.Inv.start startMs).runs h
  refine ⟨fun id g hg => ?_, fun w' hruns id g g' hg hg' => ?_, ?_, ?_⟩
  · have hok := hw.ok id g hg
    exact ⟨hok.not_isEmpty, hok.host_mem⟩
  · have hfollows := follows_of_guardedRuns hfresh hw hruns hg hg'
    refine ⟨hfollows.version_le, fun hne => ?_⟩
    exact lt_of_le_of_ne hfollows.version_le fun heq => hne (hfollows.view_eq heq)
  · intro id p₁ now₁ w₁ S₁ w₂ p₂ now₂ S₂ hnow₁ hpoll₁ hruns hnow₂ hpoll₂ hversion
    exact polls_agree hfresh hw hnow₁ hpoll₁ hruns hnow₂ hpoll₂ hversion
  · intro id p now body kind w' S g hnow hbody hg hreply
    exact command_keeps_position hw hnow hbody hg hreply

end Service

/-! A film that two members watch, and one of them polls twice. -/

def filmId (n : ℕ) : String := String.ofList (List.replicate n 'x')

theorem filmId_injective : filmId.Injective := by
  intro n m h
  have hlen := congrArg (fun s => s.toList.length) h
  simpa [filmId] using hlen

/-- The requests: one member creates the group, another joins, the first plays. -/
def filmRequests : List (ℤ × Request) :=
  [(0, .create ⟨"alice", "Alice"⟩ (.obj [("media_kind", .str "movie"), ("media_id", .int 7)])),
    (500, .join ⟨"bob", "Bob"⟩ (filmId 0)),
    (1000, .command ⟨"alice", "Alice"⟩ (filmId 0) (.obj [("type", .str "play")]))]

theorem film_run : ∃ w w₁ S₁ S₂,
    exec (step filmId) (.start 0) filmRequests = some w ∧ w.groups.isEmpty = false ∧
      w.nowMs = 1000 ∧
      w.handle filmId 2000 (.poll ⟨"bob", "Bob"⟩ (filmId 0)) = (w₁, .snapshot S₁) ∧
      w₁.nowMs = 2000 ∧
      (w₁.handle filmId 3500 (.poll ⟨"bob", "Bob"⟩ (filmId 0))).2 = .snapshot S₂ ∧
      S₁.version = S₂.version ∧ S₁.members.length = 2 ∧ S₁.paused = false :=
  ⟨_, _, _, _, rfl, rfl, rfl, rfl, rfl, rfl, rfl, rfl, rfl⟩

/-- The polls of the film are a second and a half apart, and so are the playheads. -/
theorem rooms_coherent_film : ∃ (w : World) (S₁ S₂ : Snapshot),
    Runs (step filmId) anyStep (.start 0) w ∧ w.groups.isEmpty = false ∧
      S₁.members = S₂.members ∧ S₁.members.length = 2 ∧
      S₂.positionSecs - S₁.positionSecs = ((3500 - 2000 : ℤ) : ℚ) / 1000 := by
  obtain ⟨w, w₁, S₁, S₂, hrun, hsome, hnow, hpoll₁, hnow₁, hpoll₂, hversion, hlen, hplays⟩ :=
    film_run
  have hcoherent := rooms_coherent filmId filmId_injective (runs_of_exec hrun)
  obtain ⟨hmembers, -, hsub⟩ := hcoherent.2.2.1 (filmId 0) _ 2000 w₁ S₁ w₁ _ 3500 S₂ (by omega)
    hpoll₁ .refl (by omega) hpoll₂ hversion
  rw [hplays] at hsub
  exact ⟨w, S₁, S₂, runs_of_exec hrun, hsome, hmembers, hlen, hsub⟩

end EmeraldExchange.Gateway.Syncplay
