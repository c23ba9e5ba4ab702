import EmeraldExchange.Iptv.RemuxMap

/-!
# The live remux index: what a viewer is served over time

A viewer polls one channel while the sessions behind it come and go. Every answer is recorded with
the number of session swaps before it, its *epoch*, which is counted from the calls and not from
what the code keeps.

`Continuous` says of all answers that the media sequence does not go
back, that after a swap every number is new, that no number names two segments, and that the
discontinuity sequence is the number of swaps. It holds of every run whose playlists list segment
files only (`continuous_of_runs`). Segment files have five digits,
while ffmpeg writes six from the hundred thousandth segment on: those are served as they are and
not counted, and the session after them begins with their numbers
(`not_continuous_sixDigits`).
-/

namespace EmeraldExchange.Iptv.RemuxMap

/-! ### Polls -/

/-- **A poll**: the source's lines and the lines that were served for them. -/
structure Poll where
  session : String
  source : List Line
  served : List Line
  /-- How many session swaps came before. -/
  epoch : ℕ
  deriving DecidableEq

namespace Poll

variable (p : Poll)

def mediaSequence : ℕ := RemuxMap.mediaSequence p.served

def discontinuitySequence : ℕ := RemuxMap.discontinuitySequence p.served

/-- Whether a segment of this number was served. -/
def Serves (n : ℕ) : Prop :=
  p.mediaSequence ≤ n ∧ n < p.mediaSequence + (uris p.served).length

/-- The segment that a number was served for. -/
def segment (n : ℕ) : Option (String × Line) :=
  ((uris p.source)[n - p.mediaSequence]?).map fun l => (p.session, segOf l)

instance (n : ℕ) : Decidable (p.Serves n) := inferInstanceAs (Decidable (_ ∧ _))

end Poll

/-- The epoch of the next poll, the latest poll first. -/
def nextEpoch (session : String) : List Poll → ℕ
  | [] => 0
  | p :: _ => if p.session = session then p.epoch else p.epoch + 1

/-- **What a viewer may rely on**, of all polls, the latest first. -/
structure Continuous (polls : List Poll) : Prop where
  sequence : polls.Pairwise fun p q => q.mediaSequence ≤ p.mediaSequence
  discontinuity : polls.Pairwise fun p q => q.discontinuitySequence ≤ p.discontinuitySequence
  bumps : ∀ p ∈ polls, p.discontinuitySequence = p.epoch
  above : polls.Pairwise fun p q => q.epoch < p.epoch → ∀ n m, p.Serves n → q.Serves m → m < n
  unique : polls.Pairwise fun p q => ∀ n, p.Serves n → q.Serves n → p.segment n = q.segment n

/-! ### The viewer -/

/-- One channel of one viewer: the index entry, the sequence kept, and the polls so far. -/
structure Viewer where
  index : Option (String × SegUrls)
  cont : Option Continuity
  polls : List Poll

def Viewer.new : Viewer := ⟨none, none, []⟩

/-- What happens to a viewer's entry: a session is tuned, the entry is dropped, and a playlist is
rewritten, for the session that is tuned or for another. -/
inductive Act
  | tune (session : String)
  | drop
  | rewrite (session : String) (text : List Char) (sign : Line → Line)

variable (streamId : List Char)

/-- **One step.** -/
def Viewer.step (v : Viewer) : Act → Option Viewer
  | .tune session => some { v with index := some (session, ∅) }
  | .drop => some { v with index := none }
  | .rewrite session text sign =>
    let cache := v.index.bind fun e => if e.1 = session then some e.2 else none
    let w := rewriteRemuxManifest text streamId session v.cont cache sign
    some {
      index := (w.cache.map fun c => (session, c)).or v.index
      cont := some w.cont
      polls := ⟨session, linesOf text, w.out, nextEpoch session v.polls⟩ :: v.polls }

/-- **The sources are windows**: each session numbers its segments once, `name` being the file of
each number, and its playlists do not go back. -/
def Windowed (name : String → ℕ → Line) (v : Viewer) : Act → Prop
  | .rewrite session text _ =>
    (uris (linesOf text)).map segOf = (List.range (uris (linesOf text)).length).map
        (fun i => name session (mediaSequence (linesOf text) + i)) ∧
      ∀ p ∈ v.polls, p.session = session → mediaSequence p.source ≤ mediaSequence (linesOf text)
  | _ => True

/-- **The playlists list segment files**, whose numbers are 64-bit numbers. -/
def ListsSegFiles (v : Viewer) : Act → Prop
  | .rewrite session text _ =>
    Listed (linesOf text) ∧ Fits (v.cont.getD (.new session)) (linesOf text)
  | _ => True

instance (name : String → ℕ → Line) (v : Viewer) : ∀ a, Decidable (Windowed name v a)
  | .tune _ => inferInstanceAs (Decidable True)
  | .drop => inferInstanceAs (Decidable True)
  | .rewrite _ _ _ => inferInstanceAs (Decidable (_ ∧ _))

instance (v : Viewer) : ∀ a, Decidable (ListsSegFiles v a)
  | .tune _ => inferInstanceAs (Decidable True)
  | .drop => inferInstanceAs (Decidable True)
  | .rewrite _ _ _ => inferInstanceAs (Decidable (_ ∧ _))

/-! ### What is kept tracks what was served -/

/-- **An earlier poll, seen from the latest one.** In its epoch it is of the same session and at
the same offset, and not ahead; before its epoch all its numbers are lower. -/
structure Precedes (offset : ℤ) (p q : Poll) : Prop where
  epoch_le : q.epoch ≤ p.epoch
  current : q.epoch = p.epoch → q.session = p.session ∧
    (q.mediaSequence : ℤ) = RemuxMap.mediaSequence q.source + offset ∧
    RemuxMap.mediaSequence q.source ≤ RemuxMap.mediaSequence p.source
  below : q.epoch < p.epoch → ∀ n, q.Serves n → n < p.mediaSequence

/-- **A poll by itself**: it serves a segment, each number is that of a segment of its session's
sequence, and its discontinuities are the swaps. -/
structure Poll.Sound (name : String → ℕ → Line) (p : Poll) : Prop where
  serves : p.Serves p.mediaSequence
  segment : ∀ n, p.Serves n → p.segment n =
    some (p.session, name p.session (RemuxMap.mediaSequence p.source + (n - p.mediaSequence)))
  bumps : p.discontinuitySequence = p.epoch

/-- **The record of a viewer** after its latest poll, against the polls before. -/
structure Tracks (c : Continuity) (p : Poll) (polls : List Poll) : Prop where
  session : p.session = c.sessionId
  epoch : (p.epoch : ℤ) = c.discontinuitySeq
  started : c.Started
  current : (p.mediaSequence : ℤ) = RemuxMap.mediaSequence p.source + c.offset
  precedes : ∀ q ∈ polls, Precedes c.offset p q
  le_last : ∀ q ∈ p :: polls, ∀ n, q.Serves n → (n : ℤ) ≤ c.lastServedMax

/-- **The invariant**: the record tracks the polls, which are continuous. -/
structure Inv (name : String → ℕ → Line) (v : Viewer) : Prop where
  index : ∀ e, v.index = some e → Rewrite.Paths (some e.2)
  start : v.cont = none → v.polls = []
  tracks : ∀ c, v.cont = some c → ∃ p ps, v.polls = p :: ps ∧ Tracks c p ps
  sound : ∀ p ∈ v.polls, p.Sound name
  continuous : Continuous v.polls

theorem inv_new (name : String → ℕ → Line) : Inv name Viewer.new where
  index := by rintro e ⟨⟩
  start _ := rfl
  tracks := by rintro c ⟨⟩
  sound := by rintro p ⟨⟩
  continuous := by constructor <;> simp [Viewer.new]

variable {name : String → ℕ → Line} {offset : ℤ} {p q : Poll}

theorem Precedes.mediaSequence_le (h : Precedes offset p q)
    (hp : (p.mediaSequence : ℤ) = RemuxMap.mediaSequence p.source + offset) (hq : q.Sound name) :
    q.mediaSequence ≤ p.mediaSequence := by
  rcases h.epoch_le.eq_or_lt with heq | hlt
  · obtain ⟨-, hat, hle⟩ := h.current heq
    omega
  · exact (h.below hlt _ hq.serves).le

/-- **No number names two segments.** -/
theorem Precedes.segment_eq (h : Precedes offset p q)
    (hp : (p.mediaSequence : ℤ) = RemuxMap.mediaSequence p.source + offset) (hp' : p.Sound name)
    (hq : q.Sound name) {n : ℕ} (hn : p.Serves n) (hn' : q.Serves n) :
    p.segment n = q.segment n := by
  rcases h.epoch_le.eq_or_lt with heq | hlt
  · obtain ⟨hsession, hat, -⟩ := h.current heq
    have hlocal : RemuxMap.mediaSequence p.source + (n - p.mediaSequence) =
        RemuxMap.mediaSequence q.source + (n - q.mediaSequence) := by
      have h₁ := hn.1
      have h₂ := hn'.1
      omega
    rw [hp'.segment n hn, hq.segment n hn', hsession, hlocal]
  · -- the number is new, so it was not served before
    exact absurd hn.1 (Nat.not_le.mpr (h.below hlt n hn'))

/-- **One more poll.** -/
theorem Continuous.cons {polls : List Poll} (h : Continuous polls)
    (hp : (p.mediaSequence : ℤ) = RemuxMap.mediaSequence p.source + offset) (hp' : p.Sound name)
    (hsound : ∀ q ∈ polls, q.Sound name) (hprecedes : ∀ q ∈ polls, Precedes offset p q) :
    Continuous (p :: polls) where
  sequence := List.pairwise_cons.mpr
    ⟨fun q hq => (hprecedes q hq).mediaSequence_le hp (hsound q hq), h.sequence⟩
  discontinuity := by
    refine List.pairwise_cons.mpr ⟨fun q hq => ?_, h.discontinuity⟩
    rw [hp'.bumps, (hsound q hq).bumps]
    exact (hprecedes q hq).epoch_le
  bumps := by
    rintro q hq
    rcases List.mem_cons.mp hq with rfl | hq
    · exact hp'.bumps
    · exact h.bumps q hq
  above := List.pairwise_cons.mpr
    ⟨fun q hq hlt n m hn hm => Nat.lt_of_lt_of_le ((hprecedes q hq).below hlt m hm) hn.1, h.above⟩
  unique := List.pairwise_cons.mpr
    ⟨fun q hq n hn hn' => (hprecedes q hq).segment_eq hp hp' (hsound q hq) hn hn', h.unique⟩

/-! ### Every step keeps the invariant -/

/-- **The polls so far, seen from the next one**: at the same offset if the session is the same,
and below its numbers after a swap. -/
theorem Tracks.precedes_next {c : Continuity} {ps : List Poll} {p' : Poll} {lines : List Line}
    (h : Tracks c p ps) (hfits : Fits c lines) (hsource : p'.source = lines)
    (hepoch : p'.epoch = nextEpoch p'.session (p :: ps))
    (hcurrent : (p'.mediaSequence : ℤ) = RemuxMap.mediaSequence lines +
      (c.enter p'.session (RemuxMap.mediaSequence lines)).offset)
    (hwindow : ∀ q ∈ p :: ps, q.session = p'.session →
      RemuxMap.mediaSequence q.source ≤ RemuxMap.mediaSequence lines) :
    ∀ q ∈ p :: ps,
      Precedes (c.enter p'.session (RemuxMap.mediaSequence lines)).offset p' q := by
  rw [c.enter_eq h.started p'.session hfits] at hcurrent ⊢
  rw [nextEpoch, h.session] at hepoch
  by_cases hsame : c.sessionId = p'.session
  · -- the same session: what preceded the latest poll precedes this one, and so does it
    rw [if_neg (not_not.mpr hsame)] at hcurrent ⊢
    rw [if_pos hsame] at hepoch
    have hle : RemuxMap.mediaSequence p.source ≤ RemuxMap.mediaSequence lines :=
      hwindow p List.mem_cons_self (h.session.trans hsame)
    have hat := h.current
    intro q hq
    rcases List.mem_cons.mp hq with rfl | hmem
    · refine ⟨hepoch.ge, fun _ => ⟨h.session.trans hsame, h.current, ?_⟩, fun hlt => ?_⟩
      · rwa [hsource]
      · exact absurd (hepoch ▸ hlt) (lt_irrefl _)
    · have hprec := h.precedes q hmem
      rw [← hsource] at hwindow hle hcurrent
      refine ⟨hepoch ▸ hprec.epoch_le, fun heq => ?_, fun hlt n hn => ?_⟩
      · obtain ⟨hsession, hq', -⟩ := hprec.current (heq.trans hepoch)
        have hsession' := hsession.trans (h.session.trans hsame)
        exact ⟨hsession', hq', hwindow q hq hsession'⟩
      · have hbelow := hprec.below (hepoch ▸ hlt) n hn
        omega
  · -- a swap: everything served so far is at most the highest number served
    rw [if_pos hsame] at hcurrent ⊢
    rw [if_neg hsame] at hepoch
    dsimp only at hcurrent
    intro q hq
    have hle : q.epoch ≤ p.epoch := by
      rcases List.mem_cons.mp hq with rfl | hmem
      · exact le_rfl
      · exact (h.precedes q hmem).epoch_le
    refine ⟨by omega, fun heq => by omega, fun _ n hn => ?_⟩
    have hlast := h.le_last q hq n hn
    omega

theorem Inv.record {v : Viewer} (h : Inv name v) (session : String) :
    v.polls = [] ∧ v.cont.getD (.new session) = .new session ∨
      ∃ p ps, v.polls = p :: ps ∧ Tracks (v.cont.getD (.new session)) p ps := by
  cases hcont : v.cont with
  | none => exact Or.inl ⟨h.start hcont, rfl⟩
  | some c => exact Or.inr (h.tracks c hcont)

theorem Tracks.nextEpoch_eq {c : Continuity} {ps : List Poll} {lines : List Line}
    (h : Tracks c p ps) (hfits : Fits c lines) (session : String) :
    (nextEpoch session (p :: ps) : ℤ) =
      (c.enter session (RemuxMap.mediaSequence lines)).discontinuitySeq := by
  have hepoch := h.epoch
  rw [c.enter_eq h.started session hfits, nextEpoch, h.session]
  by_cases hsame : c.sessionId = session
  · rw [if_pos hsame, if_neg (not_not.mpr hsame)]
    exact hepoch
  · rw [if_neg hsame, if_pos hsame]
    push_cast
    omega

/-- **What the record says of the next poll.** -/
theorem Inv.next {v : Viewer} (h : Inv name v) {session : String} {c : Continuity}
    (hc : v.cont.getD (.new session) = c) {lines : List Line} (hfits : Fits c lines)
    (hwindow : ∀ q ∈ v.polls, q.session = session →
      RemuxMap.mediaSequence q.source ≤ RemuxMap.mediaSequence lines) :
    c.Started ∧
      (nextEpoch session v.polls : ℤ) =
        (c.enter session (RemuxMap.mediaSequence lines)).discontinuitySeq ∧
      (∀ q ∈ v.polls, ∀ n, q.Serves n → (n : ℤ) ≤ c.lastServedMax) ∧
      ∀ p' : Poll, p'.session = session → p'.source = lines →
        p'.epoch = nextEpoch session v.polls →
        (p'.mediaSequence : ℤ) = RemuxMap.mediaSequence lines +
          (c.enter session (RemuxMap.mediaSequence lines)).offset →
        ∀ q ∈ v.polls,
          Precedes (c.enter session (RemuxMap.mediaSequence lines)).offset p' q := by
  subst hc
  rcases h.record session with ⟨hpolls, hnew⟩ | ⟨p, ps, hpolls, htracks⟩
  · rw [hpolls, hnew]
    refine ⟨Continuity.started_new session, ?_, by simp, by simp⟩
    simp [nextEpoch, Continuity.enter, Continuity.new]
  · rw [hpolls] at hwindow ⊢
    refine ⟨htracks.started, htracks.nextEpoch_eq hfits session, htracks.le_last, ?_⟩
    rintro p' rfl hsource hepoch hcurrent
    exact htracks.precedes_next hfits hsource hepoch hcurrent hwindow

theorem Poll.sound_of_names (hnames : (uris p.source).map segOf =
      (List.range (uris p.source).length).map
        fun i => name p.session (RemuxMap.mediaSequence p.source + i))
    (hlength : (uris p.served).length = (uris p.source).length) (hsome : uris p.source ≠ [])
    (hbumps : p.discontinuitySequence = p.epoch) : p.Sound name := by
  have hpos := List.length_pos_iff.mpr hsome
  refine ⟨⟨le_rfl, by omega⟩, ?_, hbumps⟩
  rintro n ⟨hge, hlt⟩
  have hat := congrArg (fun l => l[n - p.mediaSequence]?) hnames
  simp only [List.getElem?_map,
    List.getElem?_range (show n - p.mediaSequence < (uris p.source).length by omega),
    Option.map_some] at hat
  obtain ⟨l, hl, hname⟩ := Option.map_eq_some_iff.mp hat
  rw [Poll.segment, hl, Option.map_some, hname]

theorem Viewer.paths {v : Viewer} (h : ∀ e, v.index = some e → Rewrite.Paths (some e.2))
    (session : String) :
    Rewrite.Paths (v.index.bind fun e => if e.1 = session then some e.2 else none) := by
  rintro urls hurls
  obtain ⟨e, he, hce⟩ := Option.bind_eq_some_iff.mp hurls
  have heq : some e.2 = some urls := (Option.ite_none_right_eq_some.mp hce).2
  exact h e he urls heq

theorem Viewer.paths_or {v : Viewer} (h : ∀ e, v.index = some e → Rewrite.Paths (some e.2))
    {cache : Option SegUrls} (hcache : Rewrite.Paths cache) (session : String) :
    ∀ e, (cache.map fun c => (session, c)).or v.index = some e → Rewrite.Paths (some e.2) := by
  rintro e he
  rcases Option.or_eq_some_iff.mp he with hmap | ⟨-, hold⟩
  · obtain ⟨urls, hurls, rfl⟩ := Option.map_eq_some_iff.mp hmap
    rintro urls' hurls'
    exact hcache urls' (hurls.trans hurls')
  · exact h e hold

/-- **One rewriting.** -/
theorem Inv.rewrite {v v' : Viewer} {session : String} {text : List Char} {sign : Line → Line}
    (h : Inv name v) (hwindowed : Windowed name v (.rewrite session text sign))
    (hlists : ListsSegFiles v (.rewrite session text sign))
    (hstep : v.step streamId (.rewrite session text sign) = some v') : Inv name v' := by
  obtain ⟨hnames, hwindow⟩ := hwindowed
  obtain ⟨hlisted, hfits⟩ := hlists
  obtain ⟨c, hc⟩ : ∃ c, v.cont.getD (.new session) = c := ⟨_, rfl⟩
  rw [hc] at hfits
  obtain ⟨hstarted, hepoch, hle, hprecedes⟩ := h.next hc hfits hwindow
  obtain ⟨hstarted', -, -⟩ := hstarted.enter session hfits
  obtain ⟨hlength, hnumber, hbumps, hcont, hpaths⟩ :=
    served_rewriteRemuxManifest streamId sign hc hstarted hlisted hfits
      (Viewer.paths h.index session)
  obtain rfl := Option.some.inj hstep
  generalize rewriteRemuxManifest text streamId session v.cont
    (v.index.bind fun e => if e.1 = session then some e.2 else none) sign = w at *
  obtain ⟨p', hp'⟩ : ∃ p' : Poll,
      p' = ⟨session, linesOf text, w.out, nextEpoch session v.polls⟩ := ⟨_, rfl⟩
  have hprec := hprecedes p' (by rw [hp']) (by rw [hp']) (by rw [hp']) (by rw [hp']; exact hnumber)
  have hsound : p'.Sound name := by
    refine Poll.sound_of_names ?_ ?_ ?_ ?_
    · rw [hp']
      exact hnames
    · rw [hp']
      exact hlength
    · rw [hp']
      exact hlisted.some
    · have hdisc : (p'.discontinuitySequence : ℤ) = (p'.epoch : ℤ) := by
        rw [hp']
        exact hbumps.trans hepoch.symm
      exact_mod_cast hdisc
  have hcurrent : (p'.mediaSequence : ℤ) = RemuxMap.mediaSequence p'.source +
      (c.enter session (RemuxMap.mediaSequence (linesOf text))).offset := by
    rw [hp']
    exact hnumber
  constructor
  · exact Viewer.paths_or h.index hpaths session
  · rintro ⟨⟩
  · rintro c' hc'
    obtain rfl := Option.some.inj hc'
    refine ⟨p', v.polls, by rw [hp'], ?_⟩
    rw [hcont]
    refine ⟨?_, ?_, ⟨hstarted'.offset, hstarted'.discontinuitySeq, ?_⟩, hcurrent, hprec, ?_⟩
    · rw [hp', Continuity.sessionId_enter]
    · rw [hp']
      exact hepoch
    · exact hstarted.lastServedMax.trans (le_max_left _ _)
    · rintro q hq n hn
      rcases List.mem_cons.mp hq with rfl | hq
      · refine le_trans ?_ (le_max_right _ _)
        have hlt := hn.2
        rw [hp'] at hlt hcurrent
        dsimp only at hlt hcurrent
        omega
      · exact (hle q hq n hn).trans (le_max_left _ _)
  · rw [← hp']
    rintro q hq
    rcases List.mem_cons.mp hq with rfl | hq
    · exact hsound
    · exact h.sound q hq
  · rw [← hp']
    exact h.continuous.cons hcurrent hsound h.sound hprec

/-- **Every guarded step keeps the invariant.** -/
theorem Inv.step {v v' : Viewer} {a : Act} (h : Inv name v) (hwindowed : Windowed name v a)
    (hlists : ListsSegFiles v a) (hstep : v.step streamId a = some v') : Inv name v' := by
  rcases a with session | _ | ⟨session, text, sign⟩
  · obtain rfl := Option.some.inj hstep
    refine ⟨?_, h.start, h.tracks, h.sound, h.continuous⟩
    -- a new entry has no addresses
    rintro e he urls hurls url hurl
    obtain rfl := Option.some.inj he
    obtain rfl := Option.some.inj hurls
    exact absurd hurl (by simp [Table.values])
  · obtain rfl := Option.some.inj hstep
    exact ⟨by rintro e ⟨⟩, h.start, h.tracks, h.sound, h.continuous⟩
  · exact h.rewrite streamId hwindowed hlists hstep

/-- **One media sequence for one viewer.** In every run of polls, whatever sessions come and go,
whose sources are windows of their sessions' sequences and list segment files only, the media
sequence never goes back, every number after a swap is new, no number names two segments, and the
discontinuity sequence is the number of swaps. -/
theorem continuous_of_runs {v : Viewer}
    (h : Runs (Viewer.step streamId) (fun v a => Windowed name v a ∧ ListsSegFiles v a)
      Viewer.new v) : Continuous v.polls := by
  have hinv : Inv name v := h.invariant (inv_new name) fun _ _ _ hv hguard hstep =>
    hv.step streamId hguard.1 hguard.2 hstep
  exact hinv.continuous

/-! ### Two runs -/

/-- `seg_%05d.ts`, the name that ffmpeg gives to a session's segments. -/
def segmentFilename (_ : String) (n : ℕ) : Line :=
  "seg_".toList ++ (Nat.toDigits 10 n).leftpad 5 '0' ++ ".ts".toList

def playlistText (seq count : ℕ) : List Char :=
  "#EXTM3U\n#EXT-X-MEDIA-SEQUENCE:".toList ++ Nat.toDigits 10 seq ++ '\n' ::
    (List.range count).flatMap fun i =>
      "#EXTINF:2.0,\n".toList ++ segmentFilename "" (seq + i) ++ ['\n']

/-- A session is tuned and polled twice, and then another one. -/
def swapRun (seq : ℕ) : List Act :=
  [.tune "a", .rewrite "a" (playlistText (seq - 1) 2) id, .rewrite "a" (playlistText seq 2) id,
    .tune "b", .rewrite "b" (playlistText 0 2) id]

instance (name : String → ℕ → Line) (v : Viewer) (a : Act) :
    Decidable (Windowed name v a ∧ ListsSegFiles v a) := inferInstance

/-- A swap after the segments 11, 12 and 13: the new session begins with number 14. -/
theorem continuous_of_runs_swap : ∃ v,
    Runs (Viewer.step "42".toList) (fun v a => Windowed segmentFilename v a ∧ ListsSegFiles v a)
      Viewer.new v ∧
    v.polls.map Poll.mediaSequence = [14, 12, 11] ∧ Continuous v.polls :=
  have h : ∃ v, exec (guarded (Viewer.step "42".toList)
      fun v a => Windowed segmentFilename v a ∧ ListsSegFiles v a) Viewer.new (swapRun 12) =
        some v ∧ v.polls.map Poll.mediaSequence = [14, 12, 11] := ⟨_, rfl, rfl⟩
  let ⟨v, hv, hnumbers⟩ := h
  have hruns := runs_of_exec_guarded hv
  ⟨v, hruns, hnumbers, continuous_of_runs "42".toList hruns⟩

/-- **A swap after segment 99999**: the numbers of the segments with six digits are given again to
the segments of the new session. -/
theorem not_continuous_sixDigits : ∃ v,
    Runs (Viewer.step "42".toList) (Windowed segmentFilename) Viewer.new v ∧
    ¬ Continuous v.polls :=
  have h : ∃ v, exec (guarded (Viewer.step "42".toList) (Windowed segmentFilename)) Viewer.new
      (swapRun 100000) = some v ∧
      ¬ v.polls.Pairwise fun p q => q.epoch < p.epoch → ¬ (p.Serves 100000 ∧ q.Serves 100000) :=
    ⟨_, rfl, by decide⟩
  let ⟨v, hv, hnot⟩ := h
  ⟨v, runs_of_exec_guarded hv, fun hcont => hnot (hcont.above.imp fun habove hlt hserves =>
    absurd (habove hlt _ _ hserves.1 hserves.2) (lt_irrefl _))⟩

end EmeraldExchange.Iptv.RemuxMap
