import EmeraldExchange.Gateway.Feedback

/-!
# A dislike is a household veto

Whatever requests come on whatever titles, and whichever one write of each fails: where no request
is running on a title, nobody dislikes it without the household's veto
(`FeedbackSystem.veto_of_runs`).

What the stores say of one title is a small matter, who dislikes it and whether it is vetoed
(`Title`). Every operation of a request changes it for one title, and what a
request still has to do tells what holds of it (`Title.Holds`).
-/

namespace EmeraldExchange.Gateway

/-! ### What the stores say of a title -/

/-- Who dislikes a title, and whether it is vetoed. -/
structure Title where
  dislikes : String → Bool
  vetoed : Bool

def Stores.title (stores : Stores) (key : Kind × ℕ) : Title where
  dislikes sub := ((stores.feedback.user sub).kind key.1).disliked.any (·.id = key.2)
  vetoed := (stores.rejections.kind key.1).any (·.id = key.2)

/-- **A dislike is a veto.** -/
def Title.Respected (t : Title) : Prop := ∀ sub, t.dislikes sub → t.vetoed

def Title.Silent (t : Title) : Prop := ∀ sub, t.dislikes sub = false

def Title.SilentBut (t : Title) (caller : String) : Prop :=
  ∀ sub, sub ≠ caller → t.dislikes sub = false

def Title.say (t : Title) (sub : String) (signal : Option Signal) : Title :=
  { t with dislikes := fun sub' => if sub' = sub then signal = some .dislike else t.dislikes sub' }

section stores

variable {stores : Stores} {sub : String} {kind : Kind} {id : ℕ} {key : Kind × ℕ}

@[simp] theorem UserFeedback.kind_setKind (u : UserFeedback) (k k' : Kind) (lists : KindLists) :
    (u.setKind k lists).kind k' = if k' = k then lists else u.kind k' := by
  rcases k <;> rcases k' <;> rfl

@[simp] theorem Rejections.kind_setKind (r : Rejections) (k k' : Kind) (rows : List IdTitle) :
    (r.setKind k rows).kind k' = if k' = k then rows else r.kind k' := by
  rcases k <;> rcases k' <;> rfl

theorem any_filter_ne (rows : List IdTitle) (id id' : ℕ) :
    (rows.filter (·.id ≠ id)).any (·.id = id') =
      if id' = id then false else rows.any (·.id = id') := by
  rw [List.any_filter]
  split
  · next h =>
    subst h
    simp
  · next h =>
    congr 1
    funext e
    by_cases he : e.id = id' <;> simp [he, h]

theorem disliked_set (lists : KindLists) (id id' : ℕ) (title : String) (next : Option Signal) :
    (lists.set id title next).disliked.any (·.id = id') =
      if id' = id then decide (next = some .dislike) else lists.disliked.any (·.id = id') := by
  have hfilter := any_filter_ne lists.disliked id id'
  rcases next with _ | _ | _
  · simpa [KindLists.set] using hfilter
  · simpa [KindLists.set] using hfilter
  · simp only [KindLists.set, List.any_append, hfilter, List.any_cons, List.any_nil, Bool.or_false]
    rcases eq_or_ne id' id with rfl | hne
    · simp
    · simp [hne, hne.symm]

/-- **Setting a signal** changes what one member says of one title. -/
theorem title_set (title : String) (next : Option Signal) :
    ({ stores with feedback := stores.feedback.set sub kind id title next } : Stores).title key =
      if key = (kind, id) then (stores.title key).say sub next else stores.title key := by
  obtain ⟨kind', id'⟩ := key
  have hdislikes : ∀ sub', (((stores.feedback.set sub kind id title next).user sub').kind
      kind').disliked.any (·.id = id') =
      if sub' = sub ∧ kind' = kind ∧ id' = id then decide (next = some .dislike)
      else ((stores.feedback.user sub').kind kind').disliked.any (·.id = id') := by
    intro sub'
    rcases eq_or_ne sub' sub with rfl | hne
    · simp only [FeedbackFile.set, FeedbackFile.user, AList.lookup_insert, Option.getD_some,
        UserFeedback.kind_setKind, true_and]
      rcases eq_or_ne kind' kind with rfl | hkind
      · simp only [if_true, disliked_set, true_and]
      · simp only [hkind, if_false, false_and]
    · simp only [FeedbackFile.set, FeedbackFile.user, AList.lookup_insert_ne hne, hne, false_and,
        if_false]
  simp only [Stores.title, Title.say, hdislikes, Prod.mk.injEq]
  by_cases hkey : kind' = kind ∧ id' = id
  · simp only [hkey, and_true, if_true]
  · simp only [hkey, and_false, if_false]

/-- **A veto** is of one title. -/
theorem title_veto {rows : List IdTitle} {vetoed : Bool}
    (hrows : ∀ id', rows.any (·.id = id') =
      if id' = id then vetoed else (stores.rejections.kind kind).any (·.id = id')) :
    ({ stores with rejections := stores.rejections.setKind kind rows } : Stores).title key =
      if key = (kind, id) then { stores.title key with vetoed } else stores.title key := by
  obtain ⟨kind', id'⟩ := key
  simp only [Stores.title, Rejections.kind_setKind, Prod.mk.injEq]
  rcases eq_or_ne kind' kind with rfl | hne
  · simp only [if_true, hrows, true_and]
    split <;> rfl
  · simp only [hne, if_false, false_and]

theorem any_modify (rows : List IdTitle) (i id' : ℕ) (title : String) :
    (rows.modify i fun e => { e with title }).any (·.id = id') = rows.any (·.id = id') := by
  induction rows generalizing i with
  | nil => simp
  | cons e rows ih =>
    rcases i with _ | i
    · simp
    · simp [ih]

/-- **A title that is vetoed.** -/
theorem title_add {title : String} {next : Rejections}
    (h : stores.rejections.add kind id title = some next) :
    ({ stores with rejections := next } : Stores).title key =
      if key = (kind, id) then { stores.title key with vetoed := true } else stores.title key := by
  simp only [Rejections.add] at h
  obtain ⟨-, h⟩ := Option.ite_none_left_eq_some.mp h
  split at h
  · next i hi =>
    obtain rfl := Option.some.inj h
    refine title_veto fun id' => ?_
    rw [any_modify]
    split
    · next hid =>
      subst hid
      obtain ⟨hlt, hrow, -⟩ := List.findIdx?_eq_some_iff_getElem.mp hi
      exact List.any_eq_true.mpr ⟨_, List.getElem_mem hlt, hrow⟩
    · rfl
  · obtain rfl := Option.some.inj h
    refine title_veto fun id' => ?_
    simp only [List.any_append, List.any_cons, List.any_nil, Bool.or_false]
    rcases eq_or_ne id' id with rfl | hne
    · simp
    · simp [hne, hne.symm]

theorem vetoed_of_add {title : String} (h : stores.rejections.add kind id title = none) :
    (stores.title (kind, id)).vetoed = true := by
  simp only [Rejections.add] at h
  split at h
  · next hknown =>
    obtain ⟨e, he, -⟩ := (Option.any_eq_true _ _).mp hknown
    have hid := List.find?_some he
    exact List.any_eq_true.mpr ⟨e, List.mem_of_find?_eq_some he, hid⟩
  · split at h <;> exact absurd h (by simp)

/-- **A title whose veto is lifted.** -/
theorem title_remove {next : Rejections} (h : stores.rejections.remove kind id = some next) :
    ({ stores with rejections := next } : Stores).title key =
      if key = (kind, id) then { stores.title key with vetoed := false } else stores.title key := by
  obtain ⟨-, h⟩ := Option.ite_none_right_eq_some.mp h
  obtain rfl := Option.some.inj h
  exact title_veto (any_filter_ne _ id)

theorem not_vetoed_of_remove (h : stores.rejections.remove kind id = none) :
    (stores.title (kind, id)).vetoed = false := by
  simpa [Rejections.remove, Stores.title] using h

/-- **An account that is erased** says nothing any more. -/
theorem title_clearUser {next : FeedbackFile} (h : stores.feedback.clearUser sub = some next) :
    ({ stores with feedback := next } : Stores).title key = (stores.title key).say sub none := by
  obtain ⟨-, h⟩ := Option.ite_none_right_eq_some.mp h
  obtain rfl := Option.some.inj h
  simp only [Stores.title, Title.say, FeedbackFile.user]
  congr 1
  funext sub'
  rcases eq_or_ne sub' sub with rfl | hne
  · rcases key with ⟨_ | _, _⟩ <;> simp [UserFeedback.empty, UserFeedback.kind]
  · simp [AList.lookup_erase_ne hne, hne]

/-- **Nobody else dissents** where the store says so. -/
theorem silentBut_of_anotherUserDislikes
    (h : stores.feedback.anotherUserDislikes sub kind id = false) :
    (stores.title (kind, id)).SilentBut sub := by
  intro sub' hne
  simp only [Stores.title, FeedbackFile.user]
  rcases hlookup : stores.feedback.lookup sub' with _ | user
  · rcases kind <;> simp [UserFeedback.empty, UserFeedback.kind]
  · have hentry := List.any_eq_false.mp h ⟨sub', user⟩ (AList.mem_lookup_iff.mp hlookup)
    simpa [hne] using hentry

end stores

/-! ### What a request still has to do -/

/-- **What holds of a title** while a request on it is at an operation. -/
def Title.Holds (t : Title) (w : FeedbackRequest) : Prop :=
  match w.next with
  | .readMine _ _ | .readIds _ | .likeRead _ _ | .readActual => t.Respected
  | .addVeto _ wasRejected => t.Respected ∧ (wasRejected = false → t.vetoed = false)
  | .setDislike _ wasRejected => t.vetoed = true ∧ (wasRejected = false → t.Silent)
  | .undoRead | .undoVeto => t.Silent
  | .dropVeto _ _ => t.Respected ∧ t.SilentBut w.sub
  | .setLike _ _ vetoCleared => t.Respected ∨ vetoCleared = true ∧ t.SilentBut w.sub
  -- the like is not written, and no other write fails
  | .restoreVeto _ => w.failed = true
  | .clear actual _ => t.Respected ∧ (actual = some .dislike → t.vetoed = true)
  | .clearRead _ => t.vetoed = true ∧ t.dislikes w.sub = false
  | .clearVeto _ => t.vetoed = true ∧ t.Silent
  | .restoreDislike _ => t.vetoed = true

/-- What holds of a title after an operation: the request goes on, or it is over. -/
def Title.HoldsAfter (t : Title) (w : FeedbackRequest) (failed : Bool) :
    FeedbackStep ⊕ Bool → Prop
  | .inl next => t.Holds ⟨w.sub, w.failed || failed, next⟩
  | .inr _ => t.Respected

/-- **What a write does to the titles**: it sets one, or fails and leaves them. -/
structure FeedbackOutcome.Writes (o : FeedbackOutcome) (stores : Stores) (key : Kind × ℕ)
    (t : Title) (fault : Bool) (ok failed : FeedbackStep ⊕ Bool) : Prop where
  wrote : fault = false → o.next = ok ∧
    ∀ key', o.stores.title key' = if key' = key then t else stores.title key'
  kept : fault = true → o.next = failed ∧ o.stores = stores

section titles

variable {t : Title} {sub : String} {stores : Stores} {kind : Kind} {id : ℕ} {key : Kind × ℕ}
  {fault : Bool} {ok failed : FeedbackStep ⊕ Bool} {o : FeedbackOutcome} {w : FeedbackRequest}

theorem Title.Respected.of_silent (h : t.Silent) : t.Respected := fun sub' hsub =>
  absurd hsub (by simp [h sub'])

theorem Title.Respected.of_vetoed (h : t.vetoed = true) : t.Respected := fun _ _ => h

theorem Title.Respected.silent (h : t.Respected) (hvetoed : t.vetoed = false) : t.Silent :=
  fun sub' => Bool.eq_false_iff.mpr fun hsub => absurd (h sub' hsub) (by simp [hvetoed])

theorem Title.SilentBut.silent (h : t.SilentBut sub) (hsub : t.dislikes sub = false) :
    t.Silent := by
  intro sub'
  rcases eq_or_ne sub' sub with rfl | hne
  · exact hsub
  · exact h sub' hne

theorem Title.say_le {signal : Option Signal} (hsignal : signal ≠ some .dislike) {sub' : String}
    (h : (t.say sub signal).dislikes sub' = true) : sub' ≠ sub ∧ t.dislikes sub' = true := by
  rcases eq_or_ne sub' sub with rfl | hne
  · simp [Title.say, hsignal] at h
  · exact ⟨hne, by simpa [Title.say, hne] using h⟩

theorem Title.Respected.say (h : t.Respected) {signal : Option Signal}
    (hsignal : signal ≠ some .dislike) : (t.say sub signal).Respected :=
  fun sub' hsub => h sub' (Title.say_le hsignal hsub).2

theorem Title.SilentBut.say (h : t.SilentBut sub) {signal : Option Signal}
    (hsignal : signal ≠ some .dislike) : (t.say sub signal).Silent := by
  refine fun sub' => Bool.eq_false_iff.mpr fun hsub => ?_
  obtain ⟨hne, hold⟩ := Title.say_le hsignal hsub
  exact absurd hold (by simp [h sub' hne])

/-- **A member who says less** leaves what holds of a title: an erasure disturbs no request. -/
theorem Title.Holds.say (h : t.Holds w) (sub : String) : (t.say sub none).Holds w := by
  have hmono : ∀ sub', t.dislikes sub' = false → (t.say sub none).dislikes sub' = false := by
    refine fun sub' hsub => Bool.eq_false_iff.mpr fun hsay => ?_
    exact absurd (Title.say_le (by simp) hsay).2 (by simp [hsub])
  have hrespected : t.Respected → (t.say sub none).Respected := fun h => h.say (by simp)
  have hsilent : t.Silent → (t.say sub none).Silent := fun h sub' => hmono sub' (h sub')
  have hbut : ∀ caller, t.SilentBut caller → (t.say sub none).SilentBut caller :=
    fun _ h sub' hne => hmono sub' (h sub' hne)
  rcases w with ⟨caller, wfailed, next⟩
  rcases next <;> simp only [Title.Holds] at h ⊢
  case readMine | readIds | likeRead | readActual => exact hrespected h
  case addVeto | clear => exact ⟨hrespected h.1, h.2⟩
  case setDislike => exact ⟨h.1, fun hnot => hsilent (h.2 hnot)⟩
  case undoRead | undoVeto => exact hsilent h
  case dropVeto => exact ⟨hrespected h.1, hbut _ h.2⟩
  case setLike => exact h.imp hrespected fun h => ⟨h.1, hbut _ h.2⟩
  case restoreVeto | restoreDislike => exact h
  case clearRead => exact ⟨h.1, hmono _ h.2⟩
  case clearVeto => exact ⟨h.1, hsilent h.2⟩

theorem FeedbackOutcome.Writes.frame (h : o.Writes stores key t fault ok failed) {key' : Kind × ℕ}
    (hne : key' ≠ key) : o.stores.title key' = stores.title key' := by
  rcases hfault : fault with _ | _
  · rw [(h.wrote hfault).2, if_neg hne]
  · rw [(h.kept hfault).2]

theorem FeedbackOutcome.Writes.holdsAfter (h : o.Writes stores key t fault ok failed)
    (hok : fault = false → t.HoldsAfter w o.failed ok)
    (hfailed : fault = true → (stores.title key).HoldsAfter w o.failed failed) :
    (o.stores.title key).HoldsAfter w o.failed o.next := by
  rcases hfault : fault with _ | _
  · rw [(h.wrote hfault).1, (h.wrote hfault).2, if_pos rfl]
    exact hok hfault
  · rw [(h.kept hfault).1, (h.kept hfault).2]
    exact hfailed hfault

theorem writes_set (title : String) (next : Option Signal) :
    (writeFeedback stores fault (stores.feedback.set sub kind id title next) ok failed).Writes
      stores (kind, id) ((stores.title (kind, id)).say sub next) fault ok failed := by
  constructor
  · rintro rfl
    refine ⟨rfl, fun key' => (title_set title next).trans ?_⟩
    split
    · next h => rw [h]
    · rfl
  · rintro rfl
    exact ⟨rfl, rfl⟩

theorem writes_rejections {next : Option Rejections} {vetoed : Bool}
    (hnone : next = none → (stores.title (kind, id)).vetoed = vetoed)
    (hsome : ∀ r, next = some r → ∀ key, ({ stores with rejections := r } : Stores).title key =
      if key = (kind, id) then { stores.title key with vetoed } else stores.title key) :
    (writeRejections stores fault next ok failed).Writes stores (kind, id)
      { stores.title (kind, id) with vetoed } fault ok failed := by
  rcases next with _ | r
  · have hsame : ({ stores.title (kind, id) with vetoed } : Title) = stores.title (kind, id) := by
      rw [← hnone rfl]
    constructor
    · rintro rfl
      refine ⟨rfl, fun key' => ?_⟩
      split
      · next h => rw [hsame, h]; rfl
      · rfl
    · rintro rfl
      exact ⟨rfl, rfl⟩
  · constructor
    · rintro rfl
      refine ⟨rfl, fun key' => (hsome r rfl key').trans ?_⟩
      split
      · next h => rw [h]
      · rfl
    · rintro rfl
      exact ⟨rfl, rfl⟩

theorem writes_add (title : String) :
    (writeRejections stores fault (stores.rejections.add kind id title) ok failed).Writes stores
      (kind, id) { stores.title (kind, id) with vetoed := true } fault ok failed :=
  writes_rejections vetoed_of_add fun _ h _ => title_add h

theorem writes_remove :
    (writeRejections stores fault (stores.rejections.remove kind id) ok failed).Writes stores
      (kind, id) { stores.title (kind, id) with vetoed := false } fault ok failed :=
  writes_rejections not_vetoed_of_remove fun _ h _ => title_remove h

theorem holds_setSignalAfterRead {wfailed : Bool} {mine : KindLists} {title : String}
    {signal : Signal} (h : t.Respected) :
    t.Holds ⟨sub, wfailed, setSignalAfterRead mine id title signal⟩ := by
  rcases signal with _ | _
  · -- the veto is taken back only of what the member disliked
    rcases hprior : mine.disliked.find? fun e => e.id = id with _ | prior
    · simp only [setSignalAfterRead, hprior]
      exact Or.inl h
    · simp only [setSignalAfterRead, hprior]
      exact h
  · exact h

theorem holds_clearSignalAfterRead (wfailed : Bool) (h : (stores.title (kind, id)).Respected) :
    (stores.title (kind, id)).Holds
      ⟨sub, wfailed, clearSignalAfterRead ((stores.feedback.user sub).kind kind) id⟩ := by
  refine ⟨h, fun hactual => h sub ?_⟩
  split at hactual
  · next hprior => simpa [Stores.title] using hprior
  · split at hactual <;> exact absurd hactual (by simp)

theorem contains_ids (kind : Kind) (id : ℕ) :
    (stores.rejections.ids kind).contains id = (stores.title (kind, id)).vetoed := by
  rw [Bool.eq_iff_iff]
  simp [Rejections.ids, Stores.title]

/-- **An operation concerns one title.** -/
theorem run_frame (next : FeedbackStep) {key' : Kind × ℕ} (hne : key' ≠ (kind, id)) :
    (next.run stores sub kind id fault).stores.title key' = stores.title key' := by
  rcases next
  case readMine | readIds | undoRead | likeRead | readActual | clearRead => rfl
  case addVeto | restoreVeto => exact (writes_add _).frame hne
  case undoVeto | dropVeto | clearVeto => exact writes_remove.frame hne
  case setDislike | setLike | clear | restoreDislike => exact (writes_set _ _).frame hne

/-- **An operation keeps what the request relies on**, and a request that is over leaves the title
respected. -/
theorem Title.Holds.run (h : (stores.title (kind, id)).Holds w)
    (hone : w.failed = true → w.next.writes = true → fault = false) :
    ((w.next.run stores w.sub kind id fault).stores.title (kind, id)).HoldsAfter w
      (w.next.run stores w.sub kind id fault).failed
      (w.next.run stores w.sub kind id fault).next := by
  rcases w with ⟨sub, wfailed, next⟩
  rcases next with ⟨signal, title⟩ | title | ⟨title, was⟩ | ⟨title, was⟩ | _ | _ |
    ⟨title, prior⟩ | ⟨title, prior⟩ | ⟨title, prior, cleared⟩ | title | _ | ⟨actual, title⟩ |
    title | title | title
  case readMine =>
    rcases fault with _ | _
    · exact holds_setSignalAfterRead h
    · exact h
  case readIds =>
    rcases fault with _ | _
    · exact ⟨h, fun hnot => (contains_ids kind id).symm.trans hnot⟩
    · exact h
  case addVeto =>
    refine (writes_add title).holdsAfter (fun _ => ⟨rfl, fun hnot => ?_⟩) fun _ => h.1
    exact h.1.silent (h.2 hnot)
  case setDislike =>
    refine (writes_set title _).holdsAfter (fun _ => Title.Respected.of_vetoed h.1) fun _ => ?_
    rcases was with _ | _
    · exact h.2 rfl
    · exact Title.Respected.of_vetoed h.1
  case undoRead =>
    simp only [FeedbackStep.run, readStore]
    split
    · exact Title.Respected.of_silent h
    · exact h
  case undoVeto =>
    refine writes_remove.holdsAfter (fun _ => ?_) fun _ => Title.Respected.of_silent h
    exact Title.Respected.of_silent h
  case likeRead =>
    simp only [FeedbackStep.run, readStore]
    rcases fault with _ | _
    · rcases hothers : stores.feedback.anotherUserDislikes sub kind id with _ | _
      · exact ⟨h, silentBut_of_anotherUserDislikes hothers⟩
      · exact Or.inl h
    · exact h
  case dropVeto =>
    exact writes_remove.holdsAfter (fun _ => Or.inr ⟨rfl, h.2⟩) fun _ => h.1
  case setLike =>
    refine (writes_set title _).holdsAfter (fun _ => ?_) fun hfault => ?_
    · rcases h with h | ⟨-, h⟩
      · exact h.say (by simp)
      · exact Title.Respected.of_silent (h.say (by simp))
    · rcases cleared with _ | _
      · exact h.resolve_right (by simp)
      · simp [Title.HoldsAfter, Title.Holds, writeFeedback, hfault]
  case restoreVeto =>
    -- the write that failed was the like's
    obtain rfl := hone h rfl
    exact (writes_add title).holdsAfter (fun _ => Title.Respected.of_vetoed rfl) (by simp)
  case readActual =>
    rcases fault with _ | _
    · exact holds_clearSignalAfterRead (wfailed || false) h
    · exact h
  case clear =>
    refine (writes_set "" _).holdsAfter (fun _ => ?_) fun _ => h.1
    split
    · next hactual => exact ⟨h.2 hactual, by simp [Title.say]⟩
    · exact h.1.say (by simp)
  case clearRead =>
    simp only [FeedbackStep.run, readStore]
    rcases fault with _ | _
    · rcases hothers : stores.feedback.anotherUserDislikes sub kind id with _ | _
      · exact ⟨h.1, (silentBut_of_anotherUserDislikes hothers).silent h.2⟩
      · exact Title.Respected.of_vetoed h.1
    · exact h.1
  case clearVeto =>
    refine writes_remove.holdsAfter (fun _ => ?_) fun _ => h.1
    exact Title.Respected.of_silent h.2
  case restoreDislike =>
    refine (writes_set title _).holdsAfter (fun _ => ?_) fun _ => Title.Respected.of_vetoed h
    exact Title.Respected.of_vetoed h

end titles

/-! ### Over time -/

namespace FeedbackSystem

open ItemLocks

/-- A request that has not begun needs no more than that the title is respected. -/
def Begins (w : FeedbackRequest) : Prop := ∀ t : Title, t.Respected → t.Holds w

/-- **What every step keeps.** -/
structure Kept (s : FeedbackSystem) : Prop where
  exclusive : s.locks.Exclusive
  waiting : ∀ u ∈ s.locks.tasks, ∀ w, u.phase = .waiting w → Begins w
  running : ∀ u ∈ s.locks.tasks, ∀ w, u.phase = .running w → (s.stores.title u.key).Holds w
  idle : ∀ key, s.locks.Idle key → (s.stores.title key).Respected

variable {s t : FeedbackSystem} {stores : Stores} {u : LockTask (Kind × ℕ) FeedbackRequest}
  {locks : ItemLocks (Kind × ℕ) FeedbackRequest} {n : ℕ}

theorem running_of_phase {w : FeedbackRequest} (h : u.phase = .running w) : u.running = true := by
  simp [LockTask.running, h]

/-- **The same bodies run.** -/
theorem Kept.of_tasks (h : Kept s) (hexclusive : locks.Exclusive)
    (hwaiting : ∀ u ∈ locks.tasks, ∀ w, u.phase = .waiting w → u ∈ s.locks.tasks ∨ Begins w)
    (hnew : ∀ u ∈ locks.tasks, u.running = true → u ∈ s.locks.tasks)
    (hold : ∀ u ∈ s.locks.tasks, u.running = true → u ∈ locks.tasks) :
    Kept { s with locks } := by
  refine ⟨hexclusive, fun u hu w hw => ?_, fun u hu w hw => ?_, fun key hidle => ?_⟩
  · rcases hwaiting u hu w hw with hmem | hbegins
    · exact h.waiting u hmem w hw
    · exact hbegins
  · exact h.running u (hnew u hu (running_of_phase hw)) w hw
  · refine h.idle key fun u hu hkey => Bool.eq_false_iff.mpr fun hrunning => ?_
    exact absurd (hidle u (hold u hu hrunning) hkey) (by simp [hrunning])

/-- **The one body of a title goes on**, or begins, or is over: the other titles are left, and of
this one holds what the body relies on. -/
theorem Kept.setPhase (h : Kept s) (hu : s.locks.tasks[n]? = some u)
    {phase : LockPhase FeedbackRequest}
    (hexclusive : (s.locks.setPhase n u phase).Exclusive)
    (honly : ∀ v ∈ (s.locks.setPhase n u phase).tasks, v.running = true → v.key = u.key →
      v = { u with phase })
    (hwaiting : ∀ w, phase ≠ .waiting w)
    (hframe : ∀ key, key ≠ u.key → stores.title key = s.stores.title key)
    (hholds : ∀ w, phase = .running w → (stores.title u.key).Holds w)
    (hover : ({ u with phase } : LockTask _ _).running = false → (stores.title u.key).Respected) :
    Kept ⟨s.locks.setPhase n u phase, stores⟩ := by
  have hmem : ({ u with phase } : LockTask _ _) ∈ (s.locks.setPhase n u phase).tasks := by
    obtain ⟨hlt, -⟩ := List.getElem?_eq_some_iff.mp hu
    exact List.mem_set hlt _
  refine ⟨hexclusive, fun v hv w hw => ?_, fun v hv w hw => ?_, fun key hidle => ?_⟩
  · rcases List.mem_or_eq_of_mem_set hv with hmem' | rfl
    · exact h.waiting v hmem' w hw
    · exact absurd hw (hwaiting w)
  · rcases eq_or_ne v.key u.key with hkey | hkey
    · obtain rfl := honly v hv (running_of_phase hw) hkey
      exact hholds w hw
    · show (stores.title v.key).Holds w
      rw [hframe _ hkey]
      rcases List.mem_or_eq_of_mem_set hv with hmem' | rfl
      · exact h.running v hmem' w hw
      · exact absurd rfl hkey
  · show (stores.title key).Respected
    rcases eq_or_ne key u.key with rfl | hkey
    · exact hover (hidle _ hmem rfl)
    · rw [hframe _ hkey]
      refine h.idle key fun v hv hvkey => hidle v ?_ hvkey
      exact mem_set_of_ne hu hv (by rintro rfl; exact hkey hvkey.symm) _

theorem eq_of_running {v v' : LockTask (Kind × ℕ) FeedbackRequest} (h : locks.Exclusive)
    (hv : v ∈ locks.tasks) (hv' : v' ∈ locks.tasks) (hrunning : v.running = true)
    (hrunning' : v'.running = true) (hkey : v.key = v'.key) : v = v' :=
  eq_of_countP_le_one (h.runningWith_le v'.key) hv hv' (by simp [hrunning, hkey])
    (by simp [hrunning'])

/-- **What an operation of a request does** to the locks and the stores. -/
theorem step_run {fault : Bool} (h : step s (.run n fault) = some t) :
    ∃ u w, s.locks.tasks[n]? = some u ∧ u.phase = .running w ∧
      t.stores = (w.next.run s.stores w.sub u.key.1 u.key.2 fault).stores ∧
      match (w.next.run s.stores w.sub u.key.1 u.key.2 fault).next with
      | .inl next => t.locks = s.locks.setPhase n u (.running ⟨w.sub,
          w.failed || (w.next.run s.stores w.sub u.key.1 u.key.2 fault).failed, next⟩)
      | .inr _ => t.locks = s.locks.setPhase n u .released := by
  simp only [step] at h
  split at h
  · next kind id lock w hu =>
    refine ⟨_, w, hu, rfl, ?_⟩
    split at h
    · next next hnext =>
      obtain ⟨locks, hlocks, rfl⟩ := Option.map_eq_some_iff.mp h
      obtain ⟨u', hu', -, rfl⟩ := step_goOn hlocks
      obtain rfl := Option.some.inj (hu'.symm.trans hu)
      exact ⟨rfl, by simp only [hnext]⟩
    · next b hnext =>
      obtain ⟨locks, hlocks, rfl⟩ := Option.map_eq_some_iff.mp h
      obtain ⟨u', hu', -, rfl⟩ := step_finish hlocks
      obtain rfl := Option.some.inj (hu'.symm.trans hu)
      exact ⟨rfl, by simp only [hnext]⟩
  · exact absurd h (by simp)

theorem kept_start (h : ∀ key, (stores.title key).Respected) : Kept (start stores) :=
  ⟨exclusive_start, fun _ hu => absurd hu (by simp [start, ItemLocks.start]),
    fun _ hu => absurd hu (by simp [start, ItemLocks.start]), fun key _ => h key⟩

theorem Kept.arrive (h : Kept s) {key : Kind × ℕ} {w : FeedbackRequest} (hw : Begins w)
    (hstep : s.lockStep (.arrive key w) = some t) : Kept t := by
  obtain ⟨locks, hlocks, rfl⟩ := Option.map_eq_some_iff.mp hstep
  have hexclusive := h.exclusive.step hlocks
  obtain ⟨map, fresh, lock, rfl, -, -⟩ := step_arrive hlocks
  refine h.of_tasks hexclusive (fun u hu w' hw' => ?_) (fun u hu hrunning => ?_) fun u hu _ => ?_
  · rcases List.mem_append.mp hu with hold | hnew
    · exact Or.inl hold
    · obtain rfl := List.mem_singleton.mp hnew
      obtain rfl := LockPhase.waiting.inj hw'
      exact Or.inr hw
  · rcases List.mem_append.mp hu with hold | hnew
    · exact hold
    · obtain rfl := List.mem_singleton.mp hnew
      exact absurd hrunning (by simp [LockTask.running])
  · exact List.mem_append_left _ hu

theorem Kept.acquire (h : Kept s) (hstep : s.lockStep (.acquire n) = some t) : Kept t := by
  obtain ⟨locks, hlocks, rfl⟩ := Option.map_eq_some_iff.mp hstep
  have hexclusive := h.exclusive.step hlocks
  obtain ⟨u, w, hu, hphase, hfree, rfl⟩ := step_acquire hlocks
  have hmem := List.mem_of_getElem? hu
  have hidle : s.locks.Idle u.key := by
    refine fun v hv hkey => Bool.eq_false_iff.mpr fun hrunning => ?_
    -- it would have the mutex that is free
    have hlock : v.lock = u.lock := by
      have hentry := h.exclusive.entry v hv (leaves_of_running hrunning)
      rw [hkey, h.exclusive.entry u hmem (by simp [LockTask.leaves, hphase])] at hentry
      exact (Option.some.inj hentry).symm
    exact List.countP_eq_zero.mp hfree v hv (by simp [hrunning, hlock])
  refine h.setPhase hu hexclusive (fun v hv hrunning hkey => ?_) (by simp) (fun _ _ => rfl)
    (fun w' hw' => ?_) (by simp [LockTask.running])
  · exact eq_of_running hexclusive hv (List.mem_set (List.getElem?_eq_some_iff.mp hu).1 _) hrunning
      (by simp [LockTask.running]) hkey
  · obtain rfl := LockPhase.running.inj hw'
    exact h.waiting u hmem w hphase _ (h.idle u.key hidle)

/-- **A request goes on, or is over.** -/
theorem Kept.run (h : Kept s) {fault : Bool} (hone : OneFailure s (.run n fault))
    (hstep : step s (.run n fault) = some t) : Kept t := by
  obtain ⟨u, w, hu, hphase, hstores, hlocks⟩ := step_run hstep
  have hmem := List.mem_of_getElem? hu
  have hrunning := running_of_phase hphase
  have hlt := (List.getElem?_eq_some_iff.mp hu).1
  have hfailed : w.failed = true → w.next.writes = true → fault = false := by
    refine fun hfailed hwrites => hone ?_
    obtain ⟨key, lock, phase⟩ := u
    obtain rfl := hphase
    simp [failedBefore, hu, hfailed, hwrites]
  have hholds := (h.running u hmem w hphase).run hfailed
  have hframe : ∀ key, key ≠ u.key → t.stores.title key = s.stores.title key := by
    intro key hne
    rw [hstores]
    exact run_frame w.next hne
  obtain ⟨tlocks, tstores⟩ := t
  obtain rfl := hstores
  split at hlocks
  · next next hnext =>
    obtain rfl := hlocks
    rw [hnext] at hholds
    have hexclusive : (s.locks.setPhase n u (.running ⟨w.sub, w.failed ||
        (w.next.run s.stores w.sub u.key.1 u.key.2 fault).failed, next⟩)).Exclusive :=
      h.exclusive.setPhase hu (fun _ => leaves_of_running hrunning) fun _ => Or.inl hrunning
    refine h.setPhase hu hexclusive (fun v hv hv' hkey => ?_) (by simp) hframe (fun w' hw' => ?_)
      (by simp [LockTask.running])
    · exact eq_of_running hexclusive hv (List.mem_set hlt _) hv' (by simp [LockTask.running]) hkey
    · obtain rfl := LockPhase.running.inj hw'
      exact hholds
  · next b hnext =>
    obtain rfl := hlocks
    rw [hnext] at hholds
    have hexclusive : (s.locks.setPhase n u .released).Exclusive :=
      h.exclusive.setPhase hu (fun _ => leaves_of_running hrunning) fun hno =>
        absurd hno (by simp [LockTask.running])
    refine h.setPhase hu hexclusive (fun v hv hv' hkey => ?_) (by simp) hframe (by simp)
      fun _ => hholds
    -- it was the only body of the key that was running
    have hcount := countP_set hu { u with phase := .released }
      fun v => v.running && v.key = u.key
    have hle : s.locks.tasks.countP (fun v => v.running && v.key = u.key) ≤ 1 :=
      h.exclusive.runningWith_le u.key
    have hzero : (s.locks.tasks.set n { u with phase := .released }).countP
        (fun v => v.running && v.key = u.key) = 0 := by
      have hreleased : ({ u with phase := .released } : LockTask (Kind × ℕ)
        FeedbackRequest).running = false := rfl
      simp only [hrunning, hreleased, decide_true, Bool.and_true, if_true, Bool.false_eq_true,
        if_false] at hcount
      omega
    exact absurd (List.countP_eq_zero.mp hzero v hv) (by simp [hv', hkey])

theorem Kept.cleanUp (h : Kept s) (hstep : s.lockStep (.cleanUp n) = some t) : Kept t := by
  obtain ⟨locks, hlocks, rfl⟩ := Option.map_eq_some_iff.mp hstep
  have hexclusive := h.exclusive.step hlocks
  obtain ⟨u, hu, hphase, rfl⟩ := step_cleanUp hlocks
  refine h.of_tasks hexclusive (fun v hv w hw => ?_) (fun v hv hrunning => ?_)
    fun v hv hrunning => ?_
  · rcases List.mem_or_eq_of_mem_set hv with hold | rfl
    · exact Or.inl hold
    · exact absurd hw (by simp)
  · rcases List.mem_or_eq_of_mem_set hv with hold | rfl
    · exact hold
    · exact absurd hrunning (by simp [LockTask.running])
  · refine mem_set_of_ne hu hv ?_ _
    rintro rfl
    exact absurd hrunning (by simp [LockTask.running, hphase])

theorem Kept.leave (h : Kept s) (hstep : s.lockStep (.leave n) = some t) : Kept t := by
  obtain ⟨locks, hlocks, rfl⟩ := Option.map_eq_some_iff.mp hstep
  have hexclusive := h.exclusive.step hlocks
  obtain ⟨u, hu, hleaves, rfl⟩ := step_leave hlocks
  refine h.of_tasks hexclusive (fun v hv _ _ => Or.inl (List.mem_of_mem_eraseIdx hv))
    (fun v hv _ => List.mem_of_mem_eraseIdx hv) fun v hv hrunning => ?_
  obtain ⟨i, hi⟩ := List.mem_iff_getElem?.mp hv
  refine List.mem_eraseIdx_iff_getElem?.mpr ⟨i, ?_, hi⟩
  rintro rfl
  obtain rfl := Option.some.inj (hi.symm.trans hu)
  exact absurd (leaves_of_running hrunning) (by simp [hleaves])

/-- **An account is erased** between any two operations. -/
theorem Kept.erase (h : Kept s) (sub : String) (fault : Bool) : Kept { s with stores :=
    { s.stores with feedback :=
      (updateStore fault s.stores.feedback (s.stores.feedback.clearUser sub)).2 } } := by
  rcases hnext : s.stores.feedback.clearUser sub with _ | next
  · exact h
  · rcases fault with _ | _
    · refine ⟨h.exclusive, h.waiting, fun u hu w hw => ?_, fun key hidle => ?_⟩
      · show ({ s.stores with feedback := next } : Stores).title u.key |>.Holds w
        rw [title_clearUser hnext]
        exact (h.running u hu w hw).say sub
      · show ({ s.stores with feedback := next } : Stores).title key |>.Respected
        rw [title_clearUser hnext]
        exact (h.idle key hidle).say (by simp)
    · exact h

/-- **One step.** -/
theorem Kept.step (h : Kept s) {a : FeedbackAct} (hone : OneFailure s a)
    (hstep : step s a = some t) : Kept t := by
  rcases a with ⟨sub, kind, id, signal, title⟩ | ⟨sub, kind, id⟩ | n | ⟨n, fault⟩ | n | n |
    ⟨sub, fault⟩
  · exact h.arrive (w := ⟨sub, false, .readMine signal title⟩) (fun _ ht => ht) hstep
  · exact h.arrive (w := ⟨sub, false, .readActual⟩) (fun _ ht => ht) hstep
  · exact h.acquire hstep
  · exact h.run hone hstep
  · exact h.cleanUp hstep
  · exact h.leave hstep
  · obtain rfl := Option.some.inj hstep
    exact h.erase sub fault

/-- **A dislike is a household veto**, and one body runs under a key: whatever requests come on
whatever titles, in whatever order their operations are run, whichever one write of each fails, and
whoever is erased, a title that no request is running on is disliked by nobody unless the household
has vetoed it. -/
theorem veto_of_runs (hstart : ∀ key, (stores.title key).Respected)
    (h : Runs step OneFailure (start stores) s) :
    (∀ kind id, s.locks.Idle (kind, id) →
      ∀ sub, (∃ e ∈ ((s.stores.feedback.user sub).kind kind).disliked, e.id = id) →
        id ∈ s.stores.rejections.ids kind) ∧
    (∀ key, s.locks.runningWith key ≤ 1) ∧
    ∀ {β : Type} {l : ItemLocks (Kind × ℕ) β}, Runs ItemLocks.step anyStep .start l →
      ∀ key, l.runningWith key ≤ 1 := by
  have hkept : Kept s := h.invariant (kept_start hstart)
    fun _ _ _ hv hone hstep => hv.step hone hstep
  refine ⟨fun kind id hidle sub ⟨e, he, hid⟩ => ?_, hkept.exclusive.runningWith_le,
    fun hl key => runningWith_le_one hl key⟩
  have hvetoed := hkept.idle (kind, id) hidle sub (List.any_eq_true.mpr ⟨e, he, by simpa using hid⟩)
  exact List.contains_iff_mem.mp ((contains_ids kind id).trans hvetoed)

/-- Two members dislike a film, the one a series as well, whose veto is taken back when the dislike
cannot be written; the other then takes back the dislike of the film, and is erased. -/
def twoMembers : List FeedbackAct :=
  [.setSignal "a" .movie 1 .dislike "Alien", .setSignal "b" .movie 1 .dislike "",
    .setSignal "b" .tv 2 .dislike "",
    .acquire 0, .run 0 false, .run 0 false, .run 0 false, .run 0 false, .cleanUp 0,
    .acquire 1, .run 1 false, .run 1 false, .run 1 false, .run 1 false, .cleanUp 1,
    .acquire 2, .run 2 false, .run 2 false, .run 2 false, .run 2 true, .run 2 false, .run 2 false,
    .cleanUp 2, .leave 0, .leave 0, .leave 0,
    .clearSignal "b" .movie 1, .acquire 0, .run 0 false, .run 0 false, .run 0 false, .cleanUp 0,
    .leave 0, .erase "b" false]

/-- The film stays vetoed: one still dislikes it. -/
theorem veto_of_runs_twoMembers : ∃ s : FeedbackSystem,
    ((s.stores.feedback.user "a").movie.disliked = [⟨1, "Alien"⟩] ∧
      s.stores.feedback.lookup "b" = none ∧ s.stores.rejections.tv = []) ∧
    (∀ kind id, s.locks.Idle (kind, id) →
      ∀ sub, (∃ e ∈ ((s.stores.feedback.user sub).kind kind).disliked, e.id = id) →
        id ∈ s.stores.rejections.ids kind) ∧
    (∀ key, s.locks.runningWith key ≤ 1) ∧
    ∀ {β : Type} {l : ItemLocks (Kind × ℕ) β}, Runs ItemLocks.step anyStep .start l →
      ∀ key, l.runningWith key ≤ 1 := by
  have h : ∃ s, exec (guarded step OneFailure) (start ⟨∅, ⟨[], []⟩⟩) twoMembers = some s ∧
      (s.stores.feedback.user "a").movie.disliked = [⟨1, "Alien"⟩] ∧
      s.stores.feedback.lookup "b" = none ∧ s.stores.rejections.tv = [] :=
    ⟨_, rfl, by decide, by decide, by decide⟩
  obtain ⟨s, hs, hstores⟩ := h
  have hempty : ∀ key, ((⟨∅, ⟨[], []⟩⟩ : Stores).title key).Respected := by
    refine fun key => Title.Respected.of_silent fun sub => ?_
    rcases key with ⟨_ | _, _⟩ <;> rfl
  exact ⟨s, hstores, veto_of_runs hempty (runs_of_exec_guarded hs)⟩

end FeedbackSystem

end EmeraldExchange.Gateway
