import EmeraldExchange.Gateway.RadarrAdd

/-!
# How an add ends

When the gateway answers, the movie is settled, or the last call has failed and its status is in the
answer, or the add itself is in doubt: it timed out, or the movie that was added cannot be
identified (`addMovie_ends`). The recommender has heard of the
movie exactly when the answer is a success.

A call that succeeds has had its effect, and one that is refused has not; that is all that is needed
of a call (`Asked`), and the rule for each function of the
pipeline is built on it.
-/

namespace EmeraldExchange.Gateway.RadarrAdd

open Auth Binary64 Releases

variable (env : Env)

/-! ### How it may end -/

def Movie.Settled (m : Movie) : Prop :=
  m.present = false ∨ m.queued = true ∨ m.monitored = true

/-- The call is for what would settle the movie, and this is where its status goes. -/
def Call.statusKey : Call → Option String
  | .remove _ => some "rollbackStatus"
  | .monitor _ _ => some "status"
  | _ => none

/-- **The last call has failed, and its status is in the answer.** -/
def Excused (res : Response) (w : World) : Prop :=
  ∃ c r key, w.calls.getLast? = some (c, r) ∧ r.isSuccess = false ∧ c.statusKey = some key ∧
    res.field key = some (.int r.status)

/-- **The add timed out**, and that is the answer. -/
def TimedOut (res : Response) (w : World) : Prop :=
  ∃ body r, w.calls = [(.addMovie body, r)] ∧ r.status = gatewayTimeout ∧
    res.status = gatewayTimeout

/-- **The movie was added and is not identified**: the reply to the add has no identifier, and
nothing was done but to look for one. -/
def Unidentified (res : Response) (w : World) : Prop :=
  res.status = 502 ∧ res.field "error" = some (.str "add_unverified") ∧
    ∃ body r rest, w.calls = (.addMovie body, r) :: rest ∧ r.isSuccess = true ∧
      (r.json.toOption.bind fun c => identifier c) = none ∧
      ∀ x ∈ rest, ∃ tmdbId, x.1 = .lookup tmdbId

/-- **How an add with a search ends.** Either it is a success, the movie is there with a grab queued
or monitored, and the recommender has heard of it; or it is a failure of which the recommender hears
nothing, and the movie is settled unless the call that would have settled it failed, or the add
itself is in doubt. -/
def Ends (body : List (String × JsonTree)) (res : Response) (w : World) : Prop :=
  res.isSuccess = true ∧ w.movie.present = true ∧
      (w.movie.queued = true ∨ w.movie.monitored = true) ∧ w.added = addedEvents env body ∨
    res.isSuccess = false ∧ w.added = [] ∧
      (w.movie.Settled ∨ Excused res w ∨ TimedOut res w ∨ Unidentified res w)

def start (answers : ℕ → Answer) : World := ⟨answers, [], ⟨false, false, false⟩, [], []⟩

/-! ### Calls -/

section calls

variable {env} {c : Call} {w : World} {E : World → Prop}

/-- **What a call leaves behind.** -/
structure Asked (c : Call) (w : World) (r : Reply) (t : World) : Prop where
  calls : t.calls = w.calls ++ [(c, r)]
  added : t.added = w.added
  success : r.isSuccess = true → t.movie = c.effect w.movie
  refused : r.isSuccess = false → r.status ≠ gatewayTimeout → t.movie = w.movie
  either : t.movie = w.movie ∨ t.movie = c.effect w.movie

theorem authFailure_of_ne {r : Reply} (h : r.status ≠ 401) : authFailure r = r := if_pos h

theorem isSuccess_of_authFailure {r : Reply} (h : (authFailure r).isSuccess = true) :
    r.isSuccess = true := by
  by_cases hr : r.status = 401
  · rw [authFailure, if_neg (not_not.mpr hr)] at h
    exact absurd h (by decide)
  · rwa [authFailure_of_ne hr] at h

theorem asked (c : Call) (w : World) : Asked c w (w.ask c).1 (w.ask c).2 where
  calls := rfl
  added := rfl
  success h := by
    have htook := (w.answers w.calls.length).took_of_success (isSuccess_of_authFailure h)
    exact if_pos htook
  refused h hne := by
    have htook : (w.answers w.calls.length).took = false := by
      refine (w.answers w.calls.length).not_took_of_refused ?_ ?_
      · by_cases hr : (w.answers w.calls.length).reply.status = 401
        · rw [Reply.isSuccess, hr]
          rfl
        · rw [← authFailure_of_ne hr]
          exact h
      · by_cases hr : (w.answers w.calls.length).reply.status = 401
        · rw [hr]
          decide
        · rw [← authFailure_of_ne hr]
          exact hne
    exact if_neg (Bool.eq_false_iff.mp htook)
  either := by
    show (if _ then _ else _) = _ ∨ (if _ then _ else _) = _
    split
    · exact .inr rfl
    · exact .inl rfl

/-- **What an answer says of the movie**, where a success is told to the recommender. -/
def Answered (events : List JsonTree) (w : World) (res : Response) (t : World) : Prop :=
  res.isSuccess = true ∧ t.movie.present = true ∧
      (t.movie.queued = true ∨ t.movie.monitored = true) ∧ t.added = w.added ++ events ∨
    res.isSuccess = false ∧ t.added = w.added ∧ (t.movie.Settled ∨ Excused res t)

theorem Answered.ends {body : List (String × JsonTree)} {res : Response} {t : World}
    (h : Answered (addedEvents env body) w res t) (hadded : w.added = []) :
    Ends env body res t := by
  rw [Answered, hadded] at h
  rcases h with h | ⟨hfails, htold, hsettled | hexcused⟩
  · exact .inl h
  · exact .inr ⟨hfails, htold, .inl hsettled⟩
  · exact .inr ⟨hfails, htold, .inr (.inl hexcused)⟩

end calls

def answered (status : ℕ) (valid : 100 ≤ status) (json : Except String JsonTree) : Answer where
  reply := ⟨status, valid, none, "", json⟩
  took := Reply.isSuccess ⟨status, valid, none, "", json⟩
  took_of_success h := h
  not_took_of_refused h _ := h

end EmeraldExchange.Gateway.RadarrAdd
