import EmeraldExchange.Lib.Table
import Mathlib.Data.Finset.Card

/-!
# The order of a playlist

An item that is added to a playlist comes last; one that is removed leaves a gap. A reorder (`reorder_playlist` of
`crates/media-core/src/routes/playlists.rs`) counts the items first; if its body names as many, each
once, a transaction gives each of them its place in the body, and goes through if it has found them
all.

Others may add and remove items between the count and the transaction. If then something stands
among the first places that the body does not name, two items have one position
(`playlist_loses_order`); and if the stamp that comes after the
transaction fails, the request fails though it has moved the items. Otherwise the positions are
distinct at every moment, and reorders do what they say
(`inv_of_reached`). It is enough that nothing is removed and
nothing else reordered between a count and its transaction, and that the body names what was counted
(`clear_of_quiet`).

A transaction is one statement here, as no other writes while it does.
-/

namespace EmeraldExchange.MediaCore.Playlists

abbrev Item := String × ℤ

/-- **The items of a playlist**, and the position of each. -/
abbrev Items := Table Item ℤ

/-! ### The statements -/

/-- `COALESCE(MAX(position) + 1, 0)` -/
def nextPosition (items : Items) : ℤ :=
  match items.values.max? with
  | none => 0
  | some position => position + 1

/-- `INSERT .. ON CONFLICT DO NOTHING` -/
def insertItem (item : Item) (items : Items) : Items :=
  items.insertOrIgnore item (nextPosition items)

/-- An `UPDATE` for each item, with its place from a number on, and how many rows they affect. -/
def updatePositions : ℤ → List Item → Items → Items × ℕ
  | _, [], items => (items, 0)
  | position, item :: body, items =>
    let rest := updatePositions (position + 1) body (items.modify item fun _ => position)
    (rest.1, (if (items.lookup item).isSome then 1 else 0) + rest.2)

/-- **The transaction of a reorder**: all of its rows, or none. -/
def reorderItems (body : List Item) (count : ℕ) (items : Items) : Option Items :=
  let updates := updatePositions 0 body items
  if updates.2 ≠ count then none else some updates.1

/-! ### Requests -/

inductive Request
  | add (item : Item)
  | remove (item : Item)
  | reorder (body : List Item)

/-- What a reorder has changed: the items before and after, and those before that it had counted and
that had been there since. -/
structure Commit where
  before : Items
  kept : Finset Item
  after : Items

/-- How far a request is: the statement that comes next. -/
inductive Phase
  /-- `store_owned` -/
  | start
  /-- `store_item_valid`, the deletion, or the count. -/
  | owned
  /-- The insertion. -/
  | valid
  /-- The transaction. No statement reads which of the items that were counted are still there. -/
  | counted (count : ℕ) (kept : Finset Item)
  /-- `store_touch` -/
  | written
  | done (ok : Bool)

/-- **A request on its way.** -/
structure Client where
  request : Request
  /-- The playlist is the caller's. -/
  owner : Bool
  phase : Phase
  commit : Option Commit

def kinds : List String := ["movie", "episode"]

/-- **The next statement of a request.** It fails without luck; an item is valid if it is in the
catalog, which is luck too. -/
def Client.step (luck : Bool) (items : Items) (c : Client) : Client × Items :=
  match c.phase, c.request with
  | .start, _ => ({ c with phase := if luck && c.owner then .owned else .done false }, items)
  | .owned, .add item =>
    ({ c with phase := if luck && kinds.contains item.1 then .valid else .done false }, items)
  | .owned, .remove item =>
    if luck then ({ c with phase := .written }, items.erase item)
    else ({ c with phase := .done false }, items)
  | .owned, .reorder _ =>
    ({ c with phase := if luck then .counted items.size items.keys.toFinset else .done false },
      items)
  | .valid, .add item =>
    if luck then ({ c with phase := .written }, insertItem item items)
    else ({ c with phase := .done false }, items)
  | .counted count kept, .reorder body =>
    if body.length ≠ count ∨ ¬ body.Nodup then ({ c with phase := .done false }, items)
    else match (reorderItems body count items).filter fun _ => luck with
      | none => ({ c with phase := .done false }, items)
      | some after => ({ c with phase := .written, commit := some ⟨items, kept, after⟩ }, after)
  | .written, _ => ({ c with phase := .done luck }, items)
  | _, _ => (c, items)

/-- An item that has been removed is not kept. -/
def Client.forget (items : Items) (c : Client) : Client :=
  match c.phase with
  | .counted count kept =>
    { c with phase := .counted count (kept.filter fun item => (items.lookup item).isSome) }
  | _ => c

/-- **A playlist and the requests on it.** -/
structure Sys where
  items : Items
  clients : List Client

/-- A request arrives, or the next statement of one is executed. -/
inductive Action
  | arrive (request : Request) (owner : Bool)
  | step (i : ℕ) (luck : Bool)

/-- **One statement.** -/
def Sys.step (s : Sys) : Action → Sys
  | .arrive request owner => { s with clients := s.clients ++ [⟨request, owner, .start, none⟩] }
  | .step i luck => match s.clients[i]? with
    | none => s
    | some c =>
      let next := c.step luck s.items
      ⟨next.2, (s.clients.set i next.1).map (Client.forget next.2)⟩

/-! ### What a reorder does -/

/-- **No two items have one position.** -/
def Distinct (items : Items) : Prop :=
  ∀ x y p, items.lookup x = some p → items.lookup y = some p → x = y

/-- **The items of the body stand first**, in its order, and what stands after them was not there
all the time. -/
structure Ordered (body : List Item) (kept : Finset Item) (items : Items) : Prop where
  first : ∀ (k : ℕ) x, body[k]? = some x → items.lookup x = some (k : ℤ)
  rest : ∀ x p, items.lookup x = some p → x ∉ body → x ∉ kept ∧ (body.length : ℤ) ≤ p

/-- What the body does not name was not there all the time, and stands far enough behind. -/
def Ahead (body : List Item) (kept : Finset Item) (items : Items) : Prop :=
  ∀ x p, items.lookup x = some p → x ∉ body → x ∉ kept ∧ (body.length : ℤ) ≤ p

section

variable {body : List Item} {kept : Finset Item} {items after : Items} {count : ℕ}

theorem lookup_updatePositions : ∀ {body : List Item} {n : ℤ} {items : Items}, body.Nodup → ∀ x,
    (updatePositions n body items).1.lookup x = (items.lookup x).map fun p =>
      if x ∈ body then n + body.idxOf x else p
  | [], n, items, _, x => by simp [updatePositions]
  | item :: body, n, items, h, x => by
    obtain ⟨hnew, hnodup⟩ := List.nodup_cons.mp h
    rw [updatePositions, lookup_updatePositions hnodup, Table.lookup_modify, Option.map_map]
    refine Option.map_congr fun p _ => ?_
    rw [Function.comp_apply]
    by_cases hx : x = item
    · subst hx
      rw [if_neg hnew, if_pos rfl, if_pos List.mem_cons_self, List.idxOf_cons_self]
      simp
    · rw [if_neg hx]
      by_cases hbody : x ∈ body
      · rw [if_pos hbody, if_pos (List.mem_cons_of_mem _ hbody),
          List.idxOf_cons_ne _ (Ne.symm hx)]
        push_cast
        omega
      · rw [if_neg hbody, if_neg (by simp [hx, hbody])]

theorem updatePositions_snd : ∀ {body : List Item} {n : ℤ} {items : Items},
    (updatePositions n body items).2 = body.countP fun item => (items.lookup item).isSome
  | [], _, _ => rfl
  | item :: body, n, items => by
    have hrest : (updatePositions (n + 1) body (items.modify item fun _ => n)).2 =
        body.countP fun item => (items.lookup item).isSome := by
      rw [updatePositions_snd]
      refine List.countP_congr fun x _ => ?_
      rw [Table.lookup_modify, Option.isSome_map]
    rw [updatePositions, List.countP_cons, hrest, Nat.add_comm]

/-- **A reorder goes through where all that it names is there.** -/
theorem reorderItems_eq_some : reorderItems body body.length items = some after ↔
    (∀ x ∈ body, (items.lookup x).isSome) ∧ after = (updatePositions 0 body items).1 := by
  rw [reorderItems, updatePositions_snd]
  by_cases h : (body.countP fun item => (items.lookup item).isSome) = body.length
  · rw [if_neg (not_not.mpr h), Option.some.injEq, eq_comm]
    exact (and_iff_right (List.countP_eq_length.mp h)).symm
  · rw [if_pos h]
    refine iff_of_false nofun fun hall => h (List.countP_eq_length.mpr hall.1)

theorem idxOf_of_getElem? {k : ℕ} {x : Item} (hnodup : body.Nodup) (h : body[k]? = some x) :
    body.idxOf x = k := by
  obtain ⟨hk, rfl⟩ := List.getElem?_eq_some_iff.mp h
  exact hnodup.idxOf_getElem k hk

/-- **The items stand in the order of the body exactly if what it does not name stands far enough
behind before.** -/
theorem ordered_iff (hnodup : body.Nodup) (h : reorderItems body body.length items = some after) :
    Ordered body kept after ↔ Ahead body kept items := by
  obtain ⟨hall, rfl⟩ := reorderItems_eq_some.mp h
  constructor
  · intro h x p hx hbody
    refine h.rest x p ?_ hbody
    rw [lookup_updatePositions hnodup, hx, Option.map_some, if_neg hbody]
  · intro h
    constructor
    · intro k x hk
      have hmem := List.mem_of_getElem? hk
      obtain ⟨p, hp⟩ := Option.isSome_iff_exists.mp (hall x hmem)
      rw [lookup_updatePositions hnodup, hp, Option.map_some, if_pos hmem,
        idxOf_of_getElem? hnodup hk, Int.zero_add]
    · intro x p hx hbody
      rw [lookup_updatePositions hnodup] at hx
      obtain ⟨q, hq, rfl⟩ := Option.map_eq_some_iff.mp hx
      rw [if_neg hbody]
      exact h x q hq hbody

/-- **Then no two items have one position.** -/
theorem distinct_of_reorderItems (hnodup : body.Nodup) (hdistinct : Distinct items)
    (hahead : Ahead body kept items) (h : reorderItems body body.length items = some after) :
    Distinct after := by
  obtain ⟨-, rfl⟩ := reorderItems_eq_some.mp h
  intro x y p hx hy
  rw [lookup_updatePositions hnodup] at hx hy
  obtain ⟨px, hpx, rfl⟩ := Option.map_eq_some_iff.mp hx
  obtain ⟨py, hpy, hp⟩ := Option.map_eq_some_iff.mp hy
  by_cases hxb : x ∈ body
  · have hix := List.idxOf_lt_length_of_mem hxb
    by_cases hyb : y ∈ body
    · -- both have been placed
      rw [if_pos hxb, if_pos hyb] at hp
      have hidx : body.idxOf x = body.idxOf y := by omega
      exact (List.idxOf_inj hxb).mp hidx
    · rw [if_pos hxb, if_neg hyb] at hp
      have hle := (hahead y py hpy hyb).2
      omega
  · by_cases hyb : y ∈ body
    · rw [if_neg hxb, if_pos hyb] at hp
      have hle := (hahead x px hpx hxb).2
      have hiy := List.idxOf_lt_length_of_mem hyb
      omega
    · -- neither has moved
      rw [if_neg hxb, if_neg hyb] at hp
      exact hdistinct x y px hpx (hp ▸ hpy)

/-! ### What the others do -/

theorem lt_nextPosition {x : Item} {p : ℤ} (h : items.lookup x = some p) :
    p < nextPosition items := by
  have hmem := Table.mem_values_of_lookup h
  rw [nextPosition]
  split
  · next hnone =>
    rw [List.max?_eq_none_iff.mp hnone] at hmem
    exact absurd hmem List.not_mem_nil
  · next position hmax =>
    have hle := (List.max?_eq_some_iff.mp hmax).2 p hmem
    omega

theorem lookup_insertItem {item x : Item} {p : ℤ} (h : (insertItem item items).lookup x = some p) :
    items.lookup x = some p ∨ x = item ∧ p = nextPosition items := by
  rw [insertItem, Table.lookup_insertOrIgnore] at h
  rcases Option.or_eq_some_iff.mp h with h | ⟨-, h⟩
  · exact .inl h
  · split at h
    · next hx => exact .inr ⟨hx, (Option.some.inj h).symm⟩
    · cases h

theorem distinct_insertItem (item : Item) (h : Distinct items) :
    Distinct (insertItem item items) := by
  intro x y p hx hy
  rcases lookup_insertItem hx with hx | ⟨rfl, rfl⟩
  · rcases lookup_insertItem hy with hy | ⟨-, rfl⟩
    · exact h x y p hx hy
    · exact absurd (lt_nextPosition hx) (lt_irrefl _)
  · rcases lookup_insertItem hy with hy | ⟨rfl, -⟩
    · exact absurd (lt_nextPosition hy) (lt_irrefl _)
    · rfl

theorem lookup_of_lookup_erase {item x : Item} {p : ℤ}
    (h : (items.erase item).lookup x = some p) : items.lookup x = some p := by
  by_cases hx : x = item
  · rw [hx, AList.lookup_erase] at h
    cases h
  · rwa [AList.lookup_erase_ne hx] at h

theorem distinct_erase (item : Item) (h : Distinct items) : Distinct (items.erase item) :=
  fun x y p hx hy => h x y p (lookup_of_lookup_erase hx) (lookup_of_lookup_erase hy)

end

/-! ### The statements of all -/

/-- **The statement is clear**: a reorder's transaction that goes through finds what it does not
name far enough behind and not there all the time, and the stamp of a reorder does not fail. -/
def Client.Clear (c : Client) (luck : Bool) (items : Items) : Prop :=
  ∀ body, c.request = .reorder body →
    (∀ kept after, c.phase = .counted body.length kept → luck = true → body.Nodup →
      reorderItems body body.length items = some after → Ahead body kept items) ∧
    (c.phase = .written → luck = true)

def Clear (s : Sys) : Action → Prop
  | .arrive _ _ => True
  | .step i luck => ∀ c, s.clients[i]? = some c → c.Clear luck s.items

/-- **A reorder has done what it says**: nothing until its transaction, and then the items stand in
the order of its body. -/
structure Good (c : Client) (body : List Item) : Prop where
  unchanged : c.phase ≠ .written → c.phase ≠ .done true → c.commit = none
  ok : c.phase = .done true ∨ c.phase = .written → ∃ commit, c.commit = some commit ∧
    Ordered body commit.kept commit.after

/-- **What holds at every moment.** -/
structure Inv (s : Sys) : Prop where
  distinct : Distinct s.items
  good : ∀ c ∈ s.clients, ∀ body, c.request = .reorder body → Good c body

/-- What can be reached by clear statements. -/
inductive Reached (start : Sys) : Sys → Prop
  | start : Reached start start
  | step {s : Sys} {a : Action} (reached : Reached start s) (clear : Clear s a) :
      Reached start (s.step a)

section

variable {c : Client} {luck : Bool} {items : Items} {body : List Item}

variable (c luck items) in
theorem step_counted {count : ℕ} {kept : Finset Item} (hrequest : c.request = .reorder body)
    (hphase : c.phase = .counted count kept) :
    c.step luck items = ({ c with phase := .done false }, items) ∨
    ∃ after, count = body.length ∧ luck = true ∧ body.Nodup ∧
      reorderItems body body.length items = some after ∧
      c.step luck items = ({ c with phase := .written, commit := some ⟨items, kept, after⟩ },
        after) := by
  rw [Client.step, hphase, hrequest]
  simp only
  by_cases hcheck : body.length ≠ count ∨ ¬ body.Nodup
  · rw [if_pos hcheck]
    exact .inl rfl
  · rw [if_neg hcheck]
    obtain ⟨hcount, hnodup⟩ := not_or.mp hcheck
    obtain rfl := not_not.mp hcount
    cases htx : (reorderItems body body.length items).filter fun _ => luck with
    | none => exact .inl rfl
    | some after =>
      obtain ⟨hafter, hluck⟩ := Option.filter_eq_some_iff.mp htx
      exact .inr ⟨after, rfl, hluck, not_not.mp hnodup, hafter, rfl⟩

variable (c luck items) in
/-- **What a statement does to the items**: nothing, or it adds one, removes one or places them. -/
theorem step_items : (c.step luck items).2 = items ∨
    (∃ item, (c.step luck items).2 = insertItem item items) ∨
    (∃ item, c.request = .remove item ∧ c.phase = .owned ∧
      (c.step luck items).2 = items.erase item) ∨
    ∃ body kept, c.request = .reorder body ∧ c.phase = .counted body.length kept ∧ luck = true ∧
      body.Nodup ∧ reorderItems body body.length items = some (c.step luck items).2 := by
  obtain ⟨request, owner, phase, commit⟩ := c
  cases phase with
  | start => exact .inl rfl
  | owned =>
    cases request with
    | add item => exact .inl rfl
    | remove item =>
      cases luck with
      | false => exact .inl rfl
      | true => exact .inr (.inr (.inl ⟨item, rfl, rfl, rfl⟩))
    | reorder body => exact .inl rfl
  | valid =>
    cases request with
    | add item =>
      cases luck with
      | false => exact .inl rfl
      | true => exact .inr (.inl ⟨item, rfl⟩)
    | remove item => exact .inl rfl
    | reorder body => exact .inl rfl
  | counted count kept =>
    cases request with
    | add item => exact .inl rfl
    | remove item => exact .inl rfl
    | reorder body =>
      rcases step_counted ⟨.reorder body, owner, .counted count kept, commit⟩ luck items rfl rfl with
        heq | ⟨after, rfl, hluck, hnodup, hafter, heq⟩
      · exact .inl (by rw [heq])
      · exact .inr (.inr (.inr ⟨body, kept, rfl, rfl, hluck, hnodup, by rw [heq]; exact hafter⟩))
  | written => exact .inl rfl
  | done ok => exact .inl rfl

/-- **A statement keeps the positions apart.** -/
theorem distinct_step (hdistinct : Distinct items) (hclear : c.Clear luck items) :
    Distinct (c.step luck items).2 := by
  rcases step_items c luck items with heq | ⟨item, heq⟩ |
    ⟨item, -, -, heq⟩ | ⟨body, kept, hrequest, hphase, hluck, hnodup, hafter⟩
  · rwa [heq]
  · rw [heq]
    exact distinct_insertItem item hdistinct
  · rw [heq]
    exact distinct_erase item hdistinct
  · have hahead := (hclear body hrequest).1 kept _ hphase hluck hnodup hafter
    exact distinct_of_reorderItems hnodup hdistinct hahead hafter

theorem Good.of_none (hcommit : c.commit = none) (hwritten : c.phase ≠ .written)
    (hdone : c.phase ≠ .done true) : Good c body where
  unchanged := fun _ _ => hcommit
  ok := fun h => h.elim (fun h => absurd h hdone) fun h => absurd h hwritten

/-- **A statement of a reorder keeps what it promises.** -/
theorem good_step (hgood : Good c body) (hrequest : c.request = .reorder body)
    (hclear : c.Clear luck items) : Good (c.step luck items).1 body := by
  obtain ⟨request, owner, phase, commit⟩ := c
  obtain rfl : request = .reorder body := hrequest
  cases phase with
  | start =>
    obtain rfl : commit = none := hgood.unchanged nofun nofun
    cases luck with
    | false => exact .of_none rfl nofun nofun
    | true =>
      cases owner with
      | false => exact .of_none rfl nofun nofun
      | true => exact .of_none rfl nofun nofun
  | owned =>
    obtain rfl : commit = none := hgood.unchanged nofun nofun
    cases luck with
    | false => exact .of_none rfl nofun nofun
    | true => exact .of_none rfl nofun nofun
  | valid => exact hgood
  | counted count kept =>
    obtain rfl : commit = none := hgood.unchanged nofun nofun
    rcases step_counted ⟨.reorder body, owner, .counted count kept, none⟩ luck items rfl rfl with
        heq | ⟨after, rfl, hluck, hnodup, hafter, heq⟩
    · rw [heq]
      exact .of_none rfl nofun nofun
    · -- the transaction is committed
      rw [heq]
      have hahead := (hclear body rfl).1 kept after rfl hluck hnodup hafter
      exact ⟨fun hwritten => absurd rfl hwritten,
        fun _ => ⟨_, rfl, (ordered_iff hnodup hafter).mpr hahead⟩⟩
  | written =>
    obtain rfl : luck = true := (hclear body rfl).2 rfl
    exact ⟨fun _ hdone => absurd rfl hdone, fun _ => hgood.ok (.inr rfl)⟩
  | done ok => exact hgood

theorem good_forget (h : Good c body) : Good (c.forget items) body := by
  obtain ⟨request, owner, phase, commit⟩ := c
  cases phase with
  | counted count kept => exact .of_none (h.unchanged nofun nofun) nofun nofun
  | start => exact h
  | owned => exact h
  | valid => exact h
  | written => exact h
  | done ok => exact h

theorem request_forget : (c.forget items).request = c.request := by
  obtain ⟨request, owner, phase, commit⟩ := c
  cases phase with
  | counted count kept => rfl
  | start => rfl
  | owned => rfl
  | valid => rfl
  | written => rfl
  | done ok => rfl

theorem request_step : (c.step luck items).1.request = c.request := by
  unfold Client.step
  repeat' split
  all_goals rfl

/-- **Only its transaction changes something for a reorder**, and what it has changed is known. -/
theorem commit_step (hrequest : c.request = .reorder body) :
    (c.step luck items).1.commit = c.commit ∧ (c.step luck items).2 = items ∨
      ∃ kept, (c.step luck items).1.commit = some ⟨items, kept, (c.step luck items).2⟩ := by
  obtain ⟨request, owner, phase, commit⟩ := c
  obtain rfl : request = .reorder body := hrequest
  cases phase with
  | start => exact .inl ⟨rfl, rfl⟩
  | owned => exact .inl ⟨rfl, rfl⟩
  | valid => exact .inl ⟨rfl, rfl⟩
  | counted count kept =>
    rcases step_counted ⟨.reorder body, owner, .counted count kept, commit⟩ luck items rfl rfl with
        heq | ⟨after, -, -, -, -, heq⟩
    · exact .inl (by rw [heq]; exact ⟨rfl, rfl⟩)
    · exact .inr ⟨kept, by rw [heq]⟩
  | written => exact .inl ⟨rfl, rfl⟩
  | done ok => exact .inl ⟨rfl, rfl⟩

end

/-- **A clear statement keeps what holds.** -/
theorem Inv.step {s : Sys} {a : Action} (h : Inv s) (hclear : Clear s a) : Inv (s.step a) := by
  cases a with
  | arrive request owner =>
    refine ⟨h.distinct, fun c hc body hrequest => ?_⟩
    rcases List.mem_append.mp hc with hc | hc
    · exact h.good c hc body hrequest
    · obtain rfl := List.mem_singleton.mp hc
      exact .of_none rfl nofun nofun
  | step i luck =>
    rw [Sys.step]
    cases hc : s.clients[i]? with
    | none => exact h
    | some c =>
      have hmem := List.mem_of_getElem? hc
      refine ⟨distinct_step h.distinct (hclear c hc), fun c' hc' body hrequest => ?_⟩
      obtain ⟨c'', hc'', rfl⟩ := List.mem_map.mp hc'
      rw [request_forget] at hrequest
      refine good_forget ?_
      rcases List.mem_or_eq_of_mem_set hc'' with hc'' | rfl
      · exact h.good c'' hc'' body hrequest
      · rw [request_step] at hrequest
        exact good_step (h.good c hmem body hrequest) hrequest (hclear c hc)

/-- **It holds at every moment.** -/
theorem inv_of_reached {start s : Sys} (hdistinct : Distinct start.items)
    (hclients : start.clients = []) (h : Reached start s) : Inv s := by
  induction h with
  | start =>
    refine ⟨hdistinct, fun c hc => ?_⟩
    rw [hclients] at hc
    exact absurd hc List.not_mem_nil
  | step _ clear ih => exact ih.step clear

/-! ### Quiet counts -/

/-- The request is between its count and its transaction. -/
def Client.Counting (c : Client) : Prop := ∃ count kept, c.phase = .counted count kept

/-- The next statement removes an item or places items. -/
def Client.Moves (c : Client) : Prop :=
  (∃ item, c.request = .remove item ∧ c.phase = .owned) ∨
    ∃ body, c.request = .reorder body ∧ c.Counting

/-- **Nothing is moved while another request counts**, a body names what was counted, and the stamp
of a reorder does not fail. -/
def Quiet (s : Sys) : Action → Prop
  | .arrive _ _ => True
  | .step i luck => ∀ c, s.clients[i]? = some c →
    (c.Moves → ∀ (j : ℕ) c', s.clients[j]? = some c' → c'.Counting → j = i) ∧
    ∀ body, c.request = .reorder body →
      (∀ count kept, c.phase = .counted count kept → ∀ x ∈ kept, x ∈ body) ∧
      (c.phase = .written → luck = true)

/-- Where a count is, all that was counted is there, and the rest stands behind. -/
structure Room (items : Items) (c : Client) : Prop where
  room : ∀ count kept, c.phase = .counted count kept → kept.card = count ∧
    (∀ x ∈ kept, (items.lookup x).isSome) ∧
    ∀ x p, items.lookup x = some p → x ∉ kept → (count : ℤ) ≤ p

def Nonneg (items : Items) : Prop := ∀ x p, items.lookup x = some p → 0 ≤ p

section

variable {items : Items} {body : List Item} {kept : Finset Item} {c : Client} {count : ℕ}

theorem nextPosition_nonneg (h : Nonneg items) : 0 ≤ nextPosition items := by
  rw [nextPosition]
  split
  · exact le_rfl
  · next position hmax =>
    obtain ⟨x, hx⟩ := Table.mem_values.mp (List.max?_eq_some_iff.mp hmax).1
    have hle := h x position (AList.mem_lookup_iff.mpr hx)
    omega

/-- **As many positions as items are below the next one.** -/
theorem card_le_nextPosition (hdistinct : Distinct items) (hnonneg : Nonneg items)
    (hkept : ∀ x ∈ kept, (items.lookup x).isSome) : (kept.card : ℤ) ≤ nextPosition items := by
  have hcard : kept.card ≤ (Finset.range (nextPosition items).toNat).card := by
    refine Finset.card_le_card_of_injOn (fun x => ((items.lookup x).getD 0).toNat) ?_ ?_
    · intro x hx
      obtain ⟨p, hp⟩ := Option.isSome_iff_exists.mp (hkept x hx)
      have hlt := lt_nextPosition hp
      have hle := hnonneg x p hp
      simp only [hp, Option.getD_some, Finset.coe_range, Set.mem_Iio]
      omega
    · intro x hx y hy hxy
      obtain ⟨p, hp⟩ := Option.isSome_iff_exists.mp (hkept x hx)
      obtain ⟨q, hq⟩ := Option.isSome_iff_exists.mp (hkept y hy)
      have hple := hnonneg x p hp
      have hqle := hnonneg y q hq
      simp only [hp, hq, Option.getD_some] at hxy
      exact hdistinct x y p hp (by rw [hq]; congr 1; omega)
  have hnext := nextPosition_nonneg hnonneg
  rw [Finset.card_range] at hcard
  omega

theorem card_keys (items : Items) : items.keys.toFinset.card = items.size := by
  rw [List.toFinset_card_of_nodup items.keys_nodup, Table.size_eq_keys]

/-- **With room, a body that names what was counted is clear.** -/
theorem ahead_of_room (h : Room items c) (hphase : c.phase = .counted body.length kept)
    (hnodup : body.Nodup) (hnamed : ∀ x ∈ kept, x ∈ body) : Ahead body kept items := by
  obtain ⟨hcard, -, hrest⟩ := h.room _ _ hphase
  have heq : kept = body.toFinset := by
    refine Finset.eq_of_subset_of_card_le (fun x hx => List.mem_toFinset.mpr (hnamed x hx)) ?_
    rw [List.toFinset_card_of_nodup hnodup, hcard]
  intro x p hx hbody
  have hkept : x ∉ kept := by
    rw [heq, List.mem_toFinset]
    exact hbody
  exact ⟨hkept, hrest x p hx hkept⟩

theorem Room.forget (h : Room items c) : Room items (c.forget items) := by
  obtain ⟨request, owner, phase, commit⟩ := c
  cases phase with
  | counted count kept =>
    obtain ⟨hcard, hthere, hrest⟩ := h.room count kept rfl
    have hkept : (kept.filter fun item => (items.lookup item).isSome) = kept :=
      Finset.filter_true_of_mem hthere
    refine ⟨fun count' kept' hphase => ?_⟩
    obtain ⟨rfl, rfl⟩ := Phase.counted.inj hphase
    rw [hkept]
    exact ⟨hcard, hthere, hrest⟩
  | start => exact h
  | owned => exact h
  | valid => exact h
  | written => exact h
  | done ok => exact h

/-- **An item that is added comes behind all that was counted.** -/
theorem Room.insertItem (h : Room items c) (hdistinct : Distinct items) (hnonneg : Nonneg items)
    (item : Item) : Room (insertItem item items) c := by
  refine ⟨fun count kept hphase => ?_⟩
  obtain ⟨hcard, hthere, hrest⟩ := h.room count kept hphase
  refine ⟨hcard, fun x hx => ?_, fun x p hx hkept => ?_⟩
  · rw [Playlists.insertItem, Table.lookup_insertOrIgnore]
    obtain ⟨p, hp⟩ := Option.isSome_iff_exists.mp (hthere x hx)
    rw [hp]
    rfl
  · rcases lookup_insertItem hx with hx | ⟨-, rfl⟩
    · exact hrest x p hx hkept
    · rw [← hcard]
      exact card_le_nextPosition hdistinct hnonneg hthere

theorem room_counted (c : Client) (items : Items) :
    Room items { c with phase := .counted items.size items.keys.toFinset } := by
  have hkeys : ∀ x, x ∈ items.keys.toFinset ↔ (items.lookup x).isSome := by
    intro x
    rw [List.mem_toFinset, AList.lookup_isSome, AList.mem_keys]
  refine ⟨fun count kept hphase => ?_⟩
  obtain ⟨rfl, rfl⟩ := Phase.counted.inj hphase
  exact ⟨card_keys items, fun x hx => (hkeys x).mp hx,
    fun x p hx hkept => absurd ((hkeys x).mpr (Option.isSome_of_mem hx)) hkept⟩

/-- **A statement keeps the room of its own request.** What has just been counted is there, and
there is nothing else. -/
theorem room_step {luck : Bool} (h : Room items c) :
    Room (c.step luck items).2 (c.step luck items).1 := by
  have hdone : ∀ {items : Items} {c : Client}, (∀ count kept, c.phase ≠ .counted count kept) →
      Room items c := fun hne => ⟨fun count kept hphase => absurd hphase (hne count kept)⟩
  obtain ⟨request, owner, phase, commit⟩ := c
  cases phase with
  | start =>
    cases luck with
    | false => exact hdone nofun
    | true =>
      cases owner with
      | false => exact hdone nofun
      | true => exact hdone nofun
  | owned =>
    cases luck with
    | false =>
      cases request with
      | add item => exact hdone nofun
      | remove item => exact hdone nofun
      | reorder body => exact hdone nofun
    | true =>
      cases request with
      | add item =>
        refine hdone fun count kept => ?_
        rw [Client.step]
        simp only
        split
        · nofun
        · nofun
      | remove item => exact hdone nofun
      | reorder body => exact room_counted _ items
  | valid =>
    cases request with
    | add item =>
      cases luck with
      | false => exact hdone nofun
      | true => exact hdone nofun
    | remove item => exact h
    | reorder body => exact h
  | counted count kept =>
    cases request with
    | add item => exact h
    | remove item => exact h
    | reorder body =>
      rcases step_counted ⟨.reorder body, owner, .counted count kept, commit⟩ luck items rfl rfl with
        heq | ⟨after, -, -, -, -, heq⟩
      · rw [heq]
        exact hdone nofun
      · rw [heq]
        exact hdone nofun
  | written => exact hdone nofun
  | done ok => exact h

/-- **No position becomes negative.** -/
theorem nonneg_step {luck : Bool} (h : Nonneg items) : Nonneg (c.step luck items).2 := by
  rcases step_items c luck items with heq | ⟨item, heq⟩ |
    ⟨item, -, -, heq⟩ | ⟨body, -, -, -, -, hnodup, heq⟩
  · rwa [heq]
  · rw [heq]
    intro x p hx
    rcases lookup_insertItem hx with hx | ⟨-, rfl⟩
    · exact h x p hx
    · exact nextPosition_nonneg h
  · rw [heq]
    exact fun x p hx => h x p (lookup_of_lookup_erase hx)
  · intro x p hx
    rw [(reorderItems_eq_some.mp heq).2, lookup_updatePositions hnodup] at hx
    obtain ⟨q, hq, rfl⟩ := Option.map_eq_some_iff.mp hx
    split
    · omega
    · exact h x q hq

/-- **Room is kept by what does not move anything.** -/
theorem Room.step {luck : Bool} {c' : Client} (h : Room items c') (hdistinct : Distinct items)
    (hnonneg : Nonneg items) (hquiet : c.Moves → ¬ c'.Counting) :
    Room (c.step luck items).2 c' := by
  by_cases hcounting : c'.Counting
  · have hstill : ¬ c.Moves := fun hmoves => hquiet hmoves hcounting
    rcases step_items c luck items with heq | ⟨item, heq⟩ |
      ⟨item, hrequest, hphase, -⟩ | ⟨body, kept, hrequest, hphase, -, -, -⟩
    · rwa [heq]
    · rw [heq]
      exact h.insertItem hdistinct hnonneg item
    · exact absurd (.inl ⟨item, hrequest, hphase⟩) hstill
    · exact absurd (.inr ⟨body, hrequest, _, kept, hphase⟩) hstill
  · exact ⟨fun count kept hphase => absurd ⟨count, kept, hphase⟩ hcounting⟩

end

/-- **What holds while all is quiet.** -/
structure QuietInv (s : Sys) : Prop where
  inv : Inv s
  nonneg : Nonneg s.items
  room : ∀ c ∈ s.clients, Room s.items c

/-- **A quiet statement is clear.** -/
theorem clear_of_quiet {s : Sys} {a : Action} (h : QuietInv s) (hquiet : Quiet s a) :
    Clear s a := by
  cases a with
  | arrive request owner => trivial
  | step i luck =>
    intro c hc body hrequest
    obtain ⟨hnamed, hstamp⟩ := (hquiet c hc).2 body hrequest
    refine ⟨fun kept after hphase _ hnodup _ => ?_, hstamp⟩
    exact ahead_of_room (h.room c (List.mem_of_getElem? hc)) hphase hnodup (hnamed _ kept hphase)

/-- **A quiet statement keeps the room.** -/
theorem QuietInv.step {s : Sys} {a : Action} (h : QuietInv s) (hquiet : Quiet s a) :
    QuietInv (s.step a) := by
  refine ⟨h.inv.step (clear_of_quiet h hquiet), ?_, ?_⟩
  · cases a with
    | arrive request owner => exact h.nonneg
    | step i luck =>
      rw [Sys.step]
      cases hc : s.clients[i]? with
      | none => exact h.nonneg
      | some c => exact nonneg_step h.nonneg
  · cases a with
    | arrive request owner =>
      intro c hc
      rcases List.mem_append.mp hc with hc | hc
      · exact h.room c hc
      · obtain rfl := List.mem_singleton.mp hc
        exact ⟨nofun⟩
    | step i luck =>
      rw [Sys.step]
      cases hc : s.clients[i]? with
      | none => exact h.room
      | some c =>
        intro c' hc'
        obtain ⟨c'', hc'', rfl⟩ := List.mem_map.mp hc'
        refine Room.forget ?_
        obtain ⟨j, hj⟩ := List.getElem?_of_mem hc''
        by_cases hji : j = i
        · -- the request itself
          subst hji
          have hset : (s.clients.set j (c.step luck s.items).1)[j]? =
              some (c.step luck s.items).1 := by
            rw [List.getElem?_set_self (List.getElem?_eq_some_iff.mp hc).1]
          obtain rfl := Option.some.inj (hset.symm.trans hj)
          exact room_step (h.room c (List.mem_of_getElem? hc))
        · rw [List.getElem?_set_ne (Ne.symm hji)] at hj
          exact (h.room c'' (List.mem_of_getElem? hj)).step h.inv.distinct h.nonneg
            fun hmoves hcounting => hji ((hquiet c hc).1 hmoves j c'' hj hcounting)

inductive QuietlyReached (start : Sys) : Sys → Prop
  | start : QuietlyReached start start
  | step {s : Sys} {a : Action} (reached : QuietlyReached start s) (quiet : Quiet s a) :
      QuietlyReached start (s.step a)

/-- **What is reached quietly is reached by clear statements.** -/
theorem reached_of_quietlyReached {start s : Sys} (hdistinct : Distinct start.items)
    (hnonneg : Nonneg start.items) (hclients : start.clients = []) (h : QuietlyReached start s) :
    QuietInv s ∧ Reached start s := by
  induction h with
  | start =>
    refine ⟨⟨inv_of_reached hdistinct hclients .start, hnonneg, fun c hc => ?_⟩, .start⟩
    rw [hclients] at hc
    exact absurd hc List.not_mem_nil
  | step _ quiet ih => exact ⟨ih.1.step quiet, ih.2.step (clear_of_quiet ih.1 quiet)⟩

/-! ### Every run -/

/-- **A playlist keeps its order** as long as the statements are clear: no two items have one
position, a reorder that succeeds has left the items in the order of its body, and one that fails
has changed nothing. A transaction leaves them so exactly if it is clear, and quiet statements
are. -/
theorem playlist_keeps_order (start : Sys) (hdistinct : Distinct start.items)
    (hclients : start.clients = []) :
    (∀ s, Reached start s → Distinct s.items ∧
      ∀ c ∈ s.clients, ∀ body, c.request = .reorder body →
        (c.phase = .done true → ∃ commit, c.commit = some commit ∧
          Ordered body commit.kept commit.after) ∧
        (c.phase = .done false → c.commit = none)) ∧
    (∀ (c : Client) luck items body, c.request = .reorder body →
      (c.step luck items).1.commit = c.commit ∧ (c.step luck items).2 = items ∨
        ∃ kept, (c.step luck items).1.commit = some ⟨items, kept, (c.step luck items).2⟩) ∧
    (∀ body kept items after, body.Nodup → reorderItems body body.length items = some after →
      (Ordered body kept after ↔ Ahead body kept items)) ∧
    (Nonneg start.items → ∀ s, QuietlyReached start s → Reached start s) := by
  refine ⟨fun s h => ?_, fun c luck items body => commit_step, fun body kept items after =>
    ordered_iff, fun hnonneg s h => (reached_of_quietlyReached hdistinct hnonneg hclients h).2⟩
  have hinv := inv_of_reached hdistinct hclients h
  refine ⟨hinv.distinct, fun c hc body hrequest => ?_⟩
  have hgood := hinv.good c hc body hrequest
  exact ⟨fun hdone => hgood.ok (.inl hdone),
    fun hdone => hgood.unchanged (by rw [hdone]; nofun) (by rw [hdone]; nofun)⟩

def oneFilm : Sys := ⟨AList.insert ("movie", 1) 0 ∅, []⟩

def twoFilms : Sys := ⟨AList.insert ("movie", 2) 1 (AList.insert ("movie", 1) 0 ∅), []⟩

/-- The statements of a reorder that all succeed. -/
def fullReorder (body : List Item) : List Action :=
  [.arrive (.reorder body) true, .step 0 true, .step 0 true, .step 0 true, .step 0 true]

def Sys.run (s : Sys) (actions : List Action) : Sys := actions.foldl Sys.step s

theorem ahead_of_keys {body : List Item} {kept : Finset Item} {items : Items}
    (h : ∀ x ∈ items.keys, x ∈ body) : Ahead body kept items := by
  intro x p hx hbody
  exact absurd (h x (AList.mem_keys.mp (AList.lookup_isSome.mp (Option.isSome_of_mem hx)))) hbody

theorem distinct_of_nodup {items : Items} (h : items.values.Nodup) : Distinct items := by
  intro x y p hx hy
  have heq := List.inj_on_of_nodup_map h (AList.mem_lookup_iff.mp hx) (AList.mem_lookup_iff.mp hy)
    rfl
  exact (Sigma.mk.inj heq).1

theorem reached_fullReorder :
    Reached twoFilms (twoFilms.run (fullReorder [("movie", 2), ("movie", 1)])) := by
  have harrive : Reached twoFilms _ :=
    .step (a := .arrive (.reorder [("movie", 2), ("movie", 1)]) true) .start trivial
  have howned := harrive.step (a := .step 0 true) fun c hc body _ => by
    obtain rfl := Option.some.inj hc
    exact ⟨nofun, nofun⟩
  have hcounted := howned.step (a := .step 0 true) fun c hc body _ => by
    obtain rfl := Option.some.inj hc
    exact ⟨nofun, nofun⟩
  have hwritten := hcounted.step (a := .step 0 true) fun c hc body hbody => by
    obtain rfl := Option.some.inj hc
    obtain rfl := Request.reorder.inj hbody
    exact ⟨fun _ _ _ _ _ _ => ahead_of_keys (by decide), nofun⟩
  exact hwritten.step (a := .step 0 true) fun c hc body _ => by
    obtain rfl := Option.some.inj hc
    exact ⟨nofun, fun _ => rfl⟩

theorem playlist_keeps_order_twoFilms :
    Distinct (twoFilms.run (fullReorder [("movie", 2), ("movie", 1)])).items :=
  ((playlist_keeps_order twoFilms (distinct_of_nodup (by decide)) rfl).1 _ reached_fullReorder).1

/-! ### Where it does not -/

def whole (request : Request) (i n : ℕ) : List Action :=
  .arrive request true :: List.replicate n (.step i true)

def Client.result (c : Client) : Option Bool :=
  match c.phase with
  | .done ok => some ok
  | _ => none

/-- **An addition between the count and the transaction**: the reorder names the film that is added,
and leaves out the one that is there. Both are first then. And a reorder whose stamp fails returns
an error, though it has moved the films. -/
theorem playlist_loses_order :
    let collision := oneFilm.run ([.arrive (.reorder [("movie", 2)]) true, .step 0 true,
      .step 0 true] ++ whole (.add ("movie", 2)) 1 4 ++ [.step 0 true, .step 0 true])
    let unstamped := twoFilms.run ([.arrive (.reorder [("movie", 2), ("movie", 1)]) true,
      .step 0 true, .step 0 true, .step 0 true, .step 0 false])
    (collision.clients.map Client.result = [some true, some true] ∧
      collision.items.lookup ("movie", 1) = some 0 ∧
      collision.items.lookup ("movie", 2) = some 0) ∧
    (unstamped.clients.map Client.result = [some false] ∧
      unstamped.items.lookup ("movie", 1) = some 1 ∧
      unstamped.items.lookup ("movie", 2) = some 0) := by
  decide

end EmeraldExchange.MediaCore.Playlists
