import EmeraldExchange.Lib.IndexMap
import EmeraldExchange.Lib.JsonTree
import EmeraldExchange.Lib.Runs

/-!
# Stores that are files

A store is a file and a snapshot of it in memory. It is read once; every mutation makes the next
snapshot of the one before, writes it to a file of another name that takes the place of the old one,
and only then puts it in memory. So a write that fails leaves what there was
(`JsonStore.update_failed`). A file that cannot be read fails every call,
and is not written over.

After a restart the file is read again, and cleaned as if a client had written it. Whether the store
is then what it was is a question of the cleaning alone: a kind of store is
`JsonStore.Lawful` when that is settled for the snapshots that it can have.
A file is given by the tree of its text.
-/

namespace EmeraldExchange.Gateway

abbrev Raw := IndexMap String JsonTree

inductive StoreFile
  | missing
  /-- Not an object of JSON. -/
  | corrupt
  | raw (raw : Raw)

inductive Fault
  | read
  /-- The other file is not written, or does not take the place. -/
  | write
  deriving DecidableEq

/-- **A kind of store**: how its file is read and written, and what its mutations do; none is a
mutation that changes nothing. -/
structure JsonStore (τ μ : Type*) where
  parse : Raw → τ
  serialize : τ → Raw
  apply : μ → τ → Option τ

structure StoreState (τ : Type*) where
  file : StoreFile
  cell : Option τ

namespace JsonStore

variable {τ μ : Type*} (js : JsonStore τ μ)

def read : StoreFile → Option τ
  | .missing => some (js.parse .empty)
  | .corrupt => none
  | .raw raw => some (js.parse raw)

/-- The snapshot, read where it is not in memory yet. -/
def loaded (s : StoreState τ) (fault : Option Fault) : Option τ :=
  match s.cell with
  | some t => some t
  | none => if fault = some .read then none else js.read s.file

/-- **Read the store**: whether it could be read, and what it is then. -/
def get (s : StoreState τ) (fault : Option Fault) : Bool × StoreState τ :=
  match js.loaded s fault with
  | none => (false, s)
  | some t => (true, { s with cell := some t })

/-- **Change the store**: whether it worked, and what it is then. -/
def update (s : StoreState τ) (m : μ) (fault : Option Fault) : Bool × StoreState τ :=
  match js.loaded s fault with
  | none => (false, s)
  | some current =>
    match js.apply m current with
    | none => (true, { s with cell := some current })
    | some next =>
      if fault = some .write then (false, { s with cell := some current })
      else (true, ⟨.raw (js.serialize next), some next⟩)

inductive Op (μ : Type*)
  | get (fault : Option Fault)
  | update (m : μ) (fault : Option Fault)
  /-- What is in memory is gone. -/
  | restart

/-- **One operation.** -/
def step (s : StoreState τ) : Op μ → StoreState τ
  | .get fault => (js.get s fault).2
  | .update m fault => (js.update s m fault).2
  | .restart => { s with cell := none }

/-! ### A write that fails -/

def view (s : StoreState τ) : Option τ := js.loaded s none

theorem view_of_loaded {s : StoreState τ} {fault : Option Fault} {t : τ}
    (h : js.loaded s fault = some t) : js.view s = some t := by
  rw [view, loaded]
  rw [loaded] at h
  split
  · next t' hcell =>
    rw [hcell] at h
    exact h
  · next hcell =>
    rw [hcell] at h
    dsimp only at h
    split at h
    · cases h
    · exact h

/-- **The file is as it was, and so is what is in memory**; what was not there may have been
read. -/
structure Unchanged (s s' : StoreState τ) : Prop where
  file : s'.file = s.file
  cell : ∀ t, s.cell = some t → s'.cell = some t
  view : js.view s' = js.view s

/-- **A mutation that fails changes nothing.** -/
theorem update_failed {s : StoreState τ} {m : μ} {fault : Option Fault}
    (h : (js.update s m fault).1 = false) : js.Unchanged s (js.update s m fault).2 := by
  rw [update] at h ⊢
  rcases hload : js.loaded s fault with _ | current
  · exact ⟨rfl, fun _ ht => ht, rfl⟩
  · rw [hload] at h
    dsimp only at h ⊢
    rcases hnext : js.apply m current with _ | next
    · rw [hnext] at h
      cases h
    · rw [hnext] at h
      dsimp only at h ⊢
      split at h
      · next hfault =>
        rw [if_pos hfault]
        refine ⟨rfl, fun t ht => ?_, (js.view_of_loaded hload).symm⟩
        rw [loaded, ht] at hload
        exact hload.symm
      · cases h

/-! ### The snapshots there can be -/

variable {js}

/-- **A store whose snapshots are kept within bounds**, of which those that are tidy, and no others,
are read as they were written; a mutation that is not cut keeps them tidy. -/
structure Lawful (js : JsonStore τ μ) (Wf tidy : τ → Prop) (uncut : μ → Prop) : Prop where
  parse : ∀ raw, Wf (js.parse raw)
  apply : ∀ m t t', Wf t → js.apply m t = some t' → Wf t'
  reload : ∀ t, Wf t → (js.parse (js.serialize t) = t ↔ tidy t)
  tidy_empty : tidy (js.parse .empty)
  tidy_apply : ∀ m t t', tidy t → uncut m → js.apply m t = some t' → tidy t'

variable {Wf tidy : τ → Prop} {uncut : μ → Prop}

/-- The snapshot in memory, if there is one, is within bounds. -/
def Within (Wf : τ → Prop) (s : StoreState τ) : Prop := ∀ t, s.cell = some t → Wf t

theorem Lawful.loaded (hjs : js.Lawful Wf tidy uncut) {s : StoreState τ}
    (hs : Within Wf s) {fault : Option Fault} {t : τ} (h : js.loaded s fault = some t) : Wf t := by
  rw [JsonStore.loaded] at h
  split at h
  · next t' hcell =>
    obtain rfl := Option.some.inj h
    exact hs _ hcell
  · split at h
    · cases h
    · rcases hfile : s.file with _ | _ | raw
      · rw [hfile] at h
        obtain rfl := Option.some.inj h
        exact hjs.parse .empty
      · rw [hfile] at h
        cases h
      · rw [hfile] at h
        obtain rfl := Option.some.inj h
        exact hjs.parse raw

/-- **One operation** keeps the snapshot within bounds. -/
theorem Lawful.step (hjs : js.Lawful Wf tidy uncut) {s : StoreState τ}
    (hs : Within Wf s) (op : Op μ) : Within Wf (js.step s op) := by
  rcases op with fault | ⟨m, fault⟩ | _
  · rw [JsonStore.step, JsonStore.get]
    split
    · exact hs
    · next t hload =>
      rintro t' ⟨⟩
      exact hjs.loaded hs hload
  · rw [JsonStore.step, JsonStore.update]
    split
    · exact hs
    · next current hload =>
      have hcurrent := hjs.loaded hs hload
      split
      · rintro t' ⟨⟩
        exact hcurrent
      · next next hnext =>
        split
        · rintro t' ⟨⟩
          exact hcurrent
        · rintro t' ⟨⟩
          exact hjs.apply m current _ hcurrent hnext
  · rintro t' ⟨⟩

/-- What is in memory is tidy, and so is what a read gives. -/
structure Clean (js : JsonStore τ μ) (tidy : τ → Prop) (s : StoreState τ) : Prop where
  cell : ∀ t, s.cell = some t → tidy t
  file : ∀ t, js.read s.file = some t → tidy t

theorem Clean.loaded {s : StoreState τ} (hs : Clean js tidy s) {fault : Option Fault} {t : τ}
    (h : js.loaded s fault = some t) : tidy t := by
  rw [JsonStore.loaded] at h
  split at h
  · next t' hcell =>
    obtain rfl := Option.some.inj h
    exact hs.cell _ hcell
  · split at h
    · cases h
    · exact hs.file t h

theorem Lawful.clean_new (hjs : js.Lawful Wf tidy uncut) : Clean js tidy ⟨.missing, none⟩ := by
  constructor
  · rintro t ⟨⟩
  · intro t ht
    obtain rfl := Option.some.inj ht
    exact hjs.tidy_empty

def Op.Uncut (uncut : μ → Prop) : Op μ → Prop
  | .update m _ => uncut m
  | _ => True

/-- **One operation** that is not cut keeps the store tidy. -/
theorem Lawful.clean_step (hjs : js.Lawful Wf tidy uncut) {s : StoreState τ} (hs : Within Wf s)
    (hclean : Clean js tidy s) {op : Op μ} (hop : op.Uncut uncut) :
    Clean js tidy (js.step s op) := by
  rcases op with fault | ⟨m, fault⟩ | _
  · rw [JsonStore.step, JsonStore.get]
    split
    · exact hclean
    · next t hload =>
      refine ⟨?_, hclean.file⟩
      rintro t' ⟨⟩
      exact hclean.loaded hload
  · rw [JsonStore.step, JsonStore.update]
    split
    · exact hclean
    · next current hload =>
      have hcurrent := hclean.loaded hload
      split
      · refine ⟨?_, hclean.file⟩
        rintro t' ⟨⟩
        exact hcurrent
      · next next hnext =>
        have hnextTidy := hjs.tidy_apply m current next hcurrent hop hnext
        have hnextWf := hjs.apply m current next (hjs.loaded hs hload) hnext
        split
        · refine ⟨?_, hclean.file⟩
          rintro t' ⟨⟩
          exact hcurrent
        · refine ⟨?_, ?_⟩
          · rintro t' ⟨⟩
            exact hnextTidy
          -- what was written is read as it was written
          · intro t' ht'
            obtain rfl : js.parse (js.serialize next) = t' := Option.some.inj ht'
            rw [(hjs.reload next hnextWf).mpr hnextTidy]
            exact hnextTidy
  · refine ⟨?_, hclean.file⟩
    rintro t' ⟨⟩

end JsonStore

end EmeraldExchange.Gateway
