import Mathlib.Data.List.Basic
import Mathlib.Data.Nat.Notation

/-!
# Chunks

A format of *chunks*: four bytes that name one, its length as a little-endian number of four bytes,
that many bytes of payload, and one more where the length is odd. Some chunks have others inside,
and which have them, and where, is a parameter.

A walk reads the chunks one after another, and those inside a chunk before the ones after it.
`Walk` relates a text to the chunks a walk reaches, in this order; there are
none if a chunk is longer than what is left. Fewer bytes than a chunk begins with end a walk.
-/

namespace EmeraldExchange.Chunks

def littleEndian (b : List UInt8) : ℕ := b.foldr (fun c n => c.toNat + 256 * n) 0

/-- **A chunk.** -/
structure Chunk where
  fourcc : List UInt8
  payload : List UInt8
  deriving DecidableEq

inductive Front
  | done
  | overrun
  | chunk (c : Chunk) (rest : List UInt8)

def lengthAt (b : List UInt8) : ℕ := littleEndian ((b.drop 4).take 4)

/-- **The next chunk.** -/
def front (b : List UInt8) : Front :=
  if b.length < 8 then .done
  else if b.length < 8 + lengthAt b then .overrun
  else .chunk ⟨b.take 4, (b.drop 8).take (lengthAt b)⟩
    (b.drop (8 + lengthAt b + lengthAt b % 2))

variable {inside : Chunk → Option (List UInt8)} {b rest b' : List UInt8} {c : Chunk}
  {cs cs' ds : List Chunk}

/-- **The chunks a walk reaches**, in order. -/
inductive Walk (inside : Chunk → Option (List UInt8)) : List UInt8 → List Chunk → Prop
  | done {b : List UInt8} : front b = .done → Walk inside b []
  | flat {b rest : List UInt8} {c : Chunk} {cs : List Chunk} : front b = .chunk c rest →
      inside c = none → Walk inside rest cs → Walk inside b (c :: cs)
  | nested {b rest b' : List UInt8} {c : Chunk} {ds cs : List Chunk} :
      front b = .chunk c rest → inside c = some b' → Walk inside b' ds → Walk inside rest cs →
      Walk inside b (c :: (ds ++ cs))

/-- **There is one walk at most.** -/
theorem Walk.unique (h : Walk inside b cs) (h' : Walk inside b cs') : cs = cs' := by
  induction h generalizing cs' with
  | done hfront =>
    cases h' with
    | done => rfl
    | flat hfront' => cases hfront.symm.trans hfront'
    | nested hfront' => cases hfront.symm.trans hfront'
  | flat hfront hinside _ ih =>
    cases h' with
    | done hfront' => cases hfront.symm.trans hfront'
    | flat hfront' _ hrest' =>
      obtain ⟨rfl, rfl⟩ := Front.chunk.inj (hfront.symm.trans hfront')
      rw [ih hrest']
    | nested hfront' hinside' =>
      obtain ⟨rfl, rfl⟩ := Front.chunk.inj (hfront.symm.trans hfront')
      cases hinside.symm.trans hinside'
  | nested hfront hinside _ _ ihIn ih =>
    cases h' with
    | done hfront' => cases hfront.symm.trans hfront'
    | flat hfront' hinside' =>
      obtain ⟨rfl, rfl⟩ := Front.chunk.inj (hfront.symm.trans hfront')
      cases hinside.symm.trans hinside'
    | nested hfront' hinside' hin' hrest' =>
      obtain ⟨rfl, rfl⟩ := Front.chunk.inj (hfront.symm.trans hfront')
      obtain rfl := Option.some.inj (hinside.symm.trans hinside')
      rw [ihIn hin', ih hrest']

end EmeraldExchange.Chunks
