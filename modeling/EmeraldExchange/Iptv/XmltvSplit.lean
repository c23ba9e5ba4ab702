import EmeraldExchange.Iptv.Xmltv

/-!
# Parsing in parallel

A large text is cut behind the `</programme>` that follows each `k/n` of its length, and the
pieces are parsed on threads of their own, each but the first from a machine with nothing
open. If a piece leaves something open the whole is parsed serially instead, "so the output
never differs".

A cut is found by its bytes, and they may stand where they are not an end tag: in a comment
or a section. A piece that ends there is not lexed to its end, and an error in a piece
counts as an end with nothing open; so the whole fails where the serial parse does not
(`Machine.not_splitAgrees_comment`). The parallel parse agrees with the
serial one exactly if each cut lies between two events, or the serial parse fails as well,
or some piece is parsed to its end and leaves something open
(`Machine.splitAgrees_iff`).
-/

namespace EmeraldExchange.Iptv

/-! ### Cutting -/

/-- Where a needle first stands: `memmem::find`. -/
def find (needle : List UInt8) : List UInt8 → Option ℕ
  | [] => if needle = [] then some 0 else none
  | b :: s => if needle.isPrefixOf (b :: s) then some 0 else (find needle s).map (· + 1)

/-- The pieces from `start` on, with a cut for each of the remaining `k`. -/
def cutFrom (text : List UInt8) (n : ℕ) : ℕ → List ℕ → List (List UInt8)
  | start, [] => [text.drop start]
  | start, k :: ks =>
    let target := max (text.length * k / n) start
    match find programmeEnd (text.drop target) with
    | some i =>
      let stop := target + i + 12
      (text.drop start).take (stop - start) :: cutFrom text n stop ks
    | none => [text.drop start]

/-- **A text cut into up to `n` pieces** of similar size, each but the last ending just after a
`</programme>`. -/
def splitAtProgrammeEnds (text : List UInt8) (n : ℕ) : List (List UInt8) :=
  cutFrom text n 0 (List.range' 1 (n - 1))

theorem length_programmeEnd : programmeEnd.length = 12 := rfl

theorem find_eq_some {needle s : List UInt8} {i : ℕ} (h : find needle s = some i) :
    ∃ pre post, s = pre ++ needle ++ post ∧ pre.length = i := by
  induction s generalizing i with
  | nil =>
    obtain ⟨rfl, rfl⟩ : needle = [] ∧ 0 = i := by simpa [find] using h
    exact ⟨[], [], rfl, rfl⟩
  | cons b s ih =>
    unfold find at h
    split at h
    · next hprefix =>
      obtain ⟨post, hpost⟩ := List.isPrefixOf_iff_prefix.mp hprefix
      obtain rfl := Option.some.inj h
      exact ⟨[], post, by simpa using hpost.symm, rfl⟩
    · obtain ⟨j, hj, rfl⟩ := Option.map_eq_some_iff.mp h
      obtain ⟨pre, post, rfl, rfl⟩ := ih hj
      exact ⟨b :: pre, post, rfl, rfl⟩

theorem take_find {text : List UInt8} {start target i : ℕ} (hle : start ≤ target)
    (h : find programmeEnd (text.drop target) = some i) :
    ∃ x, (text.drop start).take (target + i + 12 - start) = x ++ programmeEnd := by
  obtain ⟨pre, post, hdrop, rfl⟩ := find_eq_some h
  obtain ⟨d, rfl⟩ := Nat.exists_eq_add_of_le hle
  refine ⟨(text.drop start).take d ++ pre, ?_⟩
  have hsplit : text.drop start = (text.drop start).take d ++ (pre ++ programmeEnd ++ post) := by
    rw [← hdrop, ← List.drop_drop, List.take_append_drop]
  have hlen : ((text.drop start).take d).length = d := by
    have hpos : 0 < (text.drop (start + d)).length := by
      rw [hdrop, List.length_append, List.length_append, length_programmeEnd]
      omega
    rw [List.length_drop] at hpos
    rw [List.length_take, List.length_drop]
    omega
  generalize (text.drop start).take d = before at hsplit hlen
  have hcut : text.drop start = (before ++ pre ++ programmeEnd) ++ post := by
    simpa only [List.append_assoc] using hsplit
  rw [hcut]
  refine List.take_left' ?_
  rw [List.length_append, List.length_append, hlen, length_programmeEnd]
  omega

@[simp] theorem cutFrom_ne_nil (text : List UInt8) (n start : ℕ) (ks : List ℕ) :
    cutFrom text n start ks ≠ [] := by
  cases ks with
  | nil => simp [cutFrom]
  | cons k ks =>
    unfold cutFrom
    simp only
    split <;> simp

theorem flatten_cutFrom (text : List UInt8) (n start : ℕ) (ks : List ℕ) :
    (cutFrom text n start ks).flatten = text.drop start := by
  induction ks generalizing start with
  | nil => simp [cutFrom]
  | cons k ks ih =>
    unfold cutFrom
    simp only
    split
    · next i _ =>
      have hstop : start ≤ max (text.length * k / n) start + i + 12 := by omega
      obtain ⟨d, hd⟩ := Nat.exists_eq_add_of_le hstop
      rw [List.flatten_cons, ih, hd, Nat.add_sub_cancel_left, ← List.drop_drop,
        List.take_append_drop]
    · simp

/-- Each piece but the last ends with `</programme>`. -/
theorem exists_of_mem_dropLast_cutFrom {text : List UInt8} {n start : ℕ} {ks : List ℕ}
    {piece : List UInt8} (h : piece ∈ (cutFrom text n start ks).dropLast) :
    ∃ x, piece = x ++ programmeEnd := by
  induction ks generalizing start with
  | nil => simp [cutFrom] at h
  | cons k ks ih =>
    unfold cutFrom at h
    simp only at h
    split at h
    · next i hi =>
      rw [List.dropLast_cons_of_ne_nil (cutFrom_ne_nil _ _ _ _)] at h
      rcases List.mem_cons.mp h with rfl | h
      · exact take_find (le_max_right _ _) hi
      · exact ih h
    · simp at h

/-- **The pieces together are the text.** -/
theorem flatten_splitAtProgrammeEnds (text : List UInt8) (n : ℕ) :
    (splitAtProgrammeEnds text n).flatten = text := flatten_cutFrom text n 0 _

theorem splitAtProgrammeEnds_ne_nil (text : List UInt8) (n : ℕ) :
    splitAtProgrammeEnds text n ≠ [] := cutFrom_ne_nil text n 0 _

theorem endsInTag_of_mem {text : List UInt8} {n : ℕ} {piece : List UInt8}
    (h : piece ∈ (splitAtProgrammeEnds text n).dropLast) : EndsInTag piece := by
  obtain ⟨x, rfl⟩ := exists_of_mem_dropLast_cutFrom h
  exact ⟨x, programmeEnd, isEndTag_programmeEnd, rfl⟩

namespace Machine

/-! ### The parallel parse -/

/-- A result that does not ask for the serial parse: an error, or nothing left open. -/
def errOrClean : Except String (Machine × List Programme) → Bool
  | .error _ => true
  | .ok (m, _) => m.isClean

/-- The results of the pieces as one: the first error, or the last machine and all
programmes. -/
def collect : List (Except String (Machine × List Programme)) →
    Except String (Machine × List Programme)
  | [] => .ok (blank none, [])
  | .error e :: _ => .error e
  | .ok (m, out) :: rest =>
    match rest with
    | [] => .ok (m, out)
    | _ :: _ =>
      match collect rest with
      | .error e => .error e
      | .ok (m', out') => .ok (m', out ++ out')

variable (m : Machine) (R : Reader) (v : Values)

/-- The pieces parsed on their own: the first by the machine, the others from one with nothing
open. -/
def parsePieces : List (List UInt8) → List (Except String (Machine × List Programme))
  | [] => []
  | first :: rest => m.parseBytes R v first :: rest.map ((blank m.keep).parseBytes R v)

/-- **Parse bytes on `n` threads.** -/
def parseSplit (n : ℕ) (text : List UInt8) : Except String (Machine × List Programme) :=
  let pieces := splitAtProgrammeEnds text n
  if pieces.length < 2 then m.parseBytes R v text
  else
    let results := m.parsePieces R v pieces
    if results.dropLast.all errOrClean then collect results else m.parseBytes R v text

/-! ### The property and its condition -/

/-- **The parallel parse agrees with the serial one**: both fail, or both give the same machine
and the same programmes. -/
def SplitAgrees (n : ℕ) (text : List UInt8) : Prop :=
  (m.parseSplit R v n text).toOption = (m.parseBytes R v text).toOption

/-- **Each cut lies between two events.** -/
def CutsBetweenEvents (n : ℕ) (text : List UInt8) : Prop :=
  BetweenEvents R (splitAtProgrammeEnds text n)

/-- Some piece but the last is parsed to its end and leaves something open. -/
def LeavesOpen (n : ℕ) (text : List UInt8) : Prop :=
  ∃ result ∈ (m.parsePieces R v (splitAtProgrammeEnds text n)).dropLast, errOrClean result = false

section proofs

variable {m R v}

theorem collect_ok_cons (m : Machine) (out : List Programme)
    {rest : List (Except String (Machine × List Programme))} (h : rest ≠ []) :
    (collect (.ok (m, out) :: rest)).toOption =
      (collect rest).toOption.map fun r => (r.1, out ++ r.2) := by
  cases rest with
  | nil => exact absurd rfl h
  | cons r rest =>
    rw [collect]
    cases collect (r :: rest) <;> rfl

theorem collect_eq_none {results : List (Except String (Machine × List Programme))}
    {e : String} (h : .error e ∈ results) : (collect results).toOption = none := by
  induction results with
  | nil => cases h
  | cons r results ih =>
    cases r with
    | error e' => rfl
    | ok r =>
      have hmem : Except.error e ∈ results := by simpa using h
      rw [collect_ok_cons _ _ (List.ne_nil_of_mem hmem), ih hmem]
      rfl

/-- **Pieces cut between events**, each of which fails or leaves nothing open, are together what
the whole is. -/
theorem collect_parsePieces {pieces : List (List UInt8)} (hne : pieces ≠ [])
    (htag : ∀ piece ∈ pieces.dropLast, EndsInTag piece)
    (hscan : ∀ piece ∈ pieces.dropLast, (R.scan (Utf8.lossy piece)).2 = none)
    (hclean : (m.parsePieces R v pieces).dropLast.all errOrClean = true) :
    (collect (m.parsePieces R v pieces)).toOption =
      (m.parseBytes R v pieces.flatten).toOption := by
  induction pieces generalizing m with
  | nil => exact absurd rfl hne
  | cons p pieces ih =>
    cases pieces with
    | nil =>
      simp only [parsePieces, List.map_nil, List.flatten_cons, List.flatten_nil, List.append_nil]
      cases m.parseBytes R v p <;> rfl
    | cons p' pieces =>
      rw [List.dropLast_cons_cons, List.forall_mem_cons] at htag hscan
      have hrest : m.parsePieces R v (p :: p' :: pieces) =
          m.parseBytes R v p :: (blank m.keep).parsePieces R v (p' :: pieces) := rfl
      rw [hrest] at hclean ⊢
      rw [List.flatten_cons, parseBytes_append htag.1 hscan.1]
      cases hparse : m.parseBytes R v p with
      | error e => rfl
      | ok r =>
        obtain ⟨m', out⟩ := r
        rw [hparse] at hclean
        obtain ⟨hclean, hclean'⟩ : m'.isClean = true ∧
            ((blank m.keep).parsePieces R v (p' :: pieces)).dropLast.all errOrClean = true := by
          simpa [errOrClean, parsePieces] using hclean
        -- the piece leaves the machine as the next piece takes it to be
        obtain rfl : m' = blank m.keep := by rw [eq_blank hclean, parseBytes_keep hparse]
        have hnext := ih (m := blank m.keep) (by simp) htag.2 hscan.2 hclean'
        rw [collect_ok_cons _ out (by simp [parsePieces]), hnext]
        simp only
        cases (blank m.keep).parseBytes R v (p' :: pieces).flatten <;> rfl

theorem exists_error_mem_parsePieces {pieces : List (List UInt8)} {piece : List UInt8}
    (hmem : piece ∈ pieces) (hscan : (R.scan (Utf8.lossy piece)).2 ≠ none) :
    ∃ e, .error e ∈ m.parsePieces R v pieces := by
  have herror : ∀ m : Machine, ∃ e, m.parseBytes R v piece = .error e := by
    intro m
    have hnone := parseBytes_eq_none (v := v) hscan m
    cases hparse : m.parseBytes R v piece with
    | error e => exact ⟨e, rfl⟩
    | ok r =>
      rw [hparse] at hnone
      cases hnone
  cases pieces with
  | nil => cases hmem
  | cons first rest =>
    rcases List.mem_cons.mp hmem with rfl | hmem
    · obtain ⟨e, he⟩ := herror m
      exact ⟨e, by simp [parsePieces, he]⟩
    · obtain ⟨e, he⟩ := herror (blank m.keep)
      exact ⟨e, List.mem_cons_of_mem _ (List.mem_map.mpr ⟨piece, hmem, he⟩)⟩

theorem parseSplit_of_length_lt {n : ℕ} {text : List UInt8}
    (h : (splitAtProgrammeEnds text n).length < 2) :
    m.parseSplit R v n text = m.parseBytes R v text := by
  simp [parseSplit, h]

theorem parseSplit_of_leavesOpen {n : ℕ} {text : List UInt8} (h : m.LeavesOpen R v n text) :
    m.parseSplit R v n text = m.parseBytes R v text := by
  obtain ⟨result, hmem, hopen⟩ := h
  have hnot : ¬ (m.parsePieces R v (splitAtProgrammeEnds text n)).dropLast.all errOrClean = true :=
    fun h => by simp [List.all_eq_true.mp h result hmem] at hopen
  simp [parseSplit, hnot]

theorem parseSplit_of_not_leavesOpen {n : ℕ} {text : List UInt8} (h : ¬ m.LeavesOpen R v n text)
    (hlen : ¬ (splitAtProgrammeEnds text n).length < 2) :
    (m.parsePieces R v (splitAtProgrammeEnds text n)).dropLast.all errOrClean = true ∧
      m.parseSplit R v n text = collect (m.parsePieces R v (splitAtProgrammeEnds text n)) := by
  have hall : (m.parsePieces R v (splitAtProgrammeEnds text n)).dropLast.all errOrClean = true :=
    List.all_eq_true.mpr fun result hmem => by
      by_contra hresult
      exact h ⟨result, hmem, by simpa using hresult⟩
  exact ⟨hall, by simp [parseSplit, hlen, hall]⟩

/-- **Where the cuts are harmless** the parallel parse is the serial one. -/
theorem parseSplit_of_cuts {n : ℕ} {text : List UInt8}
    (h : CutsBetweenEvents R n text ∨ m.LeavesOpen R v n text) :
    (m.parseSplit R v n text).toOption = (m.parseBytes R v text).toOption := by
  by_cases hlen : (splitAtProgrammeEnds text n).length < 2
  · rw [parseSplit_of_length_lt hlen]
  by_cases hopen : m.LeavesOpen R v n text
  · rw [parseSplit_of_leavesOpen hopen]
  have hcuts := (betweenEvents_iff fun _ => endsInTag_of_mem).mp (h.resolve_right hopen)
  obtain ⟨hall, hsplit⟩ := parseSplit_of_not_leavesOpen hopen hlen
  rw [hsplit, collect_parsePieces (splitAtProgrammeEnds_ne_nil text n)
    (fun _ => endsInTag_of_mem) hcuts hall, flatten_splitAtProgrammeEnds]

/-- **Where they are not** the parallel parse fails. -/
theorem parseSplit_eq_none {n : ℕ} {text : List UInt8} (hcuts : ¬ CutsBetweenEvents R n text)
    (hopen : ¬ m.LeavesOpen R v n text) : (m.parseSplit R v n text).toOption = none := by
  rw [CutsBetweenEvents, betweenEvents_iff fun _ => endsInTag_of_mem] at hcuts
  obtain ⟨piece, hmem, hscan⟩ : ∃ piece ∈ (splitAtProgrammeEnds text n).dropLast,
      (R.scan (Utf8.lossy piece)).2 ≠ none := by simpa using hcuts
  have hlen : ¬ (splitAtProgrammeEnds text n).length < 2 := by
    have hpos := List.length_pos_of_mem hmem
    rw [List.length_dropLast] at hpos
    omega
  obtain ⟨e, he⟩ := exists_error_mem_parsePieces (m := m) (v := v)
    (List.dropLast_subset _ hmem) hscan
  rw [(parseSplit_of_not_leavesOpen hopen hlen).2, collect_eq_none he]

/-- **When the parallel parse agrees with the serial one**: exactly if each cut lies between two
events, or the serial parse fails, or some piece but the last is parsed to its end and leaves
something open. -/
theorem splitAgrees_iff (m : Machine) (R : Reader) (v : Values) (n : ℕ) (text : List UInt8) :
    m.SplitAgrees R v n text ↔
      CutsBetweenEvents R n text ∨ (m.parseBytes R v text).toOption = none ∨
        m.LeavesOpen R v n text := by
  constructor
  · intro h
    by_contra hnot
    obtain ⟨hcuts, hserial, hopen⟩ := not_or.mp hnot |>.imp id not_or.mp
    exact hserial (h.symm.trans (parseSplit_eq_none hcuts hopen))
  · intro h
    by_cases hgood : CutsBetweenEvents R n text ∨ m.LeavesOpen R v n text
    · exact parseSplit_of_cuts hgood
    · obtain ⟨hcuts, hopen⟩ := not_or.mp hgood
      have hserial := (h.resolve_left hcuts).resolve_right hopen
      rw [SplitAgrees, hserial, parseSplit_eq_none hcuts hopen]

end proofs

/-! ### A comment -/

def commentText : List UInt8 :=
  ascii "<tv>                    <!--</programme>--></tv>"

/-- **A text is cut inside a comment**: on two threads the parse fails, and serially it does
not. -/
theorem not_splitAgrees_comment :
    ¬ (blank none).SplitAgrees plainReader plainValues 2 commentText := by
  intro h
  have hsplit : ((blank none).parseSplit plainReader plainValues 2 commentText).toOption = none :=
    rfl
  have hserial : ((blank none).parseBytes plainReader plainValues commentText).toOption.isSome =
      true := rfl
  rw [← h, hsplit] at hserial
  cases hserial

end Machine

end EmeraldExchange.Iptv
