import Mathlib.Data.List.TakeWhile

/-!
# Pull lexers

A pull lexer reads one token at a time from what is left of its input. Its tokens are of two
kinds. A token that begins with an *opening* character is delimited: it ends with a *closing*
character, and is decided by its own characters. All else is text, which runs up to the next
opening character or to the end of the input.

Such a lexer can be stopped and restarted at the end of a token, but in the middle of a delimited
one it cannot. The question answered here is when an input may be cut and its parts be lexed on
their own. Where the first part ends with a *mark*, a literal that opens with its
first character and closes with its last one only, it may be cut exactly if the first
part alone is lexed without an error (`Lexer.passes_iff`).
-/

namespace EmeraldExchange

/-- **A pull lexer** over characters `γ`, with tokens `τ` and errors `ε`; `opens` and `closes`
are its opening and closing characters, and `text` makes a token of a text. -/
structure Lexer (γ τ ε : Type*) (opens closes : γ → Bool) (text : List γ → τ) where
  /-- The next token and what is left, or nothing at the end. -/
  next : List γ → Except ε (Option (τ × List γ))
  next_nil : next [] = .ok none
  /-- Text runs up to the next opening character. -/
  next_text : ∀ used rest, used ≠ [] → (∀ c ∈ used, opens c = false) →
    rest.head?.all opens = true → next (used ++ rest) = .ok (some (text used, rest))
  /-- The end is not found before it is there. -/
  next_opens : ∀ c s, opens c = true → next (c :: s) ≠ .ok none
  /-- A token that begins with an opening character ends with a closing one, and is decided
  by its characters. -/
  next_delimited : ∀ c s t rest, opens c = true → next (c :: s) = .ok (some (t, rest)) →
    ∃ used, c :: s = used ++ rest ∧ used.getLast?.any closes = true ∧
      ∀ rest', next (used ++ rest') = .ok (some (t, rest'))

namespace Lexer

variable {γ τ ε : Type*} {opens closes : γ → Bool} {text : List γ → τ}
variable (L : Lexer γ τ ε opens closes text)

/-- Read at most `n` tokens. -/
def scanAux : ℕ → List γ → List τ × Option ε
  | 0, _ => ([], none)
  | n + 1, s =>
    match L.next s with
    | .ok none => ([], none)
    | .ok (some (t, rest)) => (t :: (scanAux n rest).1, (scanAux n rest).2)
    | .error e => ([], some e)

/-- **Read all tokens**, up to the first error if there is one. -/
def scan (s : List γ) : List τ × Option ε := L.scanAux (s.length + 1) s

/-- **One token read**: from `s` to `rest`. -/
inductive Passes : List γ → List τ → List γ → Prop
  | refl (s : List γ) : Passes s [] s
  | step {s rest q : List γ} {t : τ} {ts : List τ} :
      L.next s = .ok (some (t, rest)) → Passes rest ts q → Passes s (t :: ts) q

variable {L}

/-! ### What one token takes -/

theorem exists_text {c : γ} {s : List γ} (hc : ¬ opens c = true) :
    ∃ used rest, used ≠ [] ∧ c :: s = used ++ rest ∧ (∀ x ∈ used, opens x = false) ∧
      rest.head?.all opens = true := by
  refine ⟨(c :: s).takeWhile (fun x => !opens x), (c :: s).dropWhile (fun x => !opens x),
    by simp [hc], List.takeWhile_append_dropWhile.symm, fun x hx => ?_, ?_⟩
  · simpa using List.mem_takeWhile_imp hx
  · have hhead := List.head?_dropWhile_not (fun x => !opens x) (c :: s)
    cases hd : ((c :: s).dropWhile (fun x => !opens x)).head? with
    | none => rfl
    | some x =>
      rw [hd] at hhead
      simpa using hhead

/-- **What one token takes**: a delimited token is decided by its characters; a text is what
stands before the next opening character. -/
theorem next_cases {s rest : List γ} {t : τ} (h : L.next s = .ok (some (t, rest))) :
    ∃ used, used ≠ [] ∧ s = used ++ rest ∧
      ((used.getLast?.any closes = true ∧
          ∀ rest', L.next (used ++ rest') = .ok (some (t, rest'))) ∨
        ((∀ c ∈ used, opens c = false) ∧ rest.head?.all opens = true ∧
          ∀ rest', rest'.head?.all opens = true →
            L.next (used ++ rest') = .ok (some (t, rest')))) := by
  cases s with
  | nil =>
    rw [L.next_nil] at h
    cases h
  | cons c s =>
    by_cases hc : opens c = true
    · obtain ⟨used, hs, hlast, hall⟩ := L.next_delimited c s t rest hc h
      refine ⟨used, ?_, hs, Or.inl ⟨hlast, hall⟩⟩
      rintro rfl
      cases hlast
    · obtain ⟨used, rest', hne, hs, hfree, hhead⟩ := exists_text (s := s) hc
      rw [hs, L.next_text used rest' hne hfree hhead] at h
      obtain ⟨rfl, rfl⟩ := Prod.mk.inj (Option.some.inj (Except.ok.inj h))
      exact ⟨used, hne, hs, Or.inr ⟨hfree, hhead, fun r hr => L.next_text used r hne hfree hr⟩⟩

theorem length_lt_of_next {s rest : List γ} {t : τ} (h : L.next s = .ok (some (t, rest))) :
    rest.length < s.length := by
  obtain ⟨used, hne, rfl, -⟩ := next_cases h
  have hpos := List.length_pos_iff.mpr hne
  rw [List.length_append]
  omega

theorem eq_nil_of_next {s : List γ} (h : L.next s = .ok none) : s = [] := by
  cases s with
  | nil => rfl
  | cons c s =>
    by_cases hc : opens c = true
    · exact absurd h (L.next_opens c s hc)
    · obtain ⟨used, rest, hne, hs, hfree, hhead⟩ := exists_text (s := s) hc
      rw [hs, L.next_text used rest hne hfree hhead] at h
      cases h

/-! ### Reading all tokens -/

theorem scanAux_succ (n : ℕ) (s : List γ) : L.scanAux (n + 1) s =
    match L.next s with
    | .ok none => ([], none)
    | .ok (some (t, rest)) => (t :: (L.scanAux n rest).1, (L.scanAux n rest).2)
    | .error e => ([], some e) := rfl

theorem scan_eq (s : List γ) : L.scan s = L.scanAux (s.length + 1) s := rfl

theorem scanAux_of_length_lt {n : ℕ} {s : List γ} (h : s.length < n) :
    L.scanAux n s = L.scan s := by
  have hsame : ∀ (n m : ℕ) (s : List γ), s.length < n → s.length < m →
      L.scanAux n s = L.scanAux m s := by
    intro n
    induction n with
    | zero => intro m s hn; omega
    | succ n ih =>
      intro m s hn hm
      obtain ⟨m, rfl⟩ : ∃ k, m = k + 1 := ⟨m - 1, by omega⟩
      rw [scanAux_succ, scanAux_succ]
      split
      · rfl
      · next t rest hnext =>
        have hlt := length_lt_of_next hnext
        rw [ih m rest (by omega) (by omega)]
      · rfl
  exact hsame n _ s h (Nat.lt_succ_self _)

@[simp] theorem scan_nil : L.scan [] = ([], none) := by
  rw [scan_eq, scanAux_succ, L.next_nil]

theorem scan_of_next {s rest : List γ} {t : τ} (h : L.next s = .ok (some (t, rest))) :
    L.scan s = (t :: (L.scan rest).1, (L.scan rest).2) := by
  rw [scan_eq, scanAux_succ, h]
  simp only [scanAux_of_length_lt (length_lt_of_next h)]

theorem scan_of_error {s : List γ} {e : ε} (h : L.next s = .error e) :
    L.scan s = ([], some e) := by
  rw [scan_eq, scanAux_succ, h]

theorem Passes.scan {s q : List γ} {ts : List τ} (h : L.Passes s ts q) :
    L.scan s = (ts ++ (L.scan q).1, (L.scan q).2) := by
  induction h with
  | refl => rfl
  | step hnext _ ih => rw [scan_of_next hnext, ih]; rfl

theorem Passes.suffix {s q : List γ} {ts : List τ} (h : L.Passes s ts q) :
    ∃ r, s = r ++ q := by
  induction h with
  | refl => exact ⟨[], rfl⟩
  | step hnext _ ih =>
    obtain ⟨used, -, rfl, -⟩ := next_cases hnext
    obtain ⟨r, rfl⟩ := ih
    exact ⟨used ++ r, (List.append_assoc ..).symm⟩

theorem Passes.trans {s q r : List γ} {ts us : List τ} (h : L.Passes s ts q)
    (h' : L.Passes q us r) : L.Passes s (ts ++ us) r := by
  induction h with
  | refl => exact h'
  | step hnext _ ih => exact .step hnext (ih h')

theorem scan_cons_text {c : γ} (hc : opens c = false) (s : List γ) :
    ∃ used rest, L.scan (c :: s) = (text (c :: used) :: (L.scan rest).1, (L.scan rest).2) ∧
      (used = [] ∧ L.scan s = L.scan rest ∨
        L.scan s = (text used :: (L.scan rest).1, (L.scan rest).2)) := by
  obtain ⟨used, rest, hne, hs, hfree, hhead⟩ := exists_text (s := s) (by simpa using hc)
  obtain ⟨d, used, rfl⟩ := List.exists_cons_of_ne_nil hne
  obtain ⟨rfl, rfl⟩ := List.cons.inj hs
  refine ⟨used, rest, ?_, ?_⟩
  · exact scan_of_next (L.next_text (c :: used) rest hne hfree hhead)
  · rcases List.eq_nil_or_concat used with rfl | ⟨_, _, rfl⟩
    · exact Or.inl ⟨rfl, rfl⟩
    · refine Or.inr (scan_of_next (L.next_text _ rest (by simp) (fun x hx => ?_) hhead))
      exact hfree x (List.mem_cons_of_mem c hx)

/-- **The way through an input is one**: of two points that are passed, the nearer is on the way
to the farther. -/
theorem Passes.between {s q r : List γ} {ts us : List τ} (hq : L.Passes s ts q)
    (hr : L.Passes s us r) (hle : r.length ≤ q.length) : ∃ ws, L.Passes q ws r := by
  induction hq generalizing us with
  | refl s => exact ⟨us, hr⟩
  | @step s rest q t ts hnext hpass ih =>
    cases hr with
    | refl =>
      obtain ⟨_, rfl⟩ := hpass.suffix
      have hlt := length_lt_of_next hnext
      rw [List.length_append] at hlt
      omega
    | step hnext' hpass' =>
      rw [hnext] at hnext'
      obtain ⟨rfl, rfl⟩ := Prod.mk.inj (Option.some.inj (Except.ok.inj hnext'))
      exact ih hpass' hle

/-! ### Marks -/

/-- **A mark** opens with its first character, and does not close before its last one. -/
structure IsMark (opens closes : γ → Bool) (mark : List γ) : Prop where
  head : mark.head?.any opens = true
  dropLast : ∀ c ∈ mark.dropLast, closes c = false

variable {mark : List γ}

theorem isMark_of_all (hhead : mark.head?.any opens = true)
    (hall : mark.dropLast.all (!closes ·) = true) : IsMark opens closes mark where
  head := hhead
  dropLast c hc := by simpa using List.all_eq_true.mp hall c hc

theorem IsMark.append_ne_nil (hmark : IsMark opens closes mark) (y : List γ) :
    y ++ mark ≠ [] := by
  have hhead := hmark.head
  rintro h
  rw [(List.append_eq_nil_iff.mp h).2] at hhead
  cases hhead

/-- **No token ends inside a mark**: one that reaches into it ends with it, and is not text. -/
theorem IsMark.rest_eq (hmark : IsMark opens closes mark) {x used rest : List γ}
    (hs : x ++ mark = used ++ rest)
    (hused : used.getLast?.any closes = true ∨ ∀ c ∈ used, opens c = false) :
    (rest = [] ∧ ∃ c ∈ used, opens c = true) ∨ ∃ y, rest = y ++ mark := by
  rcases List.append_eq_append_iff.mp hs with ⟨l, rfl, hm⟩ | ⟨l, rfl, rfl⟩
  · rcases List.eq_nil_or_concat l with rfl | ⟨l, c, rfl⟩
    · exact Or.inr ⟨[], by simpa using hm.symm⟩
    · -- what it takes of the mark begins with the opening character
      have hopens : ∃ d ∈ x ++ l.concat c, opens d = true := by
        have hhead := hmark.head
        rw [hm] at hhead
        cases l with
        | nil => exact ⟨c, by simp, by simpa using hhead⟩
        | cons d l => exact ⟨d, by simp, by simpa using hhead⟩
      rcases hused with hlast | hfree
      · refine Or.inl ⟨?_, hopens⟩
        by_contra hrest
        have hc : c ∈ mark.dropLast := by
          rw [hm, List.concat_eq_append, List.dropLast_append_of_ne_nil hrest]
          simp
        have hclosed : closes c = true := by simpa using hlast
        rw [hmark.dropLast c hc] at hclosed
        cases hclosed
      · obtain ⟨d, hd, hopen⟩ := hopens
        rw [hfree d hd] at hopen
        cases hopen
  · exact Or.inr ⟨l, rfl⟩

/-- A text that is followed by a mark is followed by the same character whatever comes after
the mark. -/
theorem IsMark.head_append (hmark : IsMark opens closes mark) (y q : List γ) :
    (y ++ mark ++ q).head? = (y ++ mark).head? := by
  cases h : y ++ mark with
  | nil => exact absurd h (hmark.append_ne_nil y)
  | cons c s => rfl

theorem next_append (hmark : IsMark opens closes mark) {x rest : List γ} {t : τ}
    (h : L.next (x ++ mark) = .ok (some (t, rest))) :
    (rest = [] ∨ ∃ y, rest = y ++ mark) ∧
      ∀ q, L.next (x ++ mark ++ q) = .ok (some (t, rest ++ q)) := by
  obtain ⟨used, -, hs, htoken⟩ := next_cases h
  have hrest := hmark.rest_eq hs (htoken.imp And.left And.left)
  refine ⟨hrest.imp And.left id, fun q => ?_⟩
  rw [hs, List.append_assoc]
  rcases htoken with ⟨-, hall⟩ | ⟨hfree, hhead, hall⟩
  · exact hall _
  · rcases hrest with ⟨-, c, hc, hopen⟩ | ⟨y, rfl⟩
    · rw [hfree c hc] at hopen
      cases hopen
    · exact hall _ (by rw [hmark.head_append, hhead])

theorem next_of_append (hmark : IsMark opens closes mark) {x q rest : List γ} {t : τ}
    (h : L.next (x ++ mark ++ q) = .ok (some (t, rest ++ q))) :
    (rest = [] ∨ ∃ y, rest = y ++ mark) ∧ L.next (x ++ mark) = .ok (some (t, rest)) := by
  obtain ⟨used, -, hs, htoken⟩ := next_cases h
  rw [← List.append_assoc] at hs
  have hs' := List.append_cancel_right hs
  have hrest := hmark.rest_eq hs' (htoken.imp And.left And.left)
  refine ⟨hrest.imp And.left id, ?_⟩
  rw [hs']
  rcases htoken with ⟨-, hall⟩ | ⟨hfree, hhead, hall⟩
  · exact hall _
  · rcases hrest with ⟨-, c, hc, hopen⟩ | ⟨y, rfl⟩
    · rw [hfree c hc] at hopen
      cases hopen
    · exact hall _ (by rw [← hmark.head_append y q, hhead])

theorem Passes.scan_eq (hmark : IsMark opens closes mark) {s q r : List γ} {ts : List τ}
    (h : L.Passes r ts q) (hr : r = s ++ q) (hs : s = [] ∨ ∃ x, s = x ++ mark) :
    L.scan s = (ts, none) := by
  induction h generalizing s with
  | refl q =>
    obtain rfl : s = [] := by simpa using hr
    exact scan_nil
  | @step r rest q t ts hnext hpass ih =>
    obtain ⟨rest', rfl⟩ := hpass.suffix
    subst hr
    rcases hs with rfl | ⟨x, rfl⟩
    · have hlt := length_lt_of_next hnext
      rw [List.nil_append, List.length_append] at hlt
      omega
    · obtain ⟨hrest, hnext'⟩ := next_of_append hmark hnext
      rw [scan_of_next hnext', ih rfl hrest]

theorem passes_of_scan (hmark : IsMark opens closes mark) {s : List γ} (q : List γ)
    (hs : s = [] ∨ ∃ x, s = x ++ mark) (hscan : (L.scan s).2 = none) :
    L.Passes (s ++ q) (L.scan s).1 q := by
  induction h : s.length using Nat.strong_induction_on generalizing s with
  | _ n ih =>
    rcases hs with rfl | ⟨x, rfl⟩
    · rw [scan_nil]
      exact .refl q
    · cases hnext : L.next (x ++ mark) with
      | error e =>
        rw [scan_of_error hnext] at hscan
        cases hscan
      | ok o =>
        cases o with
        | none => exact absurd (eq_nil_of_next hnext) (hmark.append_ne_nil x)
        | some p =>
          obtain ⟨t, rest⟩ := p
          obtain ⟨hrest, happend⟩ := next_append hmark hnext
          have hlt := length_lt_of_next hnext
          rw [scan_of_next hnext] at hscan ⊢
          exact .step (happend q) (ih _ (by omega) hrest hscan rfl)

/-- **Where an input may be cut**: after a mark, exactly if the part up to there is read
without an error. -/
theorem passes_iff (hmark : IsMark opens closes mark) (x q : List γ) :
    (∃ ts, L.Passes (x ++ mark ++ q) ts q) ↔ (L.scan (x ++ mark)).2 = none := by
  constructor
  · rintro ⟨ts, h⟩
    rw [h.scan_eq hmark rfl (Or.inr ⟨x, rfl⟩)]
  · exact fun h => ⟨_, passes_of_scan hmark q (Or.inr ⟨x, rfl⟩) h⟩

theorem exists_last_of_scan (hmark : IsMark opens closes mark) (x : List γ)
    (hscan : (L.scan (x ++ mark)).2 = none) :
    ∃ ts t c s, (L.scan (x ++ mark)).1 = ts ++ [t] ∧ opens c = true ∧
      L.next (c :: s) = .ok (some (t, [])) ∧ ∃ y, c :: s = y ++ mark := by
  induction h : x.length using Nat.strong_induction_on generalizing x with
  | _ n ih =>
    cases hnext : L.next (x ++ mark) with
    | error e =>
      rw [scan_of_error hnext] at hscan
      cases hscan
    | ok o =>
      cases o with
      | none => exact absurd (eq_nil_of_next hnext) (hmark.append_ne_nil x)
      | some p =>
        obtain ⟨t, rest⟩ := p
        have hlt := length_lt_of_next hnext
        rw [scan_of_next hnext] at hscan ⊢
        rcases (next_append hmark hnext).1 with rfl | ⟨y, rfl⟩
        · obtain ⟨c, s, hcs⟩ := List.exists_cons_of_ne_nil (hmark.append_ne_nil x)
          refine ⟨[], t, c, s, by simp, ?_, hcs ▸ hnext, x, hcs.symm⟩
          by_contra hc
          -- a text is not all there is, for the mark opens
          obtain ⟨used, rest, hne, hs, hfree, hhead⟩ := exists_text (s := s) hc
          rw [hcs, hs, L.next_text used rest hne hfree hhead] at hnext
          obtain ⟨-, rfl⟩ := Prod.mk.inj (Option.some.inj (Except.ok.inj hnext))
          rw [List.append_nil] at hs
          have hhead := hmark.head
          cases mark with
          | nil => cases hhead
          | cons d mark =>
            have hmem : d ∈ used := by
              rw [← hs, ← hcs]
              simp
            have hopen : opens d = true := by simpa using hhead
            rw [hfree d hmem] at hopen
            cases hopen
        · simp only [List.length_append] at hlt
          obtain ⟨ts, t', c, s, hts, hrest⟩ := ih y.length (by omega) y hscan rfl
          exact ⟨t :: ts, t', c, s, by rw [hts]; rfl, hrest⟩

/-- **Where an input may be cut into many pieces**: if each but the last ends with a mark, exactly
if each but the last is read without an error. -/
theorem passes_pieces_iff {pieces : List (List γ)}
    (hpieces : ∀ p ∈ pieces.dropLast, ∃ x mark, IsMark opens closes mark ∧ p = x ++ mark) :
    (∀ before after, pieces = before ++ after → before ≠ [] → after ≠ [] →
      ∃ ts, L.Passes pieces.flatten ts after.flatten) ↔
    ∀ p ∈ pieces.dropLast, (L.scan p).2 = none := by
  induction pieces with
  | nil => simp
  | cons p pieces ih =>
    cases pieces with
    | nil =>
      refine ⟨by simp, fun _ before after h hbefore hafter => ?_⟩
      rcases List.append_eq_singleton_iff.mp h.symm with ⟨rfl, -⟩ | ⟨-, rfl⟩
      · exact absurd rfl hbefore
      · exact absurd rfl hafter
    | cons p' pieces =>
      rw [List.dropLast_cons_cons] at hpieces ⊢
      obtain ⟨x, mark, hmark, rfl⟩ := hpieces p List.mem_cons_self
      have hrest := ih fun q hq => hpieces q (List.mem_cons_of_mem _ hq)
      rw [List.forall_mem_cons, ← hrest, ← passes_iff hmark x (p' :: pieces).flatten]
      constructor
      · intro h
        have hfirst := h [x ++ mark] (p' :: pieces) rfl (by simp) (by simp)
        refine ⟨hfirst, fun before after heq hbefore hafter => ?_⟩
        obtain ⟨ts, hts⟩ := hfirst
        obtain ⟨us, hus⟩ := h ((x ++ mark) :: before) after (by rw [heq]; rfl) (by simp) hafter
        refine hts.between hus ?_
        rw [heq, List.flatten_append, List.length_append]
        omega
      · rintro ⟨⟨ts, hts⟩, h⟩ before after heq hbefore hafter
        obtain ⟨q, before, rfl⟩ := List.exists_cons_of_ne_nil hbefore
        obtain ⟨rfl, htail⟩ := List.cons.inj heq
        cases before with
        | nil =>
          obtain rfl : p' :: pieces = after := htail
          exact ⟨ts, hts⟩
        | cons q before =>
          obtain ⟨us, hus⟩ := h (q :: before) after htail (by simp) hafter
          exact ⟨ts ++ us, hts.trans hus⟩

end Lexer

end EmeraldExchange
