import Webserv.Native.HttpParser

/-!
# The header loop reads lines

`headersLoop` walks a chunk with two iterators.  This file describes what it
does without them: `frame` cuts the bytes into header lines and what follows
the block, and `operatorCall_headersRead` says that a call is handling the
lines one after another and then starting the body.

## Key results

- `headersLoop_eq_readFrame`: the loop at the start of a line is `frame` and `readFrame`
- `operatorCall_headersRead`: one call in the state `HEADERS_READ`
- `frame_append_lines` / `frame_append_unfinished` / `frame_append_body`: how
  `frame` behaves when more bytes follow
-/

namespace Webserv.Http

/-! ## Lines of a byte string -/

/-- Split off the first line.  A line ends with LF or CR LF, neither of which
    belongs to it; behind a bare LF one more LF is skipped. -/
def splitLine (s : Bytes) : Option (Bytes × Bytes) :=
  (s.cutAt Byte.lf).map fun (l, r) =>
    -- only one CR is taken off
    if l.getLast? = some Byte.cr then (l.dropLast, r)
    else (l, if r.head? = some Byte.lf then r.tail else r)

/-- A line feed is taken with the line. -/
theorem length_lt_of_splitLine {s line rest : Bytes} (h : splitLine s = some (line, rest)) :
    rest.length < s.length := by
  simp only [splitLine, Option.map_eq_some_iff] at h
  obtain ⟨⟨l, r⟩, hcut, heq⟩ := h
  have hlen := List.length_lt_of_cutAt hcut
  dsimp only at heq
  -- a carriage return is cut from the line, or else a second line feed from the rest
  split at heq
  · simp only [Prod.mk.injEq] at heq
    obtain ⟨-, rfl⟩ := heq
    omega
  · simp only [Prod.mk.injEq] at heq
    obtain ⟨-, rfl⟩ := heq
    split
    · rw [List.length_tail]; omega
    · omega

/-- What the lines of a byte string leave over. -/
inductive Tail where
  /-- The block goes on: the start of a line. -/
  | unfinished (s : Bytes)
  /-- The block ended with an empty line: what follows it. -/
  | body (s : Bytes)
deriving DecidableEq

/-- The header lines of `s` up to the empty line, the first of which starts
    with `kept`. -/
def frame (kept s : Bytes) : List Bytes × Tail :=
  match _hsplit : splitLine s with
  | none => ([], .unfinished s)
  | some (line, rest) =>
    if kept ++ line = [] then ([], .body rest)
    else ((kept ++ line) :: (frame [] rest).1, (frame [] rest).2)
termination_by s.length
decreasing_by
  all_goals exact length_lt_of_splitLine _hsplit

/-- No line is complete. -/
theorem frame_of_none {kept s : Bytes} (h : splitLine s = none) :
    frame kept s = ([], .unfinished s) := by
  rw [frame]
  split
  · rfl
  · simp_all

/-- The blank line ends the block. -/
theorem frame_of_empty {kept s line rest : Bytes} (h : splitLine s = some (line, rest))
    (hline : kept ++ line = []) : frame kept s = ([], .body rest) := by
  rw [frame]
  split
  · simp_all
  · rename_i heq
    rw [h] at heq
    cases heq
    rw [if_pos hline]

/-- A line goes to the lines of the block. -/
theorem frame_of_line {kept s line rest : Bytes} (h : splitLine s = some (line, rest))
    (hline : kept ++ line ≠ []) :
    frame kept s = ((kept ++ line) :: (frame [] rest).1, (frame [] rest).2) := by
  rw [frame]
  split
  · simp_all
  · rename_i heq
    rw [h] at heq
    cases heq
    rw [if_neg hline]

/-! ## More bytes behind the ones framed -/

/-- A line ends with a line feed. -/
theorem splitLine_eq_none_iff {s : Bytes} : splitLine s = none ↔ Byte.lf ∉ s := by
  simp [splitLine]

/-- The byte in front of what follows a line is a line feed. -/
theorem exists_append_of_splitLine {s line rest : Bytes} (h : splitLine s = some (line, rest)) :
    ∃ pre, s = pre ++ Byte.lf :: rest := by
  simp only [splitLine, Option.map_eq_some_iff] at h
  obtain ⟨⟨l, r⟩, hcut, heq⟩ := h
  obtain ⟨rfl, -⟩ := List.cutAt_eq_some_iff.mp hcut
  dsimp only at heq
  split at heq
  · cases heq
    exact ⟨l, rfl⟩
  · split at heq
    · -- a second line feed was skipped with the first
      rename_i hlf
      cases heq
      obtain ⟨r', rfl⟩ := List.head?_eq_some_iff.mp hlf
      exact ⟨line ++ [Byte.lf], by simp⟩
    · cases heq
      exact ⟨line, rfl⟩

/-- More bytes extend what follows a line, unless the line ended with a bare LF
    as the very last byte and the new bytes start with the LF to skip. -/
theorem splitLine_append {s line rest : Bytes} (k : Bytes) (h : splitLine s = some (line, rest)) :
    splitLine (s ++ k) = some (line, rest ++ k) ∨
      (splitLine (s ++ k) = some (line, k.tail) ∧ rest = [] ∧ k.head? = some Byte.lf ∧
        s = line ++ [Byte.lf] ∧ line.getLast? ≠ some Byte.cr) := by
  simp only [splitLine, Option.map_eq_some_iff] at h
  obtain ⟨⟨l, r⟩, hcut, heq⟩ := h
  have hcut' := List.cutAt_append_of_eq_some k hcut
  simp only [splitLine, hcut', Option.map_some]
  by_cases hcr : l.getLast? = some Byte.cr
  · simp only [hcr, ↓reduceIte, Prod.mk.injEq] at heq ⊢
    obtain ⟨rfl, rfl⟩ := heq
    simp
  · simp only [hcr, ↓reduceIte, Prod.mk.injEq] at heq ⊢
    obtain ⟨rfl, rfl⟩ := heq
    -- a bare LF, and what is behind it decides
    cases r with
    | cons b r =>
      left
      by_cases hb : b = Byte.lf <;> simp [hb]
    | nil =>
      -- whether an LF is skipped depends on bytes that come later
      by_cases hk : k.head? = some Byte.lf
      · right
        obtain ⟨hs, -⟩ := List.cutAt_eq_some_iff.mp hcut
        exact ⟨by simp [hk], by simp, hk, hs, hcr⟩
      · left
        simp [hk]

/-- The lines of a byte string are lines of every longer one. -/
theorem frame_append_lines_prefix (s k : Bytes) :
    (frame [] s).1 <+: (frame [] (s ++ k)).1 := by
  -- induction on the bytes behind the first line
  induction hn : s.length using Nat.strong_induction_on generalizing s with
  | _ n ih =>
  cases hsplit : splitLine s with
  | none => simp [frame_of_none hsplit]
  | some lr =>
    obtain ⟨line, rest⟩ := lr
    have hlt := length_lt_of_splitLine hsplit
    by_cases hline : ([] : Bytes) ++ line = []
    · simp [frame_of_empty hsplit hline]
    · rw [frame_of_line hsplit hline]
      rcases splitLine_append k hsplit with happ | ⟨happ, rfl, -, -, -⟩
      · rw [frame_of_line happ hline]
        exact List.cons_prefix_cons.mpr ⟨rfl, ih _ (by omega) rest rfl⟩
      · -- the line was the last one, so any lines may follow
        rw [frame_of_line happ hline]
        refine List.cons_prefix_cons.mpr ⟨rfl, ?_⟩
        simp [frame_of_none (splitLine_eq_none_iff.mpr (List.not_mem_nil))]

/-- A block that is over stays over, with the same lines; what follows it grows,
    and takes in all new bytes unless an LF of them is skipped.  `pre` is what
    stands before `s`: it ends with a line feed unless `s` starts a message. -/
theorem frame_append_body {s rest : Bytes} {ls : List Bytes} (pre k : Bytes)
    (hstart : s.head? ≠ some Byte.lf ∨ pre.getLast? = some Byte.lf)
    (h : frame [] s = (ls, .body rest)) :
    ∃ rest', frame [] (s ++ k) = (ls, .body rest') ∧ rest <+: rest' ∧
      ((k.head? = some Byte.lf → rest = [] → [Byte.cr, Byte.lf] <:+ pre ++ s) →
        rest' = rest ++ k) := by
  induction hn : s.length using Nat.strong_induction_on generalizing s ls pre with
  | _ n ih =>
  cases hsplit : splitLine s with
  | none => simp [frame_of_none hsplit] at h
  | some lr =>
    obtain ⟨line, rest₁⟩ := lr
    by_cases hline : ([] : Bytes) ++ line = []
    · -- the empty line that ends the block
      rw [frame_of_empty hsplit hline] at h
      simp only [Prod.mk.injEq, Tail.body.injEq] at h
      obtain ⟨rfl, rfl⟩ := h
      rcases splitLine_append k hsplit with happ | ⟨happ, rfl, hk, hs, hcr⟩
      · exact ⟨rest₁ ++ k, frame_of_empty happ hline, List.prefix_append _ _, fun _ => rfl⟩
      · -- the empty line is a bare LF, in front of which `pre` ends with an LF
        refine ⟨k.tail, frame_of_empty happ hline, List.nil_prefix, fun hsuffix => ?_⟩
        rw [List.nil_append] at hline
        subst hline
        rw [List.nil_append] at hs
        subst hs
        rcases hstart with hhead | hlast
        · simp at hhead
        · obtain ⟨t, ht⟩ := hsuffix hk rfl
          have hconcat : (t ++ [Byte.cr]) ++ [Byte.lf] = pre ++ [Byte.lf] := by simpa using ht
          have hpre : t ++ [Byte.cr] = pre := List.append_cancel_right hconcat
          rw [← hpre, List.getLast?_concat] at hlast
          exact absurd hlast (by decide)
    · -- a line, which the rest follows behind a line feed
      rw [frame_of_line hsplit hline] at h
      simp only [Prod.mk.injEq] at h
      obtain ⟨rfl, htail⟩ := h
      have hlt := length_lt_of_splitLine hsplit
      obtain ⟨pre', hs⟩ := exists_append_of_splitLine hsplit
      rcases splitLine_append k hsplit with happ | ⟨-, rfl, -, -, -⟩
      · obtain ⟨rest', hframe, hprefix, hgrow⟩ :=
          ih _ (by omega) (pre ++ pre' ++ [Byte.lf]) (s := rest₁) (Or.inr (by simp))
            (Prod.ext rfl htail) rfl
        refine ⟨rest', ?_, hprefix, fun hsuffix => hgrow ?_⟩
        · rw [frame_of_line happ hline, hframe]
        · have happend : pre ++ pre' ++ [Byte.lf] ++ rest₁ = pre ++ s := by rw [hs]; simp
          rwa [happend]
      · rw [frame_of_none (splitLine_eq_none_iff.mpr List.not_mem_nil)] at htail
        simp at htail

/-- An unfinished line is continued by bytes without a line feed. -/
theorem frame_append_unfinished {s u k : Bytes} {ls : List Bytes} (hk : Byte.lf ∉ k)
    (h : frame [] s = (ls, .unfinished u)) : frame [] (s ++ k) = (ls, .unfinished (u ++ k)) := by
  induction hn : s.length using Nat.strong_induction_on generalizing s ls with
  | _ n ih =>
  cases hsplit : splitLine s with
  | none =>
    rw [frame_of_none hsplit] at h
    simp only [Prod.mk.injEq, Tail.unfinished.injEq] at h
    obtain ⟨rfl, rfl⟩ := h
    -- the unfinished line goes on
    have hs := splitLine_eq_none_iff.mp hsplit
    exact frame_of_none (splitLine_eq_none_iff.mpr (by simp [hs, hk]))
  | some lr =>
    obtain ⟨line, rest⟩ := lr
    by_cases hline : ([] : Bytes) ++ line = []
    · simp [frame_of_empty hsplit hline] at h
    · rw [frame_of_line hsplit hline] at h
      simp only [Prod.mk.injEq] at h
      obtain ⟨rfl, htail⟩ := h
      have hlt := length_lt_of_splitLine hsplit
      rcases splitLine_append k hsplit with happ | ⟨-, -, hhead, -, -⟩
      · rw [frame_of_line happ hline, ih _ (by omega) (s := rest) (Prod.ext rfl htail) rfl]
      · -- only a line feed in `k` could be skipped
        exact absurd (List.mem_of_mem_head? hhead) hk

/-- The start of a line that is left over is the end of the bytes. -/
theorem frame_unfinished_suffix {kept s u : Bytes} {ls : List Bytes}
    (h : frame kept s = (ls, .unfinished u)) : u <:+ s := by
  -- induction on the length of what is left
  induction hn : s.length using Nat.strong_induction_on generalizing kept s ls with
  | _ n ih =>
  cases hsplit : splitLine s with
  | none =>
    rw [frame_of_none hsplit] at h
    simp only [Prod.mk.injEq, Tail.unfinished.injEq] at h
    exact h.2 ▸ List.suffix_refl s
  | some lr =>
    obtain ⟨line, rest⟩ := lr
    by_cases hline : kept ++ line = []
    · simp [frame_of_empty hsplit hline] at h
    · rw [frame_of_line hsplit hline] at h
      simp only [Prod.mk.injEq] at h
      have hlt := length_lt_of_splitLine hsplit
      obtain ⟨pre, rfl⟩ := exists_append_of_splitLine hsplit
      -- the line in front is dropped
      have hrest := ih _ (by omega) (s := rest) (Prod.ext rfl h.2) rfl
      exact hrest.trans ⟨pre ++ [Byte.lf], by simp⟩

/-- Behind the last line, more bytes start a new line. -/
theorem frame_append_lines {s k : Bytes} {ls : List Bytes} (hk : k.head? ≠ some Byte.lf)
    (h : frame [] s = (ls, .unfinished [])) :
    frame [] (s ++ k) = (ls ++ (frame [] k).1, (frame [] k).2) := by
  induction hn : s.length using Nat.strong_induction_on generalizing s ls with
  | _ n ih =>
  cases hsplit : splitLine s with
  | none =>
    rw [frame_of_none hsplit] at h
    simp only [Prod.mk.injEq, Tail.unfinished.injEq] at h
    obtain ⟨rfl, rfl⟩ := h
    rfl
  | some lr =>
    obtain ⟨line, rest⟩ := lr
    by_cases hline : ([] : Bytes) ++ line = []
    · simp [frame_of_empty hsplit hline] at h
    · rw [frame_of_line hsplit hline] at h
      simp only [Prod.mk.injEq] at h
      obtain ⟨rfl, htail⟩ := h
      have hlt := length_lt_of_splitLine hsplit
      rcases splitLine_append k hsplit with happ | ⟨-, -, hhead, -, -⟩
      · rw [frame_of_line happ hline, ih _ (by omega) (s := rest) (Prod.ext rfl htail) rfl]
        rfl
      · -- `k` does not start with the line feed that would be skipped
        exact absurd hhead hk

namespace Parser

variable {F E : Type} {fmt : Format F E}

/-- Handle header lines one after another. -/
def readLines (fmt : Format F E) (p : Parser F) (lines : List Bytes) :
    Throws (IoState × Parser F) :=
  Incremental.feed (handleLine fmt) p lines

/-- Handle the lines of a frame; keep an unfinished line, or start the body. -/
def readFrame (fmt : Format F E) (p : Parser F) (f : List Bytes × Tail) :
    Throws (IoState × Parser F) :=
  match readLines fmt p f.1 with
  | .error e => .error e
  | .ok (.ready, p) => .ok (.ready, p)
  | .ok (.pending, p) =>
    match f.2 with
    | .unfinished s => .ok (.pending, { p with notHandledData := p.notHandledData ++ s })
    | .body s => readBody fmt { p with state := .bodyRead } s 0

/-- The lines are handled one by one. -/
theorem readFrame_cons (p : Parser F) (line : Bytes) (f : List Bytes × Tail) :
    readFrame fmt p (line :: f.1, f.2) =
      match handleLine fmt p line with
      | .error e => .error e
      | .ok (.ready, p) => .ok (.ready, p)
      | .ok (.pending, p) => readFrame fmt p f := by
  simp only [readFrame, readLines, Incremental.feed]
  cases handleLine fmt p line with
  | error e => rfl
  | ok r =>
    obtain ⟨st, p'⟩ := r
    -- READY ends the reading, PENDING goes on
    cases st <;> rfl

/-- `read_body` only looks at the data from `from` on. -/
theorem readBody_drop (p : Parser F) (data : Bytes) (i : Nat) :
    readBody fmt p data i = readBody fmt p (data.drop i) 0 := by
  -- a slice of the chunk is one of its rest
  have hslice : ∀ n, slice data i (i + n) = slice (data.drop i) 0 n := by
    intro n
    simp only [slice, List.drop_zero, List.drop_take, Nat.add_sub_cancel_left, Nat.sub_zero]
  simp only [readBody, List.length_drop, Nat.sub_zero, List.drop_zero, Nat.zero_add]
  split
  · rfl
  · split
    · rfl
    · split
      · split
        · rfl
        · rw [Nat.add_sub_assoc (by omega), hslice]
      · rfl

/-! ## One line of the loop -/

/-- `start_it` stands at the start of a line of the chunk. -/
def LineStart (chunk : Bytes) (start : Nat) : Prop :=
  (start = 0 ∧ chunk.head? ≠ some Byte.lf) ∨ (0 < start ∧ chunk[start - 1]? = some Byte.lf)

/-- There is no line feed to find. -/
theorem find_lf_of_cutAt_none {chunk : Bytes} {start : Nat}
    (h : (chunk.drop start).cutAt Byte.lf = none) : find chunk Byte.lf start = none := by
  simp only [find, List.idxOf?_eq_map_cutAt, h, Option.map_none]

/-- The first line feed is found where the cut is. -/
theorem find_lf_of_cutAt_some {chunk l r : Bytes} {start : Nat}
    (h : (chunk.drop start).cutAt Byte.lf = some (l, r)) :
    find chunk Byte.lf start = some (start + l.length) := by
  simp only [find, List.idxOf?_eq_map_cutAt, h, Option.map_some]

/-- The look-behind tells whether the line ends with a CR: in front of an empty
    line it sees the line feed of the line before. -/
theorem stepBackOverCr_eq {chunk l r : Bytes} {start : Nat} (hls : LineStart chunk start)
    (h : chunk.drop start = l ++ Byte.lf :: r) :
    stepBackOverCr chunk (start + l.length) =
      if l.getLast? = some Byte.cr then start + (l.length - 1) else start + l.length := by
  rcases List.eq_nil_or_concat l with rfl | ⟨l', b, rfl⟩
  · -- an empty line: the look-behind leaves it
    rcases hls with ⟨rfl, hhead⟩ | ⟨_, hprev⟩
    · simp only [List.drop_zero, List.nil_append] at h
      simp [h] at hhead
    · have hne : Byte.lf ≠ Byte.cr := by decide
      simp [stepBackOverCr, hprev, hne]
  · have hget : chunk[start + l'.length]? = some b := by
      rw [← List.getElem?_drop, h]
      simp
    simp only [stepBackOverCr, List.concat_eq_append, List.length_append, List.length_singleton,
      List.getLast?_concat, Option.some.injEq, Nat.add_sub_cancel,
      show start + (l'.length + 1) - 1 = start + l'.length from by omega, hget]

/-- One pass of the loop, given where the line ends and where the next one
    starts. -/
private theorem headersLoop_pass {chunk line rest : Bytes} {start newline lineEnd next : Nat}
    (p : Parser F) (hfind : find chunk Byte.lf start = some newline) (hnonzero : newline ≠ 0)
    (hend : stepBackOverCr chunk newline = lineEnd) (hle : start ≤ lineEnd)
    (hslice : slice chunk start lineEnd = line) (hnext : skipLineEnd chunk lineEnd = next)
    (hrest : chunk.drop next = rest) :
    headersLoop fmt chunk p start =
      match takeNotHandled p with
      | .error f => .error f
      | .ok (kept, p) =>
        if kept ++ line = [] then readBody fmt { p with state := .bodyRead } rest 0
        else
          match handleLine fmt p (kept ++ line) with
          | .error f => .error f
          | .ok (.ready, p) => .ok (.ready, p)
          | .ok (.pending, p) => headersLoop fmt chunk p next := by
  rw [headersLoop]
  split
  · rename_i hnone
    simp [hfind] at hnone
  · rename_i i hsome
    obtain rfl : newline = i := Option.some.inj (hfind.symm.trans hsome)
    rw [if_neg hnonzero]
    cases takeNotHandled p with
    | error f => rfl
    | ok kp =>
      obtain ⟨kept, p'⟩ := kp
      dsimp only
      -- the line ends behind its start, so the pass goes on from there
      rw [hend, dif_neg (by omega), hslice, hnext]
      split
      · rw [readBody_drop, hrest]
      · rfl

/-- One pass of the loop: the line, and where it leaves `start_it`. -/
theorem headersLoop_line (fmt : Format F E) {chunk line rest : Bytes} {start : Nat} (p : Parser F)
    (hls : LineStart chunk start) (h : splitLine (chunk.drop start) = some (line, rest)) :
    ∃ next, chunk.drop next = rest ∧ LineStart chunk next ∧
      headersLoop fmt chunk p start =
        match takeNotHandled p with
        | .error f => .error f
        | .ok (kept, p) =>
          if kept ++ line = [] then readBody fmt { p with state := .bodyRead } rest 0
          else
            match handleLine fmt p (kept ++ line) with
            | .error f => .error f
            | .ok (.ready, p) => .ok (.ready, p)
            | .ok (.pending, p) => headersLoop fmt chunk p next := by
  simp only [splitLine, Option.map_eq_some_iff] at h
  obtain ⟨⟨l, r⟩, hcut, hline⟩ := h
  obtain ⟨hdrop, -⟩ := List.cutAt_eq_some_iff.mp hcut
  have hfind := find_lf_of_cutAt_some hcut
  have hback := stepBackOverCr_eq hls hdrop
  -- what the reads and the slices of the pass are, counted from `start`
  have hget : ∀ i, chunk[start + i]? = (l ++ Byte.lf :: r)[i]? := fun i => by
    rw [← hdrop, List.getElem?_drop]
  have hslice : ∀ n, slice chunk start (start + n) = (l ++ Byte.lf :: r).take n := fun n => by
    rw [slice, List.drop_take, hdrop, Nat.add_sub_cancel_left]
  have hafter : ∀ i, chunk.drop (start + (l.length + 1 + i)) = r.drop i := fun i => by
    rw [← List.drop_drop, hdrop, show l.length + 1 + i = l.length + (i + 1) from by omega,
      ← List.drop_drop, List.drop_left, List.drop_succ_cons]
  -- the line feed at the start of the chunk is excluded
  have hnonzero : start + l.length ≠ 0 := by
    intro hzero
    rcases hls with ⟨rfl, hhead⟩ | ⟨hpos, _⟩
    · have hnil : l = [] := List.length_eq_zero_iff.mp (by omega)
      rw [hnil, List.drop_zero, List.nil_append] at hdrop
      simp [hdrop] at hhead
    · omega
  have hnewline : chunk[start + l.length]? = some Byte.lf := by rw [hget]; simp
  have hnewline' : chunk[start + (l.length + 1 + 0) - 1]? = some Byte.lf := hnewline
  by_cases hcr : l.getLast? = some Byte.cr
  · -- CR LF: `start_it` comes to the line feed and steps over it
    simp only [hcr, ↓reduceIte, Prod.mk.injEq] at hline hback
    obtain ⟨rfl, rfl⟩ := hline
    have hlen : 0 < l.length := List.length_pos_iff.mpr (by rintro rfl; simp at hcr)
    refine ⟨start + (l.length + 1 + 0), hafter 0, Or.inr ⟨by omega, hnewline'⟩,
      headersLoop_pass p hfind hnonzero hback (by omega) ?_ ?_ (hafter 0)⟩
    · rw [hslice, List.take_append_of_le_length (by omega), List.dropLast_eq_take]
    · rw [skipLineEnd, show start + (l.length - 1) + 1 = start + l.length from by omega,
        if_pos hnewline]
      omega
  · -- a bare LF: `start_it` steps over it, and over one more
    simp only [hcr, ↓reduceIte, Prod.mk.injEq] at hline hback
    obtain ⟨rfl, rfl⟩ := hline
    have hsecond : chunk[start + l.length + 1]? = r.head? := by
      rw [Nat.add_assoc, hget, List.getElem?_append_right (by omega)]
      simp [List.head?_eq_getElem?]
    have htake : slice chunk start (start + l.length) = l := by rw [hslice, List.take_left]
    -- the second line feed is the one of a blank line
    by_cases hlf : r.head? = some Byte.lf
    · rw [if_pos hlf, ← List.drop_one]
      refine ⟨start + (l.length + 1 + 1), hafter 1, Or.inr ⟨by omega, ?_⟩,
        headersLoop_pass p hfind hnonzero hback (by omega) htake ?_ (hafter 1)⟩
      · rw [← hlf, ← hsecond]; rfl
      · rw [skipLineEnd, hsecond, if_pos hlf]
        omega
    · rw [if_neg hlf]
      refine ⟨start + (l.length + 1 + 0), hafter 0, Or.inr ⟨by omega, hnewline'⟩,
        headersLoop_pass p hfind hnonzero hback (by omega) htake ?_ (hafter 0)⟩
      rw [skipLineEnd, hsecond, if_neg hlf]
      omega

/-! ## The whole loop -/

/-- Nothing was kept. -/
theorem takeNotHandled_nil {p : Parser F} (h : p.notHandledData = []) :
    takeNotHandled p = .ok ([], p) := by
  rw [takeNotHandled, if_pos h]

/-- What was kept is taken. -/
theorem takeNotHandled_clears {p p' : Parser F} {kept : Bytes}
    (h : takeNotHandled p = .ok (kept, p')) : p'.notHandledData = [] := by
  simp only [takeNotHandled] at h
  split at h
  · rename_i hnil
    cases h
    exact hnil
  · split at h <;> cases h
    rfl

/-- What handling a header line leaves alone. -/
theorem handleLine_unchanged {p p' : Parser F} {line : Bytes} {st : IoState}
    (h : handleLine fmt p line = .ok (st, p')) :
    p'.notHandledData = p.notHandledData ∧ p'.body = p.body ∧ p'.state = p.state ∧
      p'.contentLength = p.contentLength := by
  simp only [handleLine] at h
  split at h
  · split at h <;> cases h <;> exact ⟨rfl, rfl, rfl, rfl⟩
  · split at h <;> cases h <;> exact ⟨rfl, rfl, rfl, rfl⟩

/-- Without a line feed ahead the loop keeps what it sees for the next chunk. -/
theorem headersLoop_of_not_mem {chunk : Bytes} {start : Nat} (p : Parser F)
    (h : Byte.lf ∉ chunk.drop start) :
    headersLoop fmt chunk p start =
      .ok (.pending, { p with notHandledData := p.notHandledData ++ chunk.drop start }) := by
  rw [headersLoop]
  split
  · rfl
  · rename_i hsome
    simp [find_lf_of_cutAt_none (List.cutAt_eq_none_iff.mpr h)] at hsome

/-- With a line feed ahead, the loop at the start of a line handles the lines of
    the rest of the chunk. -/
theorem headersLoop_of_mem {chunk : Bytes} {start : Nat} (p : Parser F)
    (hls : LineStart chunk start) (h : Byte.lf ∈ chunk.drop start) :
    headersLoop fmt chunk p start =
      match takeNotHandled p with
      | .error f => .error f
      | .ok (kept, p) => readFrame fmt p (frame kept (chunk.drop start)) := by
  -- induction on what is left of the chunk
  induction hn : (chunk.drop start).length using Nat.strong_induction_on
    generalizing start p with
  | _ n ih =>
  cases hsplit : splitLine (chunk.drop start) with
  | none => exact absurd h (splitLine_eq_none_iff.mp hsplit)
  | some lr =>
    obtain ⟨line, rest⟩ := lr
    obtain ⟨next, hnext, hls', hpass⟩ := headersLoop_line fmt p hls hsplit
    rw [hpass]
    cases htake : takeNotHandled p with
    | error f => rfl
    | ok kp =>
      obtain ⟨kept, p'⟩ := kp
      dsimp only
      split
      · -- the blank line: what is left is the body
        rename_i hempty
        rw [frame_of_empty hsplit hempty]
        rfl
      · rename_i hline
        rw [frame_of_line hsplit hline, readFrame_cons]
        cases hhandle : handleLine fmt p' (kept ++ line) with
        | error f => rfl
        | ok r =>
          obtain ⟨st, p''⟩ := r
          cases st with
          | ready => rfl
          | pending =>
            -- the kept start of a line went into the first line
            have hnil : p''.notHandledData = [] :=
              (handleLine_unchanged hhandle).1.trans (takeNotHandled_clears htake)
            have hlt := length_lt_of_splitLine hsplit
            dsimp only
            rw [← hnext]
            by_cases hmem : Byte.lf ∈ chunk.drop next
            · rw [ih _ (by rw [hnext]; omega) p'' hls' hmem rfl, takeNotHandled_nil hnil]
            · rw [headersLoop_of_not_mem p'' hmem,
                frame_of_none (splitLine_eq_none_iff.mpr hmem)]
              rfl

/-- One call in the state `HEADERS_READ`. -/
theorem operatorCall_headersRead {p : Parser F} (hstate : p.state = .headersRead)
    (chunk : Bytes) :
    operatorCall fmt p chunk =
      if Byte.lf ∉ chunk then
        .ok (.pending, { p with notHandledData := p.notHandledData ++ chunk })
      else if chunk.head? = some Byte.lf then .error .outOfBounds
      else
        match takeNotHandled p with
        | .error f => .error f
        | .ok (kept, p) => readFrame fmt p (frame kept chunk) := by
  have hcall : operatorCall fmt p chunk = headersLoop fmt chunk p 0 := by
    simp only [operatorCall, hstate]
  rw [hcall]
  split
  · rename_i hmem
    -- the chunk is kept as it is
    rw [headersLoop_of_not_mem p (by rwa [List.drop_zero]), List.drop_zero]
  · rename_i hmem
    split
    · -- the first line feed is the first byte of the chunk
      rename_i hhead
      obtain ⟨r, rfl⟩ : ∃ r, chunk = Byte.lf :: r := by
        cases chunk with
        | nil => simp at hhead
        | cons b r => exact ⟨r, by simpa using hhead⟩
      have hfind : find (Byte.lf :: r) Byte.lf 0 = some 0 := by simp [find, List.idxOf?_cons]
      rw [headersLoop]
      split
      · simp_all
      · rename_i i hi
        obtain rfl : 0 = i := Option.some.inj (hfind.symm.trans hi)
        rfl
    · rename_i hhead
      rw [headersLoop_of_mem p (Or.inl ⟨rfl, hhead⟩) (by simpa using hmem), List.drop_zero]

/-- One call in the state `BODY_READ`. -/
theorem operatorCall_bodyRead {p : Parser F} (hstate : p.state = .bodyRead) (chunk : Bytes) :
    operatorCall fmt p chunk = readBody fmt p chunk 0 := by
  simp only [operatorCall, hstate]

end Parser

end Webserv.Http
