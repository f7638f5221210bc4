import Xv6.Grep.Match

/-!
# The lines of `grep` (`grep.c`)

`grep` reads its input into a buffer, writes the lines of the buffer that match, and keeps what
follows the last newline for the next round.  A list holds the bytes of the buffer, and the
results of `read` are a list of pieces.

When a round finds no newline at all, the whole buffer is dropped (`m = 0`): the beginning of a
line that ends in a later piece is lost.  So the output depends on how `read` cuts the stream;
`grep_boundaries_iff` says for which cuts it is right.

Main definitions:

* `grep` — the loop, on the pieces that `read` returns;
* `linesOf`, `matching` — the lines of a stream that end with a newline, and the output that is
  asked for;
* `Whole` — no line is cut by a piece without newline.
-/

namespace Xv6
namespace Grep

def newline : UInt8 := 10

/-- `sizeof(buf)` -/
def bufSize : Nat := 1024

/-! ## The program -/

/-- `strchr(s, c)`: what is before the first `c` of a string and what follows it. -/
def strchr (c : UInt8) : List UInt8 → Option (List UInt8 × List UInt8)
  | [] => none
  | b :: s =>
    if b = 0 then
      none
    else if b = c then
      some ([], s)
    else
      (strchr c s).map fun r => (b :: r.1, r.2)

/-- The inner loop from `p` on, in at most `k` rounds: what it writes, and where it ends. -/
def scan (pattern : List UInt8) : Nat → List UInt8 → List UInt8 × List UInt8
  | 0, p => ([], p)
  | k + 1, p =>
    match strchr newline p with
    | none => ([], p)
    | some (line, after) =>
      let r := scan pattern k after
      if grepMatch pattern line then
        (line ++ newline :: r.1, r.2)
      else
        r

/-- What is kept of the buffer `data` when the inner loop has ended at `p`. -/
def keep (data p : List UInt8) : List UInt8 :=
  -- if(p == buf) m = 0;
  let m := if p.length = data.length then 0 else data.length
  if m > 0 then p else []

/-- The loop of `grep` with `buf` kept so far, for the pieces that `read` returns; what it
writes. -/
def grep (pattern : List UInt8) : List UInt8 → List (List UInt8) → List UInt8
  | _, [] => []
  | buf, piece :: pieces =>
    if bufSize - buf.length - 1 = 0 then
      -- a read of no bytes
      []
    else
      let r := scan pattern (buf ++ piece).length (buf ++ piece)
      r.1 ++ grep pattern (keep (buf ++ piece) r.2) pieces

/-! ## The output asked for -/

/-- The lines of a stream that end with a newline. -/
def linesOf : List UInt8 → List (List UInt8)
  | [] => []
  | c :: s =>
    if c = newline then
      [] :: linesOf s
    else
      match linesOf s with
      | [] => []
      | line :: lines => (c :: line) :: lines

/-- What follows the last newline. -/
def lastPart : List UInt8 → List UInt8
  | [] => []
  | c :: s => if newline ∈ c :: s then lastPart s else c :: s

/-- The lines that match, each with its newline. -/
def matching (pattern stream : List UInt8) : List UInt8 :=
  ((linesOf stream).filter (grepMatch pattern)).flatMap fun line => line ++ [newline]

/-- Every piece up to the last newline of the stream contains a newline. -/
def Whole : List (List UInt8) → Prop
  | [] => True
  | piece :: pieces => (newline ∈ piece ∨ newline ∉ pieces.flatten) ∧ Whole pieces

/-- What is in the buffer after a round. -/
def carried (data : List UInt8) : List UInt8 := if newline ∈ data then lastPart data else []

/-- What `read` may return: pieces that are not empty and that fit in the buffer. -/
def Splits : List UInt8 → List (List UInt8) → Prop
  | _, [] => True
  | buf, piece :: pieces =>
    piece ≠ [] ∧ piece.length ≤ bufSize - buf.length - 1 ∧ Splits (carried (buf ++ piece)) pieces

/-! ## One round -/

section round

variable {s t line : List UInt8} {pattern : List UInt8}

theorem linesOf_of_notMem (h : newline ∉ s) : linesOf s = [] := by
  induction s with
  | nil => rfl
  | cons c s ih =>
    rw [List.mem_cons, not_or] at h
    obtain ⟨hc, hs⟩ := h
    rw [linesOf, if_neg (Ne.symm hc), ih hs]

theorem lastPart_of_notMem (h : newline ∉ s) : lastPart s = s := by
  cases s with
  | nil => rfl
  | cons c s => rw [lastPart, if_neg h]

theorem linesOf_ne_nil (h : newline ∈ s) : ∃ line lines, linesOf s = line :: lines := by
  induction s with
  | nil => exact absurd h List.not_mem_nil
  | cons c s ih =>
    rw [linesOf]
    by_cases hc : c = newline
    · exact ⟨[], linesOf s, if_pos hc⟩
    · obtain ⟨line, lines, heq⟩ := ih ((List.mem_cons.mp h).resolve_left (Ne.symm hc))
      exact ⟨c :: line, lines, by rw [if_neg hc, heq]⟩

theorem newline_notMem_lastPart (s : List UInt8) : newline ∉ lastPart s := by
  induction s with
  | nil => exact List.not_mem_nil
  | cons c s ih =>
    rw [lastPart]
    split
    · exact ih
    · assumption

theorem mem_of_mem_lastPart {b : UInt8} (h : b ∈ lastPart s) : b ∈ s := by
  induction s with
  | nil => exact h
  | cons c s ih =>
    rw [lastPart] at h
    split at h
    · exact List.mem_cons_of_mem _ (ih h)
    · exact h

/-- The rest behind the last newline goes on in what follows. -/
theorem linesOf_append (s t : List UInt8) :
    linesOf (s ++ t) = linesOf s ++ linesOf (lastPart s ++ t) := by
  induction s with
  | nil => rfl
  | cons c s ih =>
    by_cases hmem : newline ∈ c :: s
    · rw [lastPart, if_pos hmem, List.cons_append, linesOf, linesOf, ih]
      by_cases hc : c = newline
      · rw [if_pos hc, if_pos hc]
        rfl
      · obtain ⟨line, lines, heq⟩ :=
          linesOf_ne_nil ((List.mem_cons.mp hmem).resolve_left (Ne.symm hc))
        rw [if_neg hc, if_neg hc, heq]
        rfl
    · rw [lastPart_of_notMem hmem, linesOf_of_notMem hmem]
      rfl

theorem matching_append (pattern s t : List UInt8) :
    matching pattern (s ++ t) = matching pattern s ++ matching pattern (lastPart s ++ t) := by
  rw [matching, linesOf_append, List.filter_append, List.flatMap_append]
  rfl

theorem matching_of_notMem (h : newline ∉ s) : matching pattern s = [] := by
  rw [matching, linesOf_of_notMem h]
  rfl

theorem lastPart_line (h : newline ∉ line) : lastPart (line ++ newline :: t) = lastPart t := by
  induction line with
  | nil => rw [List.nil_append, lastPart, if_pos List.mem_cons_self]
  | cons c line ih =>
    have hline : newline ∉ line := fun hmem => h (List.mem_cons_of_mem _ hmem)
    rw [List.cons_append, lastPart, if_pos (by simp), ih hline]

theorem linesOf_line (h : newline ∉ line) :
    linesOf (line ++ newline :: t) = line :: linesOf t := by
  induction line with
  | nil => exact if_pos rfl
  | cons c line ih =>
    rw [List.mem_cons, not_or] at h
    obtain ⟨hc, hline⟩ := h
    rw [List.cons_append, linesOf, if_neg (Ne.symm hc), ih hline]

/-- In a string without NUL, `strchr` finds the first line. -/
theorem strchr_spec (hnul : 0 ∉ s) : match strchr newline s with
    | none => newline ∉ s
    | some (line, after) => s = line ++ newline :: after ∧ newline ∉ line := by
  induction s with
  | nil => exact List.not_mem_nil
  | cons b s ih =>
    rw [List.mem_cons, not_or] at hnul
    obtain ⟨hb, hs⟩ := hnul
    specialize ih hs
    rw [strchr, if_neg (Ne.symm hb)]
    by_cases hnl : b = newline
    · rw [if_pos hnl, hnl]
      exact ⟨rfl, List.not_mem_nil⟩
    · rw [if_neg hnl]
      cases hfound : strchr newline s with
      | none =>
        rw [hfound] at ih
        show newline ∉ b :: s
        rw [List.mem_cons, not_or]
        exact ⟨Ne.symm hnl, ih⟩
      | some r =>
        rw [hfound] at ih
        refine ⟨congrArg (b :: ·) ih.1, ?_⟩
        rw [List.mem_cons, not_or]
        exact ⟨Ne.symm hnl, ih.2⟩

/-- The inner loop writes the lines that match and ends behind the last newline. -/
theorem scan_eq (k : Nat) (hlen : s.length ≤ k) (hnul : 0 ∉ s) :
    scan pattern k s = (matching pattern s, lastPart s) := by
  induction k generalizing s with
  | zero =>
    rw [List.length_eq_zero_iff.mp (Nat.le_zero.mp hlen)]
    rfl
  | succ k ih =>
    have hfirst := strchr_spec hnul
    rw [scan]
    cases hfound : strchr newline s with
    | none =>
      rw [hfound] at hfirst
      rw [matching_of_notMem hfirst, lastPart_of_notMem hfirst]
    | some r =>
      obtain ⟨line, after⟩ := r
      rw [hfound] at hfirst
      obtain ⟨rfl, hline⟩ := hfirst
      have hafter : scan pattern k after = (matching pattern after, lastPart after) := by
        apply ih
        · rw [List.length_append, List.length_cons] at hlen
          omega
        · intro hmem
          exact hnul (List.mem_append_right _ (List.mem_cons_of_mem _ hmem))
      rw [lastPart_line hline, matching, linesOf_line hline]
      show (if grepMatch pattern line = true then _ else _) = _
      rw [hafter, List.filter_cons]
      split
      · rw [List.flatMap_cons, List.append_assoc]
        rfl
      · rfl

theorem length_lastPart_le (s : List UInt8) : (lastPart s).length ≤ s.length := by
  induction s with
  | nil => exact Nat.le_refl _
  | cons c s ih =>
    rw [lastPart]
    split
    · exact Nat.le_succ_of_le ih
    · exact Nat.le_refl _

theorem length_lastPart_lt (h : newline ∈ s) : (lastPart s).length < s.length := by
  cases s with
  | nil => exact absurd h List.not_mem_nil
  | cons c s =>
    rw [lastPart, if_pos h]
    exact Nat.lt_succ_of_le (length_lastPart_le s)

/-- What is kept is what follows the last newline, if there is one. -/
theorem keep_lastPart (data : List UInt8) : keep data (lastPart data) = carried data := by
  rw [keep, carried]
  by_cases h : newline ∈ data
  · have hlt : (lastPart data).length < data.length := length_lastPart_lt h
    rw [if_pos h, if_neg (Nat.ne_of_lt hlt), if_pos (Nat.zero_lt_of_lt hlt)]
  · rw [if_neg h, lastPart_of_notMem h, if_pos rfl, if_neg (Nat.lt_irrefl 0)]

theorem newline_notMem_carried (data : List UInt8) : newline ∉ carried data := by
  rw [carried]
  split
  · exact newline_notMem_lastPart data
  · exact List.not_mem_nil

theorem mem_of_mem_carried {data : List UInt8} {b : UInt8} (h : b ∈ carried data) : b ∈ data := by
  rw [carried] at h
  split at h
  · exact mem_of_mem_lastPart h
  · exact absurd h List.not_mem_nil

end round

/-! ## All rounds -/

section rounds

variable {buf piece : List UInt8} {pieces : List (List UInt8)} {pattern : List UInt8}

/-- One round of `grep`. -/
theorem grep_cons (hsplit : Splits buf (piece :: pieces)) (hnul : 0 ∉ buf ++ piece) :
    grep pattern buf (piece :: pieces) =
      matching pattern (buf ++ piece) ++ grep pattern (carried (buf ++ piece)) pieces := by
  obtain ⟨hne, hfits, _⟩ := hsplit
  have hpos : 0 < piece.length := List.length_pos_iff.mpr hne
  rw [grep, if_neg (by omega), scan_eq _ le_rfl hnul, ← keep_lastPart]

/-- The bytes that are still to come have no NUL either. -/
theorem notMem_rest {b : UInt8} (h : b ∉ buf ++ (piece :: pieces).flatten) :
    b ∉ buf ++ piece ∧ b ∉ carried (buf ++ piece) ++ pieces.flatten := by
  rw [List.flatten_cons, ← List.append_assoc] at h
  constructor
  · exact fun hmem => h (List.mem_append_left _ hmem)
  · intro hmem
    apply h
    rw [List.mem_append] at hmem ⊢
    exact hmem.imp_left mem_of_mem_carried

/-- If no line is cut, the output is right. -/
theorem grep_of_whole (hsplit : Splits buf pieces) (hnul : 0 ∉ buf ++ pieces.flatten)
    (hbuf : newline ∉ buf) (hwhole : Whole pieces) :
    grep pattern buf pieces = matching pattern (buf ++ pieces.flatten) := by
  induction pieces generalizing buf with
  | nil =>
    rw [List.flatten_nil, List.append_nil, matching_of_notMem hbuf]
    rfl
  | cons piece pieces ih =>
    obtain ⟨hdata, hrest⟩ := notMem_rest hnul
    rw [grep_cons hsplit hdata, ih hsplit.2.2 hrest (newline_notMem_carried _) hwhole.2,
      List.flatten_cons, ← List.append_assoc, matching_append pattern (buf ++ piece)]
    by_cases hmem : newline ∈ buf ++ piece
    · rw [carried, if_pos hmem]
    · -- without a newline in this piece there is none in the rest
      have hpiece : newline ∉ piece := fun h => hmem (List.mem_append_right _ h)
      have hlater : newline ∉ pieces.flatten := hwhole.1.resolve_left hpiece
      have hall : newline ∉ lastPart (buf ++ piece) ++ pieces.flatten := by
        rw [lastPart_of_notMem hmem, List.mem_append, not_or]
        exact ⟨hmem, hlater⟩
      rw [carried, if_neg hmem, List.nil_append, matching_of_notMem hlater, matching_of_notMem hall]

/-- The empty pattern matches every line. -/
theorem grepMatch_nil (text : List UInt8) : grepMatch [] text = true := by
  cases text <;> rfl

theorem matching_nil (stream : List UInt8) :
    matching [] stream = (linesOf stream).flatMap fun line => line ++ [newline] := by
  rw [matching, List.filter_eq_self.mpr fun line _ => grepMatch_nil line]

/-- The beginning of a line is part of the output for the empty pattern. -/
theorem length_matching_append {d t : List UInt8} (hd : newline ∉ d) (ht : newline ∈ t) :
    (matching [] (d ++ t)).length = d.length + (matching [] t).length := by
  induction d with
  | nil => rw [List.nil_append, List.length_nil, Nat.zero_add]
  | cons c d ih =>
    rw [List.mem_cons, not_or] at hd
    obtain ⟨hc, hd⟩ := hd
    obtain ⟨line, lines, heq⟩ := linesOf_ne_nil (List.mem_append_right d ht)
    have hcons : linesOf (c :: (d ++ t)) = (c :: line) :: lines := by
      rw [linesOf, if_neg (Ne.symm hc), heq]
    specialize ih hd
    rw [matching_nil, heq, List.flatMap_cons, List.length_append] at ih
    rw [List.cons_append, matching_nil, hcons, List.flatMap_cons, List.length_append,
      List.length_cons]
    simp only [List.cons_append, List.length_cons] at ih ⊢
    omega

/-- With the empty pattern, nothing more is written than asked for, and less where a line is
cut. -/
theorem whole_of_length (hsplit : Splits buf pieces) (hnul : 0 ∉ buf ++ pieces.flatten)
    (hbuf : newline ∉ buf) :
    (grep [] buf pieces).length ≤ (matching [] (buf ++ pieces.flatten)).length ∧
      ((grep [] buf pieces).length = (matching [] (buf ++ pieces.flatten)).length →
        Whole pieces) := by
  induction pieces generalizing buf with
  | nil => exact ⟨Nat.zero_le _, fun _ => trivial⟩
  | cons piece pieces ih =>
    obtain ⟨hdata, hrest⟩ := notMem_rest hnul
    obtain ⟨hle, heq⟩ := ih hsplit.2.2 hrest (newline_notMem_carried _)
    rw [grep_cons hsplit hdata, List.flatten_cons, ← List.append_assoc,
      matching_append [] (buf ++ piece), List.length_append, List.length_append]
    by_cases hmem : newline ∈ buf ++ piece
    · rw [carried, if_pos hmem] at hle heq ⊢
      refine ⟨Nat.add_le_add_left hle _, fun h => ⟨.inl ?_, heq (Nat.add_left_cancel h)⟩⟩
      exact (List.mem_append.mp hmem).resolve_left hbuf
    · rw [carried, if_neg hmem, List.nil_append] at hle heq
      rw [carried, if_neg hmem, lastPart_of_notMem hmem, matching_of_notMem hmem,
        List.length_nil, Nat.zero_add,
        Nat.zero_add]
      by_cases hlater : newline ∈ pieces.flatten
      · -- what was read is lost, and it is not empty
        have hpos : 0 < (buf ++ piece).length :=
          List.length_pos_iff.mpr fun h => hsplit.1 (List.append_eq_nil_iff.mp h).2
        rw [length_matching_append hmem hlater]
        exact ⟨by omega, fun h => by omega⟩
      · have hall : newline ∉ buf ++ piece ++ pieces.flatten := by
          rw [List.mem_append, not_or]
          exact ⟨hmem, hlater⟩
        rw [matching_of_notMem hlater] at hle heq
        rw [matching_of_notMem hall]
        exact ⟨hle, fun h => ⟨.inr hlater, heq h⟩⟩

/-- For every way in which `read` may cut a stream without NUL: the output is right for every
pattern exactly if every piece up to the last newline of the stream contains a newline. -/
theorem grep_boundaries_iff (hsplit : Splits [] pieces) (hnul : 0 ∉ pieces.flatten) :
    (∀ pattern, grep pattern [] pieces = matching pattern pieces.flatten) ↔ Whole pieces := by
  constructor
  · intro h
    exact (whole_of_length hsplit hnul List.not_mem_nil).2 (congrArg List.length (h []))
  · intro hwhole pattern
    exact grep_of_whole hsplit hnul List.not_mem_nil hwhole

/-- Two lines in two reads, the first of which ends in the second line. -/
theorem grep_two_reads : Splits [] [[97, newline, 98], [99, newline]] ∧
    ∀ pattern, grep pattern [] [[97, newline, 98], [99, newline]] =
      matching pattern [[97, newline, 98], [99, newline]].flatten := by
  have hsplit : Splits [] [[97, newline, 98], [99, newline]] := by
    simp [Splits, carried, lastPart, newline, bufSize]
  exact ⟨hsplit, (grep_boundaries_iff hsplit (by decide)).mpr (by simp [Whole])⟩

/-- The line "ab" matches "a" if it is read at once, and not if it is read in two pieces. -/
theorem grep_loses_line :
    Splits [] [[97, 98, newline]] ∧ Splits [] [[97], [98, newline]] ∧
    grep [97] [] [[97, 98, newline]] = [97, 98, newline] ∧
    grep [97] [] [[97], [98, newline]] = [] ∧
    matching [97] [97, 98, newline] = [97, 98, newline] := by
  refine ⟨?_, ?_, by decide, by decide, by decide⟩
  · simp [Splits, bufSize]
  · simp [Splits, carried, newline, bufSize]

end rounds

end Grep
end Xv6
