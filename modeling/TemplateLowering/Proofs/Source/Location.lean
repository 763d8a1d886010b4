import Mathlib.Tactic
import TemplateLowering.Source.Span

/-!
# Lines and columns

The line of an offset is the number of line feeds before it, and its column is the number of bytes
since the last of them.  A location that was reached from the start of the file has the line and the
column of its offset, and moving on from there keeps it so.

Moving back keeps the line right.  The column is one too high as soon as the move has crossed a line
feed, unless it ends on the first line.
-/

namespace TemplateLowering

namespace SourceFile

def bytes (file : SourceFile) : List UInt8 :=
  file.content.toByteArray.data.toList

/-- The number of line feeds among the first `n` bytes. -/
def lineFeeds (file : SourceFile) (n : Nat) : Nat :=
  (file.bytes.take n).count 10

/-- The number of bytes since the last line feed among the first `n` bytes, or since the beginning
when there is none. -/
def sinceLineFeed (file : SourceFile) (n : Nat) : Nat :=
  ((file.bytes.take n).reverse.takeWhile (· != 10)).length

variable {file : SourceFile} {n m : Nat}

theorem length_bytes (file : SourceFile) : file.bytes.length = file.size := by
  rw [bytes, Array.length_toList]
  rfl

theorem take_succ_bytes (h : n < file.size) :
    ∃ byte, file.bytes.take (n + 1) = file.bytes.take n ++ [byte] ∧
      file.isLineFeed n = (byte == 10) := by
  have hlength : n < file.bytes.length := by rwa [length_bytes]
  refine ⟨file.bytes[n], ?_, ?_⟩
  · rw [List.take_add_one, List.getElem?_eq_getElem hlength]
    rfl
  · have hpos : (⟨n⟩ : String.Pos.Raw) < file.content.rawEndPos := String.Pos.Raw.lt_iff.2 h
    rw [isLineFeed, dif_pos hpos]
    rfl

theorem lineFeeds_succ (h : n < file.size) :
    file.lineFeeds (n + 1) = file.lineFeeds n + if file.isLineFeed n then 1 else 0 := by
  obtain ⟨byte, htake, hfeed⟩ := take_succ_bytes h
  rw [lineFeeds, htake, List.count_append, List.count_singleton, hfeed]
  rfl

theorem sinceLineFeed_succ (h : n < file.size) :
    file.sinceLineFeed (n + 1) = if file.isLineFeed n then 0 else file.sinceLineFeed n + 1 := by
  obtain ⟨byte, htake, hfeed⟩ := take_succ_bytes h
  rw [sinceLineFeed, htake, List.reverse_append, hfeed]
  by_cases hbyte : byte = 10 <;> simp [hbyte, sinceLineFeed]

theorem lineFeeds_mono (file : SourceFile) (h : m ≤ n) : file.lineFeeds m ≤ file.lineFeeds n :=
  (List.take_sublist_take_left h).count_le 10

theorem lt_of_lastLineFeed? {prior : Nat} (h : file.lastLineFeed? n = some prior) : prior < n := by
  induction n with
  | zero => simp [lastLineFeed?] at h
  | succ n ih =>
    rw [lastLineFeed?] at h
    split_ifs at h
    · exact Option.some.inj h ▸ Nat.lt_succ_self n
    · exact (ih h).trans (Nat.lt_succ_self n)

/-- The distance to the last line feed counts the line feed itself. -/
theorem distance_lastLineFeed? (h : n ≤ file.size) :
    (file.lastLineFeed? n).elim n (n - ·) =
      file.sinceLineFeed n + if 0 < file.lineFeeds n then 1 else 0 := by
  induction n with
  | zero => simp [lastLineFeed?, sinceLineFeed, lineFeeds]
  | succ n ih =>
    have hrest := ih (Nat.le_of_succ_le h)
    rw [lastLineFeed?, sinceLineFeed_succ h, lineFeeds_succ h]
    by_cases hfeed : file.isLineFeed n = true
    · simp [hfeed]
    · simp only [hfeed, Bool.false_eq_true, if_false, Nat.add_zero]
      have hstep : (file.lastLineFeed? n).elim (n + 1) (n + 1 - ·) =
          (file.lastLineFeed? n).elim n (n - ·) + 1 := by
        cases hlast : file.lastLineFeed? n with
        | none => rfl
        | some prior =>
          have hlt := lt_of_lastLineFeed? hlast
          simp only [Option.elim_some]
          omega
      rw [hstep, hrest]
      omega

end SourceFile

namespace Location

variable {file : SourceFile} {n m k : Nat}

def ofOffset (file : SourceFile) (n : Nat) : Location :=
  { file, offset := n, line := file.lineFeeds n, col := file.sinceLineFeed n }

theorem clamped_ofOffset (h : n ≤ file.size) : (ofOffset file n).clamped = ofOffset file n := by
  rw [clamped, ofOffset, Nat.min_eq_left h]

/-! ## Forward -/

theorem advance_ofOffset (h : n < file.size) :
    (ofOffset file n).advance = ofOffset file (n + 1) := by
  rw [advance, ofOffset, ofOffset, file.lineFeeds_succ h, file.sinceLineFeed_succ h]
  simp only [h, if_true]
  split <;> rfl

theorem advanceBy_ofOffset (h : n + k ≤ file.size) :
    advanceBy k (ofOffset file n) = ofOffset file (n + k) := by
  induction k generalizing n with
  | zero => rfl
  | succ k ih =>
    rw [advanceBy, advance_ofOffset (by omega), ih (by omega), Nat.add_right_comm, Nat.add_assoc]

/-- A move forward ends at the location of the offset, or at the end of the file. -/
theorem moveBy_ofOffset (h : n ≤ file.size) (k : Nat) :
    (ofOffset file n).moveBy k = ofOffset file (min (n + k) file.size) := by
  have hoffset : n + min k (file.size - n) = min (n + k) file.size := by omega
  rw [moveBy, clamped_ofOffset h, if_neg (by omega), Int.toNat_natCast, ← hoffset]
  change advanceBy (min k (file.size - n)) _ = _
  exact advanceBy_ofOffset (by omega)

theorem moveBy_origin (file : SourceFile) (n : Nat) :
    (origin file).moveBy n = ofOffset file (min n file.size) := by
  have horigin : origin file = ofOffset file 0 := by
    simp [origin, ofOffset, SourceFile.lineFeeds, SourceFile.sinceLineFeed]
  rw [horigin, moveBy_ofOffset (Nat.zero_le _), Nat.zero_add]

/-! ## Back -/

/-- Where a move back from the offset `n` gets to. -/
def back (file : SourceFile) (n m : Nat) : Location :=
  { ofOffset file m with
    col := file.sinceLineFeed m +
      if 0 < file.lineFeeds m ∧ file.lineFeeds m < file.lineFeeds n then 1 else 0 }

theorem retreat_back (h : m < n) (hn : n ≤ file.size) :
    (back file n (m + 1)).retreat = back file n m := by
  have hm : m < file.size := by omega
  have hmono : file.lineFeeds (m + 1) ≤ file.lineFeeds n := file.lineFeeds_mono h
  by_cases hfeed : file.isLineFeed m = true
  · have hfeeds : file.lineFeeds (m + 1) = file.lineFeeds m + 1 := by
      rw [file.lineFeeds_succ hm, if_pos hfeed]
    have hlt : file.lineFeeds m < file.lineFeeds n := by omega
    simp only [retreat, back, ofOffset, hfeed, if_true, hfeeds, Nat.add_sub_cancel, hlt, and_true,
      ← file.distance_lastLineFeed? hm.le]
    cases file.lastLineFeed? m <;> rfl
  · have hfeeds : file.lineFeeds (m + 1) = file.lineFeeds m := by
      rw [file.lineFeeds_succ hm, if_neg hfeed]
      rfl
    have hsince : file.sinceLineFeed (m + 1) = file.sinceLineFeed m + 1 := by
      rw [file.sinceLineFeed_succ hm, if_neg hfeed]
    simp only [retreat, back, ofOffset, hfeed, Bool.false_eq_true, if_false, hfeeds, hsince]
    congr 1
    omega

theorem retreatBy_back (h : m + k ≤ n) (hn : n ≤ file.size) :
    retreatBy k (back file n (m + k)) = back file n m := by
  induction k with
  | zero => rfl
  | succ k ih => rw [retreatBy, ← Nat.add_assoc, retreat_back (by omega) hn, ih (by omega)]

theorem moveBy_neg_ofOffset (hk : k ≤ n) (hn : n ≤ file.size) :
    (ofOffset file n).moveBy (-k) = back file n (n - k) := by
  have hstart : ofOffset file n = back file n (n - k + k) := by
    simp [back, ofOffset, Nat.sub_add_cancel hk]
  obtain rfl | hpos := Nat.eq_zero_or_pos k
  · simpa [Nat.min_eq_left hn, hstart] using moveBy_ofOffset hn 0
  · rw [moveBy, clamped_ofOffset hn, if_pos (by omega), Int.natAbs_neg, Int.natAbs_natCast]
    change retreatBy (min k n) _ = _
    rw [Nat.min_eq_left hk, hstart, retreatBy_back (by omega) hn]

/-- A move back ends where a move forward to the same offset ends, but for the column: that is one
higher when the move has left the line it started on for a line that is not the first. -/
theorem moveBy_neg_exact (hn : n ≤ file.size) (hk : k ≤ n) :
    let start := (origin file).moveBy n
    let there := (origin file).moveBy (n - k : Nat)
    start.moveBy (-k) = { there with
      col := there.col + if 0 < there.line ∧ there.line < start.line then 1 else 0 } ∧
    (start.moveBy (-k) = there ↔ there.line = 0 ∨ there.line = start.line) := by
  intro start there
  have hstart : start = ofOffset file n :=
    (moveBy_origin file n).trans (by rw [Nat.min_eq_left hn])
  have hthere : there = ofOffset file (n - k) :=
    (moveBy_origin file (n - k)).trans (by rw [Nat.min_eq_left (by omega)])
  have hback : start.moveBy (-k) = { there with
      col := there.col + if 0 < there.line ∧ there.line < start.line then 1 else 0 } := by
    rw [hstart, hthere, moveBy_neg_ofOffset hk hn]
    rfl
  have hline : there.line ≤ start.line := by
    rw [hstart, hthere]
    exact file.lineFeeds_mono (Nat.sub_le n k)
  refine ⟨hback, ?_⟩
  rw [hback]
  constructor
  · intro heq
    have hcol := congrArg Location.col heq
    split_ifs at hcol with hcrossed
    · simp at hcol
    · omega
  · intro hsame
    rw [if_neg (by omega)]
    rfl

/-- The end of the second of three lines, reached from the line below. -/
theorem moveBy_neg_misses_column :
    ((origin { content := "a\nbc\nd" }).moveBy 5).moveBy (-1) ≠
      (origin { content := "a\nbc\nd" }).moveBy 4 := by
  decide +kernel

theorem moveBy_neg_exact_threeLines :
    let file : SourceFile := { content := "a\nbc\nd" }
    5 ≤ file.size ∧
      ((origin file).moveBy 5).moveBy (-1) =
        { file, offset := 4, line := 1, col := ((origin file).moveBy 4).col + 1 } := by
  intro file
  have hsize : 5 ≤ file.size := by decide +kernel
  refine ⟨hsize, ?_⟩
  refine (moveBy_neg_exact hsize (k := 1) (by decide)).1.trans ?_
  decide +kernel

end Location

/-! ## Relative spans -/

theorem signed64_of_lt {n : Nat} (h : n < 2 ^ 63) : signed64 n = n := by
  have hlt : (n : Int) < 9223372036854775808 := by omega
  unfold signed64
  rw [Int.bmod_eq_of_le]
  · norm_num [UInt64.size]
  · norm_num [UInt64.size]
    omega

/-- A span relative to the start of another is the span of the offsets counted from there; and a
span starts at its offset, or at the end of the file, with the line feeds before it for the line and
the bytes since the last of them for the column. -/
theorem ExprSpan.resolve_ofOffsets (file : SourceFile) {s a b : Nat} (e : Nat)
    (hs : s < 2 ^ 63) (ha : s + a < 2 ^ 63) (hb : s + b < 2 ^ 63) :
    (ExprSpan.mk a b).resolve? (some (.ofOffsets file s e)) =
        some (.ofOffsets file (s + a) (s + b)) ∧
      (SourceSpan.ofOffsets file s e).start =
        { file
          offset := min s file.size
          line := file.lineFeeds (min s file.size)
          col := file.sinceLineFeed (min s file.size) } := by
  have hstart : (SourceSpan.ofOffsets file s e).start =
      Location.ofOffset file (min s file.size) := by
    rw [SourceSpan.ofOffsets, signed64_of_lt hs, Location.moveBy_origin]
  have hmove : ∀ d, s + d < 2 ^ 63 →
      (SourceSpan.ofOffsets file s e).start.moveBy (signed64 d) =
        (Location.origin file).moveBy (signed64 (s + d)) := by
    intro d hd
    have hoffset : min (min s file.size + d) file.size = min (s + d) file.size := by omega
    rw [hstart, signed64_of_lt hd, signed64_of_lt (by omega), Location.moveBy_origin,
      Location.moveBy_ofOffset (Nat.min_le_right s file.size), hoffset]
  refine ⟨?_, hstart⟩
  rw [ExprSpan.resolve?, Option.map_some, hmove a ha, hmove b hb]
  rfl

theorem ExprSpan.resolve_ofOffsets_threeLines :
    let file : SourceFile := { content := "a\nbc\nd" }
    3 < 2 ^ 63 ∧ 3 + 2 < 2 ^ 63 ∧ 3 + 9 < 2 ^ 63 ∧
      (ExprSpan.mk 2 9).resolve? (some (.ofOffsets file 3 6)) = some (.ofOffsets file 5 12) ∧
      (SourceSpan.ofOffsets file 3 6).start = { file, offset := 3, line := 1, col := 1 } := by
  intro file
  have h := resolve_ofOffsets file (s := 3) (a := 2) (b := 9) 6 (by decide) (by decide) (by decide)
  refine ⟨by decide, by decide, by decide, h.1, h.2.trans ?_⟩
  decide +kernel

end TemplateLowering
