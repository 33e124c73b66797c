import Eka.Ingestion.Overlap

/-!
# Words that are longer than a chunk

A text without whitespace that does not fit into a chunk is cut down to its characters, and the
packing loop puts a space between any two fragments, these too. It comes out whole only where
a chunk has no room for two characters and the space, and no overlap brings two together.
-/

namespace Eka

open Py

namespace RecursiveCharacterChunker

variable {config : ChunkingConfig} {text : Str}

/-- No character is whitespace. -/
def Unbroken (text : Str) : Prop := ∀ c ∈ text, isSpace c = false

theorem unbroken_of_all (h : (text.all fun c => !isSpace c) = true) : Unbroken text := by
  intro c hc
  simpa using List.all_eq_true.mp h c hc

theorem Unbroken.notMem (h : Unbroken text) {c : Char} (hc : isSpace c = true) : c ∉ text := by
  intro hmem
  rw [h c hmem] at hc
  cases hc

theorem Unbroken.opens (h : Unbroken text) (hne : text ≠ []) : Opens text :=
  ⟨_, _, (List.cons_head_tail hne).symm, h _ (List.head_mem hne)⟩

theorem Unbroken.closes (h : Unbroken text) (hne : text ≠ []) : Closes text :=
  ⟨_, _, (List.dropLast_append_getLast hne).symm, h _ (List.getLast_mem hne)⟩

theorem Unbroken.strip (h : Unbroken text) : Py.strip text = text := by
  by_cases hne : text = []
  · rw [hne]
    rfl
  · exact strip_eq_self (h.opens hne) (h.closes hne)

/-! ## The fragments -/

/-- A part that is the whole piece, and too long, is cut at the next level. -/
theorem recursiveSplit_whole {separator : Str} {finer : List Str} {piece : Str}
    (hlong : config.chunkSize < text.length) (hparts : parts separator text = [text])
    (hpiece : pieceOf separator text = piece) (hlong' : config.chunkSize < piece.length) :
    recursiveSplit config (separator :: finer) text = recursiveSplit config finer piece := by
  have hne : piece ≠ [] := List.ne_nil_of_length_pos (Nat.zero_lt_of_lt hlong')
  rw [recursiveSplit_long hlong, hparts, List.flatMap_singleton]
  unfold fragmentsOf
  simp only [hpiece]
  rw [if_neg hne, if_pos hlong']

/-- The sentence and the word level put a full stop and two spaces after a long word. -/
theorem recursiveSplit_unbroken (h : Unbroken text) (hlong : config.chunkSize < text.length) :
    recursiveSplit config separators text =
      ((text ++ ". ".toList).map fun c => [c]) ++ [" ".toList] := by
  have hne : text ≠ [] := List.ne_nil_of_length_pos (Nat.zero_lt_of_lt hlong)
  have hrstrip : rstrip text = text := by
    rw [← strip_of_opens (h.opens hne), h.strip]
  have hparagraph : parts "\n\n".toList text = [text] :=
    split_of_absent (d := '\n') (by decide) (h.notMem (by decide))
  have hline : parts "\n".toList text = [text] :=
    split_of_absent (d := '\n') (by decide) (h.notMem (by decide))
  have hsentence : parts ". ".toList text = [text] :=
    split_of_absent (d := ' ') (by decide) (h.notMem (by decide))
  have hlong' : config.chunkSize < (text ++ ". ".toList).length := by
    rw [List.length_append]
    omega
  have hwords : parts " ".toList (text ++ ". ".toList) = [text ++ ".".toList, []] := by
    have hshape : text ++ ". ".toList = (text ++ ".".toList) ++ ' ' :: [] := by
      rw [List.append_assoc]
      rfl
    have hstop : ' ' ∉ text ++ ".".toList := by
      rw [List.mem_append, not_or]
      exact ⟨h.notMem (by decide), by decide⟩
    rw [hshape]
    show Py.split [' '] _ = _
    rw [split_append_cons, split_of_absent List.mem_cons_self hstop]
    rfl
  have hstop : pieceOf ". ".toList text = text ++ ". ".toList := rfl
  have hword : pieceOf " ".toList (text ++ ".".toList) = text ++ ". ".toList :=
    List.append_assoc ..
  have hspace : fragmentsOf config " ".toList ["".toList] [] = [" ".toList] := by
    have hfits : ¬ (pieceOf " ".toList []).length > config.chunkSize :=
      Nat.not_lt.mpr config.sizePos
    unfold fragmentsOf
    simp only [hfits, if_false]
    exact if_neg (by decide)
  unfold separators
  rw [recursiveSplit_whole hlong hparagraph ((pieceOf_paragraph text).trans hrstrip) hlong,
    recursiveSplit_whole hlong hline ((pieceOf_line text).trans hrstrip) hlong,
    recursiveSplit_whole hlong hsentence hstop hlong', recursiveSplit_long hlong', hwords,
    List.flatMap_cons, List.flatMap_singleton, hspace]
  congr 1
  unfold fragmentsOf
  simp only [hword]
  rw [if_neg (List.ne_nil_of_length_pos (Nat.zero_lt_of_lt hlong')), if_pos hlong',
    recursiveSplit_chars_level hlong']

/-! ## Packing characters -/

/-- The state when every fragment so far was pushed on its own. -/
structure Single (state : List Str × Str) : Prop where
  chunks : ∀ t ∈ state.1, Unbroken t
  buffer : ∃ c, state.2 = [c] ∧ isSpace c = false

theorem extended_pair {a b : Char} (ha : isSpace a = false) (hb : isSpace b = false) :
    extended [a] [b] = [a, ' ', b] :=
  strip_eq_self ⟨a, _, rfl, ha⟩ ⟨[a, ' '], b, rfl, hb⟩

theorem unbroken_singleton {c : Char} (hc : isSpace c = false) : Unbroken [c] := by
  intro d hd
  rw [List.mem_singleton.mp hd]
  exact hc

/-- Where a chunk has no room for two characters, a character takes the buffer's place and a
    space leaves it. -/
theorem mergeStep_single (hzero : config.chunkOverlap = 0) (hsize : config.chunkSize ≤ 2)
    {state : List Str × Str} (h : Single state) (x : Char) :
    Single (mergeStep config state [x]) := by
  obtain ⟨chunks, current⟩ := state
  obtain ⟨hchunks, c, hbuffer, hc⟩ := h
  obtain rfl : current = [c] := hbuffer
  by_cases hx : isSpace x = true
  · have hsame : extended [c] [x] = [c] := by
      have hblank : Blank [x] := List.forall_mem_singleton.mpr hx
      exact (extended_blank hblank [c]).trans (unbroken_singleton hc).strip
    rw [mergeStep_fits (List.cons_ne_nil _ _) (by rw [hsame]; exact config.sizePos), hsame]
    exact ⟨hchunks, c, rfl, hc⟩
  · have hx' : isSpace x = false := Bool.eq_false_iff.mpr hx
    have hfull : config.chunkSize < (extended [c] [x]).length := by
      rw [extended_pair hc hx']
      exact Nat.lt_succ_of_le hsize
    have hnew : extended (tail config [c]) [x] = [x] := by
      have htail : tail config [c] = [] := if_pos hzero
      rw [htail]
      exact (strip_blank_append (s := [' ']) (by decide) [x]).trans (unbroken_singleton hx').strip
    rw [mergeStep_cut (List.cons_ne_nil _ _) hfull, hnew]
    refine ⟨?_, x, rfl, hx'⟩
    intro t ht
    rcases List.mem_append.mp ht with ht | ht
    · exact hchunks t ht
    · rw [List.mem_singleton.mp ht]
      exact unbroken_singleton hc

theorem foldl_single (hzero : config.chunkOverlap = 0) (hsize : config.chunkSize ≤ 2)
    {state : List Str × Str} (h : Single state) (s : Str) :
    Single ((s.map fun c => [c]).foldl (mergeStep config) state) := by
  induction s generalizing state with
  | nil => exact h
  | cons c s ih => exact ih (mergeStep_single hzero hsize h c)

/-- The characters come out as they are, one by one. -/
theorem unbroken_pushed (hzero : config.chunkOverlap = 0) (hsize : config.chunkSize ≤ 2) {a : Char}
    (ha : isSpace a = false) (s : Str) :
    ∀ t ∈ pushed (stateAfter config ((a :: s).map fun c => [c])), Unbroken t := by
  have hone : [a].length ≤ config.chunkSize := config.sizePos
  have hfirst : Single (mergeStep config ([], []) [a]) := by
    rw [mergeStep_first hone]
    refine ⟨?_, a, rfl, ha⟩
    intro t ht
    cases ht
  have hsingle := foldl_single hzero hsize hfirst s
  obtain ⟨c, hbuffer, hc⟩ := hsingle.buffer
  unfold pushed stateAfter
  rw [List.map_cons, List.foldl_cons, hbuffer, if_pos (List.cons_ne_nil _ _)]
  intro t ht
  rcases List.mem_append.mp ht with ht | ht
  · exact hsingle.chunks t ht
  · rw [List.mem_singleton.mp ht]
    exact unbroken_singleton hc

/-- Otherwise the first two characters are in one buffer, with a space between them. -/
theorem stateAfter_pair (hpair : 2 < config.chunkSize + config.chunkOverlap) {a b : Char}
    (ha : isSpace a = false) (hb : isSpace b = false) :
    (stateAfter config [[a], [b]]).2 = [a, ' ', b] := by
  have hone : [a].length ≤ config.chunkSize := config.sizePos
  have hfirst : stateAfter config [[a]] = ([], [a]) := mergeStep_first hone []
  have hstep : stateAfter config [[a], [b]] = mergeStep config ([], [a]) [b] := by
    rw [← hfirst]
    exact stateAfter_concat config [[a]] [b]
  rw [hstep]
  by_cases hroom : 3 ≤ config.chunkSize
  · rw [mergeStep_fits (List.cons_ne_nil _ _) (by rw [extended_pair ha hb]; exact hroom)]
    exact extended_pair ha hb
  · have hlt := config.overlapLt
    have htail : tail config [a] = [a] := by
      unfold tail
      rw [if_neg (by omega), List.length_singleton, Nat.sub_eq_zero_of_le (by omega)]
      rfl
    have hfull : config.chunkSize < (extended [a] [b]).length := by
      rw [extended_pair ha hb]
      exact Nat.lt_of_not_le hroom
    rw [mergeStep_cut (List.cons_ne_nil _ _) hfull, htail]
    exact extended_pair ha hb

theorem exists_pushed_space (hpair : 2 < config.chunkSize + config.chunkOverlap) {a b : Char}
    (ha : isSpace a = false) (hb : isSpace b = false) (s : Str) :
    ∃ t ∈ pushed (stateAfter config ((a :: b :: s).map fun c => [c])), ' ' ∈ t := by
  have hfits : ∀ f ∈ s.map fun c => [c], f.length ≤ config.chunkSize := by
    intro f hf
    obtain ⟨c, -, rfl⟩ := List.mem_map.mp hf
    exact config.sizePos
  have hbuffer : [a, ' ', b] <+: (stateAfter config [[a], [b]]).2 :=
    ⟨[], by rw [stateAfter_pair hpair ha hb, List.append_nil]⟩
  obtain ⟨t, ht, hpre⟩ := exists_pushed_prefix
    (strip_eq_self ⟨a, _, rfl, ha⟩ ⟨[a, ' '], b, rfl, hb⟩) (List.cons_ne_nil _ _) hfits
    (.inl hbuffer)
  exact ⟨t, ht, hpre.subset (by simp)⟩

/-! ## When a long word is not broken -/

/-- The packer's answer on a text that is not blank at its ends. -/
theorem splitTexts_unbroken (h : Unbroken text) (hne : text ≠ []) :
    splitTexts config text = pushed (stateAfter config (recursiveSplit config separators text)) := by
  rw [splitTexts_of_ne_nil (by rw [h.strip]; exact hne), h.strip]
  rfl

/-- A text without whitespace gets none in its chunks exactly when it is no longer than a chunk,
    or a chunk has no room for two characters. -/
theorem split_unbroken_iff (config : ChunkingConfig) {text : Str}
    (hword : ∀ c ∈ text, isSpace c = false) :
    (∀ piece ∈ split config text, ∀ c ∈ piece.text, isSpace c = false) ↔
      text.length ≤ config.chunkSize ∨ config.chunkSize + config.chunkOverlap ≤ 2 := by
  have hpieces : (∀ piece ∈ split config text, ∀ c ∈ piece.text, isSpace c = false) ↔
      ∀ t ∈ splitTexts config text, Unbroken t := by
    rw [← map_text_split, List.forall_mem_map]
    rfl
  have hlt := config.overlapLt
  have hpos := config.sizePos
  rw [hpieces]
  cases htext : text with
  | nil => exact iff_of_true (by simp [splitTexts, Py.strip, rstrip]) (.inl (Nat.zero_le _))
  | cons a rest =>
      have ha : isSpace a = false := hword a (by rw [htext]; exact List.mem_cons_self)
      rw [htext] at hword
      rw [splitTexts_unbroken hword (List.cons_ne_nil _ _)]
      by_cases hshort : (a :: rest).length ≤ config.chunkSize
      · refine iff_of_true ?_ (.inl hshort)
        have hfirst : stateAfter config [a :: rest] = ([], a :: rest) := mergeStep_first hshort []
        rw [recursiveSplit_short hshort, hfirst]
        intro t ht
        obtain rfl : t = a :: rest := by simpa [pushed] using ht
        exact hword
      · have hlong : config.chunkSize < (a :: rest).length := Nat.lt_of_not_le hshort
        -- the last fragment is the space that follows the full stop
        have hfragments : recursiveSplit config separators (a :: rest) =
            (a :: (rest ++ ".  ".toList)).map fun c => [c] := by
          rw [recursiveSplit_unbroken hword hlong]
          simp
        rw [hfragments]
        by_cases hpair : config.chunkSize + config.chunkOverlap ≤ 2
        · refine iff_of_true ?_ (.inr hpair)
          exact unbroken_pushed (by omega) (by omega) ha _
        · refine iff_of_false ?_ (not_or.mpr ⟨hshort, hpair⟩)
          cases rest with
          | nil =>
              rw [List.length_singleton] at hlong
              omega
          | cons b rest =>
              obtain ⟨t, ht, hspace⟩ := @exists_pushed_space config (Nat.lt_of_not_le hpair) a b
                ha (hword b (by simp)) (rest ++ ".  ".toList)
              intro hall
              have hcontra := hall t ht ' ' hspace
              revert hcontra
              decide

/-- Eight characters in chunks of five. -/
theorem split_unbroken_url :
    (∀ piece ∈ split ⟨5, 1, by decide, by decide⟩ "eka.test".toList, ∀ c ∈ piece.text,
        isSpace c = false) ↔ "eka.test".toList.length ≤ 5 ∨ 5 + 1 ≤ 2 :=
  split_unbroken_iff ⟨5, 1, by decide, by decide⟩ (unbroken_of_all (by decide))

/-- They come out with a space between any two. -/
theorem split_unbroken_fails :
    (∀ c ∈ "eka.test".toList, isSpace c = false) ∧
      ¬ ∀ piece ∈ split ⟨5, 1, by decide, by decide⟩ "eka.test".toList, ∀ c ∈ piece.text,
        isSpace c = false := by
  refine ⟨unbroken_of_all (by decide), ?_⟩
  intro h
  have hfirst : (⟨0, "e k a".toList⟩ : TextPiece) ∈
      split ⟨5, 1, by decide, by decide⟩ "eka.test".toList := by decide
  have hspace := h _ hfirst ' ' (by decide)
  revert hspace
  decide

end RecursiveCharacterChunker

end Eka
