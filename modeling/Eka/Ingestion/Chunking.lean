import Eka.Shared.Base

/-!
# Recursive character chunker

`ingestion/domain/chunking.py`. The text is split on progressively finer
separators and the fragments are packed up to a target size with a fixed overlap.

Every piece that `split` returns has a non-whitespace character, which is what
`ChunkText` checks. Blank fragments do occur, so the packing loop carries an
invariant: its buffer is never blank, and a buffer that has outgrown `chunk_size`
is stripped and comes with a positive overlap, hence has a non-blank tail.
-/

namespace Eka

open Py

/-- `_SEPARATORS` (`chunking.py:17`). -/
def separators : List Str := ["\n\n".toList, "\n".toList, ". ".toList, " ".toList, "".toList]

/-- `ChunkingConfig` (`chunking.py:20-29`), with what `__post_init__` checks. -/
structure ChunkingConfig where
  chunkSize : Nat
  chunkOverlap : Nat
  sizePos : 0 < chunkSize
  overlapLt : chunkOverlap < chunkSize
  deriving DecidableEq, Repr

/-- The constructor call, on any two integers. -/
def ChunkingConfig.make (chunkSize chunkOverlap : Int) : Except Error ChunkingConfig :=
  if hs : chunkSize ≤ 0 then .error (.validationError "chunk_size must be positive".toList)
  else if ho : chunkOverlap < 0 ∨ chunkOverlap ≥ chunkSize then
    .error (.validationError "chunk_overlap must be in [0, chunk_size)".toList)
  else .ok ⟨chunkSize.toNat, chunkOverlap.toNat, by omega, by omega⟩

/-- `ChunkingConfig()`: the defaults. -/
def ChunkingConfig.default : ChunkingConfig := ⟨800, 120, by decide, by decide⟩

/-- `TextPiece` (`ingestion/domain/chunk.py:74-79`). -/
structure TextPiece where
  ordinal : Nat
  text : Str
  deriving DecidableEq, Repr

namespace RecursiveCharacterChunker

/-- `list(text) if separator == "" else text.split(separator)` (`chunking.py:48`). -/
def parts (separator text : Str) : List Str :=
  if separator = [] then text.map fun c => [c] else Py.split separator text

/-- The part with its separator put back, stripped on the right at the paragraph and the line
    level (`chunking.py:51-52`). -/
def pieceOf (separator part : Str) : Str :=
  let piece := if separator = [] then part else part ++ separator
  if separator = "\n\n".toList ∨ separator = "\n".toList then rstrip piece else piece

/-- `_recursive_split` (`chunking.py:44-59`); `sep_index` is given by the separators from it
    on. -/
def recursiveSplit (config : ChunkingConfig) : List Str → Str → List Str
  | [], text => [text]
  | separator :: finer, text =>
      if text.length ≤ config.chunkSize then [text]
      else
        (parts separator text).flatMap fun part =>
          let piece := pieceOf separator part
          if piece = [] then []
          else if piece.length > config.chunkSize then recursiveSplit config finer piece
          else [piece]

/-- `_tail` (`chunking.py:79-82`); the slice takes the whole of a shorter text. -/
def tail (config : ChunkingConfig) (text : Str) : Str :=
  if config.chunkOverlap = 0 then [] else text.drop (text.length - config.chunkOverlap)

/-- One iteration of the packing loop (`chunking.py:64-74`) on the chunks so far and the
    buffer. -/
def mergeStep (config : ChunkingConfig) (state : List Str × Str) (fragment : Str) :
    List Str × Str :=
  let (chunks, current) := state
  let candidate := if current ≠ [] then strip (current ++ ' ' :: fragment) else fragment
  if candidate.length ≤ config.chunkSize then (chunks, candidate)
  else if current ≠ [] then
    (chunks ++ [current], strip (tail config current ++ ' ' :: fragment))
  else
    (chunks ++ [fragment.take config.chunkSize],
      fragment.drop (config.chunkSize - config.chunkOverlap))

/-- `_merge_with_overlap` (`chunking.py:61-77`). -/
def mergeWithOverlap (config : ChunkingConfig) (fragments : List Str) : List Str :=
  let (chunks, current) := fragments.foldl (mergeStep config) ([], [])
  if current ≠ [] then chunks ++ [current] else chunks

/-- The chunk texts of `split`, before they are numbered. -/
def splitTexts (config : ChunkingConfig) (text : Str) : List Str :=
  let normalized := strip text
  if normalized = [] then []
  else mergeWithOverlap config (recursiveSplit config separators normalized)

/-- `split` (`chunking.py:36-42`). -/
def split (config : ChunkingConfig) (text : Str) : List TextPiece :=
  (splitTexts config text).mapIdx fun i t => ⟨i, t⟩

example : split ⟨10, 3, by decide, by decide⟩ "one two three".toList =
    [⟨0, "one  two".toList⟩, ⟨1, "two three.".toList⟩] := by decide

/-! ## Fragments -/

variable {config : ChunkingConfig}

/-- The fragments that one part of a text that is too long ends up in. -/
def fragmentsOf (config : ChunkingConfig) (separator : Str) (finer : List Str) (part : Str) :
    List Str :=
  let piece := pieceOf separator part
  if piece = [] then []
  else if piece.length > config.chunkSize then recursiveSplit config finer piece
  else [piece]

theorem recursiveSplit_long {separator : Str} {finer : List Str} {text : Str}
    (hlong : config.chunkSize < text.length) :
    recursiveSplit config (separator :: finer) text =
      (parts separator text).flatMap (fragmentsOf config separator finer) := by
  rw [recursiveSplit, if_neg hlong.not_ge]
  rfl

theorem recursiveSplit_short {seps : List Str} {text : Str}
    (hshort : text.length ≤ config.chunkSize) : recursiveSplit config seps text = [text] := by
  cases seps with
  | nil => rfl
  | cons separator finer => rw [recursiveSplit, if_pos hshort]

theorem mem_fragmentsOf {separator : Str} {finer : List Str} {part f : Str} :
    f ∈ fragmentsOf config separator finer part ↔
      (f = pieceOf separator part ∧ f ≠ [] ∧ f.length ≤ config.chunkSize) ∨
        config.chunkSize < (pieceOf separator part).length ∧
          f ∈ recursiveSplit config finer (pieceOf separator part) := by
  unfold fragmentsOf
  simp only
  split
  · next hempty =>
      rw [hempty]
      constructor
      · intro h
        cases h
      · rintro (⟨rfl, hne, -⟩ | ⟨hlong, -⟩)
        · exact absurd rfl hne
        · exact absurd hlong (Nat.not_lt_zero _)
  · next hne =>
      split
      · next hlong =>
          constructor
          · exact fun h => .inr ⟨hlong, h⟩
          · rintro (⟨rfl, -, hle⟩ | ⟨-, h⟩)
            · exact absurd hlong hle.not_gt
            · exact h
      · next hshort =>
          rw [List.mem_singleton]
          constructor
          · rintro rfl
            exact .inl ⟨rfl, hne, Nat.le_of_not_lt hshort⟩
          · rintro (⟨rfl, -⟩ | ⟨hlong, -⟩)
            · rfl
            · exact absurd hlong hshort

/-- A fragment of a long text is one of its pieces, or a fragment of one that is too long. -/
theorem exists_part {separator : Str} {finer : List Str} {text f : Str}
    (hlong : config.chunkSize < text.length)
    (hf : f ∈ recursiveSplit config (separator :: finer) text) :
    ∃ part ∈ parts separator text,
      (f = pieceOf separator part ∧ f ≠ [] ∧ f.length ≤ config.chunkSize) ∨
        config.chunkSize < (pieceOf separator part).length ∧
          f ∈ recursiveSplit config finer (pieceOf separator part) := by
  rw [recursiveSplit_long hlong] at hf
  obtain ⟨part, hpart, hf⟩ := List.mem_flatMap.mp hf
  exact ⟨part, hpart, mem_fragmentsOf.mp hf⟩

/-- The separators go down to single characters. -/
def ReachesChars (seps : List Str) : Prop := ∃ h : seps ≠ [], seps.getLast h = []

theorem reachesChars_separators : ReachesChars separators := ⟨by decide, by decide⟩

/-- Every fragment is non-empty and fits into a chunk. -/
theorem recursiveSplit_fits {seps : List Str} (hseps : ReachesChars seps) :
    ∀ {text : Str}, text ≠ [] → ∀ f ∈ recursiveSplit config seps text,
      f ≠ [] ∧ f.length ≤ config.chunkSize := by
  induction seps with
  | nil => exact absurd rfl hseps.choose
  | cons separator finer ih =>
      intro text htext f hf
      by_cases hlong : config.chunkSize < text.length
      · obtain ⟨part, hpart, ⟨-, hne, hle⟩ | ⟨hlong', hf⟩⟩ := exists_part hlong hf
        · exact ⟨hne, hle⟩
        by_cases hfiner : finer = []
        · -- the last separator is the empty one, whose parts are single characters
          subst hfiner
          obtain ⟨_, hlast⟩ := hseps
          obtain rfl : separator = [] := by simpa using hlast
          simp only [parts, if_true, List.mem_map] at hpart
          obtain ⟨c, _, rfl⟩ := hpart
          exact absurd hlong' (Nat.not_lt.mpr config.sizePos)
        · refine ih ⟨hfiner, ?_⟩ (List.ne_nil_of_length_pos (Nat.zero_lt_of_lt hlong')) f hf
          obtain ⟨_, hlast⟩ := hseps
          rwa [List.getLast_cons hfiner] at hlast
      · rw [recursiveSplit_short (Nat.le_of_not_lt hlong)] at hf
        rw [List.mem_singleton.mp hf]
        exact ⟨htext, Nat.le_of_not_lt hlong⟩

/-- The first piece starts like the text it is cut from. -/
theorem parts_head (separator : Str) (c : Char) (cs : Str) (hc : isSpace c = false) :
    ∃ part rest tl, parts separator (c :: cs) = part :: rest ∧
      pieceOf separator part = c :: tl := by
  have rstrip_cons : ∀ s : Str, ∃ tl, rstrip (c :: s) = c :: tl := by
    intro s
    have hpre : rstrip (c :: s) <+: c :: s := List.rdropWhile_prefix isSpace _
    cases hr : rstrip (c :: s) with
    | nil =>
        have := List.rdropWhile_eq_nil_iff.mp hr c List.mem_cons_self
        rw [hc] at this
        cases this
    | cons d tl =>
        rw [hr] at hpre
        obtain ⟨rfl, _⟩ := List.cons_prefix_cons.mp hpre
        exact ⟨tl, rfl⟩
  have pieceOf_cons : ∀ s part, (if separator = [] then part else part ++ separator) = c :: s →
      ∃ tl, pieceOf separator part = c :: tl := by
    intro s part h
    unfold pieceOf
    simp only [h]
    split
    · exact rstrip_cons s
    · exact ⟨s, rfl⟩
  by_cases hsep : separator = []
  · obtain ⟨tl, htl⟩ := pieceOf_cons [] [c] (if_pos hsep)
    refine ⟨[c], cs.map fun c => [c], tl, ?_, htl⟩
    unfold parts
    rw [if_pos hsep]
    rfl
  · have hparts : parts separator (c :: cs) = splitSkip separator 0 (c :: cs) := if_neg hsep
    rw [hparts, splitSkip]
    split
    · next hprefix =>
        -- the text starts with the separator, so the first part is empty
        obtain ⟨d, ds, rfl⟩ := List.exists_cons_of_ne_nil hsep
        obtain ⟨rfl, _⟩ := List.cons_prefix_cons.mp (List.isPrefixOf_iff_prefix.mp hprefix)
        obtain ⟨tl, htl⟩ := pieceOf_cons ds [] (if_neg hsep)
        exact ⟨[], _, tl, rfl, htl⟩
    · cases hrest : splitSkip separator 0 cs with
      | nil => exact absurd hrest (splitSkip_ne_nil _ _ _)
      | cons part rest =>
          obtain ⟨tl, htl⟩ := pieceOf_cons (part ++ separator) (c :: part) (if_neg hsep)
          exact ⟨c :: part, rest, tl, rfl, htl⟩

/-- The first fragment starts like the text, so it is not blank. -/
theorem recursiveSplit_head {seps : List Str} {c : Char} (hc : isSpace c = false) :
    ∀ cs : Str, ∃ tl rest, recursiveSplit config seps (c :: cs) = (c :: tl) :: rest := by
  induction seps with
  | nil => intro cs; exact ⟨cs, [], rfl⟩
  | cons separator finer ih =>
      intro cs
      unfold recursiveSplit
      split
      · exact ⟨cs, [], rfl⟩
      · obtain ⟨part, others, tl, hparts, hpiece⟩ := parts_head separator c cs hc
        rw [hparts, List.flatMap_cons]
        simp only [hpiece, List.cons_ne_nil, if_false]
        split
        · obtain ⟨tl', rest, hrec⟩ := ih tl
          rw [hrec]
          exact ⟨tl', _, rfl⟩
        · exact ⟨tl, _, rfl⟩

/-! ## Packing -/

/-- The buffer with one more fragment. -/
def extended (current fragment : Str) : Str := strip (current ++ ' ' :: fragment)

/-- The first fragment becomes the buffer. -/
theorem mergeStep_first {fragment : Str} (hfits : fragment.length ≤ config.chunkSize)
    (chunks : List Str) : mergeStep config (chunks, []) fragment = (chunks, fragment) :=
  if_pos hfits

/-- A fragment that the buffer has room for. -/
theorem mergeStep_fits {chunks : List Str} {current fragment : Str} (hcurrent : current ≠ [])
    (hroom : (extended current fragment).length ≤ config.chunkSize) :
    mergeStep config (chunks, current) fragment = (chunks, extended current fragment) := by
  unfold mergeStep
  simp only [hcurrent, ne_eq, not_false_eq_true, if_true]
  exact if_pos hroom

/-- A fragment that it has none for. -/
theorem mergeStep_cut {chunks : List Str} {current fragment : Str} (hcurrent : current ≠ [])
    (hfull : config.chunkSize < (extended current fragment).length) :
    mergeStep config (chunks, current) fragment =
      (chunks ++ [current], extended (tail config current) fragment) := by
  unfold mergeStep
  simp only [hcurrent, ne_eq, not_false_eq_true, if_true]
  exact if_neg (Nat.not_le.mpr hfull)

/-- What an iteration can do, where a fragment that comes first fits. -/
theorem mergeStep_cases (state : List Str × Str) {fragment : Str}
    (hfirst : state.2 = [] → fragment.length ≤ config.chunkSize) :
    (state.2 = [] ∧ mergeStep config state fragment = (state.1, fragment)) ∨
      (state.2 ≠ [] ∧ (extended state.2 fragment).length ≤ config.chunkSize ∧
        mergeStep config state fragment = (state.1, extended state.2 fragment)) ∨
      (state.2 ≠ [] ∧ config.chunkSize < (extended state.2 fragment).length ∧
        mergeStep config state fragment =
          (state.1 ++ [state.2], extended (tail config state.2) fragment)) := by
  obtain ⟨chunks, current⟩ := state
  by_cases hcurrent : current = []
  · left
    subst hcurrent
    exact ⟨rfl, mergeStep_first (hfirst rfl) chunks⟩
  · right
    by_cases hroom : (extended current fragment).length ≤ config.chunkSize
    · exact .inl ⟨hcurrent, hroom, mergeStep_fits hcurrent hroom⟩
    · have hfull := Nat.lt_of_not_le hroom
      exact .inr ⟨hcurrent, hfull, mergeStep_cut hcurrent hfull⟩

/-- The invariant of the packing loop once the first fragment is in. -/
structure Packed (config : ChunkingConfig) (state : List Str × Str) : Prop where
  chunks : ∀ c ∈ state.1, ¬ Blank c
  buffer : ¬ Blank state.2
  oversize : config.chunkSize < state.2.length →
    0 < config.chunkOverlap ∧ ∀ h : state.2 ≠ [], isSpace (state.2.getLast h) = false

theorem not_blank_ne_nil {s : Str} (h : ¬ Blank s) : s ≠ [] := by
  rintro rfl
  exact h (by simp [Blank])

/-- The tail of a buffer that does not end in whitespace is not blank. -/
theorem not_blank_tail {s : Str} (hoverlap : 0 < config.chunkOverlap) (hs : s ≠ [])
    (hlast : isSpace (s.getLast hs) = false) : ¬ Blank (tail config s) := by
  have hpos : 0 < s.length := List.length_pos_iff.mpr hs
  have hlt : s.length - config.chunkOverlap < s.length := by omega
  unfold tail
  rw [if_neg (by omega)]
  intro hblank
  have hne : s.drop (s.length - config.chunkOverlap) ≠ [] := by
    simpa using hlt
  have := hblank _ (List.getLast_mem hne)
  rw [List.getLast_drop, hlast] at this
  cases this

theorem not_blank_extended {s t : Str} (h : ¬ Blank s ∨ ¬ Blank t) : ¬ Blank (extended s t) := by
  unfold extended
  rw [not_blank_strip, blank_append, blank_cons]
  rintro ⟨hs, -, ht⟩
  rcases h with h | h
  · exact h hs
  · exact h ht

theorem extended_blank {fragment : Str} (h : Blank fragment) (s : Str) :
    extended s fragment = strip s :=
  strip_append_blank s (blank_cons.mpr ⟨rfl, h⟩)

/-- A blank fragment makes no buffer longer. -/
theorem length_extended_blank {s t : Str} (ht : Blank t) : (extended s t).length ≤ s.length := by
  rw [extended_blank ht]
  exact length_strip_le s

theorem mergeStep_packed {state : List Str × Str} {fragment : Str} (h : Packed config state)
    (hfits : fragment.length ≤ config.chunkSize) :
    Packed config (mergeStep config state fragment) := by
  have hcur : state.2 ≠ [] := not_blank_ne_nil h.buffer
  rcases mergeStep_cases state (fun _ => hfits) with
    ⟨hnil, -⟩ | ⟨-, hroom, hstep⟩ | ⟨-, hfull, hstep⟩
  · exact absurd hnil hcur
  · rw [hstep]
    exact ⟨h.chunks, not_blank_extended (.inl h.buffer), fun hlt => absurd hlt hroom.not_gt⟩
  · rw [hstep]
    have hchunks : ∀ c ∈ state.1 ++ [state.2], ¬ Blank c := by
      intro c hc
      rcases List.mem_append.mp hc with hc | hc
      · exact h.chunks c hc
      · rw [List.mem_singleton.mp hc]; exact h.buffer
    refine ⟨hchunks, ?_, ?_⟩
    · -- a blank fragment cannot make the buffer too long: the buffer was, and has a tail
      refine not_blank_extended ?_
      by_cases hblank : Blank fragment
      · obtain ⟨hoverlap, hlast⟩ := h.oversize (hfull.trans_le (length_extended_blank hblank))
        exact .inl (not_blank_tail hoverlap hcur (hlast hcur))
      · exact .inr hblank
    · intro hlt
      refine ⟨?_, fun hne => getLast_strip hne⟩
      by_contra hzero
      have htail : tail config state.2 = [] := if_pos (by omega)
      simp only [htail, extended, List.nil_append] at hlt
      have hdrop : strip (' ' :: fragment) = strip fragment := by
        unfold strip
        rw [List.dropWhile_cons_of_pos (by rfl)]
      rw [hdrop] at hlt
      have := length_strip_le fragment
      omega

/-- No piece of a text is blank. -/
theorem splitTexts_not_blank (config : ChunkingConfig) (text : Str) :
    ∀ t ∈ splitTexts config text, ¬ Blank t := by
  by_cases hnil : strip text = []
  · simp [splitTexts, hnil]
  have hfits := @recursiveSplit_fits config _ reachesChars_separators _ hnil
  obtain ⟨c, cs, hcs⟩ := List.exists_cons_of_ne_nil hnil
  have hc : isSpace c = false := by
    have := head_strip hnil
    simpa [hcs] using this
  obtain ⟨tl, rest, hrec⟩ := @recursiveSplit_head config separators _ hc cs
  rw [hcs, hrec] at hfits
  have hfirst : Packed config (mergeStep config ([], []) (c :: tl)) := by
    have hle : (c :: tl).length ≤ config.chunkSize := (hfits _ List.mem_cons_self).2
    rw [mergeStep_first hle]
    refine ⟨by simp, ?_, fun hlt => absurd hlt hle.not_gt⟩
    intro hblank
    have := hblank c List.mem_cons_self
    rw [hc] at this
    cases this
  have hall : Packed config (rest.foldl (mergeStep config)
      (mergeStep config ([], []) (c :: tl))) := by
    refine List.foldlRecOn rest (mergeStep config) hfirst ?_
    intro state hstate fragment hfragment
    exact mergeStep_packed hstate (hfits fragment (List.mem_cons_of_mem _ hfragment)).2
  have htexts : splitTexts config text =
      (rest.foldl (mergeStep config) (mergeStep config ([], []) (c :: tl))).1 ++
        [(rest.foldl (mergeStep config) (mergeStep config ([], []) (c :: tl))).2] := by
    unfold splitTexts mergeWithOverlap
    simp only [hcs, List.cons_ne_nil, if_false, hrec, List.foldl_cons]
    exact if_pos (not_blank_ne_nil hall.buffer)
  intro t ht
  rw [htexts] at ht
  rcases List.mem_append.mp ht with ht | ht
  · exact hall.chunks t ht
  · rw [List.mem_singleton.mp ht]; exact hall.buffer

theorem split_not_blank (config : ChunkingConfig) (text : Str) :
    ∀ piece ∈ split config text, ¬ Blank piece.text := by
  intro piece hpiece
  obtain ⟨i, hi, rfl⟩ := List.mem_mapIdx.mp hpiece
  exact splitTexts_not_blank config text _ (List.getElem_mem hi)

/-- The pieces are numbered from 0 in order. -/
theorem split_ordinals (config : ChunkingConfig) (text : Str) :
    (split config text).map (·.ordinal) = List.range (split config text).length := by
  apply List.ext_getElem
  · simp
  · intro i _ _
    simp [split]

/-! ## Characters -/

section Characters

variable {P : Char → Prop}

theorem mem_splitSkip {sep part : Str} {c : Char} :
    ∀ (k : Nat) {s : Str}, part ∈ splitSkip sep k s → c ∈ part → c ∈ s := by
  intro k s
  induction s generalizing k part with
  | nil =>
      intro hpart hc
      simp only [splitSkip, List.mem_singleton] at hpart
      rw [hpart] at hc
      cases hc
  | cons d ds ih =>
      intro hpart hc
      cases k with
      | succ k => exact List.mem_cons_of_mem _ (ih k hpart hc)
      | zero =>
          unfold splitSkip at hpart
          split at hpart
          · rcases List.mem_cons.mp hpart with rfl | hpart
            · cases hc
            · exact List.mem_cons_of_mem _ (ih _ hpart hc)
          · cases hrest : splitSkip sep 0 ds with
            | nil => exact absurd hrest (splitSkip_ne_nil sep 0 ds)
            | cons first others =>
                rw [hrest, consHead] at hpart
                rcases List.mem_cons.mp hpart with rfl | hpart
                · rcases List.mem_cons.mp hc with rfl | hc
                  · exact List.mem_cons_self
                  · exact List.mem_cons_of_mem _ (ih 0 (by rw [hrest]; exact List.mem_cons_self) hc)
                · exact List.mem_cons_of_mem _
                    (ih 0 (by rw [hrest]; exact List.mem_cons_of_mem _ hpart) hc)

theorem mem_parts {separator text part : Str} {c : Char} (hpart : part ∈ parts separator text)
    (hc : c ∈ part) : c ∈ text := by
  unfold parts at hpart
  split at hpart
  · obtain ⟨d, hd, rfl⟩ := List.mem_map.mp hpart
    rwa [List.mem_singleton.mp hc]
  · exact mem_splitSkip 0 hpart hc

theorem mem_pieceOf {separator part : Str} {c : Char} (hc : c ∈ pieceOf separator part) :
    c ∈ part ∨ c ∈ separator := by
  have hpiece : c ∈ (if separator = [] then part else part ++ separator) := by
    unfold pieceOf at hc
    simp only at hc
    split at hc
    · exact (List.rdropWhile_prefix isSpace _).subset hc
    · exact hc
  split at hpiece
  · exact .inl hpiece
  · exact List.mem_append.mp hpiece

/-- A property of characters that the separators have and the text has, the fragments have. -/
theorem recursiveSplit_chars {seps : List Str} (hseps : ∀ sep ∈ seps, ∀ c ∈ sep, P c) :
    ∀ {text : Str}, (∀ c ∈ text, P c) →
      ∀ f ∈ recursiveSplit config seps text, ∀ c ∈ f, P c := by
  induction seps with
  | nil =>
      intro text htext f hf
      rw [List.mem_singleton.mp hf]
      exact htext
  | cons separator finer ih =>
      intro text htext f hf
      by_cases hlong : config.chunkSize < text.length
      · obtain ⟨part, hpart, hf⟩ := exists_part hlong hf
        have hpiece : ∀ c ∈ pieceOf separator part, P c := by
          intro c hc
          rcases mem_pieceOf hc with hc | hc
          · exact htext c (mem_parts hpart hc)
          · exact hseps separator List.mem_cons_self c hc
        rcases hf with ⟨rfl, -⟩ | ⟨-, hf⟩
        · exact hpiece
        · exact ih (fun sep hsep => hseps sep (List.mem_cons_of_mem _ hsep)) hpiece f hf
      · rw [recursiveSplit_short (Nat.le_of_not_lt hlong)] at hf
        rw [List.mem_singleton.mp hf]
        exact htext

theorem strip_chars {s : Str} (h : ∀ c ∈ s, P c) : ∀ c ∈ strip s, P c := by
  intro c hc
  have hc' := (List.rdropWhile_prefix isSpace _).subset hc
  exact h c ((List.dropWhile_suffix _).subset hc')

theorem mergeStep_chars (hspace : P ' ') {state : List Str × Str} {fragment : Str}
    (hstate : (∀ t ∈ state.1, ∀ c ∈ t, P c) ∧ ∀ c ∈ state.2, P c)
    (hfragment : ∀ c ∈ fragment, P c) :
    (∀ t ∈ (mergeStep config state fragment).1, ∀ c ∈ t, P c) ∧
      ∀ c ∈ (mergeStep config state fragment).2, P c := by
  obtain ⟨chunks, current⟩ := state
  obtain ⟨hchunks, hcurrent⟩ := hstate
  have hjoin : ∀ prior : Str, (∀ c ∈ prior, P c) →
      ∀ c ∈ strip (prior ++ ' ' :: fragment), P c := by
    intro prior hprior
    refine strip_chars ?_
    intro c hc
    rcases List.mem_append.mp hc with hc | hc
    · exact hprior c hc
    · rcases List.mem_cons.mp hc with rfl | hc
      · exact hspace
      · exact hfragment c hc
  have htail : ∀ c ∈ tail config current, P c := by
    intro c hc
    unfold tail at hc
    split at hc
    · cases hc
    · exact hcurrent c (List.mem_of_mem_drop hc)
  have hmore : ∀ last : Str, (∀ c ∈ last, P c) → ∀ t ∈ chunks ++ [last], ∀ c ∈ t, P c := by
    intro last hlast t ht
    rcases List.mem_append.mp ht with ht | ht
    · exact hchunks t ht
    · rw [List.mem_singleton.mp ht]
      exact hlast
  unfold mergeStep
  by_cases hcur : current ≠ []
  · simp only [hcur, ne_eq, not_false_eq_true, if_true]
    split
    · exact ⟨hchunks, hjoin current hcurrent⟩
    · exact ⟨hmore current hcurrent, hjoin _ htail⟩
  · simp only [hcur, if_false]
    split
    · exact ⟨hchunks, hfragment⟩
    · exact ⟨hmore _ fun c hc => hfragment c (List.mem_of_mem_take hc),
        fun c hc => hfragment c (List.mem_of_mem_drop hc)⟩

/-- The pieces are made of characters of the text and of the separators. -/
theorem splitTexts_chars {text : Str} (hseps : ∀ sep ∈ separators, ∀ c ∈ sep, P c)
    (htext : ∀ c ∈ text, P c) : ∀ t ∈ splitTexts config text, ∀ c ∈ t, P c := by
  have hspace : P ' ' := hseps " ".toList (by decide) ' ' (by decide)
  unfold splitTexts
  simp only
  split
  · intro t ht
    cases ht
  · have hfragments := @recursiveSplit_chars config _ _ hseps _ (strip_chars htext)
    have hall := List.foldlRecOn (recursiveSplit config separators (strip text))
      (mergeStep config)
      (motive := fun state => (∀ t ∈ state.1, ∀ c ∈ t, P c) ∧ ∀ c ∈ state.2, P c)
      (b := ([], [])) ⟨by simp, by simp⟩
      fun state hstate fragment hmem => mergeStep_chars hspace hstate (hfragments fragment hmem)
    unfold mergeWithOverlap
    intro t ht
    simp only at ht
    split at ht
    · rcases List.mem_append.mp ht with ht | ht
      · exact hall.1 t ht
      · rw [List.mem_singleton.mp ht]
        exact hall.2
    · exact hall.1 t ht

theorem split_chars {text : Str} (hseps : ∀ sep ∈ separators, ∀ c ∈ sep, P c)
    (htext : ∀ c ∈ text, P c) : ∀ piece ∈ split config text, ∀ c ∈ piece.text, P c := by
  intro piece hpiece
  obtain ⟨i, hi, rfl⟩ := List.mem_mapIdx.mp hpiece
  exact splitTexts_chars hseps htext _ (List.getElem_mem hi)

end Characters

end RecursiveCharacterChunker

end Eka
