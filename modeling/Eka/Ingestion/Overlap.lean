import Eka.Ingestion.Coverage

/-!
# The overlap between chunks

Where a fragment comes from, and what becomes of a buffer: it is stripped and extended until it
is pushed, and no extension touches what it started with. So a chunk starts with the overlap that
the one before it left.
-/

namespace Eka

open Py

namespace RecursiveCharacterChunker

variable {config : ChunkingConfig}

/-! ## Where a fragment comes from -/

/-- The finest level is that of the characters. -/
theorem recursiveSplit_chars_level {text : Str}
    (hlong : config.chunkSize < text.length) :
    recursiveSplit config ["".toList] text = text.map fun c => [c] := by
  have hchar : ∀ c : Char, fragmentsOf config "".toList [] [c] = [[c]] := by
    intro c
    have hone : ¬ (pieceOf "".toList [c]).length > config.chunkSize :=
      Nat.not_lt.mpr config.sizePos
    unfold fragmentsOf
    simp only [hone, if_false]
    exact if_neg (List.cons_ne_nil _ _)
  rw [recursiveSplit_long hlong]
  show (text.map fun c => [c]).flatMap _ = _
  rw [List.flatMap_map]
  simp only [hchar]
  exact (List.map_eq_flatMap ..).symm

/-- A fragment that does not end in whitespace, and is more than a character, is a paragraph or a
    line: the levels below put a space at the end of what they cut. -/
theorem paragraph_or_line {text f : Str} (hlong : config.chunkSize < text.length)
    (hf : f ∈ recursiveSplit config separators text) (hcloses : Closes f) (hlength : 1 < f.length) :
    ∃ paragraph ∈ parts "\n\n".toList text, f = rstrip paragraph ∨
      ∃ line ∈ parts "\n".toList (rstrip paragraph), f = rstrip line := by
  obtain ⟨paragraph, hparagraph, hf⟩ := exists_part hlong hf
  rw [pieceOf_paragraph] at hf
  refine ⟨paragraph, hparagraph, ?_⟩
  rcases hf with ⟨rfl, -⟩ | ⟨hlong, hf⟩
  · exact .inl rfl
  obtain ⟨line, hline, hf⟩ := exists_part hlong hf
  rw [pieceOf_line] at hf
  rcases hf with ⟨rfl, -⟩ | ⟨hlong, hf⟩
  · exact .inr ⟨line, hline, rfl⟩
  have hspace : ∀ s : Str, ¬ Closes (s ++ " ".toList) := fun s h =>
    (h.of_append (by decide)).not_blank (by decide)
  obtain ⟨sentence, -, ⟨rfl, -⟩ | ⟨hlong, hf⟩⟩ := exists_part hlong hf
  · have hpiece : pieceOf ". ".toList sentence = (sentence ++ ".".toList) ++ " ".toList := by
      rw [List.append_assoc]
      rfl
    rw [hpiece] at hcloses
    exact absurd hcloses (hspace _)
  obtain ⟨word, -, ⟨rfl, -⟩ | ⟨hlong, hf⟩⟩ := exists_part hlong hf
  · exact absurd hcloses (hspace word)
  rw [recursiveSplit_chars_level hlong] at hf
  obtain ⟨c, -, rfl⟩ := List.mem_map.mp hf
  exact absurd hlength (Nat.lt_irrefl 1)

/-- A blank fragment comes from a sentence that does not fit into a chunk. -/
theorem long_sentence_of_blank {text f : Str} (hlong : config.chunkSize < text.length)
    (hf : f ∈ recursiveSplit config separators text) (hne : f ≠ []) (hblank : Blank f) :
    ∃ paragraph ∈ parts "\n\n".toList text, ∃ line ∈ parts "\n".toList (rstrip paragraph),
      ∃ sentence ∈ parts ". ".toList (rstrip line),
        config.chunkSize < (sentence ++ ". ".toList).length := by
  have hrstrip : ∀ s, f ≠ rstrip s := by
    rintro s rfl
    have hlast := getLast_rstrip hne
    rw [hblank _ (List.getLast_mem hne)] at hlast
    cases hlast
  obtain ⟨paragraph, hparagraph, hf⟩ := exists_part hlong hf
  rw [pieceOf_paragraph] at hf
  obtain ⟨hlong, hf⟩ := hf.resolve_left fun h => hrstrip paragraph h.1
  obtain ⟨line, hline, hf⟩ := exists_part hlong hf
  rw [pieceOf_line] at hf
  obtain ⟨hlong, hf⟩ := hf.resolve_left fun h => hrstrip line h.1
  obtain ⟨sentence, hsentence, hf⟩ := exists_part hlong hf
  refine ⟨paragraph, hparagraph, line, hline, sentence, hsentence, ?_⟩
  rcases hf with ⟨rfl, -⟩ | ⟨hlong, -⟩
  · -- a sentence has its full stop
    have hstop : isSpace '.' = true := hblank '.' (List.mem_append_right sentence (by decide))
    exact absurd hstop (by decide)
  · exact hlong

/-! ## The loop -/

/-- The chunks once the buffer is appended (`chunking.py:75-77`). -/
def pushed (state : List Str × Str) : List Str :=
  if state.2 ≠ [] then state.1 ++ [state.2] else state.1

/-- The packing loop on a list of fragments. -/
def stateAfter (config : ChunkingConfig) (fragments : List Str) : List Str × Str :=
  fragments.foldl (mergeStep config) ([], [])

theorem mergeWithOverlap_eq (config : ChunkingConfig) (fragments : List Str) :
    mergeWithOverlap config fragments = pushed (stateAfter config fragments) := rfl

theorem stateAfter_concat (config : ChunkingConfig) (fragments : List Str) (fragment : Str) :
    stateAfter config (fragments ++ [fragment]) =
      mergeStep config (stateAfter config fragments) fragment := List.foldl_concat ..

theorem stateAfter_append (config : ChunkingConfig) (front rest : List Str) :
    stateAfter config (front ++ rest) =
      rest.foldl (mergeStep config) (stateAfter config front) := List.foldl_append

/-! ## What an extension keeps -/

/-- An extension keeps what the buffer starts with, if that is stripped. -/
theorem prefix_extended {w current : Str} (hw : strip w = w) (h : w <+: current)
    (fragment : Str) : w <+: extended current fragment :=
  prefix_strip hw (h.trans (List.prefix_append _ _))

/-- A new buffer starts with what is left of the last one. -/
theorem strip_prefix_extended (s fragment : Str) : strip s <+: extended s fragment := by
  obtain ⟨front, back, hfront, -, hsplit⟩ := exists_strip s
  have hshape : extended s fragment = strip (strip s ++ (back ++ ' ' :: fragment)) := by
    unfold extended
    conv_lhs => rw [hsplit, List.append_assoc, List.append_assoc, strip_blank_append hfront]
  rw [hshape]
  exact prefix_strip (strip_strip s) (List.prefix_append _ _)

/-- Chunks stay. -/
theorem prefix_pushed (state : List Str × Str) : state.1 <+: pushed state := by
  unfold pushed
  split
  · exact List.prefix_append _ _
  · exact List.prefix_rfl

theorem prefix_pushed_foldl {fragments : List Str}
    (hfits : ∀ f ∈ fragments, f.length ≤ config.chunkSize) (state : List Str × Str) :
    state.1 <+: pushed (fragments.foldl (mergeStep config) state) := by
  induction fragments generalizing state with
  | nil => exact prefix_pushed state
  | cons f fragments ih =>
      have hrest := ih (fun g hg => hfits g (List.mem_cons_of_mem _ hg)) (mergeStep config state f)
      refine List.IsPrefix.trans ?_ hrest
      rcases mergeStep_cases state (fun _ => hfits f List.mem_cons_self) with
        ⟨-, hstep⟩ | ⟨-, -, hstep⟩ | ⟨-, -, hstep⟩
      · exact ⟨[], by rw [hstep, List.append_nil]⟩
      · exact ⟨[], by rw [hstep, List.append_nil]⟩
      · exact ⟨[state.2], by rw [hstep]⟩

/-- What a buffer starts with, stripped, is what a chunk starts with in the end. -/
theorem exists_pushed_prefix {w : Str} (hw : strip w = w) (hne : w ≠ []) {fragments : List Str}
    (hfits : ∀ f ∈ fragments, f.length ≤ config.chunkSize) {state : List Str × Str}
    (h : w <+: state.2 ∨ ∃ c ∈ state.1, w <+: c) :
    ∃ c ∈ pushed (fragments.foldl (mergeStep config) state), w <+: c := by
  induction fragments generalizing state with
  | nil =>
      rcases h with h | ⟨c, hc, h⟩
      · have hbuffer : state.2 ≠ [] := by
          intro hnil
          rw [hnil, List.prefix_nil] at h
          exact hne h
        refine ⟨state.2, ?_, h⟩
        show state.2 ∈ pushed state
        unfold pushed
        rw [if_pos hbuffer]
        exact List.mem_append_right _ List.mem_cons_self
      · exact ⟨c, (prefix_pushed state).subset hc, h⟩
  | cons f fragments ih =>
      refine ih (fun g hg => hfits g (List.mem_cons_of_mem _ hg)) ?_
      rcases mergeStep_cases state (fun _ => hfits f List.mem_cons_self) with
        ⟨hnil, hstep⟩ | ⟨-, -, hstep⟩ | ⟨-, -, hstep⟩
      · rw [hstep]
        rcases h with h | h
        · rw [hnil, List.prefix_nil] at h
          exact absurd h hne
        · exact .inr h
      · rw [hstep]
        rcases h with h | h
        · exact .inl (prefix_extended hw h f)
        · exact .inr h
      · rw [hstep]
        right
        rcases h with h | ⟨c, hc, h⟩
        · exact ⟨state.2, List.mem_append_right _ List.mem_cons_self, h⟩
        · exact ⟨c, List.mem_append_left _ hc, h⟩

/-- A chunk starts with the overlap that the one before it leaves. -/
def Follows (config : ChunkingConfig) (c d : Str) : Prop := strip (tail config c) <+: d

theorem mergeStep_follows {state : List Str × Str} {fragment : Str}
    (h : (state.1 ++ [state.2]).IsChain (Follows config))
    (hfits : fragment.length ≤ config.chunkSize) :
    ((mergeStep config state fragment).1 ++ [(mergeStep config state fragment).2]).IsChain
      (Follows config) := by
  obtain ⟨hchunks, -, hlast⟩ := List.isChain_append.mp h
  -- a longer buffer follows the last chunk if the buffer did
  have hgrow : ∀ current : Str, (∀ w, strip w = w → w <+: state.2 → w <+: current) →
      (state.1 ++ [current]).IsChain (Follows config) := by
    intro current hkeeps
    refine List.isChain_append.mpr ⟨hchunks, List.isChain_singleton _, ?_⟩
    intro c hc d hd
    obtain rfl : current = d := by simpa using hd
    exact hkeeps _ (strip_strip _) (hlast c hc state.2 rfl)
  rcases mergeStep_cases state (fun _ => hfits) with ⟨hnil, hstep⟩ | ⟨-, -, hstep⟩ | ⟨-, -, hstep⟩
  · rw [hstep]
    refine hgrow fragment ?_
    intro w _ hw
    rw [hnil, List.prefix_nil] at hw
    rw [hw]
    exact List.nil_prefix
  · rw [hstep]
    exact hgrow _ fun w hstrip hw => prefix_extended hstrip hw fragment
  · rw [hstep]
    refine List.isChain_append.mpr ⟨h, List.isChain_singleton _, ?_⟩
    intro c hc d hd
    obtain rfl : state.2 = c := by simpa using hc
    obtain rfl : _ = d := by simpa using hd
    exact strip_prefix_extended _ fragment

theorem mergeWithOverlap_follows {fragments : List Str}
    (hfits : ∀ f ∈ fragments, f.length ≤ config.chunkSize) :
    (mergeWithOverlap config fragments).IsChain (Follows config) := by
  have hstate : ((stateAfter config fragments).1 ++ [(stateAfter config fragments).2]).IsChain
      (Follows config) := by
    induction fragments using List.reverseRecOn with
    | nil => exact List.isChain_singleton _
    | append_singleton fs f ih =>
        rw [stateAfter_concat]
        exact mergeStep_follows (ih fun g hg => hfits g (List.mem_append_left _ hg))
          (hfits f (List.mem_append_right _ List.mem_cons_self))
  rw [mergeWithOverlap_eq]
  unfold pushed
  split
  · exact hstate
  · exact hstate.left_of_append

/-- The last characters of a chunk, as `_tail` takes them. -/
theorem tail_eq_drop (config : ChunkingConfig) (s : Str) :
    tail config s = s.drop (s.length - min config.chunkOverlap s.length) := by
  unfold tail
  split
  · next hzero =>
      rw [hzero, Nat.zero_min, Nat.sub_zero, List.drop_length]
  · congr 1
    omega

/-- The overlap is carried across every chunk edge: of two consecutive chunks, the second starts
    with the last characters of the first, stripped. -/
theorem split_overlap (config : ChunkingConfig) (text : Str) :
    ((split config text).map (·.text)).IsChain fun c d =>
      strip (c.drop (c.length - min config.chunkOverlap c.length)) <+: d := by
  have hfollows : (splitTexts config text).IsChain (Follows config) := by
    by_cases hnil : strip text = []
    · rw [show splitTexts config text = [] from if_pos hnil]
      exact List.isChain_nil
    · rw [splitTexts_of_ne_nil hnil]
      exact mergeWithOverlap_follows fun f hf =>
        (recursiveSplit_fits reachesChars_separators hnil f hf).2
  rw [map_text_split]
  refine hfollows.imp fun c d h => ?_
  rw [← tail_eq_drop]
  exact h

end RecursiveCharacterChunker

end Eka
