import Eka.Ingestion.Overlap

/-!
# The hard cut

The packing loop cuts a fragment in two where it stands alone and does not fit. Every fragment
fits, since the separators go down to single characters, so the loop never does; and in every
other iteration the text stays whole.
-/

namespace Eka

open Py

namespace RecursiveCharacterChunker

variable {config : ChunkingConfig}

/-- The fragments that `split` passes on (`chunking.py:37-40`). -/
def fragments (config : ChunkingConfig) (text : Str) : List Str :=
  if strip text = [] then [] else recursiveSplit config separators (strip text)

theorem splitTexts_eq (config : ChunkingConfig) (text : Str) :
    splitTexts config text = mergeWithOverlap config (fragments config text) := by
  unfold fragments
  by_cases hnil : strip text = []
  · rw [if_pos hnil]
    exact if_pos hnil
  · rw [if_neg hnil]
    exact if_neg hnil

/-- The last branch of the loop (`chunking.py:72-74`): nothing is in the buffer, and the fragment
    does not fit. -/
def HardCut (config : ChunkingConfig) (state : List Str × Str) (fragment : Str) : Prop :=
  state.2 = [] ∧ config.chunkSize < fragment.length

/-- Text stays whole from one state to the next, whitespace at the ends aside: a chunk that is
    added is all of the buffer, one that is not is how the next buffer starts, and the fragment is
    in the next buffer. -/
structure KeepsText (state : List Str × Str) (fragment : Str) (next : List Str × Str) : Prop where
  buffer : next.1 = state.1 ++ [state.2] ∨ next.1 = state.1 ∧ strip state.2 <+: next.2
  fragment : strip fragment <:+: next.2

/-! ## One iteration -/

/-- A fragment is the end of the buffer that it is added to. -/
theorem strip_suffix_extended (s fragment : Str) : strip fragment <:+ extended s fragment := by
  by_cases hblank : Blank fragment
  · rw [strip_eq_nil_iff.mpr hblank]
    exact List.nil_suffix
  obtain ⟨front, back, -, hback, hsplit⟩ := exists_strip fragment
  have hne : strip fragment ≠ [] := strip_ne_nil_iff.mpr hblank
  have hshape : extended s fragment = strip ((s ++ ' ' :: front) ++ strip fragment) := by
    rw [← strip_append_blank ((s ++ ' ' :: front) ++ strip fragment) hback]
    unfold extended
    conv_lhs => rw [hsplit]
    simp only [List.append_assoc, List.cons_append]
  rw [hshape]
  exact suffix_strip (List.suffix_append _ _) hne (head_strip hne) (getLast_strip hne)

/-- What the hard cut does. -/
theorem mergeStep_hardCut {state : List Str × Str} {fragment : Str}
    (h : HardCut config state fragment) :
    mergeStep config state fragment =
      (state.1 ++ [fragment.take config.chunkSize],
        fragment.drop (config.chunkSize - config.chunkOverlap)) := by
  obtain ⟨chunks, current⟩ := state
  obtain ⟨rfl, hlong⟩ := h
  exact if_neg (Nat.not_le.mpr hlong)

theorem mergeStep_keepsText {state : List Str × Str} {fragment : Str}
    (h : ¬ HardCut config state fragment) :
    KeepsText state fragment (mergeStep config state fragment) := by
  have hfirst : state.2 = [] → fragment.length ≤ config.chunkSize := by
    intro hnil
    exact Nat.not_lt.mp fun hlong => h ⟨hnil, hlong⟩
  rcases mergeStep_cases state hfirst with ⟨hnil, hstep⟩ | ⟨-, -, hstep⟩ | ⟨-, -, hstep⟩
  · obtain ⟨front, back, -, -, hsplit⟩ := exists_strip fragment
    rw [hstep]
    refine ⟨.inr ⟨rfl, ?_⟩, front, back, hsplit.symm⟩
    rw [hnil]
    exact List.nil_prefix
  · rw [hstep]
    exact ⟨.inr ⟨rfl, strip_prefix_extended state.2 fragment⟩,
      (strip_suffix_extended state.2 fragment).isInfix⟩
  · rw [hstep]
    exact ⟨.inl rfl, (strip_suffix_extended _ fragment).isInfix⟩

/-- The hard cut adds a chunk that was never in the buffer. -/
theorem not_keepsText_of_hardCut {state : List Str × Str} {fragment : Str}
    (h : HardCut config state fragment) :
    ¬ KeepsText state fragment (mergeStep config state fragment) := by
  intro hkeeps
  have htake : fragment.take config.chunkSize ≠ [] := by
    intro hnil
    have hlength := congrArg List.length hnil
    rw [List.length_take, List.length_nil] at hlength
    have hpos := config.sizePos
    have hlong := h.2
    omega
  have hbuffer := hkeeps.buffer
  rw [mergeStep_hardCut h, h.1] at hbuffer
  rcases hbuffer with hadded | ⟨hsame, -⟩
  · exact htake (List.singleton_inj.mp (List.append_cancel_left hadded))
  · exact List.cons_ne_nil _ _ (List.append_right_eq_self.mp hsame)

theorem mergeStep_keepsText_iff (state : List Str × Str) (fragment : Str) :
    KeepsText state fragment (mergeStep config state fragment) ↔
      ¬ HardCut config state fragment :=
  ⟨fun hkeeps hcut => not_keepsText_of_hardCut hcut hkeeps, mergeStep_keepsText⟩

/-! ## The whole loop -/

theorem fragments_fit {text f : Str} (hf : f ∈ fragments config text) :
    f.length ≤ config.chunkSize := by
  unfold fragments at hf
  split at hf
  · cases hf
  · next hne => exact (recursiveSplit_fits reachesChars_separators hne f hf).2

/-- The fragments of a text fit, so the loop never comes to the hard cut, which is the one branch
    that does not keep text whole. -/
theorem fragments_always_fit (config : ChunkingConfig) (text : Str) :
    (text ≠ [] → ∀ f ∈ recursiveSplit config separators text,
      f ≠ [] ∧ f.length ≤ config.chunkSize) ∧
    (∀ before f after, fragments config text = before ++ f :: after →
      ¬ HardCut config (stateAfter config before) f) ∧
    ∀ state f, KeepsText state f (mergeStep config state f) ↔ ¬ HardCut config state f := by
  refine ⟨fun hne => recursiveSplit_fits reachesChars_separators hne, ?_, mergeStep_keepsText_iff⟩
  intro before f after hsplit hcut
  have hmem : f ∈ fragments config text := by
    rw [hsplit]
    exact List.mem_append_right _ List.mem_cons_self
  exact Nat.not_lt.mpr (fragments_fit hmem) hcut.2

/-- A word that only the character level can cut, and one behind it. -/
theorem fragments_always_fit_long :
    (∀ f ∈ recursiveSplit ⟨4, 1, by decide, by decide⟩ separators "abcdef gh".toList,
      f ≠ [] ∧ f.length ≤ 4) ∧
    ¬ HardCut ⟨4, 1, by decide, by decide⟩
      (stateAfter ⟨4, 1, by decide, by decide⟩ ["a".toList, "b".toList]) "c".toList := by
  have h := fragments_always_fit ⟨4, 1, by decide, by decide⟩ "abcdef gh".toList
  exact ⟨h.1 (by decide), h.2.1 _ _ ["d".toList, "e".toList, "f".toList, " ".toList,
    "gh. ".toList, " ".toList] (by decide)⟩

end RecursiveCharacterChunker

end Eka
