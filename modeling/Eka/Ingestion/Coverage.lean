import Mathlib.Algebra.Order.BigOperators.Group.List
import Mathlib.Algebra.Order.Ring.Nat
import Mathlib.Data.List.Chain
import Eka.Ingestion.Chunking

/-!
# What the chunks contain

Up to whitespace, the fragments of a text hold all of it in order, and the packing loop
repeats nothing but the overlap. They can hold more: `_recursive_split` puts the separator
back after the last part as well, and at the sentence level that is a full stop that the
text need not have.
-/

namespace Eka

open Py

/-! ## Lines -/

/-- Some line, without the whitespace at its end, has more than `n` characters. -/
def LongLine (n : Nat) (s : Str) : Prop :=
  ∃ line ∈ split "\n".toList s, n < (rstrip line).length

theorem longLine_append_newline {n : Nat} (s t : Str) :
    LongLine n (s ++ '\n' :: t) ↔ LongLine n s ∨ LongLine n t := by
  unfold LongLine
  rw [show "\n".toList = ['\n'] from rfl, split_append_cons]
  simp only [List.mem_append, or_and_right, exists_or]

theorem not_longLine_nil (n : Nat) : ¬ LongLine n [] := by
  rintro ⟨line, hline, hlong⟩
  rw [List.mem_singleton.mp hline] at hlong
  exact Nat.not_lt_zero n hlong

theorem longLine_concat {n : Nat} (s : Str) {c : Char} (hc : isSpace c = true) :
    LongLine n (s ++ [c]) ↔ LongLine n s := by
  by_cases hnewline : '\n' = c
  · subst hnewline
    rw [longLine_append_newline, or_iff_left (not_longLine_nil n)]
  · obtain ⟨front, last, hs, hsc⟩ := split_concat hnewline s
    have hlast : rstrip (last ++ [c]) = rstrip last :=
      rstrip_append_blank last (by simpa [Blank] using hc)
    unfold LongLine
    rw [show "\n".toList = ['\n'] from rfl, hs, hsc]
    simp only [List.mem_append, List.mem_singleton, or_and_right, exists_or, exists_eq_left, hlast]

theorem longLine_rstrip {n : Nat} (s : Str) : LongLine n (rstrip s) ↔ LongLine n s := by
  unfold rstrip
  induction s using List.reverseRecOn with
  | nil => rfl
  | append_singleton s c ih =>
      by_cases hc : isSpace c = true
      · rw [List.rdropWhile_concat_pos _ _ _ hc, ih, longLine_concat s hc]
      · rw [List.rdropWhile_concat_neg _ _ _ hc]

/-- The lines of the paragraphs are the lines of the text. -/
theorem longLine_join {n : Nat} (paragraphs : List Str) :
    LongLine n (join "\n\n".toList paragraphs) ↔ ∃ p ∈ paragraphs, LongLine n p := by
  induction paragraphs with
  | nil =>
      refine iff_of_false (not_longLine_nil n) ?_
      rintro ⟨p, hp, -⟩
      cases hp
  | cons p rest ih =>
      rw [List.exists_mem_cons_iff, ← ih]
      by_cases hrest : rest = []
      · subst hrest
        show LongLine n (p ++ []) ↔ LongLine n p ∨ LongLine n []
        rw [List.append_nil, or_iff_left (not_longLine_nil n)]
      · rw [join_cons _ p hrest]
        have hlines : p ++ "\n\n".toList ++ join "\n\n".toList rest =
            p ++ '\n' :: ([] ++ '\n' :: join "\n\n".toList rest) := by simp
        rw [hlines, longLine_append_newline, longLine_append_newline,
          or_iff_right (not_longLine_nil n)]

theorem LongLine.lt_length {n : Nat} {s : Str} (h : LongLine n s) : n < s.length := by
  obtain ⟨line, hline, hlong⟩ := h
  have hle : line.length ≤ (join "\n".toList (split "\n".toList s)).length := length_le_join hline
  rw [join_split (by decide)] at hle
  exact hlong.trans_le ((length_rstrip_le line).trans hle)

namespace RecursiveCharacterChunker

variable {config : ChunkingConfig}

/-! ## Fragments hold the text -/

theorem nonSpace_pieceOf (separator part : Str) :
    nonSpace (pieceOf separator part) = nonSpace part ++ nonSpace separator := by
  have hpiece : nonSpace (if separator = [] then part else part ++ separator) =
      nonSpace part ++ nonSpace separator := by
    split
    · next h => rw [h, show nonSpace [] = [] from rfl, List.append_nil]
    · exact nonSpace_append part separator
  unfold pieceOf
  simp only
  split
  · rw [nonSpace_rstrip, hpiece]
  · exact hpiece

/-- The parts of one level, joined again, are the text. -/
theorem join_parts (separator text : Str) : join separator (parts separator text) = text := by
  unfold parts
  split
  · next hsep =>
      subst hsep
      induction text with
      | nil => rfl
      | cons c text ih =>
          by_cases htext : text = []
          · subst htext
            rfl
          · rw [List.map_cons, join_cons [] [c] (by simpa using htext), ih]
            rfl
  · next hsep => exact join_split hsep text

/-- Parts that are each followed by the separator, against the joined parts. -/
theorem flatten_map_append (separator : Str) {parts : List Str} (h : parts ≠ []) :
    (parts.map fun part => nonSpace part ++ nonSpace separator).flatten =
      nonSpace (join separator parts) ++ nonSpace separator := by
  induction parts with
  | nil => exact absurd rfl h
  | cons part rest ih =>
      rw [List.map_cons, List.flatten_cons]
      by_cases hrest : rest = []
      · subst hrest
        show nonSpace part ++ nonSpace separator ++ [] = nonSpace (part ++ []) ++ nonSpace separator
        rw [List.append_nil, List.append_nil]
      · rw [ih hrest, join_cons separator part hrest, nonSpace_append, nonSpace_append]
        simp only [List.append_assoc]

/-- The pieces of one level, put together, are the text and one more separator. -/
theorem flatten_pieces (separator text : Str) :
    ((parts separator text).map fun part => nonSpace (pieceOf separator part)).flatten =
      nonSpace text ++ nonSpace separator := by
  simp only [nonSpace_pieceOf]
  by_cases hparts : parts separator text = []
  · have htext : join separator (parts separator text) = text := join_parts separator text
    have hsep : separator = [] := by
      by_contra hsep
      unfold parts at hparts
      rw [if_neg hsep] at hparts
      exact splitSkip_ne_nil _ _ _ hparts
    rw [hparts] at htext ⊢
    rw [← htext, hsep]
    rfl
  · rw [flatten_map_append separator hparts, join_parts]

theorem nonSpace_flatMap_fragments (separator : Str) (finer parts : List Str) :
    nonSpace (parts.flatMap (fragmentsOf config separator finer)).flatten =
      (parts.map fun part =>
        nonSpace (fragmentsOf config separator finer part).flatten).flatten := by
  induction parts with
  | nil => rfl
  | cons part rest ih =>
      rw [List.flatMap_cons, List.flatten_append, nonSpace_append, ih]
      rfl

/-- One level keeps a relation between a text and its fragments that the finer levels keep. -/
theorem fragmentsOf_piece {R : Str → Str → Prop} (hrefl : ∀ s, R s s) {separator : Str}
    {finer : List Str} {part : Str}
    (hfiner : config.chunkSize < (pieceOf separator part).length →
      R (nonSpace (pieceOf separator part))
        (nonSpace (recursiveSplit config finer (pieceOf separator part)).flatten)) :
    R (nonSpace (pieceOf separator part))
      (nonSpace (fragmentsOf config separator finer part).flatten) := by
  unfold fragmentsOf
  simp only
  split
  · next h =>
      rw [h]
      exact hrefl _
  · split
    · next hlong => exact hfiner hlong
    · rw [List.flatten_singleton]
      exact hrefl _

theorem sublist_flatten_map {α β : Type} {f g : α → List β} {xs : List α}
    (h : ∀ x ∈ xs, (f x).Sublist (g x)) : (xs.map f).flatten.Sublist (xs.map g).flatten := by
  induction xs with
  | nil => exact List.Sublist.refl _
  | cons x xs ih =>
      rw [List.map_cons, List.map_cons, List.flatten_cons, List.flatten_cons]
      exact (h x List.mem_cons_self).append (ih fun y hy => h y (List.mem_cons_of_mem _ hy))

/-- One level keeps what the finer levels keep. -/
theorem sublist_fragmentsOf {separator : Str} {finer : List Str} {part : Str}
    (hfiner : config.chunkSize < (pieceOf separator part).length →
      (nonSpace (pieceOf separator part)).Sublist
        (nonSpace (recursiveSplit config finer (pieceOf separator part)).flatten)) :
    (nonSpace (pieceOf separator part)).Sublist
      (nonSpace (fragmentsOf config separator finer part).flatten) :=
  fragmentsOf_piece (R := fun s t => s.Sublist t) List.Sublist.refl hfiner

/-- The fragments hold the text, in order. -/
theorem sublist_recursiveSplit (seps : List Str) (text : Str) :
    (nonSpace text).Sublist (nonSpace (recursiveSplit config seps text).flatten) := by
  induction seps generalizing text with
  | nil =>
      rw [recursiveSplit, List.flatten_singleton]
  | cons separator finer ih =>
      by_cases hlong : config.chunkSize < text.length
      · rw [recursiveSplit_long hlong, nonSpace_flatMap_fragments]
        have hlevel : (nonSpace text).Sublist (nonSpace text ++ nonSpace separator) :=
          List.sublist_append_left _ _
        rw [← flatten_pieces] at hlevel
        exact hlevel.trans (sublist_flatten_map fun part _ => sublist_fragmentsOf fun _ => ih _)
      · rw [recursiveSplit_short (not_lt.mp hlong), List.flatten_singleton]

/-! ## Fragments of a text with and without long lines -/

/-- A level whose separator is whitespace adds nothing to what the finer levels add. -/
theorem recursiveSplit_eq {separator : Str} {finer : List Str} {text : Str}
    (hsep : nonSpace separator = [])
    (hfiner : ∀ part ∈ parts separator text,
      config.chunkSize < (pieceOf separator part).length →
        nonSpace (pieceOf separator part) =
          nonSpace (recursiveSplit config finer (pieceOf separator part)).flatten) :
    nonSpace text = nonSpace (recursiveSplit config (separator :: finer) text).flatten := by
  by_cases hlong : config.chunkSize < text.length
  · have hlevel : nonSpace text = nonSpace text ++ nonSpace separator := by
      rw [hsep, List.append_nil]
    rw [recursiveSplit_long hlong, nonSpace_flatMap_fragments, hlevel, ← flatten_pieces]
    refine congrArg List.flatten (List.map_congr_left ?_)
    intro part hpart
    exact fragmentsOf_piece (R := fun s t => s = t) (fun _ => rfl) (hfiner part hpart)
  · rw [recursiveSplit_short (not_lt.mp hlong), List.flatten_singleton]

theorem pieceOf_blank {separator : Str} (hsep : separator ≠ []) (hblank : Blank separator)
    (hlevel : separator = "\n\n".toList ∨ separator = "\n".toList) (part : Str) :
    pieceOf separator part = rstrip part := by
  unfold pieceOf
  simp only [if_pos hlevel, if_neg hsep]
  exact rstrip_append_blank part hblank

theorem pieceOf_paragraph (part : Str) : pieceOf "\n\n".toList part = rstrip part :=
  pieceOf_blank (by decide) (by decide) (.inl rfl) part

theorem pieceOf_line (part : Str) : pieceOf "\n".toList part = rstrip part :=
  pieceOf_blank (by decide) (by decide) (.inr rfl) part

theorem longLine_paragraphs {n : Nat} (text : Str) :
    LongLine n text ↔ ∃ p ∈ parts "\n\n".toList text, LongLine n (rstrip p) := by
  simp only [longLine_rstrip]
  rw [← longLine_join, join_parts]

/-- Without a long line, the fragments hold the text and nothing else. -/
theorem recursiveSplit_of_not_longLine {text : Str} (h : ¬ LongLine config.chunkSize text) :
    nonSpace text = nonSpace (recursiveSplit config separators text).flatten := by
  refine recursiveSplit_eq (by decide) ?_
  intro paragraph hparagraph hlong
  refine recursiveSplit_eq (by decide) ?_
  intro line hline hlong'
  rw [pieceOf_paragraph] at hline
  rw [pieceOf_line] at hlong'
  exact absurd (longLine_paragraphs text |>.mpr ⟨paragraph, hparagraph, line, hline, hlong'⟩) h

/-- The full stops in the text, and in the fragments. -/
def stops (s : Str) : Nat := (nonSpace s).count '.'

theorem stops_flatMap (separator : Str) (finer parts : List Str) :
    stops (parts.flatMap (fragmentsOf config separator finer)).flatten =
      (parts.map fun part => stops (fragmentsOf config separator finer part).flatten).sum := by
  unfold stops
  rw [nonSpace_flatMap_fragments, List.count_flatten, List.map_map]
  rfl

theorem stops_pieces (separator text : Str) :
    ((parts separator text).map fun part => stops (pieceOf separator part)).sum =
      stops text + stops separator := by
  have hpieces := congrArg (List.count '.') (flatten_pieces separator text)
  rw [List.count_flatten, List.map_map, List.count_append] at hpieces
  exact hpieces

theorem stops_le_fragmentsOf (separator : Str) (finer : List Str) (part : Str) :
    stops (pieceOf separator part) ≤ stops (fragmentsOf config separator finer part).flatten :=
  (sublist_fragmentsOf fun _ => sublist_recursiveSplit finer _).count_le '.'

/-- The sentence level adds a full stop to what it is given. -/
theorem stops_lt_sentence {finer : List Str} {text : Str} (hlong : config.chunkSize < text.length) :
    stops text < stops (recursiveSplit config (". ".toList :: finer) text).flatten := by
  have hadded := stops_pieces ". ".toList text
  have hone : stops ". ".toList = 1 := by decide
  have hkept : ((parts ". ".toList text).map fun part => stops (pieceOf ". ".toList part)).sum ≤
      ((parts ". ".toList text).map fun part =>
        stops (fragmentsOf config ". ".toList finer part).flatten).sum :=
    List.sum_le_sum fun part _ => stops_le_fragmentsOf _ _ part
  rw [recursiveSplit_long hlong, stops_flatMap]
  omega

/-- A full stop that a finer level adds to one of the pieces is added to the text. -/
theorem stops_lt_of_piece {separator : Str} {finer : List Str} {text part : Str}
    (hpart : part ∈ parts separator text) (hlong : config.chunkSize < text.length)
    (hpiece : config.chunkSize < (pieceOf separator part).length)
    (hmore : stops (pieceOf separator part) <
      stops (recursiveSplit config finer (pieceOf separator part)).flatten) :
    stops text < stops (recursiveSplit config (separator :: finer) text).flatten := by
  have hadded := stops_pieces separator text
  have hfragments : fragmentsOf config separator finer part =
      recursiveSplit config finer (pieceOf separator part) := by
    have hne : pieceOf separator part ≠ [] := by
      rw [← List.length_pos_iff]
      omega
    unfold fragmentsOf
    simp only
    rw [if_neg hne, if_pos hpiece]
  have hsum : ((parts separator text).map fun part => stops (pieceOf separator part)).sum <
      ((parts separator text).map fun part =>
        stops (fragmentsOf config separator finer part).flatten).sum := by
    refine List.sum_lt_sum _ _ (fun part _ => stops_le_fragmentsOf separator finer part) ?_
    exact ⟨part, hpart, by rwa [hfragments]⟩
  rw [recursiveSplit_long hlong, stops_flatMap]
  omega

/-- With a long line, the fragments have more full stops than the text. -/
theorem stops_lt_of_longLine {text : Str} (h : LongLine config.chunkSize text) :
    stops text < stops (recursiveSplit config separators text).flatten := by
  obtain ⟨paragraph, hparagraph, hlines⟩ := (longLine_paragraphs text).mp h
  have hparagraphLong := hlines.lt_length
  obtain ⟨line, hline, hlong⟩ := hlines
  refine stops_lt_of_piece hparagraph h.lt_length ?_ ?_
  · rwa [pieceOf_paragraph]
  · rw [pieceOf_paragraph]
    refine stops_lt_of_piece hline hparagraphLong ?_ ?_
    · rwa [pieceOf_line]
    · rw [pieceOf_line]
      exact stops_lt_sentence hlong

/-! ## The packing loop repeats the overlap and nothing else -/

/-- An invariant of the packing loop that also speaks of the fragments so far. -/
theorem foldl_mergeStep {Inv : Str → List Str × Str → Prop}
    (hstep : ∀ {consumed state fragment}, Inv consumed state →
      fragment.length ≤ config.chunkSize →
        Inv (consumed ++ nonSpace fragment) (mergeStep config state fragment))
    {state : List Str × Str} (hstate : Inv [] state) {fragments : List Str}
    (hfits : ∀ f ∈ fragments, f.length ≤ config.chunkSize) :
    Inv (nonSpace fragments.flatten) (fragments.foldl (mergeStep config) state) := by
  induction fragments using List.reverseRecOn with
  | nil => exact hstate
  | append_singleton fs f ih =>
      have hfront := ih fun g hg => hfits g (List.mem_append_left _ hg)
      have hlast := hstep hfront (hfits f (List.mem_append_right _ List.mem_cons_self))
      rwa [List.foldl_concat, List.flatten_append, nonSpace_append, List.flatten_singleton]

/-- What the chunks after `prior` add to it: each of them without the overlap that it carries
    over. -/
def remainders (config : ChunkingConfig) : Str → List Str → Str
  | _, [] => []
  | prior, c :: cs =>
      (nonSpace c).drop (nonSpace (tail config prior)).length ++ remainders config c cs

/-- The first chunk and the remainders of the others. -/
def stitch (config : ChunkingConfig) : List Str → Str
  | [] => []
  | c :: cs => nonSpace c ++ remainders config c cs

/-- `d` starts with the overlap carried over from `c`. -/
def Carries (config : ChunkingConfig) (c d : Str) : Prop :=
  nonSpace (tail config c) <+: nonSpace d

theorem remainders_concat (cs : List Str) (prior c d : Str) :
    remainders config prior (cs ++ [c] ++ [d]) = remainders config prior (cs ++ [c]) ++
      (nonSpace d).drop (nonSpace (tail config c)).length := by
  induction cs generalizing prior with
  | nil => simp [remainders]
  | cons e cs ih =>
      rw [List.cons_append, List.cons_append, remainders, remainders, ih, List.append_assoc]

theorem stitch_concat (cs : List Str) (c d : Str) :
    stitch config (cs ++ [c] ++ [d]) = stitch config (cs ++ [c]) ++
      (nonSpace d).drop (nonSpace (tail config c)).length := by
  cases cs with
  | nil => simp [stitch, remainders]
  | cons e cs =>
      rw [List.cons_append, List.cons_append, stitch, stitch, remainders_concat, List.append_assoc]

/-- A last chunk that is longer adds what it is longer by. -/
theorem stitch_extend {cs : List Str} {d d' new : Str}
    (hchain : (cs ++ [d]).IsChain (Carries config)) (hnew : nonSpace d' = nonSpace d ++ new) :
    (cs ++ [d']).IsChain (Carries config) ∧
      stitch config (cs ++ [d']) = stitch config (cs ++ [d]) ++ new := by
  induction cs using List.reverseRecOn with
  | nil => exact ⟨List.isChain_singleton _, by simp [stitch, remainders, hnew]⟩
  | append_singleton cs c _ =>
      rw [List.append_assoc] at hchain
      obtain ⟨hfront, hcarries, -⟩ := List.isChain_append_cons_cons.mp hchain
      have hcarries' : Carries config c d' := by
        unfold Carries
        rw [hnew]
        exact hcarries.trans (List.prefix_append _ _)
      constructor
      · rw [List.append_assoc]
        exact List.isChain_append_cons_cons.mpr ⟨hfront, hcarries', List.isChain_singleton _⟩
      · rw [stitch_concat, stitch_concat, hnew, List.drop_append_of_le_length hcarries.length_le,
          List.append_assoc]

/-- A new chunk adds what it has besides the overlap. -/
theorem stitch_next {cs : List Str} {c d new : Str} (hchain : (cs ++ [c]).IsChain (Carries config))
    (hnew : nonSpace d = nonSpace (tail config c) ++ new) :
    (cs ++ [c] ++ [d]).IsChain (Carries config) ∧
      stitch config (cs ++ [c] ++ [d]) = stitch config (cs ++ [c]) ++ new := by
  constructor
  · rw [List.append_assoc]
    refine List.isChain_append_cons_cons.mpr ⟨hchain, ?_, List.isChain_singleton _⟩
    unfold Carries
    rw [hnew]
    exact List.prefix_append _ _
  · rw [stitch_concat, hnew, List.drop_left]

/-- The chunks so far and the buffer hold the fragments so far. -/
structure Stitched (config : ChunkingConfig) (consumed : Str) (state : List Str × Str) : Prop where
  chain : (state.1 ++ [state.2]).IsChain (Carries config)
  stitched : stitch config (state.1 ++ [state.2]) = consumed

theorem nonSpace_extended (s t : Str) : nonSpace (extended s t) = nonSpace s ++ nonSpace t := by
  unfold extended
  rw [nonSpace_strip, nonSpace_append]
  rfl

theorem mergeStep_stitched {consumed : Str} {state : List Str × Str} {fragment : Str}
    (h : Stitched config consumed state) (hfits : fragment.length ≤ config.chunkSize) :
    Stitched config (consumed ++ nonSpace fragment) (mergeStep config state fragment) := by
  obtain ⟨hchain, rfl⟩ := h
  rcases mergeStep_cases state (fun _ => hfits) with
    ⟨hnil, hstep⟩ | ⟨-, -, hstep⟩ | ⟨-, -, hstep⟩
  · have hnew : nonSpace fragment = nonSpace state.2 ++ nonSpace fragment := by
      rw [hnil]
      rfl
    obtain ⟨hchain', hstitch⟩ := stitch_extend hchain hnew
    rw [hstep]
    exact ⟨hchain', hstitch⟩
  · obtain ⟨hchain', hstitch⟩ := stitch_extend hchain (nonSpace_extended state.2 fragment)
    rw [hstep]
    exact ⟨hchain', hstitch⟩
  · obtain ⟨hchain', hstitch⟩ :=
      stitch_next hchain (nonSpace_extended (tail config state.2) fragment)
    rw [hstep]
    exact ⟨hchain', hstitch⟩

theorem mergeWithOverlap_stitched {fragments : List Str}
    (hfits : ∀ f ∈ fragments, f.length ≤ config.chunkSize) :
    (mergeWithOverlap config fragments).IsChain (Carries config) ∧
      stitch config (mergeWithOverlap config fragments) = nonSpace fragments.flatten := by
  have hstart : Stitched config [] ([], []) := ⟨List.isChain_singleton _, rfl⟩
  obtain ⟨hchain, hstitch⟩ := foldl_mergeStep mergeStep_stitched hstart hfits
  unfold mergeWithOverlap
  generalize fragments.foldl (mergeStep config) ([], []) = state at hchain hstitch ⊢
  obtain ⟨chunks, current⟩ := state
  simp only
  split
  · exact ⟨hchain, hstitch⟩
  · next hcurrent =>
      -- an empty buffer at the end is not appended, and it holds nothing
      obtain rfl : current = [] := not_not.mp hcurrent
      refine ⟨hchain.left_of_append, ?_⟩
      rw [← hstitch]
      show stitch config chunks = stitch config (chunks ++ [[]])
      induction chunks using List.reverseRecOn with
      | nil => rfl
      | append_singleton cs c _ =>
          rw [stitch_concat, show nonSpace [] = [] from rfl, List.drop_nil, List.append_nil]

theorem map_text_split (config : ChunkingConfig) (text : Str) :
    (split config text).map (·.text) = splitTexts config text := by
  refine List.ext_getElem ?_ ?_
  · simp [split]
  · intro i h₁ h₂
    simp [split]

/-- Chunking loses nothing: each chunk starts with the overlap carried over from the one
    before, and what the chunks hold besides it is the text, in order and up to whitespace,
    with nothing left out. -/
theorem split_lossless (config : ChunkingConfig) (text : Str) :
    ((split config text).map (·.text)).IsChain (Carries config) ∧
      (nonSpace text).Sublist (stitch config ((split config text).map (·.text))) := by
  rw [map_text_split, ← nonSpace_strip]
  unfold splitTexts
  simp only
  split
  · next hnil =>
      rw [hnil]
      exact ⟨List.isChain_nil, List.Sublist.refl _⟩
  · next hnil =>
      have hfits := @recursiveSplit_fits config _ reachesChars_separators _ hnil
      obtain ⟨hchain, hstitch⟩ := mergeWithOverlap_stitched fun f hf => (hfits f hf).2
      refine ⟨hchain, ?_⟩
      rw [hstitch]
      exact sublist_recursiveSplit separators (strip text)

/-- Only whitespace has no chunks. -/
theorem split_eq_nil_iff (config : ChunkingConfig) (text : Str) :
    split config text = [] ↔ strip text = [] := by
  constructor
  · intro hsplit
    obtain ⟨-, hcovered⟩ := split_lossless config text
    rw [hsplit] at hcovered
    exact strip_eq_nil_iff.mpr (nonSpace_eq_nil.mp (List.sublist_nil.mp hcovered))
  · intro hnil
    have htexts : splitTexts config text = [] := if_pos hnil
    rw [← map_text_split, List.map_eq_nil_iff] at htexts
    exact htexts

/-! ## What a chunk is cut from -/

/-- The chunks are cut from the fragments so far, and the buffer from the end of them. -/
structure Drawn (consumed : Str) (state : List Str × Str) : Prop where
  chunks : ∀ c ∈ state.1, nonSpace c <:+: consumed
  buffer : nonSpace state.2 <:+ consumed

theorem suffix_append {s t : Str} (h : s <:+ t) (u : Str) : s ++ u <:+ t ++ u := by
  obtain ⟨front, rfl⟩ := h
  exact ⟨front, by rw [List.append_assoc]⟩

theorem nonSpace_tail_suffix (s : Str) : nonSpace (tail config s) <:+ nonSpace s := by
  unfold tail
  split
  · exact List.nil_suffix
  · exact (List.drop_suffix _ s).filter _

theorem mergeStep_drawn {consumed : Str} {state : List Str × Str} {fragment : Str}
    (h : Drawn consumed state) (hfits : fragment.length ≤ config.chunkSize) :
    Drawn (consumed ++ nonSpace fragment) (mergeStep config state fragment) := by
  have hchunks : ∀ c ∈ state.1, nonSpace c <:+: consumed ++ nonSpace fragment := fun c hc =>
    (h.chunks c hc).trans (List.prefix_append _ _).isInfix
  rcases mergeStep_cases state (fun _ => hfits) with
    ⟨-, hstep⟩ | ⟨-, -, hstep⟩ | ⟨-, -, hstep⟩
  · rw [hstep]
    exact ⟨hchunks, List.suffix_append _ _⟩
  · rw [hstep]
    refine ⟨hchunks, ?_⟩
    rw [nonSpace_extended]
    exact suffix_append h.buffer _
  · rw [hstep]
    refine ⟨?_, ?_⟩
    · intro c hc
      rcases List.mem_append.mp hc with hc | hc
      · exact hchunks c hc
      · rw [List.mem_singleton.mp hc]
        exact h.buffer.isInfix.trans (List.prefix_append _ _).isInfix
    · rw [nonSpace_extended]
      exact suffix_append ((nonSpace_tail_suffix state.2).trans h.buffer) _

theorem mergeWithOverlap_drawn {fragments : List Str}
    (hfits : ∀ f ∈ fragments, f.length ≤ config.chunkSize) :
    ∀ c ∈ mergeWithOverlap config fragments, nonSpace c <:+: nonSpace fragments.flatten := by
  have hstart : Drawn [] ([], []) := ⟨by simp, List.nil_suffix⟩
  obtain ⟨hchunks, hbuffer⟩ := foldl_mergeStep mergeStep_drawn hstart hfits
  unfold mergeWithOverlap
  generalize fragments.foldl (mergeStep config) ([], []) = state at hchunks hbuffer ⊢
  obtain ⟨chunks, current⟩ := state
  simp only
  intro c hc
  split at hc
  · rcases List.mem_append.mp hc with hc | hc
    · exact hchunks c hc
    · rw [List.mem_singleton.mp hc]
      exact hbuffer.isInfix
  · exact hchunks c hc

/-- What is in the chunks put together is in one of them. -/
theorem mem_stitch {ch : Char} {chunks : List Str} (h : ch ∈ stitch config chunks) :
    ∃ c ∈ chunks, ch ∈ nonSpace c := by
  induction chunks using List.reverseRecOn with
  | nil => cases h
  | append_singleton cs d ih =>
      by_cases hcs : cs = []
      · subst hcs
        refine ⟨d, List.mem_singleton_self d, ?_⟩
        simpa [stitch, remainders] using h
      · rw [← List.dropLast_append_getLast hcs, stitch_concat,
          List.dropLast_append_getLast hcs] at h
        rcases List.mem_append.mp h with h | h
        · obtain ⟨c, hc, hch⟩ := ih h
          exact ⟨c, List.mem_append_left _ hc, hch⟩
        · exact ⟨d, List.mem_append_right _ List.mem_cons_self, List.mem_of_mem_drop h⟩

theorem mem_splitTexts {text : Str} {t : Str} :
    t ∈ splitTexts config text ↔ ∃ piece ∈ split config text, piece.text = t := by
  rw [← map_text_split, List.mem_map]

theorem splitTexts_of_ne_nil {text : Str} (h : strip text ≠ []) :
    splitTexts config text =
      mergeWithOverlap config (recursiveSplit config separators (strip text)) := if_neg h

/-- The chunks put together are the text, up to whitespace, unless a line is too long. -/
theorem stitch_split_eq_iff (config : ChunkingConfig) (text : Str) :
    stitch config ((split config text).map (·.text)) = nonSpace text ↔
      ¬ LongLine config.chunkSize (strip text) := by
  rw [map_text_split, ← nonSpace_strip text]
  by_cases hnil : strip text = []
  · unfold splitTexts
    simp only [hnil, if_true]
    exact iff_of_true rfl (not_longLine_nil _)
  · have hfits := @recursiveSplit_fits config _ reachesChars_separators _ hnil
    obtain ⟨-, hstitch⟩ := mergeWithOverlap_stitched fun f hf => (hfits f hf).2
    rw [splitTexts_of_ne_nil hnil, hstitch]
    constructor
    · intro heq hlong
      have hmore := stops_lt_of_longLine hlong
      unfold stops at hmore
      rw [heq] at hmore
      exact lt_irrefl _ hmore
    · intro hshort
      exact (recursiveSplit_of_not_longLine hshort).symm

/-- Chunking invents nothing unless a line of the text, stripped on the right, is longer than
    a chunk. Where one is, the sentence level adds a full stop after it, and a text without
    one shows it. -/
theorem split_contiguous (config : ChunkingConfig) (text : Str) :
    (¬ LongLine config.chunkSize (strip text) →
      ∀ piece ∈ split config text, nonSpace piece.text <:+: nonSpace text) ∧
    (LongLine config.chunkSize (strip text) → '.' ∉ text →
      ∃ piece ∈ split config text, ¬ nonSpace piece.text <:+: nonSpace text) := by
  constructor
  · intro hshort piece hpiece
    have htext := mem_splitTexts.mpr ⟨piece, hpiece, rfl⟩
    rw [← nonSpace_strip text]
    by_cases hnil : strip text = []
    · unfold splitTexts at htext
      simp only [hnil, if_true] at htext
      cases htext
    · have hfits := @recursiveSplit_fits config _ reachesChars_separators _ hnil
      rw [splitTexts_of_ne_nil hnil] at htext
      rw [recursiveSplit_of_not_longLine hshort]
      exact mergeWithOverlap_drawn (fun f hf => (hfits f hf).2) _ htext
  · intro hlong hstop
    have hnil : strip text ≠ [] := by
      intro hnil
      rw [hnil] at hlong
      exact not_longLine_nil _ hlong
    have hfits := @recursiveSplit_fits config _ reachesChars_separators _ hnil
    obtain ⟨-, hstitch⟩ := mergeWithOverlap_stitched fun f hf => (hfits f hf).2
    have hmore := stops_lt_of_longLine hlong
    have hin : '.' ∈ stitch config (splitTexts config text) := by
      rw [splitTexts_of_ne_nil hnil, hstitch]
      exact List.count_pos_iff.mp ((Nat.zero_le _).trans_lt hmore)
    obtain ⟨t, ht, hstop'⟩ := mem_stitch hin
    obtain ⟨piece, hpiece, rfl⟩ := mem_splitTexts.mp ht
    refine ⟨piece, hpiece, ?_⟩
    intro hin
    exact hstop (List.mem_of_mem_filter (hin.subset hstop'))

/-- A single line of three words that is longer than a chunk: the last chunk ends in a full
    stop. -/
theorem split_contiguous_fails :
    ¬ ∀ piece ∈ split ⟨10, 3, by decide, by decide⟩ "one two three".toList,
        nonSpace piece.text <:+: nonSpace "one two three".toList := by
  intro h
  have hlast : (⟨1, "two three.".toList⟩ : TextPiece) ∈
      split ⟨10, 3, by decide, by decide⟩ "one two three".toList := by decide
  have hstop : '.' ∈ nonSpace "two three.".toList := by decide
  have hin : '.' ∈ nonSpace "one two three".toList := (h _ hlast).subset hstop
  revert hin
  decide

end RecursiveCharacterChunker

end Eka
