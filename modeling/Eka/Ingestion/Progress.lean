import Eka.Ingestion.ChunkSize

/-!
# Chunks that add nothing

The splitter drops empty fragments and keeps blank ones: a word that is cut down to its
characters leaves its spaces, and a sentence that is cut into words a space at its end. A blank
fragment that meets a buffer which has outgrown `chunk_size` pushes it and starts a new one of
nothing but the overlap; what decides is whether the next fragment still finds room in it.
-/

namespace Eka

open Py

namespace RecursiveCharacterChunker

variable {config : ChunkingConfig}

/-! ## Blank fragments -/

/-- A buffer that an extension has made no fuller was extended by whitespace. -/
theorem blank_of_nonSpace_extended {s fragment t : Str} (hs : nonSpace t <+: nonSpace s)
    (h : extended s fragment = strip t) : Blank fragment := by
  have hsum : (nonSpace s).length + (nonSpace fragment).length = (nonSpace t).length := by
    rw [← List.length_append, ← nonSpace_extended, ← nonSpace_strip t, ← h]
  have hle := hs.length_le
  refine nonSpace_eq_nil.mp (List.length_eq_zero_iff.mp ?_)
  omega

/-- Only what is behind a string is lost with its strip. -/
theorem extended_strip {s : Str} (h : Closes s) (fragment : Str) :
    extended (strip s) fragment = extended s fragment := by
  obtain ⟨lead, back, hlead, hback, hsplit⟩ := exists_strip s
  have hnil : back = [] := by
    by_contra hne
    rw [hsplit] at h
    exact (h.of_append hne).not_blank hback
  rw [hnil, List.append_nil] at hsplit
  unfold extended
  conv_rhs => rw [hsplit, List.append_assoc, strip_blank_append hlead]

/-! ## The buffer, seen from the chunks before it -/

namespace Running

variable {front : List Str}

/-- A buffer that has grown past `chunk_size` was refilled with the last fragment. -/
theorem exists_refilled (h : Fitting config front)
    (hlong : config.chunkSize < (stateAfter config front).2.length) :
    ∃ before f, front = before ++ [f] ∧ before ≠ [] ∧
      (stateAfter config front).2 = carried config before f := by
  cases front using List.reverseRecOn with
  | nil => cases hlong
  | append_singleton before f _ =>
      rcases h.stateAfter_cases with ⟨-, hstate⟩ | ⟨-, hroom, hstate⟩ | ⟨hbefore, -, hstate⟩
      · rw [hstate] at hlong
        exact absurd (h.fits f (by simp)) hlong.not_ge
      · rw [hstate] at hlong
        exact absurd hroom hlong.not_ge
      · exact ⟨before, f, rfl, hbefore, by rw [hstate]⟩

/-- Once there are chunks, the buffer is stripped. -/
theorem strip_buffer (h : Fitting config front) (hchunks : (stateAfter config front).1 ≠ []) :
    strip (stateAfter config front).2 = (stateAfter config front).2 := by
  cases front using List.reverseRecOn with
  | nil => exact absurd rfl hchunks
  | append_singleton before f _ =>
      rcases h.stateAfter_cases with ⟨-, hstate⟩ | ⟨-, -, hstate⟩ | ⟨-, -, hstate⟩
      · rw [hstate] at hchunks
        exact absurd rfl hchunks
      · rw [hstate]
        exact strip_strip _
      · rw [hstate]
        exact strip_strip _

/-- The buffer has what the last chunk carries over. -/
theorem carries (h : Fitting config front) {c : Str}
    (hc : c ∈ (stateAfter config front).1.getLast?) :
    nonSpace (tail config c) <+: nonSpace (stateAfter config front).2 := by
  have hstart : Stitched config [] ([], []) := ⟨List.isChain_singleton _, rfl⟩
  have hchain := (foldl_mergeStep mergeStep_stitched hstart h.fits).chain
  obtain ⟨-, -, hlast⟩ := List.isChain_append.mp hchain
  exact hlast c hc _ rfl

end Running

/-! ## Stalling -/

/-- Blank fragments follow one that has filled the buffer past `chunk_size`. -/
structure Stalls (config : ChunkingConfig) (before : List Str) (f : Str) (spaces : List Str) :
    Prop where
  started : before ≠ []
  some : spaces ≠ []
  blank : ∀ b ∈ spaces, Blank b
  overfull : config.chunkSize < (carried config before f).length

namespace Stalls

variable {before spaces : List Str} {f : Str}

/-- The first fragment of the stall fills the buffer. -/
theorem stateAfter_eq (h : Stalls config before f spaces)
    (hfit : Fitting config (before ++ [f])) :
    (stateAfter config (before ++ [f])).2 = carried config before f := by
  have hrunning := hfit.front.running h.started
  have hfull : config.chunkSize < (extended (stateAfter config before).2 f).length := by
    have hlong := h.overfull
    rw [hrunning.carried_eq] at hlong
    exact hlong.trans_le (length_extended_tail_le _ f)
  rw [hrunning.stateAfter_cut hfull]

/-- The overlap that it leaves ends like the buffer. -/
theorem closes_tail (h : Stalls config before f spaces) (hfit : Fitting config (before ++ [f])) :
    Closes (tail config (carried config before f)) := by
  have hrunning := hfit.running (by simp)
  have hlong := h.overfull
  rw [← h.stateAfter_eq hfit] at hlong ⊢
  obtain ⟨hoverlap, hcloses⟩ := hrunning.oversize hlong
  exact RecursiveCharacterChunker.closes_tail hoverlap hcloses

/-- What the loop carries on to the fragment after the stall. -/
theorem carried_next (h : Stalls config before f spaces) (hfit : Fitting config (before ++ [f]))
    (g : Str) : carried config (before ++ [f]) g =
      extended (strip (tail config (carried config before f))) g := by
  rw [(hfit.running (by simp)).carried_eq, h.stateAfter_eq hfit,
    extended_strip (h.closes_tail hfit)]

/-- The first blank fragment finds the buffer full. -/
theorem cut (h : Stalls config before f spaces) (hfit : Fitting config (before ++ [f]))
    {space : Str} (hblank : Blank space) :
    stateAfter config (before ++ [f] ++ [space]) =
      ((stateAfter config (before ++ [f])).1 ++ [carried config before f],
        strip (tail config (carried config before f))) := by
  have hrunning := hfit.running (by simp)
  have hstrip : strip (carried config before f) = carried config before f := strip_strip _
  have hfull : config.chunkSize <
      (extended (stateAfter config (before ++ [f])).2 space).length := by
    rw [h.stateAfter_eq hfit, extended_blank hblank, hstrip]
    exact h.overfull
  rw [hrunning.stateAfter_cut hfull, hrunning.carried_eq, h.stateAfter_eq hfit,
    extended_blank hblank]

/-- The others leave the overlap as it is. -/
theorem stay (h : Stalls config before f spaces) (hfit : Fitting config (before ++ [f]))
    {rest : List Str} (hblank : ∀ b ∈ rest, Blank b) (chunks : List Str) :
    rest.foldl (mergeStep config) (chunks, strip (tail config (carried config before f))) =
      (chunks, strip (tail config (carried config before f))) := by
  have hne : strip (tail config (carried config before f)) ≠ [] :=
    strip_ne_nil_iff.mpr (h.closes_tail hfit).not_blank
  have hsmall : (strip (tail config (carried config before f))).length ≤ config.chunkSize := by
    refine (length_strip_le _).trans ?_
    rw [length_tail]
    have hlt := config.overlapLt
    omega
  induction rest with
  | nil => rfl
  | cons b rest ih =>
      have hsame : extended (strip (tail config (carried config before f))) b =
          strip (tail config (carried config before f)) := by
        rw [extended_blank (hblank b List.mem_cons_self), strip_strip]
      have hstep := @mergeStep_fits config chunks _ b hne (by rw [hsame]; exact hsmall)
      rw [hsame] at hstep
      rw [List.foldl_cons, hstep]
      exact ih fun b hb => hblank b (List.mem_cons_of_mem _ hb)

/-- The stall pushes the buffer, and the overlap stays. -/
theorem stateAfter_stalled (h : Stalls config before f spaces)
    (hfit : Fitting config (before ++ f :: spaces)) :
    ∃ chunks, stateAfter config (before ++ f :: spaces) =
      (chunks ++ [carried config before f], strip (tail config (carried config before f))) := by
  rw [List.append_cons] at hfit ⊢
  obtain ⟨b, rest, rfl⟩ := List.exists_cons_of_ne_nil h.some
  have hrest : ∀ s ∈ rest, Blank s := fun s hs => h.blank s (List.mem_cons_of_mem _ hs)
  refine ⟨(stateAfter config (before ++ [f])).1, ?_⟩
  rw [List.append_cons, stateAfter_append, h.cut hfit.front (h.blank b List.mem_cons_self)]
  exact h.stay hfit.front hrest _

end Stalls

/-! ## Which chunks repeat the one before -/

/-- Somewhere in the fragments, a stall is the end or comes before a fragment that the overlap
    has no room for. -/
def Repeats (config : ChunkingConfig) (fragments : List Str) : Prop :=
  ∃ before f spaces rest, fragments = before ++ f :: spaces ++ rest ∧
    Stalls config before f spaces ∧ ∀ g others, rest = g :: others →
      ¬ Blank g ∧ config.chunkSize < (carried config (before ++ [f]) g).length

/-- Only a text with a sentence that is longer than a chunk has a stall. -/
theorem Repeats.long_sentence {text : Str}
    (h : Repeats config (recursiveSplit config separators text)) :
    ∃ paragraph ∈ parts "\n\n".toList text, ∃ line ∈ parts "\n".toList (rstrip paragraph),
      ∃ sentence ∈ parts ". ".toList (rstrip line),
        config.chunkSize < (sentence ++ ". ".toList).length := by
  obtain ⟨before, f, spaces, rest, hsplit, hstalls, -⟩ := h
  obtain ⟨b, hb⟩ := List.exists_mem_of_ne_nil spaces hstalls.some
  have hlong : config.chunkSize < text.length := by
    by_contra hshort
    rw [List.append_assoc, List.cons_append] at hsplit
    exact hstalls.started (nil_of_recursiveSplit_short (Nat.le_of_not_lt hshort) hsplit)
  have hmem : b ∈ recursiveSplit config separators text := by simp [hsplit, hb]
  have hne : text ≠ [] := List.ne_nil_of_length_pos (Nat.zero_lt_of_lt hlong)
  exact long_sentence_of_blank hlong hmem
    (recursiveSplit_fits reachesChars_separators hne b hmem).1 (hstalls.blank b hb)

/-- A chunk is more than what the one before it leaves. -/
def Progresses (config : ChunkingConfig) (c d : Str) : Prop := d ≠ strip (tail config c)

/-- A stall that is the end, or is not resolved, leaves a chunk of nothing but the overlap. -/
theorem not_progresses_of_repeats {fragments : List Str} (h : Fitting config fragments)
    (hrepeats : Repeats config fragments) :
    ¬ (pushed (stateAfter config fragments)).IsChain (Progresses config) := by
  obtain ⟨before, f, spaces, rest, rfl, hstalls, hrest⟩ := hrepeats
  have hfront := h.front
  have hfirst : Fitting config (before ++ [f]) := by
    rw [List.append_cons] at hfront
    exact hfront.front
  obtain ⟨chunks, hstate⟩ := hstalls.stateAfter_stalled hfront
  have hrunning := hfront.running (by simp)
  have hbuffer := not_blank_ne_nil hrunning.packed.buffer
  -- the chunks so far and the overlap come first
  have hpre : chunks ++ [carried config before f] ++
      [strip (tail config (carried config before f))] <+:
        pushed (stateAfter config (before ++ f :: spaces ++ rest)) := by
    cases rest with
    | nil =>
        refine ⟨[], ?_⟩
        rw [List.append_nil, List.append_nil]
        unfold pushed
        rw [if_pos hbuffer, hstate]
    | cons g others =>
        have hfull : config.chunkSize <
            (extended (stateAfter config (before ++ f :: spaces)).2 g).length := by
          rw [hstate, ← hstalls.carried_next hfirst]
          exact (hrest g others rfl).2
        have hfits : ∀ s ∈ others, s.length ≤ config.chunkSize :=
          fun s hs => h.fits s (by simp [hs])
        have hshape : before ++ f :: spaces ++ g :: others =
            (before ++ f :: spaces ++ [g]) ++ others := by simp
        rw [hshape, stateAfter_append, hrunning.stateAfter_cut hfull, hstate]
        exact prefix_pushed_foldl hfits (chunks ++ [carried config before f] ++
          [strip (tail config (carried config before f))], carried config _ g)
  intro hchain
  obtain ⟨more, hmore⟩ := hpre
  rw [← hmore] at hchain
  obtain ⟨-, -, hlast⟩ := List.isChain_append.mp hchain.left_of_append
  exact hlast (carried config before f) (by simp) _ rfl rfl

/-- A stall that lasts to the end, with the chunk that it pushes. -/
def EndsInStall (config : ChunkingConfig) (front : List Str) (c : Str) : Prop :=
  ∃ before f spaces, front = before ++ f :: spaces ∧ Stalls config before f spaces ∧
    c = carried config before f

namespace EndsInStall

variable {front : List Str} {c g : Str}

/-- A blank fragment more. -/
theorem concat (h : EndsInStall config front c) (hblank : Blank g) :
    EndsInStall config (front ++ [g]) c := by
  obtain ⟨before, f, spaces, rfl, hstalls, hc⟩ := h
  refine ⟨before, f, spaces ++ [g], by simp, ⟨hstalls.started, by simp, ?_, hstalls.overfull⟩, hc⟩
  intro b hb
  rcases List.mem_append.mp hb with hb | hb
  · exact hstalls.blank b hb
  · rw [List.mem_singleton.mp hb]
    exact hblank

/-- An extension that leaves nothing but the overlap of the last chunk prolongs a stall. -/
theorem of_room (h : Fitting config front) (hc : c ∈ (stateAfter config front).1.getLast?)
    (hstall : (stateAfter config front).2 = strip (tail config c) → EndsInStall config front c)
    (hsame : extended (stateAfter config front).2 g = strip (tail config c)) :
    EndsInStall config (front ++ [g]) c := by
  have hblank : Blank g := blank_of_nonSpace_extended (Running.carries h hc) hsame
  have hchunks : (stateAfter config front).1 ≠ [] := by
    intro hnil
    rw [hnil] at hc
    cases hc
  rw [extended_blank hblank, Running.strip_buffer h hchunks] at hsame
  exact (hstall hsame).concat hblank

/-- A cut that leaves nothing but the overlap starts a stall. -/
theorem of_cut (h : Fitting config front) (hne : front ≠ [])
    (hfull : config.chunkSize < (extended (stateAfter config front).2 g).length)
    (hsame : carried config front g = strip (tail config (stateAfter config front).2)) :
    EndsInStall config (front ++ [g]) (stateAfter config front).2 := by
  have hblank : Blank g := by
    rw [(h.running hne).carried_eq] at hsame
    exact blank_of_nonSpace_extended List.prefix_rfl hsame
  -- only a buffer that was too long before has no room for whitespace
  have hlong : config.chunkSize < (stateAfter config front).2.length := by
    rw [extended_blank hblank] at hfull
    exact hfull.trans_le (length_strip_le _)
  obtain ⟨before, f, rfl, hbefore, hbuffer⟩ := Running.exists_refilled h hlong
  refine ⟨before, f, [g], by simp, ⟨hbefore, by simp, by simpa using hblank, ?_⟩, hbuffer⟩
  rw [← hbuffer]
  exact hlong

/-- Where a buffer of nothing but the overlap has no room for the next fragment, the stall is
    not resolved. -/
theorem unresolved (h : EndsInStall config front c) (hfit : Fitting config front)
    (hsame : (stateAfter config front).2 = strip (tail config c))
    (hfull : config.chunkSize < (extended (stateAfter config front).2 g).length) :
    ∃ before f spaces, front = before ++ f :: spaces ∧ Stalls config before f spaces ∧
      ¬ Blank g ∧ config.chunkSize < (carried config (before ++ [f]) g).length := by
  obtain ⟨before, f, spaces, rfl, hstalls, rfl⟩ := h
  refine ⟨before, f, spaces, rfl, hstalls, ?_, ?_⟩
  · -- the overlap is short, so it is not whitespace that has no room with it
    intro hblank
    have hle := length_strip_le (tail config (carried config before f))
    rw [length_tail] at hle
    rw [extended_blank hblank, hsame, strip_strip] at hfull
    have hlt := config.overlapLt
    omega
  · rw [List.append_cons] at hfit
    rw [hstalls.carried_next hfit.front, ← hsame]
    exact hfull

end EndsInStall

/-- While no stall is left unresolved, the chunks progress, and a buffer of nothing but the
    overlap is a stall. -/
theorem progresses_or_stalls {front : List Str} (h : Fitting config front) (hne : front ≠ [])
    (hno : ∀ before f spaces g others, front = before ++ f :: spaces ++ g :: others →
      Stalls config before f spaces → ¬ Blank g →
        (carried config (before ++ [f]) g).length ≤ config.chunkSize) :
    (stateAfter config front).1.IsChain (Progresses config) ∧
      ∀ c ∈ (stateAfter config front).1.getLast?,
        (stateAfter config front).2 = strip (tail config c) → EndsInStall config front c := by
  induction front using List.reverseRecOn with
  | nil => exact absurd rfl hne
  | append_singleton front g ih =>
      rcases h.stateAfter_cases with ⟨-, hstate⟩ | ⟨hfront, -, hstate⟩ | ⟨hfront, hfull, hstate⟩
      · rw [hstate]
        exact ⟨List.isChain_nil, fun c hc => nomatch hc⟩
      · obtain ⟨hchain, hstall⟩ := ih h.front hfront fun before f spaces g' others hsplit =>
          hno before f spaces g' (others ++ [g]) (by rw [hsplit]; simp)
        rw [hstate]
        exact ⟨hchain, fun c hc hsame => .of_room h.front hc (hstall c hc) hsame⟩
      · obtain ⟨hchain, hstall⟩ := ih h.front hfront fun before f spaces g' others hsplit =>
          hno before f spaces g' (others ++ [g]) (by rw [hsplit]; simp)
        rw [hstate]
        constructor
        · refine List.isChain_append.mpr ⟨hchain, List.isChain_singleton _, ?_⟩
          intro c hc d hd hsame
          obtain rfl : (stateAfter config front).2 = d := by simpa using hd
          obtain ⟨before, f, spaces, hsplit, hstalls, hblank, hlong⟩ :=
            (hstall c hc hsame).unresolved h.front hsame hfull
          have hle := hno before f spaces g [] (by rw [hsplit]) hstalls hblank
          exact hle.not_gt hlong
        · intro c hc hsame
          obtain rfl : (stateAfter config front).2 = c := by simpa using hc
          exact .of_cut h.front hfront hfull hsame

theorem pushed_progresses_iff {fragments : List Str} (h : Fitting config fragments)
    (hne : fragments ≠ []) :
    (pushed (stateAfter config fragments)).IsChain (Progresses config) ↔
      ¬ Repeats config fragments := by
  constructor
  · exact fun hchain hrepeats => not_progresses_of_repeats h hrepeats hchain
  · intro hno
    obtain ⟨hchain, hstall⟩ := progresses_or_stalls h hne
      fun before f spaces g others hsplit hstalls hblank => by
        by_contra hfull
        refine hno ⟨before, f, spaces, g :: others, hsplit, hstalls, ?_⟩
        intro g' others' heq
        obtain ⟨rfl, -⟩ := List.cons.inj heq
        exact ⟨hblank, Nat.lt_of_not_le hfull⟩
    have hbuffer := not_blank_ne_nil (h.running hne).packed.buffer
    unfold pushed
    rw [if_pos hbuffer]
    refine List.isChain_append.mpr ⟨hchain, List.isChain_singleton _, ?_⟩
    intro c hc d hd hsame
    obtain rfl : (stateAfter config fragments).2 = d := by simpa using hd
    obtain ⟨before, f, spaces, hsplit, hstalls, -⟩ := hstall c hc hsame
    refine hno ⟨before, f, spaces, [], by rw [hsplit, List.append_nil], hstalls, ?_⟩
    intro g others heq
    cases heq

/-- Every chunk differs from the overlap that the one before it leaves exactly when no fragments
    of whitespace follow one that has filled the buffer past `chunk_size`, unless the next
    fragment has room with the overlap. -/
theorem split_progresses_iff (config : ChunkingConfig) (text : Str) :
    ((split config text).map (·.text)).IsChain (fun c d =>
      d ≠ strip (c.drop (c.length - min config.chunkOverlap c.length))) ↔
      ¬ Repeats config (recursiveSplit config separators (strip text)) := by
  have hprogresses : (fun c d : Str =>
      d ≠ strip (c.drop (c.length - min config.chunkOverlap c.length))) = Progresses config := by
    funext c d
    rw [← tail_eq_drop]
    rfl
  rw [map_text_split, hprogresses]
  by_cases hnil : strip text = []
  · refine iff_of_true ?_ ?_
    · rw [show splitTexts config text = [] from if_pos hnil]
      exact List.isChain_nil
    · rintro ⟨before, f, spaces, rest, hsplit, hstalls, -⟩
      rw [hnil, List.append_assoc, List.cons_append] at hsplit
      exact hstalls.started (nil_of_recursiveSplit_short (Nat.zero_le _) hsplit)
  · rw [splitTexts_of_ne_nil hnil, mergeWithOverlap_eq]
    exact pushed_progresses_iff (fitting_recursiveSplit hnil) (recursiveSplit_ne_nil hnil)

/-- A sentence of two words in chunks of ten: the last chunk is the end of the one before. -/
theorem split_progresses_fails :
    ¬ ((split ⟨10, 5, by decide, by decide⟩ "aaaaaaaaa bbbbbbb".toList).map (·.text)).IsChain
      (fun c d => d ≠ strip (c.drop (c.length - min 5 c.length))) := by
  have hchunks : (split ⟨10, 5, by decide, by decide⟩ "aaaaaaaaa bbbbbbb".toList).map (·.text) =
      ["aaaaaaaaa ".toList, "aaaa  bbbbbbb.".toList, "bbbb.".toList] := by decide
  rw [hchunks]
  intro h
  obtain ⟨-, -, hlast⟩ := List.isChain_append.mp
    (show (["aaaaaaaaa ".toList, "aaaa  bbbbbbb.".toList] ++ ["bbbb.".toList]).IsChain _ from h)
  exact hlast _ rfl _ rfl (by decide)

end RecursiveCharacterChunker

end Eka
