import Mathlib.Data.List.DropRight
import Dataflow.Device.Framer
import Dataflow.Proofs.NumberText
/-!
# What a framer makes of a stream

A reading of a stream is a line end with a digit directly before it, and its digits are the longest
run of digits that ends there. Main statement: however a stream is cut into chunks, a framer that was
given them holds the digits of the last reading of the stream and the bytes after it
(`pushAll_frames`).

`Framer.Frames` says what the whole stream makes of a framer, and one chunk leads from there to what
the longer stream makes of it (`Frames.push`). What the framer has dropped ends in a line feed, so no
reading of the longer stream can begin in it and end in what is left (`ReadsAt.of_append`).
-/
set_option autoImplicit false

namespace Dataflow.Framer

/-! ## Readings of a stream -/

/-- The stream has a reading at the line end between `pre` and `rest`. -/
structure ReadsAt (bytes pre rest : List UInt8) : Prop where
  split : bytes = pre ++ 13 :: 10 :: rest
  digit : pre.rtakeWhile isDigit ≠ []

/-- The reading is the last one of the stream. -/
structure ReadsLastAt (bytes pre rest : List UInt8) : Prop extends ReadsAt bytes pre rest where
  last : ∀ pre' rest', ReadsAt bytes pre' rest' → rest.length ≤ rest'.length

/-- What a stream makes of a framer: without a reading all bytes are pending; else the digits before
the last one are its value, and the bytes after it are pending. -/
inductive Frames (bytes : List UInt8) : Framer → Prop where
  | unread (h : ∀ pre rest, ¬ ReadsAt bytes pre rest) : Frames bytes ⟨bytes, none⟩
  | read {pre rest : List UInt8} (h : ReadsLastAt bytes pre rest) :
      Frames bytes ⟨rest, some (digitText (pre.rtakeWhile isDigit))⟩

/-- The framer after the chunks were pushed in their order. -/
def pushAll (f : Framer) (chunks : List (List UInt8)) : Framer :=
  chunks.foldl (fun f chunk => (f.push chunk).1) f

variable {bytes pre rest lead tail : List UInt8}

/-- A run of digits does not reach across bytes that end in something else. -/
theorem rtakeWhile_append_of_nil {α : Type} {p : α → Bool} {l : List α} (h : l.rtakeWhile p = [])
    (m : List α) : (l ++ m).rtakeWhile p = m.rtakeWhile p := by
  induction m using List.reverseRecOn with
  | nil => rw [List.append_nil, h, List.rtakeWhile_nil]
  | append_singleton m x ih =>
    rw [← List.append_assoc, List.rtakeWhile_concat, List.rtakeWhile_concat, ih]

/-- The bytes are those of a whole number of lines. -/
def EndsLine (bytes : List UInt8) : Prop :=
  bytes = [] ∨ ∃ l, bytes = l ++ [10]

theorem EndsLine.rtakeWhile (h : EndsLine lead) : lead.rtakeWhile isDigit = [] := by
  rcases h with rfl | ⟨l, rfl⟩
  · rfl
  · exact List.rtakeWhile_concat_neg _ _ _ (by decide)

/-- Behind whole lines no digits have been read yet. -/
theorem EndsLine.run (h : EndsLine lead) : [] = (lead.rtakeWhile isDigit).reverse := by
  rw [h.rtakeWhile, List.reverse_nil]

theorem endsLine_lineEnd (pre : List UInt8) : EndsLine (pre ++ [13, 10]) :=
  .inr ⟨pre ++ [13], by simp⟩

theorem ReadsAt.append_left (h : ReadsAt tail pre rest) (hlead : EndsLine lead) :
    ReadsAt (lead ++ tail) (lead ++ pre) rest where
  split := by rw [h.split, List.append_assoc]
  digit := by
    rw [rtakeWhile_append_of_nil hlead.rtakeWhile]
    exact h.digit

theorem ReadsAt.append_right (h : ReadsAt bytes pre rest) (tail : List UInt8) :
    ReadsAt (bytes ++ tail) pre (rest ++ tail) where
  split := by rw [h.split, List.append_assoc, List.cons_append, List.cons_append]
  digit := h.digit

/-- A reading that ends in front of the last bytes is there without them. -/
theorem ReadsAt.of_append_right (h : ReadsAt (bytes ++ tail) pre rest)
    (hrest : tail.length ≤ rest.length) :
    ReadsAt bytes pre (rest.take (rest.length - tail.length)) where
  split := by
    have hsplit := h.split
    rw [← List.take_append_drop (rest.length - tail.length) rest, ← List.cons_append,
      ← List.cons_append, ← List.append_assoc] at hsplit
    refine (List.append_inj' hsplit ?_).1
    rw [List.length_drop]
    omega
  digit := h.digit

/-- A reading that ends behind whole lines is one of the bytes behind them. -/
theorem ReadsAt.of_append (h : ReadsAt (lead ++ tail) pre rest) (hlead : EndsLine lead)
    (hrest : rest.length < tail.length) : ∃ mid, pre = lead ++ mid ∧ ReadsAt tail mid rest := by
  have hbehind : ∀ mid, pre = lead ++ mid → tail = mid ++ 13 :: 10 :: rest → ReadsAt tail mid rest := by
    intro mid hmid htail
    refine ⟨htail, ?_⟩
    rw [← rtakeWhile_append_of_nil hlead.rtakeWhile, ← hmid]
    exact h.digit
  obtain ⟨mid, hmid, htail⟩ | ⟨cut, hcut, htail⟩ := List.append_eq_append_iff.mp h.split
  · exact ⟨mid, hmid, hbehind mid hmid htail⟩
  · -- The lines can only reach up to the line end; they do not end inside it.
    match cut, hcut, htail with
    | [], hcut, htail =>
      rw [List.append_nil] at hcut
      exact ⟨[], by rw [List.append_nil, hcut], hbehind [] (by rw [List.append_nil, hcut]) htail.symm⟩
    | [b], hcut, htail =>
      obtain rfl : 13 = b := (List.cons.inj htail).1
      rcases hlead with rfl | ⟨l, rfl⟩
      · exact absurd hcut (by simp)
      · exact absurd (List.append_inj' hcut rfl).2 (by decide)
    | b :: c :: cut, hcut, htail =>
      have hlength := congrArg List.length htail
      simp only [List.length_cons, List.length_append] at hlength
      omega

/-! ## One reading -/

/-- The digits directly before a byte, the last first, become those before the next one. -/
theorem reverse_rtakeWhile_concat {run : List UInt8} (hrun : run = (lead.rtakeWhile isDigit).reverse)
    (b : UInt8) :
    (if isDigit b then b :: run else []) = ((lead ++ [b]).rtakeWhile isDigit).reverse := by
  rw [List.rtakeWhile_concat, hrun]
  split
  · rw [List.reverse_append, List.reverse_singleton, List.singleton_append]
  · rfl

/-- Where no reading is taken, no line end has a digit directly before it. -/
theorem rtakeWhile_of_takeReading_eq_none {run : List UInt8}
    (hrun : run = (lead.rtakeWhile isDigit).reverse) (h : takeReading run bytes = none) :
    ∀ mid rest, bytes = mid ++ 13 :: 10 :: rest → (lead ++ mid).rtakeWhile isDigit = [] := by
  -- On the bytes, for all bytes before them: the run is always the digits that stand there last.
  fun_induction takeReading run bytes generalizing lead with
  | case1 run =>
    intro mid rest hsplit
    exact absurd hsplit (by simp)
  | case2 run rest hempty ih =>
    intro mid rest' hsplit
    have hskip := ih (endsLine_lineEnd lead).run h
    match mid with
    | [] =>
      rw [List.append_nil, ← List.reverse_eq_nil_iff, ← hrun]
      exact List.isEmpty_iff.mp hempty
    | [b] =>
      exact absurd hsplit (by simp)
    | b :: c :: mid =>
      obtain ⟨rfl, rfl, hrest⟩ : 13 = b ∧ 10 = c ∧ rest = mid ++ 13 :: 10 :: rest' := by
        simpa using hsplit
      simpa using hskip mid rest' hrest
  | case3 run rest hempty => exact absurd h (by simp)
  | case4 run b rest hline ih =>
    intro mid rest' hsplit
    have hskip := ih (reverse_rtakeWhile_concat hrun b) h
    match mid with
    | [] =>
      obtain ⟨rfl, hrest⟩ := List.cons.inj hsplit
      exact (hline _ rfl hrest).elim
    | c :: mid =>
      obtain ⟨rfl, hrest⟩ := List.cons.inj hsplit
      simpa using hskip mid rest' hrest

/-- A reading that is taken has the digits that stand directly before its line end. -/
theorem rtakeWhile_of_takeReading_eq_some {run digits : List UInt8}
    (hrun : run = (lead.rtakeWhile isDigit).reverse) (h : takeReading run bytes = some (digits, rest)) :
    ∃ mid, bytes = mid ++ 13 :: 10 :: rest ∧ digits ≠ [] ∧
      (lead ++ mid).rtakeWhile isDigit = digits := by
  fun_induction takeReading run bytes generalizing lead with
  | case1 run => exact absurd h (by simp)
  | case2 run rest' hempty ih =>
    obtain ⟨mid, hmid, hdigits, htake⟩ := ih (endsLine_lineEnd lead).run h
    exact ⟨13 :: 10 :: mid, by rw [hmid]; rfl, hdigits, by simpa using htake⟩
  | case3 run rest' hempty =>
    simp only [Option.some.injEq, Prod.mk.injEq] at h
    obtain ⟨rfl, rfl⟩ := h
    refine ⟨[], rfl, ?_, ?_⟩
    · simpa using hempty
    · rw [List.append_nil, hrun, List.reverse_reverse]
  | case4 run b rest' hline ih =>
    obtain ⟨mid, hmid, hdigits, htake⟩ := ih (reverse_rtakeWhile_concat hrun b) h
    exact ⟨b :: mid, by rw [hmid]; rfl, hdigits, by simpa using htake⟩

theorem not_readsAt_of_takeReading (h : takeReading [] bytes = none) (pre rest : List UInt8) :
    ¬ ReadsAt bytes pre rest := by
  have hstart : EndsLine [] := .inl rfl
  intro hreads
  exact hreads.digit (rtakeWhile_of_takeReading_eq_none hstart.run h pre rest hreads.split)

theorem readsAt_of_takeReading {digits : List UInt8} (h : takeReading [] bytes = some (digits, rest)) :
    ∃ pre, ReadsAt bytes pre rest ∧ pre.rtakeWhile isDigit = digits := by
  have hstart : EndsLine [] := .inl rfl
  obtain ⟨pre, hsplit, hdigits, htake⟩ := rtakeWhile_of_takeReading_eq_some hstart.run h
  rw [List.nil_append] at htake
  exact ⟨pre, ⟨hsplit, htake ▸ hdigits⟩, htake⟩

/-! ## All readings -/

/-- The last reading of what follows a reading is the last of all. -/
theorem ReadsLastAt.append_left (h : ReadsLastAt tail pre rest) (hlead : EndsLine lead) :
    ReadsLastAt (lead ++ tail) (lead ++ pre) rest where
  toReadsAt := h.toReadsAt.append_left hlead
  last := fun pre' rest' hreads => by
    by_contra hshorter
    have hlength := congrArg List.length h.split
    simp only [List.length_append, List.length_cons] at hlength
    obtain ⟨mid, -, hmid⟩ := hreads.of_append hlead (by omega)
    exact hshorter (h.last mid rest' hmid)

/-- A reading with none in the bytes after it is the last one. -/
theorem ReadsAt.last_of_not_readsAt (h : ReadsAt bytes pre rest)
    (hrest : ∀ pre' rest', ¬ ReadsAt rest pre' rest') : ReadsLastAt bytes pre rest where
  toReadsAt := h
  last := fun pre' rest' hreads => by
    by_contra hshorter
    have hsplit : bytes = (pre ++ [13, 10]) ++ rest := by simpa using h.split
    rw [hsplit] at hreads
    obtain ⟨mid, -, hmid⟩ := hreads.of_append (endsLine_lineEnd pre) (by omega)
    exact hrest mid rest' hmid

/-- Taking readings as long as there are any leaves the last one and what follows it. -/
theorem takeAll_spec {fuel : Nat} (hfuel : bytes.length ≤ fuel) (last : Option (List UInt8)) :
    ((∀ pre rest, ¬ ReadsAt bytes pre rest) ∧ takeAll fuel last bytes = (last, bytes)) ∨
      ∃ pre rest, ReadsLastAt bytes pre rest ∧
        takeAll fuel last bytes = (some (pre.rtakeWhile isDigit), rest) := by
  induction fuel generalizing last bytes with
  | zero =>
    left
    rw [List.eq_nil_of_length_eq_zero (Nat.le_zero.mp hfuel)]
    exact ⟨fun pre rest h => absurd h.split (by simp), rfl⟩
  | succ fuel ih =>
    rw [takeAll]
    cases htake : takeReading [] bytes with
    | none => exact .inl ⟨not_readsAt_of_takeReading htake, rfl⟩
    | some taken =>
      obtain ⟨digits, after⟩ := taken
      obtain ⟨first, hfirst, rfl⟩ := readsAt_of_takeReading htake
      have hsplit : bytes = (first ++ [13, 10]) ++ after := by simpa using hfirst.split
      have hlength := congrArg List.length hfirst.split
      simp only [List.length_append, List.length_cons] at hlength
      have hafter : after.length ≤ fuel := by omega
      right
      rcases ih hafter (some (first.rtakeWhile isDigit)) with
        ⟨hnone, heq⟩ | ⟨pre, rest, hlast, heq⟩
      · exact ⟨first, after, hfirst.last_of_not_readsAt hnone, heq⟩
      · have hends := endsLine_lineEnd first
        refine ⟨first ++ [13, 10] ++ pre, rest, ?_, ?_⟩
        · rw [hsplit]
          exact hlast.append_left hends
        · rw [rtakeWhile_append_of_nil hends.rtakeWhile]
          exact heq

/-! ## Chunks -/

/-- What a framer has dropped of its stream is whole lines, and what it has kept has no reading. -/
theorem Frames.exists_dropped {f : Framer} (h : Frames bytes f) :
    ∃ lead, EndsLine lead ∧ bytes = lead ++ f.pending ∧
      ∀ pre rest, ¬ ReadsAt f.pending pre rest := by
  cases h with
  | unread h => exact ⟨[], .inl rfl, rfl, h⟩
  | @read pre rest h =>
    have hsplit : bytes = (pre ++ [13, 10]) ++ rest := by simpa using h.split
    refine ⟨pre ++ [13, 10], endsLine_lineEnd pre, hsplit, fun pre' rest' hreads => ?_⟩
    have hlast := h.last _ rest' (hsplit ▸ hreads.append_left (endsLine_lineEnd pre))
    have hlength := congrArg List.length hreads.split
    simp only [List.length_append, List.length_cons] at hlength
    omega

/-- A reading that ends in a chunk is one of what the framer looks at. -/
theorem Frames.readsAt_pending {f : Framer} (h : Frames bytes f) {chunk : List UInt8}
    (hreads : ReadsAt (bytes ++ chunk) pre rest) (hrest : rest.length < (f.pending ++ chunk).length) :
    ∃ mid, ReadsAt (f.pending ++ chunk) mid rest := by
  obtain ⟨lead, hlead, rfl, -⟩ := h.exists_dropped
  rw [List.append_assoc] at hreads
  obtain ⟨mid, -, hmid⟩ := hreads.of_append hlead hrest
  exact ⟨mid, hmid⟩

/-- Bytes that complete no reading are put with the pending ones. -/
theorem Frames.append_of_not_readsAt {f : Framer} (h : Frames bytes f) {chunk : List UInt8}
    (hnone : ∀ pre rest, ¬ ReadsAt (f.pending ++ chunk) pre rest) :
    Frames (bytes ++ chunk) { f with pending := f.pending ++ chunk } := by
  have hpending : ∀ pre rest, ReadsAt (bytes ++ chunk) pre rest →
      rest.length < (f.pending ++ chunk).length → ∃ mid, ReadsAt (f.pending ++ chunk) mid rest :=
    fun _ _ => h.readsAt_pending
  cases h with
  | unread _ => exact .unread hnone
  | read hlast =>
    refine .read ⟨hlast.toReadsAt.append_right chunk, fun pre' rest' hreads => ?_⟩
    by_contra hshorter
    obtain ⟨mid, hmid⟩ := hpending pre' rest' hreads (Nat.lt_of_not_le hshorter)
    exact hnone mid rest' hmid

/-- **A chunk makes of a framer what the longer stream does, and completes a reading when one ends in
it.** -/
theorem Frames.push {f : Framer} (h : Frames bytes f) (chunk : List UInt8) :
    Frames (bytes ++ chunk) (f.push chunk).1 ∧
      ((f.push chunk).2 = true ↔
        ∃ pre rest, ReadsAt (bytes ++ chunk) pre rest ∧ rest.length < chunk.length) := by
  rw [Framer.push]
  rcases takeAll_spec (le_refl (f.pending ++ chunk).length) none with
    ⟨hnone, heq⟩ | ⟨pre, rest, hlast, heq⟩
  · simp only [heq]
    refine ⟨h.append_of_not_readsAt hnone, iff_of_false (by simp) ?_⟩
    rintro ⟨pre, rest, hreads, hrest⟩
    obtain ⟨mid, hmid⟩ := h.readsAt_pending hreads (by rw [List.length_append]; omega)
    exact hnone mid rest hmid
  · obtain ⟨lead, hlead, hsplit, hquiet⟩ := h.exists_dropped
    have hwhole := hlast.append_left hlead
    rw [← List.append_assoc, ← hsplit] at hwhole
    simp only [heq]
    refine ⟨?_, iff_of_true trivial ⟨lead ++ pre, rest, hwhole.toReadsAt, ?_⟩⟩
    · rw [← rtakeWhile_append_of_nil hlead.rtakeWhile]
      exact .read hwhole
    · -- Otherwise the reading would have been among the pending bytes.
      by_contra hlonger
      exact hquiet pre _ (hlast.toReadsAt.of_append_right (Nat.le_of_not_lt hlonger))

/-- A chunk that completes no reading leaves the value. -/
theorem value_push {f : Framer} {chunk : List UInt8} (h : (f.push chunk).2 = false) :
    (f.push chunk).1.value = f.value := by
  unfold Framer.push at h ⊢
  dsimp only at h ⊢
  split at h
  · rfl
  · exact absurd h (by simp)

theorem isSome_value_push {f : Framer} {chunk : List UInt8} (h : (f.push chunk).2 = true) :
    (f.push chunk).1.value.isSome := by
  unfold Framer.push at h ⊢
  dsimp only at h ⊢
  split at h
  · exact absurd h (by simp)
  · rfl

/-! ## Whole streams -/

theorem ReadsLastAt.unique {pre' rest' : List UInt8} (h : ReadsLastAt bytes pre rest)
    (h' : ReadsLastAt bytes pre' rest') : pre = pre' ∧ rest = rest' := by
  have hlength : rest.length = rest'.length :=
    Nat.le_antisymm (h.last _ _ h'.toReadsAt) (h'.last _ _ h.toReadsAt)
  obtain ⟨hpre, hrest⟩ := List.append_inj' (h.split.symm.trans h'.split) (by simp [hlength])
  exact ⟨hpre, by simpa using hrest⟩

/-- **A stream makes one thing of a framer.** -/
theorem Frames.unique {f g : Framer} (hf : Frames bytes f) (hg : Frames bytes g) : f = g := by
  cases hf with
  | unread hnone =>
    cases hg with
    | unread _ => rfl
    | read hlast => exact absurd hlast.toReadsAt (hnone _ _)
  | read hlast =>
    cases hg with
    | unread hnone => exact absurd hlast.toReadsAt (hnone _ _)
    | read hlast' =>
      obtain ⟨rfl, rfl⟩ := hlast.unique hlast'
      rfl

theorem frames_nil : Frames [] {} :=
  .unread fun pre rest h => absurd h.split (by simp)

/-- However a stream is cut, the framer ends as the stream makes it. -/
theorem frames_pushAll (chunks : List (List UInt8)) : Frames chunks.flatten (pushAll {} chunks) := by
  induction chunks using List.reverseRecOn with
  | nil => exact frames_nil
  | append_singleton chunks chunk ih =>
    have hflatten : (chunks ++ [chunk]).flatten = chunks.flatten ++ chunk := by simp
    have hpush : pushAll {} (chunks ++ [chunk]) = ((pushAll {} chunks).push chunk).1 := by
      simp [pushAll]
    rw [hflatten, hpush]
    exact (ih.push chunk).1

/-! ## The text of a reading -/

end Dataflow.Framer
