import Dataflow.Proofs.Framing
import Dataflow.Proofs.Signs
/-!
# What a listener is told

Main statement: however the data of a script is cut into reads, the feed shows the last reading of the
data before the first event that ends it; the listener is told publications in their order, each the
newest one and none twice, and of the end only when it has been told the last one (`told_of_runs`).

The invariant of a run (`Runs.holds`) ties the framer to the data and the channel to the signs. Whether
an event publishes anything does not depend on the cut: it does exactly when the whole stream has a
reading that ends in the data of the event (`version_lt_foldl_read_iff`).
-/
set_option autoImplicit false

namespace Dataflow

/-! ## Feeds -/

namespace Feed

variable {stream bytes chunk : List UInt8} {chunks : List (List UInt8)} {steps : List Step}
  {signs signs' : List Sign} {f g : Feed} {e : FeedEvent}

theorem read_of_push (h : (f.framer.push chunk).2 = true) :
    f.read chunk = { f with
      framer := (f.framer.push chunk).1
      channel := f.channel.send (f.framer.push chunk).1.value } := by
  unfold read
  split
  · next heq => rw [heq]
  · next heq =>
    rw [heq] at h
    exact absurd h (by simp)

theorem read_of_not_push (h : (f.framer.push chunk).2 = false) :
    f.read chunk = { f with framer := (f.framer.push chunk).1 } := by
  unfold read
  split
  · next heq =>
    rw [heq] at h
    exact absurd h (by simp)
  · next heq => rw [heq]

theorem framer_read (f : Feed) (chunk : List UInt8) : (f.read chunk).framer = (f.framer.push chunk).1 := by
  cases h : (f.framer.push chunk).2 with
  | true => rw [read_of_push h]
  | false => rw [read_of_not_push h]

theorem seen_read (f : Feed) (chunk : List UInt8) : (f.read chunk).channel.seen = f.channel.seen := by
  cases h : (f.framer.push chunk).2 with
  | true =>
    rw [read_of_push h]
    rfl
  | false => rw [read_of_not_push h]

theorem version_le_read (f : Feed) (chunk : List UInt8) :
    f.channel.version ≤ (f.read chunk).channel.version := by
  cases h : (f.framer.push chunk).2 with
  | true =>
    rw [read_of_push h]
    exact Nat.le_succ _
  | false => rw [read_of_not_push h]

theorem version_lt_read_iff :
    f.channel.version < (f.read chunk).channel.version ↔ (f.framer.push chunk).2 = true := by
  cases h : (f.framer.push chunk).2 with
  | true =>
    rw [read_of_push h]
    exact iff_of_true (Nat.lt_succ_self _) rfl
  | false =>
    rw [read_of_not_push h]
    exact iff_of_false (Nat.lt_irrefl _) (by simp)

theorem publishing_cons (f : Feed) (chunk : List UInt8) (rest : List (List UInt8)) :
    publishing f (chunk :: rest) = publishing f [chunk] ++ publishing (f.read chunk) rest := by
  simp [publishing]

/-- The feed is as the bytes it has read make it, and its channel as the signs tell. -/
structure Holds (stream : List UInt8) (signs : List Sign) (f : Feed) : Prop where
  tells : Channel.Tells signs f.channel
  frames : Framer.Frames stream f.framer
  value_eq : f.channel.value = f.framer.value
  closed_eq : f.channel.closed = f.ended.isSome

theorem Holds.read (h : Holds stream signs f) (hopen : f.ended = none) (chunk : List UInt8) :
    Holds (stream ++ chunk) (signs ++ publishing f [chunk]) (f.read chunk) ∧
      (f.read chunk).ended = none := by
  have hframes := (h.frames.push chunk).1
  cases hpush : (f.framer.push chunk).2 with
  | true =>
    have hpublishing : publishing f [chunk] = [.published (f.framer.push chunk).1.value] := by
      rw [publishing, if_pos (version_lt_read_iff.mpr hpush), read_of_push hpush]
      rfl
    have hclosed : f.channel.closed = false := by rw [h.closed_eq, hopen, Option.isSome_none]
    rw [hpublishing, read_of_push hpush]
    exact ⟨⟨h.tells.send hclosed (Framer.isSome_value_push hpush), hframes, rfl, h.closed_eq⟩, hopen⟩
  | false =>
    have hpublishing : publishing f [chunk] = [] := by
      have hversion : ¬ f.channel.version < (f.read chunk).channel.version := by
        rw [version_lt_read_iff, hpush]
        exact Bool.false_ne_true
      rw [publishing, if_neg hversion]
      rfl
    rw [hpublishing, List.append_nil, read_of_not_push hpush]
    exact ⟨⟨h.tells, hframes, h.value_eq.trans (Framer.value_push hpush).symm, h.closed_eq⟩, hopen⟩

/-- Reading chunk by chunk gives the feed the bytes of all of them. -/
theorem Holds.foldl_read (h : Holds stream signs f) (hopen : f.ended = none)
    (chunks : List (List UInt8)) :
    Holds (stream ++ chunks.flatten) (signs ++ publishing f chunks) (chunks.foldl Feed.read f) ∧
      (chunks.foldl Feed.read f).ended = none := by
  induction chunks generalizing stream signs f with
  | nil =>
    rw [publishing, List.flatten_nil, List.append_nil, List.append_nil]
    exact ⟨h, hopen⟩
  | cons chunk rest ih =>
    obtain ⟨hread, hstill⟩ := h.read hopen chunk
    rw [publishing_cons, List.flatten_cons, ← List.append_assoc, ← List.append_assoc]
    exact ih hread hstill

/-! ## Scripts -/

theorem firstEnding?_concat (steps : List Step) (s : Step) :
    firstEnding? (steps ++ [s]) = (firstEnding? steps).or s.ending? := by
  unfold firstEnding?
  rw [List.findSome?_append, List.findSome?_singleton]

/-- Behind the end of a feed only what the listener does is heeded. -/
theorem heeded_concat (steps : List Step) (s : Step) :
    heeded (steps ++ [s])
      = if (firstEnding? steps).isSome ∧ s ≠ .listen then heeded steps else heeded steps ++ [s] := by
  induction steps with
  | nil =>
    show heeded [s] = [s]
    unfold heeded
    split <;> rfl
  | cons t rest ih =>
    rw [List.cons_append]
    unfold heeded firstEnding?
    rw [List.findSome?_cons]
    cases ht : t.ending? with
    | some e =>
      dsimp only
      by_cases hs : s = .listen <;> simp [hs]
    | none =>
      dsimp only
      rw [ih]
      exact apply_ite (List.cons t) _ _ _

theorem received_concat_of_open (h : firstEnding? steps = none) (s : Step) :
    received (steps ++ [s]) = received steps ++ s.bytes := by
  unfold received
  rw [heeded_concat, h, if_neg (by simp), List.flatMap_append, List.flatMap_singleton]

theorem received_concat_of_ended (h : (firstEnding? steps).isSome) (s : Step) :
    received (steps ++ [s]) = received steps := by
  unfold received
  rw [heeded_concat]
  cases s with
  | event e => rw [if_pos ⟨h, by simp⟩]
  | listen =>
    rw [if_neg (by simp), List.flatMap_append]
    exact List.append_nil _

theorem isSome_end?_of_firstEnding? (h : firstEnding? steps = some e) : e.end?.isSome := by
  obtain ⟨s, -, hs⟩ := List.exists_of_findSome?_eq_some h
  cases s with
  | listen => exact absurd hs (by simp [Step.ending?])
  | event e' =>
    unfold Step.ending? at hs
    dsimp only at hs
    split at hs
    · next hends =>
      cases hs
      exact hends
    · exact absurd hs (by simp)

theorem isSome_bind_end? (steps : List Step) :
    ((firstEnding? steps).bind FeedEvent.end?).isSome = (firstEnding? steps).isSome := by
  cases h : firstEnding? steps with
  | none => rfl
  | some e => exact isSome_end?_of_firstEnding? h

theorem ending?_of_end? {how : FeedEnd} (h : e.end? = some how) : (Step.event e).ending? = some e := by
  unfold Step.ending?
  dsimp only
  rw [h, Option.isSome_some, if_pos rfl]

theorem bytes_of_end? {how : FeedEnd} (h : e.end? = some how) : (Step.event e).bytes = [] := by
  cases e with
  | data bytes => exact absurd h (by simp [FeedEvent.end?])
  | _ => rfl

/-! ## What a run keeps -/

/-- **The feed of a run** is as the data before the first ending makes it and has ended in the way of
this ending; its channel is as the signs tell. -/
theorem Runs.holds (h : Runs steps signs f) :
    Holds (received steps) signs f ∧ f.ended = (firstEnding? steps).bind FeedEvent.end? := by
  induction h with
  | start => exact ⟨⟨Channel.tells_start, Framer.frames_nil, rfl, rfl⟩, rfl⟩
  | @event steps signs published f g e _ hevent ih =>
    obtain ⟨hholds, hended⟩ := ih
    have hisSome : f.ended.isSome = (firstEnding? steps).isSome := by
      rw [hended, isSome_bind_end?]
    have hfirst : f.ended = none → firstEnding? steps = none := by
      intro hopen
      rw [hopen] at hisSome
      exact Option.isSome_eq_false_iff.mp hisSome.symm |> Option.isNone_iff_eq_none.mp
    rw [firstEnding?_concat]
    cases hevent with
    | @data bytes chunks hopen hcut =>
      obtain ⟨hread, hstill⟩ := hholds.foldl_read hopen chunks
      rw [received_concat_of_open (hfirst hopen), hfirst hopen]
      show Holds (received steps ++ bytes) _ _ ∧ _ = none
      rw [← hcut.flatten_eq]
      exact ⟨hread, hstill⟩
    | ends hopen hends =>
      rw [received_concat_of_open (hfirst hopen), bytes_of_end? hends, List.append_nil, hfirst hopen,
        ending?_of_end? hends]
      exact ⟨⟨hholds.tells.close _, hholds.frames, hholds.value_eq, rfl⟩, hends.symm⟩
    | ignored hclosed =>
      rw [hisSome] at hclosed
      rw [received_concat_of_ended hclosed, Option.or_of_isSome hclosed, List.append_nil]
      exact ⟨hholds, hended⟩
  | @listen steps signs f _ ih =>
    obtain ⟨hholds, hended⟩ := ih
    have hreceived : received (steps ++ [.listen]) = received steps := by
      unfold received
      rw [heeded_concat, if_neg (by simp), List.flatMap_append]
      exact List.append_nil _
    have hclosed : f.listen.2.channel.closed = f.channel.closed ∧
        f.listen.2.channel.value = f.channel.value := by
      unfold Feed.listen Channel.listen
      split
      · exact ⟨rfl, rfl⟩
      · split <;> exact ⟨rfl, rfl⟩
    have hfirst : firstEnding? (steps ++ [.listen]) = firstEnding? steps := by
      rw [firstEnding?_concat]
      exact Option.or_none
    rw [hreceived, hfirst]
    exact ⟨⟨hholds.tells.listen, hholds.frames, hclosed.2.trans hholds.value_eq,
      hclosed.1.trans hholds.closed_eq⟩, hended⟩

/-! ## Cuts -/

theorem version_le_foldl_read (f : Feed) (chunks : List (List UInt8)) :
    f.channel.version ≤ (chunks.foldl read f).channel.version := by
  induction chunks generalizing f with
  | nil => exact Nat.le_refl _
  | cons chunk rest ih => exact (version_le_read f chunk).trans (ih (f.read chunk))

theorem seen_foldl_read (f : Feed) (chunks : List (List UInt8)) :
    (chunks.foldl read f).channel.seen = f.channel.seen := by
  induction chunks generalizing f with
  | nil => rfl
  | cons chunk rest ih => exact (ih (f.read chunk)).trans (seen_read f chunk)

/-- **Data is published from exactly when a reading of the whole stream ends in it,** however it is
cut. -/
theorem version_lt_foldl_read_iff (h : Framer.Frames stream f.framer) (chunks : List (List UInt8)) :
    f.channel.version < (chunks.foldl read f).channel.version ↔
      ∃ pre rest, Framer.ReadsAt (stream ++ chunks.flatten) pre rest ∧
        rest.length < chunks.flatten.length := by
  induction chunks generalizing stream f with
  | nil =>
    refine iff_of_false (Nat.lt_irrefl _) ?_
    rintro ⟨pre, rest, -, hlt⟩
    exact Nat.not_lt_zero _ hlt
  | cons chunk rest ih =>
    obtain ⟨hframes, hpush⟩ := h.push chunk
    rw [← framer_read] at hframes
    rw [List.foldl_cons, List.flatten_cons, List.length_append, ← List.append_assoc]
    have hfirst := version_le_read f chunk
    have hlater := version_le_foldl_read (f.read chunk) rest
    have hsum : f.channel.version < (rest.foldl read (f.read chunk)).channel.version ↔
        f.channel.version < (f.read chunk).channel.version ∨
          (f.read chunk).channel.version < (rest.foldl read (f.read chunk)).channel.version := by
      omega
    rw [hsum, version_lt_read_iff, hpush, ih hframes]
    constructor
    · rintro (⟨pre, after, hreads, hlt⟩ | ⟨pre, after, hreads, hlt⟩)
      · refine ⟨pre, after ++ rest.flatten, hreads.append_right rest.flatten, ?_⟩
        rw [List.length_append]
        omega
      · exact ⟨pre, after, hreads, by omega⟩
    · rintro ⟨pre, after, hreads, hlt⟩
      by_cases hin : after.length < rest.flatten.length
      · exact .inr ⟨pre, after, hreads, hin⟩
      · refine .inl ⟨pre, _, hreads.of_append_right (Nat.le_of_not_lt hin), ?_⟩
        rw [List.length_take]
        omega

theorem due_foldl_read_iff (h : Holds stream signs f) (chunks : List (List UInt8)) :
    (chunks.foldl read f).channel.due = [] ↔ f.channel.due = [] ∧
      ¬ ∃ pre rest, Framer.ReadsAt (stream ++ chunks.flatten) pre rest ∧
        rest.length < chunks.flatten.length := by
  have hseen := h.tells.seen_le
  have hversion := version_le_foldl_read f chunks
  rw [← version_lt_foldl_read_iff h.frames, Channel.due_eq_nil_iff, Channel.due_eq_nil_iff,
    seen_foldl_read]
  omega

theorem news_append (signs signs' : List Sign) : news (signs ++ signs') = news signs ++ news signs' :=
  List.filterMap_append

theorem news_publishing (f : Feed) (chunks : List (List UInt8)) : news (publishing f chunks) = [] := by
  induction chunks generalizing f with
  | nil => rfl
  | cons chunk rest ih =>
    unfold publishing
    rw [news_append, ih, List.append_nil]
    split <;> rfl

theorem Runs.of_event (h : Runs (steps ++ [.event e]) signs g) :
    ∃ before published f, signs = before ++ published ∧ Runs steps before f ∧
      Handles f e published g := by
  generalize hall : steps ++ [.event e] = all at h
  cases h with
  | start => exact absurd hall (by simp)
  | event h hevent =>
    obtain ⟨rfl, hlast⟩ := List.append_inj' hall rfl
    cases hlast
    exact ⟨_, _, _, rfl, h, hevent⟩
  | listen h => exact absurd (List.append_inj' hall rfl).2 (by simp)

theorem Runs.of_listen (h : Runs (steps ++ [.listen]) signs g) :
    ∃ before f, signs = before ++ [.told f.listen.1] ∧ Runs steps before f ∧ g = f.listen.2 := by
  generalize hall : steps ++ [.listen] = all at h
  cases h with
  | start => exact absurd hall (by simp)
  | event h hevent => exact absurd (List.append_inj' hall rfl).2 (by simp)
  | listen h =>
    obtain ⟨rfl, -⟩ := List.append_inj' hall rfl
    exact ⟨_, _, rfl, h, rfl⟩

/-- Two runs of a script end in feeds that show and have read the same. -/
theorem Runs.same (h : Runs steps signs f) (h' : Runs steps signs' g) :
    f.framer = g.framer ∧ f.channel.value = g.channel.value ∧ f.ended = g.ended := by
  obtain ⟨hf, hfended⟩ := h.holds
  obtain ⟨hg, hgended⟩ := h'.holds
  have hframer := hf.frames.unique hg.frames
  refine ⟨hframer, ?_, hfended.trans hgended.symm⟩
  rw [hf.value_eq, hg.value_eq, hframer]

/-- **The listener is told the same however the data is cut.** -/
theorem Runs.same_news (h : Runs steps signs f) (h' : Runs steps signs' g) :
    news signs = news signs' ∧ (f.channel.due = [] ↔ g.channel.due = []) := by
  induction h generalizing signs' g with
  | start =>
    generalize hall : ([] : List Step) = all at h'
    cases h' with
    | start => exact ⟨rfl, Iff.rfl⟩
    | event h hevent => exact absurd hall (by simp)
    | listen h => exact absurd hall (by simp)
  | @event steps signs published f₁ f e h hevent ih =>
    obtain ⟨before, published', g₁, rfl, hbefore, hevent'⟩ := h'.of_event
    obtain ⟨hnews, hdue⟩ := ih hbefore
    obtain ⟨hframer, hvalue, hended⟩ := h.same hbefore
    rw [news_append, news_append, hnews]
    cases hevent with
    | data hopen hcut =>
      cases hevent' with
      | data hopen' hcut' =>
        rw [news_publishing, news_publishing, due_foldl_read_iff h.holds.1,
          due_foldl_read_iff hbefore.holds.1, hcut.flatten_eq, hcut'.flatten_eq, hdue]
        exact ⟨rfl, Iff.rfl⟩
      | ends hopen' hends' => exact absurd hends' (by simp [FeedEvent.end?])
      | ignored hclosed' =>
        rw [← hended, hopen] at hclosed'
        exact absurd hclosed' (by simp)
    | ends hopen hends =>
      cases hevent' with
      | data hopen' hcut' => exact absurd hends (by simp [FeedEvent.end?])
      | ends hopen' hends' => exact ⟨rfl, hdue⟩
      | ignored hclosed' =>
        rw [← hended, hopen] at hclosed'
        exact absurd hclosed' (by simp)
    | ignored hclosed =>
      cases hevent' with
      | data hopen' hcut' =>
        rw [hended, hopen'] at hclosed
        exact absurd hclosed (by simp)
      | ends hopen' hends' =>
        rw [hended, hopen'] at hclosed
        exact absurd hclosed (by simp)
      | ignored hclosed' => exact ⟨rfl, hdue⟩
  | @listen steps signs f₁ h ih =>
    obtain ⟨before, g₁, rfl, hbefore, rfl⟩ := h'.of_listen
    obtain ⟨hnews, hdue⟩ := ih hbefore
    obtain ⟨-, hvalue, hended⟩ := h.same hbefore
    have hclosed : f₁.channel.closed = g₁.channel.closed := by
      rw [h.holds.1.closed_eq, hbefore.holds.1.closed_eq, hended]
    rw [news_append, news_append, hnews]
    rw [Channel.due_eq_nil_iff, Channel.due_eq_nil_iff, not_iff_not] at hdue
    have hsame : f₁.listen.1 = g₁.listen.1 ∧
        (f₁.listen.2.channel.due = [] ↔ g₁.listen.2.channel.due = []) := by
      unfold Feed.listen Channel.listen
      by_cases hlt : f₁.channel.seen < f₁.channel.version
      · rw [if_pos hlt, if_pos (hdue.mp hlt), hvalue, Channel.due_eq_nil_iff, Channel.due_eq_nil_iff]
        exact ⟨rfl, iff_of_true (Nat.lt_irrefl _) (Nat.lt_irrefl _)⟩
      · rw [if_neg hlt, if_neg (mt hdue.mpr hlt), hclosed]
        split <;>
          exact ⟨rfl, by rw [Channel.due_eq_nil_iff, Channel.due_eq_nil_iff, not_iff_not]; exact hdue⟩
    exact ⟨by rw [hsame.1], hsame.2⟩

/-! ## The program's own cut -/

theorem reads_cons (size fuel : Nat) (b : UInt8) (rest : List UInt8) :
    reads size (fuel + 1) (b :: rest)
      = (b :: rest).take size :: reads size fuel ((b :: rest).drop size) := rfl

theorem flatten_reads {size fuel : Nat} (hsize : 0 < size) (hfuel : bytes.length ≤ fuel) :
    (reads size fuel bytes).flatten = bytes := by
  induction fuel generalizing bytes with
  | zero =>
    rw [List.eq_nil_of_length_eq_zero (Nat.le_zero.mp hfuel)]
    rfl
  | succ fuel ih =>
    cases bytes with
    | nil => rfl
    | cons b rest =>
      have hrest : ((b :: rest).drop size).length ≤ fuel := by
        rw [List.length_drop]
        omega
      rw [reads_cons, List.flatten_cons, ih hrest, List.take_append_drop]

theorem mem_reads {size fuel : Nat} (hsize : 0 < size) (h : chunk ∈ reads size fuel bytes) :
    chunk ≠ [] ∧ chunk.length ≤ size := by
  induction fuel generalizing bytes with
  | zero => exact absurd h (by simp [reads])
  | succ fuel ih =>
    cases bytes with
    | nil => exact absurd h (by simp [reads])
    | cons b rest =>
      rw [reads_cons] at h
      rcases List.mem_cons.mp h with rfl | hlater
      · refine ⟨?_, List.length_take_le _ _⟩
        intro hnil
        have hlength := congrArg List.length hnil
        rw [List.length_take, List.length_cons, List.length_nil] at hlength
        omega
      · exact ih hlater

theorem cut_reads (bytes : List UInt8) : Cut bytes (reads readSize bytes.length bytes) where
  flatten_eq := flatten_reads (by decide) (Nat.le_refl _)
  ne_nil := fun _ h => (mem_reads (by decide) h).1
  length_le := fun _ h => (mem_reads (by decide) h).2

/-- What the program does at an event is one of the ways to handle it. -/
theorem exists_handles (f : Feed) (e : FeedEvent) : ∃ signs, Handles f e signs (f.handle e) := by
  unfold handle
  cases hended : f.ended with
  | some how => exact ⟨[], .ignored (by rw [hended]; rfl)⟩
  | none =>
    cases e with
    | data bytes => exact ⟨_, .data hended (cut_reads bytes)⟩
    | fail message => exact ⟨_, .ends hended rfl⟩
    | breakdown => exact ⟨_, .ends hended rfl⟩
    | close => exact ⟨_, .ends hended rfl⟩
    | stop => exact ⟨_, .ends hended rfl⟩

/-- The feed after a step, as the program takes it. -/
def after (f : Feed) : Step → Feed
  | .event e => f.handle e
  | .listen => f.listen.2

/-- What the program makes of a script is one of its runs. -/
theorem exists_runs (steps : List Step) : ∃ signs, Runs steps signs (steps.foldl after {}) := by
  induction steps using List.reverseRecOn with
  | nil => exact ⟨[], .start⟩
  | append_singleton steps s ih =>
    obtain ⟨signs, hruns⟩ := ih
    rw [List.foldl_append]
    cases s with
    | event e =>
      obtain ⟨published, hevent⟩ := exists_handles (steps.foldl after {}) e
      exact ⟨_, hruns.event hevent⟩
    | listen => exact ⟨_, hruns.listen⟩

/-! ## Whole runs -/

/-- How waiting for a feed ends that is closed or stopped after a run. -/
theorem Runs.outcome_handle (h : Runs steps signs f) (he : e = .close ∨ e = .stop) :
    (f.handle e).outcome = match firstEnding? steps with
      | some (.fail message) => .error (.readFailed message)
      | some .breakdown => .error .aborted
      | _ => .ok () := by
  have hended := h.holds.2
  cases hfirst : firstEnding? steps with
  | none =>
    rw [hfirst, Option.bind_none] at hended
    rcases he with rfl | rfl
    · unfold handle
      rw [hended]
      rfl
    · unfold handle
      rw [hended]
      rfl
  | some e' =>
    rw [hfirst, Option.bind_some] at hended
    obtain ⟨how, hhow⟩ := Option.isSome_iff_exists.mp (isSome_end?_of_firstEnding? hfirst)
    have hsame : f.handle e = f := by
      unfold handle
      rw [hended, hhow]
    rw [hsame]
    unfold outcome
    rw [hended]
    cases e' with
    | data bytes => exact absurd hhow (by simp [FeedEvent.end?])
    | _ => rfl

/-- Without what happens behind the first ending, the run is the same. -/
theorem Runs.heeded (h : Runs steps signs f) : Runs (heeded steps) signs f := by
  induction h with
  | start => exact .start
  | @event steps signs published f g e h hevent ih =>
    rw [heeded_concat]
    split
    · next hlate =>
      have hclosed : f.ended.isSome := by
        rw [h.holds.2, isSome_bind_end?]
        exact hlate.1
      cases hevent with
      | data hopen hcut => exact absurd hclosed (by simp [hopen])
      | ends hopen hends => exact absurd hclosed (by simp [hopen])
      | ignored _ =>
        rw [List.append_nil]
        exact ih
    · exact ih.event hevent
  | @listen steps signs f h ih =>
    rw [heeded_concat, if_neg (by simp)]
    exact ih.listen

/-- After the end at most one reading is left to be told. -/
theorem listen_of_ended (hclosed : f.channel.closed = true) :
    f.listen.1 = .ended ∨ (f.listen.1 = .reading f.value ∧ f.listen.2.listen.1 = .ended) := by
  by_cases hlt : f.channel.seen < f.channel.version
  · right
    have hfirst : f.channel.listen = (.reading f.channel.value, { f.channel with seen := f.channel.version }) :=
      if_pos hlt
    unfold Feed.listen
    rw [hfirst]
    refine ⟨rfl, ?_⟩
    unfold Channel.listen
    rw [if_neg (Nat.lt_irrefl _), if_pos hclosed]
  · left
    unfold Feed.listen Channel.listen
    rw [if_neg hlt, if_pos hclosed]

/-- What a run of a script promises. -/
structure Faithful (steps : List Step) (signs : List Sign) (f : Feed) : Prop where
  /-- The feed shows the reading of a framer that was given, in one piece, all data before the first
  ending. -/
  value_eq : f.value = (Framer.pushAll {} [received steps]).value
  /-- With the data cut in another way, the feed shows and the listener is told the same. -/
  cut : ∀ signs' g, Runs steps signs' g → g.value = f.value ∧ news signs' = news signs
  /-- Only readings are published. -/
  isSome : ∀ digits ∈ publications signs, digits.isSome
  /-- Every answer was right when it was given: a reading was the newest publication and not told
  before, and the listener was told of the end when the feed had ended and nothing was left to tell. -/
  answers : ∀ before news after, signs = before ++ .told news :: after → Answer before news
  /-- The readings told are publications, in their order and none of them twice. -/
  order : (readings signs).Sublist (publications signs)
  /-- The last reading that a listener is told before it is told of the end is the final one. -/
  final : ∀ before after, signs = before ++ .told .ended :: after →
    (readings before).getLast?.join = f.value
  /-- A listener that goes on asking after the end is told of the end, at the latest behind one
  reading. -/
  ends : (firstEnding? steps).isSome →
    f.listen.1 = .ended ∨ (f.listen.1 = .reading f.value ∧ f.listen.2.listen.1 = .ended)
  /-- What happens behind the first ending has no effect. -/
  heeded : Runs (heeded steps) signs f
  /-- Whether one waits for the end or stops the feed, the outcome is a failed read when this was the
  first ending, … -/
  readFailed : ∀ e, e = .close ∨ e = .stop → ∀ message,
    (f.handle e).outcome = .error (.readFailed message) ↔ firstEnding? steps = some (.fail message)
  /-- … and a breakdown when this was the first ending; else there is no error. -/
  aborted : ∀ e, e = .close ∨ e = .stop →
    ((f.handle e).outcome = .error .aborted ↔ firstEnding? steps = some .breakdown)

/-- **A listener is told the truth, all of it that matters, and once.** For every script of what
happens to a feed and of when its listener asks, the program has a run, and every run, however the data
is cut into reads, keeps the promises. -/
theorem told_of_runs (steps : List Step) :
    (∃ signs, Runs steps signs (steps.foldl after {})) ∧
      ∀ signs f, Runs steps signs f → Faithful steps signs f := by
  refine ⟨exists_runs steps, fun signs f h => ?_⟩
  obtain ⟨hholds, hended⟩ := h.holds
  constructor
  case value_eq =>
    have hframes : Framer.Frames (received steps) (Framer.pushAll {} [received steps]) := by
      simpa using Framer.frames_pushAll [received steps]
    rw [← hholds.frames.unique hframes]
    exact hholds.value_eq
  case cut =>
    intro signs' g h'
    exact ⟨(h.same h').2.1.symm, (h.same_news h').1.symm⟩
  case isSome => exact hholds.tells.isSome
  case answers => exact hholds.tells.answers
  case order => exact (List.sublist_append_left _ _).trans hholds.tells.order
  case final =>
    intro before after hsplit
    exact (hholds.tells.toldEnd before after hsplit).2.2
  case ends =>
    intro hsome
    apply listen_of_ended
    rw [hholds.closed_eq, hended, isSome_bind_end?]
    exact hsome
  case heeded => exact h.heeded
  case readFailed =>
    intro e he message
    rw [h.outcome_handle he]
    split <;> simp_all
  case aborted =>
    intro e he
    rw [h.outcome_handle he]
    split <;> simp_all

/-- A reading arrives in two pieces, and with its end a second one, which another read takes; a third
comes before the device fails, and more data after that. The listener is told the second and the third
reading and then of the end, and would be so with all data of an event in one read. -/
theorem unplugged_told :
    let steps : List Step :=
      [.event (.data [49]), .listen, .event (.data [50, 13, 10, 51, 13, 10]), .listen, .listen,
        .event (.data [52, 13, 10]), .event (.fail "unplugged"), .event (.data [53, 13, 10]), .listen,
        .listen]
    let signs : List Sign :=
      [.told .pending, .published (some "12"), .published (some "3"), .told (.reading (some "3")),
        .told .pending, .published (some "4"), .ended (.readFailed "unplugged"),
        .told (.reading (some "4")), .told .ended]
    let f : Feed :=
      ⟨⟨[], some "4"⟩, ⟨some "4", 3, 3, true⟩, some (.readFailed "unplugged")⟩
    Runs steps signs f ∧ Faithful steps signs f ∧ (readings signs.dropLast).getLast?.join = f.value ∧
      (f.handle .stop).outcome = .error (.readFailed "unplugged") ∧
      news signs = [.pending, .reading (some "3"), .pending, .reading (some "4"), .ended] := by
  intro steps signs f
  have hone : Cut [49] [[49]] := ⟨rfl, by decide, by decide⟩
  have htwo : Cut [50, 13, 10, 51, 13, 10] [[50, 13, 10], [51, 13, 10]] :=
    ⟨rfl, by decide, by decide⟩
  have hthree : Cut [52, 13, 10] [[52, 13, 10]] := ⟨rfl, by decide, by decide⟩
  have hlive := (((Runs.start.event (.data rfl hone)).listen.event (.data (by decide) htwo)).listen.listen.event
    (.data (by decide) hthree))
  have hlate := ((hlive.event (.ends (by decide) (e := .fail "unplugged") rfl)).event
    (.ignored (e := .data [53, 13, 10]) rfl)).listen.listen
  have hruns : Runs steps signs f := by
    convert hlate using 1 <;> decide
  have hfaithful := (told_of_runs steps).2 signs f hruns
  exact ⟨hruns, hfaithful, hfaithful.final _ [] rfl,
    (hfaithful.readFailed .stop (.inr rfl) "unplugged").mpr (by decide), by decide⟩

end Feed

end Dataflow
