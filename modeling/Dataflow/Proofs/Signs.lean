import Dataflow.Device.Feed
import Dataflow.Proofs.Lists
/-!
# The signs of a feed

A run of a feed is a script of what the device and the owner of the feed do, with the listener asking
for news at any place in it. `Runs` leaves open how data is cut into reads, and keeps the signs of a
run: the publications, the end, and what the listener was told, in the order of their times.

Main statement: what a channel does can be read off the signs alone, and a listener that asks is given
the right answer (`Channel.Tells`, kept by `Tells.send`, `Tells.close` and `Tells.listen`).
-/
set_option autoImplicit false

namespace Dataflow

/-! ## Runs -/

/-- The way in which an event ends a feed that is still open. -/
def FeedEvent.end? : FeedEvent → Option FeedEnd
  | .data _ => none
  | .fail message => some (.readFailed message)
  | .breakdown => some .aborted
  | .close => some .done
  | .stop => some .done

namespace Feed

/-- One step of a script: something happens to the feed, or its listener asks for news. -/
inductive Step where
  | event (e : FeedEvent)
  | listen
deriving DecidableEq, Repr

namespace Step

/-- The event of the step when it is one that ends feeds. -/
def ending? : Step → Option FeedEvent
  | event e => if e.end?.isSome then some e else none
  | listen => none

def bytes : Step → List UInt8
  | event (.data bytes) => bytes
  | _ => []

end Step

/-- The first event of a script that ends feeds. -/
def firstEnding? (steps : List Step) : Option FeedEvent :=
  steps.findSome? Step.ending?

/-- The script without the events behind the first one that ends feeds. -/
def heeded : List Step → List Step
  | [] => []
  | s :: rest =>
    match s.ending? with
    | some _ => s :: rest.filter (· = .listen)
    | none => s :: heeded rest

/-- The data of a script before the first event that ends feeds. -/
def received (steps : List Step) : List UInt8 :=
  (heeded steps).flatMap Step.bytes

/-- What becomes known of a feed: that it has published something or has ended, and what its listener
was told. -/
inductive Sign where
  | published (digits : Option String)
  | ended (how : FeedEnd)
  | told (news : News)
deriving DecidableEq, Repr

/-- The chunks are the bytes in reads of any sizes that a read can have. -/
structure Cut (bytes : List UInt8) (chunks : List (List UInt8)) : Prop where
  flatten_eq : chunks.flatten = bytes
  ne_nil : ∀ chunk ∈ chunks, chunk ≠ []
  length_le : ∀ chunk ∈ chunks, chunk.length ≤ readSize

/-- What the feed publishes while it reads the chunks. -/
def publishing (f : Feed) : List (List UInt8) → List Sign
  | [] => []
  | chunk :: rest =>
    (if f.channel.version < (f.read chunk).channel.version then [.published (f.read chunk).value]
      else []) ++ publishing (f.read chunk) rest

/-- What an event makes of a feed, with data cut in any way, and the signs of it. -/
inductive Handles : Feed → FeedEvent → List Sign → Feed → Prop where
  | data {f : Feed} {bytes : List UInt8} {chunks : List (List UInt8)} (hopen : f.ended = none)
      (hcut : Cut bytes chunks) : Handles f (.data bytes) (publishing f chunks) (chunks.foldl read f)
  | ends {f : Feed} {e : FeedEvent} {how : FeedEnd} (hopen : f.ended = none)
      (hends : e.end? = some how) : Handles f e [.ended how] (f.finish how)
  | ignored {f : Feed} {e : FeedEvent} (hended : f.ended.isSome) : Handles f e [] f

/-- What a script makes of a fresh feed, and the signs of it. -/
inductive Runs : List Step → List Sign → Feed → Prop where
  | start : Runs [] [] {}
  | event {steps : List Step} {signs published : List Sign} {f g : Feed} {e : FeedEvent}
      (h : Runs steps signs f) (hevent : Handles f e published g) :
      Runs (steps ++ [.event e]) (signs ++ published) g
  | listen {steps : List Step} {signs : List Sign} {f : Feed} (h : Runs steps signs f) :
      Runs (steps ++ [.listen]) (signs ++ [.told f.listen.1]) f.listen.2

/-! ## Signs -/

namespace Sign

def published? : Sign → Option (Option String)
  | published digits => some digits
  | _ => none

def news? : Sign → Option News
  | told news => some news
  | _ => none

def reading? : Sign → Option (Option String)
  | told (.reading digits) => some digits
  | _ => none

/-- The sign is neither a publication nor a reading told. -/
def isQuiet (s : Sign) : Bool :=
  s.published?.isNone && s.reading?.isNone

end Sign

/-- The publications, in their order. -/
def publications (signs : List Sign) : List (Option String) :=
  signs.filterMap Sign.published?

/-- What the listener was told, in the order in which it asked. -/
def news (signs : List Sign) : List News :=
  signs.filterMap Sign.news?

/-- The readings that the listener was told. -/
def readings (signs : List Sign) : List (Option String) :=
  signs.filterMap Sign.reading?

/-- The last publication is of these digits, and the listener has not been told of it. -/
def Unseen (signs : List Sign) (digits : Option String) : Prop :=
  ∃ before after, signs = before ++ .published digits :: after ∧ ∀ s ∈ after, s.isQuiet

/-- The right answer to a listener who asks after these signs: the newest publication when it has not
been told of it, else whether the feed has ended. -/
def Answer (signs : List Sign) : News → Prop
  | .reading digits => Unseen signs digits
  | .ended => (∃ how, .ended how ∈ signs) ∧ ∀ digits, ¬ Unseen signs digits
  | .pending => (∀ how, .ended how ∉ signs) ∧ ∀ digits, ¬ Unseen signs digits

variable {signs : List Sign} {digits : Option String}

theorem not_unseen_nil : ¬ Unseen [] digits := by
  intro h
  obtain ⟨before, after, hsplit, -⟩ := h
  exact absurd hsplit (by simp)

theorem unseen_concat_of_quiet {s : Sign} (hs : s.isQuiet) :
    Unseen (signs ++ [s]) digits ↔ Unseen signs digits := by
  constructor
  · intro h
    obtain ⟨before, after, hsplit, hquiet⟩ := h
    rcases split_concat hsplit with ⟨-, rfl, -⟩ | ⟨mid, rfl, hsigns⟩
    · exact absurd hs (by simp [Sign.isQuiet, Sign.published?])
    · refine ⟨before, mid, hsigns, ?_⟩
      intro s' hs'
      exact hquiet s' (List.mem_append_left _ hs')
  · intro h
    obtain ⟨before, after, rfl, hquiet⟩ := h
    refine ⟨before, after ++ [s], by simp, ?_⟩
    intro s' hs'
    rcases List.mem_append.mp hs' with hmem | hmem
    · exact hquiet s' hmem
    · rw [List.mem_singleton.mp hmem]
      exact hs

theorem unseen_concat_published {digits' : Option String} :
    Unseen (signs ++ [.published digits']) digits ↔ digits = digits' := by
  constructor
  · intro h
    obtain ⟨before, after, hsplit, hquiet⟩ := h
    rcases split_concat hsplit with ⟨-, hlast, -⟩ | ⟨mid, rfl, -⟩
    · exact Sign.published.inj hlast
    · have hnot := hquiet (.published digits') (by simp)
      exact absurd hnot (by simp [Sign.isQuiet, Sign.published?])
  · intro h
    rw [h]
    exact ⟨signs, [], rfl, by simp⟩

theorem not_unseen_concat_reading {digits' : Option String} :
    ¬ Unseen (signs ++ [.told (.reading digits')]) digits := by
  intro h
  obtain ⟨before, after, hsplit, hquiet⟩ := h
  rcases split_concat hsplit with ⟨-, hlast, -⟩ | ⟨mid, rfl, -⟩
  · exact absurd hlast (by simp)
  · have hnot := hquiet (.told (.reading digits')) (by simp)
    exact absurd hnot (by simp [Sign.isQuiet, Sign.reading?])

end Feed

/-! ## The channel -/

namespace Channel

open Feed (Sign Unseen Answer publications readings)

/-- The value that the listener has not seen. -/
def due (c : Channel) : List (Option String) :=
  if c.seen < c.version then [c.value] else []

/-- The channel is as the signs tell, and its listener was always given the right answer. -/
structure Tells (signs : List Sign) (c : Channel) : Prop where
  answers : ∀ before news after, signs = before ++ .told news :: after → Answer before news
  seen_le : c.seen ≤ c.version
  unseen_iff : ∀ digits, Unseen signs digits ↔ c.seen < c.version ∧ digits = c.value
  closed_iff : c.closed = true ↔ ∃ how, .ended how ∈ signs
  value_eq : c.value = (publications signs).getLast?.join
  isSome : ∀ digits ∈ publications signs, digits.isSome
  order : (readings signs ++ c.due).Sublist (publications signs)
  /-- When nothing is due, the last reading told is the last one published. -/
  caughtUp : c.due = [] → (readings signs).getLast? = (publications signs).getLast?
  /-- When the listener was told of the end, it had been told the last value. -/
  toldEnd : ∀ before after, signs = before ++ .told .ended :: after →
    c.closed = true ∧ c.due = [] ∧ (readings before).getLast?.join = c.value

variable {signs : List Sign} {c : Channel}

theorem due_of_lt (h : c.seen < c.version) : c.due = [c.value] :=
  if_pos h

theorem due_eq_nil_iff : c.due = [] ↔ ¬ c.seen < c.version := by
  unfold due
  split <;> simp [*]

theorem tells_start : Tells [] {} where
  answers := fun _ _ _ h => absurd h (by simp)
  seen_le := Nat.le_refl 0
  unseen_iff := fun _ => iff_of_false Feed.not_unseen_nil (by simp)
  closed_iff := by simp
  value_eq := rfl
  isSome := by simp [publications]
  order := by simp [readings, publications, due]
  caughtUp := fun _ => rfl
  toldEnd := fun _ _ h => absurd h (by simp)

/-- The last sign is an answer that is right, or all answers were given before. -/
theorem Tells.answers_concat {s : Sign} (h : Tells signs c)
    (hs : ∀ news, s = .told news → Answer signs news) :
    ∀ before news after, signs ++ [s] = before ++ .told news :: after → Answer before news := by
  intro before news after hsplit
  rcases split_concat hsplit with ⟨rfl, hlast, -⟩ | ⟨mid, -, hsigns⟩
  · exact hs news hlast.symm
  · exact h.answers before news mid hsigns

/-- A value that is sent is what the listener has to see next. -/
theorem Tells.send (h : Tells signs c) (hopen : c.closed = false) {digits : Option String}
    (hdigits : digits.isSome) : Tells (signs ++ [.published digits]) (c.send digits) := by
  have hlt : c.seen < (c.send digits).version := Nat.lt_succ_of_le h.seen_le
  have hdue : (c.send digits).due = [digits] := due_of_lt hlt
  have hpublications : publications (signs ++ [.published digits]) = publications signs ++ [digits] := by
    simp [publications, Sign.published?]
  have hreadings : readings (signs ++ [.published digits]) = readings signs := by
    simp [readings, Sign.reading?]
  constructor
  case answers => exact h.answers_concat (by simp)
  case seen_le => exact Nat.le_of_lt hlt
  case unseen_iff =>
    intro digits'
    rw [Feed.unseen_concat_published]
    exact (and_iff_right hlt).symm
  case closed_iff =>
    show c.closed = true ↔ _
    simp [h.closed_iff]
  case value_eq =>
    rw [hpublications, List.getLast?_concat]
    rfl
  case isSome =>
    intro digits' hmem
    rw [hpublications] at hmem
    rcases List.mem_append.mp hmem with hold | hnew
    · exact h.isSome digits' hold
    · rw [List.mem_singleton.mp hnew]
      exact hdigits
  case order =>
    rw [hpublications, hreadings, hdue]
    exact ((List.sublist_append_left _ _).trans h.order).append_right [digits]
  case caughtUp =>
    intro hnone
    rw [hdue] at hnone
    exact absurd hnone (by simp)
  case toldEnd =>
    intro before after hsplit
    rcases split_concat hsplit with ⟨-, hlast, -⟩ | ⟨mid, -, hsigns⟩
    · exact absurd hlast (by simp)
    · rw [(h.toldEnd before mid hsigns).1] at hopen
      exact absurd hopen (by simp)

/-- Signs that are neither publications nor readings leave the listener where it is. -/
theorem Tells.concat_quiet {c' : Channel} {s : Sign} (h : Tells signs c) (hs : s.isQuiet)
    (hnews : ∀ news, s = .told news → Answer signs news)
    (hvalue : c'.value = c.value) (hversion : c'.version = c.version) (hseen : c'.seen = c.seen)
    (hclosed : c'.closed = true ↔ c.closed = true ∨ ∃ how, s = .ended how)
    (hend : s = .told .ended → c.closed = true ∧ c.due = []) : Tells (signs ++ [s]) c' := by
  have hdue : c'.due = c.due := by
    unfold due
    rw [hvalue, hversion, hseen]
  have hpublished : s.published? = none := by
    cases s <;> simp_all [Sign.isQuiet, Sign.published?]
  have hreading : s.reading? = none := by
    have hparts : s.published?.isNone ∧ s.reading?.isNone := by simpa [Sign.isQuiet] using hs
    exact Option.isNone_iff_eq_none.mp hparts.2
  have hpublications : publications (signs ++ [s]) = publications signs := by
    simp [publications, hpublished]
  have hreadings : readings (signs ++ [s]) = readings signs := by
    simp [readings, hreading]
  constructor
  case answers => exact h.answers_concat hnews
  case seen_le =>
    rw [hseen, hversion]
    exact h.seen_le
  case unseen_iff =>
    intro digits
    rw [Feed.unseen_concat_of_quiet hs, hvalue, hversion, hseen]
    exact h.unseen_iff digits
  case closed_iff =>
    rw [hclosed, h.closed_iff, ← exists_or]
    simp [eq_comm]
  case value_eq =>
    rw [hpublications, hvalue]
    exact h.value_eq
  case isSome =>
    rw [hpublications]
    exact h.isSome
  case order =>
    rw [hpublications, hreadings, hdue]
    exact h.order
  case caughtUp =>
    rw [hpublications, hreadings, hdue]
    exact h.caughtUp
  case toldEnd =>
    intro before after hsplit
    have hbefore : c.closed = true ∧ c.due = [] ∧ (readings before).getLast?.join = c.value := by
      rcases split_concat hsplit with ⟨rfl, hlast, -⟩ | ⟨mid, -, hsigns⟩
      · obtain ⟨hended, hnone⟩ := hend hlast.symm
        refine ⟨hended, hnone, ?_⟩
        rw [h.caughtUp hnone]
        exact h.value_eq.symm
      · exact h.toldEnd before mid hsigns
    obtain ⟨hended, hnone, hlast⟩ := hbefore
    exact ⟨hclosed.mpr (.inl hended), hdue.trans hnone, hlast.trans hvalue.symm⟩

theorem Tells.close (h : Tells signs c) (how : FeedEnd) : Tells (signs ++ [.ended how]) c.close :=
  h.concat_quiet rfl (by simp) rfl rfl rfl (by simp [Channel.close]) (by simp)

/-- **A listener is given the right answer.** -/
theorem Tells.listen (h : Tells signs c) : Tells (signs ++ [.told c.listen.1]) c.listen.2 := by
  unfold Channel.listen
  split
  · next hlt =>
    dsimp only
    have hdue := due_of_lt hlt
    have hnil : Channel.due { c with seen := c.version } = [] := due_eq_nil_iff.mpr (Nat.lt_irrefl _)
    have hpublications : publications (signs ++ [.told (.reading c.value)]) = publications signs := by
      simp [publications, Sign.published?]
    have hreadings : readings (signs ++ [.told (.reading c.value)]) = readings signs ++ [c.value] := by
      simp [readings, Sign.reading?]
    have horder := h.order
    rw [hdue] at horder
    constructor
    case answers =>
      refine h.answers_concat ?_
      intro news hnews
      rw [← Sign.told.inj hnews]
      exact (h.unseen_iff c.value).mpr ⟨hlt, rfl⟩
    case seen_le => exact Nat.le_refl _
    case unseen_iff =>
      intro digits
      exact iff_of_false Feed.not_unseen_concat_reading fun hseen => Nat.lt_irrefl _ hseen.1
    case closed_iff =>
      show c.closed = true ↔ _
      simp [h.closed_iff]
    case value_eq =>
      rw [hpublications]
      exact h.value_eq
    case isSome =>
      rw [hpublications]
      exact h.isSome
    case order =>
      rw [hpublications, hreadings, hnil, List.append_nil]
      exact horder
    case caughtUp =>
      intro _
      rw [hpublications, hreadings, List.getLast?_concat]
      -- Something was published, as the value told is among the publications.
      have hvalue := h.value_eq
      cases hlast : (publications signs).getLast? with
      | none =>
        rw [List.getLast?_eq_none_iff.mp hlast] at horder
        exact absurd horder (by simp)
      | some digits =>
        rw [hlast] at hvalue
        rw [hvalue]
        rfl
    case toldEnd =>
      intro before after hsplit
      rcases split_concat hsplit with ⟨-, hlast, -⟩ | ⟨mid, -, hsigns⟩
      · exact absurd hlast (by simp)
      · rw [(h.toldEnd before mid hsigns).2.1] at hdue
        exact absurd hdue (by simp)
  · next hlt =>
    have hnone : ∀ digits, ¬ Unseen signs digits := by
      intro digits hunseen
      exact hlt ((h.unseen_iff digits).mp hunseen).1
    split
    · next hclosed =>
      refine h.concat_quiet rfl ?_ rfl rfl rfl (by simp) fun _ => ⟨hclosed, due_eq_nil_iff.mpr hlt⟩
      intro news hnews
      rw [← Sign.told.inj hnews]
      exact ⟨h.closed_iff.mp hclosed, hnone⟩
    · next hopen =>
      refine h.concat_quiet rfl ?_ rfl rfl rfl (by simp) (by simp)
      intro news hnews
      rw [← Sign.told.inj hnews]
      refine ⟨fun how hmem => ?_, hnone⟩
      exact hopen (h.closed_iff.mpr ⟨how, hmem⟩)

end Channel

end Dataflow
