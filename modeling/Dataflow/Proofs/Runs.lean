import Dataflow.Command.Run
import Dataflow.Proofs.Reload
import Dataflow.Proofs.Retention
import Dataflow.Proofs.Spelling
/-!
# Runs of the command

A run loads a program from a text, ticks it under numbers that go on from the length of its log, and
saves what the ticks leave. Main statements: when a run saves and what (`RunOptions.saved_eq_some_iff`);
its ticks are ticks of the engine under the ids of its numbers (`RunOptions.ran_of_runTicks`); and how
long a log a run leaves follows from its options and from the length of the log that it met
(`RunOptions.length_log`).
-/
set_option autoImplicit false

namespace Dataflow

namespace Command

theorem tickId_injective : Function.Injective tickId := by
  intro m n h
  have hchars := congrArg String.toList h
  simp only [tickId, String.toList_append, List.append_right_inj] at hchars
  exact Digits.text_injective (String.toList_injective hchars)

namespace RunOptions

variable {o : RunOptions} {e : Engine} {p : Program} {r : Run} {text : String}

/-! ## Settings -/

theorem tickRetention_of_engine (h : o.engine = .ok e) :
    e.tickRetention = o.retention.map (max · 1) := by
  refine foldlM_invariant (P := fun e => e.tickRetention = o.retention.map (max · 1)) h ?_ ?_
  · cases o.retention <;> rfl
  · intro a _ e e' hold hnext
    split at hnext
    · exact absurd hnext (by simp)
    · cases hnext
      rw [Engine.withTypeAlias]
      split <;> exact hold

/-- Where a run starts: the engine for its options, and the program that it loads from the text. -/
structure Starts (o : RunOptions) (text : String) (e : Engine) (p : Program) : Prop where
  engine : o.engine = .ok e
  loads : ∃ s, Snapshot.ofText text = .ok s ∧ e.loadSnapshot s = .ok p

/-- **What a run saves.** It saves when it was asked to, could load the text and could run all its
ticks; and then it saves the program that the ticks have left. -/
theorem saved_eq_some_iff {saved : String} :
    (o.run text).saved = some saved ↔
      o.save = true ∧ ∃ e p r, o.Starts text e p ∧ o.runTicks e p = .ok r ∧
        saved = (Snapshot.ofProgram r.program).text := by
  constructor
  · intro h
    rw [run] at h
    split at h
    · exact absurd h (by simp [Outcome.fail])
    · next e hengine =>
      split at h
      · exact absurd h (by simp [Outcome.fail])
      · next s htext =>
        split at h
        · exact absurd h (by simp [Outcome.fail])
        · next p hload =>
          cases hticks : o.runTicks e p with
          | error message =>
            rw [hticks] at h
            cases hdevice : o.device.isSome <;> simp [hdevice, Outcome.fail, Outcome.line] at h
          | ok r =>
            rw [hticks] at h
            obtain ⟨hsave, rfl⟩ : o.save = true ∧ (Snapshot.ofProgram r.program).text = saved := by
              simpa using h
            exact ⟨hsave, e, p, r, ⟨hengine, s, htext, hload⟩, hticks, rfl⟩
  · rintro ⟨hsave, e, p, r, ⟨hengine, s, htext, hload⟩, hticks, rfl⟩
    simp only [run, hengine, htext, hload, hticks, hsave, if_true]

theorem Starts.unique {e' : Engine} {p' : Program} (h : o.Starts text e p) (h' : o.Starts text e' p') :
    e' = e ∧ p' = p := by
  obtain ⟨hengine, s, htext, hload⟩ := h
  obtain ⟨hengine', s', htext', hload'⟩ := h'
  obtain rfl : e' = e := Except.ok.inj (hengine'.symm.trans hengine)
  obtain rfl : s' = s := Except.ok.inj (htext'.symm.trans htext)
  exact ⟨rfl, Except.ok.inj (hload'.symm.trans hload)⟩

/-! ## Ticks -/

theorem numbers_eq (o : RunOptions) (p : Program) :
    o.numbers p = List.range' (p.recentTicks.length + 1) o.ticks := by
  rw [numbers, List.range_eq_range', ← Nat.add_zero (p.recentTicks.length + 1), ← List.map_add_range']
  refine List.map_congr_left fun n _ => ?_
  omega

theorem time_context (o : RunOptions) (number : Nat) :
    (o.context number).time = number.toUInt64 * o.interval := by
  rw [context]
  split <;> rfl

theorem tick_eq_ok_iff {number : Nat} {r' : Run} :
    o.tick e r number = .ok r' ↔
      ∃ outcome, (e.advance r.program (tickId number) (o.context number)).1 = .ok outcome ∧
        r' = ⟨(e.advance r.program (tickId number) (o.context number)).2,
          r.faults + outcome.warnings.length⟩ := by
  rw [tick, Engine.tick]
  obtain ⟨result, p⟩ := e.advance r.program (tickId number) (o.context number)
  cases result with
  | error err => simp
  | ok outcome => simp [eq_comm]

theorem ran_of_foldlM {numbers : List Nat} (h : numbers.foldlM (o.tick e) ⟨p, 0⟩ = .ok r) :
    ∃ steps, e.Ran p steps r.program ∧ idsOf steps = numbers.map tickId := by
  induction numbers using List.reverseRecOn generalizing r with
  | nil =>
    cases h
    exact ⟨[], .start, rfl⟩
  | append_singleton numbers number ih =>
    obtain ⟨before, hbefore, hlast⟩ := foldlM_concat_eq_ok_iff.mp h
    obtain ⟨steps, hran, hids⟩ := ih hbefore
    obtain ⟨outcome, hok, rfl⟩ := tick_eq_ok_iff.mp hlast
    refine ⟨_, .tick hran hok, ?_⟩
    rw [Engine.idsOf_concat, hids, List.map_append]
    rfl

/-- **The ticks of a run are ticks of the engine.** -/
theorem ran_of_runTicks (h : o.runTicks e p = .ok r) :
    ∃ steps, e.Ran p steps r.program ∧ idsOf steps = (o.numbers p).map tickId :=
  ran_of_foldlM h

/-- A program without a cycle can be run. -/
theorem exists_runTicks (o : RunOptions) (e : Engine) (h : p.AcyclicOn (p.hasNode ·)) :
    ∃ r, o.runTicks e p = .ok r := by
  rw [runTicks]
  induction o.numbers p using List.reverseRecOn with
  | nil => exact ⟨_, rfl⟩
  | append_singleton numbers number ih =>
    obtain ⟨r, hr⟩ := ih
    obtain ⟨steps, hran, -⟩ := ran_of_foldlM hr
    have hacyclic := hran.sameGraph.acyclicOn_iff.mpr h
    have hrun : ∃ outcome,
        (e.advance r.program (tickId number) (o.context number)).1 = .ok outcome := by
      cases hadvance : (e.advance r.program (tickId number) (o.context number)).1 with
      | ok outcome => exact ⟨outcome, rfl⟩
      | error err =>
        exact absurd hacyclic ((Engine.advance_eq_error_iff _ _ _ _).mp ⟨err, hadvance⟩)
    obtain ⟨outcome, hok⟩ := hrun
    exact ⟨_, foldlM_concat_eq_ok_iff.mpr ⟨r, hr, tick_eq_ok_iff.mpr ⟨outcome, hok, rfl⟩⟩⟩

/-- **What a run saves is read as what its ticks have left.** -/
theorem Starts.saved {saved : String} (h : o.Starts text e p) (hsaved : (o.run text).saved = some saved) :
    ∃ steps q, e.Ran p steps q ∧ idsOf steps = (o.numbers p).map tickId ∧
      Snapshot.ofText saved = .ok (Snapshot.ofProgram q).stored := by
  obtain ⟨-, e', p', r, h', hticks, rfl⟩ := saved_eq_some_iff.mp hsaved
  obtain ⟨rfl, rfl⟩ := h.unique h'
  obtain ⟨steps, hran, hids⟩ := ran_of_runTicks hticks
  obtain ⟨-, s, htext, hload⟩ := h
  have hstored := Snapshot.stored_of_ofText htext
  have hloaded := Engine.loaded_of_ticksTo hran.ticksTo fun n hn =>
    (Engine.loaded_of_loadSnapshot hstored hload hn).1
  exact ⟨steps, r.program, hran, hids, Engine.ofText_ofProgram hloaded⟩

/-! ## The log -/

/-- How long a log is after a run that met one of the given length. -/
def logAfter (o : RunOptions) (length : Nat) : Nat :=
  if o.ticks = 0 then length
  else match o.retention with
    | some keep => min (length + o.ticks) (max keep 1)
    | none => length + o.ticks

/-- **The log that a run leaves** has a length that follows from the options and from the length of the
log that it met. -/
theorem length_log (hengine : o.engine = .ok e) {q : Program} {steps : List (String × Evaluation)}
    (hran : e.Ran p steps q) (hids : idsOf steps = (o.numbers p).map tickId) :
    q.recentTicks.length = o.logAfter p.recentTicks.length := by
  have hlength : (idsOf steps).length = o.ticks := by
    rw [hids, List.length_map, numbers_eq, List.length_range']
  have hretention := tickRetention_of_engine hengine
  rw [hran.recentTicks_eq, logAfter]
  cases steps with
  | nil =>
    have hticks : o.ticks = 0 := hlength.symm
    rw [if_pos rfl, if_pos hticks]
  | cons first rest =>
    have hticks : o.ticks ≠ 0 := by
      rw [← hlength]
      exact Nat.succ_ne_zero _
    rw [if_neg (List.cons_ne_nil _ _), if_neg hticks, Engine.kept, hretention]
    cases o.retention with
    | none =>
      dsimp only [Option.map_none]
      rw [List.length_append, hlength]
    | some keep =>
      dsimp only [Option.map_some]
      rw [List.rtake, List.length_drop, List.length_append, hlength]
      omega

end RunOptions

end Command

end Dataflow
