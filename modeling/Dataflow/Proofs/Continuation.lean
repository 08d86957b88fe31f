import Dataflow.Proofs.Runs
import Dataflow.Proofs.Saving
/-!
# Runs that go on from each other

Each run numbers its ticks on from the length of the log that it loads. A limit on the log makes that
length less than the number of the last tick, and then the next run gives numbers again. Main statement:
over runs that go on from an empty log, the numbers increase exactly when no run has dropped a tick at
the time another one ticks (`increasing_iff_keepsNumbering`); as long as they do, time goes forward, no
id is given twice and every node has an entry for every id of the log. The runs that show what happens
otherwise are in `clock_numbers_come_back`.
-/
set_option autoImplicit false

namespace Dataflow

/-! ## Logs and entries in step -/

/-- Every node has an entry for every id of the log. -/
def Program.InStep (p : Program) : Prop :=
  ∀ n ∈ p.nodes, ∀ t ∈ p.recentTicks, t ∈ n.data.tickEntries

def Snapshot.InStep (s : Snapshot) : Prop :=
  ∀ entry ∈ s.nodes, ∀ t ∈ s.recentTicks, t ∈ entry.2.data.tickEntries

namespace Program.InStep

variable {p : Program}

theorem record (h : p.InStep) (e : Engine) (tick : String) (outcome : Evaluation) :
    (e.record p tick outcome).InStep := by
  intro m hm t ht
  obtain ⟨n, hn, rfl⟩ := List.mem_map.mp hm
  apply Std.ExtTreeMap.mem_insert.mpr
  rcases List.mem_append.mp ht with hold | hnew
  · exact .inr (h n hn t hold)
  · obtain rfl := List.mem_singleton.mp hnew
    exact .inl Std.compare_self

/-- What a limit takes out of the log it takes out of the entries, and no other occurrence of it is
left. -/
theorem retain (h : p.InStep) (hnodup : p.recentTicks.Nodup) (keep : Nat) : (p.retain keep).InStep := by
  intro m hm t ht
  obtain ⟨n, hn, rfl⟩ := List.mem_map.mp hm
  have hstays : t ∉ p.recentTicks.take (p.recentTicks.length - keep) := fun hleft =>
    List.disjoint_take_drop hnodup le_rfl hleft ht
  have hentry := h n hn t (List.mem_of_mem_drop ht)
  rw [Std.ExtTreeMap.mem_iff_isSome_getElem?] at hentry ⊢
  rw [getElem?_foldl_erase, if_neg hstays]
  exact hentry

theorem advance (h : p.InStep) {e : Engine} {tick : String} {ctx : Context} {outcome : Evaluation}
    (hok : (e.advance p tick ctx).1 = .ok outcome) (hnodup : (p.recentTicks ++ [tick]).Nodup) :
    (e.advance p tick ctx).2.InStep := by
  rw [(Engine.advance_of_ok hok).2]
  cases e.tickRetention with
  | none => exact h.record e tick outcome
  | some keep => exact (h.record e tick outcome).retain hnodup keep

end Program.InStep

namespace Engine

variable {e : Engine} {p q : Program} {steps : List (String × Evaluation)}

theorem Ran.log_suffix (h : e.Ran p steps q) : q.recentTicks <:+ p.recentTicks ++ idsOf steps := by
  rw [h.recentTicks_eq]
  split
  · next hnil => simp [hnil, idsOf]
  · exact e.kept_suffix _

/-- Ticks under ids that are new to the log and to each other keep it in step with the entries. -/
theorem Ran.inStep (h : e.Ran p steps q) (hp : p.InStep) (hnodup : (p.recentTicks ++ idsOf steps).Nodup) :
    q.InStep := by
  induction h with
  | start => exact hp
  | @tick steps q id ctx outcome hran hok ih =>
    rw [idsOf_concat, ← List.append_assoc] at hnodup
    apply (ih (hnodup.sublist (List.sublist_append_left _ _))).advance hok
    exact hnodup.sublist (hran.log_suffix.sublist.append_right [id])

end Engine

theorem Snapshot.InStep.load {e : Engine} {s : Snapshot} {p : Program} (h : s.InStep)
    (hload : e.loadSnapshot s = .ok p) : p.InStep := by
  obtain ⟨hlog, hnodes⟩ := Engine.of_loadSnapshot hload
  intro n hn t ht
  obtain ⟨-, entry, hentry, -, -, hdata⟩ := hnodes n hn
  rw [hdata]
  rw [hlog] at ht
  exact h entry hentry t ht

/-- The entries that a document keeps of a program are those of its nodes. -/
theorem Snapshot.tickEntries_stored_ofProgram {p : Program} {entry : String × NodeEntry}
    (h : entry ∈ (Snapshot.ofProgram p).stored.nodes) :
    ∃ n ∈ p.nodes, entry.2.data.tickEntries = n.data.tickEntries := by
  obtain ⟨entry, hentry, rfl⟩ := List.mem_map.mp h
  obtain ⟨d, hd, rfl⟩ := List.mem_map.mp hentry
  obtain ⟨n, hn, rfl⟩ := List.mem_map.mp hd
  exact ⟨n, hn, rfl⟩

theorem Program.InStep.stored {p : Program} (h : p.InStep) : (Snapshot.ofProgram p).stored.InStep := by
  intro entry hentry t ht
  obtain ⟨n, hn, hentries⟩ := Snapshot.tickEntries_stored_ofProgram hentry
  rw [hentries]
  exact h n hn t ht

namespace Command

/-! ## The numbers of a sequence of runs -/

/-- The numbers that runs give to their ticks, the first run on a log of the given length. -/
def numbersFrom (length : Nat) : List RunOptions → List Nat
  | [] => []
  | o :: runs => List.range' (length + 1) o.ticks ++ numbersFrom (o.logAfter length) runs

/-- How many ticks there are in all runs. -/
def ticksOf (runs : List RunOptions) : Nat :=
  (runs.map (·.ticks)).sum

/-- After the given number of ticks, no run drops a tick from the log before another one ticks: the
limit of a run that ticks covers all ticks so far, unless none follow. -/
def KeepsNumbering (given : Nat) : List RunOptions → Prop
  | [] => True
  | o :: runs =>
    (0 < o.ticks → 0 < ticksOf runs → ∀ keep ∈ o.retention, given + o.ticks ≤ max keep 1) ∧
      KeepsNumbering (given + o.ticks) runs

instance decidableKeepsNumbering : ∀ given runs, Decidable (KeepsNumbering given runs)
  | _, [] => .isTrue trivial
  | given, o :: runs =>
    have := decidableKeepsNumbering (given + o.ticks) runs
    inferInstanceAs (Decidable (_ ∧ _))

theorem ticksOf_cons (o : RunOptions) (runs : List RunOptions) :
    ticksOf (o :: runs) = o.ticks + ticksOf runs := by
  rw [ticksOf, List.map_cons, List.sum_cons, ticksOf]

namespace RunOptions

variable {o : RunOptions} {length : Nat}

theorem logAfter_of_not_ticks (h : o.ticks = 0) : o.logAfter length = length := if_pos h

theorem logAfter_le : o.logAfter length ≤ length + o.ticks := by
  rw [logAfter]
  split
  · omega
  · split <;> omega

/-- Nothing is dropped in a run whose limit covers all ticks, and in no other one that ticks. -/
theorem logAfter_eq_add_iff : o.logAfter length = length + o.ticks ↔
    (0 < o.ticks → ∀ keep ∈ o.retention, length + o.ticks ≤ max keep 1) := by
  rw [logAfter]
  split
  · next hnone => exact iff_of_true (by omega) fun hticks => absurd hticks (by omega)
  · next hticks =>
    cases o.retention with
    | none => exact iff_of_true rfl fun _ keep hkeep => absurd hkeep (by simp)
    | some keep =>
      simp only [Option.mem_def, Option.some.injEq, forall_eq']
      omega

end RunOptions

theorem numbersFrom_of_not_ticks {runs : List RunOptions} (h : ticksOf runs = 0) (length : Nat) :
    numbersFrom length runs = [] := by
  induction runs generalizing length with
  | nil => rfl
  | cons o runs ih =>
    rw [ticksOf_cons] at h
    have hfirst : o.ticks = 0 := by omega
    rw [numbersFrom, hfirst, List.range'_zero, List.nil_append]
    exact ih (by omega) _

theorem keepsNumbering_of_not_ticks {runs : List RunOptions} (h : ticksOf runs = 0) (given : Nat) :
    KeepsNumbering given runs := by
  induction runs generalizing given with
  | nil => trivial
  | cons o runs ih =>
    rw [ticksOf_cons] at h
    exact ⟨fun hticks => absurd hticks (by omega), ih (by omega) _⟩

/-- The first number that is given is the one after the length of the log. -/
theorem succ_mem_numbersFrom {runs : List RunOptions} {length : Nat} (h : 0 < ticksOf runs) :
    length + 1 ∈ numbersFrom length runs := by
  induction runs with
  | nil => exact absurd h (by simp [ticksOf])
  | cons o runs ih =>
    rw [ticksOf_cons] at h
    rw [numbersFrom, List.mem_append]
    rcases Nat.eq_zero_or_pos o.ticks with hnone | hticks
    · rw [RunOptions.logAfter_of_not_ticks hnone]
      exact .inr (ih (by omega))
    · exact .inl (List.mem_range'_1.mpr ⟨le_rfl, by omega⟩)

/-- Where numbering is kept, the numbers are all those after the length of the log. -/
theorem numbersFrom_of_keepsNumbering {runs : List RunOptions} {length : Nat}
    (h : KeepsNumbering length runs) :
    numbersFrom length runs = List.range' (length + 1) (ticksOf runs) := by
  induction runs generalizing length with
  | nil => rfl
  | cons o runs ih =>
    obtain ⟨hfirst, hrest⟩ := h
    have happend : List.range' (length + 1) o.ticks
        ++ List.range' (length + o.ticks + 1) (ticksOf runs)
          = List.range' (length + 1) (ticksOf (o :: runs)) := by
      rw [ticksOf_cons, ← List.range'_append_1, Nat.add_right_comm]
    rw [numbersFrom, ← happend]
    rcases Nat.eq_zero_or_pos (ticksOf runs) with hlast | hlater
    · rw [numbersFrom_of_not_ticks hlast, hlast]
      rfl
    · have hlog : o.logAfter length = length + o.ticks :=
        RunOptions.logAfter_eq_add_iff.mpr fun hticks => hfirst hticks hlater
      rw [hlog, ih hrest]

/-- Where no number is given again, numbering is kept. Here `used` are numbers that were given before,
among them all up to the length of the log. -/
theorem keepsNumbering_of_nodup {runs : List RunOptions} {length : Nat} {used : List Nat}
    (hused : ∀ n, 0 < n → n ≤ length → n ∈ used)
    (h : (used ++ numbersFrom length runs).Nodup) : KeepsNumbering length runs := by
  induction runs generalizing length used with
  | nil => trivial
  | cons o runs ih =>
    rw [numbersFrom, ← List.append_assoc] at h
    have hgiven : ∀ n, 0 < n → n ≤ length + o.ticks → n ∈ used ++ List.range' (length + 1) o.ticks := by
      intro n hpos hle
      rcases Nat.lt_or_ge length n with hnew | hold
      · exact List.mem_append_right _ (List.mem_range'_1.mpr ⟨hnew, by omega⟩)
      · exact List.mem_append_left _ (hused n hpos hold)
    rcases Nat.eq_zero_or_pos (ticksOf runs) with hlast | hlater
    · exact ⟨fun _ hlater => absurd hlater (by omega), keepsNumbering_of_not_ticks hlast _⟩
    · rcases RunOptions.logAfter_le.eq_or_lt with hlog | hless
      · rw [hlog] at h
        exact ⟨fun hticks _ => RunOptions.logAfter_eq_add_iff.mp hlog hticks, ih hgiven h⟩
      · -- The next number is not beyond the ticks so far.
        have hagain := hgiven (o.logAfter length + 1) (Nat.succ_pos _) hless
        exact absurd (succ_mem_numbersFrom hlater) (List.disjoint_of_nodup_append h hagain)

/-! ## Sequences of runs -/

/-- Runs, the first first, of which each starts from the text that the one before it has saved; with
the number and the context under which each tick is made (`RunOptions.runTicks`), and the text that is
saved last. -/
inductive Continued : String → List RunOptions → List (Nat × Context) → String → Prop where
  | start (text : String) : Continued text [] [] text
  | run {text saved last : String} {o : RunOptions} {e : Engine} {p : Program}
      {runs : List RunOptions} {ticks : List (Nat × Context)}
      (hstart : o.Starts text e p) (hsaved : (o.run text).saved = some saved)
      (h : Continued saved runs ticks last) :
      Continued text (o :: runs) ((o.numbers p).map (fun n => (n, o.context n)) ++ ticks) last

theorem RunOptions.map_fst_contexts (o : RunOptions) (numbers : List Nat) :
    (numbers.map fun n => (n, o.context n)).map (·.1) = numbers := by
  rw [List.map_map]
  exact List.map_id _

/-- What a run under the given ids makes of the log and the entries of a snapshot. -/
structure RunOptions.Extends (o : RunOptions) (ids : List String) (s s' : Snapshot) : Prop where
  length : s'.recentTicks.length = o.logAfter s.recentTicks.length
  suffix : s'.recentTicks <:+ s.recentTicks ++ ids
  inStep : s.InStep → (s.recentTicks ++ ids).Nodup → s'.InStep

theorem RunOptions.Extends.recentTicks_eq {o : RunOptions} {ids : List String} {s s' : Snapshot}
    (h : o.Extends ids s s') :
    s'.recentTicks = (s.recentTicks ++ ids).rtake (o.logAfter s.recentTicks.length) := by
  rw [List.rtake, ← h.length]
  exact List.suffix_iff_eq_drop.mp h.suffix

namespace RunOptions.Starts

variable {o : RunOptions} {e : Engine} {p : Program} {s : Snapshot} {text saved : String}

theorem loadSnapshot (h : o.Starts text e p) (htext : Snapshot.ofText text = .ok s) :
    e.loadSnapshot s = .ok p := by
  obtain ⟨-, s', htext', hload⟩ := h
  obtain rfl : s' = s := Except.ok.inj (htext'.symm.trans htext)
  exact hload

theorem numbers_eq (h : o.Starts text e p) (htext : Snapshot.ofText text = .ok s) :
    o.numbers p = List.range' (s.recentTicks.length + 1) o.ticks := by
  rw [RunOptions.numbers_eq, (Engine.of_loadSnapshot (h.loadSnapshot htext)).1]

theorem extends_saved (h : o.Starts text e p) (htext : Snapshot.ofText text = .ok s)
    (hsaved : (o.run text).saved = some saved) :
    ∃ s', Snapshot.ofText saved = .ok s' ∧ o.Extends ((o.numbers p).map tickId) s s' := by
  obtain ⟨steps, q, hran, hids, hread⟩ := h.saved hsaved
  have hload := h.loadSnapshot htext
  have hlog := (Engine.of_loadSnapshot hload).1
  rw [← hids]
  refine ⟨_, hread, ?_, ?_, fun hs hnodup => ?_⟩
  · rw [← hlog]
    exact length_log h.engine hran hids
  · rw [← hlog]
    exact hran.log_suffix
  · rw [← hlog] at hnodup
    exact (hran.inStep (hs.load hload) hnodup).stored

/-- A run of one tick whose id is the oldest one of a full log: the old occurrence leaves the log and
takes the new entry with it. -/
theorem loses_entry (h : o.Starts text e p) (hsaved : (o.run text).saved = some saved) {keep : Nat}
    (hkeep : o.retention = some keep) {id : String} {rest : List String}
    (hlog : p.recentTicks = id :: rest) (hfull : p.recentTicks.length = max keep 1)
    (hids : (o.numbers p).map tickId = [id]) :
    ∃ s', Snapshot.ofText saved = .ok s' ∧ s'.recentTicks = rest ++ [id] ∧
      ∀ entry ∈ s'.nodes, id ∉ entry.2.data.tickEntries := by
  have hretention : e.tickRetention = some (max keep 1) := by
    rw [tickRetention_of_engine h.engine, hkeep, Option.map_some]
  obtain ⟨steps, q, hran, hsteps, hread⟩ := h.saved hsaved
  obtain ⟨ctx, outcome, hok, rfl⟩ := hran.of_idsOf_singleton (hsteps.trans hids)
  refine ⟨_, hread, ?_, fun entry hentry => ?_⟩
  · refine (Engine.log_of_advance hok).trans ?_
    rw [Engine.kept, hretention]
    dsimp only
    rw [List.rtake, List.length_append, hfull, hlog]
    simp
  · obtain ⟨m, hm, hentries⟩ := Snapshot.tickEntries_stored_ofProgram hentry
    rw [hentries]
    refine Engine.not_mem_tickEntries_of_dropped hretention hok ?_ hm
    rw [hfull, hlog]
    simp

end RunOptions.Starts

/-- Time goes forward with the numbers as long as it fits. -/
theorem time_lt_time {interval : UInt64} (hpos : 0 < interval) {m n : Nat} (hlt : m < n)
    (hfits : n * interval.toNat < UInt64.size) : m.toUInt64 * interval < n.toUInt64 * interval := by
  have hpos' : 0 < interval.toNat := hpos
  have hless : m * interval.toNat < n * interval.toNat := Nat.mul_lt_mul_of_pos_right hlt hpos'
  have htime : ∀ k, k * interval.toNat < UInt64.size →
      (k.toUInt64 * interval).toNat = k * interval.toNat := by
    intro k hk
    have hk' : k < UInt64.size := (Nat.le_mul_of_pos_right k hpos').trans_lt hk
    rw [UInt64.toNat_mul]
    change k % 2 ^ 64 * interval.toNat % 2 ^ 64 = _
    rw [Nat.mod_eq_of_lt hk', Nat.mod_eq_of_lt hk]
  rw [UInt64.lt_iff_toNat_lt, htime m (hless.trans hfits), htime n hfits]
  exact hless

namespace Continued

variable {text last : String} {s : Snapshot} {runs : List RunOptions} {ticks : List (Nat × Context)}

theorem numbers_eq (h : Continued text runs ticks last) (htext : Snapshot.ofText text = .ok s) :
    ticks.map (·.1) = numbersFrom s.recentTicks.length runs := by
  induction h generalizing s with
  | start => rfl
  | @run text saved last o e p runs ticks hstart hsaved _ ih =>
    obtain ⟨s', htext', hextends⟩ := hstart.extends_saved htext hsaved
    rw [List.map_append, o.map_fst_contexts, ih htext', hextends.length, hstart.numbers_eq htext,
      numbersFrom]

/-- As long as no id is given twice, what is saved is in step. -/
theorem inStep (h : Continued text runs ticks last) (htext : Snapshot.ofText text = .ok s)
    (hs : s.InStep) (hnodup : (s.recentTicks ++ (ticks.map (·.1)).map tickId).Nodup) :
    ∃ s', Snapshot.ofText last = .ok s' ∧
      s'.recentTicks <:+ s.recentTicks ++ (ticks.map (·.1)).map tickId ∧ s'.InStep := by
  induction h generalizing s with
  | start => exact ⟨s, htext, by simp, hs⟩
  | @run text saved last o e p runs ticks hstart hsaved _ ih =>
    obtain ⟨s', htext', hextends⟩ := hstart.extends_saved htext hsaved
    rw [List.map_append, o.map_fst_contexts, List.map_append, ← List.append_assoc] at hnodup ⊢
    have hsuffix : s'.recentTicks ++ (ticks.map (·.1)).map tickId
        <:+ s.recentTicks ++ (o.numbers p).map tickId ++ (ticks.map (·.1)).map tickId :=
      List.suffix_append_self_iff.mpr hextends.suffix
    have hs' := hextends.inStep hs (hnodup.sublist (List.sublist_append_left _ _))
    obtain ⟨s'', htext'', hlog, hs''⟩ := ih htext' hs' (hnodup.sublist hsuffix.sublist)
    exact ⟨s'', htext'', hlog.trans hsuffix, hs''⟩

theorem time_eq (h : Continued text runs ticks last) {interval : UInt64}
    (hinterval : ∀ o ∈ runs, o.interval = interval) :
    ∀ t ∈ ticks, t.2.time = t.1.toUInt64 * interval := by
  induction h with
  | start => exact fun t ht => absurd ht List.not_mem_nil
  | run _ _ _ ih =>
    obtain ⟨hfirst, hrest⟩ := List.forall_mem_cons.mp hinterval
    intro t ht
    rcases List.mem_append.mp ht with hnow | hlater
    · obtain ⟨n, -, rfl⟩ := List.mem_map.mp hnow
      rw [RunOptions.time_context, hfirst]
    · exact ih hrest t hlater

theorem times_increasing (h : Continued text runs ticks last) {interval : UInt64} (hpos : 0 < interval)
    (hinterval : ∀ o ∈ runs, o.interval = interval)
    (hfits : ∀ t ∈ ticks, t.1 * interval.toNat < UInt64.size)
    (hnumbers : (ticks.map (·.1)).Pairwise (· < ·)) : (ticks.map (·.2.time)).Pairwise (· < ·) := by
  have htime := h.time_eq hinterval
  rw [List.pairwise_map] at hnumbers ⊢
  refine hnumbers.imp_of_mem fun {a b} ha hb hlt => ?_
  rw [htime a ha, htime b hb]
  exact time_lt_time hpos hlt (hfits b hb)

end Continued

/-! ## Runs that can go on -/

/-- The text of a program without a cycle whose nodes have these ids, and whose types are standard. -/
def Holds (ids : List String) (text : String) : Prop :=
  ∃ (e : Engine) (p : Program), e.catalog = .standard ∧ p.nodes.map (·.id) = ids ∧
    (∀ n ∈ p.nodes, e.Loaded n) ∧ p.AcyclicOn (p.hasNode ·) ∧ text = (Snapshot.ofProgram p).text

/-- A run can load and tick such a program, and what it saves is one again. -/
theorem Holds.exists_saved {ids : List String} {text : String} (h : Holds ids text) {o : RunOptions}
    (haliases : o.aliases = []) (hsave : o.save = true) :
    ∃ e p saved, o.Starts text e p ∧ (o.run text).saved = some saved ∧ Holds ids saved := by
  obtain ⟨known, p, hknown, hids, hloaded, hacyclic, rfl⟩ := h
  obtain ⟨e, hengine, hcatalog⟩ : ∃ e, o.engine = .ok e ∧ e.catalog = .standard := by
    rw [RunOptions.engine, haliases]
    cases o.retention <;> exact ⟨_, rfl, rfl⟩
  obtain ⟨s, htext, hload⟩ := Engine.reload fun n hn =>
    (hloaded n hn).of_catalog (hcatalog.trans hknown.symm)
  have hgraph := Program.sameGraph_mapData p fun n => e.resize n.data.stored
  obtain ⟨r, hticks⟩ := RunOptions.exists_runTicks o e (hgraph.acyclicOn_iff.mpr hacyclic)
  have hstart : o.Starts (Snapshot.ofProgram p).text e _ := ⟨hengine, s, htext, hload⟩
  obtain ⟨steps, hran, -⟩ := RunOptions.ran_of_runTicks hticks
  have hgraph' := hgraph.trans hran.sameGraph
  have hloaded' := Engine.loaded_of_ticksTo hran.ticksTo fun n hn =>
    (Engine.loaded_of_loadSnapshot (Snapshot.stored_of_ofText htext) hload hn).1
  have hsaved := RunOptions.saved_eq_some_iff.mpr ⟨hsave, e, _, r, hstart, hticks, rfl⟩
  exact ⟨e, _, _, hstart, hsaved, e, r.program, hcatalog, hgraph'.2.trans hids, hloaded',
    hgraph'.acyclicOn_iff.mpr hacyclic, rfl⟩

theorem Holds.ofText {ids : List String} {text : String} (h : Holds ids text) :
    ∃ s, Snapshot.ofText text = .ok s ∧ s.nodes.map (·.1) = ids := by
  obtain ⟨e, p, -, hids, hloaded, -, rfl⟩ := h
  refine ⟨_, Engine.ofText_ofProgram hloaded, ?_⟩
  rw [← hids]
  simp [Snapshot.stored, Snapshot.ofProgram, Snapshot.ofDefinition, Program.toDefinition]

theorem Holds.exists_continued {ids : List String} {text : String} (h : Holds ids text)
    {runs : List RunOptions} (hruns : ∀ o ∈ runs, o.aliases = [] ∧ o.save = true) :
    ∃ ticks last, Continued text runs ticks last := by
  induction runs generalizing text with
  | nil => exact ⟨[], text, .start text⟩
  | cons o runs ih =>
    obtain ⟨⟨haliases, hsave⟩, hrest⟩ := List.forall_mem_cons.mp hruns
    obtain ⟨e, p, saved, hstart, hsaved, hholds⟩ := h.exists_saved haliases hsave
    obtain ⟨ticks, last, hcontinued⟩ := ih hholds hrest
    exact ⟨_, last, .run hstart hsaved hcontinued⟩

/-! ## When numbers increase -/

/-- A timer that is on for a second and off for two. -/
def clock : Program where
  id := none
  nodes := [.ofKind "t" .timer [("timeOn", .number (.integer 1)), ("timeOff", .number (.integer 2))]]
  connections := []
  recentTicks := []
  nodes_nodup := by
    change ["t"].Nodup
    decide
  connections_nodup := List.nodup_nil

theorem loaded_clock : ∀ n ∈ clock.nodes, ({} : Engine).Loaded n := by
  have hone : (Json.Number.integer 1).Proper := ⟨by decide, by decide⟩
  have htwo : (Json.Number.integer 2).Proper := ⟨by decide, by decide⟩
  exact List.forall_mem_singleton.mpr
    (Engine.loaded_ofKind (by decide) (by decide) ⟨hone, htwo, trivial⟩)

theorem holds_clock : Holds ["t"] (Snapshot.ofProgram clock).text :=
  ⟨{}, clock, rfl, rfl, loaded_clock, ((Program.selects_all clock).pass_ok_iff ⟨0, ∅⟩).mp ⟨_, rfl⟩, rfl⟩

/-- A run that saves, with its number of ticks and its limit on the log. -/
def saving (ticks : Nat) (keep : Option Nat) : RunOptions :=
  { ticks := ticks, retention := keep, save := true }

/-- **When the numbers of runs increase.** Over runs that go on from a text with an empty log, the
numbers increase, and no id is given twice, exactly when the limit of every run covers all ticks so far
until the last run that ticks. The numbers are then all from one on. With the same interval in all runs
time goes forward, as long as it fits; and what is saved has the newest ids in its log, each with an
entry in every node. -/
theorem increasing_iff_keepsNumbering {text last : String} {s : Snapshot} {runs : List RunOptions}
    {ticks : List (Nat × Context)} (htext : Snapshot.ofText text = .ok s) (hlog : s.recentTicks = [])
    (h : Continued text runs ticks last) :
    ticks.map (·.1) = numbersFrom 0 runs ∧
    ((ticks.map (·.1)).Pairwise (· < ·) ↔ KeepsNumbering 0 runs) ∧
    (((ticks.map (·.1)).map tickId).Nodup ↔ KeepsNumbering 0 runs) ∧
    (KeepsNumbering 0 runs →
      ticks.map (·.1) = List.range' 1 (ticksOf runs) ∧
      (∀ interval, 0 < interval → (∀ o ∈ runs, o.interval = interval) →
        (∀ t ∈ ticks, t.1 * interval.toNat < UInt64.size) →
        (ticks.map (·.2.time)).Pairwise (· < ·)) ∧
      ∃ s', Snapshot.ofText last = .ok s' ∧
        s'.recentTicks <:+ (ticks.map (·.1)).map tickId ∧ s'.InStep) := by
  have hnumbers : ticks.map (·.1) = numbersFrom 0 runs := by
    rw [h.numbers_eq htext, hlog]
    rfl
  have hkeeps : (ticks.map (·.1)).Nodup → KeepsNumbering 0 runs := by
    intro hnodup
    rw [hnumbers, ← List.nil_append (numbersFrom 0 runs)] at hnodup
    exact keepsNumbering_of_nodup (fun n hpos hle => absurd hpos (by omega)) hnodup
  have hall : KeepsNumbering 0 runs → ticks.map (·.1) = List.range' 1 (ticksOf runs) := by
    intro hkeep
    rw [hnumbers, numbersFrom_of_keepsNumbering hkeep]
  have hincreasing : KeepsNumbering 0 runs → (ticks.map (·.1)).Pairwise (· < ·) := by
    intro hkeep
    rw [hall hkeep]
    exact List.pairwise_lt_range' 1
  have hids : KeepsNumbering 0 runs → ((ticks.map (·.1)).map tickId).Nodup := by
    intro hkeep
    exact (hincreasing hkeep).nodup.map tickId_injective
  refine ⟨hnumbers, ⟨fun h => hkeeps h.nodup, hincreasing⟩, ⟨fun h => hkeeps (.of_map _ h), hids⟩, ?_⟩
  intro hkeep
  refine ⟨hall hkeep, fun interval hpos hinterval hfits => ?_, ?_⟩
  · exact h.times_increasing hpos hinterval hfits (hincreasing hkeep)
  · have hstart : s.InStep := by
      intro entry _ t ht
      rw [hlog] at ht
      exact absurd ht List.not_mem_nil
    obtain ⟨s', hs', hsuffix, hstep⟩ := h.inStep htext hstart (by rw [hlog]; exact hids hkeep)
    rw [hlog] at hsuffix
    exact ⟨s', hs', hsuffix, hstep⟩

/-- Numbers go on while nothing is dropped; what the last run that ticks drops is not missed. -/
theorem clock_increasing :
    ∃ s ticks last s', Snapshot.ofText (Snapshot.ofProgram clock).text = .ok s ∧ s.recentTicks = [] ∧
      Continued (Snapshot.ofProgram clock).text
        [saving 2 none, saving 0 (some 1), saving 3 (some 2)] ticks last ∧
      ticks.map (·.1) = [1, 2, 3, 4, 5] ∧ (ticks.map (·.2.time)).Pairwise (· < ·) ∧
      Snapshot.ofText last = .ok s' ∧
      s'.recentTicks <:+ ["tick-1", "tick-2", "tick-3", "tick-4", "tick-5"] ∧ s'.InStep := by
  have htext := Engine.ofText_ofProgram loaded_clock
  have hruns : ∀ o ∈ [saving 2 none, saving 0 (some 1), saving 3 (some 2)],
      o.aliases = [] ∧ o.save = true := by simp [saving]
  obtain ⟨ticks, last, h⟩ := holds_clock.exists_continued hruns
  obtain ⟨hfrom, -, -, hkeeps⟩ := increasing_iff_keepsNumbering htext rfl h
  obtain ⟨-, htimes, s', hs', hsuffix, hstep⟩ := hkeeps (by decide)
  have hnumbers : ticks.map (·.1) = [1, 2, 3, 4, 5] := hfrom.trans (by decide)
  have hfits : ∀ t ∈ ticks, t.1 * (1000 : UInt64).toNat < UInt64.size := by
    intro t ht
    have hbound : ∀ n ∈ [1, 2, 3, 4, 5], n * (1000 : UInt64).toNat < UInt64.size := by decide
    apply hbound
    rw [← hnumbers]
    exact List.mem_map_of_mem ht
  have hincreasing := htimes 1000 (by decide) (by simp [saving]) hfits
  rw [hnumbers] at hsuffix
  exact ⟨_, ticks, last, s', htext, rfl, h, hnumbers, hincreasing, hs', hsuffix, hstep⟩

/-- **Numbers come back once a run has dropped a tick.** Three ticks under a log of one leave the third
in the log, and the next run goes on from one: it gives the number 2 again, at an earlier time. The run
after that gives 2 while the log has it; the old occurrence leaves the log and takes the new entry with
it, so that no node has a value for the one id of the log. -/
theorem clock_numbers_come_back :
    ∃ s ticks last s', Snapshot.ofText (Snapshot.ofProgram clock).text = .ok s ∧ s.recentTicks = [] ∧
      Continued (Snapshot.ofProgram clock).text
        [saving 3 (some 1), saving 1 (some 1), saving 1 (some 1)] ticks last ∧
      ticks.map (·.1) = [1, 2, 3, 2, 2] ∧ ticks.map (·.2.time) = [1000, 2000, 3000, 2000, 2000] ∧
      Snapshot.ofText last = .ok s' ∧ s'.recentTicks = ["tick-2"] ∧ s'.nodes.map (·.1) = ["t"] ∧
      ∀ entry ∈ s'.nodes, "tick-2" ∉ entry.2.data.tickEntries := by
  have htext := Engine.ofText_ofProgram loaded_clock
  obtain ⟨e₁, p₁, text₁, hstart₁, hsaved₁, hholds₁⟩ :=
    holds_clock.exists_saved (o := saving 3 (some 1)) rfl rfl
  obtain ⟨s₁, htext₁, hextends₁⟩ := hstart₁.extends_saved htext hsaved₁
  obtain ⟨e₂, p₂, text₂, hstart₂, hsaved₂, hholds₂⟩ :=
    hholds₁.exists_saved (o := saving 1 (some 1)) rfl rfl
  obtain ⟨s₂, htext₂, hextends₂⟩ := hstart₂.extends_saved htext₁ hsaved₂
  obtain ⟨e₃, p₃, text₃, hstart₃, hsaved₃, hholds₃⟩ :=
    hholds₂.exists_saved (o := saving 1 (some 1)) rfl rfl
  obtain ⟨ticks, h⟩ : ∃ ticks, Continued (Snapshot.ofProgram clock).text
      [saving 3 (some 1), saving 1 (some 1), saving 1 (some 1)] ticks text₃ :=
    ⟨_, .run hstart₁ hsaved₁ (.run hstart₂ hsaved₂ (.run hstart₃ hsaved₃ (.start text₃)))⟩
  have hnumbers : ticks.map (·.1) = [1, 2, 3, 2, 2] := (h.numbers_eq htext).trans (by decide)
  have htimes : ticks.map (·.2.time) = [1000, 2000, 3000, 2000, 2000] := by
    have hinterval : ∀ t ∈ ticks, t.2.time = t.1.toUInt64 * 1000 := h.time_eq (by simp [saving])
    calc ticks.map (·.2.time) = ticks.map fun t => t.1.toUInt64 * 1000 := List.map_congr_left hinterval
      _ = (ticks.map (·.1)).map fun n => n.toUInt64 * 1000 := by rw [List.map_map]; rfl
      _ = [1000, 2000, 3000, 2000, 2000] := by rw [hnumbers]; decide
  have hlog₁ : s₁.recentTicks = ["tick-3"] := by
    rw [hextends₁.recentTicks_eq, hstart₁.numbers_eq htext]
    decide +kernel
  have hlog₂ : s₂.recentTicks = ["tick-2"] := by
    rw [hextends₂.recentTicks_eq, hstart₂.numbers_eq htext₁, hlog₁]
    decide +kernel
  have hlog₃ : p₃.recentTicks = ["tick-2"] :=
    (Engine.of_loadSnapshot (hstart₃.loadSnapshot htext₂)).1.trans hlog₂
  obtain ⟨s', hs', hlast, hentries⟩ := hstart₃.loses_entry hsaved₃ rfl hlog₃ (by rw [hlog₃]; rfl) (by
    rw [hstart₃.numbers_eq htext₂, hlog₂]
    decide +kernel)
  obtain ⟨s'', hs'', hnodes⟩ := hholds₃.ofText
  obtain rfl : s'' = s' := Except.ok.inj (hs''.symm.trans hs')
  exact ⟨_, ticks, text₃, s'', htext, rfl, h, hnumbers, htimes, hs', hlast, hnodes, hentries⟩

end Command

end Dataflow
