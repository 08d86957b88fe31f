import Dataflow.Proofs.Tick
/-!
# Ticks under a limit on the log

An engine that keeps a number of ticks drops the oldest one from the log when a tick is added, and
drops its entry from every node. The log may hold an id several times and the entries hold it once,
so the drop of an old occurrence also takes the entry of a younger one away.

Main statement: after any run of ticks the log is the newest ids, and a node has an entry for exactly
those ids of the log that lost no older occurrence since they were recorded
(`entries_of_retention`). When no id is given again while the log still has it, these are all ids of
the log. The run that shows what happens otherwise is in `repeated_tick_loses_entry`.
-/
set_option autoImplicit false

namespace Dataflow

/-! ## Runs -/

namespace Engine

/-- `q` is `p` after ticks that all ran, each with its id and its outcome, the first first. -/
inductive Ran (e : Engine) (p : Program) : List (String × Evaluation) → Program → Prop where
  | start : Ran e p [] p
  | tick {steps : List (String × Evaluation)} {q : Program} {id : String} {ctx : Context}
      {outcome : Evaluation} (h : Ran e p steps q)
      (hok : (e.advance q id ctx).1 = .ok outcome) :
      Ran e p (steps ++ [(id, outcome)]) (e.advance q id ctx).2

end Engine

/-- The ids of the steps of a run, the first first. -/
def idsOf (steps : List (String × Evaluation)) : List String :=
  steps.map (·.1)

namespace Engine

variable {e : Engine} {p q : Program} {steps : List (String × Evaluation)}

theorem Ran.sameGraph (h : e.Ran p steps q) : p.SameGraph q := by
  induction h with
  | start => exact ⟨rfl, rfl⟩
  | tick _ _ ih => exact ih.trans (Program.sameGraph_advance e _ _ _)

theorem Ran.of_idsOf_singleton {id : String} (h : e.Ran p steps q) (hids : idsOf steps = [id]) :
    ∃ ctx outcome, (e.advance p id ctx).1 = .ok outcome ∧ q = (e.advance p id ctx).2 := by
  cases h with
  | start => exact absurd hids (List.cons_ne_nil _ _).symm
  | @tick before q id' ctx outcome hran hok =>
    rw [idsOf, List.map_append] at hids
    obtain ⟨hbefore, hid⟩ := List.append_inj' (hids.trans (List.nil_append [id]).symm) rfl
    obtain rfl : id' = id := List.singleton_inj.mp hid
    have hempty := List.map_eq_nil_iff.mp hbefore
    cases hran with
    | start => exact ⟨ctx, outcome, hok, rfl⟩
    | tick => exact absurd hempty (by simp)

theorem Ran.ticksTo (h : e.Ran p steps q) : Relation.ReflTransGen Program.TicksTo p q := by
  induction h with
  | start => exact .refl
  | tick _ _ ih => exact ih.tail ⟨e, _, _, rfl⟩

/-- A program without a cycle can be ticked with any ids, any number of times. -/
theorem exists_ran (e : Engine) (h : p.AcyclicOn (p.hasNode ·)) (ticks : List (String × Context)) :
    ∃ steps q, e.Ran p steps q ∧ idsOf steps = ticks.map (·.1) := by
  induction ticks using List.reverseRecOn with
  | nil => exact ⟨[], p, .start, rfl⟩
  | append_singleton ticks t ih =>
    obtain ⟨steps, q, hran, hids⟩ := ih
    have hrun : ∃ outcome, (e.advance q t.1 t.2).1 = .ok outcome := by
      cases hadvance : (e.advance q t.1 t.2).1 with
      | ok outcome => exact ⟨outcome, rfl⟩
      | error err =>
        have hcycle := (advance_eq_error_iff e q t.1 t.2).mp ⟨err, hadvance⟩
        exact absurd (hran.sameGraph.acyclicOn_iff.mpr h) hcycle
    obtain ⟨outcome, hok⟩ := hrun
    refine ⟨_, _, .tick hran hok, ?_⟩
    rw [idsOf, List.map_append, List.map_append, ← hids]
    rfl

end Engine

/-! ## One tick -/

/-- The entries without those of the given ticks. -/
theorem getElem?_foldl_erase (dropped : List String) (entries : TickEntries) (t : String) :
    (dropped.foldl (fun entries tick => entries.erase tick) entries)[t]?
      = if t ∈ dropped then none else entries[t]? := by
  induction dropped generalizing entries with
  | nil => simp
  | cons d rest ih =>
    rw [List.foldl_cons, ih, Std.ExtTreeMap.getElem?_erase]
    by_cases hrest : t ∈ rest
    · simp [hrest]
    · simp only [hrest, if_false, List.mem_cons, or_false, Std.LawfulEqOrd.compare_eq_iff_eq,
        eq_comm (a := t)]

namespace Engine

variable {e : Engine} {p : Program} {ctx : Context} {tick : String} {outcome : Evaluation} {keep : Nat}

/-- The program that a tick leaves under a limit on the log. -/
theorem advance_of_retention (hkeep : e.tickRetention = some keep)
    (hok : (e.advance p tick ctx).1 = .ok outcome) :
    p.evaluateAll ctx = .ok outcome ∧
      (e.advance p tick ctx).2 = (e.record p tick outcome).retain keep := by
  obtain ⟨hpass, hafter⟩ := advance_of_ok hok
  rw [hafter, hkeep]
  exact ⟨hpass, rfl⟩

/-- What an engine keeps of a log: the newest ids, or all. -/
def kept (e : Engine) (log : List String) : List String :=
  match e.tickRetention with
  | some keep => log.rtake keep
  | none => log

theorem kept_suffix (e : Engine) (log : List String) : e.kept log <:+ log := by
  rw [kept]
  cases e.tickRetention with
  | none => exact List.suffix_rfl
  | some keep => exact List.drop_suffix _ _

/-- Dropping what one id pushes out and then what the next one does is dropping once. -/
theorem kept_concat_kept (e : Engine) (log : List String) (id : String) :
    e.kept (e.kept log ++ [id]) = e.kept (log ++ [id]) := by
  simp only [kept]
  cases e.tickRetention with
  | none => rfl
  | some keep => exact rtake_concat_rtake log id keep

/-- The log after a tick. -/
theorem log_of_advance (hok : (e.advance p tick ctx).1 = .ok outcome) :
    (e.advance p tick ctx).2.recentTicks = e.kept (p.recentTicks ++ [tick]) := by
  rw [(advance_of_ok hok).2, kept]
  cases e.tickRetention <;> rfl

/-- The entries of a node after a tick: what the tick recorded and what was there before, without
those of the ids that leave the log. -/
theorem entry_of_retention (hkeep : e.tickRetention = some keep)
    (hok : (e.advance p tick ctx).1 = .ok outcome) {m : Node}
    (hm : m ∈ (e.advance p tick ctx).2.nodes) :
    ∃ n ∈ p.nodes, m.id = n.id ∧ ∃ x, outcome.value? n.id = some x ∧
      ∀ t, m.data.tickEntries[t]? =
        if t ∈ (p.recentTicks ++ [tick]).take (p.recentTicks.length + 1 - keep) then none
        else if t = tick then some ⟨some (Number.text x), none⟩
        else n.data.tickEntries[t]? := by
  obtain ⟨hpass, hprogram⟩ := advance_of_retention hkeep hok
  rw [hprogram] at hm
  obtain ⟨n', hn', rfl⟩ := List.mem_map.mp hm
  obtain ⟨n, hn, rfl⟩ := List.mem_map.mp hn'
  obtain ⟨x, hx⟩ := Program.exists_value?_of_evaluateAll hpass hn
  refine ⟨n, hn, rfl, x, hx, fun t => ?_⟩
  have hlength : (e.record p tick outcome).recentTicks.length = p.recentTicks.length + 1 := by
    simp [record, Program.withRecentTicks]
  simp only [getElem?_foldl_erase, hlength]
  simp only [record, Program.withRecentTicks, recorded, hx, Option.getD_some]
  congr 1
  rw [Std.ExtTreeMap.getElem?_insert]
  simp only [Std.LawfulEqOrd.compare_eq_iff_eq, eq_comm (a := t)]

/-- An id that leaves the log at a tick has no entry after it, though the log may have it again. -/
theorem not_mem_tickEntries_of_dropped (hkeep : e.tickRetention = some keep)
    (hok : (e.advance p tick ctx).1 = .ok outcome) {t : String}
    (ht : t ∈ (p.recentTicks ++ [tick]).take (p.recentTicks.length + 1 - keep)) {m : Node}
    (hm : m ∈ (e.advance p tick ctx).2.nodes) : t ∉ m.data.tickEntries := by
  obtain ⟨n, -, -, x, -, hentry⟩ := entry_of_retention hkeep hok hm
  rw [Std.ExtTreeMap.mem_iff_isSome_getElem?, hentry, if_pos ht]
  exact Bool.false_ne_true

end Engine

/-! ## Which entries are left -/

/-- After the given ids and under a log of `keep` ids, `t` was given at a place that the log still
has, and no other place at which it was given has left the log since. -/
def Standing (keep : Nat) (ids : List String) (t : String) : Prop :=
  ∃ i, ids[i]? = some t ∧ ids.length ≤ i + keep ∧
    ∀ j, ids[j]? = some t → j + keep < i ∨ ids.length ≤ j + keep

/-- No id is given again before the log has lost it. -/
def Spaced (keep : Nat) (ids : List String) : Prop :=
  ∀ (i j : Nat) (t : String), ids[j]? = some t → ids[i]? = some t → j < i → j + keep < i

theorem mem_rtake_iff {keep : Nat} {ids : List String} {t : String} :
    t ∈ ids.rtake keep ↔ ∃ i, ids[i]? = some t ∧ ids.length ≤ i + keep := by
  rw [List.rtake, List.mem_iff_getElem?]
  simp only [List.getElem?_drop]
  constructor
  · rintro ⟨i, hi⟩
    exact ⟨_, hi, by omega⟩
  · rintro ⟨i, hi, hle⟩
    refine ⟨i - (ids.length - keep), ?_⟩
    rw [← hi]
    congr 1
    omega

theorem Standing.mem_rtake {keep : Nat} {ids : List String} {t : String} (h : Standing keep ids t) :
    t ∈ ids.rtake keep := by
  obtain ⟨i, hi, hle, -⟩ := h
  exact mem_rtake_iff.mpr ⟨i, hi, hle⟩

/-- When ids are far enough apart, all of the log stands. -/
theorem Spaced.standing {keep : Nat} {ids : List String} {t : String} (h : Spaced keep ids)
    (ht : t ∈ ids.rtake keep) : Standing keep ids t := by
  obtain ⟨i, hi, hle⟩ := mem_rtake_iff.mp ht
  refine ⟨i, hi, hle, fun j hj => ?_⟩
  rcases Nat.lt_trichotomy j i with hlt | heq | hgt
  · exact .inl (h i j t hj hi hlt)
  · exact .inr (heq ▸ hle)
  · exact .inr (by omega)

/-- What stands after one more id: the new one and what stood before, without the id that was given
`keep` places earlier. -/
theorem standing_concat_iff {keep : Nat} (hkeep : 0 < keep) {ids : List String} {id t : String} :
    Standing keep (ids ++ [id]) t ↔
      (t = id ∨ Standing keep ids t) ∧ ∀ j, ids[j]? = some t → j + keep ≠ ids.length := by
  simp only [Standing, getElem?_concat_eq_some_iff, List.length_append, List.length_singleton]
  constructor
  · rintro ⟨i, hi | ⟨rfl, rfl⟩, hle, hothers⟩
    · have hlt : i < ids.length := (List.getElem?_eq_some_iff.mp hi).1
      refine ⟨.inr ⟨i, hi, by omega, fun j hj => ?_⟩, fun j hj => ?_⟩
      · have := hothers j (.inl hj)
        omega
      · have := hothers j (.inl hj)
        omega
    · refine ⟨.inl rfl, fun j hj => ?_⟩
      have := hothers j (.inl hj)
      omega
  · rintro ⟨rfl | ⟨i, hi, hle, hothers⟩, hleaves⟩
    · refine ⟨ids.length, .inr ⟨rfl, rfl⟩, by omega, fun j hj => ?_⟩
      rcases hj with hj | ⟨rfl, -⟩
      · have := hleaves j hj
        omega
      · omega
    · have hstays := hleaves i hi
      refine ⟨i, .inl hi, by omega, fun j hj => ?_⟩
      rcases hj with hj | ⟨rfl, -⟩
      · have := hothers j hj
        have := hleaves j hj
        omega
      · omega

/-- The id that leaves a full log when one more is given is the one given `keep` places earlier. -/
theorem mem_take_concat_iff {keep : Nat} (hkeep : 0 < keep) {ids : List String} {id t : String} :
    t ∈ (ids.rtake keep ++ [id]).take ((ids.rtake keep).length + 1 - keep) ↔
      ∃ j, ids[j]? = some t ∧ j + keep = ids.length := by
  have hlength : (ids.rtake keep).length = min ids.length keep := by
    simp only [List.rtake, List.length_drop]
    omega
  have hget : ∀ i, (ids.rtake keep)[i]? = ids[ids.length - keep + i]? := fun i =>
    List.getElem?_drop
  rw [List.take_append_of_le_length (by omega), List.mem_iff_getElem?, hlength]
  simp only [List.getElem?_take, hget]
  constructor
  · rintro ⟨i, hi⟩
    split at hi
    · exact ⟨_, hi, by omega⟩
    · exact absurd hi (by simp)
  · rintro ⟨j, hj, hsum⟩
    refine ⟨0, ?_⟩
    rw [if_pos (by omega), ← hj]
    congr 1
    omega

/-! ## The log and the entries after a run -/

namespace Engine

variable {e : Engine} {p q : Program} {steps : List (String × Evaluation)} {keep : Nat}

theorem idsOf_concat (steps : List (String × Evaluation)) (id : String) (outcome : Evaluation) :
    idsOf (steps ++ [(id, outcome)]) = idsOf steps ++ [id] := by
  simp [idsOf]

/-- The log after a run: before the first tick nothing is dropped. -/
theorem Ran.recentTicks_eq (h : e.Ran p steps q) :
    q.recentTicks = if steps = [] then p.recentTicks else e.kept (p.recentTicks ++ idsOf steps) := by
  induction h with
  | start => rw [if_pos rfl]
  | @tick steps q id ctx outcome _ hok ih =>
    have hne : steps ++ [(id, outcome)] ≠ [] := by simp
    rw [if_neg hne, log_of_advance hok, ih, idsOf_concat, ← List.append_assoc]
    cases steps with
    | nil => rw [if_pos rfl, idsOf, List.map_nil, List.append_nil]
    | cons first rest => rw [if_neg (List.cons_ne_nil _ _), kept_concat_kept]

theorem Ran.log (h : e.Ran p steps q) (hkeep : e.tickRetention = some keep)
    (hlog : p.recentTicks = []) : q.recentTicks = (idsOf steps).rtake keep := by
  rw [h.recentTicks_eq, hlog, kept, hkeep]
  cases steps with
  | nil => simp [idsOf, List.rtake]
  | cons first rest => rw [if_neg (List.cons_ne_nil _ _), List.nil_append]

theorem Ran.mem_entries_iff (h : e.Ran p steps q) (hkeep : e.tickRetention = some keep)
    (hpos : 0 < keep) (hlog : p.recentTicks = [])
    (hentries : ∀ n ∈ p.nodes, n.data.tickEntries = ∅) {m : Node} (hm : m ∈ q.nodes) (t : String) :
    t ∈ m.data.tickEntries ↔ Standing keep (idsOf steps) t := by
  induction h generalizing m with
  | start =>
    rw [hentries m hm]
    simp [idsOf, Standing]
  | @tick steps q id ctx outcome hran hok ih =>
    obtain ⟨n, hn, -, x, -, hentry⟩ := entry_of_retention hkeep hok hm
    have hleaves : t ∈ (q.recentTicks ++ [id]).take (q.recentTicks.length + 1 - keep) ↔
        ∃ j, (idsOf steps)[j]? = some t ∧ j + keep = (idsOf steps).length := by
      rw [hran.log hkeep hlog]
      exact mem_take_concat_iff hpos
    rw [Std.ExtTreeMap.mem_iff_isSome_getElem?, hentry, idsOf_concat, standing_concat_iff hpos, ← ih hn]
    by_cases hleft : t ∈ (q.recentTicks ++ [id]).take (q.recentTicks.length + 1 - keep)
    · obtain ⟨j, hj, hsum⟩ := hleaves.mp hleft
      rw [if_pos hleft]
      exact iff_of_false (by simp) fun hstays => hstays.2 j hj hsum
    · have hstays : ∀ j, (idsOf steps)[j]? = some t → j + keep ≠ (idsOf steps).length :=
        fun j hj hsum => hleft (hleaves.mpr ⟨j, hj, hsum⟩)
      rw [if_neg hleft, and_iff_left hstays, Std.ExtTreeMap.mem_iff_isSome_getElem?]
      by_cases ht : t = id <;> simp [ht]

/-- The value shown for a node is the one just recorded, as long as its entry is there. -/
theorem Ran.currentValue?_iff {id : String} {outcome : Evaluation}
    (h : e.Ran p (steps ++ [(id, outcome)]) q) (hkeep : e.tickRetention = some keep)
    (hpos : 0 < keep) (hlog : p.recentTicks = [])
    (hentries : ∀ n ∈ p.nodes, n.data.tickEntries = ∅) {m : Node} (hm : m ∈ q.nodes) :
    ∃ x, outcome.value? m.id = some x ∧ ∀ text, q.currentValue? m.id = some text ↔
      Standing keep (idsOf (steps ++ [(id, outcome)])) id ∧ text = Number.text x := by
  have hstanding := h.mem_entries_iff hkeep hpos hlog hentries hm id
  have hlast : q.currentTick? = some id := by
    rw [Program.currentTick?, h.log hkeep hlog, idsOf_concat, List.rtake,
      List.getLast?_drop, if_neg (by simp; omega)]
    simp
  generalize hsteps : steps ++ [(id, outcome)] = all at h hstanding
  cases h with
  | start => exact absurd hsteps (by simp)
  | @tick before q id' ctx outcome' hran hok =>
    obtain ⟨-, hstep⟩ := List.append_inj' hsteps rfl
    obtain ⟨rfl, rfl⟩ : id = id' ∧ outcome = outcome' := by simpa using hstep
    obtain ⟨n, hn, hid, x, hx, hentry⟩ := entry_of_retention hkeep hok hm
    refine ⟨x, hid ▸ hx, fun text => ?_⟩
    rw [← hstanding, Std.ExtTreeMap.mem_iff_isSome_getElem?]
    simp only [Program.currentValue?, hlast, Program.node?_of_mem hm, NodeDefinition.valueAt?, hentry]
    split
    · simp
    · simp [eq_comm]

/-- **Under a limit on the log, the log is the newest ids, and the entries are those of the ids that
stand.** Here a limit of zero counts as one. The value shown for a node after the last tick is the one
just recorded as long as its id stands. When no id is given again while the log has it, every id of
the log stands: log and entries are in step. -/
theorem entries_of_retention (e : Engine) (k : Nat) {p q : Program}
    {steps : List (String × Evaluation)} (hlog : p.recentTicks = [])
    (hentries : ∀ n ∈ p.nodes, n.data.tickEntries = ∅)
    (hran : (e.withTickRetention k).Ran p steps q) :
    q.recentTicks = (idsOf steps).rtake (max k 1) ∧
    (∀ n ∈ q.nodes, ∀ t, t ∈ n.data.tickEntries ↔ Standing (max k 1) (idsOf steps) t) ∧
    (∀ id outcome, steps.getLast? = some (id, outcome) → ∀ n ∈ q.nodes,
      ∃ x, outcome.value? n.id = some x ∧ ∀ text, q.currentValue? n.id = some text ↔
        Standing (max k 1) (idsOf steps) id ∧ text = Number.text x) ∧
    (Spaced (max k 1) (idsOf steps) →
      (∀ n ∈ q.nodes, ∀ t, t ∈ n.data.tickEntries ↔ t ∈ q.recentTicks) ∧
      ∀ id outcome, steps.getLast? = some (id, outcome) → ∀ n ∈ q.nodes,
        ∃ x, outcome.value? n.id = some x ∧ q.currentValue? n.id = some (Number.text x)) := by
  have hpos : 0 < max k 1 := by omega
  have hwindow := hran.log rfl hlog
  have hmem := fun n hn t => hran.mem_entries_iff rfl hpos hlog hentries (m := n) hn t
  have hshown : ∀ id outcome, steps.getLast? = some (id, outcome) → ∀ n ∈ q.nodes,
      ∃ x, outcome.value? n.id = some x ∧ ∀ text, q.currentValue? n.id = some text ↔
        Standing (max k 1) (idsOf steps) id ∧ text = Number.text x := by
    intro id outcome hlast n hn
    obtain ⟨before, rfl⟩ := List.getLast?_eq_some_iff.mp hlast
    exact hran.currentValue?_iff rfl hpos hlog hentries hn
  refine ⟨hwindow, hmem, hshown, fun hspaced => ⟨fun n hn t => ?_, fun id outcome hlast n hn => ?_⟩⟩
  · rw [hmem n hn t, hwindow]
    exact ⟨Standing.mem_rtake, hspaced.standing⟩
  · obtain ⟨x, hx, htext⟩ := hshown id outcome hlast n hn
    refine ⟨x, hx, (htext _).mpr ⟨hspaced.standing (mem_rtake_iff.mpr ?_), rfl⟩⟩
    obtain ⟨before, rfl⟩ := List.getLast?_eq_some_iff.mp hlast
    refine ⟨(idsOf before).length, ?_, ?_⟩
    · rw [idsOf_concat, List.getElem?_concat_length]
    · rw [idsOf_concat, List.length_append, List.length_singleton]
      omega

theorem adder_acyclicOn : Program.adder.AcyclicOn (Program.adder.hasNode ·) :=
  ((Program.selects_all _).pass_ok_iff ⟨0, ∅⟩).mp ⟨_, Program.adder_evaluateAll _⟩

/-- An id may come back once the log has lost it: with a log of one, after `1`, `2` and `1` again. -/
theorem adder_entries_of_retention :
    ∃ steps q, (({} : Engine).withTickRetention 0).Ran Program.adder steps q ∧
      idsOf steps = ["1", "2", "1"] ∧ Spaced 1 (idsOf steps) ∧ q.recentTicks = ["1"] ∧
      ∀ n ∈ q.nodes, (∀ t, t ∈ n.data.tickEntries ↔ t = "1") ∧
        ∃ x, q.currentValue? n.id = some (Number.text x) := by
  obtain ⟨steps, q, hran, hids⟩ := exists_ran (({} : Engine).withTickRetention 0) adder_acyclicOn
    [("1", ⟨0, ∅⟩), ("2", ⟨1, ∅⟩), ("1", ⟨2, ∅⟩)]
  have hspaced : Spaced 1 (idsOf steps) := by
    intro i j t hj hi hlt
    rw [hids] at hj hi
    have hbound : i < 3 := (List.getElem?_eq_some_iff.mp hi).1
    have hplaces : j = 0 ∧ i = 1 ∨ j = 0 ∧ i = 2 ∨ j = 1 ∧ i = 2 := by omega
    rcases hplaces with ⟨rfl, rfl⟩ | ⟨rfl, rfl⟩ | ⟨rfl, rfl⟩
    · exact absurd (hj.trans hi.symm) (by decide)
    · omega
    · exact absurd (hj.trans hi.symm) (by decide)
  have hempty : ∀ n ∈ Program.adder.nodes, n.data.tickEntries = ∅ := by
    simp [Program.adder, NodeDefinition.ofType]
  obtain ⟨hlog, -, -, hstep⟩ := entries_of_retention {} 0 rfl hempty hran
  obtain ⟨hentries, hshown⟩ := hstep hspaced
  have hlog' : q.recentTicks = ["1"] := by
    rw [hlog, hids]
    rfl
  have hlast : ∃ outcome, steps.getLast? = some ("1", outcome) := by
    have hget : (idsOf steps).getLast? = some "1" := by
      rw [hids]
      rfl
    rw [idsOf, List.getLast?_map, Option.map_eq_some_iff] at hget
    obtain ⟨⟨id, outcome⟩, hs, rfl⟩ := hget
    exact ⟨outcome, hs⟩
  obtain ⟨outcome, hlast⟩ := hlast
  refine ⟨steps, q, hran, hids, hspaced, hlog', fun n hn => ⟨fun t => ?_, ?_⟩⟩
  · rw [hentries n hn t, hlog', List.mem_singleton]
  · obtain ⟨x, -, hx⟩ := hshown _ _ hlast n hn
    exact ⟨x, hx⟩

/-- **A tick id that is given twice in a row loses its entry under a log of one.** The log still has
the id, and no node has a value for it. -/
theorem repeated_tick_loses_entry :
    ∃ steps q, (({} : Engine).withTickRetention 1).Ran Program.adder steps q ∧
      idsOf steps = ["a", "a"] ∧ q.recentTicks = ["a"] ∧ q.hasNode "s" ∧
      ∀ n ∈ q.nodes, "a" ∉ n.data.tickEntries ∧ q.currentValue? n.id = none := by
  obtain ⟨steps, q, hran, hids⟩ := exists_ran (({} : Engine).withTickRetention 1) adder_acyclicOn
    [("a", ⟨0, ∅⟩), ("a", ⟨1, ∅⟩)]
  have hempty : ∀ n ∈ Program.adder.nodes, n.data.tickEntries = ∅ := by
    simp [Program.adder, NodeDefinition.ofType]
  have hlog : q.recentTicks = ["a"] := by
    rw [hran.log rfl rfl, hids]
    rfl
  -- The only place that the log still has is the second, and the first has left since.
  have hgone : ¬ Standing 1 (idsOf steps) "a" := by
    rw [hids]
    rintro ⟨i, hi, -, hothers⟩
    have hbound : i < 2 := (List.getElem?_eq_some_iff.mp hi).1
    rcases hothers 0 rfl with hlt | hle
    · omega
    · exact absurd hle (by decide)
  have hnone : ∀ n ∈ q.nodes, "a" ∉ n.data.tickEntries := fun n hn hmem =>
    hgone ((hran.mem_entries_iff rfl Nat.one_pos rfl hempty hn "a").mp hmem)
  have hnode : q.hasNode "s" := by
    rw [Program.hasNode_iff_mem, hran.sameGraph.2]
    decide
  refine ⟨steps, q, hran, hids, hlog, hnode, fun n hn => ⟨hnone n hn, ?_⟩⟩
  have hentry : n.data.tickEntries["a"]? = none := by
    rw [← Option.not_isSome_iff_eq_none, ← Std.ExtTreeMap.mem_iff_isSome_getElem?]
    exact hnone n hn
  simp [Program.currentValue?, Program.currentTick?, hlog, Program.node?_of_mem hn,
    NodeDefinition.valueAt?, hentry]

end Engine

end Dataflow
