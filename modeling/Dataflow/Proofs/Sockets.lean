import Mathlib.Data.List.Induction
import Dataflow.Program.Sockets
import Dataflow.Proofs.Visits
/-!
# Connections grouped by pin

Grouping puts every connection into the socket of its pin and keeps the order within a socket: the
socket found for a pin holds exactly the connections of that pin (`Socket.find?_group`), and the pins
come in the order of their first connections (`Socket.pins_group`). Main statements: the feeder of a pin
is the source of the last connection of the pin whose source exists (`Program.find?_feeders`), and the
pins with a feeder are those that an existing node feeds, in the order of the pins
(`Program.pins_feeders`).
-/
set_option autoImplicit false

namespace Dataflow

/-! ## Sockets -/

namespace Socket

variable {node : String} {pin : Connection → String}

/-- One more connection goes into the socket of its pin and leaves every other socket as it was. -/
theorem find?_plug (sockets : List Socket) (c : Connection) (name : String) :
    (plug node pin sockets c).find? (·.pin == name) =
      if pin c = name then
        some ((sockets.find? (·.pin == name)).elim ⟨node, name, [c]⟩
          fun s => { s with connections := s.connections ++ [c] })
      else sockets.find? (·.pin == name) := by
  induction sockets with
  | nil =>
    by_cases hname : pin c = name
    · simp [plug, hname]
    · simp [plug, hname]
  | cons s rest ih =>
    by_cases hpin : s.pin = pin c
    · rw [plug, if_pos hpin]
      by_cases hname : pin c = name
      · simp [hpin, hname]
      · simp [hpin, hname]
    · rw [plug, if_neg hpin]
      by_cases hs : s.pin = name
      · have hname : pin c ≠ name := fun h => hpin (hs.trans h.symm)
        simp [hs, hname]
      · rw [List.find?_cons_of_neg (by simpa using hs), ih, List.find?_cons_of_neg (by simpa using hs)]

theorem group_concat (connections : List Connection) (c : Connection) :
    group node pin (connections ++ [c]) = plug node pin (group node pin connections) c := by
  simp [group, List.foldl_append]

/-- **The socket of a pin holds the connections of the pin, in their order.** -/
theorem find?_group (connections : List Connection) (name : String) :
    (group node pin connections).find? (·.pin == name) =
      if connections.filter (pin · == name) = [] then none
      else some ⟨node, name, connections.filter (pin · == name)⟩ := by
  induction connections using List.reverseRecOn with
  | nil => rfl
  | append_singleton rest c ih =>
    rw [group_concat, find?_plug, ih, List.filter_append]
    by_cases hname : pin c = name
    · by_cases hrest : rest.filter (pin · == name) = [] <;> simp [hname, hrest]
    · simp [hname]

/-- One more connection brings its pin to the end, unless the pin has a socket already. -/
theorem pins_plug (sockets : List Socket) (c : Connection) :
    (plug node pin sockets c).map (·.pin) =
      if pin c ∈ sockets.map (·.pin) then sockets.map (·.pin) else sockets.map (·.pin) ++ [pin c] := by
  induction sockets with
  | nil => rfl
  | cons s rest ih =>
    by_cases hpin : s.pin = pin c
    · rw [plug, if_pos hpin, List.map_cons, if_pos (by simp [hpin])]
      rfl
    · rw [plug, if_neg hpin, List.map_cons, ih, List.map_cons]
      simp only [List.mem_cons, Ne.symm hpin, false_or]
      split
      · rfl
      · rfl

/-- **The pins of the sockets** are those of the connections, each at its first connection. -/
theorem pins_group (connections : List Connection) :
    (group node pin connections).map (·.pin) = (connections.map pin).eraseDups := by
  induction connections using List.reverseRecOn with
  | nil => rfl
  | append_singleton rest c ih =>
    rw [group_concat, pins_plug, ih, List.map_append, List.map_singleton, eraseDups_concat]
    simp only [List.mem_eraseDups]

/-- No pin has two sockets. -/
theorem nodup_pins_group (connections : List Connection) :
    ((group node pin connections).map (·.pin)).Nodup := by
  induction connections using List.reverseRecOn with
  | nil => exact List.nodup_nil
  | append_singleton rest c ih =>
    rw [group_concat, pins_plug]
    split
    · exact ih
    · next hpin =>
      rw [← List.concat_eq_append]
      exact ih.concat hpin

/-- A socket is of the node and holds exactly the connections of its pin. -/
theorem eq_of_mem_group {connections : List Connection} {s : Socket}
    (hs : s ∈ group node pin connections) :
    s = ⟨node, s.pin, connections.filter (pin · == s.pin)⟩ := by
  have hfind : (group node pin connections).find? (·.pin == s.pin) = some s :=
    (find?_eq_some_iff_of_nodup (nodup_pins_group connections)).mpr ⟨hs, rfl⟩
  rw [find?_group] at hfind
  split at hfind
  · exact absurd hfind (by simp)
  · exact (Option.some.inj hfind).symm

theorem connections_of_mem_group {connections : List Connection} {s : Socket}
    (hs : s ∈ group node pin connections) : s.connections = connections.filter (pin · == s.pin) :=
  congrArg Socket.connections (eq_of_mem_group hs)

end Socket

/-! ## Feeders -/

namespace Program

/-- The last connection into an input pin whose source exists. -/
def shownConnection? (p : Program) (id pin : String) : Option Connection :=
  ((p.incoming id).filter fun c => c.targetInput == pin && p.hasNode c.source).getLast?

/-- **The feeder of a pin is the source of the last connection of the pin whose source exists.** -/
theorem find?_feeders (p : Program) (id pin : String) :
    (p.feeders id).find? (·.1 == pin) =
      (p.shownConnection? id pin).bind fun c => (p.node? c.source).map fun n => (pin, n) := by
  let feeder : Socket → Option (String × Node) := fun s =>
    (s.connections.reverse.findSome? fun c => p.node? c.source).map fun n => (s.pin, n)
  have hkey : ∀ s f, feeder s = some f → f.1 = s.pin := by
    intro s f hf
    obtain ⟨n, -, rfl⟩ := Option.map_eq_some_iff.mp hf
    rfl
  -- Sockets have distinct pins, so the first feeder of a pin is the one of its socket.
  have hfind : ∀ sockets : List Socket, (sockets.map (·.pin)).Nodup →
      (sockets.filterMap feeder).find? (·.1 == pin)
        = (sockets.find? (·.pin == pin)).bind feeder := by
    intro sockets hnodup
    induction sockets with
    | nil => rfl
    | cons s rest ih =>
      obtain ⟨hs, hrest⟩ := List.nodup_cons.mp hnodup
      by_cases hpin : s.pin = pin
      · have hnone : rest.find? (·.pin == pin) = none := by
          rw [List.find?_eq_none]
          intro r hr heq
          have hrpin : r.pin = s.pin := (beq_iff_eq.mp heq).trans hpin.symm
          exact hs (List.mem_map.mpr ⟨r, hr, hrpin⟩)
        rw [List.find?_cons_of_pos (by simpa using hpin), Option.bind_some]
        cases hf : feeder s with
        | none => rw [List.filterMap_cons_none hf, ih hrest, hnone, Option.bind_none]
        | some f =>
          rw [List.filterMap_cons_some hf, List.find?_cons_of_pos (by simp [hkey s f hf, hpin])]
      · rw [List.find?_cons_of_neg (by simpa using hpin)]
        cases hf : feeder s with
        | none => rw [List.filterMap_cons_none hf, ih hrest]
        | some f =>
          rw [List.filterMap_cons_some hf, List.find?_cons_of_neg (by simp [hkey s f hf, hpin]),
            ih hrest]
  have hsocket := hfind (p.inputSockets id) (Socket.nodup_pins_group _)
  rw [inputSockets, Socket.find?_group] at hsocket
  have hsplit : (p.incoming id).filter (fun c => c.targetInput == pin && p.hasNode c.source)
      = ((p.incoming id).filter (·.targetInput == pin)).filter fun c => (p.node? c.source).isSome := by
    simp only [List.filter_filter, isSome_node?, Bool.and_comm]
  rw [shownConnection?, hsplit]
  refine hsocket.trans ?_
  by_cases hempty : (p.incoming id).filter (·.targetInput == pin) = []
  · rw [if_pos hempty, hempty]
    rfl
  · rw [if_neg hempty, Option.bind_some]
    simp only [feeder, findSome?_reverse_eq]
    rw [Option.map_bind]
    rfl

/-- True when an existing node feeds the input pin. -/
def isFed (p : Program) (id pin : String) : Bool :=
  (p.incoming id).any fun c => c.targetInput == pin && p.hasNode c.source

theorem isFed_iff {p : Program} {id pin : String} : p.isFed id pin ↔
    ∃ c ∈ p.connections, c.target = id ∧ c.targetInput = pin ∧ p.hasNode c.source := by
  simp [isFed, incoming]

theorem pins_inputSockets (p : Program) (id : String) :
    (p.inputSockets id).map (·.pin) = ((p.incoming id).map (·.targetInput)).eraseDups :=
  Socket.pins_group _

theorem pins_outputSockets (p : Program) (id : String) :
    (p.outputSockets id).map (·.pin) = ((p.outgoing id).map (·.sourceOutput)).eraseDups :=
  Socket.pins_group _

/-- **The pins that are fed** come in the order of their first connections. -/
theorem pins_feeders (p : Program) (id : String) : (p.feeders id).map (·.1)
    = ((p.incoming id).map (·.targetInput)).eraseDups.filter (p.isFed id) := by
  -- A socket has a feeder when a connection of its pin comes from an existing node.
  have hfed : ∀ s ∈ p.inputSockets id,
      (s.connections.reverse.findSome? fun c => p.node? c.source).isSome = p.isFed id s.pin := by
    intro s hs
    rw [Bool.eq_iff_iff, List.findSome?_isSome_iff, Socket.connections_of_mem_group hs, isFed]
    simp [isSome_node?, and_assoc]
  have hpins : p.feeders id = (p.inputSockets id).filterMap fun s =>
      (s.connections.reverse.findSome? fun c => p.node? c.source).map fun n => (s.pin, n) := rfl
  rw [hpins, List.map_filterMap, ← pins_inputSockets, ← List.filterMap_eq_filter, List.filterMap_map]
  refine List.filterMap_congr fun s hs => ?_
  have hs' := hfed s hs
  cases hsource : s.connections.reverse.findSome? fun c => p.node? c.source with
  | none =>
    rw [hsource] at hs'
    simp [Option.guard, ← hs']
  | some n =>
    rw [hsource] at hs'
    simp [Option.guard, ← hs']

theorem mem_pins_feeders {p : Program} {id pin : String} :
    pin ∈ (p.feeders id).map (·.1) ↔
      ∃ c ∈ p.connections, c.target = id ∧ c.targetInput = pin ∧ p.hasNode c.source := by
  rw [pins_feeders, List.mem_filter, isFed_iff, List.mem_eraseDups, List.mem_map]
  refine and_iff_right_of_imp ?_
  rintro ⟨c, hc, htarget, hpin, -⟩
  exact ⟨c, List.mem_filter.mpr ⟨hc, by simpa using htarget⟩, hpin⟩

/-- No pin has two feeders. -/
theorem nodup_pins_feeders (p : Program) (id : String) : ((p.feeders id).map (·.1)).Nodup := by
  rw [pins_feeders, ← pins_inputSockets]
  exact (Socket.nodup_pins_group _).filter _

end Program

end Dataflow
