import Dataflow.Proofs.Sockets
/-!
# Sockets divide the connections of a node

Each connection of a node is in one socket, that of its pin; within a socket the connections keep the
order of the table, and the sockets come in the order of their first connections (`Socket.Divides`).
No other list of sockets is like that (`Socket.divides_iff_eq_group`). Main statement: the sockets of
either side of a node divide its connections so, and its feeders are, in the order of the sockets, the
sources of the last connections that have one (`Program.sockets_divide`).
-/
set_option autoImplicit false

namespace Dataflow

/-! ## Sockets -/

namespace Socket

/-- The first connection of each socket. -/
def firsts (sockets : List Socket) : List Connection :=
  sockets.filterMap (·.connections.head?)

/-- The sockets divide the connections of a node by pin and keep their order. -/
structure Divides (node : String) (pin : Connection → String) (connections : List Connection)
    (sockets : List Socket) : Prop where
  node_eq : ∀ s ∈ sockets, s.node = node
  /-- The pins that have a socket are those of the connections. -/
  mem_pins_iff : ∀ name, name ∈ sockets.map (·.pin) ↔ ∃ c ∈ connections, pin c = name
  nodup_pins : (sockets.map (·.pin)).Nodup
  existsUnique : ∀ c ∈ connections, ∃! s, s ∈ sockets ∧ c ∈ s.connections
  pin_eq : ∀ s ∈ sockets, ∀ c ∈ s.connections, pin c = s.pin
  /-- Within a socket the connections keep their order. -/
  sublist : ∀ s ∈ sockets, s.connections.Sublist connections
  /-- The sockets come in the order of their first connections. -/
  firsts_sublist : (firsts sockets).Sublist connections

variable {node : String} {pin : Connection → String} {connections : List Connection}
  {sockets : List Socket}

namespace Divides

/-- A socket holds all connections of its pin. -/
theorem connections_eq (h : Divides node pin connections sockets) (hnodup : connections.Nodup)
    {s : Socket} (hs : s ∈ sockets) : s.connections = connections.filter (pin · == s.pin) := by
  apply eq_of_sublist_of_mem_iff hnodup (h.sublist s hs) List.filter_sublist
  intro c
  rw [List.mem_filter, beq_iff_eq]
  constructor
  · intro hc
    exact ⟨(h.sublist s hs).subset hc, h.pin_eq s hs c hc⟩
  · rintro ⟨hc, hpin⟩
    -- The socket that the connection is in has the same pin, so it is this one.
    obtain ⟨t, ⟨ht, hct⟩, -⟩ := h.existsUnique c hc
    have hpins : t.pin = s.pin := (h.pin_eq t ht c hct).symm.trans hpin
    rwa [List.inj_on_of_nodup_map h.nodup_pins ht hs hpins] at hct

/-- A socket begins with the first connection of its pin. -/
theorem head?_eq (h : Divides node pin connections sockets) (hnodup : connections.Nodup)
    {s : Socket} (hs : s ∈ sockets) :
    s.connections.head? = connections.find? (pin · == s.pin) := by
  rw [h.connections_eq hnodup hs, List.head?_filter]

theorem mem_firsts_iff (h : Divides node pin connections sockets) (hnodup : connections.Nodup)
    {c : Connection} :
    c ∈ firsts sockets ↔ connections.find? (pin · == pin c) = some c := by
  rw [firsts, List.mem_filterMap]
  constructor
  · rintro ⟨s, hs, hhead⟩
    rw [h.head?_eq hnodup hs] at hhead
    have hpin : pin c = s.pin := by simpa using List.find?_some hhead
    rwa [hpin]
  · intro hfind
    have hpin : pin c ∈ sockets.map (·.pin) :=
      (h.mem_pins_iff _).mpr ⟨c, List.mem_of_find?_eq_some hfind, rfl⟩
    obtain ⟨s, hs, hspin⟩ := List.mem_map.mp hpin
    refine ⟨s, hs, ?_⟩
    rw [h.head?_eq hnodup hs, hspin]
    exact hfind

/-- The sockets are known from their first connections. -/
theorem eq_map_firsts (h : Divides node pin connections sockets) (hnodup : connections.Nodup) :
    sockets = (firsts sockets).map fun c =>
      ⟨node, pin c, connections.filter (pin · == pin c)⟩ := by
  have hsocket : ∀ s ∈ sockets, (s.connections.head?.map fun c =>
      (⟨node, pin c, connections.filter (pin · == pin c)⟩ : Socket)) = some s := by
    intro s hs
    obtain ⟨d, hd, hdpin⟩ := (h.mem_pins_iff s.pin).mp (List.mem_map_of_mem hs)
    have hsome : (connections.find? (pin · == s.pin)).isSome :=
      List.find?_isSome.mpr ⟨d, hd, by simpa using hdpin⟩
    obtain ⟨c, hc⟩ := Option.isSome_iff_exists.mp hsome
    have hpin : pin c = s.pin := by simpa using List.find?_some hc
    rw [h.head?_eq hnodup hs, hc, Option.map_some, hpin, ← h.node_eq s hs,
      ← h.connections_eq hnodup hs]
  rw [firsts, List.map_filterMap, List.filterMap_congr hsocket, List.filterMap_some]

/-- Connections are divided in one way only. -/
theorem unique {others : List Socket} (h : Divides node pin connections sockets)
    (h' : Divides node pin connections others) (hnodup : connections.Nodup) : sockets = others := by
  have hfirsts : firsts sockets = firsts others := by
    apply eq_of_sublist_of_mem_iff hnodup h.firsts_sublist h'.firsts_sublist
    intro c
    rw [h.mem_firsts_iff hnodup, h'.mem_firsts_iff hnodup]
  rw [h.eq_map_firsts hnodup, h'.eq_map_firsts hnodup, hfirsts]

end Divides

theorem mem_pins_group {name : String} :
    name ∈ (group node pin connections).map (·.pin) ↔ ∃ c ∈ connections, pin c = name := by
  rw [pins_group, List.mem_eraseDups, List.mem_map]

theorem connections_ne_nil {s : Socket} (hs : s ∈ group node pin connections) :
    s.connections ≠ [] := by
  obtain ⟨c, hc, hpin⟩ := mem_pins_group.mp (List.mem_map_of_mem hs)
  rw [connections_of_mem_group hs]
  exact List.ne_nil_of_mem (List.mem_filter.mpr ⟨hc, by simpa using hpin⟩)

/-- One more connection is the first of its socket only if the pin had none. -/
theorem firsts_plug (hplugged : ∀ s ∈ sockets, s.connections ≠ []) (c : Connection) :
    firsts (plug node pin sockets c) =
      if pin c ∈ sockets.map (·.pin) then firsts sockets else firsts sockets ++ [c] := by
  induction sockets with
  | nil => rfl
  | cons s rest ih =>
    have hrest := ih fun t ht => hplugged t (List.mem_cons_of_mem s ht)
    obtain ⟨d, others, hs⟩ := List.exists_cons_of_ne_nil (hplugged s List.mem_cons_self)
    by_cases hpin : s.pin = pin c
    · rw [plug, if_pos hpin, if_pos (by simp [hpin])]
      simp [firsts, hs]
    · rw [plug, if_neg hpin]
      simp only [firsts, List.filterMap_cons, hs, List.head?_cons, List.map_cons, List.mem_cons,
        Ne.symm hpin, false_or] at hrest ⊢
      rw [hrest]
      split
      · rfl
      · rfl

theorem firsts_group_sublist (connections : List Connection) :
    (firsts (group node pin connections)).Sublist connections := by
  induction connections using List.reverseRecOn with
  | nil => exact List.Sublist.refl []
  | append_singleton rest c ih =>
    rw [group_concat, firsts_plug fun s hs => connections_ne_nil hs]
    split
    · exact ih.trans (List.sublist_append_left rest [c])
    · exact ih.append_right [c]

/-- **Grouping divides the connections.** -/
theorem divides_group (connections : List Connection) :
    Divides node pin connections (group node pin connections) where
  node_eq := by
    intro s hs
    rw [eq_of_mem_group hs]
  mem_pins_iff := fun _ => mem_pins_group
  nodup_pins := nodup_pins_group connections
  existsUnique := by
    intro c hc
    obtain ⟨s, hs, hpin⟩ := List.mem_map.mp (mem_pins_group.mpr ⟨c, hc, rfl⟩)
    refine ⟨s, ⟨hs, ?_⟩, ?_⟩
    · rw [connections_of_mem_group hs]
      exact List.mem_filter.mpr ⟨hc, by simpa using hpin.symm⟩
    · rintro t ⟨ht, hct⟩
      rw [connections_of_mem_group ht] at hct
      have htpin : pin c = t.pin := by simpa using (List.mem_filter.mp hct).2
      exact List.inj_on_of_nodup_map (nodup_pins_group connections) ht hs (htpin.symm.trans hpin.symm)
  pin_eq := by
    intro s hs c hc
    rw [connections_of_mem_group hs] at hc
    simpa using (List.mem_filter.mp hc).2
  sublist := by
    intro s hs
    rw [connections_of_mem_group hs]
    exact List.filter_sublist
  firsts_sublist := firsts_group_sublist connections

theorem divides_iff_eq_group (hnodup : connections.Nodup) :
    Divides node pin connections sockets ↔ sockets = group node pin connections := by
  constructor
  · intro h
    exact h.unique (divides_group connections) hnodup
  · rintro rfl
    exact divides_group connections

end Socket

/-! ## Feeders -/

namespace Program

/-- The node is the source of the last connection into the pin whose source exists. -/
def LastFedBy (p : Program) (id pin : String) (n : Node) : Prop :=
  ∃ before c after, p.connections = before ++ c :: after ∧
    c.target = id ∧ c.targetInput = pin ∧ p.node? c.source = some n ∧
    ∀ d ∈ after, d.target = id → d.targetInput = pin → ¬ p.hasNode d.source

theorem exists_shownConnection?_iff {p : Program} {id pin : String} {n : Node} :
    (∃ c, p.shownConnection? id pin = some c ∧ p.node? c.source = some n) ↔
      p.LastFedBy id pin n := by
  simp only [shownConnection?, incoming, List.filter_filter, getLast?_filter_eq_some_iff,
    Bool.and_eq_true, beq_iff_eq]
  constructor
  · rintro ⟨c, ⟨before, after, hsplit, ⟨⟨hpin, -⟩, htarget⟩, hafter⟩, hn⟩
    refine ⟨before, c, after, hsplit, htarget, hpin, hn, ?_⟩
    intro d hd hdtarget hdpin hsource
    exact hafter d hd ⟨⟨hdpin, hsource⟩, hdtarget⟩
  · rintro ⟨before, c, after, hsplit, htarget, hpin, hn, hafter⟩
    refine ⟨c, ⟨before, after, hsplit, ⟨⟨hpin, hasNode_of_node? hn⟩, htarget⟩, ?_⟩, hn⟩
    rintro d hd ⟨⟨hdpin, hsource⟩, hdtarget⟩
    exact hafter d hd hdtarget hdpin hsource

/-- **The feeder of a pin** is the node that feeds it last. -/
theorem mem_feeders_iff {p : Program} {id pin : String} {n : Node} :
    (pin, n) ∈ p.feeders id ↔ p.LastFedBy id pin n := by
  have hfound : (p.feeders id).find? (·.1 == pin) = some (pin, n) ↔
      (pin, n) ∈ p.feeders id ∧ pin = pin :=
    find?_eq_some_iff_of_nodup (p.nodup_pins_feeders id)
  rw [and_iff_left rfl, find?_feeders] at hfound
  rw [← hfound, ← exists_shownConnection?_iff]
  simp only [Option.bind_eq_some_iff, Option.map_eq_some_iff, Prod.mk.injEq, true_and,
    exists_eq_right]

/-- **Grouping is a stable partition.** The input sockets of a node are the one way to divide the
connections into it by pin that keeps the order of the table, and its output sockets the one way to divide
those out of it. The feeders come in the order of the input sockets: one for each pin into which some
connection has a source, and this is the node that feeds the pin last. -/
theorem sockets_divide (p : Program) (id : String) :
    (∀ sockets, Socket.Divides id (·.targetInput) (p.connections.filter (·.target == id)) sockets ↔
      sockets = p.inputSockets id) ∧
    (∀ sockets, Socket.Divides id (·.sourceOutput) (p.connections.filter (·.source == id)) sockets ↔
      sockets = p.outputSockets id) ∧
    ((p.feeders id).map (·.1)).Sublist ((p.inputSockets id).map (·.pin)) ∧
    (∀ pin, pin ∈ (p.feeders id).map (·.1) ↔
      ∃ c ∈ p.connections, c.target = id ∧ c.targetInput = pin ∧ p.hasNode c.source) ∧
    ∀ pin n, (pin, n) ∈ p.feeders id ↔ p.LastFedBy id pin n := by
  have hnodup : p.connections.Nodup := p.connections_nodup.of_map
  refine ⟨?_, ?_, ?_, ?_, ?_⟩
  · intro sockets
    exact Socket.divides_iff_eq_group (hnodup.filter _)
  · intro sockets
    exact Socket.divides_iff_eq_group (hnodup.filter _)
  · rw [pins_feeders, pins_inputSockets]
    exact List.filter_sublist
  · intro pin
    exact mem_pins_feeders
  · intro pin n
    exact mem_feeders_iff

/-- Two numbers that feed the inputs of a sum in turns, next to a missing node that feeds one input after
them and one alone. -/
def interleaved : Program where
  id := none
  nodes := [⟨.ofType "sum" "Math", .math⟩, ⟨.ofType "five" "Number", .number⟩,
    ⟨.ofType "six" "Number", .number⟩]
  connections :=
    [⟨"1", "five", "value", "sum", "num2"⟩, ⟨"2", "five", "value", "sum", "num1"⟩,
      ⟨"3", "six", "value", "sum", "num2"⟩, ⟨"4", "gone", "value", "sum", "num2"⟩,
      ⟨"5", "gone", "value", "sum", "num3"⟩]
  recentTicks := []
  nodes_nodup := by decide
  connections_nodup := by decide

/-- The second input comes first, with its three connections, and the number that feeds it last is its
feeder; the input that only the missing node feeds has none. -/
theorem sockets_divide_interleaved :
    interleaved.inputSockets "sum" =
      [⟨"sum", "num2", [⟨"1", "five", "value", "sum", "num2"⟩, ⟨"3", "six", "value", "sum", "num2"⟩,
          ⟨"4", "gone", "value", "sum", "num2"⟩]⟩,
        ⟨"sum", "num1", [⟨"2", "five", "value", "sum", "num1"⟩]⟩,
        ⟨"sum", "num3", [⟨"5", "gone", "value", "sum", "num3"⟩]⟩] ∧
      Socket.Divides "sum" (·.targetInput) (interleaved.connections.filter (·.target == "sum"))
        (interleaved.inputSockets "sum") ∧
      interleaved.LastFedBy "sum" "num2" ⟨.ofType "six" "Number", .number⟩ ∧
      "num3" ∉ (interleaved.feeders "sum").map (·.1) := by
  obtain ⟨hinputs, -, -, hfed, hfeeders⟩ := sockets_divide interleaved "sum"
  refine ⟨by decide, (hinputs _).mpr rfl, (hfeeders _ _).mp List.mem_cons_self, ?_⟩
  rw [hfed]
  decide

end Program

end Dataflow
