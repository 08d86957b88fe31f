import Dataflow.Proofs.Cycles
import Dataflow.Proofs.Tick
/-!
# What a pass looks at

Of a node a pass sees the id, the kind, the configuration, the last sample and the held value
(`Node.SameState`). Of the connections it sees which ones lead into an input pin, and in which order
(`Program.into`); the order of the tables is nothing to it beyond that.

Main statement: where two programs show a pass the same, the two passes have the same outcome, although
they may visit the nodes in different orders (`Selects.sameOutcome`). The programs then have the same
equations (`IsSolution.of_sameOn`), so what one pass shows is what the other shows, because there is one
solution; and they have the same cycles (`SameOn.feedsWithin_eq`). Programs whose tables have the same
order as well go through the same visits (`Matches.evaluateAll`).
-/
set_option autoImplicit false

namespace Dataflow

/-! ## Nodes -/

namespace Node

/-- The two nodes have the same id and kind, and the same of all that a computation looks at. -/
structure SameState (n m : Node) : Prop where
  id_eq : m.id = n.id
  kind_eq : m.kind = n.kind
  properties : m.data.properties = n.data.properties
  previousValue? : m.previousValue? = n.previousValue?
  heldValue : m.data.heldValue = n.data.heldValue

/-- The two nodes have the same id and kind, and each in its context they compute the same. -/
structure Agrees (cn cm : Context) (n m : Node) : Prop where
  id_eq : m.id = n.id
  kind_eq : m.kind = n.kind
  outputs : ∀ inputs, m.outputs inputs cm = n.outputs inputs cn
  held? : ∀ inputs, m.held? inputs = n.held? inputs

theorem Agrees.refl (ctx : Context) (n : Node) : n.Agrees ctx ctx n :=
  ⟨rfl, rfl, fun _ => rfl, fun _ => rfl⟩

namespace SameState

variable {n m : Node}

theorem numberProperty? (h : n.SameState m) (key : String) :
    m.numberProperty? key = n.numberProperty? key := by
  simp only [NodeDefinition.numberProperty?, NodeDefinition.property?, h.properties]

theorem textProperty? (h : n.SameState m) (key : String) :
    m.textProperty? key = n.textProperty? key := by
  simp only [NodeDefinition.textProperty?, NodeDefinition.property?, h.properties]

theorem setting? (h : n.SameState m) (key : String) : m.setting? key = n.setting? key := by
  simp only [Node.setting?, h.numberProperty?]

theorem channel (h : n.SameState m) : m.channel = n.channel := by
  rw [Node.channel, Node.channel, h.textProperty?, h.id_eq]

theorem gateStep (h : n.SameState m) (inputs : Slots) : m.gateStep inputs = n.gateStep inputs := by
  simp only [Node.gateStep, hold?, h.textProperty?, h.heldValue, h.previousValue?]

/-- **Nodes in the same state compute the same** at the same time and, if they are sensors, under the
same reading of their channel. -/
theorem agrees (h : n.SameState m) {cn cm : Context} (htime : cm.time = cn.time)
    (hreading : n.kind = .sensor → cm.reading? n.channel = cn.reading? n.channel) :
    n.Agrees cn cm m := by
  refine ⟨h.id_eq, h.kind_eq, fun inputs => ?_, fun inputs => ?_⟩
  · rw [Node.outputs, Node.outputs, h.kind_eq]
    cases hkind : n.kind with
    | number => simp only [h.numberProperty?]
    | generator => simp only [generatorValue, waveform?, h.textProperty?, h.setting?, htime]
    | timer => simp only [timerValue, h.setting?, htime]
    | sensor => simp only [h.channel, hreading hkind]
    | math => simp only [mathValue, arithmetic?, h.textProperty?]
    | logic => simp only [logicValue, logic?, h.textProperty?]
    | transform => simp only [transformValue, transform?, h.textProperty?, h.previousValue?]
    | control => simp only [h.gateStep]
    | relay => rfl
  · rw [Node.held?, Node.held?, h.kind_eq]
    cases n.kind with
    | control => exact congrArg Prod.snd (h.gateStep inputs)
    | _ => rfl

end SameState

end Node

namespace Program

/-! ## Connections into a pin -/

/-- The connections into an input pin of a node, in table order. -/
def into (p : Program) (id pin : String) : List Connection :=
  (p.incoming id).filter (·.targetInput == pin)

theorem mem_into {p : Program} {id pin : String} {c : Connection} :
    c ∈ p.into id pin ↔ c ∈ p.connections ∧ c.target = id ∧ c.targetInput = pin := by
  rw [into, List.mem_filter, mem_incoming, beq_iff_eq, and_assoc]

theorem decidingConnection?_into (p : Program) (id pin : String) :
    p.decidingConnection? id pin = ((p.into id pin).filter p.delivers).getLast? := by
  rw [decidingConnection?, into, List.filter_filter]
  congr 2
  funext c
  exact Bool.and_comm _ _

/-! ## Programs that show a pass the same -/

/-- On the nodes of `S` the two programs show the same to a pass, each in its context. -/
structure SameOn (S : String → Prop) (cp cq : Context) (p q : Program) : Prop where
  nodes : ∀ n ∈ p.nodes, S n.id → ∃ m ∈ q.nodes, n.Agrees cp cq m
  into : ∀ id pin, S id → q.into id pin = p.into id pin

variable {p q : Program} {cp cq : Context} {S : String → Prop} {members members' : List String}

namespace SameOn

theorem mem_connections_iff (h : SameOn S cp cq p q) {c : Connection} (hc : S c.target) :
    c ∈ q.connections ↔ c ∈ p.connections := by
  have hmem : c ∈ q.into c.target c.targetInput ↔ c ∈ p.into c.target c.targetInput := by
    rw [h.into _ _ hc]
  simpa only [mem_into, and_true] using hmem

/-- The selected nodes feed each other in both programs alike. -/
theorem feedsWithin_eq (h : SameOn S cp cq p q) (hp : p.Selects members S)
    (hq : q.Selects members' S) : q.FeedsWithin S = p.FeedsWithin S := by
  funext a b
  rw [eq_iff_iff, hp.feedsWithin_iff, hq.feedsWithin_iff]
  refine exists_congr fun c => and_congr_left fun _ => ?_
  rw [hp.mem_links, hq.mem_links]
  exact and_congr_left fun hends => h.mem_connections_iff hends.2

/-- Whether a connection into a selected node delivers is the same in both programs: its source is
selected, or it exists in neither. -/
theorem delivers_eq (h : SameOn S cp cq p q) (hp : p.Selects members S) (hq : q.Selects members' S)
    {c : Connection} (hc : c ∈ p.connections) (ht : S c.target) : q.delivers c = p.delivers c := by
  by_cases hS : S c.source
  · obtain ⟨n, hfind⟩ := exists_node? (hp.hasNode hS)
    obtain ⟨hn, hid⟩ := mem_of_node? hfind
    obtain ⟨m, hm, hnm⟩ := h.nodes n hn (hid ▸ hS)
    have hfind' := node?_of_mem hm
    rw [hnm.id_eq, hid] at hfind'
    rw [delivers, delivers, hfind, hfind', Option.any_some, Option.any_some, hnm.kind_eq]
  · have hpnone : p.node? c.source = none := by
      rw [← Option.isNone_iff_eq_none, ← Option.not_isSome, isSome_node?]
      simpa using mt (fun hs => hp.source hc hs ht) hS
    have hqnone : q.node? c.source = none := by
      rw [← Option.isNone_iff_eq_none, ← Option.not_isSome, isSome_node?]
      simpa using mt (fun hs => hq.source ((h.mem_connections_iff ht).mpr hc) hs ht) hS
    rw [delivers, delivers, hpnone, hqnone]

theorem decidingConnection?_eq (h : SameOn S cp cq p q) (hp : p.Selects members S)
    (hq : q.Selects members' S) {id : String} (hid : S id) (pin : String) :
    q.decidingConnection? id pin = p.decidingConnection? id pin := by
  rw [decidingConnection?_into, decidingConnection?_into, h.into id pin hid]
  refine congrArg List.getLast? (List.filter_congr fun c hc => ?_)
  obtain ⟨hmem, rfl, -⟩ := mem_into.mp hc
  exact h.delivers_eq hp hq hmem hid

theorem inputsUnder_eq (h : SameOn S cp cq p q) (hp : p.Selects members S)
    (hq : q.Selects members' S) {n m : Node} (hS : S n.id) (hnm : n.Agrees cp cq m)
    (out : String → Option Slots) : q.inputsUnder out m = p.inputsUnder out n := by
  rw [inputsUnder, inputsUnder, hnm.kind_eq, hnm.id_eq]
  exact List.map_congr_left fun pin _ => by rw [h.decidingConnection?_eq hp hq hS]

end SameOn

/-- **Programs that show a pass the same have the same equations.** -/
theorem IsSolution.of_sameOn {out : String → Option Slots} {held : String → Option Float}
    (hsolution : q.IsSolution cq S out held) (h : SameOn S cp cq p q) (hp : p.Selects members S)
    (hq : q.Selects members' S) : p.IsSolution cp S out held where
  outputs := fun n hn hS => by
    obtain ⟨m, hm, hnm⟩ := h.nodes n hn hS
    have hout := hsolution.outputs m hm (hnm.id_eq.symm ▸ hS)
    rwa [hnm.id_eq, h.inputsUnder_eq hp hq hS hnm, hnm.outputs] at hout
  held := fun n hn hS => by
    obtain ⟨m, hm, hnm⟩ := h.nodes n hn hS
    have hheld := hsolution.held m hm (hnm.id_eq.symm ▸ hS)
    rwa [hnm.id_eq, h.inputsUnder_eq hp hq hS hnm, hnm.held?] at hheld

/-! ## Outcomes -/

/-- Both passes ran, and every id shows and holds the same in both; or both failed, for cycles of the
same nodes. -/
inductive SameOutcome : Except PassError Evaluation → Except PassError Evaluation → Prop where
  | ran {e f : Evaluation} (outputs : ∀ id, f.outputs? id = e.outputs? id)
      (held : ∀ id, f.held? id = e.held? id) : SameOutcome (.ok e) (.ok f)
  | failed {ids ids' : List String} (names : ids'.Perm ids) :
      SameOutcome (.error (.cycle ids)) (.error (.cycle ids'))

theorem exists_cycle_of_pass_eq_error {ctx : Context} {err : PassError}
    (h : p.pass ctx members = .error err) : ∃ ids, err = .cycle ids :=
  ⟨_, (order?_eq_error_iff.mp (pass_eq_error_iff.mp h)).2⟩

/-- What a pass does not visit shows nothing. -/
theorem Selects.visit?_eq_none (h : p.Selects members S) {ctx : Context} {e : Evaluation}
    (hpass : p.pass ctx members = .ok e) {id : String} (hid : ¬ S id) : e.visit? id = none :=
  Evaluation.visit?_eq_none_iff.mpr (mt ((h.schedule hpass).mem_iff id).mp hid)

/-- Where two programs show a pass the same, passes that run show and hold the same. -/
theorem Selects.shows_same (hp : p.Selects members S) (hq : q.Selects members' S)
    (h : SameOn S cp cq p q) {e f : Evaluation} (he : p.pass cp members = .ok e)
    (hf : q.pass cq members' = .ok f) (id : String) :
    f.outputs? id = e.outputs? id ∧ f.held? id = e.held? id := by
  by_cases hS : S id
  · have hsolution := (hq.isSolution hf).of_sameOn h hp hq
    exact hsolution.unique hp (hp.schedule he) (hp.isSolution he) id hS
  · have hnone : f.visit? id = e.visit? id :=
      (hq.visit?_eq_none hf hS).trans (hp.visit?_eq_none he hS).symm
    exact ⟨Evaluation.outputs?_congr hnone, Evaluation.held?_congr hnone⟩

/-- **Where two programs show a pass the same, it has the same outcome in both.** -/
theorem Selects.sameOutcome (hp : p.Selects members S) (hq : q.Selects members' S)
    (h : SameOn S cp cq p q) : SameOutcome (p.pass cp members) (q.pass cq members') := by
  have hfeeds := h.feedsWithin_eq hp hq
  have hruns : (∃ e, p.pass cp members = .ok e) ↔ ∃ f, q.pass cq members' = .ok f := by
    rw [hp.pass_ok_iff cp, hq.pass_ok_iff cq, AcyclicOn, AcyclicOn, hfeeds]
  cases he : p.pass cp members with
  | ok e =>
    obtain ⟨f, hf⟩ := hruns.mp ⟨e, he⟩
    rw [hf]
    exact .ran (fun id => (hp.shows_same hq h he hf id).1) fun id => (hp.shows_same hq h he hf id).2
  | error err =>
    cases hf : q.pass cq members' with
    | ok f =>
      obtain ⟨e, hok⟩ := hruns.mpr ⟨f, hf⟩
      exact absurd (he.symm.trans hok) (by simp)
    | error err' =>
      obtain ⟨ids, rfl⟩ := exists_cycle_of_pass_eq_error he
      obtain ⟨ids', rfl⟩ := exists_cycle_of_pass_eq_error hf
      have hnames := hp.namesCycle he
      have hnames' := hq.namesCycle hf
      -- Each id is named once, for lying on or behind a cycle, and the cycles are the same.
      refine .failed ((List.perm_ext_iff_of_nodup hnames'.nodup hnames.nodup).mpr fun id => ?_)
      rw [hnames.mem_iff, hnames'.mem_iff, BehindCycle, BehindCycle, hfeeds]

/-! ## Tables in the same order -/

/-- The two programs have the same connections, and their nodes agree one by one. -/
structure Matches (ctx : Context) (p q : Program) : Prop where
  connections : q.connections = p.connections
  nodes : List.Forall₂ (Node.Agrees ctx ctx) p.nodes q.nodes

namespace Matches

variable {ctx : Context}

theorem sameGraph (h : Matches ctx p q) : p.SameGraph q := by
  refine ⟨h.connections, ?_⟩
  have hnodes := h.nodes
  generalize p.nodes = nodes, q.nodes = nodes' at hnodes
  induction hnodes with
  | nil => rfl
  | cons hnm _ ih => rw [List.map_cons, List.map_cons, hnm.id_eq, ih]

theorem hasNode (h : Matches ctx p q) (id : String) : q.hasNode id = p.hasNode id := by
  rw [Bool.eq_iff_iff, hasNode_iff_mem, hasNode_iff_mem, h.sameGraph.2]

theorem node? (h : Matches ctx p q) (id : String) :
    Option.Rel (Node.Agrees ctx ctx) (p.node? id) (q.node? id) := by
  have hnodes := h.nodes
  rw [Program.node?, Program.node?]
  generalize p.nodes = nodes, q.nodes = nodes' at hnodes
  induction hnodes with
  | nil => exact .none
  | cons hnm _ ih =>
    rw [List.find?_cons, List.find?_cons, hnm.id_eq]
    split
    · exact .some hnm
    · exact ih

theorem deliver (h : Matches ctx p q) (done : Evaluation) (target : String) (inputs : Slots)
    (c : Connection) : q.deliver done target inputs c = p.deliver done target inputs c := by
  rw [Program.deliver, Program.deliver, h.hasNode]

theorem gather (h : Matches ctx p q) (done : Evaluation) (target : String) (inputs : Slots)
    (connections : List Connection) :
    q.gather done target inputs connections = p.gather done target inputs connections := by
  induction connections generalizing inputs with
  | nil => rfl
  | cons c rest ih => simp only [Program.gather, h.deliver, ih]

theorem visit (h : Matches ctx p q) {n m : Node} (hnm : n.Agrees ctx ctx m) (done : Evaluation) :
    q.visit ctx done m = p.visit ctx done n := by
  simp only [Program.visit, inputsOf, looseEnds, incoming, outgoing, h.gather, h.hasNode,
    h.connections, hnm.id_eq, hnm.kind_eq, hnm.outputs, hnm.held?]

theorem visitAll (h : Matches ctx p q) {nodes nodes' : List Node}
    (hnodes : List.Forall₂ (Node.Agrees ctx ctx) nodes nodes') :
    q.visitAll ctx nodes' = p.visitAll ctx nodes := by
  rw [Program.visitAll, Program.visitAll]
  generalize Evaluation.mk [] = done
  induction hnodes generalizing done with
  | nil => rfl
  | cons hnm _ ih => rw [List.foldl_cons, List.foldl_cons, h.visit hnm, ih]

/-- **Programs with matching tables go through the same pass**, or fail for the same reason. -/
theorem evaluateAll (h : Matches ctx p q) : q.evaluateAll ctx = p.evaluateAll ctx := by
  rw [Program.evaluateAll, Program.evaluateAll, pass, pass, h.sameGraph.order?_eq]
  split
  · rfl
  · next order _ =>
    have hnodes : List.Forall₂ (Node.Agrees ctx ctx) (order.filterMap p.node?)
        (order.filterMap q.node?) :=
      List.rel_filterMap (R := Eq) (fun a b hab => hab ▸ h.node? a)
        (List.forall₂_same.mpr fun _ _ => rfl)
    rw [h.visitAll hnodes]

end Matches

end Program

end Dataflow
