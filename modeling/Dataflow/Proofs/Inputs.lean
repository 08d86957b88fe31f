import Mathlib.Data.List.Nodup
import Dataflow.Eval.Pass
import Dataflow.Proofs.Visits
/-!
# The inputs of a node

What `inputsOf` computes, said without its loop: an input pin holds what the last connection into it
that can deliver offers, and is empty when there is none (`inputsUnder`); each other connection leaves
the one fault that its ends explain (`fault?`). Main statement: `inputsOf_eq`.

A connection can deliver when its source exists and the source's kind has the output. That nothing
else goes wrong is a fact about the kinds: every output is filled with a value of its declared type,
and each such value fits every input (`Kind.isSome_coerce?`).
-/
set_option autoImplicit false

namespace Dataflow

/-! ## Outputs of the kinds -/

namespace Kind

/-- True when the kind has an input of the name. -/
def hasInput (k : Kind) (name : String) : Bool :=
  k.inputs.any (·.name == name)

/-- True when the kind has an output of the name. -/
def hasOutput (k : Kind) (name : String) : Bool :=
  k.outputs.any (·.name == name)

theorem nodup_inputs (k : Kind) : (k.inputs.map (·.name)).Nodup := by
  cases k <;> decide

/-- What any output carries fits any input. -/
theorem isSome_coerce? {k l : Kind} {pin qin : Pin} {v : PinValue} (hpin : pin ∈ k.outputs)
    (hqin : qin ∈ l.inputs) (hv : v.type = pin.type) : (v.coerce? qin.type).isSome := by
  have hnumber : qin.type = .number := by
    cases l <;> simp [inputs] at hqin <;> rcases hqin with rfl | rfl <;> rfl
  have hnotString : pin.type ≠ .string := by
    cases k <;> simp [outputs] at hpin <;> rcases hpin with rfl | rfl <;> simp
  rw [hnumber]
  cases v with
  | number x => rfl
  | boolean b => rfl
  | string s => exact absurd hv.symm hnotString

end Kind

namespace Slots

/-- Every slot holds a value of its declared type. -/
def Filled (slots : Slots) : Prop :=
  ∀ s ∈ slots, ∃ v, s.value = some v ∧ v.type = s.pin.type

theorem declares_eq_any (slots : Slots) (name : String) :
    slots.declares name = slots.pins.any (·.name == name) := by
  rw [declares, slot?, List.isSome_find?, pins, List.any_map]
  rfl

/-- A filled output is found under the name of its pin. -/
theorem Filled.get? {slots : Slots} (h : slots.Filled) {name : String}
    (hname : slots.pins.any (·.name == name)) :
    ∃ v, slots.get? name = some v ∧ ∃ pin ∈ slots.pins, v.type = pin.type := by
  rw [← declares_eq_any] at hname
  obtain ⟨s, hs⟩ := Option.isSome_iff_exists.mp hname
  have hmem : s ∈ slots := List.mem_of_find?_eq_some hs
  obtain ⟨v, hv, htype⟩ := h s hmem
  exact ⟨v, by rw [Slots.get?, hs, Option.bind_some, hv], s.pin, List.mem_map_of_mem hmem, htype⟩

theorem get?_eq_none {slots : Slots} {name : String}
    (hname : slots.pins.any (·.name == name) = false) : slots.get? name = none := by
  rw [← declares_eq_any, declares, Option.isSome_eq_false_iff, Option.isNone_iff_eq_none] at hname
  rw [get?, hname]
  rfl

/-- Among distinct names a value that fits goes into the slot of its name and nowhere else. -/
theorem set?_eq_map {slots : Slots} {name : String} {value : PinValue}
    (hnodup : (slots.pins.map (·.name)).Nodup) (hname : slots.pins.any (·.name == name))
    (hfits : ∀ pin ∈ slots.pins, (value.coerce? pin.type).isSome) :
    slots.set? name value = some (slots.map fun s =>
      if s.pin.name = name then { s with value := value.coerce? s.pin.type } else s) := by
  induction slots with
  | nil => simp [pins] at hname
  | cons s rest ih =>
    simp only [pins, List.map_cons, List.nodup_cons, List.any_cons, Bool.or_eq_true, beq_iff_eq,
      List.forall_mem_cons] at hnodup hname hfits
    by_cases hs : s.pin.name = name
    · obtain ⟨v, hv⟩ := Option.isSome_iff_exists.mp hfits.1
      -- The rest has no slot of the name, so it stays as it is.
      have hrest : ∀ x ∈ rest, x.pin.name ≠ name := by
        intro x hx hxn
        refine hnodup.1 (hs ▸ hxn ▸ ?_)
        exact List.mem_map_of_mem (List.mem_map_of_mem hx)
      have hmap : (rest.map fun x =>
          if x.pin.name = name then { x with value := value.coerce? x.pin.type } else x) = rest := by
        conv => rhs; rw [← List.map_id rest]
        exact List.map_congr_left fun x hx => if_neg (hrest x hx)
      rw [set?, if_pos hs, List.map_cons, if_pos hs, hmap, hv]
      rfl
    · rw [set?, if_neg hs, ih hnodup.2 (hname.resolve_left hs) hfits.2, List.map_cons, if_neg hs]
      rfl

end Slots

theorem Node.filled_outputs (n : Node) (inputs : Slots) (ctx : Context) :
    (n.outputs inputs ctx).Filled := by
  cases hkind : n.kind <;>
    simp [outputs, hkind, showing, Slots.Filled, PinValue.type]

namespace Program

/-! ## The connection that decides an input -/

/-- True when the source of the connection exists and has the output. -/
def delivers (p : Program) (c : Connection) : Bool :=
  (p.node? c.source).any fun s => s.kind.hasOutput c.sourceOutput

/-- The last connection into an input pin that delivers. -/
def decidingConnection? (p : Program) (id pin : String) : Option Connection :=
  ((p.incoming id).filter fun c => c.targetInput == pin && p.delivers c).getLast?

/-- What a connection offers to a pin of type `t` when the nodes show `out`. -/
def offered (out : String → Option Slots) (t : PinType) (c : Connection) : Option PinValue :=
  ((out c.source).bind (·.get? c.sourceOutput)).bind (·.coerce? t)

/-- The inputs that a node has when the nodes show `out`: one slot for each input pin, with what the
connection that decides it offers. -/
def inputsUnder (p : Program) (out : String → Option Slots) (n : Node) : Slots :=
  n.kind.inputs.map fun pin =>
    ⟨pin, (p.decidingConnection? n.id pin.name).bind (offered out pin.type)⟩

/-- What is wrong with a connection into a node of kind `k`: the input pin is not declared, or the
source is missing, or it lacks the output. -/
def fault? (p : Program) (target : String) (k : Kind) (c : Connection) : Option Warning :=
  if !k.hasInput c.targetInput then some (.undeclaredInput c.id target c.targetInput)
  else if !p.hasNode c.source then some (.missingSource c.id c.source target)
  else if !p.delivers c then some (.missingSourceOutput c.id c.source c.sourceOutput)
  else none

theorem mem_incoming {p : Program} {id : String} {c : Connection} :
    c ∈ p.incoming id ↔ c ∈ p.connections ∧ c.target = id := by
  simp [incoming]

theorem hasNode_of_delivers {p : Program} {c : Connection} (h : p.delivers c) :
    p.hasNode c.source := by
  obtain ⟨s, hs, -⟩ := (Option.any_eq_true _ _).mp h
  exact hasNode_of_node? hs

theorem decidingConnection?_spec {p : Program} {id pin : String} {c : Connection}
    (h : p.decidingConnection? id pin = some c) :
    c ∈ p.incoming id ∧ c.targetInput = pin ∧ p.delivers c := by
  have hmem := List.mem_of_getLast? h
  simpa using hmem

theorem fault?_eq_none_iff {p : Program} {target : String} {k : Kind} {c : Connection} :
    p.fault? target k c = none ↔ k.hasInput c.targetInput ∧ p.delivers c := by
  unfold fault?
  by_cases hinput : k.hasInput c.targetInput
  · by_cases hdelivers : p.delivers c
    · simp [hinput, hdelivers, hasNode_of_delivers hdelivers]
    · by_cases hsource : p.hasNode c.source <;> simp [hinput, hdelivers, hsource]
  · simp [hinput]

/-- Only the existing sources of its connections matter for the inputs of a node. -/
theorem inputsUnder_congr {p : Program} {out out' : String → Option Slots} {n : Node}
    (h : ∀ c ∈ p.incoming n.id, p.hasNode c.source → out c.source = out' c.source) :
    p.inputsUnder out n = p.inputsUnder out' n := by
  refine List.map_congr_left fun pin _ => ?_
  cases hdecides : p.decidingConnection? n.id pin.name with
  | none => rfl
  | some c =>
    obtain ⟨hc, -, hdelivers⟩ := decidingConnection?_spec hdecides
    simp only [Option.bind_some, offered, h c hc (hasNode_of_delivers hdelivers)]

/-! ## Gathering -/

/-- The node of an id, if there is one, shows a value on each of its outputs. -/
def Shown (p : Program) (out : String → Option Slots) (id : String) : Prop :=
  ∀ s, p.node? id = some s →
    ∃ slots, out id = some slots ∧ slots.pins = s.kind.outputs ∧ slots.Filled

/-- A connection that delivers offers something to every input. -/
theorem Shown.offered {p : Program} {out : String → Option Slots} {c : Connection}
    (h : p.Shown out c.source) (hdelivers : p.delivers c) :
    ∃ v, (out c.source).bind (·.get? c.sourceOutput) = some v ∧
      ∀ (k : Kind), ∀ pin ∈ k.inputs, (v.coerce? pin.type).isSome := by
  obtain ⟨s, hs, hpin⟩ := (Option.any_eq_true _ _).mp hdelivers
  obtain ⟨slots, hout, hpins, hfilled⟩ := h s hs
  rw [Kind.hasOutput, ← hpins] at hpin
  obtain ⟨v, hv, pin, hmem, htype⟩ := hfilled.get? hpin
  refine ⟨v, by rw [hout, Option.bind_some, hv], fun k qin hqin => ?_⟩
  exact Kind.isSome_coerce? (hpins ▸ hmem) hqin htype

/-- The slot after one connection has delivered. -/
def put (out : String → Option Slots) (c : Connection) (s : Slot) : Slot :=
  if s.pin.name = c.targetInput then { s with value := offered out s.pin.type c } else s

theorem pins_map_put (out : String → Option Slots) (c : Connection) (slots : Slots) :
    (Slots.pins (slots.map (put out c))) = slots.pins := by
  rw [Slots.pins, Slots.pins, List.map_map]
  refine List.map_congr_left fun s _ => ?_
  simp only [Function.comp_apply, put]
  split <;> rfl

/-- **A connection delivers unless its ends explain a fault.** -/
theorem deliver_eq {p : Program} {done : Evaluation} {target : String} {k : Kind} {inputs : Slots}
    {c : Connection} (hpins : inputs.pins = k.inputs) (hshown : p.Shown done.outputs? c.source) :
    p.deliver done target inputs c =
      match p.fault? target k c with
      | some w => .error w
      | none => .ok (inputs.map (put done.outputs? c)) := by
  have hdeclares : inputs.declares c.targetInput = k.hasInput c.targetInput := by
    rw [Slots.declares_eq_any, hpins]
    rfl
  unfold deliver fault?
  rw [hdeclares]
  by_cases hinput : k.hasInput c.targetInput
  · by_cases hsource : p.hasNode c.source
    · by_cases hdelivers : p.delivers c
      · obtain ⟨v, hv, hfits⟩ := hshown.offered hdelivers
        have hset := Slots.set?_eq_map (hpins ▸ k.nodup_inputs) (by rw [hpins]; exact hinput)
          fun pin hpin => hfits k pin (hpins ▸ hpin)
        simp only [hinput, hsource, hdelivers, hv, hset, Bool.not_true, Bool.false_eq_true, if_false,
          Except.ok.injEq]
        refine List.map_congr_left fun s _ => ?_
        simp only [put, offered, hv, Option.bind_some]
      · obtain ⟨s, hs⟩ := exists_node? hsource
        obtain ⟨slots, hout, hpinsOut, -⟩ := hshown s hs
        have hnone : (done.outputs? c.source).bind (·.get? c.sourceOutput) = none := by
          rw [hout, Option.bind_some]
          refine Slots.get?_eq_none ?_
          rw [hpinsOut]
          simpa [delivers, hs, Kind.hasOutput] using hdelivers
        simp [hinput, hsource, hdelivers, hnone]
    · simp [hinput, hsource]
  · simp [hinput]

/-- The slot after the given connections: what the last of them that delivers to it offers, or what
it held before. -/
def putAll (p : Program) (out : String → Option Slots) (connections : List Connection) (s : Slot) :
    Slot :=
  match (connections.filter fun c => c.targetInput == s.pin.name && p.delivers c).getLast? with
  | some c => { s with value := offered out s.pin.type c }
  | none => s

/-- **Gathering leaves in each slot what the last connection that delivers offers, and the faults of
the others in order.** -/
theorem gather_eq {p : Program} {done : Evaluation} {target : String} {k : Kind} {inputs : Slots}
    {connections : List Connection} (hpins : inputs.pins = k.inputs)
    (hshown : ∀ c ∈ connections, p.Shown done.outputs? c.source) :
    p.gather done target inputs connections =
      (inputs.map (p.putAll done.outputs? connections), connections.filterMap (p.fault? target k)) := by
  induction connections generalizing inputs with
  | nil =>
    have hmap : inputs.map (p.putAll done.outputs? []) = inputs := List.map_id'' (fun _ => rfl) _
    rw [gather, hmap, List.filterMap_nil]
  | cons c rest ih =>
    have hrest := fun x hx => hshown x (List.mem_cons_of_mem _ hx)
    rw [gather, deliver_eq hpins (hshown c List.mem_cons_self)]
    cases hfault : p.fault? target k c with
    | some w =>
      -- A connection with a fault is not among those that deliver to a slot.
      simp only [ih hpins hrest, List.filterMap_cons_some hfault, Prod.mk.injEq, and_true]
      refine List.map_congr_left fun s hs => ?_
      have hskip : (c.targetInput == s.pin.name && p.delivers c) = false := by
        by_contra hboth
        simp only [Bool.not_eq_false, Bool.and_eq_true, beq_iff_eq] at hboth
        have hinput : k.hasInput c.targetInput := by
          rw [Kind.hasInput, ← hpins, List.any_eq_true]
          exact ⟨s.pin, List.mem_map_of_mem hs, by simp [hboth.1]⟩
        rw [fault?_eq_none_iff.mpr ⟨hinput, hboth.2⟩] at hfault
        exact absurd hfault (by simp)
      rw [putAll, putAll, List.filter_cons_of_neg (by simp [hskip])]
    | none =>
      have hdelivers := (fault?_eq_none_iff.mp hfault).2
      simp only [ih ((pins_map_put _ c inputs).trans hpins) hrest, List.map_map,
        List.filterMap_cons_none hfault, Prod.mk.injEq, and_true]
      refine List.map_congr_left fun s _ => ?_
      have hpin : (put done.outputs? c s).pin = s.pin := by
        simp only [put]
        split <;> rfl
      simp only [Function.comp_apply, putAll, hpin]
      by_cases hname : c.targetInput = s.pin.name
      · rw [List.filter_cons_of_pos (by simp [hname, hdelivers]), List.getLast?_cons]
        cases (rest.filter fun c => c.targetInput == s.pin.name && p.delivers c).getLast? with
        | none => simp [put, hname]
        | some d => simp
      · rw [List.filter_cons_of_neg (by simp [hname]), put, if_neg (Ne.symm hname)]

/-- **The inputs of a node are what its deciding connections offer, and the faults are those of the
connections into it, in table order.** -/
theorem inputsOf_eq {p : Program} {done : Evaluation} {n : Node}
    (hshown : ∀ c ∈ p.incoming n.id, p.Shown done.outputs? c.source) :
    p.inputsOf done n =
      (p.inputsUnder done.outputs? n, (p.incoming n.id).filterMap (p.fault? n.id n.kind)) := by
  rw [inputsOf, gather_eq (Slots.pins_ofPins n.kind.inputs) hshown, Slots.ofPins, List.map_map]
  congr 1
  refine List.map_congr_left fun pin _ => ?_
  simp only [Function.comp_apply, putAll, decidingConnection?]
  cases ((p.incoming n.id).filter fun c => c.targetInput == pin.name && p.delivers c).getLast? <;> rfl

end Program

end Dataflow
