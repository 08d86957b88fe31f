import Dataflow.Pin.Value
/-!
# Slots

The values on one side of a node: one slot for each declared pin, empty at first. A value is put
into the first slot of its name and made to fit the declared type; a value that cannot be made to
fit is refused and leaves every slot as it was. No change touches the pins (`pins_set`).
-/
set_option autoImplicit false

namespace Dataflow

/-- A pin and the value that has reached it. -/
structure Slot where
  pin : Pin
  value : Option PinValue
deriving DecidableEq, Repr

/-- The slots on one side of a node, in the order of its pins. -/
abbrev Slots := List Slot

namespace Slots

/-- The empty slots of a list of pins. -/
def ofPins (pins : List Pin) : Slots :=
  pins.map fun p => ⟨p, none⟩

/-- The pins of the slots. -/
def pins (slots : Slots) : List Pin :=
  slots.map (·.pin)

/-- The first slot of a name. -/
def slot? (slots : Slots) (name : String) : Option Slot :=
  slots.find? fun s => s.pin.name == name

/-- True when a slot has the name. -/
def declares (slots : Slots) (name : String) : Bool :=
  (slots.slot? name).isSome

/-- The declared type of the first slot of a name. -/
def type? (slots : Slots) (name : String) : Option PinType :=
  (slots.slot? name).map (·.pin.type)

/-- The value in the first slot of a name. -/
def get? (slots : Slots) (name : String) : Option PinValue :=
  (slots.slot? name).bind (·.value)

/-- What the value in the first slot of a name carries when it is of type `t`. -/
def carried? (slots : Slots) (t : PinType) (name : String) : Option t.Carrier :=
  (slots.get? name).bind (·.carried? t)

/-- The value in the first slot of a name, as a number. -/
def number? (slots : Slots) (name : String) : Option Float :=
  (slots.get? name).map PinValue.toNumber

/-- The slots with `value` in the first slot of the name, made to fit its type. `none` when no slot
has the name or the value does not fit. -/
def set? : Slots → String → PinValue → Option Slots
  | [], _, _ => none
  | s :: rest, name, value =>
    if s.pin.name = name then
      (value.coerce? s.pin.type).map fun v => { s with value := some v } :: rest
    else (set? rest name value).map (s :: ·)

/-- The slots after a value was offered to the first slot of a name. -/
def set (slots : Slots) (name : String) (value : PinValue) : Slots :=
  (slots.set? name value).getD slots

/-! ## Pins stay -/

/-- Setting changes no pin. -/
theorem pins_set? {slots after : Slots} {name : String} {value : PinValue}
    (h : slots.set? name value = some after) : after.pins = slots.pins := by
  induction slots generalizing after with
  | nil => simp [set?] at h
  | cons s rest ih =>
    simp only [set?] at h
    split at h
    · obtain ⟨v, _, rfl⟩ := Option.map_eq_some_iff.1 h
      rfl
    · obtain ⟨tail, ht, rfl⟩ := Option.map_eq_some_iff.1 h
      simp only [pins, List.map_cons] at ih ⊢
      rw [ih ht]

theorem pins_set (slots : Slots) (name : String) (value : PinValue) :
    (slots.set name value).pins = slots.pins := by
  unfold set
  cases h : slots.set? name value with
  | none => rfl
  | some after => exact pins_set? h

theorem pins_ofPins (ps : List Pin) : (ofPins ps).pins = ps := by
  simp [ofPins, pins, Function.comp_def]

end Slots

end Dataflow
