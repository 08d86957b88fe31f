import Mathlib.Data.List.Induction
import Dataflow.Pin.Slots
/-!
# Slots that are offered values

A value that is offered to a name goes into the first slot of the name, made to fit its type, or
nowhere. Main statement: whatever was offered to fresh slots, every value in them is of the declared
type, a slot shows the last value offered under its name that was taken, and of the slots that share a
name only the first one is ever filled (`Slots.typed_slots`).

`Slots.Tidy` is what every offer keeps.
-/
set_option autoImplicit false

namespace Dataflow.Slots

/-- A value that is offered to a name: any value, or what a value of one type carries. -/
inductive Offer where
  | value (name : String) (v : PinValue)
  | carried (t : PinType) (name : String) (a : t.Carrier)

namespace Offer

def name : Offer → String
  | value name _ => name
  | carried _ name _ => name

def given : Offer → PinValue
  | value _ v => v
  | carried t _ a => .ofCarrier t a

end Offer

/-! ## One value -/

variable {slots after : Slots} {name : String} {value : PinValue}

/-- **A value that is taken** goes into the first slot of the name, made to fit its type. -/
theorem set?_eq_some_iff : slots.set? name value = some after ↔
    ∃ pre s post v, slots = pre ++ s :: post ∧ (∀ x ∈ pre, x.pin.name ≠ name) ∧ s.pin.name = name ∧
      value.coerce? s.pin.type = some v ∧ after = pre ++ ⟨s.pin, some v⟩ :: post := by
  induction slots generalizing after with
  | nil => simp [set?]
  | cons s rest ih =>
    rw [set?]
    split
    · next hs =>
      rw [Option.map_eq_some_iff]
      constructor
      · rintro ⟨v, hv, rfl⟩
        exact ⟨[], s, rest, v, rfl, by simp, hs, hv, rfl⟩
      · rintro ⟨pre, s', post, v, hsplit, hpre, -, hv, rfl⟩
        cases pre with
        | nil =>
          obtain ⟨rfl, rfl⟩ := List.cons.inj hsplit
          exact ⟨v, hv, rfl⟩
        | cons x pre =>
          obtain ⟨rfl, -⟩ := List.cons.inj hsplit
          exact absurd hs (hpre s List.mem_cons_self)
    · next hs =>
      rw [Option.map_eq_some_iff]
      constructor
      · rintro ⟨tail, htail, rfl⟩
        obtain ⟨pre, s', post, v, rfl, hpre, hs', hv, rfl⟩ := ih.mp htail
        exact ⟨s :: pre, s', post, v, rfl, List.forall_mem_cons.mpr ⟨hs, hpre⟩, hs', hv, rfl⟩
      · rintro ⟨pre, s', post, v, hsplit, hpre, hs', hv, rfl⟩
        cases pre with
        | nil =>
          obtain ⟨rfl, -⟩ := List.cons.inj hsplit
          exact absurd hs' hs
        | cons x pre =>
          obtain ⟨rfl, rfl⟩ := List.cons.inj hsplit
          exact ⟨_, ih.mpr ⟨pre, s', post, v, rfl, (List.forall_mem_cons.mp hpre).2, hs', hv, rfl⟩, rfl⟩

/-- The first slot of a name, where a split shows it. -/
theorem slot?_of_split {pre post : Slots} {s : Slot} (hpre : ∀ x ∈ pre, x.pin.name ≠ name)
    (hs : s.pin.name = name) : slot? (pre ++ s :: post) name = some s := by
  have hnone : pre.find? (fun x => x.pin.name == name) = none := by
    rw [List.find?_eq_none]
    intro x hx hname
    exact hpre x hx (beq_iff_eq.mp hname)
  rw [slot?, List.find?_append, hnone, Option.none_or, List.find?_cons_of_pos (by simp [hs])]

/-- The type of the first pin of a name. -/
def typeOf? (pins : List Pin) (name : String) : Option PinType :=
  (pins.find? (·.name == name)).map (·.type)

/-- What a value becomes under a name: the value made to fit the declared type, or nothing when the
name is not declared or the value does not fit. -/
def fitted? (pins : List Pin) (name : String) (value : PinValue) : Option PinValue :=
  (typeOf? pins name).bind value.coerce?

theorem type?_eq (slots : Slots) (name : String) : slots.type? name = typeOf? slots.pins name := by
  rw [type?, slot?, typeOf?, pins, List.find?_map, Option.map_map]
  rfl

/-- A value is taken exactly where it becomes something. -/
theorem isSome_set? (slots : Slots) (name : String) (value : PinValue) :
    (slots.set? name value).isSome = (fitted? slots.pins name value).isSome := by
  induction slots with
  | nil => rfl
  | cons s rest ih =>
    rw [set?, fitted?, typeOf?, pins, List.map_cons]
    split
    · next hs =>
      rw [List.find?_cons_of_pos (by simpa using hs), Option.isSome_map]
      rfl
    · next hs =>
      rw [List.find?_cons_of_neg (by simpa using hs), Option.isSome_map, ih]
      rfl

/-- What is shown under each name after a value was taken. -/
theorem get?_of_set? (h : slots.set? name value = some after) (other : String) :
    after.get? other =
      if other = name then fitted? slots.pins name value else slots.get? other := by
  obtain ⟨pre, s, post, v, rfl, hpre, hs, hv, rfl⟩ := set?_eq_some_iff.mp h
  split
  · next hother =>
    subst hother
    rw [get?, slot?_of_split hpre (by exact hs), fitted?, ← type?_eq, type?, slot?_of_split hpre hs,
      Option.map_some, Option.bind_some, Option.bind_some, hv]
  · next hother =>
    -- The slot that changed has another name, so the search passes it by.
    have hname : (s.pin.name == other) = false := by
      rw [hs, beq_eq_false_iff_ne]
      exact fun heq => hother heq.symm
    have hpast (w : Option PinValue) :
        slot? (pre ++ ⟨s.pin, w⟩ :: post) other = slot? (pre ++ post) other := by
      rw [slot?, slot?, List.find?_append, List.find?_append, List.find?_cons_of_neg (by simp [hname])]
    rw [get?, get?, hpast (some v), hpast s.value]

/-- What is shown under each name after a value was offered: a value that is taken hides the old one. -/
theorem get?_set (slots : Slots) (name : String) (value : PinValue) (other : String) :
    (slots.set name value).get? other =
      (if name = other then fitted? slots.pins name value else none).or (slots.get? other) := by
  have htaken := isSome_set? slots name value
  rw [set]
  cases hset : slots.set? name value with
  | none =>
    rw [hset, Option.isSome_none, eq_comm, Option.isSome_eq_false_iff, Option.isNone_iff_eq_none]
      at htaken
    rw [htaken, ite_self, Option.none_or]
    rfl
  | some after =>
    rw [hset, Option.isSome_some, eq_comm, Option.isSome_iff_exists] at htaken
    obtain ⟨v, hv⟩ := htaken
    rw [Option.getD_some, get?_of_set? hset other, hv]
    by_cases hname : name = other
    · rw [if_pos hname, if_pos hname.symm, Option.some_or]
    · rw [if_neg hname, if_neg (Ne.symm hname), Option.none_or]

/-! ## What every offer keeps -/

/-- Every value is of the declared type, and of the slots that share a name only the first is filled. -/
structure Tidy (slots : Slots) : Prop where
  typed : ∀ s ∈ slots, ∀ v, s.value = some v → v.type = s.pin.type
  first : slots.Pairwise fun s later => s.pin.name = later.pin.name → later.value = none

theorem value_of_mem_ofPins {pins : List Pin} {s : Slot} (hs : s ∈ ofPins pins) : s.value = none := by
  obtain ⟨pin, -, rfl⟩ := List.mem_map.mp hs
  rfl

theorem get?_ofPins (pins : List Pin) (name : String) : (ofPins pins).get? name = none := by
  cases hslot : (ofPins pins).slot? name with
  | none => rw [get?, hslot, Option.bind_none]
  | some s => rw [get?, hslot, Option.bind_some, value_of_mem_ofPins (List.mem_of_find?_eq_some hslot)]

theorem tidy_ofPins (pins : List Pin) : (ofPins pins).Tidy := by
  refine ⟨fun s hs v hv => ?_, ?_⟩
  · exact absurd (hv.symm.trans (value_of_mem_ofPins hs)) (by simp)
  · exact List.pairwise_of_forall_mem_list fun _ _ _ hlater _ => value_of_mem_ofPins hlater

theorem Tidy.set? (h : slots.Tidy) (hset : slots.set? name value = some after) : after.Tidy := by
  obtain ⟨pre, s, post, v, rfl, hpre, hs, hv, rfl⟩ := set?_eq_some_iff.mp hset
  obtain ⟨htyped, hfirst⟩ := h
  refine ⟨fun x hx w hw => ?_, ?_⟩
  · rcases List.mem_append.mp hx with hx | hx
    · exact htyped x (List.mem_append_left _ hx) w hw
    · rcases List.mem_cons.mp hx with rfl | hx
      · cases hw
        exact PinValue.type_of_coerce? hv
      · exact htyped x (List.mem_append_right _ (List.mem_cons_of_mem _ hx)) w hw
  · rw [List.pairwise_append, List.pairwise_cons] at hfirst ⊢
    obtain ⟨hpre', ⟨hpost, hpost'⟩, hacross⟩ := hfirst
    refine ⟨hpre', ⟨hpost, hpost'⟩, fun x hx later hlater hname => ?_⟩
    rcases List.mem_cons.mp hlater with rfl | hlater
    · -- No earlier slot has the name of the one that was filled.
      exact absurd (hname.trans hs) (hpre x hx)
    · exact hacross x hx later (List.mem_cons_of_mem _ hlater) hname

/-! ## Many values -/

/-- The slots after values were offered to them in turn. -/
def offerAll (slots : Slots) (offers : List Offer) : Slots :=
  offers.foldl (fun s o => s.set o.name o.given) slots

/-- What the last offer under a name that was taken became. -/
def lastTaken? (pins : List Pin) (offers : List Offer) (name : String) : Option PinValue :=
  (offers.filterMap fun o => if o.name = name then fitted? pins name o.given else none).getLast?

theorem offerAll_concat (slots : Slots) (offers : List Offer) (o : Offer) :
    slots.offerAll (offers ++ [o]) = (slots.offerAll offers).set o.name o.given := by
  rw [offerAll, List.foldl_append]
  rfl

theorem pins_offerAll (slots : Slots) (offers : List Offer) :
    (slots.offerAll offers).pins = slots.pins := by
  induction offers using List.reverseRecOn with
  | nil => rfl
  | append_singleton offers o ih => rw [offerAll_concat, pins_set, ih]

theorem Tidy.offerAll (h : slots.Tidy) (offers : List Offer) : (slots.offerAll offers).Tidy := by
  induction offers using List.reverseRecOn with
  | nil => exact h
  | append_singleton offers o ih =>
    rw [offerAll_concat, Slots.set]
    cases hset : (slots.offerAll offers).set? o.name o.given with
    | none => exact ih
    | some after => exact ih.set? hset

/-- **A slot shows the last value that was taken under its name.** -/
theorem get?_offerAll (pins : List Pin) (offers : List Offer) (name : String) :
    ((ofPins pins).offerAll offers).get? name = lastTaken? pins offers name := by
  induction offers using List.reverseRecOn with
  | nil => exact get?_ofPins pins name
  | append_singleton offers o ih =>
    rw [offerAll_concat, get?_set, pins_offerAll, pins_ofPins, ih, lastTaken?, lastTaken?,
      List.filterMap_append, List.getLast?_append]
    congr 1
    by_cases hname : o.name = name
    · subst hname
      cases hfit : fitted? pins o.name o.given <;> simp [hfit]
    · simp [hname]

/-- The value under a name carries something of the declared type, if there is a value. -/
theorem Tidy.isSome_get? (h : slots.Tidy) (name : String) :
    (slots.get? name).isSome = (slots.type? name).any fun t => (slots.carried? t name).isSome := by
  cases hslot : slots.slot? name with
  | none => rw [get?, type?, hslot]; rfl
  | some s =>
    have hmem : s ∈ slots := List.mem_of_find?_eq_some hslot
    rw [type?, hslot, Option.map_some, Option.any_some]
    simp only [carried?, get?, hslot, Option.bind_some]
    cases hv : s.value with
    | none => rfl
    | some v => exact ((PinValue.isSome_carried? v s.pin.type).mpr (h.typed s hmem v hv)).symm

/-- **Typed slots stay typed.** Whatever was offered to fresh slots of some pins, the pins and the number
of slots are the same, every value is of the declared type, and of the slots that share a name only the
first one may be filled. The next offer is taken exactly when its name is declared and its value fits;
one that is not taken changes nothing, and one that is taken puts the fitted value into the first slot
of its name and nothing elsewhere. So a name shows what its last taken offer became, and it carries
something of its declared type exactly when it shows a value. -/
theorem typed_slots (ps : List Pin) (offers : List Offer) :
    let slots := (ofPins ps).offerAll offers
    slots.pins = ps ∧ slots.length = ps.length ∧
    (∀ s ∈ slots, ∀ v, s.value = some v → v.type = s.pin.type) ∧
    (slots.Pairwise fun s later => s.pin.name = later.pin.name → later.value = none) ∧
    (∀ o : Offer, (slots.set? o.name o.given).isSome ↔
      ∃ pin, ps.find? (·.name == o.name) = some pin ∧ (o.given.coerce? pin.type).isSome) ∧
    (∀ o : Offer, slots.set? o.name o.given = none → slots.set o.name o.given = slots) ∧
    (∀ (o : Offer) after, slots.set? o.name o.given = some after →
      slots.set o.name o.given = after ∧
      ∃ pre s post v, slots = pre ++ s :: post ∧ (∀ x ∈ pre, x.pin.name ≠ o.name) ∧
        s.pin.name = o.name ∧ o.given.coerce? s.pin.type = some v ∧
        after = pre ++ ⟨s.pin, some v⟩ :: post) ∧
    (∀ name, slots.get? name = lastTaken? ps offers name) ∧
    ∀ name, (slots.get? name).isSome
      = (slots.type? name).any fun t => (slots.carried? t name).isSome := by
  intro slots
  have hpins : slots.pins = ps := (pins_offerAll _ _).trans (pins_ofPins ps)
  have htidy : slots.Tidy := (tidy_ofPins ps).offerAll offers
  refine ⟨hpins, ?_, htidy.typed, htidy.first, fun o => ?_, fun o hnone => ?_, fun o after hset => ⟨?_, ?_⟩,
    get?_offerAll ps offers, htidy.isSome_get?⟩
  · rw [← hpins, pins, List.length_map]
  · rw [isSome_set?, hpins, fitted?, typeOf?]
    cases ps.find? (·.name == o.name) with
    | none => simp
    | some pin => simp
  · rw [set, hnone, Option.getD_none]
  · rw [set, hset, Option.getD_some]
  · exact set?_eq_some_iff.mp hset

/-- A name that is declared twice and a truth value that counts as a number. What is not a number is no
truth value and is refused; zero is taken as false. -/
theorem typed_slots_namesakes :
    let slots := (ofPins [⟨"a", .number⟩, ⟨"a", .boolean⟩, ⟨"b", .boolean⟩]).offerAll
      [.carried .boolean "a" true, .carried .number "b" (2.0 : Float), .value "c" (.boolean true)]
    slots = [⟨⟨"a", .number⟩, some (.number 1.0)⟩, ⟨⟨"a", .boolean⟩, none⟩,
      ⟨⟨"b", .boolean⟩, some (.boolean true)⟩] ∧
    slots.set? "b" (.number Number.nan) = none ∧ slots.set "b" (.number Number.nan) = slots ∧
    (slots.set? "b" (.number 0.0)).isSome ∧
    (∃ pre s post v, slots = pre ++ s :: post ∧ (∀ x ∈ pre, x.pin.name ≠ "b") ∧ s.pin.name = "b" ∧
      (PinValue.number 0.0).coerce? s.pin.type = some v ∧
      slots.set "b" (.number 0.0) = pre ++ ⟨s.pin, some v⟩ :: post) ∧
    slots.get? "a" = some (.number 1.0) ∧ slots.get? "c" = none := by
  intro slots
  obtain ⟨-, -, -, -, -, hrefused, htaken, hget, -⟩ :=
    typed_slots [⟨"a", .number⟩, ⟨"a", .boolean⟩, ⟨"b", .boolean⟩]
      [.carried .boolean "a" true, .carried .number "b" (2.0 : Float), .value "c" (.boolean true)]
  obtain ⟨hset, hsplit⟩ := htaken (.value "b" (.number 0.0)) _ (by rfl)
  refine ⟨by rfl, by rfl, hrefused (.value "b" (.number Number.nan)) (by rfl), by rfl, ?_,
    (hget "a").trans (by rfl), (hget "c").trans (by rfl)⟩
  rw [show slots.set "b" (.number 0.0) = _ from hset]
  exact hsplit

end Dataflow.Slots
