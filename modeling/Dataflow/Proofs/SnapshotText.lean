import Dataflow.Proofs.Fields
import Dataflow.Snapshot.Reader
import Dataflow.Snapshot.Writer
/-!
# Snapshots survive their text

A document cannot hold everything: no double that is not finite, no capacity of a buffer, no property
that goes by the name of a field. Main statements: a snapshot that a document can hold is read from
its text as its stored form (`Snapshot.ofText_text`); what is read from any text is in its stored form
already (`Snapshot.stored_of_ofText`); so reading, writing and reading again changes nothing
(`Snapshot.text_round_trip`).

The first half follows the writer from the inside out, with one lemma for each record. The second half
is an invariant of the reader: every field keeps what was read so far as a document keeps it.
-/
set_option autoImplicit false

namespace Dataflow

open Json Tree

/-! ## What a document keeps -/

/-- What a document keeps of a sample. -/
def Number.stored (x : Float) : Float :=
  if x.isFinite then x else Number.nan

/-- What a document keeps of recent values. Samples that are not finite are all written `null`; the
capacity is not written. -/
def RecentValues.stored (r : RecentValues) : RecentValues :=
  .ofList (r.samples.map Number.stored)

/-- What a document keeps of the data of a node. -/
def NodeData.stored (d : NodeData) : NodeData :=
  { d with recentValues := d.recentValues.stored, heldValue := d.heldValue.filter (·.isFinite) }

def NodeEntry.stored (n : NodeEntry) : NodeEntry :=
  { n with data := n.data.stored }

def Snapshot.stored (s : Snapshot) : Snapshot :=
  { s with nodes := s.nodes.map fun e => (e.1, e.2.stored) }

/-- The keys that are no properties in the data of a node. -/
def NodeData.fieldNames : List String :=
  ["type", "orderedDisplayName", "tickEntries", "recentValues", "heldValue"]

/-- Data whose properties a document can hold: no key names a field, and nothing is nested too deeply.
That keys are distinct and numbers in range is what objects and numbers come with. -/
structure NodeData.Writable (d : NodeData) : Prop where
  nodup : (d.properties.map (·.1)).Nodup
  isProperty : ∀ m ∈ d.properties, m.1 ∉ NodeData.fieldNames
  fits : MembersFit d.properties roomOfProperty

structure NodeEntry.Writable (n : NodeEntry) : Prop where
  finite_x : n.x.isFinite = true
  finite_y : n.y.isFinite = true
  data : n.data.Writable

def Snapshot.Writable (s : Snapshot) : Prop :=
  ∀ e ∈ s.nodes, e.2.Writable

/-! ## Optional members -/

section

variable {σ : Type} {field : σ → String → Tree → Reading σ} {key : String}

/-- A field that is left out keeps the state in which nothing was given for it. -/
theorem readFields_optionalMember {α β : Type} {f : α → Value} {g : α → β} (set : Option β → σ)
    (v : Option α) (h : ∀ a, field (set none) key (f a).tree = .ok (set (some (g a)))) :
    readFields field (set none) (memberTrees (optionalMember key (v.map f))) = .ok (set (v.map g)) := by
  cases v with
  | none => rfl
  | some a =>
    rw [Option.map_some, optionalMember, readFields_cons (h a)]
    rfl

/-- The same for a field that is left out when there is nothing in it. -/
theorem readFields_unlessEmpty {β : Type} {v : Value} {a : β} (set : Option β → σ) (empty : Bool)
    (h : field (set none) key v.tree = .ok (set (some a))) :
    readFields field (set none) (memberTrees (optionalMember key (if empty then none else some v)))
      = .ok (set (if empty then none else some a)) := by
  cases empty with
  | true => rfl
  | false => exact readFields_cons h

end

/-! ## Tick entries and recent values -/

theorem TickEntry.read_toValue (t : TickEntry) : TickEntry.read t.toValue.tree = .ok t := by
  obtain ⟨nodeValue, isOpen⟩ := t
  have hvalue : readFields TickEntryFields.field {}
      (memberTrees (optionalMember "nodeValue" (nodeValue.map .string)))
        = .ok { nodeValue := nodeValue.map some } :=
    readFields_optionalMember (fun v => ({ nodeValue := v } : TickEntryFields)) nodeValue fun a => by
      rw [TickEntryFields.field, readOption_string]
      rfl
  have hopen : readFields TickEntryFields.field { nodeValue := nodeValue.map some }
      (memberTrees (optionalMember "open" (isOpen.map .bool)))
        = .ok { nodeValue := nodeValue.map some, isOpen := isOpen.map some } :=
    readFields_optionalMember (fun v => (⟨nodeValue.map some, v⟩ : TickEntryFields)) isOpen
      fun a => by
        rw [TickEntryFields.field, readOption_bool]
        rfl
  rw [TickEntry.read, TickEntry.toValue, Value.tree, readRecord, readFields_append hvalue hopen]
  cases nodeValue <;> cases isOpen <;> rfl

/-- Entries that are put one after another into an empty table, in the order in which the table lists
them, make the table. -/
theorem TickEntries.foldl_insert_toList (t : TickEntries) :
    t.toList.foldl (fun old e => old.insert e.1 e.2) (∅ : TickEntries) = t := by
  have hmany : ∀ (l : List (String × TickEntry)) (old : TickEntries),
      l.foldl (fun old e => old.insert e.1 e.2) old = old.insertMany l := by
    intro l
    induction l with
    | nil => intro old; rw [List.foldl_nil, Std.ExtTreeMap.insertMany_nil]
    | cons e rest ih => intro old; rw [List.foldl_cons, ih, Std.ExtTreeMap.insertMany_cons]
  rw [hmany, ← Std.ExtTreeMap.ofList_eq_insertMany_empty]
  refine Std.ExtTreeMap.ext_getElem? fun k => ?_
  cases hk : t[k]? with
  | none =>
    refine Std.ExtTreeMap.getElem?_ofList_of_contains_eq_false ?_
    rw [Std.ExtTreeMap.map_fst_toList_eq_keys]
    simpa using hk
  | some v =>
    exact Std.ExtTreeMap.getElem?_ofList_of_mem Std.compare_self
      Std.ExtTreeMap.distinct_keys_toList (Std.ExtTreeMap.mem_toList_iff_getElem?_eq_some.mpr hk)

theorem readFields_readTickEntry (l : List (String × TickEntry)) (old : TickEntries) :
    readFields readTickEntry old (memberTrees (l.map fun e => (e.1, e.2.toValue)))
      = .ok (l.foldl (fun old e => old.insert e.1 e.2) old) := by
  induction l generalizing old with
  | nil => rfl
  | cons e rest ih =>
    have hentry : readTickEntry old e.1 e.2.toValue.tree = .ok (old.insert e.1 e.2) := by
      rw [readTickEntry, TickEntry.read_toValue]
      rfl
    rw [List.map_cons, readFields_cons hentry, ih, List.foldl_cons]

theorem readTickEntries_toValue (t : TickEntries) :
    readTickEntries (Value.object (t.toList.map fun e => (e.1, e.2.toValue))).tree = .ok t := by
  rw [Value.tree, readTickEntries, readFields_readTickEntry, TickEntries.foldl_insert_toList]

theorem readSample_tree (x : Float) :
    readSample (if x.isFinite then floatValue x else .null).tree
      = .ok (Number.stored x) := by
  rw [Number.stored]
  cases hx : x.isFinite with
  | true =>
    rw [if_pos rfl, floatValue, readSample, readOption_float, hx]
    rfl
  | false => rfl

theorem RecentValues.read_toValue (r : RecentValues) :
    RecentValues.read r.toValue.tree = .ok r.stored := by
  rw [RecentValues.toValue, Value.tree, RecentValues.read, itemTrees_map,
    mapM_map_eq_ok fun x _ => readSample_tree x]
  rfl

/-! ## Nodes -/

theorem NodeDataFields.field_of_isProperty {f : NodeDataFields} {key : String} {t : Tree}
    (h : key ∉ NodeData.fieldNames) :
    f.field key t = (t.readValue roomOfProperty).map fun v =>
      { f with properties := Value.insertMember f.properties key v } := by
  simp only [NodeData.fieldNames, List.mem_cons, List.not_mem_nil, or_false, not_or] at h
  obtain ⟨htype, hname, hticks, hrecent, hheld⟩ := h
  rw [NodeDataFields.field.eq_def]
  split <;> first | contradiction | rfl

theorem readFields_properties (properties : List (String × Value)) {f : NodeDataFields}
    (hkeys : ((f.properties ++ properties).map (·.1)).Nodup)
    (hproperty : ∀ m ∈ properties, m.1 ∉ NodeData.fieldNames)
    (hfits : MembersFit properties roomOfProperty) :
    readFields NodeDataFields.field f (memberTrees properties)
      = .ok { f with properties := f.properties ++ properties } := by
  induction properties generalizing f with
  | nil =>
    rw [List.append_nil]
    rfl
  | cons m rest ih =>
    obtain ⟨key, v⟩ := m
    obtain ⟨hnew, hrest⟩ := nodup_append_of_cons hkeys
    have hfield : f.field key v.tree
        = .ok { f with properties := f.properties ++ [(key, v)] } := by
      rw [NodeDataFields.field_of_isProperty (hproperty (key, v) List.mem_cons_self),
        readValue_tree v _ hfits.1, ← Value.insertMember_of_notMem hnew]
      rfl
    rw [readFields_cons hfield,
      ih hrest (fun m hm => hproperty m (List.mem_cons_of_mem _ hm)) hfits.2,
      List.append_assoc]
    rfl

section

variable (f : NodeDataFields)

theorem readFields_displayName (name : Option String) :
    readFields NodeDataFields.field { f with displayName := none }
      (memberTrees (optionalMember "orderedDisplayName" (name.map .string)))
        = .ok { f with displayName := name.map some } :=
  readFields_optionalMember (fun v => { f with displayName := v }) name fun a => by
    rw [NodeDataFields.field, readOption_string]
    rfl

theorem readFields_tickEntries (t : TickEntries) :
    readFields NodeDataFields.field { f with tickEntries := none }
      (memberTrees (optionalMember "tickEntries" (if t.isEmpty then none
        else some (.object (t.toList.map fun e => (e.1, e.2.toValue))))))
        = .ok { f with tickEntries := if t.isEmpty then none else some t } :=
  readFields_unlessEmpty (fun v => { f with tickEntries := v }) t.isEmpty (by
    rw [NodeDataFields.field, readTickEntries_toValue]
    rfl)

theorem readFields_recentValues (r : RecentValues) :
    readFields NodeDataFields.field { f with recentValues := none }
      (memberTrees (optionalMember "recentValues"
        (if r.samples.isEmpty then none else some r.toValue)))
        = .ok { f with recentValues := if r.samples.isEmpty then none else some r.stored } :=
  readFields_unlessEmpty (fun v => { f with recentValues := v }) r.samples.isEmpty (by
    rw [NodeDataFields.field, RecentValues.read_toValue]
    rfl)

theorem readFields_heldValue (held : Option Float) :
    readFields NodeDataFields.field { f with heldValue := none }
      (memberTrees (optionalMember "heldValue" (held.map floatValue)))
        = .ok { f with heldValue := held.map fun x => if x.isFinite then some x else none } :=
  readFields_optionalMember (fun v => { f with heldValue := v }) held fun x => by
    rw [NodeDataFields.field, floatValue, readOption_float]
    rfl

end

/-- The fields that are met in the document of data. -/
def NodeDataFields.ofData (d : NodeData) : NodeDataFields where
  typeName := some d.typeName
  displayName := d.displayName.map some
  tickEntries := if d.tickEntries.isEmpty then none else some d.tickEntries
  recentValues := if d.recentValues.samples.isEmpty then none else some d.recentValues.stored
  heldValue := d.heldValue.map fun x => if x.isFinite then some x else none
  properties := d.properties

/-- What is left out stands for what it would have held. -/
theorem NodeDataFields.data_ofData (d : NodeData) : (NodeDataFields.ofData d).data = d.stored := by
  rw [data, ofData, NodeData.stored]
  congr 1
  · cases d.displayName <;> rfl
  · dsimp only
    split
    · next hempty => exact (Std.ExtTreeMap.isEmpty_iff.mp hempty).symm
    · rfl
  · dsimp only
    split
    · next hempty =>
      rw [RecentValues.stored, List.isEmpty_iff.mp hempty]
      rfl
    · rfl
  · cases d.heldValue with
    | none => rfl
    | some x => rw [Option.map_some, Option.getD_some, Option.filter_some]

theorem NodeData.read_toValue {d : NodeData} (h : d.Writable) :
    NodeData.read d.toValue.tree = .ok d.stored := by
  have htype : NodeDataFields.field {} "type" (Value.string d.typeName).tree
      = .ok { typeName := some d.typeName } := by
    rw [NodeDataFields.field, readText_string]
    rfl
  have hname := (readFields_cons htype).trans
    (readFields_displayName { typeName := some d.typeName } d.displayName)
  have hproperties := readFields_append hname
    (readFields_properties d.properties h.nodup h.isProperty h.fits)
  have hticks := readFields_append hproperties (readFields_tickEntries
    { NodeDataFields.ofData d with recentValues := none, heldValue := none } d.tickEntries)
  have hrecent := readFields_append hticks (readFields_recentValues
    { NodeDataFields.ofData d with heldValue := none } d.recentValues)
  have hheld := readFields_append hrecent
    (readFields_heldValue (NodeDataFields.ofData d) d.heldValue)
  rw [NodeData.toValue, Value.tree, NodeData.read, hheld, ← NodeDataFields.data_ofData]
  rfl

theorem NodeEntry.read_toValue {n : NodeEntry} (h : n.Writable) :
    NodeEntry.read n.toValue.tree = .ok n.stored := by
  have hid : readFields NodeFields.field {} (memberTrees (optionalMember "id" (n.id.map .string)))
      = .ok { id := n.id.map some } :=
    readFields_optionalMember (fun v => ({ id := v } : NodeFields)) n.id fun a => by
      rw [NodeFields.field, readOptionalId_string]
      rfl
  have hrest : readFields NodeFields.field { id := n.id.map some } (memberTrees
      [("name", .string n.name), ("x", floatValue n.x), ("y", floatValue n.y), ("data", n.data.toValue)])
        = .ok ⟨n.id.map some, n.name, n.x, n.y, n.data.stored⟩ := by
    rw [readFields_cons (by rw [NodeFields.field, readText_string]; rfl),
      readFields_cons (by rw [NodeFields.field, floatValue, readFloat_float h.finite_x]; rfl),
      readFields_cons (by rw [NodeFields.field, floatValue, readFloat_float h.finite_y]; rfl),
      readFields_cons (by rw [NodeFields.field, NodeData.read_toValue h.data]; rfl)]
    rfl
  obtain ⟨id, name, x, y, data⟩ := n
  rw [NodeEntry.toValue, Value.tree, NodeEntry.read, readRecord, readFields_append hid hrest]
  cases id <;> rfl

theorem ConnectionEntry.read_toValue (c : ConnectionEntry) :
    ConnectionEntry.read c.toValue.tree = .ok c := by
  have hid : readFields ConnectionFields.field {}
      (memberTrees (optionalMember "id" (c.id.map .string))) = .ok { id := c.id.map some } :=
    readFields_optionalMember (fun v => ({ id := v } : ConnectionFields)) c.id fun a => by
      rw [ConnectionFields.field, readOptionalId_string]
      rfl
  have hrest : readFields ConnectionFields.field { id := c.id.map some } (memberTrees
      [("source", .string c.source), ("sourceOutput", .string c.sourceOutput),
        ("target", .string c.target), ("targetInput", .string c.targetInput)])
        = .ok ⟨c.id.map some, c.source, c.sourceOutput, c.target, c.targetInput⟩ := by
    rw [readFields_cons (by rw [ConnectionFields.field, readId_string]; rfl),
      readFields_cons (by rw [ConnectionFields.field, readText_string]; rfl),
      readFields_cons (by rw [ConnectionFields.field, readId_string]; rfl),
      readFields_cons (by rw [ConnectionFields.field, readText_string]; rfl)]
    rfl
  obtain ⟨id, source, sourceOutput, target, targetInput⟩ := c
  rw [ConnectionEntry.toValue, Value.tree, ConnectionEntry.read, readRecord,
    readFields_append hid hrest]
  · cases id <;> rfl
  · simp

/-! ## Whole snapshots -/

theorem readEntries_object {α : Type} {read : Tree → Reading α} {toValue : α → Value} {g : α → α}
    {l : List (String × α)} (h : ∀ e ∈ l, read (toValue e.2).tree = .ok (g e.2)) :
    readEntries read (Value.object (l.map fun e => (e.1, toValue e.2))).tree
      = .ok (l.map fun e => (e.1, g e.2)) := by
  have hread : ∀ done : List (String × α),
      readFields (fun done key t => (read t).map fun a => (key, a) :: done) done
        (memberTrees (l.map fun e => (e.1, toValue e.2)))
          = .ok ((l.map fun e => (e.1, g e.2)).reverse ++ done) := by
    induction l with
    | nil =>
      intro done
      rfl
    | cons e rest ih =>
      intro done
      rw [List.map_cons, readFields_cons (by rw [h e List.mem_cons_self]; rfl),
        ih (fun e he => h e (List.mem_cons_of_mem _ he)), List.map_cons, List.reverse_cons,
        List.append_assoc]
      rfl
  rw [Value.tree, readEntries, hread, List.append_nil]
  exact congrArg Except.ok (List.reverse_reverse _)

theorem readList_strings (l : List String) :
    (Value.array (l.map .string)).tree.readList Tree.readText = .ok l := by
  rw [Value.tree, readList, itemTrees_map, mapM_map_eq_ok (g := id) fun s _ => readText_string s, List.map_id]

theorem Snapshot.read_toValue {s : Snapshot} (h : s.Writable) :
    Snapshot.read s.toValue.tree = .ok s.stored := by
  have hid : readFields SnapshotFields.field {}
      (memberTrees (optionalMember "id" (s.id.map .string))) = .ok { id := s.id.map some } :=
    readFields_optionalMember (fun v => ({ id := v } : SnapshotFields)) s.id fun a => by
      rw [SnapshotFields.field, readOptionalId_string]
      rfl
  have hnodes : readEntries NodeEntry.read (Value.object (s.nodes.map fun e => (e.1, e.2.toValue))).tree
      = .ok s.stored.nodes :=
    readEntries_object fun e he => NodeEntry.read_toValue (h e he)
  have hconnections : readEntries ConnectionEntry.read
      (Value.object (s.connections.map fun e => (e.1, e.2.toValue))).tree = .ok s.connections := by
    have hread := readEntries_object (g := fun c => c) (l := s.connections)
      fun e _ => ConnectionEntry.read_toValue e.2
    exact hread.trans (congrArg Except.ok (List.map_id _))
  have hrest : readFields SnapshotFields.field { id := s.id.map some } (memberTrees
      [("nodes", .object (s.nodes.map fun e => (e.1, e.2.toValue))),
        ("connections", .object (s.connections.map fun e => (e.1, e.2.toValue))),
        ("recentTicks", .array (s.recentTicks.map .string))])
        = .ok ⟨s.id.map some, s.stored.nodes, s.connections, s.recentTicks⟩ := by
    rw [readFields_cons (by rw [SnapshotFields.field, hnodes]; rfl),
      readFields_cons (by rw [SnapshotFields.field, hconnections]; rfl),
      readFields_cons (by rw [SnapshotFields.field, readList_strings]; rfl)]
    rfl
  rw [Snapshot.toValue, Value.tree, Snapshot.read, readRecord, readFields_append hid hrest,
    Snapshot.stored]
  cases s.id <;> rfl

/-- **A snapshot is read back from its text, up to what a document cannot hold.** -/
theorem Snapshot.ofText_text {s : Snapshot} (h : s.Writable) :
    Snapshot.ofText s.text = .ok s.stored := by
  rw [Snapshot.ofText, readText, Snapshot.text, ofText?_indented]
  dsimp only
  rw [Snapshot.read_toValue h]

/-! ## What is read -/

/-- What every field keeps is kept by a record. -/
theorem readRecord_invariant {σ : Type} {field : σ → String → Tree → Reading σ} {P : σ → Prop}
    {expected : String} {names : List String} {start s : σ} {t : Tree}
    (hfield : ∀ {s key t s'}, P s → field s key t = .ok s' → P s') (hstart : P start)
    (h : readRecord field start expected names t = .ok s) : P s := by
  rw [readRecord.eq_def] at h
  split at h
  · exact readFields_invariant hfield hstart h
  · next items =>
    cases hplaces : readPlaces field start names items with
    | error e => exact absurd h (by simp [hplaces])
    | ok s' =>
      simp only [hplaces] at h
      split at h
      · exact absurd h (by simp)
      · cases h
        exact readPlaces_invariant hfield hstart hplaces
  · exact absurd h (mismatch_ne_ok _ _ _)

/-- Recent values as a document keeps them. -/
def RecentValues.Stored (r : RecentValues) : Prop :=
  r.stored = r

theorem RecentValues.stored_ofList {samples : List Float}
    (h : ∀ x ∈ samples, x.isFinite = true ∨ x = Number.nan) : (RecentValues.ofList samples).Stored := by
  have hsame : samples.map Number.stored = samples := by
    refine (List.map_congr_left fun x hx => ?_).trans (List.map_id _)
    rcases h x hx with hfinite | rfl
    · rw [Number.stored, if_pos hfinite, id]
    · rfl
  exact congrArg RecentValues.ofList hsame

theorem RecentValues.stored_empty : RecentValues.empty.Stored :=
  RecentValues.stored_ofList fun _ h => absurd h List.not_mem_nil

theorem of_readSample {t : Tree} {x : Float} (h : readSample t = .ok x) :
    x.isFinite = true ∨ x = Number.nan := by
  obtain ⟨v, hv, rfl⟩ := map_eq_ok_iff.mp h
  rcases readOption_eq_ok hv with rfl | ⟨y, hy, rfl⟩
  · exact .inr rfl
  · exact .inl (isFinite_of_readFloat hy)

theorem RecentValues.stored_of_read {t : Tree} {r : RecentValues} (h : RecentValues.read t = .ok r) :
    r.Stored := by
  rw [RecentValues.read.eq_def] at h
  split at h
  · cases h
    exact RecentValues.stored_empty
  · obtain ⟨samples, hsamples, rfl⟩ := map_eq_ok_iff.mp h
    exact RecentValues.stored_ofList (forall_of_mapM_eq_ok (fun _ _ _ => of_readSample) hsamples)
  · refine readFields_invariant (fun {old key t next} hold hnext => ?_) RecentValues.stored_empty h
    rw [readKeyedSamples] at hnext
    split at hnext
    · obtain ⟨samples, hsamples, rfl⟩ := map_eq_ok_iff.mp hnext
      obtain ⟨items, hitems⟩ := readList_eq_ok hsamples
      exact RecentValues.stored_ofList (forall_of_mapM_eq_ok (fun _ _ _ => of_readSample) hitems)
    · cases hnext
      exact hold
  · exact absurd h (mismatch_ne_ok _ _ _)

/-- The data of a node as a document keeps it. -/
structure NodeData.Stored (d : NodeData) : Prop extends d.Writable where
  recentValues : d.recentValues.Stored
  finite_held : ∀ x, d.heldValue = some x → x.isFinite = true

theorem filter_isFinite {held : Option Float} (h : ∀ x, held = some x → x.isFinite = true) :
    held.filter (·.isFinite) = held := by
  cases held with
  | none => rfl
  | some x => rw [Option.filter_some, if_pos (h x rfl)]

theorem NodeData.Stored.stored_eq {d : NodeData} (h : d.Stored) : d.stored = d := by
  rw [NodeData.stored, h.recentValues]
  rw [filter_isFinite h.finite_held]

theorem NodeData.stored_default : NodeData.Stored {} where
  nodup := .nil
  isProperty _ h := absurd h List.not_mem_nil
  fits := trivial
  recentValues := RecentValues.stored_empty
  finite_held _ h := absurd h (by simp)

theorem NodeDataFields.stored_field {f f' : NodeDataFields} {key : String} {t : Tree}
    (hf : f.data.Stored) (h : f.field key t = .ok f') : f'.data.Stored := by
  rw [NodeDataFields.field.eq_def] at h
  split at h
  · obtain ⟨v, hv, rfl⟩ := map_eq_ok_iff.mp h
    exact ⟨⟨hf.nodup, hf.isProperty, hf.fits⟩, hf.recentValues, hf.finite_held⟩
  · obtain ⟨v, hv, rfl⟩ := map_eq_ok_iff.mp h
    exact ⟨⟨hf.nodup, hf.isProperty, hf.fits⟩, hf.recentValues, hf.finite_held⟩
  · obtain ⟨v, hv, rfl⟩ := map_eq_ok_iff.mp h
    exact ⟨⟨hf.nodup, hf.isProperty, hf.fits⟩, hf.recentValues, hf.finite_held⟩
  · obtain ⟨v, hv, rfl⟩ := map_eq_ok_iff.mp h
    obtain ⟨r, hr, rfl⟩ := once_eq_ok hv
    exact ⟨⟨hf.nodup, hf.isProperty, hf.fits⟩, RecentValues.stored_of_read hr, hf.finite_held⟩
  · obtain ⟨v, hv, rfl⟩ := map_eq_ok_iff.mp h
    obtain ⟨held, hheld, rfl⟩ := once_eq_ok hv
    refine ⟨⟨hf.nodup, hf.isProperty, hf.fits⟩, hf.recentValues, fun x hx => ?_⟩
    rcases readOption_eq_ok hheld with rfl | ⟨y, hy, rfl⟩
    · exact absurd hx (by simp [NodeDataFields.data])
    · cases hx
      exact isFinite_of_readFloat hy
  · next htype hname hticks hrecent hheld =>
    obtain ⟨v, hv, rfl⟩ := map_eq_ok_iff.mp h
    have hkey : key ∉ NodeData.fieldNames := by
      simp only [NodeData.fieldNames, List.mem_cons, List.not_mem_nil, or_false, not_or]
      exact ⟨htype, hname, hticks, hrecent, hheld⟩
    refine ⟨⟨Value.nodup_insertMember hf.nodup, fun m hm => ?_, ?_⟩, hf.recentValues, hf.finite_held⟩
    · rcases Value.mem_insertMember hm with hold | rfl
      · exact hf.isProperty m hold
      · exact hkey
    · refine membersFit_iff.mpr fun m hm => ?_
      rcases Value.mem_insertMember hm with hold | rfl
      · exact membersFit_iff.mp hf.fits m hold
      · exact fits_of_readValue t roomOfProperty v hv

theorem NodeData.stored_of_read {t : Tree} {d : NodeData} (h : NodeData.read t = .ok d) :
    d.Stored := by
  rw [NodeData.read.eq_def] at h
  split at h
  · obtain ⟨f, hf, rfl⟩ := map_eq_ok_iff.mp h
    exact readFields_invariant (P := fun f => f.data.Stored) NodeDataFields.stored_field
      NodeData.stored_default hf
  · exact absurd h (mismatch_ne_ok _ _ _)

/-- A node entry as a document keeps it. -/
structure NodeEntry.Stored (n : NodeEntry) : Prop where
  finite_x : n.x.isFinite = true
  finite_y : n.y.isFinite = true
  data : n.data.Stored

theorem NodeFields.stored_field {f f' : NodeFields} {key : String} {t : Tree}
    (hf : f.entry.Stored) (h : f.field key t = .ok f') : f'.entry.Stored := by
  rw [NodeFields.field.eq_def] at h
  split at h
  · obtain ⟨v, hv, rfl⟩ := map_eq_ok_iff.mp h
    exact ⟨hf.finite_x, hf.finite_y, hf.data⟩
  · obtain ⟨v, hv, rfl⟩ := map_eq_ok_iff.mp h
    exact ⟨hf.finite_x, hf.finite_y, hf.data⟩
  · obtain ⟨v, hv, rfl⟩ := map_eq_ok_iff.mp h
    obtain ⟨x, hx, rfl⟩ := once_eq_ok hv
    exact ⟨isFinite_of_readFloat hx, hf.finite_y, hf.data⟩
  · obtain ⟨v, hv, rfl⟩ := map_eq_ok_iff.mp h
    obtain ⟨y, hy, rfl⟩ := once_eq_ok hv
    exact ⟨hf.finite_x, isFinite_of_readFloat hy, hf.data⟩
  · obtain ⟨v, hv, rfl⟩ := map_eq_ok_iff.mp h
    obtain ⟨d, hd, rfl⟩ := once_eq_ok hv
    exact ⟨hf.finite_x, hf.finite_y, NodeData.stored_of_read hd⟩
  · cases h
    exact hf

theorem NodeEntry.stored_of_read {t : Tree} {n : NodeEntry} (h : NodeEntry.read t = .ok n) :
    n.Stored := by
  obtain ⟨f, hf, rfl⟩ := map_eq_ok_iff.mp h
  exact readRecord_invariant (P := fun f => f.entry.Stored) NodeFields.stored_field
    ⟨rfl, rfl, NodeData.stored_default⟩ hf

def Snapshot.Stored (s : Snapshot) : Prop :=
  ∀ e ∈ s.nodes, e.2.Stored

theorem forall_of_readEntries {α : Type} {read : Tree → Reading α} {P : α → Prop}
    (hread : ∀ {t a}, read t = .ok a → P a) {t : Tree} {l : List (String × α)}
    (h : readEntries read t = .ok l) : ∀ e ∈ l, P e.2 := by
  rw [readEntries.eq_def] at h
  split at h
  · cases h
    exact fun e he => absurd he List.not_mem_nil
  · obtain ⟨done, hdone, rfl⟩ := map_eq_ok_iff.mp h
    have hall : ∀ e ∈ done, P e.2 := by
      refine readFields_invariant (P := fun done => ∀ e ∈ done, P e.2)
        (fun {done key t done'} hold hnext => ?_) (fun e he => absurd he List.not_mem_nil) hdone
      obtain ⟨a, ha, rfl⟩ := map_eq_ok_iff.mp hnext
      exact List.forall_mem_cons.mpr ⟨hread ha, hold⟩
    exact fun e he => hall e (List.mem_reverse.mp he)
  · exact absurd h (mismatch_ne_ok _ _ _)

theorem SnapshotFields.stored_field {f f' : SnapshotFields} {key : String} {t : Tree}
    (hf : f.snapshot.Stored) (h : f.field key t = .ok f') : f'.snapshot.Stored := by
  rw [SnapshotFields.field.eq_def] at h
  split at h
  · obtain ⟨v, hv, rfl⟩ := map_eq_ok_iff.mp h
    exact hf
  · obtain ⟨v, hv, rfl⟩ := map_eq_ok_iff.mp h
    obtain ⟨nodes, hnodes, rfl⟩ := once_eq_ok hv
    exact forall_of_readEntries NodeEntry.stored_of_read hnodes
  · obtain ⟨v, hv, rfl⟩ := map_eq_ok_iff.mp h
    exact hf
  · obtain ⟨v, hv, rfl⟩ := map_eq_ok_iff.mp h
    exact hf
  · cases h
    exact hf

theorem Snapshot.stored_of_read {t : Tree} {s : Snapshot} (h : Snapshot.read t = .ok s) :
    s.Stored := by
  obtain ⟨f, hf, rfl⟩ := map_eq_ok_iff.mp h
  exact readRecord_invariant (P := fun f => f.snapshot.Stored) SnapshotFields.stored_field
    (fun e he => absurd he List.not_mem_nil) hf

/-- **Every snapshot that is read is as a document keeps it.** -/
theorem Snapshot.stored_of_ofText {t : String} {s : Snapshot} (h : Snapshot.ofText t = .ok s) :
    s.Stored := by
  rw [Snapshot.ofText, readText] at h
  split at h
  · exact absurd h (by simp)
  · split at h
    · exact absurd h (by simp)
    · next hread =>
      cases h
      exact Snapshot.stored_of_read hread

theorem Snapshot.Stored.writable {s : Snapshot} (h : s.Stored) : s.Writable :=
  fun e he => ⟨(h e he).finite_x, (h e he).finite_y, (h e he).data.toWritable⟩

theorem Snapshot.Stored.stored_eq {s : Snapshot} (h : s.Stored) : s.stored = s := by
  have hnodes : (s.nodes.map fun e => (e.1, e.2.stored)) = s.nodes := by
    refine (List.map_congr_left fun e he => ?_).trans (List.map_id _)
    rw [NodeEntry.stored, (h e he).data.stored_eq]
    rfl
  rw [Snapshot.stored, hnodes]

/-- **Snapshots survive their text.** A snapshot whose positions are finite and whose properties are
no fields, with room for their nesting, is read from its text as its stored form: samples that are
not finite have become the one that is no number, held values that are not finite are gone, and
buffers have the least capacity that holds them, but at least the default. What is read from any
text, written and read again is the same snapshot and has the same text. -/
theorem Snapshot.text_round_trip :
    (∀ s : Snapshot, s.Writable → Snapshot.ofText s.text = .ok s.stored) ∧
      ∀ (t : String) (s : Snapshot), Snapshot.ofText t = .ok s →
        Snapshot.ofText s.text = .ok s ∧
          (Snapshot.ofText s.text).map Snapshot.text = .ok s.text := by
  refine ⟨fun s => Snapshot.ofText_text, fun t s h => ?_⟩
  have hstored := Snapshot.stored_of_ofText h
  have hread := Snapshot.ofText_text hstored.writable
  rw [hstored.stored_eq] at hread
  exact ⟨hread, by rw [hread]; rfl⟩

/-- Data with properties of every kind and values that are not finite. -/
def NodeData.sample : NodeData where
  typeName := "Hold Current"
  properties := [("list", .array [.null, .bool true, .object [("key", .string "\n")]]),
    ("whole", .number (.integer (-3))), ("part", .number (.float 0.1))]
  tickEntries := (∅ : TickEntries).insert "first" ⟨some "0.1", none⟩
  recentValues := .ofList [0.1, 1.0 / 0.0]
  heldValue := some (1.0 / 0.0)

theorem NodeData.writable_sample : NodeData.sample.Writable := by
  refine ⟨by decide, by decide, ?_⟩
  have hlist : Value.Fits (.array [.null, .bool true, .object [("key", .string "\n")]])
      roomOfProperty :=
    ⟨by decide, trivial, trivial, ⟨by decide, by decide, trivial, trivial⟩, trivial⟩
  have hpart : (0.1 : Float).isFinite = true := by decide +kernel
  exact ⟨hlist, ⟨by decide, by decide⟩, hpart, trivial⟩

/-- A snapshot with two entries under one key. -/
def Snapshot.sample : Snapshot where
  id := some "sample"
  nodes := [("gate", { name := "Hold Current", x := 1.5, data := NodeData.sample }), ("gate", {})]
  connections := [("wire", ⟨none, "gate", "value", "lamp", "input"⟩)]
  recentTicks := ["first"]

theorem Snapshot.sample_text_round_trip :
    Snapshot.sample.Writable ∧ Snapshot.ofText Snapshot.sample.text = .ok Snapshot.sample.stored ∧
      Snapshot.ofText Snapshot.sample.stored.text = .ok Snapshot.sample.stored := by
  have hx : (1.5 : Float).isFinite = true := by decide +kernel
  have hwritable : Snapshot.sample.Writable := by
    intro e he
    rcases List.mem_pair.mp he with rfl | rfl
    · exact ⟨hx, rfl, NodeData.writable_sample⟩
    · exact ⟨rfl, rfl, NodeData.stored_default.toWritable⟩
  have hread := Snapshot.text_round_trip.1 Snapshot.sample hwritable
  exact ⟨hwritable, hread, (Snapshot.text_round_trip.2 _ _ hread).1⟩

end Dataflow
