import Dataflow.Proofs.SnapshotText
import Dataflow.Proofs.Tick
/-!
# Loading what was saved

A definition makes the program that has it as its definition, with the kinds that the catalog gives to
the types (`Program.ofDefinition?_eq_ok_iff`); an engine loads a snapshot with consistent entries as the
program that it defines, with every buffer resized (`Engine.loadSnapshot_eq_ok_iff`).

Every node of a program has a kind that the engine's catalog gives its type, and no two nodes share an
id; so the engine that loaded a program takes its snapshot back (`Engine.loadSnapshot_ofProgram`). What
a document needs of a program that was loaded, it keeps at every tick (`Engine.loaded_of_ticksTo`).
-/
set_option autoImplicit false

namespace Dataflow

/-! ## Building a program from its definition -/

/-- What each step of a fold keeps, the whole fold keeps. -/
theorem foldlM_invariant {ε σ α : Type} {f : σ → α → Except ε σ} {P : σ → Prop} {l : List α} {s s' : σ}
    (h : l.foldlM f s = .ok s') (hstart : P s)
    (hstep : ∀ a ∈ l, ∀ s s', P s → f s a = .ok s' → P s') : P s' := by
  induction l generalizing s with
  | nil =>
    cases h
    exact hstart
  | cons a rest ih =>
    rw [List.foldlM_cons] at h
    cases hnext : f s a with
    | error err => exact absurd h (by simp [hnext, bind, Except.bind])
    | ok next =>
      rw [hnext] at h
      refine ih h (hstep a List.mem_cons_self s next hstart hnext) fun b hb => ?_
      exact hstep b (List.mem_cons_of_mem _ hb)

theorem foldlM_concat_eq_ok_iff {ε σ α : Type} {f : σ → α → Except ε σ} {l : List α} {a : α} {s t : σ} :
    (l ++ [a]).foldlM f s = .ok t ↔ ∃ m, l.foldlM f s = .ok m ∧ f m a = .ok t := by
  rw [List.foldlM_append]
  cases l.foldlM f s with
  | error err => simp [bind, Except.bind]
  | ok m =>
    have hlast : [a].foldlM f m = f m a := bind_pure _
    simp [bind, Except.bind, hlast]

namespace Program

variable {catalog : Catalog} {p q : Program}

theorem addNode_eq_ok_iff {d : NodeDefinition} :
    addNode catalog p d = .ok q ↔ ∃ kind, catalog.resolve? d.data.typeName = some kind ∧
      ∃ hids, q = { p with nodes := p.nodes ++ [{ d with kind := kind }], nodes_nodup := hids } := by
  constructor
  · intro h
    rw [addNode] at h
    split at h
    · exact absurd h (by simp)
    · next kind hkind =>
      split at h
      · exact absurd h (by simp)
      · cases h
        exact ⟨kind, hkind, _, rfl⟩
  · rintro ⟨kind, hkind, hids, rfl⟩
    rw [addNode, hkind]
    exact dif_neg (not_mem_of_nodup_concat hids)

theorem addConnection_eq_ok_iff {c : Connection} :
    addConnection p c = .ok q ↔
      ∃ hids, q = { p with connections := p.connections ++ [c], connections_nodup := hids } := by
  constructor
  · intro h
    rw [addConnection] at h
    split at h
    · exact absurd h (by simp)
    · cases h
      exact ⟨_, rfl⟩
  · rintro ⟨hids, rfl⟩
    exact dif_neg (not_mem_of_nodup_concat hids)

/-- Every node has the kind that the catalog gives its type. -/
def Typed (catalog : Catalog) (p : Program) : Prop :=
  ∀ n ∈ p.nodes, catalog.resolve? n.data.typeName = some n.kind

theorem foldlM_addNode_eq_ok_iff {id : Option String} {log : List String}
    {ds : List NodeDefinition} :
    ds.foldlM (addNode catalog) (blank id log) = .ok q ↔
      q.toDefinition = ⟨id, ds, [], log⟩ ∧ q.Typed catalog := by
  induction ds using List.reverseRecOn generalizing q with
  | nil =>
    constructor
    · intro h
      cases h
      exact ⟨rfl, fun n hn => absurd hn List.not_mem_nil⟩
    · rintro ⟨hdef, -⟩
      obtain ⟨_, nodes, connections, _, _, _⟩ := q
      simp only [toDefinition, Definition.mk.injEq, List.map_eq_nil_iff] at hdef
      obtain ⟨rfl, rfl, rfl, rfl⟩ := hdef
      rfl
  | append_singleton ds d ih =>
    rw [foldlM_concat_eq_ok_iff]
    constructor
    · rintro ⟨m, hm, hadd⟩
      obtain ⟨hdef, htyped⟩ := ih.mp hm
      obtain ⟨kind, hkind, hids, rfl⟩ := addNode_eq_ok_iff.mp hadd
      simp only [toDefinition, Definition.mk.injEq] at hdef ⊢
      refine ⟨⟨hdef.1, ?_, hdef.2.2⟩, ?_⟩
      · rw [List.map_append, hdef.2.1]
        rfl
      · intro n hn
        rcases List.mem_append.mp hn with hold | hnew
        · exact htyped n hold
        · obtain rfl := List.mem_singleton.mp hnew
          exact hkind
    · rintro ⟨hdef, htyped⟩
      obtain ⟨id, nodes, connections, log, hids, hconnections⟩ := q
      simp only [toDefinition, Definition.mk.injEq] at hdef
      obtain ⟨rfl, hnodes, rfl, rfl⟩ := hdef
      obtain ⟨before, last, rfl, hbefore, hlast⟩ := List.map_eq_append_iff.mp hnodes
      obtain ⟨n, rfl, rfl⟩ := List.map_eq_singleton_iff.mp hlast
      have hold : (before.map (·.id)).Nodup := nodup_of_nodup_append hids
      refine ⟨⟨id, before, [], log, hold, hconnections⟩, ih.mpr ⟨?_, ?_⟩, ?_⟩
      · rw [toDefinition, hbefore]
      · intro m hm
        exact htyped m (List.mem_append_left _ hm)
      · exact addNode_eq_ok_iff.mpr
          ⟨n.kind, htyped n (List.mem_append_right _ (List.mem_singleton_self n)), hids, rfl⟩

theorem foldlM_addConnection_eq_ok_iff {connections : List Connection} :
    connections.foldlM addConnection p = .ok q ↔
      ∃ hids, q = { p with
        connections := p.connections ++ connections
        connections_nodup := hids } := by
  induction connections using List.reverseRecOn generalizing q with
  | nil =>
    obtain ⟨_, nodes, connections, _, hids, hconnections⟩ := p
    simp [pure, Except.pure, hconnections, eq_comm]
  | append_singleton connections c ih =>
    rw [foldlM_concat_eq_ok_iff]
    constructor
    · rintro ⟨m, hm, hadd⟩
      obtain ⟨_, rfl⟩ := ih.mp hm
      obtain ⟨hids, rfl⟩ := addConnection_eq_ok_iff.mp hadd
      simp only [List.append_assoc] at hids ⊢
      exact ⟨hids, trivial⟩
    · rintro ⟨hids, rfl⟩
      rw [← List.append_assoc] at hids
      have hold := nodup_of_nodup_append hids
      refine ⟨_, ih.mpr ⟨hold, rfl⟩, addConnection_eq_ok_iff.mpr ⟨hids, ?_⟩⟩
      simp only [List.append_assoc]

/-- **What a definition makes.** It makes the program that has this definition, with the kinds that the
catalog gives. -/
theorem ofDefinition?_eq_ok_iff {d : Definition} :
    ofDefinition? catalog d = .ok q ↔ q.toDefinition = d ∧ q.Typed catalog := by
  obtain ⟨id, ds, connections, log⟩ := d
  unfold ofDefinition?
  constructor
  · intro h
    split at h
    · exact absurd h (by simp)
    · next p hp =>
      obtain ⟨hdef, htyped⟩ := foldlM_addNode_eq_ok_iff.mp hp
      obtain ⟨hids, rfl⟩ := foldlM_addConnection_eq_ok_iff.mp h
      simp only [toDefinition, Definition.mk.injEq] at hdef ⊢
      obtain ⟨hid, hnodes, hnone, hlog⟩ := hdef
      refine ⟨⟨hid, hnodes, ?_, hlog⟩, htyped⟩
      rw [hnone, List.nil_append]
  · rintro ⟨hdef, htyped⟩
    obtain ⟨id, nodes, connections, log, hids, hconnections⟩ := q
    simp only [toDefinition, Definition.mk.injEq] at hdef
    obtain ⟨rfl, rfl, rfl, rfl⟩ := hdef
    have hnodes : (nodes.map (·.toNodeDefinition)).foldlM (addNode catalog) (blank id log)
        = .ok ⟨id, nodes, [], log, hids, .nil⟩ :=
      foldlM_addNode_eq_ok_iff.mpr ⟨rfl, htyped⟩
    rw [hnodes]
    exact foldlM_addConnection_eq_ok_iff.mpr ⟨hconnections, rfl⟩

end Program

/-! ## Loading the snapshot of a program -/

/-- A node as the engine's catalog gives it: its type is not empty and has the node's kind. -/
structure Engine.Knows (e : Engine) (n : Node) : Prop where
  typed : n.data.typeName ≠ ""
  resolves : e.catalog.resolve? n.data.typeName = some n.kind

/-- An entry that can be a node: it does not call itself otherwise than it is filed, and it has a
type. -/
structure NodeEntry.Consistent (key : String) (n : NodeEntry) : Prop where
  named : n.id = none ∨ n.id = some key
  typed : n.data.typeName ≠ ""

/-- The node that is filed under `key`, with all that its entry says. -/
def NodeEntry.filed (key : String) (n : NodeEntry) : NodeDefinition :=
  ⟨key, n.name, n.x, n.y, n.data⟩

theorem NodeEntry.getD_eq_iff {key : String} {n : NodeEntry} :
    n.id.getD key = key ↔ n.id = none ∨ n.id = some key := by
  cases n.id <;> simp

theorem NodeEntry.define_eq_ok_iff {key : String} {n : NodeEntry} {d : NodeDefinition} :
    n.define key = .ok d ↔ n.Consistent key ∧ d = n.filed key := by
  rw [define]
  constructor
  · intro h
    split at h
    · exact absurd h (by simp)
    · next hnamed =>
      split at h
      · exact absurd h (by simp)
      · next htyped =>
        cases h
        have hkey := not_not.mp hnamed
        exact ⟨⟨getD_eq_iff.mp hkey, htyped⟩, by rw [hkey, filed]⟩
  · rintro ⟨⟨hnamed, htyped⟩, rfl⟩
    have hkey := getD_eq_iff.mpr hnamed
    rw [if_neg (not_not.mpr hkey), if_neg htyped, hkey, filed]

/-- A traversal that checks each item and then says what it stands for. -/
theorem mapM_eq_ok_iff {ε α β : Type} {f : α → Except ε β} {P : α → Prop} {g : α → β}
    (hf : ∀ a b, f a = .ok b ↔ P a ∧ b = g a) {l : List α} {l' : List β} :
    l.mapM f = .ok l' ↔ (∀ a ∈ l, P a) ∧ l' = l.map g := by
  induction l generalizing l' with
  | nil => simp [pure, Except.pure, eq_comm]
  | cons a rest ih =>
    rw [List.mapM_cons]
    constructor
    · intro h
      cases ha : f a with
      | error err => exact absurd h (by simp [ha, bind, Except.bind])
      | ok b =>
        cases hrest : rest.mapM f with
        | error err => exact absurd h (by simp [ha, hrest, bind, Except.bind])
        | ok bs =>
          simp only [ha, hrest, bind, Except.bind, pure, Except.pure, Except.ok.injEq] at h
          subst h
          obtain ⟨hP, rfl⟩ := (hf a b).mp ha
          obtain ⟨hall, rfl⟩ := ih.mp hrest
          exact ⟨List.forall_mem_cons.mpr ⟨hP, hall⟩, rfl⟩
    · rintro ⟨hall, rfl⟩
      obtain ⟨hP, hrest⟩ := List.forall_mem_cons.mp hall
      rw [(hf a (g a)).mpr ⟨hP, rfl⟩, ih.mpr ⟨hrest, rfl⟩]
      rfl

/-- The definition that a snapshot is for, when its nodes are consistent. -/
def Snapshot.definition (s : Snapshot) : Definition where
  id := s.id
  nodes := s.nodes.map fun f => f.2.filed f.1
  connections := s.connections.map fun f => f.2.define f.1
  recentTicks := s.recentTicks

theorem Snapshot.define_eq_ok_iff {s : Snapshot} {d : Definition} :
    s.define = .ok d ↔ (∀ f ∈ s.nodes, f.2.Consistent f.1) ∧ d = s.definition := by
  have hnodes (ds : List NodeDefinition) : s.nodes.mapM (fun f => f.2.define f.1) = .ok ds ↔
      (∀ f ∈ s.nodes, f.2.Consistent f.1) ∧ ds = s.nodes.map fun f => f.2.filed f.1 :=
    mapM_eq_ok_iff fun _ _ => NodeEntry.define_eq_ok_iff
  unfold define
  constructor
  · intro h
    split at h
    · exact absurd h (by simp)
    · next ds hds =>
      obtain ⟨hconsistent, rfl⟩ := (hnodes ds).mp hds
      cases h
      exact ⟨hconsistent, rfl⟩
  · rintro ⟨hconsistent, rfl⟩
    rw [(hnodes _).mpr ⟨hconsistent, rfl⟩]
    rfl

theorem Snapshot.definition_ofProgram (p : Program) :
    (Snapshot.ofProgram p).definition = p.toDefinition := by
  simp only [definition, ofProgram, ofDefinition, Program.toDefinition, List.map_map,
    Function.comp_def, NodeEntry.filed, ConnectionEntry.define, Option.getD_some, List.map_id']

/-- **What a snapshot is loaded as.** Its nodes are consistent, and the program is the one that it
defines, with every buffer resized. -/
theorem Engine.loadSnapshot_eq_ok_iff {e : Engine} {s : Snapshot} {p : Program} :
    e.loadSnapshot s = .ok p ↔ (∀ f ∈ s.nodes, f.2.Consistent f.1) ∧
      ∃ q : Program, q.toDefinition = s.definition ∧ q.Typed e.catalog ∧
        p = q.mapData fun n => e.resize n.data := by
  unfold loadSnapshot
  constructor
  · intro h
    split at h
    · exact absurd h (by simp)
    · next d hd =>
      obtain ⟨hconsistent, rfl⟩ := Snapshot.define_eq_ok_iff.mp hd
      rw [load] at h
      split at h
      · exact absurd h (by simp)
      · next q hq =>
        cases h
        obtain ⟨hdef, htyped⟩ := Program.ofDefinition?_eq_ok_iff.mp hq
        exact ⟨hconsistent, q, hdef, htyped, rfl⟩
  · rintro ⟨hconsistent, q, hdef, htyped, rfl⟩
    rw [Snapshot.define_eq_ok_iff.mpr ⟨hconsistent, rfl⟩]
    show e.load s.definition = _
    rw [load, Program.ofDefinition?_eq_ok_iff.mpr ⟨hdef, htyped⟩]

/-- **An engine takes back the snapshot of a program whose nodes it knows.** -/
theorem Engine.loadSnapshot_ofProgram {e : Engine} {p : Program} (h : ∀ n ∈ p.nodes, e.Knows n) :
    e.loadSnapshot (Snapshot.ofProgram p) = .ok (p.mapData fun n => e.resize n.data) := by
  refine loadSnapshot_eq_ok_iff.mpr ⟨fun f hf => ?_, p, (Snapshot.definition_ofProgram p).symm,
    fun n hn => (h n hn).resolves, rfl⟩
  obtain ⟨d, hd, rfl⟩ := List.mem_map.mp hf
  obtain ⟨n, hn, rfl⟩ := List.mem_map.mp hd
  exact ⟨.inr rfl, (h n hn).typed⟩

/-- What a document keeps of the snapshot of a program is the snapshot of a program. -/
theorem Snapshot.stored_ofProgram (p : Program) :
    (Snapshot.ofProgram p).stored = Snapshot.ofProgram (p.mapData fun n => n.data.stored) := by
  simp only [Snapshot.stored, Snapshot.ofProgram, Snapshot.ofDefinition, Program.toDefinition,
    Program.mapData, List.map_map]
  rfl

/-! ## What a loaded program keeps -/

/-- A node as it is in a program that the engine loaded from a text: the engine knows it, and a
document can hold it. -/
structure Engine.Loaded (e : Engine) (n : Node) : Prop extends e.Knows n where
  finite_x : n.x.isFinite = true
  finite_y : n.y.isFinite = true
  writable : n.data.Writable

/-- What an engine loaded, every engine with its catalog could have loaded. -/
theorem Engine.Loaded.of_catalog {e e' : Engine} {n : Node} (h : e.Loaded n)
    (hcatalog : e'.catalog = e.catalog) : e'.Loaded n :=
  ⟨⟨h.typed, hcatalog ▸ h.resolves⟩, h.finite_x, h.finite_y, h.writable⟩

/-- A program that was loaded has the log of its snapshot, and each of its nodes comes from an entry
and has a kind that the engine knows; only the buffer is another. -/
theorem Engine.of_loadSnapshot {e : Engine} {s : Snapshot} {p : Program}
    (h : e.loadSnapshot s = .ok p) :
    p.recentTicks = s.recentTicks ∧ ∀ n ∈ p.nodes, e.Knows n ∧ ∃ entry ∈ s.nodes,
      n.x = entry.2.x ∧ n.y = entry.2.y ∧ n.data = e.resize entry.2.data := by
  obtain ⟨hconsistent, q, hdef, htyped, rfl⟩ := loadSnapshot_eq_ok_iff.mp h
  simp only [Program.toDefinition, Snapshot.definition, Definition.mk.injEq] at hdef
  obtain ⟨-, hnodes, -, hlog⟩ := hdef
  refine ⟨hlog, fun n hn => ?_⟩
  obtain ⟨m, hm, rfl⟩ := List.mem_map.mp hn
  have hfiled : m.toNodeDefinition ∈ s.nodes.map fun f => f.2.filed f.1 :=
    hnodes ▸ List.mem_map_of_mem hm
  obtain ⟨f, hf, heq⟩ := List.mem_map.mp hfiled
  have hdata : m.data = f.2.data := congrArg (·.data) heq.symm
  refine ⟨⟨?_, htyped m hm⟩, f, hf, congrArg (·.x) heq.symm, congrArg (·.y) heq.symm,
    congrArg e.resize hdata⟩
  show m.data.typeName ≠ ""
  rw [hdata]
  exact (hconsistent f hf).typed

/-- What a program that was loaded from a text holds, held values included, is finite. -/
theorem Engine.loaded_of_loadSnapshot {e : Engine} {s : Snapshot} {p : Program} (hs : s.Stored)
    (h : e.loadSnapshot s = .ok p) {n : Node} (hn : n ∈ p.nodes) :
    e.Loaded n ∧ ∀ x, n.data.heldValue = some x → x.isFinite = true := by
  obtain ⟨hknows, entry, hentry, hx, hy, hdata⟩ := (of_loadSnapshot h).2 n hn
  have hstored := hs entry hentry
  refine ⟨⟨hknows, ?_, ?_, ?_⟩, ?_⟩
  · rw [hx]
    exact hstored.finite_x
  · rw [hy]
    exact hstored.finite_y
  · rw [hdata]
    exact ⟨hstored.data.nodup, hstored.data.isProperty, hstored.data.fits⟩
  · rw [hdata]
    exact hstored.data.finite_held

/-- A node after a tick is the node before it, or it has recorded what the pass showed and held. -/
theorem Engine.mem_nodes_advance {e : Engine} {p : Program} {tick : String} {ctx : Context} {m : Node}
    (hm : m ∈ (e.advance p tick ctx).2.nodes) :
    m ∈ p.nodes ∨ ∃ outcome n x, p.evaluateAll ctx = .ok outcome ∧ n ∈ p.nodes ∧
      outcome.value? n.id = some x ∧
      m = { n with data := { n.data with
        tickEntries := m.data.tickEntries
        recentValues := e.sampled n.data.recentValues x
        heldValue := outcome.held? n.id } } := by
  cases hresult : (e.advance p tick ctx).1 with
  | error err =>
    rw [advance_of_error hresult] at hm
    exact .inl hm
  | ok outcome =>
    obtain ⟨hpass, entries, hnodes⟩ := nodes_of_advance hresult
    rw [hnodes] at hm
    obtain ⟨n, hn, rfl⟩ := List.mem_map.mp hm
    obtain ⟨x, hx⟩ := Program.exists_value?_of_evaluateAll hpass hn
    refine .inr ⟨outcome, n, x, hpass, hn, hx, ?_⟩
    rw [hx, Option.getD_some]
    rfl

/-- **What a loaded program keeps.** The nodes stay as they were loaded in all that a document needs,
whatever engines tick the program. -/
theorem Engine.loaded_of_ticksTo {e : Engine} {p q : Program} (h : Relation.ReflTransGen Program.TicksTo p q)
    (hp : ∀ n ∈ p.nodes, e.Loaded n) : ∀ n ∈ q.nodes, e.Loaded n := by
  induction h with
  | refl => exact hp
  | tail _ hstep ih =>
    obtain ⟨e', tick, ctx, rfl⟩ := hstep
    intro m hm
    rcases mem_nodes_advance hm with hold | ⟨outcome, n, x, -, hn, -, heq⟩
    · exact ih m hold
    · have hloaded := ih n hn
      rw [heq]
      exact ⟨⟨hloaded.typed, hloaded.resolves⟩, hloaded.finite_x, hloaded.finite_y,
        ⟨hloaded.writable.nodup, hloaded.writable.isProperty, hloaded.writable.fits⟩⟩

/-- The text of a program that was loaded from a text is read as what a document keeps of it. -/
theorem Engine.ofText_ofProgram {e : Engine} {p : Program} (h : ∀ n ∈ p.nodes, e.Loaded n) :
    Snapshot.ofText (Snapshot.ofProgram p).text = .ok (Snapshot.ofProgram p).stored := by
  refine Snapshot.ofText_text fun entry hentry => ?_
  obtain ⟨d, hd, rfl⟩ := List.mem_map.mp hentry
  obtain ⟨n, hn, rfl⟩ := List.mem_map.mp hd
  exact ⟨(h n hn).finite_x, (h n hn).finite_y, (h n hn).writable⟩

/-- **A program that was loaded from a text can be saved and loaded again.** What is loaded is the
program with every buffer resized, up to what a document cannot hold. -/
theorem Engine.reload {e : Engine} {p : Program} (h : ∀ n ∈ p.nodes, e.Loaded n) :
    ∃ s, Snapshot.ofText (Snapshot.ofProgram p).text = .ok s ∧
      e.loadSnapshot s = .ok (p.mapData fun n => e.resize n.data.stored) := by
  refine ⟨_, ofText_ofProgram h, ?_⟩
  rw [Snapshot.stored_ofProgram, Engine.loadSnapshot_ofProgram]
  · simp only [Program.mapData, List.map_map, Function.comp_def]
  · intro m hm
    obtain ⟨n, hn, rfl⟩ := List.mem_map.mp hm
    exact ⟨(h n hn).typed, (h n hn).resolves⟩

end Dataflow
