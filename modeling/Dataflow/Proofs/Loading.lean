import Dataflow.Proofs.Paths
import Dataflow.Proofs.Reload
/-!
# What an engine loads

A snapshot is loaded in three rounds: every entry is checked, then every node is added, then every
connection. An engine takes a snapshot exactly when each entry is consistent, each type has a kind and
no id is given twice; the program then has the entries in their order with all that they say, and its
look-ups find them. It refuses a snapshot for the first item that fails, in the first round that has
one. Main statement: `Engine.loadSnapshot_exact`.
-/
set_option autoImplicit false

namespace Dataflow

/-! ## Where a round stops -/

/-- A traversal fails at its first item that fails. -/
theorem mapM_eq_error_iff {ε α β : Type} {f : α → Except ε β} {l : List α} {err : ε} :
    l.mapM f = .error err ↔ ∃ before a after, l = before ++ a :: after ∧
      (∀ b ∈ before, ∃ v, f b = .ok v) ∧ f a = .error err := by
  induction l with
  | nil => simp [pure, Except.pure]
  | cons x rest ih =>
    rw [List.mapM_cons]
    cases hx : f x with
    | error err' =>
      constructor
      · intro h
        cases h
        exact ⟨[], x, rest, rfl, fun b hb => absurd hb List.not_mem_nil, hx⟩
      · rintro ⟨before, a, after, hsplit, hbefore, ha⟩
        rcases List.cons_eq_append_iff.mp hsplit with ⟨rfl, hcons⟩ | ⟨before, rfl, -⟩
        · cases hcons
          cases hx.symm.trans ha
          rfl
        · obtain ⟨v, hv⟩ := hbefore x List.mem_cons_self
          exact absurd (hx.symm.trans hv) (by simp)
    | ok y =>
      have hfail : ((do let b ← Except.ok y; let bs ← rest.mapM f; pure (b :: bs)) = Except.error err)
          ↔ rest.mapM f = .error err := by
        cases rest.mapM f <;> simp [bind, Except.bind, pure, Except.pure]
      rw [hfail, ih]
      constructor
      · rintro ⟨before, a, after, rfl, hbefore, ha⟩
        exact ⟨x :: before, a, after, rfl, List.forall_mem_cons.mpr ⟨⟨y, hx⟩, hbefore⟩, ha⟩
      · rintro ⟨before, a, after, hsplit, hbefore, ha⟩
        rcases List.cons_eq_append_iff.mp hsplit with ⟨rfl, hcons⟩ | ⟨before, rfl, rfl⟩
        · cases hcons
          exact absurd (hx.symm.trans ha) (by simp)
        · exact ⟨before, a, after, rfl, (List.forall_mem_cons.mp hbefore).2, ha⟩

/-- A fold fails at the first item that its state does not take. -/
theorem foldlM_eq_error_iff {ε σ α : Type} {f : σ → α → Except ε σ} {l : List α} {s : σ} {err : ε} :
    l.foldlM f s = .error err ↔ ∃ before a after t, l = before ++ a :: after ∧
      before.foldlM f s = .ok t ∧ f t a = .error err := by
  constructor
  · intro h
    induction l using List.reverseRecOn with
    | nil => exact absurd h (by simp [pure, Except.pure])
    | append_singleton l a ih =>
      cases hl : l.foldlM f s with
      | error err' =>
        rw [List.foldlM_append, hl] at h
        cases h
        obtain ⟨before, b, after, t, rfl, hbefore, hb⟩ := ih hl
        exact ⟨before, b, after ++ [a], t, by simp, hbefore, hb⟩
      | ok t =>
        have hlast : [a].foldlM f t = f t a := bind_pure _
        rw [List.foldlM_append, hl] at h
        exact ⟨l, a, [], t, rfl, hl, hlast.symm.trans h⟩
  · rintro ⟨before, a, after, t, rfl, hbefore, ha⟩
    rw [List.foldlM_append, hbefore]
    show (a :: after).foldlM f t = _
    rw [List.foldlM_cons, ha]
    rfl

/-! ## Checking the entries -/

theorem NodeEntry.define_eq_error_iff {key : String} {n : NodeEntry} {err : LoadError} :
    n.define key = .error err ↔
      (∃ id, n.id = some id ∧ id ≠ key ∧ err = .idMismatch key id) ∨
      ((n.id = none ∨ n.id = some key) ∧ n.data.typeName = "" ∧ err = .noType key) := by
  rw [define]
  by_cases hkey : n.id.getD key = key
  · have hnamed := getD_eq_iff.mp hkey
    have hother : ¬ ∃ id, n.id = some id ∧ id ≠ key ∧ err = .idMismatch key id := by
      rintro ⟨id, hid, hne, -⟩
      rw [hid] at hkey
      exact hne hkey
    rw [if_neg (not_not.mpr hkey), hkey, or_iff_right hother]
    by_cases htype : n.data.typeName = ""
    · simp [htype, hnamed, eq_comm]
    · simp [htype]
  · have hnamed : ¬ (n.id = none ∨ n.id = some key) := fun h => hkey (getD_eq_iff.mpr h)
    obtain ⟨id, hid⟩ := Option.ne_none_iff_exists'.mp fun h => hnamed (.inl h)
    rw [hid] at hkey
    rw [if_pos (by rwa [hid]), hid]
    simp only [Option.getD_some, ne_eq, Except.error.injEq]
    constructor
    · rintro rfl
      exact .inl ⟨id, rfl, hkey, rfl⟩
    · rintro (⟨_, heq, -, rfl⟩ | ⟨hor, -⟩)
      · cases heq
        rfl
      · exact absurd (hid ▸ hor) hnamed

theorem Snapshot.define_eq_error_iff {s : Snapshot} {err : LoadError} :
    s.define = .error err ↔ ∃ before f after, s.nodes = before ++ f :: after ∧
      (∀ b ∈ before, b.2.Consistent b.1) ∧ f.2.define f.1 = .error err := by
  have hconsistent (b : String × NodeEntry) :
      (∃ d, b.2.define b.1 = .ok d) ↔ b.2.Consistent b.1 := by
    simp only [NodeEntry.define_eq_ok_iff, exists_and_left, exists_eq, and_true]
  have hfail : s.define = .error err ↔ s.nodes.mapM (fun f => f.2.define f.1) = .error err := by
    unfold define
    split <;> simp_all
  rw [hfail, mapM_eq_error_iff]
  simp only [hconsistent]

/-! ## Adding the nodes and the connections -/

namespace Program

variable {catalog : Catalog} {p : Program}

theorem addNode_eq_error_iff {d : NodeDefinition} {err : LoadError} :
    addNode catalog p d = .error err ↔
      (catalog.resolve? d.data.typeName = none ∧ err = .unsupportedType d.id d.data.typeName) ∨
      ((catalog.resolve? d.data.typeName).isSome ∧ d.id ∈ p.nodes.map (·.id) ∧
        err = .duplicateNode d.id) := by
  unfold addNode
  cases catalog.resolve? d.data.typeName with
  | none => simp [eq_comm]
  | some kind =>
    by_cases hmem : d.id ∈ p.nodes.map (·.id)
    · simp only [dif_pos hmem]
      simp [hmem, eq_comm]
    · simp only [dif_neg hmem]
      simp [hmem]

theorem addConnection_eq_error_iff {c : Connection} {err : LoadError} :
    addConnection p c = .error err ↔
      c.id ∈ p.connections.map (·.id) ∧ err = .duplicateConnection c.id := by
  unfold addConnection
  by_cases hmem : c.id ∈ p.connections.map (·.id)
  · simp only [dif_pos hmem]
    simp [hmem, eq_comm]
  · simp only [dif_neg hmem]
    simp [hmem]

/-- Node definitions that can be added one after another. -/
structure Admits (catalog : Catalog) (ds : List NodeDefinition) : Prop where
  resolves : ∀ d ∈ ds, (catalog.resolve? d.data.typeName).isSome
  nodup : (ds.map (·.id)).Nodup

theorem exists_nodes {ds : List NodeDefinition}
    (h : ∀ d ∈ ds, (catalog.resolve? d.data.typeName).isSome) :
    ∃ nodes : List Node, nodes.map (·.toNodeDefinition) = ds ∧
      ∀ n ∈ nodes, catalog.resolve? n.data.typeName = some n.kind := by
  induction ds with
  | nil => exact ⟨[], rfl, fun n hn => absurd hn List.not_mem_nil⟩
  | cons d rest ih =>
    obtain ⟨hd, hrest⟩ := List.forall_mem_cons.mp h
    obtain ⟨kind, hkind⟩ := Option.isSome_iff_exists.mp hd
    obtain ⟨nodes, hnodes, hkinds⟩ := ih hrest
    exact ⟨⟨d, kind⟩ :: nodes, by rw [List.map_cons, hnodes],
      List.forall_mem_cons.mpr ⟨hkind, hkinds⟩⟩

/-- **Which definitions make a program.** -/
theorem exists_ofDefinition?_iff {d : Definition} :
    (∃ p, ofDefinition? catalog d = .ok p) ↔
      Admits catalog d.nodes ∧ (d.connections.map (·.id)).Nodup := by
  simp only [ofDefinition?_eq_ok_iff]
  constructor
  · rintro ⟨p, rfl, htyped⟩
    refine ⟨⟨fun d hd => ?_, ?_⟩, p.connections_nodup⟩
    · obtain ⟨n, hn, rfl⟩ := List.mem_map.mp hd
      rw [htyped n hn]
      rfl
    · rw [toDefinition, List.map_map]
      exact p.nodes_nodup
  · rintro ⟨hadmits, hconnections⟩
    obtain ⟨nodes, hnodes, hkinds⟩ := exists_nodes hadmits.resolves
    have hids : (nodes.map (·.id)).Nodup := by
      have h := hadmits.nodup
      rwa [← hnodes, List.map_map] at h
    exact ⟨⟨d.id, nodes, d.connections, d.recentTicks, hids, hconnections⟩,
      by rw [toDefinition, hnodes], hkinds⟩

theorem exists_foldlM_addNode_iff {id : Option String} {log : List String}
    {ds : List NodeDefinition} :
    (∃ p, ds.foldlM (addNode catalog) (blank id log) = .ok p) ↔ Admits catalog ds := by
  simp only [foldlM_addNode_eq_ok_iff, ← ofDefinition?_eq_ok_iff, exists_ofDefinition?_iff,
    List.map_nil, List.nodup_nil, and_true]

/-- What a node is refused for after the nodes `before`: its type is looked up first. -/
def RefusesNode (catalog : Catalog) (before : List NodeDefinition) (d : NodeDefinition)
    (err : LoadError) : Prop :=
  (catalog.resolve? d.data.typeName = none ∧ err = .unsupportedType d.id d.data.typeName) ∨
  ((catalog.resolve? d.data.typeName).isSome ∧ d.id ∈ before.map (·.id) ∧ err = .duplicateNode d.id)

theorem foldlM_addNode_eq_error_iff {id : Option String} {log : List String}
    {ds : List NodeDefinition} {err : LoadError} :
    ds.foldlM (addNode catalog) (blank id log) = .error err ↔
      ∃ before d after, ds = before ++ d :: after ∧ Admits catalog before ∧
        RefusesNode catalog before d err := by
  have hids {before : List NodeDefinition} {t : Program}
      (ht : before.foldlM (addNode catalog) (blank id log) = .ok t) :
      t.nodes.map (·.id) = before.map (·.id) := by
    have hdef := (foldlM_addNode_eq_ok_iff.mp ht).1
    have hnodes : t.nodes.map (·.toNodeDefinition) = before := congrArg (·.nodes) hdef
    rw [← hnodes, List.map_map]
    rfl
  rw [foldlM_eq_error_iff]
  constructor
  · rintro ⟨before, d, after, t, hsplit, ht, hd⟩
    rw [addNode_eq_error_iff, hids ht] at hd
    exact ⟨before, d, after, hsplit, exists_foldlM_addNode_iff.mp ⟨t, ht⟩, hd⟩
  · rintro ⟨before, d, after, hsplit, hbefore, hd⟩
    obtain ⟨t, ht⟩ := exists_foldlM_addNode_iff.mpr hbefore
    refine ⟨before, d, after, t, hsplit, ht, ?_⟩
    rw [addNode_eq_error_iff, hids ht]
    exact hd

theorem foldlM_addConnection_eq_error_iff (hnone : p.connections = [])
    {connections : List Connection} {err : LoadError} :
    connections.foldlM addConnection p = .error err ↔
      ∃ before c after, connections = before ++ c :: after ∧ (before.map (·.id)).Nodup ∧
        c.id ∈ before.map (·.id) ∧ err = .duplicateConnection c.id := by
  rw [foldlM_eq_error_iff]
  constructor
  · rintro ⟨before, c, after, t, hsplit, ht, hc⟩
    obtain ⟨hids, rfl⟩ := foldlM_addConnection_eq_ok_iff.mp ht
    obtain ⟨hmem, rfl⟩ := addConnection_eq_error_iff.mp hc
    simp only [hnone, List.nil_append] at hids hmem
    exact ⟨before, c, after, hsplit, hids, hmem, rfl⟩
  · rintro ⟨before, c, after, hsplit, hids, hmem, rfl⟩
    have hids' : ((p.connections ++ before).map (·.id)).Nodup := by
      rwa [hnone, List.nil_append]
    refine ⟨before, c, after, _, hsplit, foldlM_addConnection_eq_ok_iff.mpr ⟨hids', rfl⟩, ?_⟩
    refine addConnection_eq_error_iff.mpr ⟨?_, rfl⟩
    simpa only [hnone, List.nil_append] using hmem

theorem ofDefinition?_eq_error_iff {d : Definition} {err : LoadError} :
    ofDefinition? catalog d = .error err ↔
      (∃ before n after, d.nodes = before ++ n :: after ∧ Admits catalog before ∧
        RefusesNode catalog before n err) ∨
      (Admits catalog d.nodes ∧ ∃ before c after, d.connections = before ++ c :: after ∧
        (before.map (·.id)).Nodup ∧ c.id ∈ before.map (·.id) ∧
        err = .duplicateConnection c.id) := by
  have hround : d.nodes.foldlM (addNode catalog) (blank d.id d.recentTicks) = .error err ↔ _ :=
    foldlM_addNode_eq_error_iff
  have hadmits : (∃ p, d.nodes.foldlM (addNode catalog) (blank d.id d.recentTicks) = .ok p) ↔ _ :=
    exists_foldlM_addNode_iff
  rw [← hround, ← hadmits]
  unfold ofDefinition?
  cases hnodes : d.nodes.foldlM (addNode catalog) (blank d.id d.recentTicks) with
  | error err' => simp
  | ok t =>
    have hnone : t.connections = [] := congrArg (·.connections) (foldlM_addNode_eq_ok_iff.mp hnodes).1
    simp [foldlM_addConnection_eq_error_iff hnone]

end Program

/-! ## Which snapshots are refused -/

namespace Snapshot

/-- Entries whose nodes can be added one after another: every type has a kind, no key is given
twice. -/
structure Admitted (catalog : Catalog) (entries : List (String × NodeEntry)) : Prop where
  resolves : ∀ f ∈ entries, (catalog.resolve? f.2.data.typeName).isSome
  nodup : (entries.map (·.1)).Nodup

theorem admits_filed_iff {catalog : Catalog} {entries : List (String × NodeEntry)} :
    Program.Admits catalog (entries.map fun f => f.2.filed f.1) ↔ Admitted catalog entries := by
  have hids : (entries.map fun f => f.2.filed f.1).map (·.id) = entries.map (·.1) := by
    rw [List.map_map]
    rfl
  constructor
  · intro h
    exact ⟨List.forall_mem_map.mp h.resolves, hids ▸ h.nodup⟩
  · intro h
    exact ⟨List.forall_mem_map.mpr h.resolves, hids ▸ h.nodup⟩

/-- A snapshot that holds a program. -/
structure Loadable (catalog : Catalog) (s : Snapshot) : Prop where
  consistent : ∀ f ∈ s.nodes, f.2.Consistent f.1
  admitted : Admitted catalog s.nodes
  connections_nodup : (s.connections.map fun f => f.2.id.getD f.1).Nodup

/-- What a snapshot is refused for. The item at fault comes after items that are sound, and a later
round is reached only when the rounds before it have found nothing. -/
inductive Fault (catalog : Catalog) (s : Snapshot) : LoadError → Prop where
  | idMismatch {before after : List (String × NodeEntry)} {key id : String} {n : NodeEntry}
      (split : s.nodes = before ++ (key, n) :: after)
      (sound : ∀ f ∈ before, f.2.Consistent f.1)
      (declared : n.id = some id) (other : id ≠ key) :
      Fault catalog s (.idMismatch key id)
  | noType {before after : List (String × NodeEntry)} {key : String} {n : NodeEntry}
      (split : s.nodes = before ++ (key, n) :: after)
      (sound : ∀ f ∈ before, f.2.Consistent f.1)
      (named : n.id = none ∨ n.id = some key) (untyped : n.data.typeName = "") :
      Fault catalog s (.noType key)
  | unsupportedType {before after : List (String × NodeEntry)} {key : String} {n : NodeEntry}
      (consistent : ∀ f ∈ s.nodes, f.2.Consistent f.1)
      (split : s.nodes = before ++ (key, n) :: after) (sound : Admitted catalog before)
      (unknown : catalog.resolve? n.data.typeName = none) :
      Fault catalog s (.unsupportedType key n.data.typeName)
  | duplicateNode {before after : List (String × NodeEntry)} {key : String} {n : NodeEntry}
      (consistent : ∀ f ∈ s.nodes, f.2.Consistent f.1)
      (split : s.nodes = before ++ (key, n) :: after) (sound : Admitted catalog before)
      (resolves : (catalog.resolve? n.data.typeName).isSome)
      (repeated : key ∈ before.map (·.1)) :
      Fault catalog s (.duplicateNode key)
  | duplicateConnection {before after : List (String × ConnectionEntry)} {key : String}
      {c : ConnectionEntry}
      (consistent : ∀ f ∈ s.nodes, f.2.Consistent f.1) (admitted : Admitted catalog s.nodes)
      (split : s.connections = before ++ (key, c) :: after)
      (sound : (before.map fun f => f.2.id.getD f.1).Nodup)
      (repeated : c.id.getD key ∈ before.map fun f => f.2.id.getD f.1) :
      Fault catalog s (.duplicateConnection (c.id.getD key))

end Snapshot

namespace Engine

variable {e : Engine} {s : Snapshot}

/-- **Which snapshots an engine loads.** -/
theorem exists_loadSnapshot_iff : (∃ p, e.loadSnapshot s = .ok p) ↔ s.Loadable e.catalog := by
  have hdef : (∃ p, Program.ofDefinition? e.catalog s.definition = .ok p) ↔ _ :=
    Program.exists_ofDefinition?_iff
  simp only [Program.ofDefinition?_eq_ok_iff] at hdef
  have hadmits : Program.Admits e.catalog s.definition.nodes ↔
      Snapshot.Admitted e.catalog s.nodes :=
    Snapshot.admits_filed_iff
  have hids : s.definition.connections.map (·.id) = s.connections.map fun f => f.2.id.getD f.1 := by
    rw [Snapshot.definition, List.map_map]
    rfl
  rw [hadmits, hids] at hdef
  constructor
  · rintro ⟨p, hp⟩
    obtain ⟨hconsistent, q, hq, htyped, -⟩ := loadSnapshot_eq_ok_iff.mp hp
    obtain ⟨hadmitted, hconnections⟩ := hdef.mp ⟨q, hq, htyped⟩
    exact ⟨hconsistent, hadmitted, hconnections⟩
  · rintro ⟨hconsistent, hadmitted, hconnections⟩
    obtain ⟨q, hq, htyped⟩ := hdef.mpr ⟨hadmitted, hconnections⟩
    exact ⟨_, loadSnapshot_eq_ok_iff.mpr ⟨hconsistent, q, hq, htyped, rfl⟩⟩

theorem loadSnapshot_eq_error_iff_rounds {err : LoadError} :
    e.loadSnapshot s = .error err ↔ s.define = .error err ∨
      ((∀ f ∈ s.nodes, f.2.Consistent f.1) ∧
        Program.ofDefinition? e.catalog s.definition = .error err) := by
  unfold loadSnapshot
  cases hdefine : s.define with
  | error err' =>
    have hnone : ¬ ∀ f ∈ s.nodes, f.2.Consistent f.1 := by
      intro h
      rw [Snapshot.define_eq_ok_iff.mpr ⟨h, rfl⟩] at hdefine
      exact absurd hdefine (by simp)
    rw [or_iff_left fun h => hnone (And.left h)]
    simp only [Except.error.injEq]
  | ok d =>
    obtain ⟨hconsistent, rfl⟩ := Snapshot.define_eq_ok_iff.mp hdefine
    rw [or_iff_right (by simp), and_iff_right hconsistent]
    show e.load s.definition = _ ↔ _
    unfold load
    cases Program.ofDefinition? e.catalog s.definition with
    | error err' => simp
    | ok q => simp

/-- **What an engine refuses a snapshot for.** -/
theorem loadSnapshot_eq_error_iff {err : LoadError} :
    e.loadSnapshot s = .error err ↔ s.Fault e.catalog err := by
  rw [loadSnapshot_eq_error_iff_rounds, Snapshot.define_eq_error_iff,
    Program.ofDefinition?_eq_error_iff]
  constructor
  · rintro (⟨before, ⟨key, n⟩, after, hsplit, hsound, hn⟩ | ⟨hconsistent, hround⟩)
    · rcases NodeEntry.define_eq_error_iff.mp hn with
        ⟨id, hid, hother, rfl⟩ | ⟨hnamed, htype, rfl⟩
      · exact .idMismatch hsplit hsound hid hother
      · exact .noType hsplit hsound hnamed htype
    · rcases hround with
        ⟨before, d, after, hsplit, hsound, hd⟩ | ⟨hadmitted, before, c, after, hsplit, hids, hc, rfl⟩
      · obtain ⟨pre, ⟨key, n⟩, post, hnodes, rfl, rfl⟩ := exists_split_of_map hsplit
        have hpre := Snapshot.admits_filed_iff.mp hsound
        rcases hd with ⟨hnone, rfl⟩ | ⟨hkind, hmem, rfl⟩
        · exact .unsupportedType hconsistent hnodes hpre hnone
        · rw [List.map_map] at hmem
          exact .duplicateNode hconsistent hnodes hpre hkind hmem
      · obtain ⟨pre, ⟨key, c⟩, post, hconnections, rfl, rfl⟩ := exists_split_of_map hsplit
        rw [List.map_map] at hids hc
        exact .duplicateConnection hconsistent (Snapshot.admits_filed_iff.mp hadmitted)
          hconnections hids hc
  · intro h
    cases h with
    | @idMismatch before after key id n hsplit hsound hid hother =>
      exact .inl ⟨before, (key, n), after, hsplit, hsound,
        NodeEntry.define_eq_error_iff.mpr (.inl ⟨id, hid, hother, rfl⟩)⟩
    | @noType before after key n hsplit hsound hnamed htype =>
      exact .inl ⟨before, (key, n), after, hsplit, hsound,
        NodeEntry.define_eq_error_iff.mpr (.inr ⟨hnamed, htype, rfl⟩)⟩
    | @unsupportedType before after key n hconsistent hsplit hsound hnone =>
      refine .inr ⟨hconsistent, .inl ⟨before.map fun f => f.2.filed f.1, n.filed key,
        after.map fun f => f.2.filed f.1, ?_, Snapshot.admits_filed_iff.mpr hsound,
        .inl ⟨hnone, rfl⟩⟩⟩
      rw [Snapshot.definition, hsplit, List.map_append, List.map_cons]
    | @duplicateNode before after key n hconsistent hsplit hsound hkind hmem =>
      refine .inr ⟨hconsistent, .inl ⟨before.map fun f => f.2.filed f.1, n.filed key,
        after.map fun f => f.2.filed f.1, ?_, Snapshot.admits_filed_iff.mpr hsound,
        .inr ⟨hkind, ?_, rfl⟩⟩⟩
      · rw [Snapshot.definition, hsplit, List.map_append, List.map_cons]
      · rw [List.map_map]
        exact hmem
    | @duplicateConnection before after key c hconsistent hadmitted hsplit hids hmem =>
      refine .inr ⟨hconsistent, .inr ⟨Snapshot.admits_filed_iff.mpr hadmitted,
        before.map fun f => f.2.define f.1, c.define key, after.map fun f => f.2.define f.1,
        ?_, ?_, ?_, rfl⟩⟩
      · rw [Snapshot.definition, hsplit, List.map_append, List.map_cons]
      · rw [List.map_map]
        exact hids
      · rw [List.map_map]
        exact hmem

/-! ## What a loaded program holds -/

/-- A node as the engine loads it from an entry: all that the entry says, the kind of its type, and of
its samples the newest ones. -/
structure Carries (e : Engine) (f : String × NodeEntry) (n : Node) : Prop where
  id : n.id = f.1
  name : n.name = f.2.name
  x : n.x = f.2.x
  y : n.y = f.2.y
  kind : e.catalog.resolve? f.2.data.typeName = some n.kind
  data : n.data = { f.2.data with recentValues := n.data.recentValues }
  samples : n.data.recentValues.samples = f.2.data.recentValues.samples.rtake e.maxNodeValues
  capacity : n.data.recentValues.capacity = e.maxNodeValues

/-- The program that is loaded from a snapshot: entry for entry and in the same order, nothing left
out. -/
structure LoadedFrom (e : Engine) (s : Snapshot) (p : Program) : Prop where
  id : p.id = s.id
  log : p.recentTicks = s.recentTicks
  nodes : List.Forall₂ e.Carries s.nodes p.nodes
  connections : p.connections = s.connections.map fun f =>
    ⟨f.2.id.getD f.1, f.2.source, f.2.sourceOutput, f.2.target, f.2.targetInput⟩

theorem carries_resize {f : String × NodeEntry} {n : Node} (hn : n.toNodeDefinition = f.2.filed f.1)
    (hkind : e.catalog.resolve? n.data.typeName = some n.kind) :
    e.Carries f { n with data := e.resize n.data } := by
  obtain ⟨d, kind⟩ := n
  obtain rfl : d = f.2.filed f.1 := hn
  have hcapacity : max e.maxNodeValues 1 = e.maxNodeValues := Nat.max_eq_left e.maxNodeValues_pos
  exact {
    id := rfl, name := rfl, x := rfl, y := rfl, kind := hkind, data := rfl
    samples := congrArg
      (fun c => f.2.data.recentValues.samples.drop (f.2.data.recentValues.samples.length - c))
      hcapacity
    capacity := hcapacity }

theorem loadedFrom_of_loadSnapshot {p : Program} (h : e.loadSnapshot s = .ok p) :
    e.LoadedFrom s p := by
  obtain ⟨-, q, hdef, htyped, rfl⟩ := loadSnapshot_eq_ok_iff.mp h
  simp only [Program.toDefinition, Snapshot.definition, Definition.mk.injEq] at hdef
  obtain ⟨hid, hnodes, hconnections, hlog⟩ := hdef
  refine ⟨hid, hlog, ?_, hconnections⟩
  rw [← List.forall₂_eq_eq_eq, List.forall₂_map_left_iff, List.forall₂_map_right_iff] at hnodes
  have hfiled := ((List.forall₂_and_left q.nodes s.nodes).mpr ⟨htyped, hnodes⟩).flip
  refine List.forall₂_map_right_iff.mpr (hfiled.imp fun f n h => ?_)
  exact carries_resize h.2 h.1

end Engine

/-! ## Finding what was loaded

A look-up goes through a table, or through an index that is filled row by row as the table is. Both find
the one row that has the id. -/

section Index

variable {α : Type} {id : α → String} {rows : List α} {key : String}

/-- The index of a table: the place of each row is entered under its id, in the order of the rows. -/
def rowIndex (id : α → String) (rows : List α) : Std.ExtTreeMap String Nat compare :=
  rows.zipIdx.foldl (fun index row => index.insert (id row.1) row.2) ∅

theorem rowIndex_concat (a : α) :
    rowIndex id (rows ++ [a]) = (rowIndex id rows).insert (id a) rows.length := by
  rw [rowIndex, List.zipIdx_append, List.foldl_append]
  simp [rowIndex]

/-- The index agrees with the table when no two rows share an id. -/
theorem rowIndex_eq_some_iff (h : (rows.map id).Nodup) {i : Nat} :
    (rowIndex id rows)[key]? = some i ↔ ∃ a, rows[i]? = some a ∧ id a = key := by
  induction rows using List.reverseRecOn with
  | nil => simp [rowIndex]
  | append_singleton rows a ih =>
    have hnew := not_mem_of_nodup_concat h
    have hold := nodup_of_nodup_append h
    simp only [rowIndex_concat, Std.ExtTreeMap.getElem?_insert, getElem?_concat_eq_some_iff]
    by_cases hkey : id a = key
    · subst hkey
      rw [if_pos (by simp), Option.some_inj]
      constructor
      · rintro rfl
        exact ⟨a, .inr ⟨rfl, rfl⟩, rfl⟩
      · rintro ⟨b, hb | ⟨hi, -⟩, hid⟩
        · exact absurd (List.mem_map.mpr ⟨b, List.mem_of_getElem? hb, hid⟩) hnew
        · exact hi.symm
    · rw [if_neg (by simpa using hkey), ih hold]
      constructor
      · rintro ⟨b, hb, hid⟩
        exact ⟨b, .inl hb, hid⟩
      · rintro ⟨b, hb | ⟨-, rfl⟩, hid⟩
        · exact ⟨b, hb, hid⟩
        · exact absurd hid hkey

theorem find?_eq_rowIndex (h : (rows.map id).Nodup) :
    rows.find? (id · == key) = (rowIndex id rows)[key]?.bind (rows[·]?) := by
  ext a
  rw [find?_eq_some_iff_of_nodup h, Option.bind_eq_some_iff]
  simp only [rowIndex_eq_some_iff h]
  constructor
  · rintro ⟨ha, hid⟩
    obtain ⟨i, hi⟩ := List.mem_iff_getElem?.mp ha
    exact ⟨i, ⟨a, hi, hid⟩, hi⟩
  · rintro ⟨i, ⟨b, hb, hid⟩, ha⟩
    obtain rfl : b = a := Option.some_inj.mp (hb.symm.trans ha)
    exact ⟨List.mem_of_getElem? ha, hid⟩

end Index

/-- The look-ups of a program find exactly the row with an id, and so do the indices of its tables. -/
structure Program.LooksUp (p : Program) : Prop where
  node : ∀ id n, p.node? id = some n ↔ n ∈ p.nodes ∧ n.id = id
  hasNode : ∀ id, p.hasNode id ↔ ∃ n ∈ p.nodes, n.id = id
  connection : ∀ id c, p.connection? id = some c ↔ c ∈ p.connections ∧ c.id = id
  nodeIndex : ∀ id, p.node? id = (rowIndex (·.id) p.nodes)[id]?.bind (p.nodes[·]?)
  connectionIndex : ∀ id,
    p.connection? id = (rowIndex (·.id) p.connections)[id]?.bind (p.connections[·]?)

theorem Program.looksUp (p : Program) : p.LooksUp where
  node _ _ := find?_eq_some_iff_of_nodup p.nodes_nodup
  hasNode _ := hasNode_iff_mem.trans List.mem_map
  connection _ _ := find?_eq_some_iff_of_nodup p.connections_nodup
  nodeIndex _ := find?_eq_rowIndex p.nodes_nodup
  connectionIndex _ := find?_eq_rowIndex p.connections_nodup

/-! ## Loading again -/

theorem RecentValues.setCapacity_setCapacity (r : RecentValues) (capacity : Nat) :
    (r.setCapacity capacity).setCapacity capacity = r.setCapacity capacity := by
  have hlength := (r.setCapacity capacity).length_le
  have hfits : (r.setCapacity capacity).samples.length - max capacity 1 = 0 :=
    Nat.sub_eq_zero_of_le hlength
  rw [setCapacity, RecentValues.mk.injEq, hfits, List.drop_zero]
  exact ⟨rfl, rfl⟩

theorem Program.mapData_eq_self {p : Program} {f : Node → NodeData}
    (h : ∀ n ∈ p.nodes, f n = n.data) : p.mapData f = p := by
  have hnodes : p.nodes.map (fun n => { n with data := f n }) = p.nodes := by
    refine (List.map_congr_left fun n hn => ?_).trans (List.map_id _)
    rw [h n hn]
    rfl
  obtain ⟨_, _, _, _, _, _⟩ := p
  simp only [mapData, hnodes]

namespace Engine

variable {e : Engine} {s : Snapshot} {p : Program}

/-- The engine that loaded a program loads its snapshot as the same program. -/
theorem loadSnapshot_ofProgram_of_loadSnapshot (h : e.loadSnapshot s = .ok p) :
    e.loadSnapshot (Snapshot.ofProgram p) = .ok p := by
  have hnodes := (of_loadSnapshot h).2
  rw [loadSnapshot_ofProgram fun n hn => (hnodes n hn).1]
  refine congrArg Except.ok (Program.mapData_eq_self fun n hn => ?_)
  obtain ⟨-, f, -, -, -, hdata⟩ := hnodes n hn
  rw [hdata]
  simp only [resize, RecentValues.setCapacity_setCapacity]

/-- **Loading loses nothing and takes exactly the sound snapshots.** A snapshot is loaded if and only
if it is sound. The program then has its entries in their order with all that they say, its look-ups
find exactly them, and it is loaded again from its own snapshot as it is. Otherwise the snapshot is
refused for the first item at fault. -/
theorem loadSnapshot_exact (e : Engine) (s : Snapshot) :
    ((∃ p, e.loadSnapshot s = .ok p) ↔ s.Loadable e.catalog) ∧
    (∀ p, e.loadSnapshot s = .ok p →
      e.LoadedFrom s p ∧ p.LooksUp ∧ e.loadSnapshot (Snapshot.ofProgram p) = .ok p) ∧
    ∀ err, e.loadSnapshot s = .error err ↔ s.Fault e.catalog err :=
  ⟨exists_loadSnapshot_iff,
    fun p hp => ⟨loadedFrom_of_loadSnapshot hp, p.looksUp, loadSnapshot_ofProgram_of_loadSnapshot hp⟩,
    fun _ => loadSnapshot_eq_error_iff⟩

end Engine

/-- A number with three samples that feeds a sensor; its second connection has no id of its own. -/
def Snapshot.wired : Snapshot where
  nodes := [
    ("n", { data := { typeName := "Number", recentValues := .ofList [1.0, 2.0, 3.0] } }),
    ("s", { id := some "s", data := { typeName := "Sensor" } })]
  connections := [
    ("1", ⟨some "c", "n", "value", "s", "value"⟩),
    ("2", ⟨none, "s", "value", "n", "value"⟩)]

/-- The same snapshot with its number filed once more and after it a node without a type. Entries are
checked before nodes are added, so the type is what it is refused for. -/
def Snapshot.rewired : Snapshot :=
  { Snapshot.wired with
    nodes := Snapshot.wired.nodes ++ [("n", { data := { typeName := "Number" } }), ("t", {})] }

/-- An engine with room for two samples loads the one and refuses the other. -/
theorem Engine.wired_loads :
    let e := ({} : Engine).withMaxNodeValues 2
    (∃ p, e.loadSnapshot .wired = .ok p ∧ e.LoadedFrom .wired p ∧ p.LooksUp ∧
      e.loadSnapshot (Snapshot.ofProgram p) = .ok p) ∧
    e.loadSnapshot .rewired = .error (.noType "t") := by
  intro e
  have hwired : ∀ f ∈ Snapshot.wired.nodes,
      f.2.Consistent f.1 ∧ (e.catalog.resolve? f.2.data.typeName).isSome := by
    intro f hf
    simp only [Snapshot.wired, List.mem_cons, List.not_mem_nil, or_false] at hf
    rcases hf with rfl | rfl
    · exact ⟨⟨.inl rfl, by decide⟩, rfl⟩
    · exact ⟨⟨.inr rfl, by decide⟩, rfl⟩
  constructor
  · obtain ⟨p, hp⟩ := (loadSnapshot_exact e .wired).1.mpr
      ⟨fun f hf => (hwired f hf).1, ⟨fun f hf => (hwired f hf).2, by decide⟩, by decide⟩
    exact ⟨p, hp, (loadSnapshot_exact e .wired).2.1 p hp⟩
  · have hsound : ∀ f ∈ Snapshot.wired.nodes ++ [("n", { data := { typeName := "Number" } })],
        f.2.Consistent f.1 := by
      intro f hf
      rcases List.mem_append.mp hf with hold | hnew
      · exact (hwired f hold).1
      · obtain rfl := List.mem_singleton.mp hnew
        exact ⟨.inl rfl, by decide⟩
    have hsplit : Snapshot.rewired.nodes
        = (Snapshot.wired.nodes ++ [("n", { data := { typeName := "Number" } })])
          ++ [("t", NodeEntry.mk none "" 0.0 0.0 {})] := by
      rw [List.append_assoc]
      rfl
    exact ((loadSnapshot_exact e .rewired).2.2 _).mpr (.noType hsplit hsound (.inl rfl) rfl)

end Dataflow
