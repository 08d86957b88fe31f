import Dataflow.Diagram
import Dataflow.Proofs.Operands
import Dataflow.Proofs.Spelling
/-!
# Labels that tell nodes apart

A label is the base label of a node, with a number behind a hash sign when nodes before it have the
same one. The numbers keep nodes of one base label apart. They do not look at the other base labels,
so a node that is called as another one is numbered gets the label of that one. Main statement: this
is the only way in which two nodes come to share a label, and in a program without it every end of an
edge names one table of the diagram (`Program.labels_tell_apart`).
-/
set_option autoImplicit false

namespace Dataflow

/-! ## Numbered labels -/

theorem Digits.hash_notMem (n : Nat) : '#' ∉ ofNat n := by
  intro h
  exact absurd ((areDigits_ofNat n).isDigit '#' h) (by decide)

/-- A text with a number behind a hash sign is made of that text and that number only. -/
theorem numbered_injective {base base' : String} {i j : Nat}
    (h : base ++ "#" ++ Digits.text i = base' ++ "#" ++ Digits.text j) : base = base' ∧ i = j := by
  have hchars := congrArg String.toList h
  simp only [String.toList_append, Digits.text, String.toList_ofList, List.append_assoc] at hchars
  obtain ⟨hbase, hdigits⟩ :=
    append_cons_inj_of_notMem_right (Digits.hash_notMem i) (Digits.hash_notMem j) hchars
  refine ⟨String.toList_injective hbase, Digits.text_injective ?_⟩
  rw [Digits.text, hdigits, Digits.text]

namespace Program

/-- The label of a node whose base label `index` nodes before it have. -/
def numberedLabel (base : String) (index : Nat) : String :=
  if index = 0 then base else base ++ "#" ++ Digits.text index

/-- Each base label with the number of equal ones before it. -/
def ranks (earlier : List String) : List String → List (String × Nat)
  | [] => []
  | base :: rest => (base, earlier.count base) :: ranks (base :: earlier) rest

theorem labelsAfter_texts (earlier : List String) (nodes : List Node) :
    (labelsAfter earlier nodes).map (·.2)
      = (ranks earlier (nodes.map (·.baseLabel))).map fun r => numberedLabel r.1 r.2 := by
  induction nodes generalizing earlier with
  | nil => rfl
  | cons n rest ih =>
    rw [labelsAfter, List.map_cons, ih]
    rfl

/-- The nodes of one base label have the ranks from the number of earlier ones on. -/
theorem mem_ranks_iff {earlier bases : List String} {base : String} {index : Nat} :
    (base, index) ∈ ranks earlier bases ↔
      earlier.count base ≤ index ∧ index < earlier.count base + bases.count base := by
  induction bases generalizing earlier with
  | nil =>
    simp only [ranks, List.not_mem_nil, List.count_nil, false_iff]
    omega
  | cons b rest ih =>
    rw [ranks, List.mem_cons, ih, Prod.mk.injEq]
    by_cases hb : b = base
    · subst hb
      simp only [List.count_cons_self, true_and]
      omega
    · rw [List.count_cons_of_ne hb, List.count_cons_of_ne hb,
        or_iff_right fun h => hb h.1.symm]

theorem nodup_ranks (earlier bases : List String) : (ranks earlier bases).Nodup := by
  induction bases generalizing earlier with
  | nil => exact List.nodup_nil
  | cons b rest ih =>
    refine List.nodup_cons.mpr ⟨fun hmem => ?_, ih _⟩
    have hle := (mem_ranks_iff.mp hmem).1
    rw [List.count_cons_self] at hle
    omega

/-- No node is called as another one is numbered. -/
def NoLookalike (p : Program) : Prop :=
  ∀ n ∈ p.nodes, ∀ m ∈ p.nodes, ∀ index, 0 < index →
    index < (p.nodes.map (·.baseLabel)).count m.baseLabel →
    n.baseLabel ≠ m.baseLabel ++ "#" ++ Digits.text index

/-- **When labels are unique.** -/
theorem labels_nodup_iff (p : Program) : (p.labels.map (·.2)).Nodup ↔ p.NoLookalike := by
  rw [labels, labelsAfter_texts, List.nodup_map_iff_inj_on (nodup_ranks _ _)]
  constructor
  · intro hinj n hn m hm index hpos hlt heq
    have hfirst : (n.baseLabel, 0) ∈ ranks [] (p.nodes.map (·.baseLabel)) := by
      refine mem_ranks_iff.mpr ⟨Nat.le_refl 0, ?_⟩
      rw [List.count_nil, Nat.zero_add]
      exact List.count_pos_iff.mpr (List.mem_map_of_mem hn)
    have hlater : (m.baseLabel, index) ∈ ranks [] (p.nodes.map (·.baseLabel)) := by
      refine mem_ranks_iff.mpr ⟨Nat.zero_le index, ?_⟩
      rwa [List.count_nil, Nat.zero_add]
    have hsame : numberedLabel n.baseLabel 0 = numberedLabel m.baseLabel index := by
      rw [numberedLabel, if_pos rfl, numberedLabel, if_neg (Nat.ne_of_gt hpos), heq]
    have hindex := congrArg Prod.snd (hinj _ hfirst _ hlater hsame)
    exact absurd hindex (Nat.ne_of_lt hpos)
  · intro hno
    -- A base label that is shared by a numbered one of another node is the lookalike.
    have happart {base base' : String} {index : Nat}
        (hbase : (base, 0) ∈ ranks [] (p.nodes.map (·.baseLabel)))
        (hbase' : (base', index) ∈ ranks [] (p.nodes.map (·.baseLabel))) (hpos : 0 < index) :
        base ≠ base' ++ "#" ++ Digits.text index := by
      have hcount := (mem_ranks_iff.mp hbase).2
      have hcount' := (mem_ranks_iff.mp hbase').2
      rw [List.count_nil, Nat.zero_add] at hcount hcount'
      obtain ⟨n, hn, rfl⟩ := List.mem_map.mp (List.count_pos_iff.mp hcount)
      obtain ⟨m, hm, rfl⟩ := List.mem_map.mp (List.count_pos_iff.mp (Nat.zero_lt_of_lt hcount'))
      exact hno n hn m hm index hpos hcount'
    rintro ⟨base, i⟩ hbase ⟨base', j⟩ hbase' hsame
    simp only [numberedLabel] at hsame
    rcases Nat.eq_zero_or_pos i with rfl | hi <;> rcases Nat.eq_zero_or_pos j with rfl | hj
    · rw [if_pos rfl, if_pos rfl] at hsame
      rw [hsame]
    · rw [if_pos rfl, if_neg (Nat.ne_of_gt hj)] at hsame
      exact absurd hsame (happart hbase hbase' hj)
    · rw [if_neg (Nat.ne_of_gt hi), if_pos rfl] at hsame
      exact absurd hsame.symm (happart hbase' hbase hi)
    · rw [if_neg (Nat.ne_of_gt hi), if_neg (Nat.ne_of_gt hj)] at hsame
      obtain ⟨rfl, rfl⟩ := numbered_injective hsame
      rfl

end Program

/-! ## Names in the diagram -/

theorem escapeName_cons (c : Char) (s : List Char) :
    escapeName (c :: s) = (if c = '"' then ['\\', '"'] else [c]) ++ escapeName s := by
  rw [escapeName, replaceChar, List.flatMap_cons]
  rfl

theorem escapeName_cons_ne_nil (c : Char) (s : List Char) : escapeName (c :: s) ≠ [] := by
  rw [escapeName_cons]
  split <;> simp

/-- No escaped text starts with a quote. -/
theorem head?_escapeName (s : List Char) : (escapeName s).head? ≠ some '"' := by
  cases s with
  | nil => simp [escapeName, replaceChar]
  | cons c s =>
    rw [escapeName_cons]
    split
    · simp
    · next hc => simpa using hc

theorem escapeName_injective : Function.Injective escapeName := by
  intro s t h
  induction s generalizing t with
  | nil =>
    cases t with
    | nil => rfl
    | cons d t => exact absurd h.symm (escapeName_cons_ne_nil d t)
  | cons c s ih =>
    cases t with
    | nil => exact absurd h (escapeName_cons_ne_nil c s)
    | cons d t =>
      rw [escapeName_cons, escapeName_cons] at h
      by_cases hc : c = '"' <;> by_cases hd : d = '"'
      · rw [if_pos hc, if_pos hd] at h
        rw [hc, hd, ih (List.append_cancel_left h)]
      · rw [if_pos hc, if_neg hd] at h
        have htail : '"' :: escapeName s = escapeName t := (List.cons.inj h).2
        exact absurd (htail ▸ List.head?_cons) (head?_escapeName t)
      · rw [if_neg hc, if_pos hd] at h
        have htail : escapeName s = '"' :: escapeName t := (List.cons.inj h).2
        exact absurd (htail ▸ List.head?_cons) (head?_escapeName s)
      · rw [if_neg hc, if_neg hd] at h
        obtain ⟨rfl, htail⟩ := List.cons.inj h
        rw [ih htail]

theorem quotedName_injective : Function.Injective quotedName := by
  intro s t h
  have hchars := List.cons.inj (String.ofList_injective h)
  have hbody := List.append_cancel_right hchars.2
  exact String.toList_injective (escapeName_injective hbody)

/-- The names of the tables as they are written. -/
def Diagram.names (d : Diagram) : List String :=
  d.tables.map fun t => quotedName t.label

namespace Program

variable {p : Program}

theorem labelOf_of_mem {entry : String × String} (h : entry ∈ p.labels) :
    p.labelOf entry.1 = entry.2 := by
  have hids : (p.labels.map (·.1)).Nodup := by
    rw [labels, labelsAfter_ids]
    exact p.nodes_nodup
  rw [labelOf, (find?_eq_some_iff_of_nodup hids).mpr ⟨h, rfl⟩]
  rfl

/-- The tables are named by the labels of their nodes. -/
theorem names_diagram (p : Program) : p.diagram.names = (p.labels.map (·.2)).map quotedName := by
  have hids : p.nodes.map (·.id) = p.labels.map (·.1) := (labelsAfter_ids [] p.nodes).symm
  calc p.diagram.names
      = ((p.nodes.map (·.id)).map p.labelOf).map quotedName := by
        rw [Diagram.names, diagram, List.map_map, List.map_map, List.map_map]
        rfl
    _ = ((p.labels.map (·.1)).map p.labelOf).map quotedName := by rw [hids]
    _ = (p.labels.map (·.2)).map quotedName := by
        have htexts : (p.labels.map (·.1)).map p.labelOf = p.labels.map (·.2) := by
          rw [List.map_map]
          exact List.map_congr_left fun entry h => labelOf_of_mem h
        rw [htexts]

theorem mem_names_diagram {id : String} (h : p.hasNode id) :
    quotedName (p.labelOf id) ∈ p.diagram.names := by
  have hid : id ∈ p.labels.map (·.1) := by
    rw [labels, labelsAfter_ids]
    exact hasNode_iff_mem.mp h
  obtain ⟨entry, hentry, rfl⟩ := List.mem_map.mp hid
  rw [names_diagram, labelOf_of_mem hentry]
  exact List.mem_map_of_mem (List.mem_map_of_mem hentry)

theorem names_nodup_iff (p : Program) : p.diagram.names.Nodup ↔ p.NoLookalike := by
  rw [names_diagram, List.nodup_map_iff quotedName_injective, labels_nodup_iff]

/-- **What keeps labels apart.** Every node has a label. Labels are unique, and with them the names of
the tables, exactly when no node is called as another one is numbered; and then each end of an edge
that is at a node names one table. -/
theorem labels_tell_apart (p : Program) :
    p.labels.map (·.1) = p.nodes.map (·.id) ∧
    ((p.labels.map (·.2)).Nodup ↔ p.NoLookalike) ∧
    (p.diagram.names.Nodup ↔ p.NoLookalike) ∧
    (p.NoLookalike → ∀ c ∈ p.connections,
      (p.hasNode c.source → p.diagram.names.count (quotedName (p.edge c).source) = 1) ∧
      (p.hasNode c.target → p.diagram.names.count (quotedName (p.edge c).target) = 1)) := by
  refine ⟨labelsAfter_ids [] p.nodes, labels_nodup_iff p, names_nodup_iff p, ?_⟩
  intro hno c _
  have hnames := (names_nodup_iff p).mpr hno
  constructor
  · intro hsource
    exact List.count_eq_one_of_mem hnames (mem_names_diagram hsource)
  · intro htarget
    exact List.count_eq_one_of_mem hnames (mem_names_diagram htarget)

/-- Two sensors that are both called A and a third one of the given name, which feeds the second. -/
def namesakes (name : String) : Program where
  id := none
  nodes := [
    { NodeDefinition.ofType "a" "Sensor" |>.withDisplayName "A" with kind := .sensor },
    { NodeDefinition.ofType "b" "Sensor" |>.withDisplayName "A" with kind := .sensor },
    { NodeDefinition.ofType "c" "Sensor" |>.withDisplayName name with kind := .sensor }]
  connections := [⟨"1", "c", "value", "b", "value"⟩]
  recentTicks := []
  nodes_nodup := by
    show ["a", "b", "c"].Nodup
    decide
  connections_nodup := by decide

/-- Three names of which none looks like a number of another: the sensors have three labels, and both
ends of the edge name one table. -/
theorem namesakes_apart :
    (namesakes "B").NoLookalike ∧
    (namesakes "B").labels = [("a", "Sensor:A"), ("b", "Sensor:A#1"), ("c", "Sensor:B")] ∧
    ∀ c ∈ (namesakes "B").connections,
      (namesakes "B").diagram.names.count (quotedName ((namesakes "B").edge c).source) = 1 ∧
      (namesakes "B").diagram.names.count (quotedName ((namesakes "B").edge c).target) = 1 := by
  obtain ⟨-, hlabels, -, hends⟩ := labels_tell_apart (namesakes "B")
  have hno : (namesakes "B").NoLookalike := hlabels.mp (by decide)
  refine ⟨hno, rfl, fun c hc => ?_⟩
  have hnodes : (namesakes "B").hasNode c.source ∧ (namesakes "B").hasNode c.target := by
    obtain rfl := List.mem_singleton.mp hc
    decide
  exact ⟨(hends hno c hc).1 hnodes.1, (hends hno c hc).2 hnodes.2⟩

/-- A sensor that is called A#1 gets the label of the second sensor called A: the program is loaded, two
tables have one name, and both ends of the edge name both. -/
theorem namesakes_collide :
    ∃ p, ({} : Engine).load (namesakes "A#1").toDefinition = .ok p ∧
      p.labels = [("a", "Sensor:A"), ("b", "Sensor:A#1"), ("c", "Sensor:A#1")] ∧
      ¬ (p.labels.map (·.2)).Nodup ∧ ¬ p.diagram.names.Nodup ∧
      ∀ c ∈ p.connections, p.hasNode c.source ∧ p.hasNode c.target ∧
        p.diagram.names.count (quotedName (p.edge c).source) = 2 ∧
        p.diagram.names.count (quotedName (p.edge c).target) = 2 := by
  exact ⟨namesakes "A#1", by rfl, by rfl, by decide, by decide, by decide⟩

end Program

end Dataflow
