import Mathlib.Logic.Relation
import Dataflow.Eval.Order
/-!
# Paths between nodes

What it means, apart from any search, that one node feeds another: `Program.Feeds` is a single
connection between two nodes that exist, and `Program.Supplies` a path of any length. A selection
of nodes without a directed cycle is `Program.AcyclicOn`.

Main statement: the search that works backward in rounds finds exactly the suppliers
(`mem_suppliers_iff`). Two inductions on the number of rounds carry it. The one for soundness says
that what a round finds has a path to the front; the one for completeness says that what is found
is closed under going back one connection, and it needs as many rounds as there are unseen nodes.
-/
set_option autoImplicit false

namespace Dataflow.Program

/-! ## Relations on ids -/

/-- A connection leads from the node `a` to the node `b`. -/
def Feeds (p : Program) (a b : String) : Prop :=
  p.hasNode a ∧ p.hasNode b ∧ ∃ c ∈ p.connections, c.source = a ∧ c.target = b

/-- The node `a` is `t` or feeds it, directly or through others. -/
def Supplies (p : Program) (a t : String) : Prop :=
  p.hasNode a ∧ Relation.ReflTransGen p.Feeds a t

/-- `Feeds` between two nodes of a selection. -/
def FeedsWithin (p : Program) (S : String → Prop) (a b : String) : Prop :=
  S a ∧ S b ∧ p.Feeds a b

/-- No directed cycle of selected nodes exists. -/
def AcyclicOn (p : Program) (S : String → Prop) : Prop :=
  ∀ a, ¬ Relation.TransGen (p.FeedsWithin S) a a

/-- The selection holds with a node everything that feeds it. -/
def FeedClosed (p : Program) (S : String → Prop) : Prop :=
  ∀ a b, p.Feeds a b → S b → S a

theorem hasNode_iff_mem {p : Program} {id : String} :
    p.hasNode id ↔ id ∈ p.nodes.map (·.id) := by
  simp [hasNode]

/-- The source of a connection into a node feeds it as soon as it exists. -/
theorem feeds_of_mem_connections {p : Program} {c : Connection} (hc : c ∈ p.connections)
    (hs : p.hasNode c.source) (ht : p.hasNode c.target) : p.Feeds c.source c.target :=
  ⟨hs, ht, c, hc, rfl, rfl⟩

theorem Supplies.head {p : Program} {a b t : String} (h : p.Feeds a b) (hb : p.Supplies b t) :
    p.Supplies a t :=
  ⟨h.1, .head h hb.2⟩

/-- A path ends at an existing node: it has no connection, or its last one leads there. -/
theorem Supplies.hasNode_target {p : Program} {a t : String} (h : p.Supplies a t) :
    p.hasNode t := by
  obtain ⟨ha, hpath⟩ := h
  rcases Relation.ReflTransGen.cases_tail hpath with rfl | ⟨b, -, hbt⟩
  · exact ha
  · exact hbt.2.1

theorem feedClosed_supplies (p : Program) (t : String) : p.FeedClosed (p.Supplies · t) :=
  fun _ _ hab hb => hb.head hab

theorem feedClosed_hasNode (p : Program) : p.FeedClosed (p.hasNode ·) :=
  fun _ _ hab _ => hab.1

/-! ## One round -/

theorem mem_feeding {p : Program} {unseen front : List String} {a : String} :
    a ∈ p.feeding unseen front ↔
      a ∈ unseen ∧ ∃ c ∈ p.connections, c.source = a ∧ c.target ∈ front := by
  simp [feeding]

/-! ## All rounds -/

/-- Whatever the rounds find was unseen and has a path to the front. -/
theorem mem_reaching_sound {p : Program} {rounds : Nat} {unseen front : List String} {a : String}
    (hunseen : ∀ u ∈ unseen, p.hasNode u) (hfront : ∀ f ∈ front, p.hasNode f)
    (h : a ∈ p.reaching rounds unseen front) :
    a ∈ unseen ∧ ∃ f ∈ front, Relation.ReflTransGen p.Feeds a f := by
  induction rounds generalizing unseen front with
  | zero => simp [reaching] at h
  | succ rounds ih =>
    have hone : ∀ x ∈ p.feeding unseen front, ∃ f ∈ front, p.Feeds x f := by
      intro x hx
      obtain ⟨hxu, c, hc, rfl, hct⟩ := mem_feeding.mp hx
      exact ⟨c.target, hct, feeds_of_mem_connections hc (hunseen _ hxu) (hfront _ hct)⟩
    simp only [reaching] at h
    split at h
    · simp at h
    · rcases List.mem_append.mp h with hfound | hrest
      · obtain ⟨f, hf, hfeeds⟩ := hone a hfound
        exact ⟨(mem_feeding.mp hfound).1, f, hf, .single hfeeds⟩
      · obtain ⟨hmem, x, hx, hpath⟩ := ih
          (fun u hu => hunseen u (List.mem_filter.mp hu).1)
          (fun f hf => hunseen f (mem_feeding.mp hf).1) hrest
        obtain ⟨f, hf, hfeeds⟩ := hone x hx
        exact ⟨(List.mem_filter.mp hmem).1, f, hf, hpath.tail hfeeds⟩

/-- With a round for every unseen node nothing is missed: an unseen node that feeds the front, or
something that was found, is found itself. -/
theorem mem_reaching_of_feeds {p : Program} {rounds : Nat} {unseen front : List String}
    {a b : String} (hrounds : unseen.length ≤ rounds) (ha : a ∈ unseen) (hab : p.Feeds a b)
    (hb : b ∈ front ∨ b ∈ p.reaching rounds unseen front) :
    a ∈ p.reaching rounds unseen front := by
  induction rounds generalizing unseen front with
  | zero =>
    have hnil : unseen = [] := List.length_eq_zero_iff.mp (Nat.le_zero.mp hrounds)
    rw [hnil] at ha
    exact absurd ha (by simp)
  | succ rounds ih =>
    obtain ⟨-, -, c, hc, rfl, rfl⟩ := hab
    have hfound : c.target ∈ front → c.source ∈ p.feeding unseen front := fun hct =>
      mem_feeding.mpr ⟨ha, c, hc, rfl, hct⟩
    simp only [reaching] at hb ⊢
    split at hb
    · rename_i hempty
      have hct : c.target ∈ front := by simpa using hb
      rw [List.isEmpty_iff.mp hempty] at hfound
      exact absurd (hfound hct) (by simp)
    · rename_i hempty
      rw [if_neg hempty]
      by_cases hnew : c.source ∈ p.feeding unseen front
      · exact List.mem_append_left _ hnew
      -- The source waits for a later round, and a round that finds something leaves fewer unseen.
      obtain ⟨x, hx⟩ := List.exists_mem_of_ne_nil _ (mt List.isEmpty_iff.mpr hempty)
      have hlt : (unseen.filter fun id => !(p.feeding unseen front).contains id).length
          < unseen.length := by
        refine List.length_filter_lt_length_iff_exists.mpr ⟨x, (mem_feeding.mp hx).1, ?_⟩
        simpa using hx
      refine List.mem_append_right _ (ih (by omega) ?_ ?_)
      · simpa using ⟨ha, hnew⟩
      · rcases hb with hct | hb
        · exact absurd (hfound hct) hnew
        · exact List.mem_append.mp hb

/-! ## Suppliers -/

theorem suppliers_sublist (p : Program) (t : String) :
    (p.suppliers t).Sublist (p.nodes.map (·.id)) :=
  List.filter_sublist

theorem hasNode_of_mem_suppliers {p : Program} {a t : String} (h : a ∈ p.suppliers t) :
    p.hasNode a :=
  hasNode_iff_mem.mpr ((suppliers_sublist p t).subset h)

/-- **The search finds exactly the suppliers.** -/
theorem mem_suppliers_iff {p : Program} {a t : String} (ht : p.hasNode t) :
    a ∈ p.suppliers t ↔ p.Supplies a t := by
  have hunseen : ∀ u, u ∈ (p.nodes.map (·.id)).filter (· != t) ↔ p.hasNode u ∧ u ≠ t := by
    intro u
    rw [List.mem_filter, ← hasNode_iff_mem]
    simp
  constructor
  · intro h
    have ha := hasNode_of_mem_suppliers h
    refine ⟨ha, ?_⟩
    have hmem := (List.mem_filter.mp h).2
    rcases List.mem_cons.mp (List.contains_iff_mem.mp hmem) with rfl | hfound
    · exact .refl
    · obtain ⟨-, f, hf, hpath⟩ := mem_reaching_sound
        (fun u hu => ((hunseen u).mp hu).1) (by simpa using ht) hfound
      rw [List.mem_singleton.mp hf] at hpath
      exact hpath
  · rintro ⟨ha, hpath⟩
    refine List.mem_filter.mpr ⟨hasNode_iff_mem.mp ha, List.contains_iff_mem.mpr ?_⟩
    -- Backward along the path: the target is in the list, and so is whatever feeds a member.
    induction hpath using Relation.ReflTransGen.head_induction_on with
    | refl => exact List.mem_cons_self
    | @head a b hab _ ih =>
      by_cases hat : a = t
      · rw [hat]
        exact List.mem_cons_self
      · refine List.mem_cons_of_mem _ (mem_reaching_of_feeds (List.length_filter_le _ _)
          ((hunseen a).mpr ⟨hab.1, hat⟩) hab ?_)
        rcases List.mem_cons.mp (ih hab.2.1) with rfl | hb
        · exact Or.inl (by simp)
        · exact Or.inr hb

instance (p : Program) (a t : String) : Decidable (p.Supplies a t) :=
  decidable_of_iff (p.hasNode t = true ∧ a ∈ p.suppliers t)
    ⟨fun h => (mem_suppliers_iff h.1).mp h.2,
     fun h => ⟨h.hasNode_target, (mem_suppliers_iff h.hasNode_target).mpr h⟩⟩

end Dataflow.Program
