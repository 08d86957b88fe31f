import Dataflow.Proofs.Labels
/-!
# Names that are read back

In a quoted name a backslash before a quote stands for the quote, any other quote ends the name, and
every other character stands for itself. Writing puts a backslash before each quote and leaves the
backslashes of the name as they are. One that is followed by a quote of the name keeps its meaning,
because the quote comes with a backslash of its own; one at the end of the name does not, because the
quote that closes the name comes without. Main statement: a name, and an edge with its four names, is
read back exactly when no name ends in a backslash (`quotedName_read_back`).
-/
set_option autoImplicit false

namespace Dataflow

/-! ## Reading a name -/

/-- The characters of a name up to the quote that closes it, and what follows that quote. -/
def nameUpToQuote? : List Char → Option (List Char × List Char)
  | [] => none
  | '"' :: rest => some ([], rest)
  | '\\' :: '"' :: rest => (nameUpToQuote? rest).map fun r => ('"' :: r.1, r.2)
  | c :: rest => (nameUpToQuote? rest).map fun r => (c :: r.1, r.2)

/-- The quoted name at the front of a text, and what follows it. -/
def readName? : List Char → Option (String × List Char)
  | '"' :: rest => (nameUpToQuote? rest).map fun r => (String.ofList r.1, r.2)
  | _ => none

/-- A backslash at the end of a name stands before the closing quote. -/
def EndsInBackslash (name : String) : Prop :=
  name.toList.getLast? = some '\\'

instance (name : String) : Decidable (EndsInBackslash name) :=
  inferInstanceAs (Decidable (name.toList.getLast? = some '\\'))

theorem nameUpToQuote?_cons {c : Char} {s : List Char} (hc : c ≠ '"')
    (hs : c = '\\' → s.head? ≠ some '"') :
    nameUpToQuote? (c :: s) = (nameUpToQuote? s).map fun r => (c :: r.1, r.2) := by
  rw [nameUpToQuote?.eq_def]
  split
  · next heq => exact absurd heq (List.cons_ne_nil _ _)
  · next heq => exact absurd (List.cons.inj heq).1 hc
  · next heq =>
    obtain ⟨hslash, rfl⟩ := List.cons.inj heq
    exact absurd rfl (hs hslash)
  · next heq =>
    obtain ⟨rfl, rfl⟩ := List.cons.inj heq
    rfl

/-- Reading gives back the characters of an escaped text and goes on behind it, as long as a backslash
at its end does not stand before a quote. -/
theorem nameUpToQuote?_escapeName_append {s after : List Char}
    (h : s.getLast? = some '\\' → after.head? ≠ some '"') :
    nameUpToQuote? (escapeName s ++ after)
      = (nameUpToQuote? after).map fun r => (s ++ r.1, r.2) := by
  induction s with
  | nil => simp [escapeName, replaceChar]
  | cons c s ih =>
    have hrest : s.getLast? = some '\\' → after.head? ≠ some '"' := by
      intro hlast
      refine h ?_
      rw [List.getLast?_cons, hlast]
      rfl
    rw [escapeName_cons]
    by_cases hc : c = '"'
    · -- The quote was written with its backslash.
      rw [if_pos hc, hc]
      simp only [List.cons_append, List.nil_append, nameUpToQuote?, ih hrest, Option.map_map]
      rfl
    · rw [if_neg hc, List.singleton_append, List.cons_append, nameUpToQuote?_cons hc, ih hrest,
        Option.map_map]
      · rfl
      · -- What follows a backslash is the next character of the name, written, or what comes after it.
        intro hslash
        cases s with
        | nil =>
          rw [hslash] at h
          simpa [escapeName, replaceChar] using h rfl
        | cons d s =>
          rw [List.head?_append_of_ne_nil _ (escapeName_cons_ne_nil d s)]
          exact head?_escapeName (d :: s)

/-- A quoted name before other text. -/
theorem toList_quotedName_append (s : String) (rest : List Char) :
    (quotedName s).toList ++ rest = '"' :: (escapeName s.toList ++ '"' :: rest) := by
  rw [quotedName, String.toList_ofList]
  simp

theorem readName?_quotedName {s : String} (hs : ¬ EndsInBackslash s) (rest : List Char) :
    readName? ((quotedName s).toList ++ rest) = some (s, rest) := by
  rw [toList_quotedName_append, readName?,
    nameUpToQuote?_escapeName_append fun hlast => absurd hlast hs, nameUpToQuote?]
  simp

/-- **A backslash at the end of a name takes the closing quote into the name**, and reading goes on in
what follows. -/
theorem readName?_quotedName_push (s : String) (rest : List Char) :
    readName? ((quotedName (s.push '\\')).toList ++ rest)
      = (nameUpToQuote? rest).map fun r => (s.push '"' ++ String.ofList r.1, r.2) := by
  have hescape : escapeName (s.toList ++ ['\\']) ++ '"' :: rest
      = escapeName s.toList ++ '\\' :: '"' :: rest := by
    simp [escapeName, replaceChar]
  rw [toList_quotedName_append, readName?, String.toList_push, hescape,
    nameUpToQuote?_escapeName_append (by simp), nameUpToQuote?, Option.map_map, Option.map_map]
  congr 1
  funext r
  refine Prod.ext (String.toList_injective ?_) rfl
  simp

theorem exists_push_of_endsInBackslash {s : String} (hs : EndsInBackslash s) :
    ∃ t : String, s = t.push '\\' := by
  obtain ⟨t, ht⟩ := List.getLast?_eq_some_iff.mp hs
  refine ⟨String.ofList t, String.toList_injective ?_⟩
  rw [ht, String.toList_push, String.toList_ofList]

/-- What is read in the place of a name is the name only if it does not end in a backslash, and then
all that follows is left. -/
theorem readName?_quotedName_eq_some_iff {s : String} {rest rest' : List Char} :
    readName? ((quotedName s).toList ++ rest) = some (s, rest')
      ↔ ¬ EndsInBackslash s ∧ rest' = rest := by
  by_cases hs : EndsInBackslash s
  · obtain ⟨t, rfl⟩ := exists_push_of_endsInBackslash hs
    rw [readName?_quotedName_push]
    simp only [hs, not_true_eq_false, false_and, iff_false, Option.map_eq_some_iff, not_exists,
      not_and, Prod.mk.injEq]
    -- The name that was read goes on with a quote where the name has its backslash.
    rintro r - hname
    have hchars := congrArg String.toList hname
    simp at hchars
  · rw [readName?_quotedName hs]
    simp [hs, eq_comm]

/-! ## Reading a statement -/

/-- The names in a line that has the given marks before them, and what follows the last name. -/
def readNames? : List String → List Char → Option (List String × List Char)
  | [], s => some ([], s)
  | mark :: marks, s =>
    (s.dropPrefix? mark.toList).bind fun s =>
    (readName? s).bind fun r =>
    (readNames? marks r.2).map fun rest => (r.1 :: rest.1, rest.2)

/-- Names that are written with marks before them are read back when each of them is. -/
theorem readNames?_eq_some_iff {written : List (String × String)} {rest rest' : List Char} :
    readNames? (written.map (·.1))
        (written.flatMap (fun w => w.1.toList ++ (quotedName w.2).toList) ++ rest)
      = some (written.map (·.2), rest')
      ↔ (∀ w ∈ written, ¬ EndsInBackslash w.2) ∧ rest' = rest := by
  induction written with
  | nil => simp [readNames?, eq_comm]
  | cons w written ih =>
    rw [List.map_cons, List.map_cons, List.flatMap_cons, readNames?, List.append_assoc,
      List.append_assoc, List.dropPrefix?_append_of_beq _ BEq.rfl, Option.bind_some,
      Option.bind_eq_some_iff, List.forall_mem_cons]
    constructor
    · rintro ⟨⟨name, left⟩, hread, hmore⟩
      obtain ⟨⟨names, left'⟩, hnames, heq⟩ := Option.map_eq_some_iff.mp hmore
      obtain ⟨hcons, rfl⟩ := Prod.mk.inj heq
      obtain ⟨rfl, rfl⟩ := List.cons.inj hcons
      obtain ⟨hname, rfl⟩ := readName?_quotedName_eq_some_iff.mp hread
      obtain ⟨hrest, rfl⟩ := ih.mp hnames
      exact ⟨⟨hname, hrest⟩, rfl⟩
    · rintro ⟨⟨hname, hrest⟩, hleft⟩
      refine ⟨_, readName?_quotedName hname _, ?_⟩
      rw [ih.mpr ⟨hrest, hleft⟩]
      rfl

namespace Edge

/-- The names of an edge in the order in which they are written. -/
def names (e : Edge) : List String :=
  [e.source, e.sourcePin, e.target, e.targetPin]

/-- What stands before the names of an edge. -/
def marks : List String :=
  ["  ", ":", " -> ", ":"]

theorem readNames?_text_iff (e : Edge) :
    readNames? marks e.text.toList = some (e.names, [';']) ↔ ∀ name ∈ e.names, ¬ EndsInBackslash name := by
  have hread := @readNames?_eq_some_iff (marks.zip e.names) [';'] [';']
  have htext : e.text.toList
      = (marks.zip e.names).flatMap (fun w => w.1.toList ++ (quotedName w.2).toList) ++ [';'] := by
    simp [text, marks, names]
  rw [htext]
  simpa [marks, names] using hread

end Edge

/-- The name of a table is read back from its statement when it can be read back at all. -/
theorem NodeTable.readNames?_text_iff (t : NodeTable) :
    (∃ rest, readNames? ["  "] t.text.toList = some ([t.label], rest)) ↔ ¬ EndsInBackslash t.label := by
  obtain ⟨rest, hrest⟩ : ∃ rest, t.text.toList = "  ".toList ++ (quotedName t.label).toList ++ rest := by
    simp [text]
  have hread := fun rest' => @readNames?_eq_some_iff [("  ", t.label)] rest rest'
  rw [hrest]
  constructor
  · rintro ⟨rest', h⟩
    exact ((hread rest').mp (by simpa using h)).1 _ List.mem_cons_self
  · intro hlabel
    exact ⟨rest, by simpa using (hread rest).mpr ⟨by simpa using hlabel, rfl⟩⟩

/-- **When names are read back.** Reading what is written for a name gives the name and ends behind its
closing quote, whatever follows, exactly when the name does not end in a backslash; else the closing
quote is read as one of the name, and the name goes on in what follows. So an edge is read back exactly
when none of its four names ends in a backslash, and a table has its name under the same condition. -/
theorem quotedName_read_back (s : String) (rest : List Char) :
    (readName? ((quotedName s).toList ++ rest) = some (s, rest) ↔ ¬ EndsInBackslash s) ∧
    readName? ((quotedName (s.push '\\')).toList ++ rest)
      = (nameUpToQuote? rest).map (fun r => (s.push '"' ++ String.ofList r.1, r.2)) ∧
    (∀ e : Edge, readNames? Edge.marks e.text.toList = some (e.names, [';'])
      ↔ ∀ name ∈ e.names, ¬ EndsInBackslash name) ∧
    ∀ t : NodeTable, (∃ rest, readNames? ["  "] t.text.toList = some ([t.label], rest))
      ↔ ¬ EndsInBackslash t.label := by
  refine ⟨?_, readName?_quotedName_push s rest, Edge.readNames?_text_iff, NodeTable.readNames?_text_iff⟩
  rw [readName?_quotedName_eq_some_iff]
  exact and_iff_left rfl

/-- Quotes and backslashes inside a name, next to each other in both orders. -/
example : readName? (quotedName "a\\\"b\"\\c\\\\\"").toList = some ("a\\\"b\"\\c\\\\\"", []) := by
  decide

/-- A sensor that is called by a backslash is loaded and has a label. What is written for the label has no
closing quote, and the edge that leaves the sensor is read with other names than its own. -/
theorem backslash_not_read_back :
    ∃ p, ({} : Engine).load (Program.namesakes "\\").toDefinition = .ok p ∧
      p.labelOf "c" = "Sensor:\\" ∧
      readName? (quotedName (p.labelOf "c")).toList = none ∧
      ∀ c ∈ p.connections, readNames? Edge.marks (p.edge c).text.toList ≠ some ((p.edge c).names, [';']) := by
  exact ⟨Program.namesakes "\\", by rfl, by rfl, by decide, by decide⟩

end Dataflow
