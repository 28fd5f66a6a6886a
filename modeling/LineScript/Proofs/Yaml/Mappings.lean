import LineScript.Proofs.Yaml.Entries

/-!
# Reading mappings with one entry on each line

The nodes of a mapping are built from its tokens, an entry at a time.

## Main definitions

* `Yaml.Entry.nodes`, `Yaml.entryNodes`: the nodes of entries

## Main results

* `Yaml.blockEntries_entryTokens`: the tokens of entries in front of others
* `Yaml.read_ofLines`: a mapping is read as it is written
* `Yaml.read_far`: a mapping with a key that is too long is malformed
-/

namespace LineScript.Yaml

/-! ## Nodes -/

/-- The nodes of an entry behind the given number of lines. -/
def Entry.nodes (e : Entry) (line : Nat) : Node × Node :=
  (.scalar (line + 1) (Node.plainTag e.key) e.key,
    .scalar (line + 1) (if e.plain then Node.plainTag e.value else .str) e.value)

/-- The nodes of entries from the given line on. -/
def entryNodes : (line : Nat) → List Entry → List (Node × Node)
  | _, [] => []
  | line, e :: es => e.nodes line :: entryNodes (line + 1) es

theorem entryNodes_append (line : Nat) (es more : List Entry) :
    entryNodes line (es ++ more) = entryNodes line es ++ entryNodes (line + es.length) more := by
  induction es generalizing line with
  | nil => rfl
  | cons e es ih =>
    rw [List.cons_append, entryNodes, ih, entryNodes, List.length_cons, Nat.add_comm es.length,
      Nat.add_assoc]
    rfl

theorem exists_of_mem_entryNodes {entry : Node × Node} {line : Nat} {es : List Entry}
    (h : entry ∈ entryNodes line es) : ∃ e ∈ es, ∃ l, entry = e.nodes l := by
  induction es generalizing line with
  | nil => cases h
  | cons e es ih =>
    rcases List.mem_cons.mp h with rfl | h
    · exact ⟨e, List.mem_cons_self, line, rfl⟩
    · obtain ⟨e', he', l, rfl⟩ := ih h
      exact ⟨e', List.mem_cons_of_mem e he', l, rfl⟩

section Builder

variable {handles : Handles} {fuel line : Nat} {rest : List Token}

/-- An entry in front of other tokens of a mapping. -/
theorem blockEntries_entry (e : Entry) :
    blockEntries handles (fuel + 3) ⟨e.tokens line ++ rest, []⟩ =
      (blockEntries handles (fuel + 2) ⟨rest, []⟩).map fun r => (e.nodes line :: r.1, r.2) := by
  show (blockEntries handles (fuel + 2) ⟨rest, []⟩).bind _ = _
  cases blockEntries handles (fuel + 2) ⟨rest, []⟩ <;> rfl

theorem blockEntries_entryTokens (es : List Entry) :
    blockEntries handles (fuel + 2 + es.length) ⟨entryTokens line es ++ rest, []⟩ =
      (blockEntries handles (fuel + 2) ⟨rest, []⟩).map fun r =>
        (entryNodes line es ++ r.1, r.2) := by
  induction es generalizing line with
  | nil => exact Option.map_id'.symm
  | cons e es ih =>
    rw [entryTokens, List.append_assoc, List.length_cons,
      show fuel + 2 + (es.length + 1) = fuel + es.length + 3 by omega, blockEntries_entry,
      show fuel + es.length + 2 = fuel + 2 + es.length by omega, ih, Option.map_map]
    rfl

/-- The node of a block mapping. -/
theorem node_blockMapping (ts : List Token) :
    node handles (fuel + 1) true false ⟨⟨line, .blockMapping⟩ :: ts, []⟩ =
      (blockEntries handles fuel ⟨ts, []⟩).map fun r => (.map (line + 1) .map r.1, r.2) := by
  show (blockEntries handles fuel ⟨ts, []⟩).bind _ = _
  cases blockEntries handles fuel ⟨ts, []⟩ <;> rfl

variable {ts : List Token} {b : Builder} {entries : List (Node × Node)}

theorem documentOf?_of_some {t : Token} {anchors : List Anchor}
    (h : blockEntries .default (4 * (ts.length + 1) + 3) ⟨ts, []⟩ =
      some (entries, ⟨t :: rest, anchors⟩)) :
    documentOf? (⟨line, .blockMapping⟩ :: ts) = some (some (.map (line + 1) .map entries)) := by
  simp [documentOf?, documentNode, Symbol.isDirective, node_blockMapping, h]

theorem documentOf?_of_none
    (h : blockEntries .default (4 * (ts.length + 1) + 3) ⟨ts, []⟩ = none) :
    documentOf? (⟨line, .blockMapping⟩ :: ts) = none := by
  simp [documentOf?, documentNode, Symbol.isDirective, node_blockMapping, h]

end Builder

/-! ## Documents -/

variable {ended : Bool} {es more : List Entry} {e : Entry}

theorem length_entryTokens (line : Nat) (es : List Entry) :
    (entryTokens line es).length = 4 * es.length := by
  induction es generalizing line with
  | nil => rfl
  | cons e es ih =>
    rw [entryTokens, List.length_append, ih, List.length_cons, Nat.mul_add, Nat.add_comm]
    rfl

theorem entryTokens_append (line : Nat) (es more : List Entry) :
    entryTokens line (es ++ more) = entryTokens line es ++ entryTokens (line + es.length) more := by
  induction es generalizing line with
  | nil => rfl
  | cons e es ih =>
    rw [List.cons_append, entryTokens, ih, entryTokens, List.append_assoc, List.length_cons,
      Nat.add_comm es.length, Nat.add_assoc]

theorem Entry.IsSound.isPlainByte_line (h : e.IsSound) {b : UInt8} (hb : b ∈ e.line) :
    isPlainByte b = true := by
  have hmarks : ∀ b ∈ utf8 ": " ++ utf8 "\"", isPlainByte b = true := by
    decide +kernel
  have hvalue : b ∈ e.value → isPlainByte b = true := fun hb => by
    simp [isPlainByte, h.asciiValue b hb]
  simp only [line, written, List.mem_append] at hb
  rcases hb with (hb | hb) | hb
  · simp [isPlainByte, h.asciiKey b hb]
  · exact hmarks b (List.mem_append_left _ hb)
  · split at hb
    · exact hvalue hb
    · simp only [List.mem_append] at hb
      rcases hb with (hb | hb) | hb
      · exact hmarks b (List.mem_append_right _ hb)
      · exact hvalue hb
      · exact hmarks b (List.mem_append_right _ hb)

theorem isPlainByte_of_mem_ofLines (hsound : ∀ e ∈ es, e.IsSound) {b : UInt8}
    (hb : b ∈ Text.ofLines ended (es.map Entry.line)) : isPlainByte b = true := by
  induction es with
  | nil => cases ended <;> cases hb
  | cons e es ih =>
    obtain ⟨he, hes⟩ := List.forall_mem_cons.mp hsound
    rw [List.map_cons, Text.ofLines_cons, List.mem_append] at hb
    rcases hb with hb | hb
    · exact he.isPlainByte_line hb
    · split at hb
      · rcases List.mem_cons.mp hb with rfl | hb
        · rfl
        · exact ih hes hb
      · cases hb

theorem ofText_ofLines (hsound : ∀ e ∈ es, e.IsSound) :
    Source.ofText (Text.ofLines ended (es.map Entry.line)) = ⟨sourceOf ended es, true⟩ :=
  ofText_ascii fun _ => isPlainByte_of_mem_ofLines hsound

/-- **A mapping with one entry on each line** is read as it is written. -/
theorem read_ofLines (hsound : ∀ e ∈ es, e.IsSound)
    (hreach : ∀ e ∈ es, e.key.length ≤ KeyMark.reach) (hne : es ≠ []) :
    read (Text.ofLines ended (es.map Entry.line)) =
      some (some (.map 1 .map (entryNodes 0 es))) := by
  rw [read, ofText_ofLines hsound, tokens_sourceOf hsound hreach hne]
  let ts := entryTokens 0 es ++ [⟨es.length, .blockEnd⟩, ⟨es.length, .streamEnd⟩]
  have hlength : ts.length = 4 * es.length + 2 := by
    rw [List.length_append, length_entryTokens]
    rfl
  obtain ⟨fuel, hfuel⟩ :=
    Nat.exists_eq_add_of_le' (show 2 + es.length ≤ 4 * (ts.length + 1) + 3 by omega)
  have hentries : blockEntries .default (4 * (ts.length + 1) + 3) ⟨ts, []⟩ =
      some (entryNodes 0 es, ⟨[⟨es.length, .streamEnd⟩], []⟩) := by
    rw [hfuel, ← Nat.add_assoc, blockEntries_entryTokens]
    show some (entryNodes 0 es ++ [], _) = _
    rw [List.append_nil]
    rfl
  exact documentOf?_of_some hentries

/-- **A key that is too long** makes a mapping malformed. -/
theorem read_far (hsound : ∀ entry ∈ es ++ e :: more, entry.IsSound)
    (hreach : ∀ e ∈ es, e.key.length ≤ KeyMark.reach) (hfar : KeyMark.reach < e.key.length) :
    read (Text.ofLines ended ((es ++ e :: more).map Entry.line)) = none := by
  rw [read, ofText_ofLines hsound, tokens_far hsound hreach hfar]
  rcases List.eq_nil_or_concat es with rfl | ⟨es, last, rfl⟩
  · rfl
  · -- The value of the last entry before the key is missing.
    let ts := entryTokens 0 es ++ (last.tokens (0 + es.length)).take 3
    have htokens : (Lexer.extend 0 [] (es.concat last)).dropLast = ⟨0, .blockMapping⟩ :: ts := by
      rw [List.concat_eq_append, Lexer.extend_nil _ (by simp), entryTokens_append,
        ← List.cons_append, List.dropLast_append_of_ne_nil (by simp [entryTokens, Entry.tokens])]
      rfl
    have hlength : ts.length = 4 * es.length + 3 := by
      rw [List.length_append, length_entryTokens]
      rfl
    obtain ⟨fuel, hfuel⟩ :=
      Nat.exists_eq_add_of_le' (show 5 + es.length ≤ 4 * (ts.length + 1) + 3 by omega)
    rw [htokens]
    apply documentOf?_of_none
    rw [hfuel, show fuel + (5 + es.length) = fuel + 3 + 2 + es.length by omega,
      blockEntries_entryTokens]
    rfl

end LineScript.Yaml
