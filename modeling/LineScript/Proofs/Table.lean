import LineScript.Table
import Mathlib.Tactic.ByContra
import Mathlib.Tactic.SplitIfs

/-!
# Ordered tables

The operations on tables keep the entries in the order of their names, so that every name has
one entry. This is what makes the union of two tables a look-up in the second one first. An
insertion finds its place by the names alone, so insertions of different names may be made in
either order.

## Main definitions

* `Table.Ordered`: the entries are in strictly ascending order of their names

## Main results

* `Table.Ordered.insert`, `Table.Ordered.union`: insertion and union keep a table ordered
* `Table.get?_union`: what a look-up finds in a union
* `Table.Ordered.ext`: an ordered table is determined by what look-ups find
* `Table.insert_comm`: insertions of different names commute
* `Table.union_insert`: an entry that is added to the second table is added to the union
-/

namespace LineScript

namespace Text

theorem before_cons_iff (a b : UInt8) (s t : Text) :
    before (a :: s) (b :: t) = true ↔ a.toNat < b.toNat ∨ a = b ∧ s.before t = true := by
  by_cases hab : a = b
  · subst hab
    simp [before]
  · simp [before, hab]

theorem before_trans {s t u : Text} (hst : s.before t = true) (htu : t.before u = true) :
    s.before u = true := by
  induction s generalizing t u with
  | nil =>
    rcases u with _ | ⟨c, u⟩
    · simp [before] at htu
    · rfl
  | cons a s ih =>
    rcases t with _ | ⟨b, t⟩
    · simp [before] at hst
    rcases u with _ | ⟨c, u⟩
    · simp [before] at htu
    rw [before_cons_iff] at hst htu ⊢
    rcases hst with hab | ⟨rfl, hst⟩
    · rcases htu with hbc | ⟨rfl, -⟩
      · exact Or.inl (Nat.lt_trans hab hbc)
      · exact Or.inl hab
    · rcases htu with hac | ⟨hac, htu⟩
      · exact Or.inl hac
      · exact Or.inr ⟨hac, ih hst htu⟩

/-- Of two different names, one comes before the other. -/
theorem before_of_not_before {s t : Text} (hne : s ≠ t) (h : ¬ s.before t = true) :
    t.before s = true := by
  induction s generalizing t with
  | nil =>
    rcases t with _ | ⟨b, t⟩
    · exact absurd rfl hne
    · exact absurd rfl h
  | cons a s ih =>
    rcases t with _ | ⟨b, t⟩
    · rfl
    rw [before_cons_iff] at h ⊢
    by_cases hab : a = b
    · subst hab
      exact Or.inr ⟨rfl, ih (fun hst => hne (by rw [hst])) fun hst => h (Or.inr ⟨rfl, hst⟩)⟩
    · have hval : a.toNat ≠ b.toNat := fun he => hab (UInt8.toNat_inj.mp he)
      exact Or.inl (by omega)

/-- Of two names at most one comes before the other. -/
theorem not_before_of_before {s t : Text} (h : s.before t = true) : ¬ t.before s = true := by
  intro h'
  have hself := before_trans h h'
  rw [before_self] at hself
  cases hself

theorem ne_of_before {s t : Text} (h : s.before t = true) : s ≠ t := by
  rintro rfl
  rw [before_self] at h
  cases h

theorem before_trichotomy (s t : Text) : s.before t = true ∨ s = t ∨ t.before s = true := by
  by_cases heq : s = t
  · exact Or.inr (Or.inl heq)
  · by_cases h : s.before t = true
    · exact Or.inl h
    · exact Or.inr (Or.inr (before_of_not_before heq h))

end Text

namespace Table

variable {α : Type}

/-- The entries of a table are in strictly ascending order of their names. -/
def Ordered (t : Table α) : Prop :=
  t.entries.Pairwise fun a b => a.1.before b.1 = true

theorem ordered_empty : (empty : Table α).Ordered := List.Pairwise.nil

theorem mem_insertEntry {entries : List (Text × α)} {name : Text} {value : α} {entry : Text × α}
    (h : entry ∈ insertEntry name value entries) : entry = (name, value) ∨ entry ∈ entries := by
  induction entries with
  | nil => exact Or.inl (List.mem_singleton.mp h)
  | cons first rest ih =>
    obtain ⟨key, old⟩ := first
    simp only [insertEntry] at h
    split_ifs at h with hk hb
    · rcases List.mem_cons.mp h with h | h
      · exact Or.inl h
      · exact Or.inr (List.mem_cons_of_mem _ h)
    · rcases List.mem_cons.mp h with h | h
      · exact Or.inl h
      · exact Or.inr h
    · rcases List.mem_cons.mp h with h | h
      · exact Or.inr (h ▸ List.mem_cons_self)
      · exact (ih h).imp_right (List.mem_cons_of_mem _)

theorem pairwise_insertEntry {entries : List (Text × α)} (name : Text) (value : α)
    (h : entries.Pairwise fun a b => a.1.before b.1 = true) :
    (insertEntry name value entries).Pairwise fun a b => a.1.before b.1 = true := by
  induction entries with
  | nil => exact List.pairwise_singleton _ _
  | cons first rest ih =>
    obtain ⟨key, old⟩ := first
    obtain ⟨hfirst, hrest⟩ := List.pairwise_cons.mp h
    simp only [insertEntry]
    split_ifs with hk hb
    · subst hk
      exact List.pairwise_cons.mpr ⟨hfirst, hrest⟩
    · refine List.pairwise_cons.mpr ⟨fun entry he => ?_, h⟩
      rcases List.mem_cons.mp he with rfl | he
      · exact hb
      · exact Text.before_trans hb (hfirst entry he)
    · refine List.pairwise_cons.mpr ⟨fun entry he => ?_, ih hrest⟩
      rcases mem_insertEntry he with rfl | he
      · exact Text.before_of_not_before hk hb
      · exact hfirst entry he

/-- **Insertion keeps a table ordered.** -/
theorem Ordered.insert {t : Table α} (h : t.Ordered) (name : Text) (value : α) :
    (t.insert name value).Ordered :=
  pairwise_insertEntry name value h

theorem findEntry_eq_none {entries : List (Text × α)} {name : Text}
    (h : ∀ entry ∈ entries, name.before entry.1 = true) : findEntry name entries = none := by
  induction entries with
  | nil => rfl
  | cons first rest ih =>
    obtain ⟨key, value⟩ := first
    have hne : name ≠ key := by
      rintro rfl
      simpa using h _ List.mem_cons_self
    rw [findEntry, if_neg hne]
    exact ih fun entry he => h entry (List.mem_cons_of_mem _ he)

/-- **Look-up in a union**: what the second table says, and otherwise what the first one
says. -/
theorem get?_union (t : Table α) {u : Table α} (h : u.Ordered) (name : Text) :
    (t.union u).get? name = (u.get? name).or (t.get? name) := by
  obtain ⟨entries⟩ := u
  simp only [union, get?]
  induction entries generalizing t with
  | nil => rfl
  | cons first rest ih =>
    obtain ⟨key, value⟩ := first
    obtain ⟨hfirst, hrest⟩ := List.pairwise_cons.mp h
    rw [List.foldl_cons, ih _ hrest]
    simp only [insert, findEntry_insertEntry, findEntry]
    -- the first entry is overwritten by none of the later ones
    split_ifs with hk
    · subst hk
      rw [findEntry_eq_none hfirst]
      rfl
    · rfl

theorem mem_entries_of_get? {t : Table α} {name : Text} {value : α}
    (h : t.get? name = some value) : (name, value) ∈ t.entries := by
  obtain ⟨entries⟩ := t
  simp only [get?] at h
  induction entries with
  | nil => cases h
  | cons first rest ih =>
    obtain ⟨key, old⟩ := first
    rw [findEntry] at h
    split_ifs at h with hk
    · rw [hk, ← Option.some.inj h]
      exact List.mem_cons_self
    · exact List.mem_cons_of_mem _ (ih h)

theorem Ordered.union {t : Table α} (h : t.Ordered) (u : Table α) : (t.union u).Ordered := by
  obtain ⟨entries⟩ := u
  simp only [Table.union]
  induction entries generalizing t with
  | nil => exact h
  | cons first rest ih => exact ih (h.insert first.1 first.2)

theorem findEntry_cons_self (key : Text) (value : α) (rest : List (Text × α)) :
    findEntry key ((key, value) :: rest) = some value := if_pos rfl

/-- A name that is found among ordered entries does not come before the first one. -/
theorem not_before_of_findEntry {name key : Text} {value found : α} {rest : List (Text × α)}
    (hrest : ∀ entry ∈ rest, key.before entry.1 = true)
    (h : findEntry name ((key, value) :: rest) = some found) : ¬ name.before key = true := by
  intro hbefore
  have hnone : findEntry name ((key, value) :: rest) = none := by
    refine findEntry_eq_none fun entry he => ?_
    rcases List.mem_cons.mp he with rfl | he
    · exact hbefore
    · exact Text.before_trans hbefore (hrest entry he)
  rw [hnone] at h
  cases h

theorem entries_ext {entries entries' : List (Text × α)}
    (h : entries.Pairwise fun a b => a.1.before b.1 = true)
    (h' : entries'.Pairwise fun a b => a.1.before b.1 = true)
    (hfind : ∀ name, findEntry name entries = findEntry name entries') : entries = entries' := by
  induction entries generalizing entries' with
  | nil =>
    rcases entries' with _ | ⟨⟨key, value⟩, rest⟩
    · rfl
    · have hkey := hfind key
      rw [findEntry_cons_self] at hkey
      cases hkey
  | cons first rest ih =>
    obtain ⟨key, value⟩ := first
    rcases entries' with _ | ⟨⟨key', value'⟩, rest'⟩
    · have hkey := hfind key
      rw [findEntry_cons_self] at hkey
      cases hkey
    · obtain ⟨hfirst, hrest⟩ := List.pairwise_cons.mp h
      obtain ⟨hfirst', hrest'⟩ := List.pairwise_cons.mp h'
      have hkey : key = key' := by
        have hfound' := (hfind key).symm.trans (findEntry_cons_self key value rest)
        have hfound := (hfind key').trans (findEntry_cons_self key' value' rest')
        by_contra hne
        exact not_before_of_findEntry hfirst' hfound'
          (Text.before_of_not_before (Ne.symm hne) (not_before_of_findEntry hfirst hfound))
      subst hkey
      have hvalue := hfind key
      rw [findEntry_cons_self, findEntry_cons_self] at hvalue
      -- behind the first entry the name is not found again
      have htail : rest = rest' := by
        refine ih hrest hrest' fun name => ?_
        by_cases hname : name = key
        · rw [hname, findEntry_eq_none hfirst, findEntry_eq_none hfirst']
        · have hfound := hfind name
          rwa [findEntry, findEntry, if_neg hname, if_neg hname] at hfound
      rw [Option.some.inj hvalue, htail]

/-- **An ordered table is determined by what look-ups find.** -/
theorem Ordered.ext {t u : Table α} (ht : t.Ordered) (hu : u.Ordered) (h : t.get? = u.get?) :
    t = u := by
  obtain ⟨entries⟩ := t
  obtain ⟨entries'⟩ := u
  exact congrArg Table.mk (entries_ext ht hu fun name => congrFun h name)

/-! ## The order of insertions -/

section Insertion

variable {name key : Text} {value old : α} {rest : List (Text × α)}

theorem insertEntry_cons_self (key : Text) (value old : α) (rest : List (Text × α)) :
    insertEntry key value ((key, old) :: rest) = (key, value) :: rest :=
  if_pos rfl

theorem insertEntry_of_before (h : name.before key = true) :
    insertEntry name value ((key, old) :: rest) = (name, value) :: (key, old) :: rest := by
  rw [insertEntry, if_neg (Text.ne_of_before h), if_pos h]

theorem insertEntry_of_after (h : key.before name = true) :
    insertEntry name value ((key, old) :: rest) = (key, old) :: insertEntry name value rest := by
  rw [insertEntry, if_neg (Text.ne_of_before h).symm, if_neg (Text.not_before_of_before h)]

/-- An entry that is put over an earlier one of the same name leaves no trace of it. -/
theorem insertEntry_over (entries : List (Text × α)) (name : Text) (old value : α) :
    insertEntry name value (insertEntry name old entries) = insertEntry name value entries := by
  induction entries with
  | nil => exact insertEntry_cons_self name value old []
  | cons first rest ih =>
    obtain ⟨key, found⟩ := first
    rcases Text.before_trichotomy name key with h | rfl | h
    · rw [insertEntry_of_before h, insertEntry_of_before h, insertEntry_cons_self]
    · rw [insertEntry_cons_self, insertEntry_cons_self, insertEntry_cons_self]
    · rw [insertEntry_of_after h, insertEntry_of_after h, insertEntry_of_after h, ih]

/-- Entries of two names find their places in either order. -/
theorem insertEntry_comm (entries : List (Text × α)) {a b : Text} (h : a.before b = true)
    (v w : α) :
    insertEntry b w (insertEntry a v entries) = insertEntry a v (insertEntry b w entries) := by
  induction entries with
  | nil =>
    have hb : insertEntry b w [(a, v)] = [(a, v), (b, w)] := insertEntry_of_after h
    have ha : insertEntry a v [(b, w)] = [(a, v), (b, w)] := insertEntry_of_before h
    rw [insertEntry, hb, insertEntry, ha]
  | cons first rest ih =>
    obtain ⟨key, found⟩ := first
    rcases Text.before_trichotomy a key with ha | rfl | ha
    · -- the earlier name goes to the front, whatever stands there
      rw [insertEntry_of_before ha, insertEntry_of_after h]
      rcases Text.before_trichotomy b key with hb | rfl | hb
      · rw [insertEntry_of_before hb, insertEntry_of_before h]
      · rw [insertEntry_cons_self, insertEntry_of_before ha]
      · rw [insertEntry_of_after hb, insertEntry_of_before ha]
    · rw [insertEntry_cons_self, insertEntry_of_after h, insertEntry_of_after h,
        insertEntry_cons_self]
    · -- both names come behind the first entry
      have hb := Text.before_trans ha h
      rw [insertEntry_of_after ha, insertEntry_of_after hb, insertEntry_of_after hb,
        insertEntry_of_after ha, ih]

theorem insert_insert (t : Table α) (name : Text) (old value : α) :
    (t.insert name old).insert name value = t.insert name value :=
  congrArg Table.mk (insertEntry_over t.entries name old value)

/-- **Insertions of different names commute**, in any table. -/
theorem insert_comm (t : Table α) {a b : Text} (h : a ≠ b) (v w : α) :
    (t.insert a v).insert b w = (t.insert b w).insert a v := by
  apply congrArg Table.mk
  rcases Text.before_trichotomy a b with hab | heq | hba
  · exact insertEntry_comm t.entries hab v w
  · exact absurd heq h
  · exact (insertEntry_comm t.entries hba w v).symm

/-- An insertion may be made before the entries of other names are added. -/
theorem foldl_insert_comm (entries : List (Text × α)) (t : Table α) (name : Text) (value : α)
    (h : ∀ entry ∈ entries, entry.1 ≠ name) :
    (entries.foldl (fun t entry => t.insert entry.1 entry.2) t).insert name value =
      entries.foldl (fun t entry => t.insert entry.1 entry.2) (t.insert name value) := by
  induction entries generalizing t with
  | nil => rfl
  | cons first rest ih =>
    obtain ⟨hfirst, hrest⟩ := List.forall_mem_cons.mp h
    rw [List.foldl_cons, List.foldl_cons, ih _ hrest, insert_comm t hfirst]

/-- **Adding an entry to the second table of a union adds it to the union.** -/
theorem union_insert (t : Table α) {u : Table α} (h : u.Ordered) (name : Text) (value : α) :
    t.union (u.insert name value) = (t.union u).insert name value := by
  obtain ⟨entries⟩ := u
  change (insertEntry name value entries).foldl _ t = (entries.foldl _ t).insert name value
  induction entries generalizing t with
  | nil => rfl
  | cons first rest ih =>
    obtain ⟨key, old⟩ := first
    obtain ⟨hfirst, hrest⟩ := List.pairwise_cons.mp h
    rcases Text.before_trichotomy name key with hn | rfl | hn
    · -- a new first name, which is none of the others
      rw [insertEntry_of_before hn, List.foldl_cons, foldl_insert_comm]
      intro entry he
      rcases List.mem_cons.mp he with rfl | he
      · exact (Text.ne_of_before hn).symm
      · exact (Text.ne_of_before (Text.before_trans hn (hfirst entry he))).symm
    · rw [insertEntry_cons_self, List.foldl_cons, List.foldl_cons, foldl_insert_comm,
        insert_insert]
      intro entry he
      exact (Text.ne_of_before (hfirst entry he)).symm
    · rw [insertEntry_of_after hn]
      exact ih _ hrest

end Insertion

end Table

end LineScript
