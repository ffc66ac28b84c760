/-!
# Maps from names

`KeyMap α` maps names to values. Its entries are listed in the order of the names, which is the
order of their code points and so of their UTF-8 bytes, each name once. So two maps with the same
entries are equal, and everything that is printed from a map comes out in one order.

The operations on bare lists of entries come first: documents use them too.
-/

namespace AtomicCss

namespace Entries

/-- The value of the first entry with a name. -/
def get? (entries : List (String × α)) (key : String) : Option α :=
  match entries with
  | [] => none
  | (name, value) :: rest => if name = key then some value else get? rest key

/-- Sets a name in a list that is sorted by name; an entry of that name is replaced. -/
def insert (key : String) (value : α) : List (String × α) → List (String × α)
  | [] => [(key, value)]
  | (name, old) :: rest =>
    if key < name then (key, value) :: (name, old) :: rest
    else if key = name then (key, value) :: rest
    else (name, old) :: insert key value rest

/-- Names ascend, and so each occurs once. -/
def Sorted (entries : List (String × α)) : Prop :=
  entries.Pairwise fun a b => a.1 < b.1

/-- An entry of the new list is the inserted one or was there before. -/
theorem fst_mem_insert {key : String} {value : α} {entries : List (String × α)} {entry : String × α}
    (h : entry ∈ insert key value entries) : entry = (key, value) ∨ entry ∈ entries := by
  induction entries with
  | nil => simpa [insert] using h
  | cons head rest ih =>
    obtain ⟨name, old⟩ := head
    simp only [insert] at h
    split at h
    · simpa using h
    · split at h
      · simp only [List.mem_cons] at h ⊢
        exact h.imp id Or.inr
      · simp only [List.mem_cons] at h ⊢
        rcases h with h | h
        · exact .inr (.inl h)
        · exact (ih h).imp id Or.inr

/-- Inserting keeps the order of the keys. -/
theorem Sorted.insert {entries : List (String × α)} (h : Sorted entries)
    (key : String) (value : α) : Sorted (Entries.insert key value entries) := by
  induction entries with
  | nil => exact List.pairwise_singleton _ _
  | cons head rest ih =>
    obtain ⟨name, old⟩ := head
    obtain ⟨hhead, hrest⟩ := List.pairwise_cons.1 h
    simp only [Entries.insert]
    split
    · rename_i hlt
      -- The new entry comes first, and its name is less than the one that all others are above.
      refine List.pairwise_cons.2 ⟨fun entry hentry => ?_, h⟩
      rcases List.mem_cons.1 hentry with rfl | hentry
      · exact hlt
      · exact String.lt_trans hlt (hhead entry hentry)
    · rename_i hnlt
      split
      · rename_i heq
        subst heq
        exact List.pairwise_cons.2 ⟨hhead, hrest⟩
      · -- The entry goes further back, and the first one stays below what it meets there.
        rename_i hne
        have hlt : name < key := by
          rcases Std.lt_trichotomy key name with hlt | heq | hgt
          · exact absurd hlt hnlt
          · exact absurd heq hne
          · exact hgt
        refine List.pairwise_cons.2 ⟨fun entry hentry => ?_, ih hrest⟩
        rcases fst_mem_insert hentry with rfl | hentry
        · exact hlt
        · exact hhead entry hentry

/-- Looking up after an insertion needs no order of the entries. -/
theorem get?_insert (key : String) (value : α) (entries : List (String × α)) (other : String) :
    get? (insert key value entries) other =
      if key = other then some value else get? entries other := by
  induction entries with
  | nil => simp only [insert, get?]
  | cons head rest ih =>
    obtain ⟨name, old⟩ := head
    simp only [insert]
    split
    · simp only [get?]
    · split
      · rename_i heq
        subst heq
        simp only [get?]
        split
        · rfl
        · rfl
      · -- The first entry stays; it hides no other name than its own, and that is not the new one.
        rename_i hne
        simp only [get?, ih]
        by_cases hname : name = other
        · subst hname
          simp only [if_pos, if_neg hne]
        · simp only [if_neg hname]

/-- In a sorted list an entry is what its name looks up. -/
theorem Sorted.mem_iff_get? {entries : List (String × α)} (h : Sorted entries)
    {key : String} {value : α} : (key, value) ∈ entries ↔ get? entries key = some value := by
  induction entries with
  | nil => simp [get?]
  | cons head rest ih =>
    obtain ⟨name, old⟩ := head
    obtain ⟨hhead, hrest⟩ := List.pairwise_cons.1 h
    simp only [get?, List.mem_cons, Prod.mk.injEq, ih hrest]
    split
    · -- A second entry of this name further back would not be above the first one.
      rename_i heq
      subst heq
      have hrestNone : get? rest name ≠ some value := fun hget =>
        String.lt_irrefl name (hhead _ ((ih hrest).2 hget))
      constructor
      · rintro (⟨-, rfl⟩ | hget)
        · rfl
        · exact absurd hget hrestNone
      · intro hsome
        exact .inl ⟨rfl, (Option.some.inj hsome).symm⟩
    · rename_i hne
      constructor
      · rintro (⟨rfl, -⟩ | hget)
        · exact absurd rfl hne
        · exact hget
      · exact .inr

/-- An insertion adds an entry unless there is one of its name. -/
theorem Sorted.length_insert {entries : List (String × α)} (h : Sorted entries)
    (key : String) (value : α) :
    (Entries.insert key value entries).length =
      entries.length + if (get? entries key).isSome then 0 else 1 := by
  induction entries with
  | nil => rfl
  | cons head rest ih =>
    obtain ⟨name, old⟩ := head
    obtain ⟨hhead, hrest⟩ := List.pairwise_cons.1 h
    simp only [Entries.insert]
    split
    · rename_i hlt
      -- All names behind are greater than the new one.
      have hnone : get? ((name, old) :: rest) key = none := by
        refine Option.eq_none_iff_forall_ne_some.2 fun found hfound => ?_
        rcases List.mem_cons.1 (h.mem_iff_get?.2 hfound) with heq | hmem
        · rw [(Prod.mk.inj heq).1] at hlt
          exact String.lt_irrefl name hlt
        · exact String.lt_irrefl key (String.lt_trans hlt (hhead _ hmem))
      rw [hnone]
      rfl
    · split
      · rename_i heq
        simp only [get?, if_pos heq.symm, Option.isSome_some, if_true, List.length_cons,
          Nat.add_zero]
      · rename_i hne
        simp only [get?, if_neg (Ne.symm hne), List.length_cons, ih hrest]
        omega

/-- Each key comes up once. -/
theorem Sorted.nodup_keys {entries : List (String × α)} (h : Sorted entries) :
    (entries.map Prod.fst).Nodup := by
  refine List.pairwise_map.2 (h.imp ?_)
  intro a b hlt heq
  rw [heq] at hlt
  exact String.lt_irrefl _ hlt

end Entries

/-- A map from names to values, listed in the order of the names. -/
structure KeyMap (α : Type) where
  entries : List (String × α)
  sorted : Entries.Sorted entries

namespace KeyMap

variable {α β : Type}

instance [DecidableEq α] : DecidableEq (KeyMap α) := fun a b =>
  if h : a.entries = b.entries then
    isTrue (by cases a; cases b; simp_all)
  else
    isFalse fun heq => h (congrArg entries heq)

def empty : KeyMap α := ⟨[], List.Pairwise.nil⟩

instance : EmptyCollection (KeyMap α) := ⟨empty⟩
instance : Inhabited (KeyMap α) := ⟨empty⟩

def insert (map : KeyMap α) (key : String) (value : α) : KeyMap α :=
  ⟨Entries.insert key value map.entries, map.sorted.insert key value⟩

def get? (map : KeyMap α) (key : String) : Option α :=
  Entries.get? map.entries key

def contains (map : KeyMap α) (key : String) : Bool :=
  (map.get? key).isSome

def keys (map : KeyMap α) : List String :=
  map.entries.map Prod.fst

def values (map : KeyMap α) : List α :=
  map.entries.map Prod.snd

def size (map : KeyMap α) : Nat :=
  map.entries.length

def isEmpty (map : KeyMap α) : Bool :=
  map.entries.isEmpty

/-- The map of a list of entries, a later entry replacing an earlier one of its name. -/
def ofList (entries : List (String × α)) : KeyMap α :=
  entries.foldl (fun map entry => map.insert entry.1 entry.2) ∅

@[ext]
theorem ext {a b : KeyMap α} (h : a.entries = b.entries) : a = b := by
  cases a
  cases b
  simp_all

@[simp]
theorem get?_empty (key : String) : (∅ : KeyMap α).get? key = none := rfl

/-- After inserting, the key has the new value and all others have theirs. -/
theorem get?_insert (map : KeyMap α) (key : String) (value : α) (other : String) :
    (map.insert key value).get? other = if key = other then some value else map.get? other :=
  Entries.get?_insert key value map.entries other

/-- Inserting makes room for a new key only. -/
theorem size_insert (map : KeyMap α) (key : String) (value : α) :
    (map.insert key value).size = map.size + if (map.get? key).isSome then 0 else 1 :=
  map.sorted.length_insert key value

/-- The entries are what can be looked up. -/
theorem mem_entries_iff {map : KeyMap α} {key : String} {value : α} :
    (key, value) ∈ map.entries ↔ map.get? key = some value :=
  map.sorted.mem_iff_get?

/-- The values are what can be looked up under some key. -/
theorem mem_values_iff {map : KeyMap α} {value : α} :
    value ∈ map.values ↔ ∃ key, map.get? key = some value := by
  simp only [values, List.mem_map, Prod.exists, exists_eq_right, mem_entries_iff]

/-- The keys are those under which something can be looked up. -/
theorem mem_keys_iff {map : KeyMap α} {key : String} :
    key ∈ map.keys ↔ (map.get? key).isSome := by
  simp only [keys, List.mem_map, Prod.exists, exists_and_right, exists_eq_right, mem_entries_iff,
    Option.isSome_iff_exists]

/-- Inserting entries in a row leaves the last one of each name, or else what was there. -/
theorem get?_foldl_insert (map : KeyMap α) (entries : List (String × α)) (key : String) :
    (entries.foldl (fun map entry => map.insert entry.1 entry.2) map).get? key =
      (entries.reverse.lookup key).or (map.get? key) := by
  induction entries generalizing map with
  | nil => rfl
  | cons entry rest ih =>
    obtain ⟨name, value⟩ := entry
    rw [List.foldl_cons, ih, get?_insert, List.reverse_cons, List.lookup_append, Option.or_assoc]
    congr 1
    by_cases h : name = key
    · simp [h]
    · simp [h, List.lookup_cons, beq_false_of_ne (Ne.symm h)]

/-- Of entries with the same key the last one counts. -/
theorem get?_ofList (entries : List (String × α)) (key : String) :
    (ofList entries).get? key = entries.reverse.lookup key := by
  rw [ofList, get?_foldl_insert, get?_empty, Option.or_none]

/-- What can be looked up is in the list. -/
theorem mem_of_get?_ofList {entries : List (String × α)} {key : String} {value : α}
    (h : (ofList entries).get? key = some value) : (key, value) ∈ entries := by
  rw [get?_ofList] at h
  obtain ⟨before, after, heq, -⟩ := List.lookup_eq_some_iff.1 h
  rw [← List.mem_reverse, heq]
  exact List.mem_append_right before List.mem_cons_self

theorem mem_keys_ofList {entries : List (String × α)} {key : String} :
    key ∈ (ofList entries).keys ↔ key ∈ entries.map Prod.fst := by
  rw [mem_keys_iff]
  constructor
  · intro h
    obtain ⟨value, hvalue⟩ := Option.isSome_iff_exists.1 h
    exact List.mem_map_of_mem (mem_of_get?_ofList hvalue)
  · intro h
    obtain ⟨entry, hentry, rfl⟩ := List.mem_map.1 h
    rw [get?_ofList, Option.isSome_iff_ne_none]
    intro hnone
    have hne := List.lookup_eq_none_iff.1 hnone entry (List.mem_reverse.2 hentry)
    exact bne_iff_ne.1 hne rfl

theorem nodup_keys (map : KeyMap α) : map.keys.Nodup :=
  map.sorted.nodup_keys

/-- Maps that look up the same are equal: their entries are the same and stand in one order. -/
theorem ext_get? {a b : KeyMap α} (h : ∀ key, a.get? key = b.get? key) : a = b := by
  have hnodup : ∀ map : KeyMap α, map.entries.Nodup := fun map =>
    List.Pairwise.of_map Prod.fst (fun _ _ hne heq => hne (congrArg Prod.fst heq)) map.nodup_keys
  have hperm : a.entries.Perm b.entries := by
    refine (List.perm_ext_iff_of_nodup (hnodup a) (hnodup b)).2 fun entry => ?_
    obtain ⟨key, value⟩ := entry
    rw [mem_entries_iff, mem_entries_iff, h key]
  refine ext (hperm.eq_of_pairwise ?_ a.sorted b.sorted)
  intro x y _ _ hxy hyx
  exact absurd (String.lt_trans hxy hyx) (String.lt_irrefl _)

/-- Insertions under different names commute. -/
theorem insert_comm (map : KeyMap α) {key other : String} (hne : key ≠ other) (value last : α) :
    (map.insert key value).insert other last = (map.insert other last).insert key value := by
  refine ext_get? fun name => ?_
  simp only [get?_insert]
  by_cases hother : other = name
  · subst hother
    rw [if_pos rfl, if_pos rfl, if_neg hne]
  · rw [if_neg hother, if_neg hother]

/-- If no name is listed twice, the order in which entries are inserted is no matter. -/
theorem foldl_insert_perm {first second : List (String × α)} (hperm : first.Perm second)
    (hnodup : (first.map Prod.fst).Nodup) (map : KeyMap α) :
    first.foldl (fun map entry => map.insert entry.1 entry.2) map =
      second.foldl (fun map entry => map.insert entry.1 entry.2) map := by
  induction hperm generalizing map with
  | nil => rfl
  | cons entry _ ih => exact ih (List.nodup_cons.1 hnodup).2 _
  | swap a b rest =>
    have hne : b.1 ≠ a.1 := fun heq =>
      (List.nodup_cons.1 hnodup).1 (heq ▸ List.mem_cons_self)
    simp only [List.foldl_cons, insert_comm map hne]
  | trans hfirst _ ihfirst ihsecond =>
    rw [ihfirst hnodup, ihsecond ((hfirst.map Prod.fst).nodup_iff.1 hnodup)]

/-- Entries with different keys may be listed in any order. -/
theorem ofList_perm {first second : List (String × α)} (hperm : first.Perm second)
    (hnodup : (first.map Prod.fst).Nodup) : ofList first = ofList second :=
  foldl_insert_perm hperm hnodup ∅

end KeyMap

end AtomicCss
