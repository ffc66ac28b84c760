import AtomicCss.Merge
import Mathlib.Data.List.Induction
/-!
# What a merge means

The meaning of a merge is given without slots and without an index: flatten the arguments, list the
keys in the order in which they first appear, ask the last style that contains a key for its entry,
and list the classes that are left, each once. `merge_classes` says that `merge` computes just that.

The slots are followed entry by entry: `slots_set` is what one assignment does to them, and
`slots_addEntries` what a whole run of assignments leaves.
-/

namespace AtomicCss

/-! ## The meaning -/

mutual

/-- The styles of an argument from left to right. Values that stand for nothing have none. -/
def MergeInput.styles : MergeInput → List StyleObject
  | .style object => [object]
  | .list items => MergeInput.stylesOf items
  | .skip _ => []

def MergeInput.stylesOf : List MergeInput → List StyleObject
  | [] => []
  | item :: rest => item.styles ++ MergeInput.stylesOf rest

end

namespace Meaning

/-- The keys of styles in the order in which they first appear. -/
def keys (styles : List StyleObject) : List String :=
  (styles.flatMap StyleObject.keys).eraseDups

/-- What the last style that contains a key says about it. -/
def winner? (styles : List StyleObject) (key : String) : Option (Option String) :=
  styles.reverse.findSome? (·.get? key)

/-- The classes that win some key, in the order of the keys, the first one of each name. -/
def classes (styles : List StyleObject) : List String :=
  ((keys styles).filterMap fun key => (winner? styles key).join).eraseDups

end Meaning

/-! ## Slots -/

namespace Slots

def keys (slots : Slots) : List String :=
  slots.slots.map Prod.fst

/-- Two slots with one key are the same slot. -/
theorem slot_unique {slots : Slots} {key : String} {i j : Nat}
    (hi : slots.keys[i]? = some key) (hj : slots.keys[j]? = some key) : i = j := by
  have hindex := (slots.indexed key i).2 hi
  rw [(slots.indexed key j).2 hj] at hindex
  exact (Option.some.inj hindex).symm

theorem mem_keys_iff {slots : Slots} {key : String} :
    key ∈ slots.keys ↔ (slots.index.get? key).isSome := by
  rw [List.mem_iff_getElem?, Option.isSome_iff_exists]
  exact exists_congr fun slot => (slots.indexed key slot).symm

/-- An assignment to a key changes the slot of the key, or adds one behind the others. -/
theorem slots_set (slots : Slots) (key : String) (name : Option String) :
    (slots.set key name).slots =
      if key ∈ slots.keys then
        slots.slots.map fun decided => if decided.1 = key then (key, name) else decided
      else slots.slots ++ [(key, name)] := by
  unfold set
  split
  · -- The key has a slot, and this is the only one that changes.
    rename_i slot hslot
    have hkey : slots.keys[slot]? = some key := (slots.indexed key slot).1 hslot
    rw [if_pos (mem_keys_iff.2 (by simp [hslot]))]
    refine List.ext_getElem? fun i => ?_
    simp only [overwrite, List.getElem?_modify, List.getElem?_map]
    cases hi : slots.slots[i]? with
    | none => rfl
    | some decided =>
      have hfst : slots.keys[i]? = some decided.1 := by simp [keys, hi]
      by_cases heq : slot = i
      · subst heq
        have hdecided : decided.1 = key := Option.some.inj (hfst.symm.trans hkey)
        simp [hdecided]
      · have hne : decided.1 ≠ key := fun h => heq (slot_unique hkey (h ▸ hfst))
        simp [heq, hne]
  · -- The key is new.
    rename_i habsent
    rw [if_neg fun h => by simpa [habsent] using mem_keys_iff.1 h]
    rfl

end Slots

/-- The value that a list of entries gives to a key last. -/
def lastValue? (entries : List (String × Option String)) (key : String) : Option (Option String) :=
  entries.reverse.lookup key

theorem lastValue?_concat (entries : List (String × Option String)) (key other : String)
    (name : Option String) :
    lastValue? (entries ++ [(key, name)]) other =
      if other = key then some name else lastValue? entries other := by
  simp only [lastValue?, List.reverse_append, List.reverse_singleton, List.singleton_append,
    List.lookup_cons]
  by_cases h : other = key
  · simp [h]
  · simp [h, beq_false_of_ne h]

theorem eraseDups_concat (names : List String) (name : String) :
    (names ++ [name]).eraseDups =
      if name ∈ names then names.eraseDups else names.eraseDups ++ [name] := by
  rw [List.eraseDups_append]
  by_cases h : name ∈ names
  · simp [h, List.removeAll]
  · simp [h, List.removeAll, List.eraseDups_cons]

/-- After a run of assignments every key has the value that came last, in the order in which the
keys first came up. -/
theorem slots_addEntries (entries : List (String × Option String)) :
    (Slots.empty.addEntries entries).slots =
      (entries.map Prod.fst).eraseDups.map fun key => (key, (lastValue? entries key).join) := by
  -- The last assignment is taken off: it alone may change what its key has.
  induction entries using List.reverseRecOn with
  | nil => rfl
  | append_singleton entries entry ih =>
    rcases entry with ⟨key, name⟩
    have hkeys : (Slots.empty.addEntries entries).keys = (entries.map Prod.fst).eraseDups := by
      simp [Slots.keys, ih, Function.comp_def]
    have hstep : Slots.empty.addEntries (entries ++ [(key, name)]) =
        (Slots.empty.addEntries entries).set key name := by
      simp [Slots.addEntries, List.foldl_append]
    rw [hstep, Slots.slots_set, hkeys, ih, List.map_append, List.map_singleton, eraseDups_concat]
    simp only [List.mem_eraseDups, lastValue?_concat]
    by_cases hmem : key ∈ entries.map Prod.fst
    · -- The key came up before, and its slot is changed in place.
      rw [if_pos hmem, if_pos hmem, List.map_map]
      refine List.map_congr_left fun other _ => ?_
      by_cases heq : other = key
      · simp [heq]
      · simp [heq]
    · -- The key comes up for the first time, behind all others.
      rw [if_neg hmem, if_neg hmem, List.map_append]
      congr 1
      · refine List.map_congr_left fun other hother => ?_
        have hne : other ≠ key := fun h => hmem (List.mem_eraseDups.1 (h ▸ hother))
        simp [hne]
      · simp

/-! ## Arguments -/

theorem addEntries_append (slots : Slots) (first second : List (String × Option String)) :
    slots.addEntries (first ++ second) = (slots.addEntries first).addEntries second :=
  List.foldl_append

mutual

/-- An argument adds the entries of its styles, however they are nested. -/
theorem add_eq_addEntries (slots : Slots) (input : MergeInput) :
    slots.add input = slots.addEntries (input.styles.flatMap StyleObject.entries) :=
  match input with
  | .style object => by simp [Slots.add, MergeInput.styles]
  | .list items => by
    rw [Slots.add, MergeInput.styles]
    exact addAll_eq_addEntries slots items
  | .skip _ => rfl

theorem addAll_eq_addEntries (slots : Slots) (inputs : List MergeInput) :
    slots.addAll inputs =
      slots.addEntries ((MergeInput.stylesOf inputs).flatMap StyleObject.entries) :=
  match inputs with
  | [] => rfl
  | item :: rest => by
    rw [Slots.addAll, MergeInput.stylesOf, List.flatMap_append, addEntries_append,
      add_eq_addEntries slots item]
    exact addAll_eq_addEntries _ rest

end

theorem get?_eq_lookup (entries : List (String × Option String)) (key : String) :
    Entries.get? entries key = entries.lookup key := by
  induction entries with
  | nil => rfl
  | cons head rest ih =>
    rcases head with ⟨name, value⟩
    by_cases h : name = key
    · simp [Entries.get?, h]
    · simp [Entries.get?, List.lookup_cons, h, beq_false_of_ne (Ne.symm h), ih]

/-- Where no two entries have one key, the first one of a key is also the last. -/
theorem lookup_reverse {entries : List (String × Option String)}
    (h : (entries.map Prod.fst).Nodup) (key : String) :
    entries.reverse.lookup key = entries.lookup key := by
  induction entries with
  | nil => rfl
  | cons head rest ih =>
    rcases head with ⟨name, value⟩
    rcases List.nodup_cons.1 h with ⟨hname, hrest⟩
    rw [List.reverse_cons, List.lookup_append, ih hrest]
    by_cases heq : key = name
    · -- No other entry has the key of the first one.
      subst heq
      have hnone : rest.lookup key = none := by
        refine List.lookup_eq_none_iff.2 fun entry hentry => ?_
        have hmem : entry.1 ∈ rest.map Prod.fst := List.mem_map_of_mem hentry
        exact bne_iff_ne.2 fun hkey => hname (hkey ▸ hmem)
      simp [hnone]
    · simp [List.lookup_cons, beq_false_of_ne heq]

theorem lastValue?_entries (style : StyleObject) (key : String) :
    lastValue? style.entries key = style.get? key := by
  rw [lastValue?, StyleObject.entries, lookup_reverse style.classes.nodup_keys, ← get?_eq_lookup]
  rfl

/-- The last value of a key among the entries of styles is that of the last style that has it. -/
theorem lastValue?_flatMap (styles : List StyleObject) (key : String) :
    lastValue? (styles.flatMap StyleObject.entries) key = Meaning.winner? styles key := by
  induction styles using List.reverseRecOn with
  | nil => rfl
  | append_singleton styles style ih =>
    simp only [lastValue?, Meaning.winner?] at ih
    simp only [lastValue?, Meaning.winner?, List.flatMap_append, List.flatMap_singleton,
      List.reverse_append, List.lookup_append, ih, List.reverse_singleton, List.singleton_append,
      List.findSome?_cons]
    rw [show style.entries.reverse.lookup key = style.get? key from lastValue?_entries style key]
    cases style.get? key with
    | none => rfl
    | some value => rfl

/-- The names that `withoutRepeats` keeps are the first occurrences of those not seen before. -/
theorem withoutRepeats_eq (seen names : List String) :
    Slots.withoutRepeats seen names = (names.filter (· ∉ seen)).eraseDups := by
  induction names generalizing seen with
  | nil => rfl
  | cons name rest ih =>
    rw [Slots.withoutRepeats]
    by_cases hseen : name ∈ seen
    · rw [if_pos hseen, ih, List.filter_cons_of_neg (by simpa using hseen)]
    · rw [if_neg hseen, ih, List.filter_cons_of_pos (by simpa using hseen), List.eraseDups_cons,
        List.filter_filter]
      congr 3
      funext other
      by_cases h : other = name
      · simp [h]
      · simp [h]

/-- The classes that a merge leaves are those that its styles mean. -/
theorem merge_classes (inputs : List MergeInput) :
    (merge inputs).classes = Meaning.classes (MergeInput.stylesOf inputs) := by
  have hslots : (Slots.empty.addAll inputs).slots =
      (Meaning.keys (MergeInput.stylesOf inputs)).map fun key =>
        (key, (Meaning.winner? (MergeInput.stylesOf inputs) key).join) := by
    rw [addAll_eq_addEntries, slots_addEntries]
    simp only [lastValue?_flatMap, List.map_flatMap]
    rfl
  have hunseen : ∀ names : List String, names.filter (· ∉ ([] : List String)) = names :=
    fun names => List.filter_eq_self.2 fun _ _ => by simp
  rw [merge, Slots.result, withoutRepeats_eq, hunseen, hslots, List.filterMap_map]
  rfl

theorem Meaning.winner?_pair (first second : StyleObject) (key : String) :
    Meaning.winner? [first, second] key = (second.get? key).or (first.get? key) := by
  simp only [Meaning.winner?, List.reverse_cons, List.reverse_nil, List.nil_append,
    List.singleton_append, List.findSome?_cons, List.findSome?_nil]
  cases second.get? key with
  | none => cases first.get? key <;> rfl
  | some value => rfl

/-- A class is left by a merge just if it wins some key. -/
theorem mem_merge_classes {inputs : List MergeInput} {name : String} :
    name ∈ (merge inputs).classes ↔
      ∃ key, Meaning.winner? (MergeInput.stylesOf inputs) key = some (some name) := by
  rw [merge_classes, Meaning.classes, List.mem_eraseDups, List.mem_filterMap]
  constructor
  · rintro ⟨key, -, hkey⟩
    exact ⟨key, Option.join_eq_some_iff.1 hkey⟩
  · rintro ⟨key, hkey⟩
    refine ⟨key, ?_, Option.join_eq_some_iff.2 hkey⟩
    rcases List.exists_of_findSome?_eq_some hkey with ⟨style, hstyle, hget⟩
    rw [Meaning.keys, List.mem_eraseDups]
    refine List.mem_flatMap.2 ⟨style, List.mem_reverse.1 hstyle, ?_⟩
    exact KeyMap.mem_keys_iff.2 (Option.isSome_iff_exists.2 ⟨_, hget⟩)

theorem nodup_eraseDups (names : List String) : names.eraseDups.Nodup := by
  induction names using List.reverseRecOn with
  | nil => exact List.Pairwise.nil
  | append_singleton names name ih =>
    rw [eraseDups_concat]
    split
    · exact ih
    · rename_i h
      refine List.nodup_append.2 ⟨ih, by simp, ?_⟩
      intro a ha b hb heq
      rw [List.mem_singleton.1 hb] at heq
      exact h (List.mem_eraseDups.1 (heq ▸ ha))

/-- A merge is what its styles mean: of the arguments only the styles matter, in the order in which
they are found, and no class is listed twice. -/
theorem merge_eq_meaning (inputs : List MergeInput) :
    (merge inputs).classes = Meaning.classes (MergeInput.stylesOf inputs) ∧
      (∀ others, MergeInput.stylesOf others = MergeInput.stylesOf inputs →
        merge others = merge inputs) ∧
      (merge inputs).classes.Nodup := by
  refine ⟨merge_classes inputs, fun others h => ?_, ?_⟩
  · have hclasses : (merge others).classes = (merge inputs).classes := by
      rw [merge_classes, merge_classes, h]
    cases hothers : merge others
    cases hinputs : merge inputs
    simpa [hothers, hinputs] using hclasses
  · rw [merge_classes]
    exact nodup_eraseDups _

/-- Arguments in lists count as if they stood alone, and a reset takes a class away. -/
theorem merge_eq_meaning_nested :
    let base := (StyleObject.empty.set "color" (some "x1")).set "margin" (some "x2")
    let wide := StyleObject.empty.set "width" (some "x3")
    let reset := StyleObject.empty.set "color" none
    merge [.style base, .skip .null, .list [.list [.style wide], .style reset]] =
        merge [.style base, .style wide, .style reset] ∧
      (merge [.style base, .style wide, .style reset]).classes = ["x2", "x3"] := by
  intro base wide reset
  obtain ⟨hclasses, hothers, -⟩ := merge_eq_meaning [.style base, .style wide, .style reset]
  have hmeaning : Meaning.classes [base, wide, reset] = ["x2", "x3"] := by decide +kernel
  exact ⟨hothers _ rfl, hclasses.trans hmeaning⟩

end AtomicCss
