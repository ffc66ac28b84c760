import AtomicCss.Proofs.Compile.Declarations
import Mathlib.Data.List.Perm.Basic
/-!
# The canonical form of keyframes

A block has its frames and their properties in order, so it does not depend on the order in which
steps and properties are written, as long as no two steps begin with the same percentage and no step
has a property twice (`normalize_rearranged`). Both conditions are needed, since sorting leaves what
ties in the order in which it is written.
-/

namespace AtomicCss

/-! ## Sorting by keys -/

section Sorting

variable {α κ : Type} [LE κ] [DecidableLE κ] [Std.IsLinearOrder κ] (key : α → κ)

/-- Sorted items are in the order of their keys. -/
theorem pairwise_mergeSort_le (items : List α) :
    (items.mergeSort fun a b => decide (key a ≤ key b)).Pairwise fun a b => key a ≤ key b := by
  refine (List.pairwise_mergeSort (fun a b c hab hbc => ?_) (fun a b => ?_) items).imp
    of_decide_eq_true
  · exact decide_eq_true (Std.le_trans (of_decide_eq_true hab) (of_decide_eq_true hbc))
  · simpa using Std.le_total (a := key a) (b := key b)

variable [LT κ] [Std.LawfulOrderLT κ] {items others : List α}

/-- Items with different keys are sorted strictly. -/
theorem pairwise_mergeSort_lt (hkeys : (items.map key).Nodup) :
    (items.mergeSort fun a b => decide (key a ≤ key b)).Pairwise fun a b => key a < key b := by
  have hdistinct : (items.mergeSort fun a b => decide (key a ≤ key b)).Pairwise
      fun a b => key a ≠ key b :=
    List.pairwise_map.1 (((List.mergeSort_perm items _).map key).nodup_iff.2 hkeys)
  exact ((pairwise_mergeSort_le key items).and hdistinct).imp
    fun ⟨hle, hne⟩ => Std.lt_of_le_of_ne hle hne

/-- Items with different keys are sorted into one list, whatever order they come in. -/
theorem mergeSort_eq_of_perm (hkeys : (items.map key).Nodup) (hperm : items.Perm others) :
    (items.mergeSort fun a b => decide (key a ≤ key b)) =
      others.mergeSort fun a b => decide (key a ≤ key b) := by
  have hothers : (others.map key).Nodup := (hperm.map key).nodup_iff.1 hkeys
  have hsorted : (items.mergeSort fun a b => decide (key a ≤ key b)).Perm
      (others.mergeSort fun a b => decide (key a ≤ key b)) :=
    (List.mergeSort_perm items _).trans (hperm.trans (List.mergeSort_perm others _).symm)
  refine hsorted.eq_of_pairwise (fun a b _ _ hab hba => ?_) (pairwise_mergeSort_lt key hkeys)
    (pairwise_mergeSort_lt key hothers)
  exact absurd hba (Std.not_lt.2 (Std.le_of_lt hab))

end Sorting

/-- What holds for all items, and carries over to what these are related to, holds for all of it. -/
theorem forall_mem_of_forall₂ {α β : Type} {R : α → β → Prop} {P : α → Prop} {Q : β → Prop}
    {items : List α} {others : List β} (h : List.Forall₂ R items others)
    (hcarry : ∀ a b, R a b → P a → Q b) (hitems : ∀ a ∈ items, P a) : ∀ b ∈ others, Q b := by
  induction h with
  | nil => exact List.forall_mem_nil Q
  | cons hab _ ih =>
    obtain ⟨ha, hrest⟩ := List.forall_mem_cons.1 hitems
    exact List.forall_mem_cons.2 ⟨hcarry _ _ hab ha, ih hrest⟩

/-- Where the results are permuted, the items can be, too. -/
theorem exists_perm_of_forall₂ {α β : Type} {R : α → β → Prop} {items : List α}
    {others sorted : List β} (h : List.Forall₂ R items others) (hperm : others.Perm sorted) :
    ∃ rearranged, items.Perm rearranged ∧ List.Forall₂ R rearranged sorted := by
  obtain ⟨rearranged, hrelated, hitems⟩ := List.perm_comp_forall₂ hperm.symm h.flip
  exact ⟨rearranged, hitems.symm, hrelated.flip⟩

namespace Keyframes

/-! ## Rearranging keyframes -/

/-- The place of a step among the others, that of its first percentage, if its selector has one. -/
def Step.place? (step : Step) : Option Int :=
  match Selector.parse step.selector with
  | .ok selector => some selector.first.position
  | .error _ => none

/-- The CSS names of the properties of a step. -/
def Step.names (step : Step) : List String :=
  step.properties.map fun property => Property.cssName property.1

/-- No two steps have one place, and no step has one property twice. -/
structure IsUnambiguous (keyframes : Keyframes) : Prop where
  places : (keyframes.steps.filterMap Step.place?).Nodup
  names : ∀ step ∈ keyframes.steps, step.names.Nodup

/-- A step with its properties in another order. -/
structure Step.Rearranged (first second : Step) : Prop where
  selector : first.selector = second.selector
  properties : first.properties.Perm second.properties

/-- Keyframes with the properties of their steps, and then the steps, in another order. -/
def Rearranged (first second : Keyframes) : Prop :=
  ∃ steps, List.Forall₂ Step.Rearranged first.steps steps ∧ steps.Perm second.steps

section Rearranged

variable {first second : Keyframes}

theorem Step.Rearranged.symm {first second : Step} (h : first.Rearranged second) :
    second.Rearranged first :=
  ⟨h.selector.symm, h.properties.symm⟩

theorem Rearranged.symm (h : Rearranged first second) : Rearranged second first := by
  obtain ⟨steps, hsteps, hperm⟩ := h
  -- Undoing both changes permutes the steps first, so they have to change places.
  have hback : List.Forall₂ Step.Rearranged steps first.steps :=
    hsteps.flip.imp fun _ _ => Step.Rearranged.symm
  exact List.perm_comp_forall₂ hperm.symm hback

/-- A rearranged step has its place. -/
theorem Step.Rearranged.place?_eq {first second : Step} (h : first.Rearranged second) :
    first.place? = second.place? := by
  rw [place?, place?, h.selector]

theorem filterMap_place?_eq {steps others : List Step}
    (h : List.Forall₂ Step.Rearranged steps others) :
    steps.filterMap Step.place? = others.filterMap Step.place? := by
  induction h with
  | nil => rfl
  | cons hstep _ ih => rw [List.filterMap_cons, List.filterMap_cons, hstep.place?_eq, ih]

/-- Rearranged keyframes are unambiguous. -/
theorem IsUnambiguous.rearranged (hfirst : first.IsUnambiguous) (h : Rearranged first second) :
    second.IsUnambiguous := by
  obtain ⟨steps, hsteps, hperm⟩ := h
  constructor
  · rw [← (hperm.filterMap Step.place?).nodup_iff, ← filterMap_place?_eq hsteps]
    exact hfirst.places
  · have hnames : ∀ step ∈ steps, step.names.Nodup :=
      forall_mem_of_forall₂ hsteps (fun _ _ hstep => (hstep.properties.map _).nodup_iff.1)
        hfirst.names
    exact fun step hstep => hnames step (hperm.mem_iff.2 hstep)

end Rearranged

/-! ## Names and places of what is kept -/

section Normalized

variable {options : Options}

/-- The properties of a step have the names of what they are kept as. -/
theorem map_fst_of_normalizeProperty {properties : List (String × RawValue)}
    {kept : List (String × Value)}
    (h : List.Forall₂ (fun property kept => normalizeProperty options property = .ok kept)
      properties kept) :
    kept.map Prod.fst = properties.map fun property => Property.cssName property.1 := by
  induction h with
  | nil => rfl
  | cons hproperty _ ih =>
    rw [List.map_cons, List.map_cons, ih, (normalizeProperty_eq_ok_iff.1 hproperty).1]

/-- A frame stands at the place of its step. -/
theorem Step.place?_of_normalize {step : Step} {frame : Frame}
    (h : step.normalize options = .ok frame) :
    step.place? = some frame.selector.first.position := by
  obtain ⟨selector, properties, hselector, -, rfl⟩ := Step.normalize_eq_ok_iff.1 h
  rw [place?, hselector]

/-- Frames have the places of their steps. -/
theorem map_position_of_normalize {steps : List Step} {frames : List Frame}
    (h : List.Forall₂ (fun step frame => Step.normalize options step = .ok frame) steps frames) :
    (frames.map fun frame => frame.selector.first.position) = steps.filterMap Step.place? := by
  induction h with
  | nil => rfl
  | cons hstep _ ih =>
    rw [List.map_cons, ih, List.filterMap_cons_some (Step.place?_of_normalize hstep)]

/-! ## Rearranged keyframes have one canonical form -/

/-- A rearranged step has the same frame. -/
theorem Step.Rearranged.normalize_eq_ok {first second : Step} {frame : Frame}
    (h : first.Rearranged second) (hnames : first.names.Nodup)
    (hframe : first.normalize options = .ok frame) : second.normalize options = .ok frame := by
  obtain ⟨selector, kept, hselector, hkept, rfl⟩ := Step.normalize_eq_ok_iff.1 hframe
  -- The other order of the properties gives what is kept in another order, which sorting undoes.
  obtain ⟨others, hothers, hperm⟩ := List.perm_comp_forall₂ h.properties.symm hkept
  have hkeys : (kept.map Prod.fst).Nodup := by
    rw [map_fst_of_normalizeProperty hkept]
    exact hnames
  refine Step.normalize_eq_ok_iff.2 ⟨selector, others, h.selector ▸ hselector, hothers, ?_⟩
  rw [mergeSort_eq_of_perm Prod.fst hkeys hperm.symm]

/-- Steps with their properties rearranged have the same frames. -/
theorem forall₂_normalize_of_rearranged {steps others : List Step} {frames : List Frame}
    (h : List.Forall₂ Step.Rearranged steps others) (hnames : ∀ step ∈ steps, step.names.Nodup)
    (hframes : List.Forall₂ (fun step frame => Step.normalize options step = .ok frame)
      steps frames) :
    List.Forall₂ (fun step frame => Step.normalize options step = .ok frame) others frames := by
  induction h generalizing frames with
  | nil => exact hframes
  | cons hstep _ ih =>
    obtain ⟨hstepNames, hrestNames⟩ := List.forall_mem_cons.1 hnames
    cases hframes with
    | cons hframe hrest =>
      exact .cons (hstep.normalize_eq_ok hstepNames hframe) (ih hrestNames hrest)

/-- Rearranged keyframes have the same block. -/
theorem Rearranged.normalize_eq_ok {first second : Keyframes} {block : Block}
    (h : Rearranged first second) (hfirst : first.IsUnambiguous)
    (hblock : first.normalize options = .ok block) : second.normalize options = .ok block := by
  obtain ⟨steps, hsteps, hperm⟩ := h
  obtain ⟨frames, hframes, rfl⟩ := normalize_eq_ok_iff.1 hblock
  -- Rearranging the properties of steps keeps the frames, and permuting the steps permutes them.
  have hsame := forall₂_normalize_of_rearranged hsteps hfirst.names hframes
  obtain ⟨others, hothers, hframesPerm⟩ := List.perm_comp_forall₂ hperm.symm hsame
  have hplaces : (frames.map fun frame => frame.selector.first.position).Nodup := by
    rw [map_position_of_normalize hframes]
    exact hfirst.places
  have hsorted : frames.mergeSort Frame.le = others.mergeSort Frame.le :=
    mergeSort_eq_of_perm (fun frame : Frame => frame.selector.first.position) hplaces
      hframesPerm.symm
  exact normalize_eq_ok_iff.2 ⟨others, hothers, by rw [hsorted]⟩

/-! ## What a block consists of -/

/-- The frames of a block are in the strict order of their places, and the properties of each frame
in that of their names. -/
structure Block.IsAscending (block : Block) : Prop where
  frames : block.frames.Pairwise fun a b => a.selector.first.position < b.selector.first.position
  properties : ∀ frame ∈ block.frames, frame.properties.Pairwise fun a b => a.1 < b.1

/-- A property is kept under its CSS name with a text for each of its fallbacks, in their order. -/
structure RetainsProperty (options : Options) (property : String × RawValue)
    (kept : String × Value) : Prop where
  name : kept.1 = Property.cssName property.1
  texts : List.Forall₂ (fun scalar text =>
    Setting.normalizeScalar ⟨kept.1, options⟩ scalar = .ok text) property.2.scalars kept.2.texts

/-- A step is kept under its selector with all its properties, in some order. -/
structure Step.Retains (options : Options) (step : Step) (frame : Frame) : Prop where
  selector : Selector.parse step.selector = .ok frame.selector
  properties : ∃ properties, step.properties.Perm properties ∧
    List.Forall₂ (RetainsProperty options) properties frame.properties

/-- Keyframes are kept with all their steps, in some order. -/
def Retains (options : Options) (keyframes : Keyframes) (block : Block) : Prop :=
  ∃ steps, keyframes.steps.Perm steps ∧ List.Forall₂ (Step.Retains options) steps block.frames

theorem retainsProperty_of_normalizeProperty {property : String × RawValue} {kept : String × Value}
    (h : normalizeProperty options property = .ok kept) :
    RetainsProperty options property kept := by
  obtain ⟨hname, hvalue⟩ := normalizeProperty_eq_ok_iff.1 h
  exact ⟨hname.symm, AtomicCss.normalize_eq_ok_iff.1 hvalue⟩

/-- A frame loses nothing of its step. -/
theorem Step.retains_of_normalize {step : Step} {frame : Frame}
    (h : step.normalize options = .ok frame) : step.Retains options frame := by
  obtain ⟨selector, kept, hselector, hkept, rfl⟩ := Step.normalize_eq_ok_iff.1 h
  exact ⟨hselector, exists_perm_of_forall₂
    (hkept.imp fun _ _ => retainsProperty_of_normalizeProperty) (List.mergeSort_perm _ _).symm⟩

/-- A block loses nothing of its keyframes. -/
theorem retains_of_normalize {keyframes : Keyframes} {block : Block}
    (h : keyframes.normalize options = .ok block) : keyframes.Retains options block := by
  obtain ⟨frames, hframes, rfl⟩ := normalize_eq_ok_iff.1 h
  exact exists_perm_of_forall₂ (hframes.imp fun _ _ => Step.retains_of_normalize)
    (List.mergeSort_perm _ _).symm

/-- The properties of a frame are in the order of their names. -/
theorem Step.pairwise_of_normalize {step : Step} {frame : Frame} (hnames : step.names.Nodup)
    (h : step.normalize options = .ok frame) : frame.properties.Pairwise fun a b => a.1 < b.1 := by
  obtain ⟨selector, kept, -, hkept, rfl⟩ := Step.normalize_eq_ok_iff.1 h
  refine pairwise_mergeSort_lt Prod.fst ?_
  rw [map_fst_of_normalizeProperty hkept]
  exact hnames

/-- The frames of a block are in the order of their places. -/
theorem IsUnambiguous.isAscending {keyframes : Keyframes} {block : Block}
    (hkeyframes : keyframes.IsUnambiguous) (h : keyframes.normalize options = .ok block) :
    block.IsAscending := by
  obtain ⟨frames, hframes, rfl⟩ := normalize_eq_ok_iff.1 h
  constructor
  · refine pairwise_mergeSort_lt (fun frame : Frame => frame.selector.first.position) ?_
    rw [map_position_of_normalize hframes]
    exact hkeyframes.places
  · intro frame hframe
    obtain ⟨step, hstep, hnormal⟩ :=
      (mem_iff_of_forall₂ hframes).1 (List.mem_mergeSort.1 hframe)
    exact Step.pairwise_of_normalize (hkeyframes.names step hstep) hnormal

/-- Rearranged keyframes have a block both or neither, and then the same one, with the same body,
name and class. It is in strict order and keeps everything that either of them is written with. -/
theorem normalize_rearranged {first second : Keyframes} (h : Rearranged first second)
    (hfirst : first.IsUnambiguous) (options : Options) :
    ((∃ block, first.normalize options = .ok block) ↔
        ∃ block, second.normalize options = .ok block) ∧
      ∀ block, first.normalize options = .ok block →
        second.normalize options = .ok block ∧
        (∀ other mark, second.normalize options = .ok other → other.body = block.body ∧
          other.name mark = block.name mark ∧ other.toAtomic mark = block.toAtomic mark) ∧
        block.IsAscending ∧ first.Retains options block ∧ second.Retains options block := by
  refine ⟨⟨fun ⟨block, hblock⟩ => ⟨block, h.normalize_eq_ok hfirst hblock⟩, ?_⟩, ?_⟩
  · rintro ⟨block, hblock⟩
    exact ⟨block, h.symm.normalize_eq_ok (hfirst.rearranged h) hblock⟩
  · intro block hblock
    have hsecond := h.normalize_eq_ok hfirst hblock
    refine ⟨hsecond, fun other mark hother => ?_, hfirst.isAscending hblock,
      retains_of_normalize hblock, retains_of_normalize hsecond⟩
    obtain rfl : block = other := Except.ok.inj (hsecond.symm.trans hother)
    exact ⟨rfl, rfl, rfl⟩

/-- Two steps, in one of which two properties come the other way round, too. -/
theorem normalize_rearranged_fading :
    let solid : List (String × RawValue) :=
      [("opacity", .single (.text "1")), ("color", .fallbacks [.text "red", .text "Blue"])]
    let clear : Keyframes.Step := ⟨"From", [("opacity", .single (.text ".50"))]⟩
    let first : Keyframes := ⟨[⟨"50%", solid⟩, clear]⟩
    let second : Keyframes := ⟨[clear, ⟨"50%", solid.reverse⟩]⟩
    (Rearranged first second ∧ first.IsUnambiguous) ∧
      ∃ block, first.normalize {} = .ok block ∧ second.normalize {} = .ok block ∧
        block.IsAscending ∧ first.Retains {} block ∧ second.Retains {} block := by
  intro solid clear first second
  have hrearranged : Rearranged first second :=
    ⟨[⟨"50%", solid.reverse⟩, clear],
      .cons ⟨rfl, by decide⟩ (.cons ⟨rfl, .refl _⟩ .nil), by decide⟩
  have hfirst : first.IsUnambiguous := ⟨by decide +kernel, by decide +kernel⟩
  have hok : (first.normalize {}).isOk = true := by decide +kernel
  refine ⟨⟨hrearranged, hfirst⟩, ?_⟩
  obtain ⟨-, hblocks⟩ := normalize_rearranged hrearranged hfirst {}
  cases hblock : first.normalize {} with
  | error error =>
    rw [hblock] at hok
    contradiction
  | ok block =>
    obtain ⟨hsecond, -, hrest⟩ := hblocks block hblock
    exact ⟨block, rfl, hsecond, hrest⟩

end Normalized

end Keyframes

end AtomicCss
