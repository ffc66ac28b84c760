import AtomicCss.Origin
import AtomicCss.Proofs.Compile.Authored
import AtomicCss.Proofs.Value.Source
/-!
# Declarations of rules

The declarations between the braces of a rule, and what is authored for them. Every text or number
that is authored for a property becomes one declaration, and a block of keyframes has no others
(`Keyframes.mem_declarations_iff`).
-/

namespace AtomicCss

/-! ## What is written in a rule -/

/-- The declarations of a frame, a property and a text each. -/
def Keyframes.Frame.declarations (frame : Frame) : List (String × String) :=
  frame.properties.flatMap fun (name, value) => value.texts.map (name, ·)

/-- The declarations of the rule of an origin, those in all frames of a block. -/
def Origin.declarations : Origin → List (String × String)
  | declaration d => d.value.texts.map (d.property, ·)
  | keyframes block => block.frames.flatMap Keyframes.Frame.declarations

/-- The text of a class consists of its declarations. -/
theorem Declaration.body_eq (d : Declaration) :
    d.body = ";".intercalate
      ((Origin.declaration d).declarations.map fun (name, text) => name ++ ":" ++ text) := by
  rw [Origin.declarations, List.map_map]
  rfl

theorem join_flatMap {α : Type} (f : α → List String) (items : List α) :
    String.join (items.flatMap f) = String.join (items.map fun item => String.join (f item)) := by
  induction items with
  | nil => rfl
  | cons item rest ih => simp [ih]

/-- The text of a frame consists of its declarations. -/
theorem Keyframes.Frame.text_eq (frame : Frame) :
    frame.text = frame.selector.text ++
      braced (String.join
        (frame.declarations.map fun (name, text) => name ++ ":" ++ text ++ ";")) := by
  simp only [text, declarations, List.map_flatMap, join_flatMap, List.map_map]
  rfl

/-! ## What is authored -/

/-- The texts and numbers that keyframes are authored with, under the CSS names of properties. -/
def Keyframes.authored (keyframes : Keyframes) : List (String × Scalar) :=
  keyframes.steps.flatMap fun step =>
    step.properties.flatMap fun (key, raw) => raw.scalars.map (Property.cssName key, ·)

/-- The texts and numbers that an assignment is authored with. -/
def Assignment.authored (assignment : Assignment) : List (String × Scalar) :=
  match assignment.assigned with
  | .value raw => raw.scalars.map (assignment.property, ·)
  | .reset => []
  | .keyframes keyframes => keyframes.authored

section Normalized

variable {options : Options}

namespace Keyframes

theorem normalizeProperty_eq_ok_iff {property : String × RawValue} {kept : String × Value} :
    normalizeProperty options property = .ok kept ↔
      Property.cssName property.1 = kept.1 ∧
        AtomicCss.normalize options kept.1 property.2 = .ok kept.2 := by
  rw [normalizeProperty, Except.bind_eq_ok_iff]
  constructor
  · rintro ⟨value, hvalue, ⟨⟩⟩
    exact ⟨rfl, hvalue⟩
  · rcases kept with ⟨name, value⟩
    rintro ⟨rfl, hvalue⟩
    exact ⟨value, hvalue, rfl⟩

/-- A frame comes from a selector and from properties that all are in order. -/
theorem Step.normalize_eq_ok_iff {step : Step} {frame : Frame} :
    step.normalize options = .ok frame ↔
      ∃ selector properties, Selector.parse step.selector = .ok selector ∧
        List.Forall₂ (fun property kept => normalizeProperty options property = .ok kept)
          step.properties properties ∧
        frame = ⟨selector, properties.mergeSort fun a b => decide (a.1 ≤ b.1)⟩ := by
  constructor
  · intro h
    obtain ⟨selector, hselector, hrest⟩ := Except.bind_eq_ok_iff.1 h
    obtain ⟨properties, hproperties, hframe⟩ := Except.bind_eq_ok_iff.1 hrest
    exact ⟨selector, properties, hselector, forall₂_of_mapM hproperties,
      (Except.ok.inj hframe).symm⟩
  · rintro ⟨selector, properties, hselector, hproperties, rfl⟩
    exact Except.bind_eq_ok_iff.2 ⟨selector, hselector,
      Except.bind_eq_ok_iff.2 ⟨properties, mapM_of_forall₂ hproperties, rfl⟩⟩

/-- A block comes from steps that all have a frame. -/
theorem normalize_eq_ok_iff {keyframes : Keyframes} {block : Block} :
    keyframes.normalize options = .ok block ↔
      ∃ frames, List.Forall₂ (fun step frame => Step.normalize options step = .ok frame)
          keyframes.steps frames ∧
        block = ⟨frames.mergeSort Frame.le⟩ := by
  constructor
  · intro h
    obtain ⟨frames, hframes, hblock⟩ := Except.bind_eq_ok_iff.1 h
    exact ⟨frames, forall₂_of_mapM hframes, (Except.ok.inj hblock).symm⟩
  · rintro ⟨frames, hframes, rfl⟩
    exact Except.bind_eq_ok_iff.2 ⟨frames, mapM_of_forall₂ hframes, rfl⟩

/-- A frame has the properties of its step, in another order. -/
theorem Step.mem_properties_iff {step : Step} {frame : Frame}
    (h : step.normalize options = .ok frame) {name : String} {value : Value} :
    (name, value) ∈ frame.properties ↔
      ∃ property ∈ step.properties, Property.cssName property.1 = name ∧
        AtomicCss.normalize options name property.2 = .ok value := by
  obtain ⟨selector, properties, -, hproperties, rfl⟩ := Step.normalize_eq_ok_iff.1 h
  rw [List.mem_mergeSort, mem_iff_of_forall₂ hproperties]
  simp only [normalizeProperty_eq_ok_iff]

theorem Step.exists_value {step : Step} {frame : Frame} (h : step.normalize options = .ok frame)
    {property : String × RawValue} (hproperty : property ∈ step.properties) :
    ∃ value, AtomicCss.normalize options (Property.cssName property.1) property.2 = .ok value := by
  obtain ⟨selector, properties, -, hproperties, -⟩ := Step.normalize_eq_ok_iff.1 h
  obtain ⟨kept, -, hkept⟩ := exists_result_of_forall₂ hproperties hproperty
  obtain ⟨hname, hvalue⟩ := normalizeProperty_eq_ok_iff.1 hkept
  rw [hname]
  exact ⟨kept.2, hvalue⟩

theorem mem_frames_iff {keyframes : Keyframes} {block : Block}
    (h : keyframes.normalize options = .ok block) {frame : Frame} :
    frame ∈ block.frames ↔ ∃ step ∈ keyframes.steps, step.normalize options = .ok frame := by
  obtain ⟨frames, hframes, rfl⟩ := normalize_eq_ok_iff.1 h
  rw [List.mem_mergeSort, mem_iff_of_forall₂ hframes]

theorem exists_frame {keyframes : Keyframes} {block : Block}
    (h : keyframes.normalize options = .ok block) {step : Step} (hstep : step ∈ keyframes.steps) :
    ∃ frame, step.normalize options = .ok frame := by
  obtain ⟨frames, hframes, -⟩ := normalize_eq_ok_iff.1 h
  obtain ⟨frame, -, hframe⟩ := exists_result_of_forall₂ hframes hstep
  exact ⟨frame, hframe⟩

variable {keyframes : Keyframes} {block : Block}

theorem mem_authored_iff {name : String} {scalar : Scalar} :
    (name, scalar) ∈ keyframes.authored ↔
      ∃ step ∈ keyframes.steps, ∃ property ∈ step.properties,
        Property.cssName property.1 = name ∧ scalar ∈ property.2.scalars := by
  simp only [authored, List.mem_flatMap, List.mem_map, Prod.mk.injEq]
  refine exists_congr fun step => and_congr_right fun _ => exists_congr fun property =>
    and_congr_right fun _ => ?_
  constructor
  · rintro ⟨_, hscalar, hname, rfl⟩
    exact ⟨hname, hscalar⟩
  · rintro ⟨hname, hscalar⟩
    exact ⟨scalar, hscalar, hname, rfl⟩

/-- The declarations of a block are the canonical texts of what is authored for it. -/
theorem mem_declarations_iff (h : keyframes.normalize options = .ok block) {name text : String} :
    (name, text) ∈ (Origin.keyframes block).declarations ↔
      ∃ scalar, (name, scalar) ∈ keyframes.authored ∧
        Setting.normalizeScalar ⟨name, options⟩ scalar = .ok text := by
  have hframe : ∀ frame : Frame, (name, text) ∈ frame.declarations ↔
      ∃ value, (name, value) ∈ frame.properties ∧ text ∈ value.texts := by
    intro frame
    simp only [Frame.declarations, List.mem_flatMap, List.mem_map, Prod.mk.injEq]
    constructor
    · rintro ⟨⟨_, value⟩, hmem, _, htext, rfl, rfl⟩
      exact ⟨value, hmem, htext⟩
    · rintro ⟨value, hmem, htext⟩
      exact ⟨_, hmem, text, htext, rfl, rfl⟩
  -- Frames go back to steps, their values to properties, and the texts to scalars.
  simp only [Origin.declarations, List.mem_flatMap, hframe, mem_authored_iff]
  constructor
  · rintro ⟨frame, hmem, value, hvalue, htext⟩
    obtain ⟨step, hstep, hnormal⟩ := (mem_frames_iff h).1 hmem
    obtain ⟨property, hproperty, hname, hraw⟩ := (Step.mem_properties_iff hnormal).1 hvalue
    obtain ⟨scalar, hscalar, hprinted⟩ := (mem_texts_iff hraw).1 htext
    exact ⟨scalar, ⟨step, hstep, property, hproperty, hname, hscalar⟩, hprinted⟩
  · rintro ⟨scalar, ⟨step, hstep, property, hproperty, rfl, hscalar⟩, hprinted⟩
    obtain ⟨frame, hnormal⟩ := exists_frame h hstep
    obtain ⟨value, hraw⟩ := Step.exists_value hnormal hproperty
    exact ⟨frame, (mem_frames_iff h).2 ⟨step, hstep, hnormal⟩, value,
      (Step.mem_properties_iff hnormal).2 ⟨property, hproperty, rfl, hraw⟩,
      (mem_texts_iff hraw).2 ⟨scalar, hscalar, hprinted⟩⟩

/-- What is authored for a block that has a canonical form has a canonical text. -/
theorem exists_text_of_authored (h : keyframes.normalize options = .ok block) {name : String}
    {scalar : Scalar} (hscalar : (name, scalar) ∈ keyframes.authored) :
    ∃ text, Setting.normalizeScalar ⟨name, options⟩ scalar = .ok text := by
  obtain ⟨step, hstep, property, hproperty, rfl, hmem⟩ := mem_authored_iff.1 hscalar
  obtain ⟨frame, hnormal⟩ := exists_frame h hstep
  obtain ⟨value, hraw⟩ := Step.exists_value hnormal hproperty
  exact (exists_text_of_mem hraw hmem).imp fun _ htext => htext.2

end Keyframes

end Normalized

end AtomicCss
